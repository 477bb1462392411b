import FeaturesOS.Scheduler.Bystanders
import FeaturesOS.Scheduler.DeedsTrap

/-!
# What a trap does to messages

The fields of an environment that a message goes through, and what the calls of
`sys_ipc_recv` and `sys_ipc_try_send` do to them.  Everything else that happens in
a trap leaves them alone, except that it saves the registers of the environment
that traps.
-/

namespace FeaturesOS.Scheduler

open Entry

/-- `env_ipc_recving`, `env_ipc_value`, `env_ipc_from` and the saved `eax`. -/
structure Mail where
  recving : Bool
  value : UInt32
  sender : UInt32
  eax : UInt32
deriving DecidableEq

def Env.mail (env : Env) : Mail :=
  { recving := env.envIpcRecving
    value := env.envIpcValue
    sender := env.envIpcFrom
    eax := env.envTf.tfRegs.regEax }

def Kernel.mail (kernel : Kernel) (e : Nat) : Mail := (kernel.envs e).mail

variable {build : Build} {cpu e : Nat} {kernel : Kernel} {mail : Nat → Mail}
variable {census : Census}

/-! ## What the scheduler does -/

theorem mail_updateEnv (kernel : Kernel) (e : Nat) (change : Env → Env) :
    (kernel.updateEnv e change).mail =
      Function.update kernel.mail e (change (kernel.envs e)).mail := by
  funext f
  by_cases same : f = e
  · subst same
    simp [Kernel.mail, Kernel.updateEnv, Kernel.setEnv]
  · simp [Kernel.mail, Kernel.updateEnv, Kernel.setEnv, same]

theorem mail_updateEnv_same (kernel : Kernel) (e : Nat) {change : Env → Env}
    (same : ∀ env, (change env).mail = env.mail) :
    (kernel.updateEnv e change).mail = kernel.mail := by
  rw [mail_updateEnv, same]
  exact Function.update_eq_self e kernel.mail

theorem blindToMem_mail : BlindToMem Kernel.mail := fun _ _ => rfl

theorem blindToQueues_mail : BlindToQueues Kernel.mail where
  mlfq _ _ := rfl
  colaActual kernel e _ := mail_updateEnv_same kernel e fun _ => rfl

theorem blindToScheduling_mail : BlindToScheduling Kernel.mail where
  queues := blindToQueues_mail
  curenv _ _ _ := rfl
  runs _ _ := rfl
  status kernel e _ := mail_updateEnv_same kernel e fun _ => rfl
  counted kernel e := mail_updateEnv_same kernel e fun _ => rfl
  dispatched kernel _ e := mail_updateEnv_same kernel e fun _ => rfl

/-- The messages are these. -/
def Holds (mail : Nat → Mail) (kernel : Kernel) : Prop := kernel.mail = mail

theorem triple_mail_of_frame {Result : Type} {entry : KernelM Result}
    (frame : Frame Kernel.mail entry) {left : Kernel → Prop} :
    Triple (Holds mail) entry (fun _ => Holds mail) left :=
  frame.triple (· = mail)

theorem triple_envRun_mail {Result : Type}
    {returned : Result → Kernel → Prop} :
    Triple (Holds mail) (envRun cpu e) returned (Holds mail) :=
  triple_envRun_blind blindToScheduling_mail (· = mail)

theorem triple_schedYield_mail {Result : Type}
    {returned : Result → Kernel → Prop} :
    Triple (Holds mail) (schedYield build cpu) returned (Holds mail) :=
  triple_schedYield_blind blindToScheduling_mail (· = mail)

/-! ## Parked environments -/

namespace Census

/-- `f` is not runnable, and no processor runs it. -/
structure Parked (census : Census) (f : Nat) : Prop where
  status : census.roster.status f = .notRunnable
  away : ∀ cpu, census.roster.current cpu ≠ some f

/-- `f` is not runnable, and no other processor than `cpu` runs it. -/
structure Parking (census : Census) (cpu f : Nat) : Prop where
  status : census.roster.status f = .notRunnable
  away : ∀ other, other ≠ cpu → census.roster.current other ≠ some f

/-- The environment takes part in the scheduling. -/
def Awake (census : Census) (f : Nat) : Prop :=
  census.roster.status f = .runnable ∨ census.roster.status f = .running

/-- When `cpu` leaves the kernel, what is not runnable is parked, and what was
awake or unused is so again. -/
structure Parks (census : Census) (cpu : Nat) (after : Census) : Prop where
  parked : ∀ f, census.Parking cpu f → after.Parked f
  awake : ∀ f, census.Awake f → after.Awake f
  unused : ∀ f, census.roster.status f = .free → after.roster.status f = .free

theorem Parked.parking {f : Nat} (parked : census.Parked f) (cpu : Nat) :
    census.Parking cpu f :=
  ⟨parked.status, fun other _ => parked.away other⟩

theorem status_soltar (roster : Roster) (cpu f : Nat) :
    (roster.soltar cpu).status f = roster.status f ∨
      roster.status f = .running ∧ (roster.soltar cpu).status f = .runnable := by
  unfold Roster.soltar
  cases roster.current cpu with
  | none => exact .inl rfl
  | some current =>
      dsimp only
      split
      · rename_i running
        by_cases same : f = current
        · subst same
          exact .inr ⟨running, Function.update_self _ _ _⟩
        · exact .inl (Function.update_of_ne same _ _)
      · exact .inl rfl

theorem current_soltar (roster : Roster) (cpu : Nat) :
    (roster.soltar cpu).current = roster.current := by
  unfold Roster.soltar
  cases roster.current cpu with
  | none => rfl
  | some current =>
      dsimp only
      split
      · rfl
      · rfl

/-- `env_run` on an environment that may run. -/
theorem Parks.dispatch (runs : census.Awake e) :
    census.Parks cpu (census.onRoster (·.dispatch cpu e)) := by
  have status : ∀ f, f ≠ e →
      (census.onRoster (·.dispatch cpu e)).roster.status f =
        (census.roster.soltar cpu).status f := fun f other =>
    Function.update_of_ne other _ _
  have own : (census.onRoster (·.dispatch cpu e)).roster.status e = .running :=
    Function.update_self _ _ _
  have currents : (census.onRoster (·.dispatch cpu e)).roster.current =
      Function.update census.roster.current cpu (some e) := by
    change Function.update (census.roster.soltar cpu).current cpu _ = _
    rw [current_soltar]
  constructor
  · intro f parking
    have other : f ≠ e := by
      intro same
      subst same
      have asleep := parking.status
      rcases runs with runnable | running
      · cases asleep.symm.trans runnable
      · cases asleep.symm.trans running
    constructor
    · rw [status f other]
      rcases status_soltar census.roster cpu f with same | ⟨running, -⟩
      · exact same.trans parking.status
      · cases parking.status.symm.trans running
    · intro here
      rw [currents]
      by_cases same : here = cpu
      · subst same
        rw [Function.update_self]
        exact fun isSome => other (Option.some.inj isSome).symm
      · rw [Function.update_of_ne same]
        exact parking.away here same
  · intro f awake
    by_cases same : f = e
    · subst same
      exact .inr own
    · unfold Awake
      rw [status f same]
      rcases status_soltar census.roster cpu f with unchanged | ⟨-, runnable⟩
      · rw [unchanged]
        exact awake
      · exact .inl runnable
  · intro f unused
    have other : f ≠ e := by
      intro same
      subst same
      rcases runs with runnable | running
      · cases unused.symm.trans runnable
      · cases unused.symm.trans running
    rw [status f other]
    rcases status_soltar census.roster cpu f with same | ⟨running, -⟩
    · exact same.trans unused
    · cases unused.symm.trans running

theorem Parks.of_counted {after : Census}
    (parks : census.counted.Parks cpu after) : census.Parks cpu after :=
  ⟨fun f parking => parks.parked f ⟨parking.status, parking.away⟩,
    parks.awake, parks.unused⟩

/-- `sched_halt`. -/
theorem Parks.halt :
    census.Parks cpu (census.onRoster (·.setCurrent cpu none)) := by
  constructor
  · intro f parking
    refine ⟨parking.status, ?_⟩
    intro here
    change Function.update census.roster.current cpu none here ≠ _
    by_cases same : here = cpu
    · subst same
      rw [Function.update_self]
      exact (Option.some_ne_none f).symm
    · rw [Function.update_of_ne same]
      exact parking.away here same
  · exact fun f awake => awake
  · exact fun f unused => unused

theorem Yields.parks {after : Census}
    (yields : census.Yields build cpu after) : census.Parks cpu after := by
  cases yields with
  | picks runnable => exact .of_counted (.dispatch (.inl runnable))
  | stays _ running => exact .of_counted (.dispatch (.inr running))
  | halts => exact .of_counted .halt

end Census

/-- The messages are these, and the environments stand like this. -/
structure Desk (mail : Nat → Mail) (census : Census) (kernel : Kernel) :
    Prop where
  holds : Holds mail kernel
  shows : Shows census kernel

/-- The processor has left the kernel out of such a state. -/
structure LeftDesk (cpu : Nat) (mail : Nat → Mail) (census : Census)
    (kernel : Kernel) : Prop where
  holds : Holds mail kernel
  parks : census.Parks cpu kernel.census

theorem desk_self : ∀ state, state = kernel →
    Desk kernel.mail kernel.census state := by
  rintro state rfl
  exact ⟨rfl, rfl⟩

theorem triple_desk_of_frames {Result : Type} {entry : KernelM Result}
    (mails : Frame Kernel.mail entry) (counts : Frame Kernel.census entry)
    {left : Kernel → Prop} :
    Triple (Desk mail census) entry (fun _ => Desk mail census) left := by
  have first : Triple (Holds mail) entry (fun _ => Holds mail) left :=
    triple_mail_of_frame mails
  have second : Triple (Shows census) entry (fun _ => Shows census) left :=
    triple_census_of_frame counts
  exact (first.and second).weaken (fun _ desk => ⟨desk.holds, desk.shows⟩)
    (fun _ _ both => ⟨both.1, both.2⟩) fun _ both => both.1

theorem triple_schedYield_desk {Result : Type}
    {returned : Result → Kernel → Prop} :
    Triple (Desk mail census) (schedYield build cpu) returned
      (LeftDesk cpu mail census) := by
  have mails : Triple (Holds mail) (schedYield build cpu) returned _ :=
    triple_schedYield_mail
  have yields : Triple (Shows census) (schedYield build cpu) returned _ :=
    triple_schedYield_yields
  refine (mails.and yields).weaken ?_ (fun _ _ both => both.1) ?_
  · exact fun _ desk => ⟨desk.holds, desk.shows⟩
  · exact fun _ both => ⟨both.1, both.2.parks⟩

/-- An update that does not touch the status of an environment. -/
theorem Desk.updateEnv (desk : Desk mail census kernel) {change : Env → Env}
    {changed : Mail} (mails : (change (kernel.envs e)).mail = changed)
    (status : ∀ env, (change env).envStatus = env.envStatus)
    (pgdir : ∀ env, (change env).envPgdir = env.envPgdir)
    (link : ∀ env, (change env).envLink = env.envLink)
    (envId : ∀ env, (change env).envId = env.envId) :
    Desk (Function.update mail e changed) census
      (kernel.updateEnv e change) := by
  constructor
  · unfold Holds
    rw [mail_updateEnv, mails, desk.holds]
  · exact (kernel.census_updateEnv_same e status pgdir link envId).trans
      desk.shows

/-- An update that touches neither messages nor statuses. -/
theorem Desk.updateEnv_same (desk : Desk mail census kernel)
    {change : Env → Env} (mails : ∀ env, (change env).mail = env.mail)
    (status : ∀ env, (change env).envStatus = env.envStatus)
    (pgdir : ∀ env, (change env).envPgdir = env.envPgdir)
    (link : ∀ env, (change env).envLink = env.envLink)
    (envId : ∀ env, (change env).envId = env.envId) :
    Desk mail census (kernel.updateEnv e change) :=
  ⟨(mail_updateEnv_same kernel e mails).trans desk.holds,
    (kernel.census_updateEnv_same e status pgdir link envId).trans desk.shows⟩

/-- An update of the status of an environment. -/
theorem Desk.setStatus (desk : Desk mail census kernel) {change : Env → Env}
    {changed : Mail} {status : EnvStatus}
    (mails : (change (kernel.envs e)).mail = changed)
    (isStatus : (change (kernel.envs e)).envStatus = status)
    (pgdir : ∀ env, (change env).envPgdir = env.envPgdir)
    (link : ∀ env, (change env).envLink = env.envLink)
    (envId : ∀ env, (change env).envId = env.envId) :
    Desk (Function.update mail e changed)
      (census.onRoster (·.setStatus e status)) (kernel.updateEnv e change) := by
  constructor
  · unfold Holds
    rw [mail_updateEnv, mails, desk.holds]
  · unfold Shows
    rw [kernel.census_updateEnv_status e pgdir link envId, isStatus,
      desk.shows]

/-! ## The results of the calls -/

/-- The results of the calls that map a page. -/
def PageResult (r : Int) : Prop := r = 0 ∨ r = -eInval ∨ r = -eNoMem

section Results

variable {before left : Kernel → Prop}

theorem triple_insertPage_result (e page : Nat) (va perm : UInt32) :
    Triple before (insertPage e page va perm) (fun r _ => PageResult r)
      left := by
  constructor
  intro kernel _
  unfold insertPage onPgdir
  rw [read_bind_run]
  cases (kernel.envs e).envPgdir with
  | none => trivial
  | some pgdir =>
      dsimp only
      unfold onMem
      cases inserted : kernel.mem.pageInsert pgdir page va perm with
      | none =>
          dsimp only
          rw [inserted]
          trivial
      | some result =>
          dsimp only
          rw [inserted]
          unfold PhysMem.pageInsert at inserted
          obtain ⟨⟨walked, entry⟩, -, rest⟩ := Option.bind_eq_some_iff.mp inserted
          cases entry with
          | none =>
              cases rest
              exact .inr (.inr rfl)
          | some pte =>
              obtain ⟨removed, -, same⟩ := Option.bind_eq_some_iff.mp rest
              cases same
              exact .inl rfl

theorem checkPerm_result (perm : UInt32) : PageResult (checkPerm perm) := by
  unfold checkPerm
  split
  · exact .inr (.inl rfl)
  · split
    · exact .inr (.inl rfl)
    · exact .inl rfl

theorem triple_envPageAlloc_result (e : Nat) (va perm : UInt32) :
    Triple before (envPageAlloc e va perm) (fun r _ => PageResult r) left := by
  unfold envPageAlloc
  split
  · exact .pure fun _ _ => checkPerm_result perm
  · have allocates : Triple before
        (onMem fun mem => some (mem.pageAlloc true)) (fun _ _ => True) left :=
      ⟨fun _ _ => trivial⟩
    apply allocates.bind
    intro page
    cases page with
    | none => exact .pure fun _ _ => .inr (.inr rfl)
    | some page => exact triple_insertPage_result e page va perm

theorem triple_envPageMap_result (src : Nat) (srcva : UInt32) (dst : Nat)
    (dstva perm : UInt32) :
    Triple before (envPageMap src srcva dst dstva perm)
      (fun r _ => PageResult r) left := by
  have looked : Triple before (lookupPage src srcva) (fun _ _ => True) left := by
    apply Triple.bind_read
    intro found
    cases found with
    | none => exact .stop
    | some found => exact .pure fun _ _ => trivial
  unfold envPageMap
  apply looked.bind
  intro found
  cases found with
  | none => exact .pure fun _ _ => .inr (.inl rfl)
  | some found =>
      dsimp only
      split
      · exact .pure fun _ _ => .inr (.inl rfl)
      · exact triple_insertPage_result dst found.1 dstva perm

theorem triple_ipcTransfer_result (sender : Nat) (srcva : UInt32) (dst : Nat)
    (perm : UInt32) :
    Triple before (ipcTransfer sender srcva dst perm) (fun r _ => PageResult r)
      left := by
  unfold ipcTransfer
  apply Triple.bind_read
  intro dstva
  split
  · exact .pure fun _ _ => .inl rfl
  · apply (triple_envPageAlloc_result dst dstva perm).bind
    intro r
    split
    · exact .pure fun _ result => result
    · apply (triple_envPageMap_result sender srcva dst dstva perm).bind
      intro r
      split
      · exact .pure fun _ result => result
      · apply Triple.bind_modify fun _ => True
        · exact fun _ _ => trivial
        · exact .pure fun _ _ => .inl rfl

end Results

/-! ## The system calls -/

/-- The trap is the system call of this number. -/
def Trapframe.Calls (frame : Trapframe) (number : Nat) : Prop :=
  frame.tfTrapno.toNat = 48 ∧ frame.tfRegs.regEax.toNat = number

instance (frame : Trapframe) (number : Nat) : Decidable (frame.Calls number) :=
  inferInstanceAs (Decidable (_ ∧ _))

/-- The trap is an interrupt, a breakpoint or a system call that neither creates
nor destroys an environment and does not set a status. -/
def Trapframe.Peaceful (frame : Trapframe) : Prop :=
  frame.tfTrapno.toNat ∈ [3, 32, 39] ∨
    frame.tfTrapno.toNat = 48 ∧ frame.tfRegs.regEax.toNat ∉ [0, 3, 7, 8, 9]

instance : DecidablePred Trapframe.Peaceful := fun _ =>
  inferInstanceAs (Decidable (_ ∨ _))

theorem Trapframe.Peaceful.call {frame : Trapframe} (peaceful : frame.Peaceful)
    (isCall : frame.tfTrapno.toNat = 48) :
    frame.tfRegs.regEax.toNat ∉ [0, 3, 7, 8, 9] := by
  rcases peaceful with interrupt | ⟨-, allowed⟩
  · rw [isCall] at interrupt
    exact absurd interrupt (by decide)
  · exact allowed

/-- What `sys_ipc_try_send` returns for `envid` and `srcva`. -/
structure Kernel.Answers (kernel : Kernel) (cpu : Nat) (envid srcva : UInt32)
    (r : Int) : Prop where
  unknown : (∀ e, ¬ kernel.Finds cpu envid false e) → r = -eBadEnv
  deaf : ∀ e, kernel.Finds cpu envid false e →
    (kernel.mail e).recving = false → r = -eIpcNotRecv
  word : ∀ e, kernel.Finds cpu envid false e →
    (kernel.mail e).recving = true → utop ≤ srcva → r = 0
  page : ∀ e, kernel.Finds cpu envid false e →
    (kernel.mail e).recving = true → PageResult r

/-- What a trap of `c` does to the messages and the statuses before its answer,
if there is one, is written into the saved registers. -/
inductive Exchange (kernel : Kernel) (cpu c : Nat) (frame : Trapframe) :
    Option Int → (Nat → Mail) → Census → Prop where
  | quiet {answer : Option Int} :
      ¬ frame.Calls 11 → ¬ frame.Calls 12 →
      Exchange kernel cpu c frame answer kernel.mail kernel.census
  | blocks :
      frame.Calls 12 → UserPage frame.tfRegs.regEdx →
      Exchange kernel cpu c frame none
        (Function.update kernel.mail c { kernel.mail c with recving := true })
        (kernel.census.onRoster (·.setStatus c .notRunnable))
  | refuses :
      frame.Calls 12 → ¬ UserPage frame.tfRegs.regEdx →
      Exchange kernel cpu c frame (some (-eInval))
        (Function.update kernel.mail c { kernel.mail c with recving := true })
        kernel.census
  | fails {r : Int} :
      frame.Calls 11 → r ≠ 0 →
      kernel.Answers cpu frame.tfRegs.regEdx frame.tfRegs.regEbx r →
      Exchange kernel cpu c frame (some r) kernel.mail kernel.census
  | delivers {dst : Nat} :
      frame.Calls 11 → kernel.Finds cpu frame.tfRegs.regEdx false dst →
      (kernel.mail dst).recving = true →
      kernel.Answers cpu frame.tfRegs.regEdx frame.tfRegs.regEbx 0 →
      Exchange kernel cpu c frame (some 0)
        (Function.update kernel.mail dst
          { recving := false
            value := frame.tfRegs.regEcx
            sender := (kernel.envs c).envId
            eax := 0 })
        (kernel.census.onRoster (·.setStatus dst .runnable))

/-- The call has made such an exchange. -/
def Exchanged (kernel : Kernel) (cpu c : Nat) (frame : Trapframe)
    (answer : Option Int) (state : Kernel) : Prop :=
  ∃ mail census, Exchange kernel cpu c frame answer mail census ∧
    Desk mail census state

/-- The processor has left the kernel after such an exchange. -/
def LeftExchange (kernel : Kernel) (cpu c : Nat) (frame : Trapframe)
    (state : Kernel) : Prop :=
  ∃ mail census, Exchange kernel cpu c frame none mail census ∧
    LeftDesk cpu mail census state

section Calls

variable {frame : Trapframe} {here : Nat}

theorem triple_sysIpcRecv_exchange (current : kernel.cpus cpu = some here)
    (receives : frame.Calls 12) :
    Triple (· = kernel) (sysIpcRecv build cpu frame.tfRegs.regEdx)
      (fun r => Exchanged kernel cpu here frame (some r))
      (LeftExchange kernel cpu here frame) := by
  apply at_theCurenv
  intro found isCurrent
  cases current.symm.trans isCurrent
  refine .bind_modify (Desk (Function.update kernel.mail here
    { kernel.mail here with recving := true }) kernel.census) ?_ ?_
  · intro state same
    subst same
    exact (desk_self _ rfl).updateEnv rfl (fun _ => rfl) (fun _ => rfl)
      (fun _ => rfl) fun _ => rfl
  · apply Triple.ite
    · intro refused
      exact .pure fun state desk => ⟨_, _, .refuses receives refused, desk⟩
    · intro accepted
      have blocks : Exchange kernel cpu here frame none _ _ :=
        .blocks receives (not_not.mp accepted)
      refine .bind_modify (Desk (Function.update kernel.mail here
        { kernel.mail here with recving := true })
        (kernel.census.onRoster (·.setStatus here .notRunnable))) ?_ ?_
      · intro state desk
        have same : (state.envs here).mail =
            { kernel.mail here with recving := true } := by
          have holds : state.mail here = _ := congrFun desk.holds here
          rwa [Function.update_self] at holds
        have parked : Desk
            (Function.update (Function.update kernel.mail here _) here _) _
            (state.updateEnv here fun env =>
              { env with
                envIpcDstva := frame.tfRegs.regEdx
                envStatus := .notRunnable }) :=
          desk.setStatus same rfl (fun _ => rfl) (fun _ => rfl) fun _ => rfl
        rwa [Function.update_idem] at parked
      · exact triple_schedYield_desk.weaken (fun _ desk => desk)
          (fun _ _ impossible => impossible)
          fun state left => ⟨_, _, blocks, left⟩

/-- The delivery of a message. -/
theorem triple_ipcDeliver_desk {sender dst : Nat} {value : UInt32}
    {left : Kernel → Prop} :
    Triple (Desk mail census) (ipcDeliver sender dst value)
      (fun r state => r = 0 ∧
        Desk (Function.update mail dst
          { recving := false
            value := value
            sender := census.envId sender
            eax := 0 })
          (census.onRoster (·.setStatus dst .runnable)) state) left := by
  refine .bind_modify (Desk _ _) ?_ (.pure fun _ desk => ⟨rfl, desk⟩)
  intro state desk
  have envId : (state.envs sender).envId = census.envId sender :=
    congrFun (congrArg Census.envId desk.shows) sender
  rw [← envId]
  exact desk.setStatus rfl rfl (fun _ => rfl) (fun _ => rfl) fun _ => rfl

theorem envid2env_error {envid : UInt32} {checkperm : Bool} {r : Int}
    (failed : envid2env cpu envid checkperm kernel = .error r) :
    r = -eBadEnv := by
  unfold envid2env at failed
  split at failed
  · cases failed
  · dsimp only at failed
    split at failed
    · exact (Except.error.inj failed).symm
    · split at failed
      · exact (Except.error.inj failed).symm
      · cases failed

theorem Kernel.Finds.unique {envid : UInt32} {checkperm : Bool} {e f : Nat}
    (finds : kernel.Finds cpu envid checkperm e)
    (also : kernel.Finds cpu envid checkperm f) : f = e :=
  Option.some.inj (Except.ok.inj (also.symm.trans finds))

instance (kernel : Kernel) (cpu : Nat) (envid : UInt32) (checkperm : Bool)
    (e : Nat) : Decidable (kernel.Finds cpu envid checkperm e) :=
  match found : envid2env cpu envid checkperm kernel with
  | .ok (some f) =>
      decidable_of_iff (f = e)
        ⟨fun same => same ▸ found, fun finds => finds.unique found⟩
  | .ok none => .isFalse fun finds => nomatch found.symm.trans finds
  | .error _ => .isFalse fun finds => nomatch found.symm.trans finds

instance (kernel : Kernel) (cpu : Nat) (envid : UInt32) (checkperm : Bool)
    (property : Nat → Prop) [DecidablePred property] :
    Decidable (∀ e, kernel.Finds cpu envid checkperm e → property e) :=
  match found : envid2env cpu envid checkperm kernel with
  | .ok (some e) =>
      decidable_of_iff (property e)
        ⟨fun holds _ finds => Kernel.Finds.unique found finds ▸ holds,
          fun all => all e found⟩
  | .ok none => .isTrue fun _ finds => nomatch found.symm.trans finds
  | .error _ => .isTrue fun _ finds => nomatch found.symm.trans finds

/-- What a call that finds a receiver may return. -/
theorem Kernel.Answers.of_receiving {envid srcva : UInt32} {dst : Nat} {r : Int}
    (finds : kernel.Finds cpu envid false dst)
    (receives : (kernel.mail dst).recving = true)
    (word : utop ≤ srcva → r = 0) (page : PageResult r) :
    kernel.Answers cpu envid srcva r where
  unknown unknown := absurd finds (unknown dst)
  deaf e found deaf := by
    rw [finds.unique found, receives] at deaf
    cases deaf
  word _ _ _ := word
  page _ _ _ := page

/-- The transfer of a page keeps messages and statuses. -/
theorem triple_ipcTransfer_desk (sender : Nat) (srcva : UInt32) (dst : Nat)
    (perm : UInt32) {left : Kernel → Prop} :
    Triple (Desk mail census) (ipcTransfer sender srcva dst perm)
      (fun r state => PageResult r ∧ Desk mail census state) left := by
  have mails : Frame Kernel.mail (ipcTransfer sender srcva dst perm) :=
    frame_ipcTransfer blindToMem_mail
      (fun kernel e _ => mail_updateEnv_same kernel e fun _ => rfl)
      sender srcva dst perm
  have counts : Frame Kernel.census (ipcTransfer sender srcva dst perm) :=
    frame_ipcTransfer blindToMem_census
      (fun kernel e _ => kernel.census_updateEnv_same e (fun _ => rfl)
        (fun _ => rfl) (fun _ => rfl) fun _ => rfl) sender srcva dst perm
  have desk : Triple (Desk mail census) (ipcTransfer sender srcva dst perm)
      (fun _ => Desk mail census) left := triple_desk_of_frames mails counts
  have result : Triple (fun _ => True) (ipcTransfer sender srcva dst perm)
      (fun r _ => PageResult r) left :=
    triple_ipcTransfer_result sender srcva dst perm
  exact (result.and desk).weaken (fun _ initially => ⟨trivial, initially⟩)
    (fun _ _ both => both) fun _ both => both.1

theorem triple_sysIpcTrySend_exchange {surroundings : Surroundings}
    (current : kernel.cpus cpu = some here) (sends : frame.Calls 11)
    {left : Kernel → Prop} :
    Triple (· = kernel)
      (sysIpcTrySend surroundings cpu frame.tfRegs.regEdx frame.tfRegs.regEcx
        frame.tfRegs.regEbx frame.tfRegs.regEdi)
      (fun r => Exchanged kernel cpu here frame (some r)) left := by
  have fails : ∀ r : Int, r ≠ 0 →
      kernel.Answers cpu frame.tfRegs.regEdx frame.tfRegs.regEbx r →
      ∀ state, Desk kernel.mail kernel.census state →
      Exchanged kernel cpu here frame (some r) state :=
    fun r failed answers state desk =>
      ⟨_, _, .fails sends failed answers, desk⟩
  apply at_envid2env
  · intro r failed
    have isBad := envid2env_error failed
    subst isBad
    have unknown : ∀ e, ¬ kernel.Finds cpu frame.tfRegs.regEdx false e := by
      intro e finds
      cases failed.symm.trans finds
    apply Triple.pure
    intro state same
    refine fails _ (by decide) ⟨fun _ => rfl, ?_, ?_, ?_⟩ state
      (desk_self state same)
    · exact fun e finds => absurd finds (unknown e)
    · exact fun e finds => absurd finds (unknown e)
    · exact fun e finds => absurd finds (unknown e)
  · intro dst finds
    apply at_theCurenv
    intro found isCurrent
    cases current.symm.trans isCurrent
    apply Triple.at_read
    apply Triple.ite
    · intro deaf
      have isDeaf : ∀ e, kernel.Finds cpu frame.tfRegs.regEdx false e →
          (kernel.mail e).recving ≠ true := by
        intro e found
        rw [finds.unique found]
        exact deaf
      apply Triple.pure
      intro state same
      refine fails _ (by decide) ⟨?_, fun _ _ _ => rfl, ?_, ?_⟩ state
        (desk_self state same)
      · exact fun unknown => absurd finds (unknown dst)
      · exact fun e found receives => absurd receives (isDeaf e found)
      · exact fun e found receives => absurd receives (isDeaf e found)
    · intro notDeaf
      have receives : (kernel.mail dst).recving = true := not_not.mp notDeaf
      have delivered : Triple (Desk kernel.mail kernel.census)
          (ipcDeliver here dst frame.tfRegs.regEcx)
          (fun r => Exchanged kernel cpu here frame (some r)) left := by
        refine triple_ipcDeliver_desk.weaken (fun _ desk => desk) ?_
          fun _ holds => holds
        intro r state delivery
        obtain ⟨isZero, desk⟩ := delivery
        subst isZero
        exact ⟨_, _, .delivers sends finds receives
          (.of_receiving finds receives (fun _ => rfl) (.inl rfl)), desk⟩
      apply Triple.ite
      · intro noPage
        refine .bind_modify (Desk kernel.mail kernel.census) ?_ delivered
        intro state same
        exact (desk_self state same).updateEnv_same (fun _ => rfl)
          (fun _ => rfl) (fun _ => rfl) (fun _ => rfl) fun _ => rfl
      · intro wantsPage
        have refuses : ∀ r, r ≠ 0 → PageResult r →
            ∀ state, Desk kernel.mail kernel.census state →
            Exchanged kernel cpu here frame (some r) state :=
          fun r failed result => fails r failed (.of_receiving finds receives
            (fun isWord => absurd isWord wantsPage) result)
        have invalid : Triple (· = kernel) (pure (-eInval) : KernelM Int)
            (fun r => Exchanged kernel cpu here frame (some r)) left :=
          .pure fun state same => refuses _ (by decide) (.inr (.inl rfl)) state
            (desk_self state same)
        apply Triple.ite
        · exact fun _ => invalid
        · intro aligned
          apply Triple.at_read
          cases kernel.sourceWord surroundings here frame.tfRegs.regEbx with
          | none => exact .stop
          | some srcpte =>
              dsimp only
              apply Triple.ite
              · exact fun _ => invalid
              · intro accepted
                apply Triple.strengthen _ desk_self
                apply (triple_ipcTransfer_desk here frame.tfRegs.regEbx dst
                  (frame.tfRegs.regEdi ||| pteU ||| pteP)).bind
                intro r
                apply Triple.ite
                · intro negative
                  apply Triple.pure
                  intro state transferred
                  exact refuses r (Int.ne_of_lt negative) transferred.1 state
                    transferred.2
                · intro success
                  exact delivered.strengthen _ fun _ both => both.2

/-- A call that is neither of the two leaves messages and statuses alone. -/
theorem triple_quiet (notSends : ¬ frame.Calls 11)
    (notReceives : ¬ frame.Calls 12) {entry : KernelM Int}
    (mails : Frame Kernel.mail entry) (counts : Frame Kernel.census entry)
    {left : Kernel → Prop} :
    Triple (· = kernel) entry
      (fun r => Exchanged kernel cpu here frame (some r)) left :=
  (triple_desk_of_frames mails counts).weaken desk_self
    (fun _ _ desk => ⟨_, _, .quiet notSends notReceives, desk⟩)
    fun _ holds => holds

theorem triple_syscall_exchange {surroundings : Surroundings}
    (current : kernel.cpus cpu = some here)
    (isCall : frame.tfTrapno.toNat = 48) (peaceful : frame.Peaceful) :
    Triple (· = kernel)
      (syscall build surroundings cpu frame.tfRegs.regEax frame.tfRegs.regEdx
        frame.tfRegs.regEcx frame.tfRegs.regEbx frame.tfRegs.regEdi
        frame.tfRegs.regEsi)
      (fun r => Exchanged kernel cpu here frame (some r))
      (LeftExchange kernel cpu here frame) := by
  have other : ∀ number, frame.tfRegs.regEax.toNat = number → number ≠ 11 →
      number ≠ 12 → ¬ frame.Calls 11 ∧ ¬ frame.Calls 12 := by
    intro number isNumber notEleven notTwelve
    exact ⟨fun calls => notEleven (isNumber.symm.trans calls.2),
      fun calls => notTwelve (isNumber.symm.trans calls.2)⟩
  have allowed := peaceful.call isCall
  unfold syscall
  split
  · rename_i number
    rw [number] at allowed
    exact absurd (by decide) allowed
  · rename_i number
    obtain ⟨notSends, notReceives⟩ := other 1 number (by decide) (by decide)
    exact triple_quiet notSends notReceives .pure .pure
  · rename_i number
    obtain ⟨notSends, notReceives⟩ := other 2 number (by decide) (by decide)
    exact triple_quiet notSends notReceives
      (.bind (frame_theCurenv cpu) fun _ => .read)
      (.bind (frame_theCurenv cpu) fun _ => .read)
  · rename_i number
    rw [number] at allowed
    exact absurd (by decide) allowed
  · rename_i number
    obtain ⟨notSends, notReceives⟩ := other 4 number (by decide) (by decide)
    exact triple_quiet notSends notReceives
      (frame_sysPageAlloc blindToMem_mail _ _ _ _)
      (frame_sysPageAlloc blindToMem_census _ _ _ _)
  · rename_i number
    obtain ⟨notSends, notReceives⟩ := other 5 number (by decide) (by decide)
    exact triple_quiet notSends notReceives
      (frame_sysPageMap blindToMem_mail _ _ _ _ _ _)
      (frame_sysPageMap blindToMem_census _ _ _ _ _ _)
  · rename_i number
    obtain ⟨notSends, notReceives⟩ := other 6 number (by decide) (by decide)
    exact triple_quiet notSends notReceives
      (frame_sysPageUnmap blindToMem_mail _ _ _)
      (frame_sysPageUnmap blindToMem_census _ _ _)
  · rename_i number
    rw [number] at allowed
    exact absurd (by decide) allowed
  · rename_i number
    rw [number] at allowed
    exact absurd (by decide) allowed
  · rename_i number
    rw [number] at allowed
    exact absurd (by decide) allowed
  · rename_i number
    obtain ⟨notSends, notReceives⟩ := other 10 number (by decide) (by decide)
    apply Triple.strengthen _ desk_self
    exact triple_schedYield_desk.weaken (fun _ desk => desk)
      (fun _ _ returned => returned)
      fun _ left => ⟨_, _, .quiet notSends notReceives, left⟩
  · rename_i number
    exact triple_sysIpcTrySend_exchange current ⟨isCall, number⟩
  · rename_i number
    exact triple_sysIpcRecv_exchange current ⟨isCall, number⟩
  · rename_i number
    obtain ⟨notSends, notReceives⟩ := other 13 number (by decide) (by decide)
    exact triple_quiet notSends notReceives
      (frame_sysEnvObtenerPrioridad _ _) (frame_sysEnvObtenerPrioridad _ _)
  · rename_i number
    obtain ⟨notSends, notReceives⟩ := other 14 number (by decide) (by decide)
    exact triple_quiet notSends notReceives
      (frame_sysEnvAsignarPrioridad blindToQueues_mail _ _ _)
      (frame_sysEnvAsignarPrioridad blindToQueues_census _ _ _)
  · rename_i notSends notReceives _ _
    refine triple_quiet ?_ ?_ .pure .pure
    · exact fun calls => notSends calls.2
    · exact fun calls => notReceives calls.2

end Calls

/-! ## Traps -/

/-- The messages once the answer stands in the saved registers. -/
def answered (c : Nat) (mail : Nat → Mail) : Option Int → Nat → Mail
  | none => mail
  | some r =>
      Function.update mail c { mail c with eax := (Int32.ofInt r).toUInt32 }

theorem answered_some (c : Nat) (mail : Nat → Mail) (r : Int) :
    answered c mail (some r) =
      Function.update mail c
        { mail c with eax := (Int32.ofInt r).toUInt32 } :=
  rfl

/-- The trap has made an exchange and written its answer. -/
def TrapExchanged (kernel : Kernel) (cpu c : Nat) (frame : Trapframe)
    (state : Kernel) : Prop :=
  ∃ answer mail census, Exchange kernel cpu c frame answer mail census ∧
    Desk (answered c mail answer) census state

/-- The processor has left the kernel after such a trap. -/
def LeftTrap (kernel : Kernel) (cpu c : Nat) (frame : Trapframe)
    (state : Kernel) : Prop :=
  ∃ answer mail census, Exchange kernel cpu c frame answer mail census ∧
    LeftDesk cpu (answered c mail answer) census state

section Traps

variable {frame : Trapframe} {here : Nat} {surroundings : Surroundings}
variable {faultVa : UInt32}

theorem triple_trapDispatch_exchange (current : kernel.cpus cpu = some here)
    (peaceful : frame.Peaceful) :
    Triple (· = kernel) (trapDispatch build surroundings cpu frame faultVa)
      (fun _ => TrapExchanged kernel cpu here frame)
      (LeftTrap kernel cpu here frame) := by
  have noCall : frame.tfTrapno.toNat ≠ 48 →
      Exchange kernel cpu here frame none kernel.mail kernel.census :=
    fun other => .quiet (fun calls => other calls.1) fun calls => other calls.1
  have unchanged : frame.tfTrapno.toNat ≠ 48 →
      Triple (· = kernel) (pure () : KernelM Unit)
        (fun _ => TrapExchanged kernel cpu here frame)
        (LeftTrap kernel cpu here frame) := fun other =>
    .pure fun state same => ⟨none, _, _, noCall other, desk_self state same⟩
  unfold trapDispatch
  split
  · rename_i number
    exact unchanged (by omega)
  · rename_i number
    rcases peaceful with interrupt | ⟨isCall, -⟩
    · rw [number] at interrupt
      exact absurd interrupt (by decide)
    · cases number.symm.trans isCall
  · rename_i number
    apply at_theCurenv
    intro found isCurrent
    cases current.symm.trans isCurrent
    refine ((triple_syscall_exchange current number peaceful).weaken
      (fun _ same => same) (fun _ _ made => made) ?_).bind fun r => ?_
    · rintro state ⟨mail, census, exchange, left⟩
      exact ⟨none, mail, census, exchange, left⟩
    · apply Triple.modify
      rintro state ⟨mail, census, exchange, desk⟩
      refine ⟨some r, mail, census, exchange, ?_⟩
      refine desk.updateEnv ?_ (fun _ => rfl) (fun _ => rfl) (fun _ => rfl)
        fun _ => rfl
      rw [← desk.holds]
      rfl
  · rename_i number
    exact unchanged (by omega)
  · rename_i number
    apply Triple.strengthen _ desk_self
    exact triple_schedYield_desk.weaken (fun _ desk => desk)
      (fun _ _ returned => returned)
      fun _ left => ⟨none, _, _, noCall (by omega), left⟩
  · rename_i not3 not14 not48 not39 not32
    rcases peaceful with interrupt | ⟨isCall, -⟩
    · simp only [List.mem_cons, List.not_mem_nil, or_false] at interrupt
      rcases interrupt with is3 | is32 | is39
      · exact absurd is3 not3
      · exact absurd is32 not32
      · exact absurd is39 not39
    · exact absurd isCall not48

/-- The processor goes on with its environment. -/
theorem triple_envRun_desk {returned : Unit → Kernel → Prop}
    (runs : census.roster.status e = .running) :
    Triple (Desk mail census) (envRun cpu e) returned
      (LeftDesk cpu mail census) := by
  have mails : Triple (Holds mail) (envRun cpu e) returned _ :=
    triple_envRun_mail
  have counts : Triple (Shows census) (envRun cpu e) returned _ :=
    triple_envRun_census
  refine (mails.and counts).weaken ?_ (fun _ _ both => both.1) ?_
  · exact fun _ desk => ⟨desk.holds, desk.shows⟩
  · intro state both
    refine ⟨both.1, ?_⟩
    rw [both.2.2]
    exact .dispatch (.inr runs)

theorem triple_trap_exchange (current : kernel.cpus cpu = some here)
    (alive : (kernel.envs here).envStatus ≠ .dying) (peaceful : frame.Peaceful)
    {returned : Unit → Kernel → Prop} :
    Triple (· = kernel) (trap build surroundings cpu frame faultVa) returned
      (LeftTrap (kernel.saveFrame here frame) cpu here frame) := by
  apply at_theCurenv
  intro found isCurrent
  cases current.symm.trans isCurrent
  apply Triple.at_read
  rw [if_neg alive]
  apply Triple.at_modify
  have dispatch : Triple (· = kernel.saveFrame here frame)
      (trapDispatch build surroundings cpu frame faultVa) _ _ :=
    triple_trapDispatch_exchange current peaceful
  apply dispatch.bind
  intro _
  apply Triple.bind_read
  intro running
  constructor
  rintro state ⟨⟨answer, mail, census, exchange, desk⟩, isRunning⟩
  cases running with
  | some e =>
      have runs := (curenvRunning_some desk.shows isRunning).2
      have leaves : Triple _ (envRun cpu e) returned
          (LeftTrap (kernel.saveFrame here frame) cpu here frame) :=
        (triple_envRun_desk runs).weaken (fun _ desk => desk)
          (fun _ _ returned => returned)
          fun _ left => ⟨answer, mail, census, exchange, left⟩
      exact leaves.run state desk
  | none =>
      have leaves : Triple _ (schedYield build cpu) returned
          (LeftTrap (kernel.saveFrame here frame) cpu here frame) :=
        triple_schedYield_desk.weaken (fun _ desk => desk)
          (fun _ _ returned => returned)
          fun _ left => ⟨answer, mail, census, exchange, left⟩
      exact leaves.run state desk

end Traps

end FeaturesOS.Scheduler

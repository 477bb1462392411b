import FeaturesOS.Scheduler.CurrentEnvTrap
import FeaturesOS.Scheduler.Deeds

/-!
# The deeds of system calls and traps

Which deeds a system call or a trap may do is decided by its arguments and the
state in which it starts.  Every trap does one of them and leaves the kernel.
-/

namespace FeaturesOS.Scheduler

open Entry

variable {build : Build} {cpu e current : Nat} {census : Census}
variable {kernel : Kernel}

/-! ## What a trap asks for -/

/-- The system call calls `env_destroy` for `e`. -/
def Kernel.Destroys (kernel : Kernel) (cpu current : Nat)
    (syscallno a1 a2 : UInt32) (e : Nat) : Prop :=
  match syscallno.toNat with
  | 0 => e = current ∧
      kernel.userMemCheck e a1 a2 (pteP ||| pteW ||| pteU ||| pteU) =
        some false
  | 3 => kernel.Finds cpu a1 true e
  | 9 => kernel.Finds cpu a1 true e ∧
      kernel.userMemCheck e a2 4096 (pteP ||| pteU ||| pteU) = some false
  | _ => False

/-- The system call writes `status` into the status of `e`. -/
def Kernel.WritesStatus (kernel : Kernel) (surroundings : Surroundings)
    (cpu current : Nat) (syscallno a1 a2 a3 a4 : UInt32) (e : Nat)
    (status : EnvStatus) : Prop :=
  match syscallno.toNat with
  | 8 => kernel.Finds cpu a1 true e ∧
      (a2 = 2 ∧ status = .runnable ∨ a2 = 4 ∧ status = .notRunnable)
  | 11 => kernel.Finds cpu a1 false e ∧ (kernel.envs e).envIpcRecving = true ∧
      kernel.Accepts surroundings current e a3 a4 ∧ status = .runnable
  | 12 => e = current ∧ UserPage a1 ∧ status = .notRunnable
  | _ => False

/-- The deeds that a system call may do. -/
def Kernel.Asks (kernel : Kernel) (surroundings : Surroundings)
    (cpu current : Nat) (syscallno a1 a2 a3 a4 : UInt32) : Deed → Prop
  | .nothing => True
  | .setStatus e status =>
      kernel.WritesStatus surroundings cpu current syscallno a1 a2 a3 a4 e
        status
  | .mark e | .release e | .exit e =>
      kernel.Destroys cpu current syscallno a1 a2 e
  | .create _ status => syscallno.toNat = 7 ∧ status = .notRunnable

/-- The trap from user mode destroys the environment that traps. -/
def Kernel.Faults (kernel : Kernel) (current : Nat) (frame : Trapframe) :
    Prop :=
  match frame.tfTrapno.toNat with
  | 14 => (kernel.envs current).envPgfaultUpcall = 0 ∨
      kernel.userMemCheck current (uxStackTop - 4096) 4096
        (pteU ||| pteW ||| pteU) = some false
  | 3 | 32 | 39 | 48 => False
  | _ => True

/-- The deeds that `trap_dispatch` may do. -/
def Kernel.AsksAtTrap (kernel : Kernel) (surroundings : Surroundings)
    (cpu current : Nat) (frame : Trapframe) (deed : Deed) : Prop :=
  if frame.tfTrapno.toNat = 48 then
    kernel.Asks surroundings cpu current frame.tfRegs.regEax
      frame.tfRegs.regEdx frame.tfRegs.regEcx frame.tfRegs.regEbx
      frame.tfRegs.regEdi deed
  else
    deed = .nothing ∨ kernel.Faults current frame ∧ deed = .exit current

/-- The deeds that an event may do. -/
def TrapEvent.Asks (kernel : Kernel) : TrapEvent → Deed → Prop
  | .wake _, deed => deed = .nothing
  | .user cpu surroundings frame _, deed =>
      ∃ current, kernel.cpus cpu = some current ∧
        if (kernel.envs current).envStatus = .dying then
          deed = .exit current
        else
          (kernel.saveFrame current frame).AsksAtTrap surroundings cpu current
            frame deed

/-! ## Calls from a known state -/

section Lookups

variable {Result : Type} {returned : Result → Kernel → Prop}
variable {left : Kernel → Prop}

theorem at_theCurenv {next : Nat → KernelM Result}
    (rest : ∀ here, kernel.cpus cpu = some here →
      Triple (· = kernel) (next here) returned left) :
    Triple (· = kernel) (theCurenv cpu >>= next) returned left := by
  have looked : Triple (· = kernel) (theCurenv cpu) _ left :=
    triple_theCurenv cpu
  refine looked.bind fun here => ?_
  refine .strengthen (fun state =>
    kernel.cpus cpu = some here ∧ state = kernel) ?_
    (.assuming fun current => rest here current)
  rintro state ⟨rfl, current⟩
  exact ⟨current, rfl⟩

theorem at_envid2env {envid : UInt32} {checkperm : Bool}
    {next : Except Int Nat → KernelM Result}
    (fails : ∀ r, envid2env cpu envid checkperm kernel = .error r →
      Triple (· = kernel) (next (.error r)) returned left)
    (finds : ∀ e, kernel.Finds cpu envid checkperm e →
      Triple (· = kernel) (next (.ok e)) returned left) :
    Triple (· = kernel) (lookupEnv cpu envid checkperm >>= next) returned
      left := by
  unfold lookupEnv
  rw [bind_assoc]
  apply Triple.at_read
  match found : envid2env cpu envid checkperm kernel with
  | .error r => exact fails r found
  | .ok none => exact .stop
  | .ok (some e) => exact finds e found

theorem at_lookupEnv {envid : UInt32} {checkperm : Bool}
    {next : Except Int Nat → KernelM Result}
    (fails : ∀ r, Triple (· = kernel) (next (.error r)) returned left)
    (finds : ∀ e, kernel.Finds cpu envid checkperm e →
      Triple (· = kernel) (next (.ok e)) returned left) :
    Triple (· = kernel) (lookupEnv cpu envid checkperm >>= next) returned
      left :=
  at_envid2env (fun r _ => fails r) finds

end Lookups

theorem shows_of_eq : ∀ state, state = kernel → Shows kernel.census state := by
  rintro state rfl
  rfl

theorem shows_updateEnv {state : Kernel} {change : Env → Env}
    (shows : Shows census state)
    (status : ∀ env, (change env).envStatus = env.envStatus)
    (pgdir : ∀ env, (change env).envPgdir = env.envPgdir)
    (link : ∀ env, (change env).envLink = env.envLink)
    (envId : ∀ env, (change env).envId = env.envId) :
    Shows census (state.updateEnv e change) :=
  (state.census_updateEnv_same e status pgdir link envId).trans shows

/-- A call that leaves the census alone has done nothing. -/
theorem did_nothing {asked : Deed → Prop} (asks : asked .nothing) {state : Kernel}
    (shows : Shows census state) : Did cpu asked census state :=
  ⟨.nothing, asks, trivial, shows⟩

theorem didAndLeft_of_leftFrom {asked : Deed → Prop} (asks : asked .nothing)
    {state : Kernel} (left : LeftFrom build cpu census state) :
    DidAndLeft build cpu asked census state :=
  ⟨.nothing, asks, trivial, left⟩

theorem triple_did_of_frame {asked : Deed → Prop} (asks : asked .nothing)
    {Result : Type} {entry : KernelM Result}
    (frame : Frame Kernel.census entry) {left : Kernel → Prop} :
    Triple (Shows census) entry (fun _ => Did cpu asked census) left :=
  (triple_census_of_frame frame).weaken (fun _ => id)
    (fun _ _ shows => did_nothing asks shows) fun _ => id

/-! ## The system calls -/

theorem triple_userMemAssert_deed {asked : Deed → Prop} {va len perm : UInt32}
    (nothing : asked .nothing)
    (asks : kernel.userMemCheck e va len (perm ||| pteU) = some false →
      ∀ deed, Deed.Destroys e deed → asked deed) :
    Triple (· = kernel) (userMemAssert build cpu e va len perm)
      (fun _ => Did cpu asked kernel.census)
      (DidAndLeft build cpu asked kernel.census) := by
  apply Triple.at_read
  match checked : kernel.userMemCheck e va len (perm ||| pteU) with
  | none => exact .stop
  | some true =>
      exact .pure fun state same => did_nothing nothing (shows_of_eq state same)
  | some false =>
      exact (triple_envDestroy_census (asks checked)).strengthen _ shows_of_eq

theorem triple_sysCputs_deed {asked : Deed → Prop} {s len : UInt32}
    (nothing : asked .nothing)
    (asks : ∀ here, kernel.cpus cpu = some here →
      kernel.userMemCheck here s len (pteP ||| pteW ||| pteU ||| pteU) =
        some false →
      ∀ deed, Deed.Destroys here deed → asked deed) :
    Triple (· = kernel) (sysCputs build cpu s len)
      (fun _ => Did cpu asked kernel.census)
      (DidAndLeft build cpu asked kernel.census) :=
  at_theCurenv fun here current =>
    triple_userMemAssert_deed nothing (asks here current)

theorem triple_sysEnvDestroy_deed {asked : Deed → Prop} {envid : UInt32}
    (nothing : asked .nothing)
    (asks : ∀ e, kernel.Finds cpu envid true e →
      ∀ deed, Deed.Destroys e deed → asked deed) :
    Triple (· = kernel) (sysEnvDestroy build cpu envid)
      (fun _ => Did cpu asked kernel.census)
      (DidAndLeft build cpu asked kernel.census) := by
  apply at_lookupEnv
  · intro r
    exact .pure fun state same => did_nothing nothing (shows_of_eq state same)
  · intro e finds
    refine .strengthen _ shows_of_eq
      ((triple_envDestroy_census (asks e finds)).bind fun _ => ?_)
    exact .pure fun _ did => did

theorem triple_envSetupVm_census {left : Kernel → Prop} :
    Triple (Shows census) (envSetupVm e)
      (fun r state => if r < 0 then Shows census state
        else Shows (census.onRoster (·.addPgdir e)) state) left := by
  constructor
  intro state shows
  unfold envSetupVm
  match state.mem.pageAlloc true with
  | (_, none) => exact shows
  | (mem, some page) =>
      have added : ∀ mem, ((state.setMem mem).updateEnv e fun env =>
          { env with envPgdir := some page }).census =
          state.census.onRoster (·.addPgdir e) := by
        intro mem
        unfold Kernel.census Census.onRoster
        congr 1
        · unfold Kernel.roster Roster.addPgdir Kernel.updateEnv Kernel.setEnv
          congr 1 <;> funext f <;> by_cases same : f = e <;>
            simp [same, Kernel.setMem]
        · funext f
          by_cases same : f = e
          · simp [Kernel.updateEnv, Kernel.setEnv, Kernel.setMem, same]
          · simp [Kernel.updateEnv, Kernel.setEnv, Kernel.setMem, same]
      dsimp only
      rw [if_neg (by decide)]
      unfold Shows
      rw [added, show state.census = census from shows]

theorem census_commitEnv (parentId : UInt32) (e : Nat) (state : Kernel)
    (shows : Shows (census.onRoster (·.addPgdir e)) state) :
    Shows (census.afterDeed cpu (.create e .runnable))
      (commitEnv parentId e state) := by
  have roster := roster_commitEnv parentId e state
  have before : state.roster = census.roster.addPgdir e :=
    congrArg Census.roster shows
  have envId : (fun f => (state.envs f).envId) = census.envId :=
    congrArg Census.envId shows
  have yields : state.runsDelSched = census.yields :=
    congrArg Census.yields shows
  unfold Shows Kernel.census
  rw [roster, before]
  change Census.mk _ _ state.runsDelSched = Census.mk _ _ census.yields
  rw [yields, ← envId]
  congr 1
  funext f
  by_cases same : f = e
  · simp [commitEnv, Kernel.updateEnv, Kernel.setEnv, same]
  · simp [commitEnv, Kernel.updateEnv, Kernel.setEnv, same]

/-- `env_alloc` takes the head of the free list, or changes nothing. -/
theorem triple_envAlloc_census (parentId : UInt32) {left : Kernel → Prop} :
    Triple (Shows census) (envAlloc cpu parentId)
      (fun result state =>
        match result with
        | .error _ => Shows census state
        | .ok e => census.roster.freeList = some e ∧
            Shows (census.afterDeed cpu (.create e .runnable)) state)
      left := by
  unfold envAlloc
  apply Triple.bind_read
  intro head
  cases head with
  | none => exact .pure fun _ holds => holds.1
  | some e =>
      refine .strengthen (fun state =>
        census.roster.freeList = some e ∧ Shows census state) ?_
        (.assuming fun isHead => ?_)
      · rintro state ⟨shows, isHead⟩
        rw [← show state.census = census from shows]
        exact ⟨isHead, rfl⟩
      · refine triple_envSetupVm_census.bind fun r => ?_
        split
        · exact .pure fun _ shows => shows
        · refine .bind_modify
            (Shows (census.afterDeed cpu (.create e .runnable)))
            (census_commitEnv parentId e) ?_
          refine .bind_read fun cola => .bind_read fun envId => ?_
          refine .strengthen
            (Shows (census.afterDeed cpu (.create e .runnable)))
            (fun _ holds => holds.1.1) ?_
          refine (triple_census_of_frame
            (frame_schedAgregarEnv blindToQueues_census _ _)).bind fun _ => ?_
          exact .pure fun _ shows => ⟨isHead, shows⟩

theorem triple_sysExofork_deed {asked : Deed → Prop}
    (nothing : asked .nothing)
    (asks : ∀ e, asked (.create e .notRunnable)) :
    Triple (Shows census) (sysExofork cpu)
      (fun _ => Did cpu asked census) (DidAndLeft build cpu asked census) := by
  refine (triple_theCurenv cpu).bind fun here => .bind_read fun parentId => ?_
  refine .strengthen (Shows census) (fun _ holds => holds.1.1) ?_
  refine (triple_envAlloc_census parentId).bind fun result => ?_
  cases result with
  | error r => exact .pure fun _ shows => did_nothing nothing shows
  | ok newenv =>
      apply Triple.bind_read
      intro tf
      refine .bind_modify (Did cpu asked census) ?_ (.read fun _ did => did)
      rintro state ⟨⟨isHead, shows⟩, -⟩
      refine ⟨.create newenv .notRunnable, asks newenv,
        ⟨isHead, .inr rfl⟩, ?_⟩
      simp only [Kernel.census_updateEnv_status, implies_true]
      rw [show state.census = _ from shows]
      unfold Census.afterDeed Census.onRoster
      dsimp only
      rw [Roster.allocate_setStatus]

theorem triple_sysEnvSetStatus_deed {asked : Deed → Prop}
    {envid status : UInt32} (nothing : asked .nothing)
    (asks : ∀ e written, kernel.Finds cpu envid true e →
      status = 2 ∧ written = .runnable ∨ status = 4 ∧ written = .notRunnable →
      asked (.setStatus e written)) {left : Kernel → Prop} :
    Triple (· = kernel) (sysEnvSetStatus cpu envid status)
      (fun _ => Did cpu asked kernel.census) left := by
  have unchanged : ∀ r : Int, Triple (· = kernel) (pure r : KernelM Int)
      (fun _ => Did cpu asked kernel.census) left := fun r =>
    .pure fun state same => did_nothing nothing (shows_of_eq state same)
  unfold sysEnvSetStatus
  split
  · exact unchanged _
  · rename_i accepted
    refine at_lookupEnv (fun r => unchanged r) fun e finds => ?_
    apply Triple.at_modify
    apply Triple.pure
    rintro _ rfl
    by_cases two : status = 2
    · refine ⟨.setStatus e .runnable, asks e _ finds (.inl ⟨two, rfl⟩),
        .inl rfl, ?_⟩
      simp only [Kernel.census_updateEnv_status, implies_true, two, if_true]
      rfl
    · have four : status = 4 := by
        by_contra other
        exact accepted ⟨two, other⟩
      refine ⟨.setStatus e .notRunnable, asks e _ finds (.inr ⟨four, rfl⟩),
        .inr rfl, ?_⟩
      simp only [Kernel.census_updateEnv_status, implies_true, two, if_false]
      rfl

theorem triple_sysEnvSetPgfaultUpcall_deed {asked : Deed → Prop}
    {envid func : UInt32} (nothing : asked .nothing)
    (asks : ∀ e, kernel.Finds cpu envid true e →
      kernel.userMemCheck e func 4096 (pteP ||| pteU ||| pteU) = some false →
      ∀ deed, Deed.Destroys e deed → asked deed) :
    Triple (· = kernel) (sysEnvSetPgfaultUpcall build cpu envid func)
      (fun _ => Did cpu asked kernel.census)
      (DidAndLeft build cpu asked kernel.census) := by
  refine at_lookupEnv ?_ fun e finds => ?_
  · intro r
    exact .pure fun state same => did_nothing nothing (shows_of_eq state same)
  · refine (triple_userMemAssert_deed nothing (asks e finds)).bind fun _ => ?_
    refine .bind_modify (Did cpu asked kernel.census) ?_ (.pure fun _ did => did)
    rintro state ⟨deed, asks, fits, after⟩
    refine ⟨deed, asks, fits, ?_⟩
    exact shows_updateEnv after (fun _ => rfl) (fun _ => rfl) (fun _ => rfl)
      fun _ => rfl

theorem triple_ipcDeliver_deed {asked : Deed → Prop} {sender dst : Nat}
    {value : UInt32} (asks : asked (.setStatus dst .runnable))
    {left : Kernel → Prop} :
    Triple (Shows census) (ipcDeliver sender dst value)
      (fun _ => Did cpu asked census) left := by
  refine .bind_modify (Did cpu asked census) ?_ (.pure fun _ did => did)
  intro state shows
  refine ⟨.setStatus dst .runnable, asks, .inl rfl, ?_⟩
  simp only [Kernel.census_updateEnv_status, implies_true]
  rw [show state.census = census from shows]
  rfl

/-- The transfer of a page leaves the census alone, and its result is known from
the state in which it starts. -/
theorem triple_ipcTransfer_deed {sender dst : Nat} {srcva perm : UInt32}
    {left : Kernel → Prop} :
    Triple (· = kernel) (ipcTransfer sender srcva dst perm)
      (fun r state => (∃ next,
        ipcTransfer sender srcva dst perm kernel = .returns r next) ∧
        Shows kernel.census state) left := by
  have frame : Frame Kernel.census (ipcTransfer sender srcva dst perm) :=
    frame_ipcTransfer blindToMem_census
      (fun kernel e _ => kernel.census_updateEnv_same e (fun _ => rfl)
        (fun _ => rfl) (fun _ => rfl) fun _ => rfl) sender srcva dst perm
  constructor
  rintro state rfl
  have same := frame.run state
  cases outcome : ipcTransfer sender srcva dst perm state with
  | returns r next =>
      rw [outcome] at same
      exact ⟨⟨next, rfl⟩, same⟩
  | leaves next =>
      rw [outcome] at same
      exact same.elim
  | stops => trivial

theorem triple_sysIpcTrySend_deed {asked : Deed → Prop}
    {surroundings : Surroundings} {envid value srcva perm : UInt32}
    (nothing : asked .nothing)
    (asks : ∀ here e, kernel.cpus cpu = some here →
      kernel.Finds cpu envid false e → (kernel.envs e).envIpcRecving = true →
      kernel.Accepts surroundings here e srcva perm →
      asked (.setStatus e .runnable)) {left : Kernel → Prop} :
    Triple (· = kernel)
      (sysIpcTrySend surroundings cpu envid value srcva perm)
      (fun _ => Did cpu asked kernel.census) left := by
  have unchanged : ∀ r : Int, Triple (· = kernel) (pure r : KernelM Int)
      (fun _ => Did cpu asked kernel.census) left := fun r =>
    .pure fun state same => did_nothing nothing (shows_of_eq state same)
  refine at_lookupEnv (fun r => unchanged r) fun dst finds => ?_
  refine at_theCurenv fun here current => ?_
  apply Triple.at_read
  split
  · exact unchanged _
  · rename_i receives
    have receives : (kernel.envs dst).envIpcRecving = true := by
      simpa using receives
    split
    · rename_i noPage
      have accepted := asks here dst current finds receives (.inl noPage)
      refine .bind_modify (Shows kernel.census) ?_
        (triple_ipcDeliver_deed accepted)
      rintro _ rfl
      exact shows_updateEnv rfl (fun _ => rfl) (fun _ => rfl) (fun _ => rfl)
        fun _ => rfl
    · split
      · exact unchanged _
      · rename_i unaligned
        have aligned : srcva % 4096 = 0 := by simpa using unaligned
        apply Triple.at_read
        match word : kernel.sourceWord surroundings here srcva with
        | none => exact .stop
        | some srcpte =>
            dsimp only
            split
            · exact unchanged _
            · rename_i accepted
              refine triple_ipcTransfer_deed.bind fun r => ?_
              refine .assuming fun outcome => ?_
              obtain ⟨next, outcome⟩ := outcome
              split
              · exact .pure fun _ shows => did_nothing nothing shows
              · rename_i success
                have accepts := asks here dst current finds receives
                  (.inr ⟨aligned, srcpte, r, next, word, accepted, outcome,
                    by omega⟩)
                exact triple_ipcDeliver_deed accepts

theorem triple_sysIpcRecv_deed {asked : Deed → Prop} {dstva : UInt32}
    (nothing : asked .nothing)
    (asks : ∀ here, kernel.cpus cpu = some here → UserPage dstva →
      asked (.setStatus here .notRunnable)) :
    Triple (· = kernel) (sysIpcRecv build cpu dstva)
      (fun _ => Did cpu asked kernel.census)
      (DidAndLeft build cpu asked kernel.census) := by
  refine at_theCurenv fun here current => ?_
  refine .bind_modify (Shows kernel.census) ?_ ?_
  · rintro _ rfl
    exact shows_updateEnv rfl (fun _ => rfl) (fun _ => rfl) (fun _ => rfl)
      fun _ => rfl
  · split
    · exact .pure fun _ shows => did_nothing nothing shows
    · rename_i userPage
      have userPage : UserPage dstva := by simpa using userPage
      refine .bind_modify
        (Shows (kernel.census.afterDeed cpu (.setStatus here .notRunnable)))
        ?_ ?_
      · intro state shows
        unfold Shows
        simp only [Kernel.census_updateEnv_status, implies_true]
        rw [show state.census = kernel.census from shows]
        rfl
      · refine triple_schedYield_census.weaken (fun _ => id) (fun _ _ => id) ?_
        intro state left
        exact ⟨.setStatus here .notRunnable, asks here current userPage,
          .inr rfl, left⟩

theorem triple_syscall_deed {surroundings : Surroundings}
    {syscallno a1 a2 a3 a4 a5 : UInt32} (current : kernel.cpus cpu = some e) :
    Triple (· = kernel)
      (syscall build surroundings cpu syscallno a1 a2 a3 a4 a5)
      (fun _ => Did cpu (kernel.Asks surroundings cpu e syscallno a1 a2 a3 a4)
        kernel.census)
      (DidAndLeft build cpu
        (kernel.Asks surroundings cpu e syscallno a1 a2 a3 a4)
        kernel.census) := by
  have nothing : kernel.Asks surroundings cpu e syscallno a1 a2 a3 a4
      .nothing := trivial
  have own : ∀ here, kernel.cpus cpu = some here → here = e := fun here isHere =>
    Option.some.inj (isHere.symm.trans current)
  have destroys : ∀ f, kernel.Destroys cpu e syscallno a1 a2 f →
      ∀ deed, Deed.Destroys f deed →
        kernel.Asks surroundings cpu e syscallno a1 a2 a3 a4 deed := by
    intro f asks deed destroys
    rcases destroys with rfl | rfl | rfl <;> exact asks
  have framed : ∀ {entry : KernelM Int}, Frame Kernel.census entry →
      Triple (· = kernel) entry
        (fun _ => Did cpu
          (kernel.Asks surroundings cpu e syscallno a1 a2 a3 a4) kernel.census)
        (DidAndLeft build cpu
          (kernel.Asks surroundings cpu e syscallno a1 a2 a3 a4)
          kernel.census) := fun frame =>
    (triple_did_of_frame nothing frame).strengthen _ shows_of_eq
  unfold syscall
  split
  · rename_i number
    refine (triple_sysCputs_deed nothing fun here isHere fails => ?_).bind
      fun _ => .pure fun _ did => did
    apply destroys here
    unfold Kernel.Destroys
    rw [number]
    exact ⟨own here isHere, fails⟩
  · exact framed .pure
  · exact framed (.bind (frame_theCurenv cpu) fun _ => .read)
  · rename_i number
    refine triple_sysEnvDestroy_deed nothing fun f finds => destroys f ?_
    unfold Kernel.Destroys
    rw [number]
    exact finds
  · exact framed (frame_sysPageAlloc blindToMem_census cpu a1 a2 a3)
  · exact framed (frame_sysPageMap blindToMem_census cpu a1 a2 a3 a4 a5)
  · exact framed (frame_sysPageUnmap blindToMem_census cpu a1 a2)
  · rename_i number
    exact (triple_sysExofork_deed nothing fun f => ⟨number, rfl⟩).strengthen _
      shows_of_eq
  · rename_i number
    refine triple_sysEnvSetStatus_deed nothing fun f written finds which => ?_
    unfold Kernel.Asks Kernel.WritesStatus
    dsimp only
    rw [number]
    exact ⟨finds, which⟩
  · rename_i number
    refine triple_sysEnvSetPgfaultUpcall_deed nothing
      fun f finds fails => destroys f ?_
    unfold Kernel.Destroys
    rw [number]
    exact ⟨finds, fails⟩
  · refine (triple_schedYield_census.strengthen _ shows_of_eq).weaken
      (fun _ => id) (fun _ _ => id) ?_
    exact fun state left => didAndLeft_of_leftFrom nothing left
  · rename_i number
    refine triple_sysIpcTrySend_deed nothing
      fun here f isHere finds receives accepts => ?_
    rw [own here isHere] at accepts
    unfold Kernel.Asks Kernel.WritesStatus
    dsimp only
    rw [number]
    exact ⟨finds, receives, accepts, rfl⟩
  · rename_i number
    refine triple_sysIpcRecv_deed nothing fun here isHere userPage => ?_
    unfold Kernel.Asks Kernel.WritesStatus
    dsimp only
    rw [number]
    exact ⟨own here isHere, userPage, rfl⟩
  · exact framed (frame_sysEnvObtenerPrioridad cpu a1)
  · exact framed (frame_sysEnvAsignarPrioridad blindToQueues_census cpu a1 _)
  · exact framed .pure

/-! ## Traps -/

/-- Whoever destroys its own environment does not return. -/
theorem triple_envDestroy_exit {asked : Deed → Prop}
    (current : census.roster.current cpu = some e) (asks : asked (.exit e))
    {returned : Unit → Kernel → Prop} :
    Triple (Shows census) (envDestroy build cpu e) returned
      (DidAndLeft build cpu asked census) := by
  unfold envDestroy
  apply Triple.bind_read
  intro status
  apply Triple.bind_read
  intro curenv
  refine .strengthen (fun state => census.roster.current cpu = curenv ∧
    Shows census state) ?_ (.assuming fun known => ?_)
  · rintro state ⟨⟨shows, -⟩, isCurenv⟩
    rw [← show state.census = census from shows]
    exact ⟨isCurenv, rfl⟩
  · have own : curenv = some e := known.symm.trans current
    simp only [own, ne_eq, not_true_eq_false, and_false, if_false, if_true]
    exact triple_exit current asks

theorem triple_userMemAssert_exit {asked : Deed → Prop} {va len perm : UInt32}
    (current : kernel.cpus cpu = some e)
    (asks : kernel.userMemCheck e va len (perm ||| pteU) = some false →
      asked (.exit e)) :
    Triple (· = kernel) (userMemAssert build cpu e va len perm)
      (fun _ => Shows kernel.census)
      (DidAndLeft build cpu asked kernel.census) := by
  apply Triple.at_read
  match checked : kernel.userMemCheck e va len (perm ||| pteU) with
  | none => exact .stop
  | some true => exact .pure shows_of_eq
  | some false =>
      exact (triple_envDestroy_exit current (asks checked)).strengthen _
        shows_of_eq

/-- The processor goes on with its environment. -/
theorem triple_envRun_resumes {asked : Deed → Prop} {Result : Type}
    {returned : Result → Kernel → Prop} :
    Triple
      (fun state => Did cpu asked census state ∧ state.cpus cpu = some e)
      (envRun cpu e) returned (DidAndLeft build cpu asked census) := by
  constructor
  rintro state ⟨⟨deed, asks, fits, after⟩, current⟩
  have isCurrent : (census.afterDeed cpu deed).roster.current cpu = some e := by
    rw [← after]
    exact current
  have ran : Triple (Shows (census.afterDeed cpu deed)) (envRun cpu e)
      returned (DidAndLeft build cpu asked census) := by
    refine triple_envRun_census.weaken (fun _ => id) (fun _ _ => id) ?_
    rintro next ⟨hasPgdir, dispatched⟩
    refine ⟨deed, asks, fits, ?_⟩
    rw [dispatched]
    exact .resumes isCurrent hasPgdir
  exact ran.run state after

theorem triple_pageFaultHandler_deed {asked : Deed → Prop} {frame : Trapframe}
    {faultVa : UInt32} (current : kernel.cpus cpu = some e)
    (nothing : asked .nothing)
    (asks : (kernel.envs e).envPgfaultUpcall = 0 ∨
      kernel.userMemCheck e (uxStackTop - 4096) 4096
        (pteU ||| pteW ||| pteU) = some false → asked (.exit e)) :
    Triple (· = kernel) (pageFaultHandler build cpu frame faultVa)
      (fun _ => Did cpu asked kernel.census)
      (DidAndLeft build cpu asked kernel.census) := by
  refine at_theCurenv fun here isHere => ?_
  have same : here = e := Option.some.inj (isHere.symm.trans current)
  subst here
  apply Triple.at_read
  split
  · refine (triple_userMemAssert_exit current fun fails =>
      asks (.inr fails)).bind fun _ => ?_
    refine (triple_census_of_frame
      (frame_storeWords blindToMem_census e _ _)).bind fun _ => ?_
    refine (triple_census_of_frame
      (frame_storeWords blindToMem_census e _ _)).bind fun _ => ?_
    refine .ite (fun _ => .stop) fun _ => ?_
    refine .bind_modify (fun state => Did cpu asked kernel.census state ∧
      state.cpus cpu = some e) ?_ triple_envRun_resumes
    intro state shows
    have isCurrent : state.census.roster.current cpu = some e := by
      rw [show state.census = kernel.census from shows]
      exact current
    refine ⟨did_nothing nothing ?_, isCurrent⟩
    exact shows_updateEnv shows (fun _ => rfl) (fun _ => rfl) (fun _ => rfl)
      fun _ => rfl
  · rename_i noUpcall
    have zero : (kernel.envs e).envPgfaultUpcall = 0 := by
      simpa using noUpcall
    exact (triple_envDestroy_exit current (asks (.inl zero))).strengthen _
      shows_of_eq

theorem triple_trapDispatch_deed {surroundings : Surroundings}
    {frame : Trapframe} {faultVa : UInt32}
    (current : kernel.cpus cpu = some e) :
    Triple (· = kernel) (trapDispatch build surroundings cpu frame faultVa)
      (fun _ => Did cpu (kernel.AsksAtTrap surroundings cpu e frame)
        kernel.census)
      (DidAndLeft build cpu (kernel.AsksAtTrap surroundings cpu e frame)
        kernel.census) := by
  have nothing : kernel.AsksAtTrap surroundings cpu e frame .nothing := by
    unfold Kernel.AsksAtTrap
    split
    · trivial
    · exact .inl rfl
  have faults : frame.tfTrapno.toNat ≠ 48 → kernel.Faults e frame →
      kernel.AsksAtTrap surroundings cpu e frame (.exit e) := by
    intro noCall faults
    unfold Kernel.AsksAtTrap
    rw [if_neg noCall]
    exact .inr ⟨faults, rfl⟩
  have unchanged : Triple (· = kernel) (pure () : KernelM Unit)
      (fun _ => Did cpu (kernel.AsksAtTrap surroundings cpu e frame)
        kernel.census)
      (DidAndLeft build cpu (kernel.AsksAtTrap surroundings cpu e frame)
        kernel.census) :=
    .pure fun state same => did_nothing nothing (shows_of_eq state same)
  unfold trapDispatch
  split
  · exact unchanged
  · rename_i number
    refine triple_pageFaultHandler_deed current nothing fun asks => ?_
    refine faults (by rw [number]; decide) ?_
    unfold Kernel.Faults
    rw [number]
    exact asks
  · rename_i number
    have isCall : kernel.AsksAtTrap surroundings cpu e frame =
        kernel.Asks surroundings cpu e frame.tfRegs.regEax frame.tfRegs.regEdx
          frame.tfRegs.regEcx frame.tfRegs.regEbx frame.tfRegs.regEdi := by
      funext deed
      unfold Kernel.AsksAtTrap
      rw [if_pos number]
    rw [isCall]
    refine at_theCurenv fun here isHere => ?_
    refine (triple_syscall_deed current).bind fun result => ?_
    apply Triple.modify
    rintro state ⟨deed, asks, fits, after⟩
    exact ⟨deed, asks, fits, shows_updateEnv after (fun _ => rfl)
      (fun _ => rfl) (fun _ => rfl) fun _ => rfl⟩
  · exact unchanged
  · refine (triple_schedYield_census.strengthen _ shows_of_eq).weaken
      (fun _ => id) (fun _ _ => id) ?_
    exact fun state left => didAndLeft_of_leftFrom nothing left
  · rename_i isNot3 isNot14 isNot48 isNot39 isNot32
    refine at_theCurenv fun here isHere => ?_
    have same : here = e := Option.some.inj (isHere.symm.trans current)
    subst here
    refine (triple_envDestroy_exit current (faults isNot48 ?_)).strengthen _
      shows_of_eq
    unfold Kernel.Faults
    split <;> simp_all

/-- A trap does one deed and leaves the kernel. -/
theorem triple_trap_deed {surroundings : Surroundings} {frame : Trapframe}
    {faultVa : UInt32} {returned : Unit → Kernel → Prop} :
    Triple (· = kernel) (trap build surroundings cpu frame faultVa) returned
      (DidAndLeft build cpu
        (TrapEvent.Asks kernel (.user cpu surroundings frame faultVa))
        kernel.census) := by
  refine at_theCurenv fun here current => ?_
  apply Triple.at_read
  by_cases dying : (kernel.envs here).envStatus = .dying
  · rw [if_pos dying]
    refine (triple_exit current ⟨here, current, ?_⟩).strengthen _ shows_of_eq
    rw [if_pos dying]
  · rw [if_neg dying]
    apply Triple.at_modify
    have shows : Shows kernel.census (kernel.saveFrame here frame) :=
      shows_updateEnv rfl (fun _ => rfl) (fun _ => rfl) (fun _ => rfl)
        fun _ => rfl
    have dispatch : Triple (· = kernel.saveFrame here frame)
        (trapDispatch build surroundings cpu frame faultVa) _ _ :=
      triple_trapDispatch_deed current
    rw [show (kernel.saveFrame here frame).census = kernel.census from shows]
      at dispatch
    have asks : ∀ deed,
        (kernel.saveFrame here frame).AsksAtTrap surroundings cpu here frame
          deed →
        TrapEvent.Asks kernel (.user cpu surroundings frame faultVa) deed := by
      intro deed asks
      refine ⟨here, current, ?_⟩
      rw [if_neg dying]
      exact asks
    have leaves : ∀ state, DidAndLeft build cpu
        ((kernel.saveFrame here frame).AsksAtTrap surroundings cpu here frame)
        kernel.census state →
        DidAndLeft build cpu
          (TrapEvent.Asks kernel (.user cpu surroundings frame faultVa))
          kernel.census state := by
      rintro state ⟨deed, asked, fits, left⟩
      exact ⟨deed, asks deed asked, fits, left⟩
    refine (dispatch.bind fun _ => ?_).weaken (fun _ => id) (fun _ _ => id)
      leaves
    apply Triple.bind_read
    intro running
    cases running with
    | some e =>
        refine triple_envRun_resumes.strengthen _ ?_
        rintro state ⟨did, running⟩
        exact ⟨did, (Option.filter_eq_some_iff.mp running).1⟩
    | none =>
        constructor
        rintro state ⟨⟨deed, asked, fits, after⟩, -⟩
        have yields : Triple (Shows (kernel.census.afterDeed cpu deed))
            (schedYield build cpu) returned
            (LeftFrom build cpu (kernel.census.afterDeed cpu deed)) :=
          triple_schedYield_census
        exact (yields.weaken (fun _ => id) (fun _ _ => id)
          fun _ left => ⟨deed, asked, fits, left⟩).run state after

/-- An event does one of the deeds that it asks for, and the processor leaves the
kernel. -/
theorem deed_of_entry {event : TrapEvent} {next : Kernel}
    (left : event.entry build kernel = .leaves next) :
    DidAndLeft build event.cpu (event.Asks kernel) kernel.census next := by
  cases event with
  | user cpu surroundings frame faultVa =>
      have traps : Triple (· = kernel)
          (trap build surroundings cpu frame faultVa) (fun _ _ => False) _ :=
        triple_trap_deed
      have run := traps.run kernel rfl
      have leaves : trap build surroundings cpu frame faultVa kernel =
          .leaves next := left
      rwa [leaves] at run
  | wake cpu =>
      have yields : Triple (Shows kernel.census)
          (schedYield build cpu : KernelM Unit) (fun _ _ => False) _ :=
        triple_schedYield_census
      have run := yields.run kernel rfl
      have leaves : (schedYield build cpu : KernelM Unit) kernel =
          .leaves next := left
      rw [leaves] at run
      have asks : TrapEvent.Asks kernel (.wake cpu) .nothing := rfl
      exact didAndLeft_of_leftFrom asks run

end FeaturesOS.Scheduler

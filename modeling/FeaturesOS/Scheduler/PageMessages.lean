import FeaturesOS.Scheduler.AccountRuns
import FeaturesOS.Scheduler.Rendezvous

/-!
# Messages with pages

When a failed send has no effect, and when `env_ipc_perm` tells the receiver
whether it has got a page.
-/

namespace FeaturesOS.Scheduler

open Entry

variable {pool : List Nat} {kernel next : Kernel} {dst : Nat}
variable {srcva perm srcpte : UInt32} {r : Int}

/-! ## `sys_ipc_try_send` -/

variable {surroundings : Surroundings} {cpu current : Nat}
variable {envid value : UInt32}

theorem sysIpcTrySend_error (surroundings : Surroundings)
    (value srcva perm : UInt32)
    (missing : envid2env cpu envid false kernel = .error r) :
    sysIpcTrySend surroundings cpu envid value srcva perm kernel =
      .returns r kernel := by
  unfold sysIpcTrySend
  rw [bind_run, lookupEnv_run, missing]
  rfl

/-- The call after `envid2env`. -/
theorem sysIpcTrySend_run (surroundings : Surroundings)
    (value srcva perm : UInt32) (isCurrent : kernel.cpus cpu = some current)
    (finds : kernel.Finds cpu envid false dst) :
    sysIpcTrySend surroundings cpu envid value srcva perm kernel =
      if (kernel.envs dst).envIpcRecving = false then
        .returns (-eIpcNotRecv) kernel
      else if srcva ≥ utop then
        ipcDeliver current dst value
          (kernel.updateEnv dst fun env => { env with envIpcPerm := 0 })
      else if srcva % 4096 ≠ 0 then .returns (-eInval) kernel
      else
        match kernel.sourceWord surroundings current srcva with
        | none => .stops
        | some srcpte =>
            if SrcpteRefused srcpte perm then .returns (-eInval) kernel
            else
              match ipcTransfer current srcva dst (perm ||| pteU ||| pteP)
                kernel with
              | .stops => .stops
              | .leaves next => .leaves next
              | .returns r next =>
                  if r < 0 then .returns r next
                  else ipcDeliver current dst value next := by
  unfold Kernel.Finds at finds
  unfold sysIpcTrySend
  rw [bind_run, lookupEnv_run, finds]
  dsimp only
  unfold theCurenv
  rw [bind_assoc, read_bind_run, isCurrent]
  dsimp only
  rw [bind_run, pure_run]
  dsimp only
  rw [read_bind_run]
  cases (kernel.envs dst).envIpcRecving with
  | false => rfl
  | true =>
      rw [if_neg (not_not_intro rfl), if_neg (show ¬ true = false by decide)]
      by_cases noPage : srcva ≥ utop
      · rw [if_pos noPage, if_pos noPage, modify_bind_run]
      · rw [if_neg noPage, if_neg noPage]
        by_cases misaligned : srcva % 4096 ≠ 0
        · rw [if_pos misaligned, if_pos misaligned]
          rfl
        · rw [if_neg misaligned, if_neg misaligned, read_bind_run]
          cases kernel.sourceWord surroundings current srcva with
          | none => rfl
          | some srcpte =>
              dsimp only
              by_cases refused : SrcpteRefused srcpte perm
              · rw [if_pos refused, if_pos refused]
                rfl
              · rw [if_neg refused, if_neg refused, bind_run]
                cases ipcTransfer current srcva dst (perm ||| pteU ||| pteP)
                  kernel with
                | stops => rfl
                | leaves next => rfl
                | returns r next =>
                    dsimp only
                    split <;> rfl

/-! ## Failed sends -/

/-- The environments in use have directories. -/
def Kernel.Mapped (kernel : Kernel) (cpu : Nat) : Prop :=
  ∀ e, kernel.cpus cpu = some e ∨ (kernel.envs e).envStatus ≠ .free →
    ∃ d, (kernel.envs e).envPgdir = some d

/-- The send returns, whatever is behind the pointer that it leaves
uninitialised, and an error has changed no environment and no page. -/
structure Kernel.SendsSafely (kernel : Kernel) (cpu : Nat)
    (envid value srcva perm : UInt32) : Prop where
  returns : ∃ r next, ∀ surroundings,
    sysIpcTrySend surroundings cpu envid value srcva perm kernel =
      .returns r next
  unchanged : ∀ surroundings r next,
    sysIpcTrySend surroundings cpu envid value srcva perm kernel =
      .returns r next → r < 0 →
    next.envs = kernel.envs ∧ kernel.SamePages next

/-- The call looks for the page of the sender: the receiver is waiting, and the
address is that of a user page. -/
structure Kernel.OffersPage (kernel : Kernel) (cpu : Nat)
    (envid srcva : UInt32) (dst : Nat) : Prop where
  finds : kernel.Finds cpu envid false dst
  receiving : (kernel.envs dst).envIpcRecving = true
  user : UserPage srcva

/-- The sender maps nothing there, or the last free page is taken in vain. -/
inductive Kernel.SpoilsSend (kernel : Kernel) (cpu current : Nat)
    (envid srcva perm : UInt32) : Prop where
  | unmapped {dst : Nat} : kernel.OffersPage cpu envid srcva dst →
      kernel.lookupPage current srcva = some none →
      SpoilsSend kernel cpu current envid srcva perm
  | losesPage {dst page : Nat} {srcpte : UInt32} :
      kernel.OffersPage cpu envid srcva dst →
      kernel.lookupPage current srcva = some (some (page, srcpte)) →
      ¬ SrcpteRefused srcpte perm → (kernel.envs dst).envIpcDstva ≠ 0 →
      ¬ checkPerm (perm ||| pteU ||| pteP) < 0 →
      kernel.RunsDry dst (kernel.envs dst).envIpcDstva →
      SpoilsSend kernel cpu current envid srcva perm

/-- A message that is delivered. -/
theorem ipcDeliver_run (current dst : Nat) (value : UInt32) (kernel : Kernel) :
    ipcDeliver current dst value kernel =
      .returns 0 (kernel.updateEnv dst fun env =>
        { env with
          envIpcFrom := (kernel.envs current).envId
          envIpcRecving := false
          envIpcValue := value
          envTf := env.envTf.setEax 0
          envStatus := .runnable }) := rfl

/-- The call when it looks for the page of the sender. -/
theorem Kernel.OffersPage.run (offers : kernel.OffersPage cpu envid srcva dst)
    (surroundings : Surroundings) (value perm : UInt32)
    (isCurrent : kernel.cpus cpu = some current) :
    sysIpcTrySend surroundings cpu envid value srcva perm kernel =
      match kernel.sourceWord surroundings current srcva with
      | none => .stops
      | some srcpte =>
          if SrcpteRefused srcpte perm then .returns (-eInval) kernel
          else
            match ipcTransfer current srcva dst (perm ||| pteU ||| pteP)
              kernel with
            | .stops => .stops
            | .leaves next => .leaves next
            | .returns r next =>
                if r < 0 then .returns r next
                else ipcDeliver current dst value next := by
  have receives : ¬ (kernel.envs dst).envIpcRecving = false := by
    rw [offers.receiving]
    decide
  have below : ¬ srcva ≥ utop := by
    rw [ge_iff_le, UInt32.not_le]
    exact offers.user.1
  rw [sysIpcTrySend_run surroundings value srcva perm isCurrent offers.finds,
    if_neg receives, if_neg below, if_neg (not_not_intro offers.user.2)]

theorem sourceWord_some {found : Nat × UInt32}
    (mapped : kernel.lookupPage current srcva = some (some found)) :
    kernel.sourceWord surroundings current srcva = some found.2 := by
  unfold Kernel.sourceWord
  rw [mapped]
  rfl

/-- Where the sender maps nothing, the call reads what is behind the
uninitialised pointer. -/
theorem sourceWord_none
    (unmapped : kernel.lookupPage current srcva = some none) :
    kernel.sourceWord surroundings current srcva =
      surroundings.uninitialised := by
  unfold Kernel.sourceWord
  rw [unmapped]
  rfl

theorem Kernel.SpoilsSend.not_sendsSafely
    (isCurrent : kernel.cpus cpu = some current)
    (spoils : kernel.SpoilsSend cpu current envid srcva perm) :
    ¬ kernel.SendsSafely cpu envid value srcva perm := by
  intro safely
  cases spoils with
  | unmapped offers unmapped =>
      obtain ⟨r, next, returns⟩ := safely.returns
      have faults := returns ⟨0, none⟩
      rw [offers.run _ _ _ isCurrent, sourceWord_none unmapped] at faults
      cases faults
  | @losesPage dst page srcpte offers mapped accepted asks allowed dry =>
      obtain ⟨allocates, empty⟩ := dry.envPageAlloc allowed
      have fails : sysIpcTrySend ⟨0, none⟩ cpu envid value srcva perm kernel =
          .returns (-eNoMem) (kernel.setMem (kernel.mem.pageAlloc true).1) := by
        rw [offers.run _ _ _ isCurrent, sourceWord_some mapped]
        dsimp only
        rw [if_neg accepted, ipcTransfer_run _ _ _ _ _ asks, allocates]
        dsimp only
        rw [if_pos (by decide)]
        dsimp only
        rw [if_pos (by decide)]
      have same := (safely.unchanged _ _ _ fails (by decide)).2
      exact dry.not_samePages empty same

/-- A current environment is found, or an error is. -/
theorem envid2env_answers (isCurrent : kernel.cpus cpu = some current)
    (envid : UInt32) (checkperm : Bool) :
    (∃ r, envid2env cpu envid checkperm kernel = .error r) ∨
      ∃ e, kernel.Finds cpu envid checkperm e := by
  unfold Kernel.Finds
  cases found : envid2env cpu envid checkperm kernel with
  | error r => exact .inl ⟨r, rfl⟩
  | ok e =>
      cases e with
      | some e => exact .inr ⟨e, rfl⟩
      | none =>
          unfold envid2env at found
          split at found
          · rw [isCurrent] at found
            cases found
          · dsimp only at found
            split at found
            · cases found
            · split at found <;> cases found

/-- A call with one answer for all surroundings, which changes nothing when it
is an error. -/
theorem Kernel.SendsSafely.of_answer {r : Int} {next : Kernel}
    (answers : ∀ surroundings,
      sysIpcTrySend surroundings cpu envid value srcva perm kernel =
        .returns r next)
    (clean : r < 0 → next = kernel) :
    kernel.SendsSafely cpu envid value srcva perm := by
  refine ⟨⟨r, next, answers⟩, ?_⟩
  intro surroundings r' next' returns failed
  cases (answers surroundings).symm.trans returns
  rw [clean failed]
  exact ⟨rfl, .refl kernel⟩

theorem SoundAt.sendsPage (sound : SoundAt pool kernel)
    (isCurrent : kernel.cpus cpu = some current) (mapped : kernel.Mapped cpu)
    (offers : kernel.OffersPage cpu envid srcva dst)
    (keeps : ¬ kernel.SpoilsSend cpu current envid srcva perm) :
    kernel.SendsSafely cpu envid value srcva perm := by
  obtain ⟨e, isSrc⟩ := mapped current (.inl isCurrent)
  obtain ⟨d, isDst⟩ := mapped dst offers.finds.current_or_live
  obtain ⟨_, looks⟩ := sound.lookupPage isSrc offers.user.1
  cases found : kernel.lookupPage current srcva with
  | none =>
      rw [found] at looks
      cases looks
  | some found' =>
      cases found' with
      | none => exact absurd (.unmapped offers found) keeps
      | some entry =>
          obtain ⟨page, srcpte⟩ := entry
          have runs := fun surroundings =>
            @Kernel.OffersPage.run _ _ _ _ _ _ offers surroundings value perm
              isCurrent
          simp only [sourceWord_some found] at runs
          by_cases refused : SrcpteRefused srcpte perm
          · simp only [if_pos refused] at runs
            exact .of_answer runs fun _ => rfl
          · simp only [if_neg refused] at runs
            by_cases asks : (kernel.envs dst).envIpcDstva = 0
            · simp only [ipcTransfer_none _ _ _ _ _ asks] at runs
              exact .of_answer runs fun failed => absurd failed (by decide)
            · obtain ⟨r, next, transfers, clean⟩ := sound.transfers isSrc isDst
                offers.user found (.of_accepted refused) asks
              simp only [transfers] at runs
              by_cases failed : r < 0
              · simp only [if_pos failed] at runs
                refine .of_answer runs fun failed => ?_
                rcases clean failed with same | ⟨allowed, dry⟩
                · exact same
                · exact absurd (.losesPage offers found refused asks allowed dry)
                    keeps
              · simp only [if_neg failed] at runs
                exact .of_answer runs fun failed => absurd failed (by decide)

/-- A failed send has no effect, and no uninitialised pointer is used, unless the
sender maps nothing where it wants to send a page, or the last free page is taken
for the receiver in vain. -/
theorem sendsSafely_iff (sound : SoundAt pool kernel)
    (isCurrent : kernel.cpus cpu = some current) (mapped : kernel.Mapped cpu)
    (envid value srcva perm : UInt32) :
    kernel.SendsSafely cpu envid value srcva perm ↔
      ¬ kernel.SpoilsSend cpu current envid srcva perm := by
  constructor
  · intro safely spoils
    exact spoils.not_sendsSafely isCurrent safely
  · intro keeps
    rcases envid2env_answers isCurrent envid false with ⟨r, missing⟩ |
      ⟨dst, finds⟩
    · exact .of_answer (fun _ => sysIpcTrySend_error _ _ _ _ missing)
        fun _ => rfl
    · have runs := fun surroundings =>
        sysIpcTrySend_run surroundings value srcva perm isCurrent finds
      cases receiving : (kernel.envs dst).envIpcRecving with
      | false =>
          simp only [if_pos receiving] at runs
          exact .of_answer runs fun _ => rfl
      | true =>
          by_cases user : UserPage srcva
          · exact sound.sendsPage isCurrent mapped ⟨finds, receiving, user⟩ keeps
          · have receives : ¬ (kernel.envs dst).envIpcRecving = false := by
              rw [receiving]
              decide
            simp only [if_neg receives] at runs
            by_cases noPage : srcva ≥ utop
            · simp only [if_pos noPage, ipcDeliver_run] at runs
              exact .of_answer runs fun failed => absurd failed (by decide)
            · have misaligned : srcva % 4096 ≠ 0 := fun aligned =>
                user ⟨UInt32.not_le.mp noPage, aligned⟩
              simp only [if_neg noPage, if_pos misaligned] at runs
              exact .of_answer runs fun _ => rfl

/-- An environment in use has a directory, as long as no trap frees what another
processor runs. -/
theorem Roster.Settled.mapped (settled : kernel.roster.Settled True)
    (cpu : Nat) : kernel.Mapped cpu := by
  have mapped : ∀ e, (kernel.envs e).envStatus ≠ .free →
      ∃ d, (kernel.envs e).envPgdir = some d := by
    intro e lives
    have hasPgdir := ((settled cpu).inside.alive trivial).mapped e lives
    exact Option.isSome_iff_exists.mp hasPgdir
  rintro e (current | lives)
  · exact mapped e (((settled cpu).own e current).2 trivial)
  · exact mapped e lives

/-- A trap that keeps the accounts and frees nothing that runs elsewhere. -/
def TrapEvent.Orderly (kernel : Kernel) (event : TrapEvent) : Prop :=
  event.Countable kernel ∧ event.KeepsAlive kernel

/-- Both environments run, and the first one waits for a page. -/
def asking : List TrapEvent :=
  [.wake 0, .wake 1, .call 0 12 0x1000 0 0 0 0]

/-- What these traps lead to. -/
def afterAsking : Kernel :=
  asking.foldl (TrapEvent.after .roundRobin) pairOfEnvs

theorem orderly_asking :
    (smp .roundRobin).Reachable (fun kernel event => event.Orderly kernel)
      afterAsking := by
  have goes : Machine.Along (TrapEvent.Goes .roundRobin)
      (TrapEvent.after .roundRobin) pairOfEnvs asking := by
    decide +kernel
  obtain ⟨first, second, receives, _⟩ := goes
  have isWake : ∀ kernel cpu, (TrapEvent.wake cpu).Orderly kernel :=
    fun _ _ => ⟨trivial, trivial⟩
  have start : (smp .roundRobin).Reachable
      (fun kernel event => event.Orderly kernel) pairOfEnvs :=
    .initial boot_pairOfEnvs
  refine ((start.step (isWake _ 0) first.step).step (isWake _ 1)
    second.step).step ?_ receives.step
  exact ⟨fun _ _ _ _ => trivial, fun _ _ _ _ => trivial⟩

/-- What the second environment can send to the first one. -/
theorem afterAsking_offers :
    afterAsking.cpus 1 = some 1 ∧ afterAsking.Finds 1 4096 false 0 ∧
      (afterAsking.envs 0).envIpcRecving = true ∧
      (afterAsking.envs 0).envIpcDstva = 0x1000 ∧
      afterAsking.lookupPage 1 0xEEBFD000 = some (some (6, 24583)) ∧
      afterAsking.lookupPage 1 0x5000 = some none := by
  decide +kernel

/-- The second environment sends its stack page. -/
theorem sendsSafely_afterAsking :
    afterAsking.SendsSafely 1 4096 7 0xEEBFD000 7 := by
  obtain ⟨isCurrent, finds, -, -, mapped, -⟩ := afterAsking_offers
  have settled := settled_of_reachable
    (orderly_asking.weaken fun _ _ orderly => orderly.2)
  obtain ⟨pool, sound⟩ := sound_of_reachable
    (orderly_asking.weaken fun _ _ orderly => orderly.1)
  refine (sendsSafely_iff sound isCurrent (settled.mapped 1) _ _ _ _).mpr ?_
  intro spoils
  cases spoils with
  | unmapped _ unmapped => cases unmapped.symm.trans mapped
  | losesPage _ _ _ _ _ dry =>
      obtain ⟨_, _, page, head, last, _⟩ := dry
      have more : ∀ page ∈ afterAsking.mem.pageFreeList,
          (afterAsking.mem.pages page).ppLink ≠ none := by
        decide +kernel
      exact more page head last

/-- What a list of traps leads to from `pairOfEnvs`. -/
theorem pairOfEnvs_reachable {events : List TrapEvent}
    (goes : Machine.Along (TrapEvent.Goes .roundRobin)
      (TrapEvent.after .roundRobin) pairOfEnvs events) :
    (smp .roundRobin).Reachable Machine.Unrestricted
      (events.foldl (TrapEvent.after .roundRobin) pairOfEnvs) := by
  have run : (smp .roundRobin).Run Machine.Unrestricted pairOfEnvs
      (events.map id) (events.foldl (TrapEvent.after .roundRobin) pairOfEnvs) :=
    Machine.run_of_along (fun _ _ goes => goes.step) (fun _ _ _ => trivial) goes
  exact ⟨pairOfEnvs, _, boot_pairOfEnvs, run⟩

/-- The second environment sends a page that it does not map. -/
theorem not_sendsSafely :
    ¬ ∀ (kernel : Kernel) (cpu : Nat) (envid value srcva perm : UInt32),
      (smp .roundRobin).Reachable Machine.Unrestricted kernel →
      kernel.cpus cpu ≠ none →
      kernel.SendsSafely cpu envid value srcva perm := by
  intro safely
  obtain ⟨current, finds, receiving, -, -, unmapped⟩ := afterAsking_offers
  have offers : afterAsking.OffersPage 1 4096 0x5000 0 :=
    ⟨finds, receiving, by decide⟩
  have spoils : afterAsking.SpoilsSend 1 1 4096 0x5000 0 :=
    .unmapped offers unmapped
  have running : afterAsking.cpus 1 ≠ none := by
    rw [current]
    exact Option.some_ne_none 1
  exact spoils.not_sendsSafely current
    (safely _ 1 4096 7 0x5000 0 (orderly_asking.weaken fun _ _ _ => trivial)
      running)

/-! ## What a receiver learns -/

/-- `env_ipc_perm` tells whether the send has transferred a page. -/
structure Kernel.Reports (kernel next : Kernel) (src : Nat) (srcva : UInt32)
    (dst : Nat) (perm : UInt32) : Prop where
  page : srcva < utop ∧ (kernel.envs dst).envIpcDstva ≠ 0 →
    kernel.SharesPage next src srcva dst (kernel.envs dst).envIpcDstva perm ∧
      (next.envs dst).envIpcPerm = perm
  noPage : ¬ (srcva < utop ∧ (kernel.envs dst).envIpcDstva ≠ 0) →
    (∀ va, next.lookupPage dst va = kernel.lookupPage dst va) ∧
      (next.envs dst).envIpcPerm = 0
  flag : (next.envs dst).envIpcPerm ≠ 0 ↔
    srcva < utop ∧ (kernel.envs dst).envIpcDstva ≠ 0

/-- Every send that returns 0 reports whether it has transferred a page. -/
def Kernel.ReportsSend (kernel : Kernel) (surroundings : Surroundings)
    (cpu current : Nat) (envid value srcva perm : UInt32) : Prop :=
  ∀ dst next, kernel.Finds cpu envid false dst →
    sysIpcTrySend surroundings cpu envid value srcva perm kernel =
      .returns 0 next →
    kernel.Reports next current srcva dst (perm ||| pteU ||| pteP)

/-- A page is sent to a receiver that asks for none and whose `env_ipc_perm`
is still that of an earlier message. -/
structure Kernel.LeavesPerm (kernel : Kernel) (surroundings : Surroundings)
    (cpu current : Nat) (envid srcva perm : UInt32) (dst : Nat) : Prop where
  offers : kernel.OffersPage cpu envid srcva dst
  asksNone : (kernel.envs dst).envIpcDstva = 0
  stale : (kernel.envs dst).envIpcPerm ≠ 0
  accepted : ∃ srcpte,
    kernel.sourceWord surroundings current srcva = some srcpte ∧
      ¬ SrcpteRefused srcpte perm

theorem or_pteP_ne_zero (perm : UInt32) : perm ||| pteP ≠ 0 :=
  ne_zero_of_present (or_pteP_present perm)

theorem Kernel.Reports.ofPage (page : srcva < utop)
    (asks : (kernel.envs dst).envIpcDstva ≠ 0)
    (delivered : kernel.SharesPage next current srcva dst
      (kernel.envs dst).envIpcDstva (perm ||| pteP))
    (isPerm : (next.envs dst).envIpcPerm = perm ||| pteP) :
    kernel.Reports next current srcva dst (perm ||| pteP) where
  page _ := ⟨delivered, isPerm⟩
  noPage none := absurd ⟨page, asks⟩ none
  flag := by
    rw [isPerm]
    exact ⟨fun _ => ⟨page, asks⟩, fun _ => or_pteP_ne_zero perm⟩

theorem Kernel.Reports.ofNone
    (none : ¬ (srcva < utop ∧ (kernel.envs dst).envIpcDstva ≠ 0))
    (same : ∀ va, next.lookupPage dst va = kernel.lookupPage dst va)
    (isZero : (next.envs dst).envIpcPerm = 0) :
    kernel.Reports next current srcva dst perm where
  page both := absurd both none
  noPage _ := ⟨same, isZero⟩
  flag := by
    rw [isZero]
    exact ⟨fun nonzero => absurd rfl nonzero, fun both => absurd both none⟩

/-- Changes of an environment that are none of its address space. -/
theorem lookupPage_updateEnv (kernel : Kernel) (e : Nat) {change : Env → Env}
    (pgdir : ∀ env, (change env).envPgdir = env.envPgdir) (f : Nat)
    (va : UInt32) :
    (kernel.updateEnv e change).lookupPage f va = kernel.lookupPage f va := by
  unfold Kernel.lookupPage
  by_cases same : f = e
  · subst same
    simp [Kernel.updateEnv, Kernel.setEnv, pgdir]
  · simp [Kernel.updateEnv, Kernel.setEnv, same]

theorem Kernel.SharesPage.congr {after : Kernel} {dstva : UInt32}
    (delivered : kernel.SharesPage next current srcva dst dstva perm)
    (same : ∀ e va, after.lookupPage e va = next.lookupPage e va) :
    kernel.SharesPage after current srcva dst dstva perm := by
  obtain ⟨page, srcpte, there, here, before⟩ := delivered.shared
  refine ⟨page, srcpte, ?_, ?_, before⟩
  · rw [same, there]
  · rw [same, here]

/-- A transfer that succeeds has found a directory. -/
theorem ipcTransfer_dir
    (returns : ipcTransfer current srcva dst perm kernel = .returns r next)
    (asks : (kernel.envs dst).envIpcDstva ≠ 0) (succeeds : ¬ r < 0) :
    ∃ d, (kernel.envs dst).envPgdir = some d := by
  cases isDst : (kernel.envs dst).envPgdir with
  | some d => exact ⟨d, rfl⟩
  | none =>
      rw [ipcTransfer_run _ _ _ _ _ asks] at returns
      cases outcome : envPageAlloc dst (kernel.envs dst).envIpcDstva perm
          kernel with
      | stops =>
          rw [outcome] at returns
          cases returns
      | leaves middle =>
          rw [outcome] at returns
          cases returns
      | returns r' middle =>
          have failed := envPageAlloc_noDir isDst outcome
          rw [outcome] at returns
          dsimp only at returns
          rw [if_pos failed] at returns
          cases returns
          exact absurd failed succeeds

theorem envs_updateEnv_self (kernel : Kernel) (e : Nat) (change : Env → Env) :
    (kernel.updateEnv e change).envs e = change (kernel.envs e) := by
  simp [Kernel.updateEnv, Kernel.setEnv]

theorem sourceWord_dir
    (word : kernel.sourceWord surroundings current srcva = some srcpte) :
    ∃ d, (kernel.envs current).envPgdir = some d := by
  cases isSrc : (kernel.envs current).envPgdir with
  | some d => exact ⟨d, rfl⟩
  | none =>
      unfold Kernel.sourceWord Kernel.lookupPage at word
      rw [isSrc] at word
      cases word

/-- A send with a page. -/
theorem SoundAt.reportsPage (sound : SoundAt pool kernel)
    (isCurrent : kernel.cpus cpu = some current)
    (offers : kernel.OffersPage cpu envid srcva dst)
    (clears : ¬ kernel.LeavesPerm surroundings cpu current envid srcva perm dst)
    (returns : sysIpcTrySend surroundings cpu envid value srcva perm kernel =
      .returns 0 next) :
    kernel.Reports next current srcva dst (perm ||| pteU ||| pteP) := by
  rw [offers.run _ _ _ isCurrent] at returns
  cases word : kernel.sourceWord surroundings current srcva with
  | none =>
      rw [word] at returns
      cases returns
  | some srcpte =>
      rw [word] at returns
      dsimp only at returns
      by_cases refused : SrcpteRefused srcpte perm
      · rw [if_pos refused] at returns
        cases returns
      · rw [if_neg refused] at returns
        by_cases asks : (kernel.envs dst).envIpcDstva = 0
        · rw [ipcTransfer_none _ _ _ _ _ asks] at returns
          dsimp only at returns
          rw [if_neg (by decide), ipcDeliver_run] at returns
          cases returns
          have isZero : (kernel.envs dst).envIpcPerm = 0 := by
            by_contra stale
            exact clears ⟨offers, asks, stale, srcpte, word, refused⟩
          apply Kernel.Reports.ofNone
          · exact fun both => both.2 asks
          · intro va
            apply lookupPage_updateEnv
            intro env
            rfl
          · rw [envs_updateEnv_self]
            exact isZero
        · obtain ⟨e, isSrc⟩ := sourceWord_dir word
          cases outcome : ipcTransfer current srcva dst (perm ||| pteU ||| pteP)
              kernel with
          | stops =>
              rw [outcome] at returns
              cases returns
          | leaves middle =>
              rw [outcome] at returns
              cases returns
          | returns r middle =>
              rw [outcome] at returns
              dsimp only at returns
              by_cases failed : r < 0
              · rw [if_pos failed] at returns
                cases returns
                exact absurd failed (by decide)
              · rw [if_neg failed, ipcDeliver_run] at returns
                cases returns
                obtain ⟨d, isDst⟩ := ipcTransfer_dir outcome asks failed
                obtain ⟨_, transferred⟩ := sound.transferred isSrc isDst
                  offers.user asks outcome failed
                cases transferred with
                | maps delivered =>
                    apply Kernel.Reports.ofPage offers.user.1 asks
                    · apply delivered.congr
                      intro f va
                      rw [lookupPage_updateEnv, lookupPage_updateEnv]
                      · exact fun _ => rfl
                      · exact fun _ => rfl
                    · rw [envs_updateEnv_self, envs_updateEnv_self]

theorem Kernel.LeavesPerm.not_reportsSend
    (leaves : kernel.LeavesPerm surroundings cpu current envid srcva perm dst)
    (isCurrent : kernel.cpus cpu = some current) (value : UInt32) :
    ¬ kernel.ReportsSend surroundings cpu current envid value srcva perm := by
  intro reports
  obtain ⟨srcpte, word, accepted⟩ := leaves.accepted
  have returns := leaves.offers.run surroundings value perm isCurrent
  rw [word] at returns
  dsimp only at returns
  rw [if_neg accepted, ipcTransfer_none _ _ _ _ _ leaves.asksNone] at returns
  dsimp only at returns
  rw [if_neg (by decide), ipcDeliver_run] at returns
  have isZero := (reports dst _ leaves.offers.finds returns).noPage
    fun both => both.2 leaves.asksNone
  rw [envs_updateEnv_self] at isZero
  exact leaves.stale isZero.2

theorem SoundAt.reports_iff (sound : SoundAt pool kernel)
    (isCurrent : kernel.cpus cpu = some current) :
    kernel.ReportsSend surroundings cpu current envid value srcva perm ↔
      ∀ dst, ¬ kernel.LeavesPerm surroundings cpu current envid srcva perm
        dst := by
  constructor
  · intro reports dst leaves
    exact leaves.not_reportsSend isCurrent value reports
  · intro clears dst next finds returns
    by_cases offers : (kernel.envs dst).envIpcRecving = true ∧ UserPage srcva
    · exact sound.reportsPage isCurrent ⟨finds, offers.1, offers.2⟩ (clears dst)
        returns
    · rw [sysIpcTrySend_run _ _ _ _ isCurrent finds] at returns
      by_cases waits : (kernel.envs dst).envIpcRecving = false
      · rw [if_pos waits] at returns
        cases returns
      · rw [if_neg waits] at returns
        have receiving : (kernel.envs dst).envIpcRecving = true := by
          simpa using waits
        by_cases noPage : srcva ≥ utop
        · rw [if_pos noPage, ipcDeliver_run] at returns
          cases returns
          apply Kernel.Reports.ofNone
          · exact fun both => UInt32.not_lt.mpr noPage both.1
          · intro va
            rw [lookupPage_updateEnv, lookupPage_updateEnv]
            · exact fun _ => rfl
            · exact fun _ => rfl
          · rw [envs_updateEnv_self, envs_updateEnv_self]
        · have misaligned : srcva % 4096 ≠ 0 := fun aligned =>
            offers ⟨receiving, UInt32.not_le.mp noPage, aligned⟩
          rw [if_neg noPage, if_pos misaligned] at returns
          cases returns

/-- In the states that countable traps lead to, a send that returns 0 reports
whether it has transferred a page, unless a page is sent to a receiver that asks
for none and whose `env_ipc_perm` is still that of an earlier message. -/
theorem reportsSend_iff {build : Build}
    (reachable : (smp build).Reachable (fun kernel event =>
      event.Countable kernel) kernel)
    (isCurrent : kernel.cpus cpu = some current) (frame : Trapframe)
    (surroundings : Surroundings) (envid value srcva perm : UInt32) :
    (kernel.saveFrame current frame).ReportsSend surroundings cpu current envid
        value srcva perm ↔
      ∀ dst, ¬ (kernel.saveFrame current frame).LeavesPerm surroundings cpu
        current envid srcva perm dst := by
  obtain ⟨pool, sound⟩ := sound_of_reachable reachable
  exact (sound.saveFrame current frame).reports_iff isCurrent

/-- The second environment sends its stack page, and says so. -/
theorem reportsSend_afterAsking :
    (afterAsking.saveFrame 1 .zero).ReportsSend ⟨0, none⟩ 1 1 4096 7 0xEEBFD000
      7 := by
  obtain ⟨isCurrent, finds, -, asks, -, -⟩ := afterAsking_offers
  refine (reportsSend_iff (orderly_asking.weaken fun _ _ orderly => orderly.1)
    isCurrent .zero ⟨0, none⟩ 4096 7 0xEEBFD000 7).mpr ?_
  intro dst leaves
  have isReceiver : dst = 0 := slot_of_finds leaves.offers.finds (by decide)
  have asksNone := leaves.asksNone
  rw [isReceiver] at asksNone
  cases asks.symm.trans asksNone

/-- The first environment has received the stack page of the second one, and
waits for a message without a page. -/
def satisfied : List TrapEvent :=
  asking ++ [.call 1 11 4096 7 0xEEBFD000 7 0, .wake 0, .call 0 12 0 0 0 0 0]

/-- What these traps lead to, when the second environment calls the kernel. -/
def afterSatisfied : Kernel :=
  (satisfied.foldl (TrapEvent.after .roundRobin) pairOfEnvs).saveFrame 1 .zero

theorem afterSatisfied_shows :
    Machine.Along (TrapEvent.Goes .roundRobin) (TrapEvent.after .roundRobin)
        pairOfEnvs satisfied ∧
      (satisfied.foldl (TrapEvent.after .roundRobin) pairOfEnvs).cpus 1 =
        some 1 ∧
      afterSatisfied.Finds 1 4096 false 0 ∧
      (afterSatisfied.envs 0).envIpcRecving = true ∧
      afterSatisfied.lookupPage 1 0xEEBFD000 = some (some (6, 24583)) ∧
      (afterSatisfied.envs 0).envIpcDstva = 0 ∧
      (afterSatisfied.envs 0).envIpcPerm ≠ 0 := by
  decide +kernel

/-- The second environment sends its stack page again. -/
theorem not_reportsSend :
    ¬ ∀ (kernel : Kernel) (cpu current : Nat) (frame : Trapframe)
        (surroundings : Surroundings) (envid value srcva perm : UInt32),
      (smp .roundRobin).Reachable Machine.Unrestricted kernel →
      kernel.cpus cpu = some current →
      (kernel.saveFrame current frame).ReportsSend surroundings cpu current
        envid value srcva perm := by
  intro reports
  obtain ⟨goes, current, finds, receiving, mapped, asksNone, stale⟩ :=
    afterSatisfied_shows
  have offers : afterSatisfied.OffersPage 1 4096 0xEEBFD000 0 :=
    ⟨finds, receiving, by decide⟩
  have leaves : afterSatisfied.LeavesPerm ⟨0, none⟩ 1 1 4096 0xEEBFD000 7 0 :=
    ⟨offers, asksNone, stale, 24583, sourceWord_some mapped, by decide⟩
  exact leaves.not_reportsSend current 7
    (reports _ 1 1 .zero ⟨0, none⟩ 4096 7 0xEEBFD000 7
      (pairOfEnvs_reachable goes) current)

end FeaturesOS.Scheduler

import FeaturesOS.Scheduler.KernelLock

/-!
# The kernel under the big kernel lock

At most one processor is between `lock_kernel` and `unlock_kernel`, `spin_lock`
and `spin_unlock` never panic, and every processor that `boot_aps` starts gets a
stack of its own.  The kernel therefore goes through the states that it has when
every trap is one step.
-/

namespace FeaturesOS.Scheduler

variable {sections : Sections Kernel TrapEvent} {ncpu boot : Nat}
variable {cpu other : Nat} {Local : Type}
variable {lock next : Spinlock} {state after : SmpState sections.Local}

/-! ## The lock -/

/-- The processor has the lock. -/
def CpuPoint.Holds : CpuPoint Local → Prop
  | .bootAps _ | .startAp _ | .waitAp _ => True
  | .checkCs event => event.fromUser = false
  | .locking .record _ => True
  | .inside _ _ | .unlocking _ _ => True
  | _ => False

/-- The lock names the processor. -/
def CpuPoint.Recorded : CpuPoint Local → Prop
  | .bootAps _ | .startAp _ | .waitAp _ => True
  | .checkCs event => event.fromUser = false
  | .inside _ _ => True
  | .unlocking .locked _ | .unlocking .cpu _ | .unlocking .clear _ => True
  | _ => False

/-- The lock belongs to the one processor that has it. -/
structure Spinlock.Guards (lock : Spinlock) (point : Nat → CpuPoint Local) :
    Prop where
  one : ∀ c d, (point c).Holds → (point d).Holds → c = d
  held : ∀ c, (point c).Holds → lock.locked ≠ 0
  taken : lock.locked ≠ 0 → ∃ c, (point c).Holds
  named : ∀ c, lock.cpu = some c → (point c).Recorded
  names : ∀ c, (point c).Recorded → lock.cpu = some c

variable {points : Nat → CpuPoint Local} {point : CpuPoint Local}

theorem uint32_one_ne : (1 : UInt32) ≠ 0 := by decide

theorem CpuPoint.Recorded.holds (recorded : point.Recorded) : point.Holds := by
  cases point with
  | bootAps _ | startAp _ | waitAp _ | inside _ _ => trivial
  | checkCs event => exact recorded
  | unlocking point _ => trivial
  | locking _ _ => exact recorded.elim
  | off | mpentry | mpMain | user | halt | trap _ | panics =>
      exact recorded.elim

/-- While a processor has the lock, no other one has it. -/
theorem Spinlock.Guards.holder (guards : lock.Guards points) {c : Nat}
    (held : (points cpu).Holds)
    (isHolder : (Function.update points cpu point c).Holds) : c = cpu := by
  by_contra different
  rw [Function.update_of_ne different] at isHolder
  exact different (guards.one c cpu isHolder held)

/-- A step that has nothing to do with the lock. -/
theorem Spinlock.Guards.move (guards : lock.Guards points)
    (holds : point.Holds ↔ (points cpu).Holds)
    (recorded : point.Recorded ↔ (points cpu).Recorded) :
    lock.Guards (Function.update points cpu point) := by
  have sameHolds : ∀ c, (Function.update points cpu point c).Holds ↔
      (points c).Holds := by
    intro c
    by_cases here : c = cpu
    · rw [here, Function.update_self, holds]
    · rw [Function.update_of_ne here]
  have sameRecorded : ∀ c, (Function.update points cpu point c).Recorded ↔
      (points c).Recorded := by
    intro c
    by_cases here : c = cpu
    · rw [here, Function.update_self, recorded]
    · rw [Function.update_of_ne here]
  constructor
  · intro c d first second
    exact guards.one c d ((sameHolds c).mp first) ((sameHolds d).mp second)
  · intro c isHolder
    exact guards.held c ((sameHolds c).mp isHolder)
  · intro taken
    obtain ⟨c, isHolder⟩ := guards.taken taken
    exact ⟨c, (sameHolds c).mpr isHolder⟩
  · intro c named
    exact (sameRecorded c).mpr (guards.named c named)
  · intro c isRecorded
    exact guards.names c ((sameRecorded c).mp isRecorded)

/-- A failing `xchg` stores the value that is there. -/
theorem Spinlock.Guards.relock (guards : lock.Guards points)
    (taken : lock.locked ≠ 0) : ({ lock with locked := 1 }).Guards points where
  one := guards.one
  held _ _ := uint32_one_ne
  taken _ := guards.taken taken
  named := guards.named
  names := guards.names

/-- An `xchg` that finds the lock free takes it. -/
theorem Spinlock.Guards.acquire (guards : lock.Guards points)
    (free : lock.locked = 0) (holds : point.Holds)
    (unrecorded : ¬ point.Recorded) :
    ({ lock with locked := 1 }).Guards (Function.update points cpu point) := by
  have nobody : ∀ c, ¬ (points c).Holds := fun c isHolder =>
    guards.held c isHolder free
  have only : ∀ c, (Function.update points cpu point c).Holds → c = cpu := by
    intro c isHolder
    by_contra different
    rw [Function.update_of_ne different] at isHolder
    exact nobody c isHolder
  constructor
  · intro c d first second
    rw [only c first, only d second]
  · exact fun _ _ => uint32_one_ne
  · refine fun _ => ⟨cpu, ?_⟩
    rw [Function.update_self]
    exact holds
  · intro c named
    exact absurd (guards.named c named).holds (nobody c)
  · intro c isRecorded
    have same := only c isRecorded.holds
    rw [same, Function.update_self] at isRecorded
    exact absurd isRecorded unrecorded

/-- The holder writes its name. -/
theorem Spinlock.Guards.record (guards : lock.Guards points)
    (held : (points cpu).Holds) (recorded : point.Recorded) :
    ({ lock with cpu := some cpu }).Guards
      (Function.update points cpu point) := by
  have only : ∀ c, (Function.update points cpu point c).Holds → c = cpu :=
    fun _ => guards.holder held
  constructor
  · intro c d first second
    rw [only c first, only d second]
  · exact fun _ _ => guards.held cpu held
  · refine fun _ => ⟨cpu, ?_⟩
    rw [Function.update_self]
    exact recorded.holds
  · rintro c named
    cases named
    rw [Function.update_self]
    exact recorded
  · intro c isRecorded
    rw [only c isRecorded.holds]

/-- The holder clears its name. -/
theorem Spinlock.Guards.clear (guards : lock.Guards points)
    (held : (points cpu).Holds) (holds : point.Holds)
    (unrecorded : ¬ point.Recorded) :
    ({ lock with cpu := none }).Guards (Function.update points cpu point) := by
  have only : ∀ c, (Function.update points cpu point c).Holds → c = cpu :=
    fun _ => guards.holder held
  constructor
  · intro c d first second
    rw [only c first, only d second]
  · exact fun _ _ => guards.held cpu held
  · refine fun _ => ⟨cpu, ?_⟩
    rw [Function.update_self]
    exact holds
  · rintro c named
    cases named
  · intro c isRecorded
    have same := only c isRecorded.holds
    rw [same, Function.update_self] at isRecorded
    exact absurd isRecorded unrecorded

/-- The holder, which the lock does not name, releases the lock. -/
theorem Spinlock.Guards.release (guards : lock.Guards points)
    (held : (points cpu).Holds) (unnamed : ¬ (points cpu).Recorded)
    (gone : ¬ point.Holds) :
    ({ lock with locked := 0 }).Guards (Function.update points cpu point) := by
  have nobody : ∀ c, ¬ (Function.update points cpu point c).Holds := by
    intro c isHolder
    have same := guards.holder held isHolder
    rw [same, Function.update_self] at isHolder
    exact gone isHolder
  constructor
  · exact fun c _ isHolder => absurd isHolder (nobody c)
  · exact fun c isHolder => absurd isHolder (nobody c)
  · exact fun zero => absurd rfl zero
  · intro c named
    have recorded := guards.named c named
    have same := guards.one c cpu recorded.holds held
    rw [same] at recorded
    exact absurd recorded unnamed
  · exact fun c isRecorded => absurd isRecorded.holds (nobody c)

/-! ## The state of one processor -/

/-- What `cpu_status` says about a processor, and which events it handles. -/
def CpuPoint.Fits (cpu : Nat) (status : CpuStatus) : CpuPoint Local → Prop
  | .off | .mpentry | .mpMain => status = .unused
  | .bootAps _ | .startAp _ | .waitAp _ | .user => status = .started
  | .halt => status = .halted
  | .trap event =>
      event.cpu = cpu ∧
        status = if event.fromUser then .started else .halted
  | .locking _ .bootAps => status = .started
  | .locking _ (.checkCs event) =>
      event.cpu = cpu ∧ event.fromUser = false ∧ status = .started
  | .locking _ (.enter event) | .checkCs event | .inside event _ =>
      event.cpu = cpu ∧ status = .started
  | .unlocking _ halts => status = if halts then .halted else .started
  | .panics => False

/-- The lock and the status of every processor are in order. -/
structure SmpState.Guarded (state : SmpState sections.Local) : Prop where
  guards : state.lock.Guards state.point
  fits : ∀ cpu, (state.point cpu).Fits cpu (state.status cpu)

/-- The step of a processor that keeps the lock in order. -/
theorem SmpState.Guarded.become (guarded : state.Guarded)
    {there : CpuPoint sections.Local} {status : CpuStatus}
    (points : after.point = Function.update state.point cpu there)
    (statuses : after.status = Function.update state.status cpu status)
    (guards : after.lock.Guards after.point) (fits : there.Fits cpu status) :
    after.Guarded := by
  refine ⟨guards, fun other => ?_⟩
  rw [points, statuses]
  by_cases same : other = cpu
  · rw [same, Function.update_self, Function.update_self]
    exact fits
  · rw [Function.update_of_ne same, Function.update_of_ne same]
    exact guarded.fits other

/-- A step that leaves the lock alone. -/
theorem SmpState.Guarded.moves (guarded : state.Guarded)
    {here there : CpuPoint sections.Local} {status : CpuStatus}
    (isHere : state.point cpu = here)
    (points : after.point = Function.update state.point cpu there)
    (statuses : after.status = Function.update state.status cpu status)
    (lock : after.lock = state.lock) (holds : there.Holds ↔ here.Holds)
    (recorded : there.Recorded ↔ here.Recorded)
    (fits : there.Fits cpu status) : after.Guarded := by
  subst isHere
  refine guarded.become points statuses ?_ fits
  rw [points, lock]
  exact guarded.guards.move holds recorded

/-- A step of `spin_lock`. -/
theorem SmpState.Guarded.lockGoes (guarded : state.Guarded)
    {point there : LockPoint} {after : AfterLock}
    (here : state.point cpu = .locking point after)
    (goes : spinLock cpu state.lock point = .goes next there) :
    next.Guards (Function.update state.point cpu (.locking there after)) := by
  have guards := guarded.guards
  cases point with
  | locked =>
      have moves : ∀ there, there = .cpu ∨ there = .xchg →
          state.lock.Guards
            (Function.update state.point cpu (.locking there after)) := by
        rintro _ (rfl | rfl) <;>
          exact guards.move (by rw [here]; rfl) (by rw [here]; rfl)
      simp only [spinLock] at goes
      split at goes
      · cases goes
        exact moves _ (.inl rfl)
      · cases goes
        exact moves _ (.inr rfl)
  | cpu =>
      simp only [spinLock] at goes
      split at goes
      · cases goes
      · cases goes
        exact guards.move (by rw [here]; rfl) (by rw [here]; rfl)
  | xchg =>
      simp only [spinLock] at goes
      split at goes
      · rename_i taken
        cases goes
        have same : Function.update state.point cpu (.locking .xchg after) =
            state.point := by
          rw [← here, Function.update_eq_self]
        rw [same]
        exact guards.relock taken
      · rename_i free
        cases goes
        exact guards.acquire (not_not.mp free) trivial id
  | record => cases goes

/-- Nobody calls `lock_kernel` who has the lock. -/
theorem SmpState.Guarded.lock_not_panics (guarded : state.Guarded)
    {point : LockPoint} {after : AfterLock}
    (here : state.point cpu = .locking point after) :
    spinLock cpu state.lock point ≠ .panics := by
  intro panics
  cases point with
  | cpu =>
      simp only [spinLock] at panics
      split at panics
      · rename_i named
        have recorded := guarded.guards.named cpu named
        rw [here] at recorded
        exact recorded
      · cases panics
  | locked | xchg =>
      simp only [spinLock] at panics
      split at panics <;> cases panics
  | record => cases panics

/-- Only the holder calls `unlock_kernel`. -/
theorem SmpState.Guarded.unlock_not_panics (guarded : state.Guarded)
    {point : UnlockPoint} {halts : Bool}
    (here : state.point cpu = .unlocking point halts) :
    spinUnlock cpu state.lock point ≠ .panics := by
  intro panics
  have holds : (state.point cpu).Holds := by
    rw [here]
    trivial
  cases point with
  | locked =>
      simp only [spinUnlock] at panics
      rw [if_pos (guarded.guards.held cpu holds)] at panics
      cases panics
  | cpu =>
      have recorded : (state.point cpu).Recorded := by
        rw [here]
        trivial
      simp only [spinUnlock] at panics
      rw [if_pos (guarded.guards.names cpu recorded)] at panics
      cases panics
  | clear | xchg => cases panics

/-- A step of `spin_unlock`. -/
theorem SmpState.Guarded.unlockGoes (guarded : state.Guarded)
    {point there : UnlockPoint} {halts : Bool}
    (here : state.point cpu = .unlocking point halts)
    (goes : spinUnlock cpu state.lock point = .goes next there) :
    next.Guards
      (Function.update state.point cpu (.unlocking there halts)) := by
  have guards := guarded.guards
  have holds : (state.point cpu).Holds := by
    rw [here]
    trivial
  cases point with
  | locked | cpu =>
      simp only [spinUnlock] at goes
      split at goes
      · cases goes
        exact guards.move (by rw [here]; rfl) (by rw [here]; rfl)
      · cases goes
  | clear =>
      cases goes
      exact guards.clear holds trivial id
  | xchg => cases goes

/-! ## Starting the processors -/

/-- Only the boot processor gets here. -/
def CpuPoint.Boots : CpuPoint Local → Prop
  | .locking _ .bootAps | .bootAps _ | .startAp _ | .waitAp _ => True
  | _ => False

/-- The boot processor has started the processors below `lo` and none from `hi`
on. -/
def CpuPoint.Reached (ncpu boot : Nat) (kstack : Option Nat) (lo hi : Nat) :
    CpuPoint Local → Prop
  | .locking _ .bootAps => lo = 0 ∧ hi = 0
  | .bootAps c => lo = c ∧ hi = c
  | .startAp c => lo = c ∧ hi = c ∧ c ≠ boot ∧ kstack = some c
  | .waitAp c => lo = c ∧ hi = c + 1 ∧ c ≠ boot ∧ kstack = some c
  | _ => lo = hi ∧ ncpu ≤ lo

/-- A processor loads `mpentry_kstack` while it is its own stack, and runs on this
stack ever after. -/
def CpuPoint.OnStack (cpu : Nat) (kstack stack : Option Nat) :
    CpuPoint Local → Prop
  | .off => True
  | .mpentry => kstack = some cpu
  | _ => stack = some cpu

structure SmpState.Booting (ncpu boot : Nat)
    (state : SmpState sections.Local) : Prop where
  only : ∀ cpu, (state.point cpu).Boots → cpu = boot
  order : ∃ lo hi, (state.point boot).Reached ncpu boot state.kstack lo hi ∧
    (∀ cpu < lo, cpu ≠ boot → state.status cpu ≠ .unused) ∧
    ∀ cpu, hi ≤ cpu → cpu ≠ boot → state.point cpu = .off
  kstacks : ∀ cpu, cpu ≠ boot →
    (state.point cpu).OnStack cpu state.kstack (state.stack cpu)

theorem CpuPoint.reached_of_not_boots {kstack : Option Nat} {lo hi : Nat}
    {point : CpuPoint Local} (elsewhere : ¬ point.Boots) :
    point.Reached ncpu boot kstack lo hi ↔ lo = hi ∧ ncpu ≤ lo := by
  cases point with
  | locking point after =>
      cases after with
      | bootAps => exact absurd trivial elsewhere
      | checkCs _ | enter _ => rfl
  | bootAps _ | startAp _ | waitAp _ => exact absurd trivial elsewhere
  | off | mpentry | mpMain | user | halt | trap _ | checkCs _ | inside _ _
    | unlocking _ _ | panics => rfl

/-- A step that is not one of `boot_aps`. -/
theorem SmpState.Booting.aside (booting : state.Booting ncpu boot)
    {point : CpuPoint sections.Local} (present : state.point cpu ≠ .off)
    (elsewhere : ¬ (state.point cpu).Boots) (elsewhere' : ¬ point.Boots)
    (points : after.point = Function.update state.point cpu point)
    (status : ∀ c, state.status c ≠ .unused → after.status c ≠ .unused)
    (kstack : after.kstack = state.kstack)
    (kstacks : ∀ c, c ≠ cpu → after.stack c = state.stack c)
    (own : cpu ≠ boot →
      point.OnStack cpu state.kstack (after.stack cpu)) :
    after.Booting ncpu boot := by
  obtain ⟨lo, hi, reached, started, off⟩ := booting.order
  refine ⟨?_, ⟨lo, hi, ?_, ?_, ?_⟩, ?_⟩
  · intro c boots
    rw [points] at boots
    by_cases same : c = cpu
    · rw [same, Function.update_self] at boots
      exact absurd boots elsewhere'
    · rw [Function.update_of_ne same] at boots
      exact booting.only c boots
  · rw [points, kstack]
    by_cases same : boot = cpu
    · rw [same] at reached ⊢
      rw [CpuPoint.reached_of_not_boots elsewhere] at reached
      rwa [Function.update_self, CpuPoint.reached_of_not_boots elsewhere']
    · rwa [Function.update_of_ne same]
  · exact fun c below different => status c (started c below different)
  · intro c above different
    have isOff := off c above different
    have other : c ≠ cpu := fun same => present (same ▸ isOff)
    rwa [points, Function.update_of_ne other]
  · intro c different
    rw [points, kstack]
    by_cases same : c = cpu
    · subst same
      rw [Function.update_self]
      exact own different
    · rw [Function.update_of_ne same, kstacks c same]
      exact booting.kstacks c different

/-- A step of `boot_aps` that concerns no other processor. -/
theorem SmpState.Booting.bootMoves (booting : state.Booting ncpu boot)
    {point : CpuPoint sections.Local}
    (points : after.point = Function.update state.point boot point)
    (stack : after.stack = state.stack)
    (order : ∃ lo hi, point.Reached ncpu boot after.kstack lo hi ∧
      (∀ cpu < lo, cpu ≠ boot → after.status cpu ≠ .unused) ∧
      ∀ cpu, hi ≤ cpu → cpu ≠ boot → state.point cpu = .off)
    (kstack : ∀ cpu, cpu ≠ boot → state.point cpu = .mpentry →
      after.kstack = some cpu) :
    after.Booting ncpu boot := by
  obtain ⟨lo, hi, reached, started, off⟩ := order
  refine ⟨?_, ⟨lo, hi, ?_, started, ?_⟩, ?_⟩
  · intro c boots
    by_contra different
    rw [points, Function.update_of_ne different] at boots
    exact different (booting.only c boots)
  · rwa [points, Function.update_self]
  · intro c above different
    rw [points, Function.update_of_ne different]
    exact off c above different
  · intro c different
    rw [points, Function.update_of_ne different, stack]
    have onStack := booting.kstacks c different
    cases at' : state.point c with
    | mpentry => exact kstack c different at'
    | off => trivial
    | _ =>
        rw [at'] at onStack
        exact onStack

/-- While no processor has been asked to start, none loads `mpentry_kstack`. -/
theorem SmpState.Guarded.not_mpentry (guarded : state.Guarded) {c : Nat}
    (started : ∀ cpu < c, cpu ≠ boot → state.status cpu ≠ .unused)
    (off : ∀ cpu, c ≤ cpu → cpu ≠ boot → state.point cpu = .off)
    (different : cpu ≠ boot) : state.point cpu ≠ .mpentry := by
  intro loads
  by_cases below : cpu < c
  · have fits := guarded.fits cpu
    rw [loads] at fits
    exact started cpu below different fits
  · rw [off cpu (Nat.le_of_not_lt below) different] at loads
    cases loads

/-- A step of `boot_aps` after which the same processors are started. -/
theorem SmpState.Booting.bootStays (booting : state.Booting ncpu boot)
    (guarded : state.Guarded) {here there : CpuPoint sections.Local}
    (isHere : state.point boot = here)
    (points : after.point = Function.update state.point boot there)
    (status : after.status = state.status) (stack : after.stack = state.stack)
    (reaches : ∀ lo hi, here.Reached ncpu boot state.kstack lo hi →
      lo = hi ∧ there.Reached ncpu boot after.kstack lo hi) :
    after.Booting ncpu boot := by
  obtain ⟨lo, hi, reached, started, off⟩ := booting.order
  rw [isHere] at reached
  obtain ⟨rfl, reached'⟩ := reaches lo hi reached
  refine booting.bootMoves points stack ⟨lo, lo, reached', ?_, off⟩
    fun c different loads =>
      absurd loads (guarded.not_mpentry started off different)
  rwa [status]

/-- `lapic_startap` starts a processor that is off. -/
theorem SmpState.Booting.startAp (booting : state.Booting ncpu boot) {c : Nat}
    (here : state.point boot = .startAp c) :
    state.point c = .off ∧ c ≠ boot ∧
      ((state.goTo c .mpentry).goTo boot (.waitAp c)).Booting ncpu boot := by
  obtain ⟨lo, hi, reached, started, off⟩ := booting.order
  rw [here] at reached
  obtain ⟨isLo, isHi, different, kstack⟩ := reached
  subst isLo
  have isOff := off lo (Nat.le_of_eq isHi) different
  refine ⟨isOff, different, ?_, ⟨lo, lo + 1, ?_, started, ?_⟩, ?_⟩
  · intro cpu boots
    by_contra other
    change (Function.update (Function.update state.point lo .mpentry) boot
      (.waitAp lo) cpu).Boots at boots
    rw [Function.update_of_ne other] at boots
    by_cases same : cpu = lo
    · rw [same, Function.update_self] at boots
      exact boots
    · rw [Function.update_of_ne same] at boots
      exact other (booting.only cpu boots)
  · have here' : ((state.goTo lo .mpentry).goTo boot (.waitAp lo)).point boot =
        .waitAp lo := Function.update_self _ _ _
    rw [here']
    exact ⟨rfl, rfl, different, kstack⟩
  · intro cpu above other
    change Function.update (Function.update state.point lo .mpentry) boot
      (.waitAp lo) cpu = .off
    rw [Function.update_of_ne other, Function.update_of_ne (by omega)]
    exact off cpu (by omega) other
  · intro cpu other
    change (Function.update (Function.update state.point lo .mpentry) boot
      (.waitAp lo) cpu).OnStack cpu state.kstack (state.stack cpu)
    rw [Function.update_of_ne other]
    by_cases same : cpu = lo
    · rw [same, Function.update_self]
      exact kstack
    · rw [Function.update_of_ne same]
      exact booting.kstacks cpu other

/-- Only `boot_aps` is at these points. -/
theorem SmpState.Booting.isBoot (booting : state.Booting ncpu boot)
    {point : CpuPoint sections.Local} (here : state.point cpu = point)
    (boots : point.Boots) : cpu = boot :=
  booting.only cpu (here ▸ boots)

/-- A step of the processor itself, on the stack that it has. -/
theorem SmpState.Booting.goTo (booting : state.Booting ncpu boot)
    {here there : CpuPoint sections.Local} (isHere : state.point cpu = here)
    (points : after.point = Function.update state.point cpu there)
    (present : here ≠ .off) (elsewhere : ¬ here.Boots)
    (elsewhere' : ¬ there.Boots)
    (onStack : ∀ kstack stack, here.OnStack cpu kstack stack →
      there.OnStack cpu kstack stack)
    (status : ∀ c, state.status c ≠ .unused → after.status c ≠ .unused)
    (kstack : after.kstack = state.kstack)
    (stack : after.stack = state.stack) : after.Booting ncpu boot := by
  subst isHere
  refine booting.aside present elsewhere elsewhere' points status kstack
    (fun c _ => by rw [stack]) fun different => ?_
  rw [stack]
  exact onStack _ _ (booting.kstacks cpu different)

theorem status_update {c : Nat} {status : CpuStatus}
    (used : status ≠ .unused) (before : state.status c ≠ .unused) :
    Function.update state.status cpu status c ≠ .unused := by
  by_cases same : c = cpu
  · rw [same, Function.update_self]
    exact used
  · rwa [Function.update_of_ne same]

theorem SmpStep.booting (step : SmpStep sections ncpu cpu state after)
    (guarded : state.Guarded) (booting : state.Booting ncpu boot) :
    after.Booting ncpu boot := by
  cases step with
  | bootSelf here inside =>
      obtain rfl := booting.isBoot here trivial
      obtain ⟨lo, hi, reached, started, off⟩ := booting.order
      rw [here] at reached
      obtain ⟨rfl, rfl⟩ := reached
      refine booting.bootMoves rfl rfl
        ⟨_, _, ⟨rfl, rfl⟩, fun c below different => ?_,
          fun c above different => off c (by omega) different⟩
        fun c different loads =>
          absurd loads (guarded.not_mpentry started off different)
      exact started c (by omega) different
  | bootNext here inside different =>
      obtain rfl := booting.isBoot here trivial
      refine booting.bootStays guarded here rfl rfl rfl ?_
      rintro lo hi ⟨isLo, isHi⟩
      exact ⟨isLo.trans isHi.symm, isLo, isHi, different, rfl⟩
  | bootCreates here _ _ =>
      obtain rfl := booting.isBoot here trivial
      exact booting.bootStays guarded here (Function.update_eq_self _ _).symm rfl
        rfl fun lo hi ⟨isLo, isHi⟩ => ⟨isLo.trans isHi.symm, here ▸ ⟨isLo, isHi⟩⟩
  | bootDone here finished =>
      obtain rfl := booting.isBoot here trivial
      refine booting.bootStays guarded here rfl rfl rfl ?_
      rintro lo hi ⟨rfl, rfl⟩
      exact ⟨rfl, rfl, Nat.le_of_not_lt finished⟩
  | startAp here =>
      obtain rfl := booting.isBoot here trivial
      exact (booting.startAp here).2.2
  | @waitAp lo here isStarted =>
      obtain rfl := booting.isBoot here trivial
      obtain ⟨lo, hi, reached, started, off⟩ := booting.order
      rw [here] at reached
      obtain ⟨isLo, isHi, different, kstack⟩ := reached
      subst isLo isHi
      refine booting.bootMoves rfl rfl
        ⟨_, _, ⟨rfl, rfl⟩, fun cpu below other => ?_, off⟩
        fun cpu other loads => ?_
      · by_cases same : cpu = lo
        · change state.status cpu ≠ .unused
          rw [same, isStarted]
          decide
        · exact started cpu (by omega) other
      · have onStack := booting.kstacks cpu other
        rw [loads] at onStack
        exact onStack
  | mpentry here =>
      refine booting.aside (by rw [here]; exact nofun) (by rw [here]; exact id)
        id rfl (fun _ => id) rfl
        (fun c different => Function.update_of_ne different _ _)
        fun different => ?_
      have onStack := booting.kstacks cpu different
      rw [here] at onStack
      exact (Function.update_self _ _ _).trans onStack
  | mpMain here =>
      exact booting.goTo here rfl nofun id id (fun _ _ => id)
        (fun c => status_update nofun) rfl rfl
  | userTraps here | haltWakes here | fromUser here _ | fromKernel here _
    | runs here _ | leavesRunning here _ _ | unlockGoes here _
    | unlockPanics here _ =>
      exact booting.goTo here rfl nofun id id (fun _ _ => id) (fun _ => id) rfl
        rfl
  | trapHalted here _ | trapStarted here _ | leavesHalted here _ _ =>
      exact booting.goTo here rfl nofun id id (fun _ _ => id)
        (fun c => status_update nofun) rfl rfl
  | @unlockReturns _ halts _ here _ =>
      cases halts <;>
        exact booting.goTo here rfl nofun id id (fun _ _ => id) (fun _ => id)
          rfl rfl
  | @lockGoes _ _ continues _ here goes =>
      cases continues with
      | bootAps =>
          obtain rfl := booting.isBoot here trivial
          refine booting.bootStays guarded here rfl rfl rfl ?_
          rintro lo hi ⟨isLo, isHi⟩
          exact ⟨isLo.trans isHi.symm, isLo, isHi⟩
      | checkCs _ | enter _ =>
          exact booting.goTo here rfl nofun id id (fun _ _ => id) (fun _ => id)
            rfl rfl
  | @lockReturns _ continues _ here goes =>
      cases continues with
      | bootAps =>
          obtain rfl := booting.isBoot here trivial
          refine booting.bootStays guarded here rfl rfl rfl ?_
          rintro lo hi ⟨isLo, isHi⟩
          exact ⟨isLo.trans isHi.symm, isLo, isHi⟩
      | checkCs _ | enter _ =>
          exact booting.goTo here rfl nofun id id (fun _ _ => id) (fun _ => id)
            rfl rfl
  | lockPanics here panics =>
      exact absurd panics (guarded.lock_not_panics here)

/-! ## One step -/

theorem AfterLock.point_recorded {continues : AfterLock} {point : LockPoint}
    {status : CpuStatus}
    (fits : (CpuPoint.locking point continues :
      CpuPoint sections.Local).Fits cpu status) :
    (continues.point sections).Recorded ∧
      (continues.point sections).Fits cpu status := by
  cases continues with
  | bootAps => exact ⟨trivial, fits⟩
  | checkCs event => exact ⟨fits.2.1, fits.1, fits.2.2⟩
  | enter event => exact ⟨trivial, fits⟩

/-- An event that finds `CPU_HALTED` comes from the kernel. -/
theorem fromUser_of_trap {event : TrapEvent} {status : CpuStatus}
    (fits : (CpuPoint.trap event : CpuPoint Local).Fits cpu status) :
    event.fromUser = true ↔ status ≠ .halted := by
  obtain ⟨_, rfl⟩ := fits
  cases event.fromUser <;> simp

theorem SmpStep.guarded (step : SmpStep sections ncpu cpu state after)
    (guarded : state.Guarded) (booting : state.Booting ncpu boot) :
    after.Guarded := by
  have fits := guarded.fits cpu
  have same : state.status =
      Function.update state.status cpu (state.status cpu) :=
    (Function.update_eq_self _ _).symm
  cases step with
  | bootSelf here _ | bootNext here _ _ | waitAp here _ =>
      rw [here] at fits
      exact guarded.moves here rfl same rfl .rfl .rfl fits
  | bootCreates => exact ⟨guarded.guards, guarded.fits⟩
  | bootDone here _ =>
      rw [here] at fits
      exact guarded.moves here rfl same rfl .rfl .rfl ⟨rfl, fits⟩
  | @startAp c here =>
      obtain rfl := booting.isBoot here trivial
      obtain ⟨isOff, different, _⟩ := booting.startAp here
      have fitsOff := guarded.fits c
      rw [isOff] at fitsOff
      rw [here] at fits
      have starts : (state.goTo c .mpentry).Guarded :=
        guarded.moves isOff rfl (Function.update_eq_self _ _).symm rfl .rfl .rfl
          fitsOff
      have here' : (state.goTo c .mpentry).point cpu = .startAp c :=
        (Function.update_of_ne different.symm _ _).trans here
      exact starts.moves here' rfl same rfl .rfl .rfl fits
  | mpentry here =>
      rw [here] at fits
      exact guarded.moves here rfl same rfl .rfl .rfl fits
  | mpMain here =>
      exact guarded.moves here rfl rfl rfl .rfl .rfl ⟨rfl, rfl⟩
  | userTraps here | haltWakes here =>
      rw [here] at fits
      exact guarded.moves here rfl same rfl .rfl .rfl ⟨rfl, fits⟩
  | @trapHalted event here halted =>
      rw [here] at fits
      have kernel : event.fromUser = false := by
        rw [← Bool.not_eq_true, fromUser_of_trap fits, not_not]
        exact halted
      exact guarded.moves here rfl rfl rfl .rfl .rfl ⟨fits.1, kernel, rfl⟩
  | @trapStarted event here notHalted =>
      rw [here] at fits
      have user := (fromUser_of_trap fits).mpr notHalted
      have isUser : ¬ event.fromUser = false := by
        rw [user]
        exact nofun
      exact guarded.moves here rfl rfl rfl (iff_of_false isUser id)
        (iff_of_false isUser id) ⟨fits.1, rfl⟩
  | @fromUser event here isUser =>
      rw [here] at fits
      have notKernel : ¬ event.fromUser = false := by
        rw [isUser]
        exact nofun
      exact guarded.moves here rfl same rfl (iff_of_false id notKernel)
        (iff_of_false id notKernel) fits
  | fromKernel here isKernel =>
      rw [here] at fits
      exact guarded.moves here rfl same rfl (iff_of_true trivial isKernel)
        (iff_of_true trivial isKernel) fits
  | @lockGoes _ there continues _ here goes =>
      have guards := guarded.lockGoes here goes
      rw [here] at fits
      have fits' : (CpuPoint.locking there continues :
          CpuPoint sections.Local).Fits cpu (state.status cpu) := by
        cases continues <;> exact fits
      exact guarded.become rfl same guards fits'
  | @lockReturns point continues _ here returns =>
      rw [here] at fits
      obtain ⟨recorded, fits'⟩ := AfterLock.point_recorded fits
      cases point with
      | record =>
          cases returns
          refine guarded.become rfl same
            (guarded.guards.record ?_ recorded) fits'
          rw [here]
          trivial
      | locked | xchg | cpu =>
          simp only [spinLock] at returns
          split at returns <;> cases returns
  | lockPanics here panics =>
      exact absurd panics (guarded.lock_not_panics here)
  | runs here _ =>
      rw [here] at fits
      exact guarded.moves here rfl same rfl .rfl .rfl fits
  | leavesHalted here _ _ =>
      exact guarded.moves here rfl rfl rfl .rfl .rfl rfl
  | leavesRunning here _ _ =>
      rw [here] at fits
      exact guarded.moves here rfl same rfl .rfl .rfl fits.2
  | unlockGoes here goes =>
      have guards := guarded.unlockGoes here goes
      rw [here] at fits
      exact guarded.become rfl same guards fits
  | @unlockReturns point halts _ here returns =>
      rw [here] at fits
      cases point with
      | xchg =>
          cases returns
          have released : ∀ there : CpuPoint sections.Local, ¬ there.Holds →
              ({ state.lock with locked := 0 }).Guards
                (Function.update state.point cpu there) := fun there gone =>
            guarded.guards.release (by rw [here]; trivial)
              (by rw [here]; exact id) gone
          cases halts with
          | true => exact guarded.become rfl same (released _ id) fits
          | false => exact guarded.become rfl same (released _ id) fits
      | locked | cpu =>
          simp only [spinUnlock] at returns
          split at returns <;> cases returns
      | clear => cases returns
  | unlockPanics here panics =>
      exact absurd panics (guarded.unlock_not_panics here)

/-! ## Traps as single steps -/

theorem Census.others_afterDeed {census : Census} {deed : Deed}
    (different : other ≠ cpu) :
    (census.afterDeed cpu deed).roster.current other =
      census.roster.current other := by
  cases deed with
  | exit e => exact Function.update_of_ne different _ _
  | nothing | setStatus _ _ | mark _ | release _ | create _ _ => rfl

theorem Roster.others_dispatch (roster : Roster) {e : Nat}
    (different : other ≠ cpu) :
    (roster.dispatch cpu e).current other = roster.current other := by
  have same : (roster.soltar cpu).current = roster.current := by
    unfold Roster.soltar
    split
    · rfl
    · split <;> rfl
  change Function.update (roster.soltar cpu).current cpu (some e) other = _
  rw [Function.update_of_ne different, same]

theorem Census.Leaves.others {build : Build} {census next : Census}
    (leaves : census.Leaves build cpu next) (different : other ≠ cpu) :
    next.roster.current other = census.roster.current other := by
  cases leaves with
  | resumes _ _ | picks _ _ _ | stays _ _ _ _ =>
      exact Roster.others_dispatch _ different
  | halts _ _ => exact Function.update_of_ne different _ _

/-- A trap changes the current environment of its own processor only. -/
theorem cpus_of_entry {build : Build} {event : TrapEvent}
    {kernel last : Kernel} (left : event.entry build kernel = .leaves last)
    (different : other ≠ event.cpu) : last.cpus other = kernel.cpus other := by
  obtain ⟨deed, _, _, leaves⟩ := deed_of_entry left
  exact (leaves.others different).trans (Census.others_afterDeed different)

/-- How a processor stands to the kernel whose traps are single steps. -/
def CpuPoint.Matches (sections : Sections Kernel TrapEvent) (cpu : Nat)
    (abstract kernel : Kernel) : CpuPoint sections.Local → Prop
  | .user => abstract.cpus cpu ≠ none
  | .trap event | .checkCs event | .locking _ (.checkCs event)
  | .locking _ (.enter event) => event.possible abstract
  | .inside event here =>
      event.possible abstract ∧ sections.Within event abstract here kernel
  | .unlocking _ halts => abstract.cpus cpu = none ↔ halts = true
  | .panics => True
  | .off | .mpentry | .mpMain | .bootAps _ | .startAp _ | .waitAp _ | .halt
  | .locking _ .bootAps => abstract.cpus cpu = none

/-- While nobody is inside, the kernel is the one whose traps are single steps. -/
structure SmpState.Shows (state : SmpState sections.Local)
    (abstract : Kernel) : Prop where
  fits : ∀ cpu, (state.point cpu).Matches sections cpu abstract state.kernel
  same : (∀ cpu event here, state.point cpu ≠ .inside event here) →
    state.kernel = abstract

theorem possible_congr {event : TrapEvent} {kernel last : Kernel}
    (same : last.cpus event.cpu = kernel.cpus event.cpu) :
    event.possible last ↔ event.possible kernel := by
  cases event with
  | user cpu _ _ _ | wake cpu =>
      change last.cpus cpu = kernel.cpus cpu at same
      simp only [TrapEvent.possible, same]

/-- A processor that is not inside does not see what the others do. -/
theorem CpuPoint.Matches.congr {point : CpuPoint sections.Local}
    {abstract abstract' kernel kernel' : Kernel} {status : CpuStatus}
    (fits : point.Fits cpu status)
    (outside : ∀ event here, point ≠ .inside event here)
    (same : abstract'.cpus cpu = abstract.cpus cpu)
    (isMatch : point.Matches sections cpu abstract kernel) :
    point.Matches sections cpu abstract' kernel' := by
  cases point with
  | inside event here => exact absurd rfl (outside event here)
  | trap event | checkCs event =>
      obtain ⟨rfl, _⟩ := fits
      exact (possible_congr same).mpr isMatch
  | locking point continues =>
      cases continues with
      | bootAps => exact same.trans isMatch
      | checkCs event | enter event =>
          obtain ⟨rfl, _⟩ := fits
          exact (possible_congr same).mpr isMatch
  | user =>
      change abstract'.cpus cpu ≠ none
      rw [same]
      exact isMatch
  | unlocking point halts =>
      change abstract'.cpus cpu = none ↔ halts = true
      rw [same]
      exact isMatch
  | panics => trivial
  | off | mpentry | mpMain | bootAps _ | startAp _ | waitAp _ | halt =>
      exact same.trans isMatch

variable {abstract : Kernel}

/-- A processor that is not inside takes a step outside the kernel. -/
theorem SmpState.Shows.moves (shows : state.Shows abstract)
    {here there : CpuPoint sections.Local} (isHere : state.point cpu = here)
    (points : after.point = Function.update state.point cpu there)
    (kernel : after.kernel = state.kernel)
    (outside : ∀ event local', here ≠ .inside event local')
    (isMatch : there.Matches sections cpu abstract state.kernel) :
    after.Shows abstract := by
  subst isHere
  refine ⟨fun other => ?_, fun nobody => ?_⟩
  · rw [points, kernel]
    by_cases same : other = cpu
    · rw [same, Function.update_self]
      exact isMatch
    · rw [Function.update_of_ne same]
      exact shows.fits other
  · rw [kernel]
    refine shows.same fun other event local' inside => ?_
    by_cases same : other = cpu
    · exact outside event local' (same ▸ inside)
    · apply nobody other event local'
      rwa [points, Function.update_of_ne same]

/-- While a processor has the lock, the others are not inside. -/
theorem SmpState.Guarded.outside (guarded : state.Guarded)
    (held : (state.point cpu).Holds) (different : other ≠ cpu)
    (event : TrapEvent) (here : sections.Local) :
    state.point other ≠ .inside event here := by
  intro inside
  refine different (guarded.guards.one other cpu ?_ held)
  rw [inside]
  trivial

/-- The holder that is about to enter finds the kernel as it is. -/
theorem SmpState.Shows.kernel (shows : state.Shows abstract)
    (guarded : state.Guarded) {here : CpuPoint sections.Local}
    (isHere : state.point cpu = here) (held : here.Holds)
    (outside : ∀ event local', here ≠ .inside event local') :
    state.kernel = abstract := by
  subst isHere
  refine shows.same fun other event local' => ?_
  by_cases same : other = cpu
  · rw [same]
    exact outside event local'
  · exact guarded.outside held same event local'

/-- The holder enters the kernel. -/
theorem SmpState.Shows.enters (shows : state.Shows abstract)
    (guarded : state.Guarded) {here : CpuPoint sections.Local}
    {event : TrapEvent} (isHere : state.point cpu = here) (held : here.Holds)
    (points : after.point = Function.update state.point cpu
      (.inside event (sections.start event)))
    (kernel : after.kernel = state.kernel)
    (outside : ∀ event local', here ≠ .inside event local')
    (possible : event.possible abstract) : after.Shows abstract := by
  refine shows.moves isHere points kernel outside ⟨possible, ?_⟩
  rw [shows.kernel guarded isHere held outside]
  exact Sections.Within.start sections event abstract

variable {build : Build}

/-- The pieces of kernel code between two traps do what the traps do. -/
def Sections.RealizeTraps (build : Build) (sections : Sections Kernel TrapEvent) :
    Prop :=
  sections.Realizes fun event kernel last =>
    event.entry build kernel = .leaves last

/-- The processor that leaves the kernel has done the whole trap. -/
theorem SmpState.Shows.leaves (shows : state.Shows abstract)
    (realizes : Sections.RealizeTraps build sections) (guarded : state.Guarded)
    {event : TrapEvent} {local' : sections.Local} {halts : Bool}
    (here : state.point cpu = .inside event local')
    (ends : sections.Ends local')
    (points : after.point = Function.update state.point cpu
      (.unlocking .locked halts))
    (kernel : after.kernel = state.kernel)
    (halted : state.kernel.cpus cpu = none ↔ halts = true) :
    event.possible abstract ∧
      event.entry build abstract = .leaves after.kernel ∧
      after.Shows after.kernel := by
  have isMatch := shows.fits cpu
  have fits := guarded.fits cpu
  rw [here] at isMatch fits
  obtain ⟨possible, within⟩ := isMatch
  obtain ⟨isCpu, _⟩ := fits
  have left := realizes event abstract local' state.kernel within ends
  have held : (state.point cpu).Holds := by
    rw [here]
    trivial
  refine ⟨possible, by rw [kernel]; exact left, ⟨fun other => ?_,
    fun _ => rfl⟩⟩
  rw [points, kernel]
  by_cases same : other = cpu
  · rw [same, Function.update_self]
    exact halted
  · rw [Function.update_of_ne same]
    exact (shows.fits other).congr (guarded.fits other)
      (guarded.outside held same)
      (cpus_of_entry left (isCpu.symm ▸ same))

/-- Until the boot processor schedules, no environment has run. -/
def SmpState.Unscheduled (boot : Nat) (state : SmpState sections.Local) : Prop :=
  (state.point boot).Boots → state.kernel.Boot

/-- While the boot processor boots, no processor is in the kernel. -/
theorem SmpState.Booting.nobody (booting : state.Booting ncpu boot)
    (guarded : state.Guarded) (boots : (state.point boot).Boots)
    (event : TrapEvent) (here : sections.Local) :
    state.point cpu ≠ .inside event here := by
  intro inside
  have different : cpu ≠ boot := by
    rintro rfl
    rw [inside] at boots
    exact boots
  obtain ⟨_, hi, reached, _, off⟩ := booting.order
  cases at' : state.point boot with
  | locking point continues =>
      rw [at'] at boots reached
      cases continues with
      | bootAps =>
          obtain ⟨_, rfl⟩ := reached
          rw [off cpu (Nat.zero_le cpu) different] at inside
          cases inside
      | checkCs _ | enter _ => exact boots
  | bootAps _ | startAp _ | waitAp _ =>
      have held : (state.point boot).Holds := by
        rw [at']
        trivial
      exact guarded.outside held different event here inside
  | off | mpentry | mpMain | user | halt | trap _ | checkCs _ | inside _ _
    | unlocking _ _ | panics =>
      rw [at'] at boots
      exact boots

theorem SmpState.Unscheduled.goTo (unscheduled : state.Unscheduled boot)
    {here there : CpuPoint sections.Local} (isHere : state.point cpu = here)
    (points : after.point = Function.update state.point cpu there)
    (boots : there.Boots → here.Boots) (kernel : after.kernel = state.kernel) :
    after.Unscheduled boot := by
  subst isHere
  intro boots'
  rw [kernel]
  rw [points] at boots'
  by_cases same : boot = cpu
  · rw [same, Function.update_self] at boots'
    exact unscheduled (same ▸ boots boots')
  · rw [Function.update_of_ne same] at boots'
    exact unscheduled boots'

theorem SmpStep.unscheduled (step : SmpStep sections ncpu cpu state after)
    (guarded : state.Guarded) (booting : state.Booting ncpu boot)
    (unscheduled : state.Unscheduled boot) : after.Unscheduled boot := by
  cases step with
  | bootCreates here _ created =>
      obtain rfl := booting.isBoot here trivial
      exact fun boots => .create (unscheduled boots) created
  | @startAp c here =>
      have starts : (state.goTo c .mpentry).Unscheduled boot :=
        unscheduled.goTo rfl rfl False.elim rfl
      obtain rfl := booting.isBoot here trivial
      have different := (booting.startAp here).2.1
      have here' : (state.goTo c .mpentry).point cpu = .startAp c :=
        (Function.update_of_ne different.symm _ _).trans here
      exact starts.goTo here' rfl id rfl
  | @runs event _ there _ here _ =>
      intro boots
      refine absurd here (booting.nobody guarded ?_ _ _)
      change (Function.update state.point cpu (.inside event there) boot).Boots
        at boots
      by_cases same : boot = cpu
      · rw [same, Function.update_self] at boots
        exact boots.elim
      · rwa [Function.update_of_ne same] at boots
  | @lockReturns _ continues _ here _ =>
      cases continues <;> exact unscheduled.goTo here rfl id rfl
  | @lockGoes _ _ continues _ here _ =>
      cases continues <;> exact unscheduled.goTo here rfl id rfl
  | @unlockReturns _ halts _ here _ =>
      cases halts <;> exact unscheduled.goTo here rfl id rfl
  | bootSelf here _ | bootNext here _ _ | waitAp here _ =>
      exact unscheduled.goTo here rfl id rfl
  | bootDone here _ | mpentry here | mpMain here | userTraps here
    | haltWakes here | trapHalted here _ | trapStarted here _ | fromUser here _
    | fromKernel here _ | lockPanics here _ | leavesHalted here _ _
    | leavesRunning here _ _ | unlockGoes here _ | unlockPanics here _ =>
      exact unscheduled.goTo here rfl False.elim rfl

/-- `i386_init` creates an environment. -/
theorem SmpState.Shows.creates (shows : state.Shows abstract)
    (guarded : state.Guarded) (booting : state.Booting ncpu boot)
    (boots : (state.point boot).Boots) (points : after.point = state.point)
    (before : state.kernel.Boot) (created : after.kernel.Boot) :
    after.Shows after.kernel := by
  refine ⟨fun other => ?_, fun _ => rfl⟩
  rw [points]
  have same : state.kernel = abstract :=
    shows.same fun _ event here => booting.nobody guarded boots event here
  refine (shows.fits other).congr (guarded.fits other)
    (booting.nobody guarded boots) ?_
  rw [← same]
  exact ((@idle_of_boot True _ created).current other).trans
    ((@idle_of_boot True _ before).current other).symm

theorem SmpStep.shows (step : SmpStep sections ncpu cpu state after)
    (realizes : Sections.RealizeTraps build sections)
    (guarded : state.Guarded) (booting : state.Booting ncpu boot)
    (unscheduled : state.Unscheduled boot) (shows : state.Shows abstract) :
    after.Shows abstract ∨ (after.kernel.Boot ∧ after.Shows after.kernel) ∨
      ∃ event : TrapEvent, event.possible abstract ∧
        event.entry build abstract = .leaves after.kernel ∧
        after.Shows after.kernel := by
  have isMatch := shows.fits cpu
  have fits := guarded.fits cpu
  cases step with
  | bootSelf here _ | bootNext here _ _ | waitAp here _ | mpentry here
    | mpMain here | userTraps here | haltWakes here | trapHalted here _
    | trapStarted here _ | fromUser here _ =>
      rw [here] at isMatch
      exact .inl (shows.moves here rfl rfl nofun isMatch)
  | bootCreates here _ created =>
      obtain rfl := booting.isBoot here trivial
      have boots : (state.point cpu).Boots := by
        rw [here]
        trivial
      have before := unscheduled boots
      exact .inr (.inl ⟨.create before created,
        shows.creates guarded booting boots rfl before (.create before created)⟩)
  | bootDone here _ =>
      rw [here] at isMatch
      exact .inl (shows.enters guarded here trivial rfl rfl nofun isMatch)
  | @startAp c here =>
      obtain rfl := booting.isBoot here trivial
      obtain ⟨isOff, different, _⟩ := booting.startAp here
      have isMatch' := shows.fits c
      rw [isOff] at isMatch'
      rw [here] at isMatch
      have starts : (state.goTo c .mpentry).Shows abstract :=
        shows.moves isOff rfl rfl nofun isMatch'
      have here' : (state.goTo c .mpentry).point cpu = .startAp c :=
        (Function.update_of_ne different.symm _ _).trans here
      exact .inl (starts.moves here' rfl rfl nofun isMatch)
  | fromKernel here isKernel =>
      rw [here] at isMatch
      exact .inl (shows.enters guarded here isKernel rfl rfl nofun isMatch)
  | @lockGoes _ _ continues _ here goes =>
      rw [here] at isMatch
      refine .inl (shows.moves here rfl rfl nofun ?_)
      cases continues <;> exact isMatch
  | @lockReturns point continues _ here returns =>
      rw [here] at isMatch
      cases point with
      | record =>
          cases continues with
          | bootAps | checkCs event =>
              exact .inl (shows.moves here rfl rfl nofun isMatch)
          | enter event =>
              exact .inl (shows.enters guarded here trivial rfl rfl nofun
                isMatch)
      | locked | xchg | cpu =>
          simp only [spinLock] at returns
          split at returns <;> cases returns
  | lockPanics here panics =>
      exact absurd panics (guarded.lock_not_panics here)
  | @runs event local' there kernel here goes =>
      have held : (state.point cpu).Holds := by
        rw [here]
        trivial
      rw [here] at isMatch
      refine .inl ⟨fun other => ?_, fun nobody => ?_⟩
      · change (Function.update state.point cpu _ other).Matches sections other
          abstract kernel
        by_cases same : other = cpu
        · rw [same, Function.update_self]
          exact ⟨isMatch.1, isMatch.2.step goes⟩
        · rw [Function.update_of_ne same]
          exact (shows.fits other).congr (guarded.fits other)
            (guarded.outside held same) rfl
      · exact absurd (Function.update_self _ _ _) (nobody cpu event there)
  | leavesHalted here ends halted =>
      exact .inr (.inr ⟨_, shows.leaves realizes guarded here ends rfl rfl
        (iff_of_true halted rfl)⟩)
  | leavesRunning here ends running =>
      exact .inr (.inr ⟨_, shows.leaves realizes guarded here ends rfl rfl
        (iff_of_false running nofun)⟩)
  | unlockGoes here goes =>
      rw [here] at isMatch
      exact .inl (shows.moves here rfl rfl nofun isMatch)
  | @unlockReturns _ halts _ here returns =>
      rw [here] at isMatch
      refine .inl (shows.moves here rfl rfl nofun ?_)
      cases halts with
      | true => exact isMatch.mpr rfl
      | false => exact fun idle => nomatch isMatch.mp idle
  | unlockPanics here panics =>
      exact absurd panics (guarded.unlock_not_panics here)

/-! ## Whole runs -/

theorem SmpState.Starts.point_cases (starts : state.Starts sections boot)
    (cpu : Nat) :
    cpu = boot ∧ state.point cpu = .locking .locked .bootAps ∧
        state.status cpu = .started ∨
      cpu ≠ boot ∧ state.point cpu = .off ∧ state.status cpu = .unused := by
  by_cases same : cpu = boot
  · exact .inl ⟨same, same ▸ starts.point, same ▸ starts.status⟩
  · exact .inr ⟨same, starts.off cpu same, starts.unused cpu same⟩

theorem SmpState.Starts.guarded (starts : state.Starts sections boot) :
    state.Guarded := by
  have nobody : ∀ c, ¬ (state.point c).Holds := by
    intro c
    rcases starts.point_cases c with ⟨_, here, _⟩ | ⟨_, here, _⟩ <;>
      · rw [here]
        exact id
  refine ⟨?_, fun c => ?_⟩
  · rw [starts.locked]
    exact ⟨fun c _ holds => absurd holds (nobody c),
      fun c holds => absurd holds (nobody c), fun taken => absurd rfl taken,
      nofun, fun c recorded => absurd recorded.holds (nobody c)⟩
  · rcases starts.point_cases c with ⟨_, here, status⟩ | ⟨_, here, status⟩ <;>
      · rw [here, status]
        rfl

theorem SmpState.Starts.booting (starts : state.Starts sections boot) :
    state.Booting ncpu boot := by
  refine ⟨fun c boots => ?_, ⟨0, 0, ?_, ?_, fun c _ => starts.off c⟩,
    fun c different => ?_⟩
  · by_contra different
    rw [starts.off c different] at boots
    exact boots
  · rw [starts.point]
    exact ⟨rfl, rfl⟩
  · exact fun c below => absurd below (Nat.not_lt_zero c)
  · rw [starts.off c different]
    trivial

theorem SmpState.Starts.shows (starts : state.Starts sections boot) :
    state.Shows state.kernel := by
  have idle : ∀ c, state.kernel.cpus c = none :=
    (@idle_of_boot True _ starts.booted).current
  refine ⟨fun c => ?_, fun _ => rfl⟩
  rcases starts.point_cases c with ⟨_, here, _⟩ | ⟨_, here, _⟩ <;>
    · rw [here]
      exact idle c

theorem guarded_of_reachable
    (reachable : (instructions sections ncpu boot).Reachable
      Machine.Unrestricted state) :
    state.Guarded ∧ state.Booting ncpu boot := by
  refine @Machine.Reachable.invariant _ _ _ _
    (fun state => state.Guarded ∧ state.Booting ncpu boot) ?_ ?_ _ reachable
  · exact fun _ starts =>
      ⟨SmpState.Starts.guarded starts, SmpState.Starts.booting starts⟩
  · exact fun _ _ _ both _ step =>
      ⟨SmpStep.guarded step both.1 both.2, SmpStep.booting step both.1 both.2⟩

/-- Kernel code that does a whole trap in one step. -/
def wholeTraps (build : Build) : Sections Kernel TrapEvent where
  Local := Option TrapEvent
  start := some
  Step before after := ∃ event, before.1 = some event ∧ after.1 = none ∧
    event.entry build before.2 = .leaves after.2
  Ends here := here = none

theorem realizes_wholeTraps (build : Build) :
    Sections.RealizeTraps build (wholeTraps build) := by
  rintro event kernel here last within ends
  rcases Relation.ReflTransGen.cases_head within with same | ⟨⟨there, middle⟩,
    ⟨event', starts, stopped, left⟩, rest⟩
  · cases same
    cases ends
  · cases starts
    rcases Relation.ReflTransGen.cases_head rest with same | ⟨_, ⟨_, again, _⟩, _⟩
    · cases same
      exact left
    · rw [stopped] at again
      cases again

/-- Two processors in front of `lock_kernel` in `i386_init`. -/
def bootState : SmpState (wholeTraps .roundRobin).Local where
  kernel := oneEnv
  lock := ⟨0, none⟩
  status := Function.update (fun _ => .unused) 0 .started
  kstack := none
  stack _ := none
  point := Function.update (fun _ => .off) 0 (.locking .locked .bootAps)

theorem bootState_starts : bootState.Starts (wholeTraps .roundRobin) 0 where
  booted := boot_oneEnv
  locked := rfl
  point := rfl
  status := rfl
  off cpu different := by simp [bootState, different]
  unused cpu different := by simp [bootState, different]

theorem reachable_by (cpu : Nat)
    (reachable : (instructions sections ncpu boot).Reachable
      Machine.Unrestricted state)
    (step : SmpStep sections ncpu cpu state after) :
    (instructions sections ncpu boot).Reachable Machine.Unrestricted after :=
  reachable.step trivial step

/-- The boot processor has taken the lock. -/
def lockedState : SmpState (wholeTraps .roundRobin).Local :=
  { ((bootState.goTo 0 (.locking .xchg .bootAps)).goTo 0
      (.locking .record .bootAps)).goTo 0 (.bootAps 0) with
    lock := ⟨1, some 0⟩ }

theorem lockedState_reachable :
    (instructions (wholeTraps .roundRobin) ncpu 0).Reachable
      Machine.Unrestricted lockedState := by
  have start : (instructions (wholeTraps .roundRobin) ncpu 0).Reachable
      Machine.Unrestricted bootState := .initial bootState_starts
  have first := reachable_by 0 start (SmpStep.lockGoes rfl
    (show spinLock 0 ⟨0, none⟩ .locked = .goes ⟨0, none⟩ .xchg from rfl))
  have second := reachable_by 0 first (SmpStep.lockGoes rfl
    (show spinLock 0 ⟨0, none⟩ .xchg = .goes ⟨1, none⟩ .record from rfl))
  have third := reachable_by 0 second (SmpStep.lockReturns rfl
    (show spinLock 0 ⟨1, none⟩ .record = .returns ⟨1, some 0⟩ from rfl))
  exact third

/-- At most one processor has the lock, so at most one is in the kernel.  The lock
word is taken exactly while one has it, `holding` is right for each of them, and no
lock operation panics. -/
structure SmpState.Excludes (state : SmpState sections.Local) : Prop where
  one : ∀ c d, (state.point c).Holds → (state.point d).Holds → c = d
  taken : state.lock.locked ≠ 0 ↔ ∃ c, (state.point c).Holds
  holding : ∀ c, state.lock.locked ≠ 0 ∧ state.lock.cpu = some c ↔
    (state.point c).Recorded
  calm : ∀ c, state.point c ≠ .panics

theorem excludes_of_reachable
    (reachable : (instructions sections ncpu boot).Reachable
      Machine.Unrestricted state) : state.Excludes := by
  obtain ⟨guarded, _⟩ := guarded_of_reachable reachable
  refine ⟨guarded.guards.one, ⟨guarded.guards.taken, ?_⟩, fun c => ⟨?_, ?_⟩, ?_⟩
  · rintro ⟨c, holds⟩
    exact guarded.guards.held c holds
  · exact fun both => guarded.guards.named c both.2
  · exact fun recorded => ⟨guarded.guards.held c recorded.holds,
      guarded.guards.names c recorded⟩
  · intro c panics
    have fits := guarded.fits c
    rw [panics] at fits
    exact fits

/-! ## Two processors -/

section Passes

variable {build : Build} {event : TrapEvent} {kernel : Kernel}
variable {state : SmpState (wholeTraps build).Local}

/-- A processor that waits for the lock takes it when it is free. -/
theorem reachable_locked
    (reachable : (instructions (wholeTraps build) ncpu boot).Reachable
      Machine.Unrestricted state)
    (here : state.point cpu = .locking .xchg (.enter event))
    (free : state.lock = ⟨0, none⟩) :
    (instructions (wholeTraps build) ncpu boot).Reachable Machine.Unrestricted
      { state.goTo cpu (.inside event (some event)) with
        lock := ⟨1, some cpu⟩ } := by
  have takes : spinLock cpu state.lock .xchg = .goes ⟨1, none⟩ .record := by
    rw [free]
    rfl
  have first := reachable_by cpu reachable (SmpStep.lockGoes here takes)
  have last := reachable_by cpu first (SmpStep.lockReturns
    (Function.update_self _ _ _)
    (show spinLock cpu ⟨1, none⟩ .record = .returns ⟨1, some cpu⟩ from rfl))
  have isInside : (AfterLock.enter event).point (wholeTraps build) =
      .inside event (some event) := rfl
  simpa only [SmpState.goTo, Function.update_idem, isInside] using last

/-- A processor in the kernel does its trap and unlocks the kernel. -/
theorem reachable_user
    (reachable : (instructions (wholeTraps build) ncpu boot).Reachable
      Machine.Unrestricted state)
    (here : state.point cpu = .inside event (some event))
    (owns : state.lock = ⟨1, some cpu⟩)
    (leaves : event.entry build state.kernel = .leaves kernel)
    (runs : kernel.cpus cpu ≠ none) :
    (instructions (wholeTraps build) ncpu boot).Reachable Machine.Unrestricted
      { state.goTo cpu .user with kernel := kernel, lock := ⟨0, none⟩ } := by
  have isLocked : spinUnlock cpu state.lock .locked =
      .goes ⟨1, some cpu⟩ .cpu := by
    rw [owns]
    rfl
  have isCpu : spinUnlock cpu ⟨1, some cpu⟩ .cpu =
      .goes ⟨1, some cpu⟩ .clear := if_pos rfl
  have first := reachable_by cpu reachable
    (SmpStep.runs here ⟨event, rfl, rfl, leaves⟩)
  have second := reachable_by cpu first
    (SmpStep.leavesRunning (Function.update_self _ _ _) rfl runs)
  have third := reachable_by cpu second
    (SmpStep.unlockGoes (Function.update_self _ _ _) isLocked)
  have fourth := reachable_by cpu third
    (SmpStep.unlockGoes (Function.update_self _ _ _) isCpu)
  have fifth := reachable_by cpu fourth
    (SmpStep.unlockGoes (Function.update_self _ _ _)
      (show spinUnlock cpu ⟨1, some cpu⟩ .clear = .goes ⟨1, none⟩ .xchg from rfl))
  have last := reachable_by cpu fifth
    (SmpStep.unlockReturns (Function.update_self _ _ _)
      (show spinUnlock cpu ⟨1, none⟩ .xchg = .returns ⟨0, none⟩ from rfl))
  simpa only [SmpState.goTo, Function.update_idem, Bool.false_eq_true,
    if_false] using last

/-- A trap of a program, while the lock is free. -/
theorem reachable_call {surroundings : Surroundings} {frame : Trapframe}
    {faultVa : UInt32}
    (reachable : (instructions (wholeTraps build) ncpu boot).Reachable
      Machine.Unrestricted state)
    (here : state.point cpu = .user) (free : state.lock = ⟨0, none⟩)
    (started : state.status cpu = .started)
    (leaves : (TrapEvent.user cpu surroundings frame faultVa).entry build
      state.kernel = .leaves kernel)
    (runs : kernel.cpus cpu ≠ none) :
    (instructions (wholeTraps build) ncpu boot).Reachable Machine.Unrestricted
      { state with kernel := kernel } := by
  have first := reachable_by cpu reachable
    (@SmpStep.userTraps _ _ _ _ surroundings frame faultVa here)
  have second := reachable_by cpu first
    (SmpStep.trapStarted (Function.update_self _ _ _)
      (started ▸ CpuStatus.noConfusion))
  have third := reachable_by cpu second
    (SmpStep.fromUser (Function.update_self _ _ _) rfl)
  have fourth := reachable_by cpu third
    (SmpStep.lockGoes (Function.update_self _ _ _)
      (show spinLock cpu state.lock .locked = .goes state.lock .xchg by
        rw [free]
        rfl))
  have inside := reachable_locked fourth (Function.update_self _ _ _) free
  have last := reachable_user inside (Function.update_self _ _ _) rfl leaves runs
  have samePoint : Function.update state.point cpu .user = state.point := by
    rw [← here]
    exact Function.update_eq_self _ _
  have sameStatus : Function.update state.status cpu .started = state.status := by
    rw [← started]
    exact Function.update_eq_self _ _
  simpa only [SmpState.goTo, SmpState.setStatus, Function.update_idem, samePoint,
    sameStatus, ← free] using last

end Passes

/-- The boot processor has started the processor 1, which waits for the lock while
the boot processor schedules. -/
theorem contended_reachable : ∃ state,
    (instructions (wholeTraps .roundRobin) 2 0).Reachable
      Machine.Unrestricted state ∧
    state.point 0 = .inside (.wake 0) (some (.wake 0)) ∧
    state.point 1 = .locking .xchg (.enter (.wake 1)) ∧
    state.lock = ⟨1, some 0⟩ ∧ state.status 0 = .started ∧
    state.kernel = oneEnv ∧ ∀ cpu, 1 < cpu → state.point cpu = .off := by
  have first := reachable_by 0 (@lockedState_reachable 2)
    (SmpStep.bootSelf rfl Nat.two_pos)
  have second := reachable_by 0 first
    (SmpStep.bootNext rfl Nat.one_lt_two Nat.one_ne_zero)
  have third := reachable_by 0 second (SmpStep.startAp rfl)
  have fourth := reachable_by 1 third (SmpStep.mpentry rfl)
  have fifth := reachable_by 1 fourth (SmpStep.mpMain rfl)
  have sixth := reachable_by 1 fifth (SmpStep.lockGoes rfl
    (show spinLock 1 ⟨1, some 0⟩ .locked = .goes ⟨1, some 0⟩ .cpu from rfl))
  have seventh := reachable_by 1 sixth (SmpStep.lockGoes rfl
    (show spinLock 1 ⟨1, some 0⟩ .cpu = .goes ⟨1, some 0⟩ .xchg from rfl))
  have eighth := reachable_by 1 seventh (SmpStep.lockGoes rfl
    (show spinLock 1 ⟨1, some 0⟩ .xchg = .goes ⟨1, some 0⟩ .xchg from rfl))
  have ninth := reachable_by 0 eighth (SmpStep.waitAp rfl rfl)
  have last := reachable_by 0 ninth (SmpStep.bootDone rfl (Nat.lt_irrefl 2))
  refine ⟨_, last, rfl, rfl, rfl, rfl, rfl, ?_⟩
  rintro (_ | _ | cpu) behind
  · exact absurd behind (by decide)
  · exact absurd behind (Nat.lt_irrefl 1)
  · rfl

theorem contended_excludes : ∃ state : SmpState (wholeTraps .roundRobin).Local,
    state.point 0 = .inside (.wake 0) (some (.wake 0)) ∧
    state.point 1 = .locking .xchg (.enter (.wake 1)) ∧ state.Excludes := by
  obtain ⟨state, reachable, inside, waits, _⟩ := contended_reachable
  exact ⟨state, inside, waits, excludes_of_reachable reachable⟩

/-- The traps of all processors have the effect of single steps. -/
theorem simulates_smp (realizes : Sections.RealizeTraps build sections) :
    (instructions sections ncpu boot).Simulates (smp build)
      Machine.Unrestricted Machine.Unrestricted
      fun state abstract => state.Guarded ∧ state.Booting ncpu boot ∧
        state.Unscheduled boot ∧ state.Shows abstract where
  initial _ starts :=
    ⟨_, starts.booted, starts.guarded, starts.booting, fun _ => starts.booted,
      starts.shows⟩
  step := by
    rintro state cpu next abstract ⟨guarded, booting, unscheduled, shows⟩ _ step
    have guarded' := SmpStep.guarded step guarded booting
    have booting' := SmpStep.booting step guarded booting
    have unscheduled' := SmpStep.unscheduled step guarded booting unscheduled
    rcases SmpStep.shows step realizes guarded booting unscheduled shows with
      shows' | ⟨created, shows'⟩ | ⟨event, possible, left, shows'⟩
    · exact .inl ⟨guarded', booting', unscheduled', shows'⟩
    · exact .inr (.inl ⟨_, created, guarded', booting', unscheduled', shows'⟩)
    · exact .inr (.inr ⟨event, _, trivial, ⟨possible, left⟩, guarded',
        booting', unscheduled', shows'⟩)

/-- While no processor is in the kernel, it is in a state that it reaches when
every trap is one step. -/
theorem smp_of_instructions (realizes : Sections.RealizeTraps build sections)
    (reachable : (instructions sections ncpu boot).Reachable
      Machine.Unrestricted state)
    (nobody : ∀ cpu event here, state.point cpu ≠ .inside event here) :
    (smp build).Reachable Machine.Unrestricted state.kernel := by
  obtain ⟨abstract, reached, _, _, _, shows⟩ :=
    (simulates_smp realizes).reachable reachable
  rw [shows.same nobody]
  exact reached

/-- While the processor 1 waits, an environment runs, creates a child and makes it
runnable; then the processor 1 gets the lock and runs the child. -/
theorem childRuns_reachable : ∃ state,
    (instructions (wholeTraps .roundRobin) 2 0).Reachable
      Machine.Unrestricted state ∧
    (∀ cpu event here, state.point cpu ≠ .inside event here) ∧
    state.kernel = childRuns.foldl (TrapEvent.after .roundRobin) oneEnv := by
  obtain ⟨state, reachable, inside, waits, owns, started, isKernel, off⟩ :=
    contended_reachable
  have goes : Machine.Along (TrapEvent.Goes .roundRobin)
      (TrapEvent.after .roundRobin) oneEnv childRuns := by
    decide +kernel
  obtain ⟨wakes, creates, sets, wakes', _⟩ := goes
  have leaves : (TrapEvent.wake 0).entry .roundRobin state.kernel =
      .leaves ((TrapEvent.wake 0).after .roundRobin oneEnv) :=
    isKernel.symm ▸ wakes.step.2
  have first := reachable_user reachable inside owns leaves (by decide +kernel)
  have second := reachable_call first (Function.update_self _ _ _) rfl started
    (show (TrapEvent.call 0 7 0 0 0 0 0).entry .roundRobin _ = _ from
      creates.step.2) (by decide +kernel)
  have third := reachable_call second (Function.update_self _ _ _) rfl started
    (show (TrapEvent.call 0 8 4097 2 0 0 0).entry .roundRobin _ = _ from
      sets.step.2) (by decide +kernel)
  have waiting : (state.goTo 0 .user).point 1 =
      .locking .xchg (.enter (.wake 1)) :=
    (Function.update_of_ne Nat.one_ne_zero .user state.point).trans waits
  have fourth := @reachable_locked 2 0 1 _ _ _ third waiting rfl
  have last := reachable_user fourth (Function.update_self _ _ _) rfl
    wakes'.step.2 (by decide +kernel)
  refine ⟨_, last, ?_, rfl⟩
  rintro (_ | _ | cpu) event here isInside
  · cases isInside
  · cases isInside
  · have isOff := off (cpu + 2) (by omega)
    cases isOff.symm.trans isInside

theorem smp_of_childRuns :
    (smp .roundRobin).Reachable Machine.Unrestricted
      (childRuns.foldl (TrapEvent.after .roundRobin) oneEnv) := by
  obtain ⟨state, reachable, nobody, kernel⟩ := childRuns_reachable
  rw [← kernel]
  exact smp_of_instructions (realizes_wholeTraps .roundRobin) reachable nobody

/-- How far `boot_aps` has come. -/
structure SmpState.OwnStacks (ncpu boot : Nat)
    (state : SmpState sections.Local) : Prop where
  /-- Every processor that is up runs on its own stack. -/
  own : ∀ c, c ≠ boot → state.status c ≠ .unused → state.stack c = some c
  /-- No processor is started twice. -/
  once : ∀ c, state.point boot = .startAp c → state.point c = .off
  /-- All of them are up before the boot processor schedules. -/
  all : ¬ (state.point boot).Boots →
    ∀ c < ncpu, c ≠ boot → state.status c ≠ .unused

theorem ownStacks_of_reachable
    (reachable : (instructions sections ncpu boot).Reachable
      Machine.Unrestricted state) : state.OwnStacks ncpu boot := by
  obtain ⟨guarded, booting⟩ := guarded_of_reachable reachable
  refine ⟨fun c different used => ?_, fun c here => (booting.startAp here).1,
    fun elsewhere c below different => ?_⟩
  · have fits := guarded.fits c
    have onStack := booting.kstacks c different
    cases at' : state.point c with
    | off | mpentry =>
        rw [at'] at fits
        exact absurd fits used
    | _ =>
        rw [at'] at onStack
        exact onStack
  · obtain ⟨lo, hi, reached, started, _⟩ := booting.order
    rw [CpuPoint.reached_of_not_boots elsewhere] at reached
    exact started c (Nat.lt_of_lt_of_le below reached.2) different

/-- The boot processor starts the processor 1, which comes to `mp_main`. -/
theorem ownStacks_of_mpMain :
    ∃ state : SmpState (wholeTraps .roundRobin).Local,
      state.point 1 = .locking .locked (.enter (.wake 1)) ∧
      state.OwnStacks 2 0 := by
  have first := reachable_by 0 (@lockedState_reachable 2)
    (SmpStep.bootSelf rfl Nat.two_pos)
  have second := reachable_by 0 first
    (SmpStep.bootNext rfl Nat.one_lt_two Nat.one_ne_zero)
  have third := reachable_by 0 second (SmpStep.startAp rfl)
  have fourth := reachable_by 1 third (SmpStep.mpentry rfl)
  have last := reachable_by 1 fourth (SmpStep.mpMain rfl)
  exact ⟨_, rfl, ownStacks_of_reachable last⟩

end FeaturesOS.Scheduler

import FeaturesOS.Scheduler.Boot
import FeaturesOS.Scheduler.CurrentEnvTrap

/-!
# The kernel on several processors

Any number of processors enter the kernel in any order.  No environment runs on
two of them as long as no trap makes an environment runnable that another
processor runs, and none runs after it has been freed as long as, besides, no
trap frees an environment that another processor runs.
-/

namespace FeaturesOS.Scheduler

open Entry

/-- The kernel with its traps as steps. -/
def smp (build : Build) : Machine Kernel TrapEvent where
  Initial := Kernel.Boot
  Step kernel event next :=
    event.possible kernel ∧ event.entry build kernel = .leaves next

/-! ## Booting -/

/-- No processor runs an environment. -/
def Idle (strict : Prop) (kernel : Kernel) : Prop :=
  ∀ cpu, InsideAt strict (fun _ => none) cpu kernel

theorem Idle.current {strict : Prop} {kernel : Kernel}
    (idle : Idle strict kernel) (cpu : Nat) :
    kernel.roster.current cpu = none :=
  (idle (cpu + 1)).unmoved cpu (by omega)

theorem Idle.settled {strict : Prop} {kernel : Kernel}
    (idle : Idle strict kernel) : kernel.roster.Settled strict := by
  have outside : kernel.roster.Outside strict (fun _ => none) 0 := by
    refine ⟨idle 0, ?_⟩
    intro e current
    rw [idle.current] at current
    cases current
  exact outside.settled

theorem idle_initial {strict : Prop} (mem : PhysMem) (kernPgdir : Nat) :
    Idle strict (Kernel.initial mem kernPgdir) := by
  intro cpu
  refine ⟨?_, ?_, fun _ _ => rfl, ?_⟩
  · intro first second e current
    cases current
  · intro other _ e current
    cases current
  · intro _
    refine ⟨?_, ?_, List.range' 0 nenv, ?_, List.nodup_range', fun _ _ => rfl⟩
    · intro other _ e current
      cases current
    · intro e lives
      exact absurd rfl lives
    · exact Kernel.initial_freeList mem kernPgdir

/-- While nothing runs, a new environment may be runnable. -/
theorem Born.inside {strict : Prop} {roster : Roster} {cpu e : Nat}
    (born : Born strict (fun _ => none) cpu e roster)
    (idle : ∀ cpu, roster.current cpu = none) :
    roster.Inside strict (fun _ => none) cpu := by
  refine ⟨born.exclusive, ?_, born.unmoved, ?_⟩
  · intro other _ f current
    rw [idle] at current
    cases current
  · intro isStrict
    have alive := born.alive isStrict
    obtain ⟨nodes, linked, nodup, free⟩ := alive.freeNodes
    refine ⟨?_, ?_, nodes, linked, nodup, ?_⟩
    · intro other _ f current
      rw [idle] at current
      cases current
    · intro f lives
      refine alive.mapped f ?_
      by_cases same : f = e
      · simp [Roster.setStatus, same]
      · simpa [Roster.setStatus, same] using lives
    · intro f member
      have isFree := free f member
      by_cases same : f = e
      · simp [Roster.setStatus, same] at isFree
      · simpa [Roster.setStatus, same] using isFree

theorem triple_envCreate {strict : Prop} {cpu : Nat} (here : Nat)
    (entry : UInt32) (segments : List (UInt32 × UInt32)) :
    Triple (InsideAt strict (fun _ => none) cpu) (envCreate here entry segments)
      (fun _ kernel => ∃ e, Born strict (fun _ => none) cpu e kernel.roster)
      (OutsideAt strict (fun _ => none) cpu) := by
  refine (triple_envAlloc here 0).bind fun result => ?_
  cases result with
  | error r => exact .stop
  | ok e =>
      have loaded := frame_loadIcode blindToMem_roster e entry
        (fun kernel _ => kernel.roster_updateEnv_same e (fun _ => rfl)
          (fun _ => rfl) fun _ => rfl) segments
      exact (loaded.triple (Born strict (fun _ => none) cpu e)).weaken
        (fun _ => id) (fun _ _ born => ⟨e, born⟩) fun _ => id

theorem idle_of_boot {strict : Prop} {kernel : Kernel} (boot : kernel.Boot) :
    Idle strict kernel := by
  induction boot with
  | initial booted => exact idle_initial _ _
  | @create kernel next here entry segments boot created induction =>
      have born : ∀ cpu, ∃ e,
          Born strict (fun _ => none) cpu e next.roster := by
        intro cpu
        have run := (triple_envCreate here entry segments).run kernel
          (induction cpu)
        rwa [created] at run
      have idle : ∀ cpu, next.roster.current cpu = none := by
        intro cpu
        obtain ⟨e, born⟩ := born (cpu + 1)
        exact born.unmoved cpu (by omega)
      intro cpu
      obtain ⟨e, born⟩ := born cpu
      exact born.inside idle

/-! ## Traps -/

/-- One trap: the processor leaves the kernel, and the others run what they
ran. -/
theorem outside_of_step {strict : Prop} {build : Build} {kernel next : Kernel}
    {event : TrapEvent} (settled : kernel.roster.Settled strict)
    (harmless : event.Harmless strict kernel)
    (step : (smp build).Step kernel event next) :
    OutsideAt strict kernel.cpus event.cpu next := by
  obtain ⟨possible, left⟩ := step
  have outside := settled event.cpu
  cases event with
  | user cpu surroundings frame faultVa =>
      obtain ⟨current, isCurrent⟩ := Option.ne_none_iff_exists'.mp possible
      have own : OwnAt strict kernel.cpus cpu current kernel :=
        ⟨outside.inside, isCurrent, (outside.own current isCurrent).2⟩
      have leaves : trap build surroundings cpu frame faultVa kernel =
          .leaves next := left
      have traps : Triple _ (trap build surroundings cpu frame faultVa)
          (fun _ _ => False) (OutsideAt strict kernel.cpus cpu) :=
        triple_trap current build surroundings cpu frame faultVa
      have run := traps.run kernel ⟨own, harmless⟩
      rwa [leaves] at run
  | wake cpu =>
      have leaves : schedYield build cpu kernel =
          (.leaves next : Outcome Kernel Unit) := left
      have yields : Triple _ (schedYield build cpu : KernelM Unit)
          (fun _ _ => False) (OutsideAt strict kernel.cpus cpu) :=
        triple_schedYield build cpu
      have run := yields.run kernel outside.inside
      rwa [leaves] at run

theorem settled_of_reachable {strict : Prop} {build : Build} {kernel : Kernel}
    (reachable : (smp build).Reachable
      (fun kernel event => event.Harmless strict kernel) kernel) :
    kernel.roster.Settled strict := by
  have initially : ∀ kernel, Kernel.Boot kernel →
      kernel.roster.Settled strict := fun _ boot => (idle_of_boot boot).settled
  have preserved : ∀ kernel event next, kernel.roster.Settled strict →
      event.Harmless strict kernel → (smp build).Step kernel event next →
      next.roster.Settled strict := fun _ _ _ settled harmless step =>
    (outside_of_step settled harmless step).settled
  exact reachable.invariant initially preserved

/-! ## Runs on concrete inputs -/

/-- The state after a trap that leaves the kernel. -/
def TrapEvent.after (build : Build) (kernel : Kernel) (event : TrapEvent) :
    Kernel :=
  (event.entry build kernel).leftState.getD kernel

/-- The trap is possible and leaves the kernel. -/
def TrapEvent.Goes (build : Build) (kernel : Kernel) (event : TrapEvent) :
    Prop :=
  event.possible kernel ∧
    (event.entry build kernel).leftState.isSome = true

instance (build : Build) (kernel : Kernel) :
    DecidablePred (TrapEvent.Goes build kernel) :=
  fun _ => inferInstanceAs (Decidable (_ ∧ _))

theorem TrapEvent.Goes.step {build : Build} {kernel : Kernel}
    {event : TrapEvent} (goes : event.Goes build kernel) :
    (smp build).Step kernel event (event.after build kernel) := by
  obtain ⟨possible, left⟩ := goes
  refine ⟨possible, ?_⟩
  unfold TrapEvent.after
  cases outcome : event.entry build kernel with
  | leaves next => rfl
  | returns result next =>
      rw [outcome] at left
      cases left
  | stops =>
      rw [outcome] at left
      cases left

/-- A small machine with one environment. -/
def oneEnv : Kernel :=
  match envCreate 0 0 [] (Kernel.initial (.plain 32) 1) with
  | .returns _ kernel => kernel
  | _ => Kernel.initial (.plain 32) 1

theorem boot_oneEnv : Kernel.Boot oneEnv := by
  unfold oneEnv
  split
  · rename_i created
    exact .create (.initial (PhysMem.booted_plain (by decide) (by decide)))
      created
  · exact .initial (PhysMem.booted_plain (by decide) (by decide))

theorem reachable_of_goes {build : Build} {events : List TrapEvent}
    (goes : Machine.Along (TrapEvent.Goes build) (TrapEvent.after build) oneEnv
      events) :
    (smp build).Reachable Machine.Unrestricted
      (events.foldl (TrapEvent.after build) oneEnv) := by
  have run : (smp build).Run Machine.Unrestricted oneEnv (events.map id)
      (events.foldl (TrapEvent.after build) oneEnv) :=
    Machine.run_of_along (fun _ _ goes => goes.step) (fun _ _ _ => trivial)
      goes
  exact ⟨oneEnv, _, boot_oneEnv, run⟩

/-- `oneEnv` creates a child, which becomes runnable and runs on the
processor 1. -/
def childRuns : List TrapEvent :=
  [.wake 0, .call 0 7 0 0 0 0 0, .call 0 8 4097 2 0 0 0, .wake 1]

/-- Until the processor 1 wakes up, only the processor 0 has taken traps; then it
runs the parent and the other one its child. -/
theorem childRuns_harmless (strict : Prop) :
    (smp .roundRobin).Reachable (fun kernel event => event.Harmless strict kernel)
      (childRuns.foldl (TrapEvent.after .roundRobin) oneEnv) := by
  have goes : Machine.Along (TrapEvent.Goes .roundRobin)
      (TrapEvent.after .roundRobin) oneEnv childRuns := by
    decide +kernel
  obtain ⟨wakes, creates, sets, dispatches, _⟩ := goes
  have start : (smp .roundRobin).Reachable
      (fun kernel event => event.Harmless strict kernel) oneEnv :=
    .initial boot_oneEnv
  have isWake : ∀ kernel cpu, (TrapEvent.wake cpu).Harmless strict kernel :=
    fun _ _ => trivial
  have first := start.step (isWake _ 0) wakes.step
  have isCreate : (TrapEvent.call 0 7 0 0 0 0 0).Harmless strict
      ((TrapEvent.wake 0).after .roundRobin oneEnv) :=
    fun _ _ _ _ => trivial
  have second := first.step isCreate creates.step
  have alone : ∀ other, other ≠ 0 →
      ((TrapEvent.call 0 7 0 0 0 0 0).after .roundRobin
        ((TrapEvent.wake 0).after .roundRobin oneEnv)).cpus other = none := by
    intro other different
    have afterFirst := outside_of_step (settled_of_reachable start) (isWake _ 0)
      wakes.step
    have afterSecond := outside_of_step (settled_of_reachable first) isCreate
      creates.step
    exact (afterSecond.inside.unmoved other different).trans
      ((afterFirst.inside.unmoved other different).trans
        ((@idle_of_boot strict _ boot_oneEnv).current other))
  refine (second.step ?_ sets.step).step (isWake _ 1) dispatches.step
  rintro current _ _ _ _ e _ ⟨other, different, runs⟩
  cases (alone other different).symm.trans runs

theorem boot_reachable {build : Build}
    {allowed : Kernel → TrapEvent → Prop} {next : Kernel} {cpu : Nat}
    (permitted : allowed oneEnv (.wake cpu))
    (step : (smp build).Step oneEnv (.wake cpu) next) :
    (smp build).Reachable allowed next :=
  (Machine.Reachable.initial boot_oneEnv).step permitted step

/-! ## No environment runs twice -/

/-- The trap makes no environment runnable that another processor runs: a
`sys_env_set_status` to `ENV_RUNNABLE` and an accepted `sys_ipc_try_send` have a
target that runs nowhere else. -/
def TrapEvent.KeepsApart (kernel : Kernel) (event : TrapEvent) : Prop :=
  event.Harmless False kernel

/-- Two processors run different environments, and a trap dispatches none that
runs elsewhere. -/
theorem exclusive_of_keepsApart (build : Build) {kernel : Kernel}
    (reachable : (smp build).Reachable
      (fun kernel event => event.KeepsApart kernel) kernel) :
    (∀ first second e, kernel.cpus first = some e →
      kernel.cpus second = some e → first = second) ∧
    ∀ event next e, event.KeepsApart kernel →
      (smp build).Step kernel event next → next.cpus event.cpu = some e →
      ∀ other, other ≠ event.cpu → kernel.cpus other ≠ some e := by
  have settled := settled_of_reachable reachable
  refine ⟨fun first second e => settled.exclusive, ?_⟩
  intro event next e apart step dispatched other different runs
  have outside := outside_of_step settled apart step
  have still : next.roster.current other = some e :=
    (outside.inside.unmoved other different).trans runs
  exact different (outside.inside.exclusive other event.cpu e still dispatched)

theorem exclusive_after_childRuns :
    let kernel := childRuns.foldl (TrapEvent.after .roundRobin) oneEnv
    (∀ first second e, kernel.cpus first = some e →
      kernel.cpus second = some e → first = second) ∧
    ∀ event next e, event.KeepsApart kernel →
      (smp .roundRobin).Step kernel event next → next.cpus event.cpu = some e →
      ∀ other, other ≠ event.cpu → kernel.cpus other ≠ some e :=
  exclusive_of_keepsApart .roundRobin (childRuns_harmless False)

/-- The parent makes its child runnable again while the child runs, and then
yields to it. -/
theorem not_exclusive_after_set_status :
    ¬ ∀ kernel, (smp .roundRobin).Reachable Machine.Unrestricted kernel →
      ∀ first second e, kernel.cpus first = some e →
        kernel.cpus second = some e → first = second := by
  intro exclusive
  have goes : Machine.Along (TrapEvent.Goes .roundRobin)
      (TrapEvent.after .roundRobin) oneEnv
      (childRuns ++ [.call 0 8 4097 2 0 0 0, .call 0 10 0 0 0 0 0]) := by
    decide +kernel
  have same := exclusive _ (reachable_of_goes goes) 0 1 1 (by decide +kernel)
    (by decide +kernel)
  cases same

/-! ## No freed environment runs -/

/-- Besides, the trap frees no environment that another processor runs: where
`env_destroy` meets one, its status is `ENV_RUNNING`. -/
def TrapEvent.KeepsAlive (kernel : Kernel) (event : TrapEvent) : Prop :=
  event.Harmless True kernel

end FeaturesOS.Scheduler

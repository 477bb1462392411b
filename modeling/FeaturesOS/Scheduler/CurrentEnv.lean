import FeaturesOS.Scheduler.Frames
import FeaturesOS.Scheduler.Roster

/-!
# The scheduler and the current environments

What the scheduler and `env_destroy` preserve of the roster.  The only guard in
the code is `env_status`: the scheduler dispatches what is runnable, and
`env_destroy` defers to another processor only what is running.
-/

namespace FeaturesOS.Scheduler

open Entry

theorem blindToMem_roster : BlindToMem Kernel.roster :=
  Kernel.roster_setMem

theorem blindToQueues_roster : BlindToQueues Kernel.roster where
  mlfq _ _ := rfl
  colaActual kernel e _ :=
    kernel.roster_updateEnv_same e (fun _ => rfl) (fun _ => rfl) fun _ => rfl

variable {strict : Prop} {others : Nat → Option Nat} {cpu e : Nat}

/-! ## Dispatching -/

/-- The own processor is in the kernel. -/
def InsideAt (strict : Prop) (others : Nat → Option Nat) (cpu : Nat)
    (kernel : Kernel) : Prop :=
  kernel.roster.Inside strict others cpu

/-- The own processor has left the kernel. -/
def OutsideAt (strict : Prop) (others : Nat → Option Nat) (cpu : Nat)
    (kernel : Kernel) : Prop :=
  kernel.roster.Outside strict others cpu

/-- `e` may be dispatched on `cpu`. -/
def CanRun (strict : Prop) (others : Nat → Option Nat) (cpu e : Nat)
    (roster : Roster) : Prop :=
  roster.Inside strict others cpu ∧ (strict → roster.status e ≠ .free) ∧
    ¬ roster.RunsElsewhere cpu e

def Dispatchable (strict : Prop) (others : Nat → Option Nat) (cpu e : Nat)
    (kernel : Kernel) : Prop :=
  CanRun strict others cpu e kernel.roster

theorem dispatchable_of_runnable {kernel : Kernel}
    (inside : InsideAt strict others cpu kernel)
    (runnable : kernel.Runnable e) :
    Dispatchable strict others cpu e kernel := by
  have status : kernel.roster.status e = .runnable := runnable
  exact ⟨inside, fun _ => by rw [status]; decide, inside.of_runnable status⟩

theorem dispatchable_of_curenv {kernel : Kernel}
    (inside : InsideAt strict others cpu kernel)
    (current : kernel.curenvRunning cpu = some e) :
    Dispatchable strict others cpu e kernel := by
  obtain ⟨here, running⟩ := Option.filter_eq_some_iff.mp current
  have status : kernel.roster.status e = .running := of_decide_eq_true running
  exact ⟨inside, fun _ => by rw [status]; decide, inside.own here⟩

theorem dispatchable_soltarCurenv {kernel : Kernel}
    (dispatchable : Dispatchable strict others cpu e kernel) :
    Dispatchable strict others cpu e (soltarCurenv cpu kernel) := by
  obtain ⟨inside, live, alone⟩ := dispatchable
  unfold soltarCurenv
  cases here : kernel.cpus cpu with
  | none => exact ⟨inside, live, alone⟩
  | some current =>
      dsimp only
      split
      · rename_i running
        have runsHere : kernel.roster.status current = .running := running
        unfold Dispatchable CanRun
        simp only [Kernel.roster_updateEnv_status, implies_true]
        refine ⟨?_, ?_, alone⟩
        · exact inside.setStatus (fun _ => by rw [runsHere]; decide)
            (by decide) (fun _ => inside.own here)
        · intro isStrict
          by_cases same : e = current
          · simp [Roster.setStatus, same]
          · simpa [Roster.setStatus, same] using live isStrict
      · exact ⟨inside, live, alone⟩

theorem triple_envRun (cpu e : Nat) {Result : Type}
    {returned : Result → Kernel → Prop} :
    Triple (Dispatchable strict others cpu e) (envRun cpu e) returned
      (OutsideAt strict others cpu) := by
  unfold envRun
  refine .bind_modify (Dispatchable strict others cpu e)
    (fun _ => dispatchable_soltarCurenv) ?_
  refine .bind_modify (OutsideAt strict others cpu) ?_ ?_
  · rintro kernel ⟨inside, live, alone⟩
    unfold OutsideAt
    simp only [Kernel.roster_updateEnv_status, implies_true]
    exact inside.dispatch live alone
  · refine .bind_read ?_
    intro pgdir
    cases pgdir with
    | none => exact .stop
    | some pgdir => exact .leave fun _ outside => outside.1

theorem triple_schedHalt (cpu : Nat) {Result : Type}
    {returned : Result → Kernel → Prop} :
    Triple (InsideAt strict others cpu) (schedHalt cpu) returned
      (OutsideAt strict others cpu) := by
  constructor
  intro kernel inside
  unfold schedHalt
  split
  · rename_i outcome
    split at outcome
    · cases outcome
    · cases outcome
  · rename_i outcome
    split at outcome
    · cases outcome
      exact inside.halt
    · cases outcome
  · trivial

/-! ## The scheduler -/

theorem contarEjecucion_roster (kernel : Kernel) (e : Nat) :
    (kernel.contarEjecucion e).roster = kernel.roster :=
  kernel.roster_updateEnv_same e (fun _ => rfl) (fun _ => rfl) fun _ => rfl

theorem dispatchable_contarEjecucion {kernel : Kernel} (f : Nat)
    (dispatchable : Dispatchable strict others cpu e kernel) :
    Dispatchable strict others cpu e (kernel.contarEjecucion f) := by
  unfold Dispatchable
  rw [contarEjecucion_roster]
  exact dispatchable

theorem runnable_of_siguienteEnRonda {kernel : Kernel} {cpu e : Nat}
    (found : kernel.siguienteEnRonda cpu = some e) : kernel.Runnable e := by
  unfold Kernel.siguienteEnRonda at found
  have runnable := List.find?_some found
  simpa using runnable

theorem triple_roundRobin (cpu : Nat) :
    Triple (InsideAt strict others cpu) (roundRobin cpu)
      (fun _ => InsideAt strict others cpu) (OutsideAt strict others cpu) := by
  unfold roundRobin
  refine .bind_read ?_
  intro siguiente
  cases siguiente with
  | some e =>
      refine .bind_modify (Dispatchable strict others cpu e) ?_
        (triple_envRun cpu e)
      rintro kernel ⟨inside, found⟩
      exact dispatchable_contarEjecucion e
        (dispatchable_of_runnable inside (runnable_of_siguienteEnRonda found))
  | none =>
      refine .bind_read ?_
      intro curenv
      cases curenv with
      | some current =>
          refine .bind_modify (Dispatchable strict others cpu current) ?_
            (triple_envRun cpu current)
          rintro kernel ⟨⟨inside, -⟩, found⟩
          exact dispatchable_contarEjecucion current
            (dispatchable_of_curenv inside found)
      | none => exact .pure fun _ inside => inside.1.1

theorem triple_prioridadMlfq (cpu : Nat) :
    Triple (InsideAt strict others cpu) (prioridadMlfq cpu)
      (fun _ => InsideAt strict others cpu) (OutsideAt strict others cpu) := by
  unfold prioridadMlfq
  refine .bind_read ?_
  intro mejor
  match mejor with
  | none => exact .stop
  | some none =>
      refine .bind_read ?_
      intro curenv
      cases curenv with
      | some current =>
          refine .bind_modify (Dispatchable strict others cpu current) ?_
            (triple_envRun cpu current)
          rintro kernel ⟨⟨inside, -⟩, found⟩
          exact dispatchable_contarEjecucion current
            (dispatchable_of_curenv inside found)
      | none =>
          exact .strengthen (InsideAt strict others cpu)
            (fun _ inside => inside.1.1) (triple_schedHalt cpu)
  | some (some (index, i)) =>
      refine .bind_read ?_
      intro envId
      -- The queue operations do not change who may be dispatched.
      have agregado :
          Triple (Dispatchable strict others cpu (envx envId))
            (schedAgregarEnv envId
              (if index.val ≥ 3 then 3 else index.val + 1))
            (fun _ => Dispatchable strict others cpu (envx envId))
            (OutsideAt strict others cpu) :=
        (frame_schedAgregarEnv blindToQueues_roster _ _).triple
          (CanRun strict others cpu (envx envId))
      have borrado :
          Triple (Dispatchable strict others cpu (envx envId))
            (onCola index fun cola => cola.borrar (i % nenv))
            (fun _ => Dispatchable strict others cpu (envx envId))
            (OutsideAt strict others cpu) :=
        (frame_onCola blindToQueues_roster _ _).triple
          (CanRun strict others cpu (envx envId))
      refine .strengthen (Dispatchable strict others cpu (envx envId)) ?_ ?_
      · rintro kernel ⟨⟨inside, found⟩, read⟩
        obtain ⟨-, -, -, runnable⟩ := kernel.colaMejorPrioridad_found found
        rw [read] at runnable
        exact dispatchable_of_runnable inside runnable
      · refine borrado.bind fun _ => agregado.bind fun _ => ?_
        refine .bind_modify (Dispatchable strict others cpu (envx envId)) ?_
          (triple_envRun cpu _)
        intro kernel dispatchable
        have counted :
            Dispatchable strict others cpu (envx envId) kernel.contarTotal :=
          dispatchable
        exact dispatchable_contarEjecucion (envx envId) counted

theorem triple_schedYield (build : Build) (cpu : Nat) {Result : Type}
    {returned : Result → Kernel → Prop} :
    Triple (InsideAt strict others cpu) (schedYield build cpu) returned
      (OutsideAt strict others cpu) := by
  have elegir : Triple (InsideAt strict others cpu) (elegirEntorno build cpu)
      (fun _ => InsideAt strict others cpu) (OutsideAt strict others cpu) := by
    cases build with
    | roundRobin => exact triple_roundRobin cpu
    | priorities =>
        have promovido : Triple (InsideAt strict others cpu)
            promoverSiCorresponde (fun _ => InsideAt strict others cpu)
            (OutsideAt strict others cpu) :=
          (frame_promoverSiCorresponde blindToQueues_roster).triple
            (Roster.Inside · strict others cpu)
        exact promovido.bind fun _ => triple_prioridadMlfq cpu
  unfold schedYield
  refine .bind_modify (InsideAt strict others cpu) (fun _ inside => inside) ?_
  exact elegir.bind fun _ => triple_schedHalt cpu

/-! ## Freeing environments -/

/-- `e` may be freed on `cpu`. -/
def Freeable (strict : Prop) (others : Nat → Option Nat) (cpu e : Nat)
    (kernel : Kernel) : Prop :=
  InsideAt strict others cpu kernel ∧
    (strict → kernel.roster.status e ≠ .free ∧
      ¬ kernel.roster.RunsElsewhere cpu e)

theorem triple_envFree (cpu e : Nat) :
    Triple (Freeable strict others cpu e) (envFree e)
      (fun _ => InsideAt strict others cpu) (OutsideAt strict others cpu) := by
  constructor
  rintro kernel ⟨inside, may⟩
  unfold envFree
  cases (kernel.envs e).envPgdir with
  | none => trivial
  | some pgdir =>
      dsimp only
      cases (envFreeTables pgdir userTables kernel.mem).bind fun mem =>
          mem.pageDecref pgdir with
      | none => trivial
      | some mem =>
          have released :
              ({ (kernel.setMem mem).updateEnv e fun env =>
                  { env with
                    envPgdir := none
                    envStatus := .free
                    envLink := kernel.envFreeList } with
                envFreeList := some e } : Kernel).roster =
                kernel.roster.release e := by
            unfold Kernel.roster Roster.release Kernel.updateEnv Kernel.setEnv
            congr 1 <;> funext f <;> by_cases same : f = e <;>
              simp [same, Kernel.setMem]
          change Roster.Inside _ strict others cpu
          rw [released]
          exact inside.release (fun isStrict => (may isStrict).1)
            (fun isStrict => (may isStrict).2)

/-- `e` may be destroyed on `cpu`: where it runs elsewhere, its status says
so. -/
def Destroyable (strict : Prop) (others : Nat → Option Nat) (cpu e : Nat)
    (kernel : Kernel) : Prop :=
  InsideAt strict others cpu kernel ∧
    (strict → kernel.roster.status e ≠ .free ∧
      (kernel.roster.RunsElsewhere cpu e → kernel.roster.status e = .running))

theorem triple_envDestroy (build : Build) (cpu e : Nat) :
    Triple (Destroyable strict others cpu e) (envDestroy build cpu e)
      (fun _ => InsideAt strict others cpu) (OutsideAt strict others cpu) := by
  unfold envDestroy
  refine .bind_read ?_
  intro status
  refine .bind_read ?_
  intro curenv
  split
  · refine .modify ?_
    rintro kernel ⟨⟨⟨inside, may⟩, -⟩, -⟩
    unfold InsideAt
    simp only [Kernel.roster_updateEnv_status, implies_true]
    exact inside.setStatus (fun isStrict => (may isStrict).1) (by decide)
      (fun dying => by cases dying)
  · rename_i notDeferred
    have freed : Triple
        (fun kernel => (Destroyable strict others cpu e kernel ∧
          (kernel.envs e).envStatus = status) ∧ kernel.cpus cpu = curenv)
        (envFree e) (fun _ => InsideAt strict others cpu)
        (OutsideAt strict others cpu) := by
      refine (triple_envFree cpu e).strengthen _ ?_
      rintro kernel ⟨⟨⟨inside, may⟩, isStatus⟩, isCurenv⟩
      refine ⟨inside, fun isStrict => ⟨(may isStrict).1, ?_⟩⟩
      intro runs
      apply notDeferred
      refine ⟨isStatus.symm.trans ((may isStrict).2 runs), ?_⟩
      rintro rfl
      exact inside.own isCurenv runs
    refine freed.bind fun _ => ?_
    split
    · refine .bind_modify (InsideAt strict others cpu) ?_ ?_
      · intro kernel inside
        exact inside.halt.inside
      · exact triple_schedYield build cpu
    · exact .pure fun _ => id

/-- `e` is the current environment of `cpu`. -/
def OwnAt (strict : Prop) (others : Nat → Option Nat) (cpu e : Nat)
    (kernel : Kernel) : Prop :=
  InsideAt strict others cpu kernel ∧ kernel.roster.current cpu = some e ∧
    (strict → kernel.roster.status e ≠ .free)

theorem OwnAt.dispatchable {kernel : Kernel}
    (own : OwnAt strict others cpu e kernel) :
    Dispatchable strict others cpu e kernel :=
  ⟨own.1, own.2.2, own.1.own own.2.1⟩

theorem OwnAt.freeable {kernel : Kernel}
    (own : OwnAt strict others cpu e kernel) :
    Freeable strict others cpu e kernel :=
  ⟨own.1, fun isStrict => ⟨own.2.2 isStrict, own.1.own own.2.1⟩⟩

/-- Whoever destroys its own environment does not return. -/
theorem triple_envDestroy_own (build : Build) (cpu e : Nat)
    {returned : Unit → Kernel → Prop} :
    Triple (OwnAt strict others cpu e) (envDestroy build cpu e) returned
      (OutsideAt strict others cpu) := by
  unfold envDestroy
  refine .bind_read ?_
  intro status
  refine .bind_read ?_
  intro curenv
  refine .strengthen
    (fun kernel => curenv = some e ∧ Freeable strict others cpu e kernel) ?_ ?_
  · rintro kernel ⟨⟨own, -⟩, isCurenv⟩
    exact ⟨isCurenv.symm.trans own.2.1, own.freeable⟩
  · by_cases here : curenv = some e
    · simp only [here, ne_eq, not_true_eq_false, and_false, if_false, if_true,
        true_and]
      refine (triple_envFree cpu e).bind fun _ => ?_
      refine .bind_modify (InsideAt strict others cpu) ?_ ?_
      · intro kernel inside
        exact inside.halt.inside
      · exact triple_schedYield build cpu
    · exact ⟨fun kernel impossible => absurd impossible.1 here⟩

end FeaturesOS.Scheduler

import FeaturesOS.Scheduler.Frames
import FeaturesOS.Scheduler.Roster

/-!
# Deeds

One entry into the kernel does at most one thing to the environments before the
processor leaves the kernel again.  A `Census` shows what such a `Deed` changes,
and `Census.Leaves` says in which ways a processor leaves.
-/

namespace FeaturesOS.Scheduler

open Entry

/-- The roster, the identifiers and the number of calls of `sched_yield`. -/
structure Census where
  roster : Roster
  envId : Nat → UInt32
  yields : Int32

/-- What an entry into the kernel does to one environment. -/
inductive Deed where
  | nothing
  | setStatus (e : Nat) (status : EnvStatus)
  | mark (e : Nat)
  | release (e : Nat)
  | exit (e : Nat)
  | create (e : Nat) (status : EnvStatus)

/-- The first lines of `env_run`. -/
def Roster.soltar (roster : Roster) (cpu : Nat) : Roster :=
  match roster.current cpu with
  | none => roster
  | some current =>
      if roster.status current = .running then
        roster.setStatus current .runnable
      else
        roster

/-- `env_run`. -/
def Roster.dispatch (roster : Roster) (cpu e : Nat) : Roster :=
  ((roster.soltar cpu).setCurrent cpu (some e)).setStatus e .running

namespace Census

def onRoster (census : Census) (change : Roster → Roster) : Census :=
  { census with roster := change census.roster }

/-- What must hold of the environment for a deed. -/
def Fits (cpu : Nat) (census : Census) : Deed → Prop
  | .nothing => True
  | .setStatus _ status => status = .runnable ∨ status = .notRunnable
  | .mark e =>
      census.roster.status e = .running ∧ census.roster.current cpu ≠ some e
  | .release e =>
      census.roster.status e ≠ .running ∧
        census.roster.current cpu ≠ some e ∧ census.roster.hasPgdir e = true
  | .exit e =>
      census.roster.current cpu = some e ∧ census.roster.hasPgdir e = true
  | .create e status =>
      census.roster.freeList = some e ∧
        (status = .runnable ∨ status = .notRunnable)

def afterDeed (cpu : Nat) (census : Census) : Deed → Census
  | .nothing => census
  | .setStatus e status => census.onRoster (·.setStatus e status)
  | .mark e => census.onRoster (·.setStatus e .dying)
  | .release e => census.onRoster (·.release e)
  | .exit e =>
      census.onRoster fun roster => (roster.release e).setCurrent cpu none
  | .create e status =>
      { census with
        roster := (census.roster.addPgdir e).allocate e status
        envId := Function.update census.envId e
          (nextGeneration (census.envId e) ||| UInt32.ofNat e) }

/-- `index_inicial` in `round_robin`. -/
def indexInicial (census : Census) (cpu : Nat) : Nat :=
  match census.roster.current cpu with
  | none => 0
  | some current => envx (census.envId current) + 1

/-- The environment that `round_robin` dispatches. -/
def siguiente (census : Census) (cpu : Nat) : Option Nat :=
  (Kernel.rondaDesde (census.indexInicial cpu)).find? fun e =>
    decide (census.roster.status e = .runnable)

/-- The processor is in `sched_yield`. -/
def counted (census : Census) : Census :=
  { census with yields := census.yields + 1 }

/-- How a processor leaves the kernel: it goes on with its environment, or
`sched_yield` picks a runnable one, stays with its environment or halts. -/
inductive Leaves (build : Build) (cpu : Nat) (census : Census) :
    Census → Prop where
  | resumes {e : Nat} :
      census.roster.current cpu = some e →
      census.roster.hasPgdir e = true →
      Leaves build cpu census (census.onRoster (·.dispatch cpu e))
  | picks {e : Nat} :
      census.roster.status e = .runnable →
      census.roster.hasPgdir e = true →
      (build = .roundRobin → census.siguiente cpu = some e) →
      Leaves build cpu census (census.counted.onRoster (·.dispatch cpu e))
  | stays {e : Nat} :
      census.roster.current cpu = some e →
      census.roster.status e = .running →
      census.roster.hasPgdir e = true →
      (build = .roundRobin → census.siguiente cpu = none) →
      Leaves build cpu census (census.counted.onRoster (·.dispatch cpu e))
  | halts :
      (∀ e, census.roster.current cpu = some e →
        census.roster.status e ≠ .running) →
      (build = .roundRobin → census.siguiente cpu = none) →
      Leaves build cpu census (census.counted.onRoster (·.setCurrent cpu none))

/-- How a processor leaves `sched_yield`. -/
inductive Yields (build : Build) (cpu : Nat) (census : Census) :
    Census → Prop where
  | picks {e : Nat} :
      census.roster.status e = .runnable →
      census.roster.hasPgdir e = true →
      (build = .roundRobin → census.siguiente cpu = some e) →
      Yields build cpu census (census.counted.onRoster (·.dispatch cpu e))
  | stays {e : Nat} :
      census.roster.current cpu = some e →
      census.roster.status e = .running →
      census.roster.hasPgdir e = true →
      (build = .roundRobin → census.siguiente cpu = none) →
      Yields build cpu census (census.counted.onRoster (·.dispatch cpu e))
  | halts :
      (∀ e, census.roster.current cpu = some e →
        census.roster.status e ≠ .running) →
      (build = .roundRobin → census.siguiente cpu = none) →
      Yields build cpu census (census.counted.onRoster (·.setCurrent cpu none))

theorem Yields.leaves {build : Build} {cpu : Nat} {census after : Census}
    (yields : Yields build cpu census after) : Leaves build cpu census after := by
  cases yields with
  | picks runnable hasPgdir first => exact .picks runnable hasPgdir first
  | stays current running hasPgdir last =>
      exact .stays current running hasPgdir last
  | halts unoccupied last => exact .halts unoccupied last

end Census

/-! ## The census of a kernel state -/

namespace Kernel

def census (kernel : Kernel) : Census :=
  { roster := kernel.roster
    envId := fun e => (kernel.envs e).envId
    yields := kernel.runsDelSched }

/-- An update that touches only the status of an environment. -/
theorem census_updateEnv_status (kernel : Kernel) (e : Nat)
    {change : Env → Env}
    (pgdir : ∀ env, (change env).envPgdir = env.envPgdir)
    (link : ∀ env, (change env).envLink = env.envLink)
    (envId : ∀ env, (change env).envId = env.envId) :
    (kernel.updateEnv e change).census =
      kernel.census.onRoster
        (·.setStatus e (change (kernel.envs e)).envStatus) := by
  unfold census Census.onRoster
  rw [kernel.roster_updateEnv_status e pgdir link]
  congr 1
  funext f
  by_cases same : f = e
  · simp [updateEnv, setEnv, same, envId]
  · simp [updateEnv, setEnv, same]

/-- An update of fields that the census does not show. -/
theorem census_updateEnv_same (kernel : Kernel) (e : Nat)
    {change : Env → Env}
    (status : ∀ env, (change env).envStatus = env.envStatus)
    (pgdir : ∀ env, (change env).envPgdir = env.envPgdir)
    (link : ∀ env, (change env).envLink = env.envLink)
    (envId : ∀ env, (change env).envId = env.envId) :
    (kernel.updateEnv e change).census = kernel.census := by
  have unchanged := kernel.roster_updateEnv_same e status pgdir link
  rw [kernel.roster_updateEnv_status e pgdir link] at unchanged
  rw [kernel.census_updateEnv_status e pgdir link envId]
  exact congrArg
    (fun roster => Census.mk roster kernel.census.envId kernel.runsDelSched)
    unchanged

theorem census_soltarCurenv (cpu : Nat) (kernel : Kernel) :
    (soltarCurenv cpu kernel).census =
      kernel.census.onRoster (·.soltar cpu) := by
  have same : kernel.census.roster.current cpu = kernel.cpus cpu := rfl
  unfold soltarCurenv Census.onRoster Roster.soltar
  dsimp only
  rw [same]
  cases kernel.cpus cpu with
  | none => rfl
  | some current =>
      have status : kernel.census.roster.status current =
          (kernel.envs current).envStatus := rfl
      dsimp only
      rw [status]
      split
      · simp only [Kernel.census_updateEnv_status, implies_true]
        rfl
      · rfl

theorem siguienteEnRonda_census (kernel : Kernel) (cpu : Nat) :
    kernel.siguienteEnRonda cpu = kernel.census.siguiente cpu :=
  rfl

theorem contarEjecucion_census (kernel : Kernel) (e : Nat) :
    (kernel.contarEjecucion e).census = kernel.census :=
  kernel.census_updateEnv_same e (fun _ => rfl) (fun _ => rfl) (fun _ => rfl)
    fun _ => rfl

end Kernel

theorem blindToMem_census : BlindToMem Kernel.census := fun _ _ => rfl

theorem blindToQueues_census : BlindToQueues Kernel.census where
  mlfq _ _ := rfl
  colaActual kernel e _ :=
    kernel.census_updateEnv_same e (fun _ => rfl) (fun _ => rfl) (fun _ => rfl)
      fun _ => rfl

/-! ## Leaving the kernel -/

/-- The state shows `census`. -/
def Shows (census : Census) (kernel : Kernel) : Prop := kernel.census = census

/-- The processor has left the kernel out of `census`. -/
def LeftFrom (build : Build) (cpu : Nat) (census : Census) (kernel : Kernel) :
    Prop :=
  census.Leaves build cpu kernel.census

variable {build : Build} {cpu e : Nat} {census : Census}

theorem triple_envRun_census {Result : Type} {returned : Result → Kernel → Prop} :
    Triple (Shows census) (envRun cpu e) returned
      (fun kernel => census.roster.hasPgdir e = true ∧
        kernel.census = census.onRoster (·.dispatch cpu e)) := by
  unfold envRun
  refine .bind_modify (fun kernel =>
    kernel.census = census.onRoster (·.soltar cpu)) ?_ ?_
  · intro kernel shows
    rw [Kernel.census_soltarCurenv, show kernel.census = census from shows]
  · refine .bind_modify (fun kernel =>
      kernel.census = census.onRoster (·.dispatch cpu e)) ?_ ?_
    · intro kernel released
      simp only [Kernel.census_updateEnv_status, implies_true]
      change (kernel.census.onRoster (·.setCurrent cpu (some e))).onRoster _ = _
      rw [released]
      rfl
    · apply Triple.bind_read
      intro pgdir
      cases pgdir with
      | none => exact .stop
      | some pgdir =>
          apply Triple.leave
          rintro kernel ⟨dispatched, hasPgdir⟩
          refine ⟨?_, dispatched⟩
          have mapped : kernel.census.roster.hasPgdir e = true := by
            change (kernel.envs e).envPgdir.isSome = true
            rw [hasPgdir]
            rfl
          rw [dispatched] at mapped
          have unchanged :
              (census.onRoster (·.dispatch cpu e)).roster.hasPgdir e =
                census.roster.hasPgdir e := by
            change (census.roster.soltar cpu).hasPgdir e = _
            unfold Roster.soltar
            cases census.roster.current cpu with
            | none => rfl
            | some current =>
                dsimp only
                split <;> rfl
          rwa [unchanged] at mapped

theorem triple_schedHalt_census {Result : Type}
    {returned : Result → Kernel → Prop} :
    Triple (Shows census) (schedHalt cpu) returned
      (fun kernel => kernel.census = census.onRoster (·.setCurrent cpu none)) := by
  constructor
  intro kernel shows
  unfold schedHalt
  split
  · rename_i outcome
    split at outcome <;> cases outcome
  · rename_i outcome
    split at outcome
    · cases outcome
      rw [← show kernel.census = census from shows]
      rfl
    · cases outcome
  · trivial

theorem curenvRunning_none {kernel : Kernel} (shows : Shows census kernel)
    (idle : kernel.curenvRunning cpu = none) {e : Nat}
    (current : census.roster.current cpu = some e) :
    census.roster.status e ≠ .running := by
  subst shows
  intro running
  have found : kernel.curenvRunning cpu = some e :=
    Option.filter_eq_some_iff.mpr ⟨current, decide_eq_true running⟩
  rw [idle] at found
  cases found

theorem curenvRunning_some {kernel : Kernel} (shows : Shows census kernel)
    (found : kernel.curenvRunning cpu = some e) :
    census.roster.current cpu = some e ∧ census.roster.status e = .running := by
  subst shows
  obtain ⟨current, running⟩ := Option.filter_eq_some_iff.mp found
  exact ⟨current, of_decide_eq_true running⟩

/-! ### `sched_yield` -/

/-- The processor has left `sched_yield` out of `census`. -/
def YieldedFrom (build : Build) (cpu : Nat) (census : Census)
    (kernel : Kernel) : Prop :=
  census.Yields build cpu kernel.census

theorem triple_envRun_picks (runnable : census.roster.status e = .runnable)
    (first : build = .roundRobin → census.siguiente cpu = some e)
    {Result : Type} {returned : Result → Kernel → Prop} :
    Triple (Shows census.counted) (envRun cpu e) returned
      (YieldedFrom build cpu census) := by
  refine triple_envRun_census.weaken (fun _ => id) (fun _ _ => id) ?_
  rintro kernel ⟨hasPgdir, dispatched⟩
  unfold YieldedFrom
  rw [dispatched]
  exact .picks runnable hasPgdir first

theorem triple_envRun_stays (current : census.roster.current cpu = some e)
    (running : census.roster.status e = .running)
    (last : build = .roundRobin → census.siguiente cpu = none)
    {Result : Type} {returned : Result → Kernel → Prop} :
    Triple (Shows census.counted) (envRun cpu e) returned
      (YieldedFrom build cpu census) := by
  refine triple_envRun_census.weaken (fun _ => id) (fun _ _ => id) ?_
  rintro kernel ⟨hasPgdir, dispatched⟩
  unfold YieldedFrom
  rw [dispatched]
  exact .stays current running hasPgdir last

/-- Nothing runs on the processor, and nothing else may. -/
def Idles (build : Build) (cpu : Nat) (census : Census) : Prop :=
  (∀ e, census.roster.current cpu = some e →
    census.roster.status e ≠ .running) ∧
    (build = .roundRobin → census.siguiente cpu = none)

theorem triple_schedHalt_idles (idles : Idles build cpu census)
    {Result : Type} {returned : Result → Kernel → Prop} :
    Triple (Shows census.counted) (schedHalt cpu) returned
      (YieldedFrom build cpu census) := by
  refine triple_schedHalt_census.weaken (fun _ => id) (fun _ _ => id) ?_
  intro kernel halted
  unfold YieldedFrom
  rw [halted]
  exact .halts idles.1 idles.2

theorem triple_roundRobin_census :
    Triple (Shows census.counted) (roundRobin cpu)
      (fun _ kernel => Idles .roundRobin cpu census ∧
        Shows census.counted kernel)
      (YieldedFrom .roundRobin cpu census) := by
  unfold roundRobin
  apply Triple.bind_read
  intro siguiente
  refine .strengthen (fun kernel => census.siguiente cpu = siguiente ∧
    Shows census.counted kernel) ?_ (.assuming fun found => ?_)
  · rintro kernel ⟨shows, found⟩
    rw [kernel.siguienteEnRonda_census, show kernel.census = _ from shows]
      at found
    exact ⟨found, shows⟩
  · cases siguiente with
    | some e =>
        have runnable : census.roster.status e = .runnable := by
          have isRunnable := List.find?_some found
          simpa using isRunnable
        refine .bind_modify (Shows census.counted) ?_
          (triple_envRun_picks runnable fun _ => found)
        intro kernel shows
        exact (kernel.contarEjecucion_census e).trans shows
    | none =>
        apply Triple.bind_read
        intro curenv
        cases curenv with
        | some current =>
            refine .strengthen (fun kernel =>
              (census.roster.current cpu = some current ∧
                census.roster.status current = .running) ∧
              Shows census.counted kernel) ?_ (.assuming fun runs => ?_)
            · rintro kernel ⟨shows, runs⟩
              exact ⟨(curenvRunning_some shows runs : _ ∧
                census.counted.roster.status current = .running), shows⟩
            · refine .bind_modify (Shows census.counted) ?_
                (triple_envRun_stays runs.1 runs.2 fun _ => found)
              intro kernel shows
              exact (kernel.contarEjecucion_census current).trans shows
        | none =>
            apply Triple.pure
            rintro kernel ⟨shows, idle⟩
            have unoccupied : ∀ e, census.counted.roster.current cpu = some e →
                census.counted.roster.status e ≠ .running := fun _ =>
              curenvRunning_none shows idle
            exact ⟨⟨unoccupied, fun _ => found⟩, shows⟩

/-- A call that leaves the census alone. -/
theorem triple_census_of_frame {Result : Type} {entry : KernelM Result}
    (frame : Frame Kernel.census entry) {left : Kernel → Prop} :
    Triple (Shows census) entry (fun _ => Shows census) left :=
  frame.triple (· = census)

theorem triple_prioridadMlfq_census :
    Triple (Shows census.counted) (prioridadMlfq cpu)
      (fun _ kernel => Idles .priorities cpu census ∧
        Shows census.counted kernel)
      (YieldedFrom .priorities cpu census) := by
  have unordered : ∀ {fact : Prop},
      Build.priorities = .roundRobin → fact := by
    intro fact same
    cases same
  unfold prioridadMlfq
  apply Triple.bind_read
  intro mejor
  match mejor with
  | none => exact .stop
  | some none =>
      apply Triple.bind_read
      intro curenv
      cases curenv with
      | some current =>
          refine .strengthen (fun kernel =>
            (census.roster.current cpu = some current ∧
              census.roster.status current = .running) ∧
            Shows census.counted kernel) ?_ (.assuming fun runs => ?_)
          · rintro kernel ⟨⟨shows, -⟩, runs⟩
            exact ⟨(curenvRunning_some shows runs : _ ∧
              census.counted.roster.status current = .running), shows⟩
          · refine .bind_modify (Shows census.counted) ?_
              (triple_envRun_stays runs.1 runs.2 unordered)
            intro kernel shows
            exact (kernel.contarTotal.contarEjecucion_census current).trans shows
      | none =>
          refine .strengthen (fun kernel => Idles .priorities cpu census ∧
            Shows census.counted kernel) ?_ (.assuming fun idles =>
              triple_schedHalt_idles idles)
          rintro kernel ⟨⟨shows, -⟩, idle⟩
          have unoccupied : ∀ e, census.counted.roster.current cpu = some e →
              census.counted.roster.status e ≠ .running := fun _ =>
            curenvRunning_none shows idle
          exact ⟨⟨unoccupied, unordered⟩, shows⟩
  | some (some (index, i)) =>
      apply Triple.bind_read
      intro envId
      refine .strengthen (fun kernel =>
        census.roster.status (envx envId) = .runnable ∧
          Shows census.counted kernel) ?_ (.assuming fun runnable => ?_)
      · rintro kernel ⟨⟨shows, found⟩, read⟩
        obtain ⟨-, -, -, runnable⟩ := kernel.colaMejorPrioridad_found found
        rw [read] at runnable
        have same : kernel.census.roster.status = census.roster.status :=
          congrArg (fun census => census.roster.status) shows
        rw [← same]
        exact ⟨runnable, shows⟩
      · refine (triple_census_of_frame
          (frame_onCola blindToQueues_census _ _)).bind fun _ => ?_
        refine (triple_census_of_frame
          (frame_schedAgregarEnv blindToQueues_census _ _)).bind fun _ => ?_
        refine .bind_modify (Shows census.counted) ?_
          (triple_envRun_picks runnable unordered)
        intro kernel shows
        exact (kernel.contarTotal.contarEjecucion_census _).trans shows

theorem triple_schedYield_yields {Result : Type}
    {returned : Result → Kernel → Prop} :
    Triple (Shows census) (schedYield build cpu) returned
      (YieldedFrom build cpu census) := by
  have elegir : Triple (Shows census.counted) (elegirEntorno build cpu)
      (fun _ kernel => Idles build cpu census ∧ Shows census.counted kernel)
      (YieldedFrom build cpu census) := by
    cases build with
    | roundRobin => exact triple_roundRobin_census
    | priorities =>
        have promovido : Triple (Shows census.counted) promoverSiCorresponde
            (fun _ => Shows census.counted) (YieldedFrom .priorities cpu census) :=
          triple_census_of_frame
            (frame_promoverSiCorresponde blindToQueues_census)
        exact promovido.bind fun _ => triple_prioridadMlfq_census
  unfold schedYield
  refine .bind_modify (Shows census.counted) ?_ ?_
  · intro kernel shows
    rw [← show kernel.census = census from shows]
    rfl
  · exact elegir.bind fun _ => .assuming fun idles =>
      triple_schedHalt_idles idles

theorem triple_schedYield_census {Result : Type}
    {returned : Result → Kernel → Prop} :
    Triple (Shows census) (schedYield build cpu) returned
      (LeftFrom build cpu census) :=
  triple_schedYield_yields.weaken (fun _ => id) (fun _ _ => id)
    fun _ yielded => yielded.leaves

/-! ## Doing a deed -/

/-- The call has done a deed that it was asked to do. -/
def Did (cpu : Nat) (asked : Deed → Prop) (census : Census)
    (kernel : Kernel) : Prop :=
  ∃ deed, asked deed ∧ census.Fits cpu deed ∧
    kernel.census = census.afterDeed cpu deed

/-- The call has done a deed that it was asked to do, and the processor has left
the kernel. -/
def DidAndLeft (build : Build) (cpu : Nat) (asked : Deed → Prop)
    (census : Census) (kernel : Kernel) : Prop :=
  ∃ deed, asked deed ∧ census.Fits cpu deed ∧
    (census.afterDeed cpu deed).Leaves build cpu kernel.census

/-- What `env_destroy` may do. -/
def Deed.Destroys (e : Nat) (deed : Deed) : Prop :=
  deed = .mark e ∨ deed = .release e ∨ deed = .exit e

theorem triple_envFree_census {left : Kernel → Prop} :
    Triple (Shows census) (envFree e)
      (fun _ kernel => census.roster.hasPgdir e = true ∧
        Shows (census.onRoster (·.release e)) kernel) left := by
  constructor
  intro kernel shows
  unfold envFree
  cases directory : (kernel.envs e).envPgdir with
  | none => trivial
  | some pgdir =>
      dsimp only
      cases (envFreeTables pgdir userTables kernel.mem).bind fun mem =>
          mem.pageDecref pgdir with
      | none => trivial
      | some mem =>
          rw [← show kernel.census = census from shows]
          constructor
          · change (kernel.envs e).envPgdir.isSome = true
            rw [directory]
            rfl
          · unfold Shows Kernel.census Census.onRoster
            congr 1
            · unfold Kernel.roster Roster.release Kernel.updateEnv Kernel.setEnv
              congr 1 <;> funext f <;> by_cases same : f = e <;>
                simp [same, Kernel.setMem]
            · funext f
              by_cases same : f = e
              · simp [Kernel.updateEnv, Kernel.setEnv, Kernel.setMem, same]
              · simp [Kernel.updateEnv, Kernel.setEnv, Kernel.setMem, same]

/-- Freeing the own environment ends in the scheduler. -/
theorem triple_exit {asked : Deed → Prop}
    (current : census.roster.current cpu = some e) (asks : asked (.exit e))
    {Result : Type} {returned : Result → Kernel → Prop} :
    Triple (Shows census)
      (do
        envFree e
        Entry.modify fun kernel => kernel.setCurenv cpu none
        schedYield build cpu)
      returned (DidAndLeft build cpu asked census) := by
  refine triple_envFree_census.bind fun _ => .assuming fun hasPgdir => ?_
  refine .bind_modify (Shows (census.afterDeed cpu (.exit e))) ?_ ?_
  · intro kernel shows
    change kernel.census.onRoster (·.setCurrent cpu none) = _
    rw [show kernel.census = _ from shows]
    rfl
  · refine triple_schedYield_census.weaken (fun _ => id) (fun _ _ => id) ?_
    intro kernel left
    exact ⟨.exit e, asks, ⟨current, hasPgdir⟩, left⟩

theorem triple_envDestroy_census {asked : Deed → Prop}
    (asks : ∀ deed, Deed.Destroys e deed → asked deed) :
    Triple (Shows census) (envDestroy build cpu e)
      (fun _ => Did cpu asked census) (DidAndLeft build cpu asked census) := by
  unfold envDestroy
  apply Triple.bind_read
  intro status
  apply Triple.bind_read
  intro curenv
  refine .strengthen (fun kernel =>
    (census.roster.status e = status ∧ census.roster.current cpu = curenv) ∧
      Shows census kernel) ?_ (.assuming fun known => ?_)
  · rintro kernel ⟨⟨shows, isStatus⟩, isCurenv⟩
    rw [← show kernel.census = census from shows]
    exact ⟨⟨isStatus, isCurenv⟩, rfl⟩
  · obtain ⟨rfl, rfl⟩ := known
    split
    · rename_i deferred
      apply Triple.modify
      intro kernel shows
      refine ⟨.mark e, asks _ (.inl rfl), deferred, ?_⟩
      simp only [Kernel.census_updateEnv_status, implies_true]
      rw [show kernel.census = census from shows]
      rfl
    · rename_i notDeferred
      by_cases own : census.roster.current cpu = some e
      · simp only [own, if_true]
        exact triple_exit own (asks _ (.inr (.inr rfl)))
      · simp only [own, if_false]
        refine triple_envFree_census.bind fun _ => .assuming fun hasPgdir => ?_
        apply Triple.pure
        intro kernel shows
        have notRunning : census.roster.status e ≠ .running := fun running =>
          notDeferred ⟨running, own⟩
        exact ⟨.release e, asks _ (.inr (.inl rfl)),
          ⟨notRunning, own, hasPgdir⟩, shows⟩

end FeaturesOS.Scheduler

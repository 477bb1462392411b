import FeaturesOS.Scheduler.Frames

/-!
# What scheduling leaves alone

`sched_yield` and `env_run` change statuses, counters, queues and the current
environments.  A property of anything else outlives them.
-/

namespace FeaturesOS.Scheduler

open Entry

variable {View : Type*} {view : Kernel → View}

/-- The view shows nothing that scheduling changes. -/
structure BlindToScheduling (view : Kernel → View) : Prop where
  queues : BlindToQueues view
  curenv : ∀ kernel cpu env, view (kernel.setCurenv cpu env) = view kernel
  runs : ∀ kernel runs, view { kernel with runsDelSched := runs } = view kernel
  status : ∀ kernel e status,
    view (kernel.updateEnv e fun env => { env with envStatus := status }) =
      view kernel
  counted : ∀ kernel e, view (kernel.contarEjecucion e) = view kernel
  dispatched : ∀ kernel cpu e,
    view (kernel.updateEnv e fun env =>
      { env with
        envStatus := .running
        envRuns := env.envRuns + 1
        envCpunum := cpu }) = view kernel

variable {build : Build} {cpu e : Nat} {Result : Type}
variable {returned : Result → Kernel → Prop}

theorem BlindToScheduling.contarTotal (blind : BlindToScheduling view)
    (kernel : Kernel) : view kernel.contarTotal = view kernel :=
  blind.queues.mlfq kernel _

theorem BlindToScheduling.soltarCurenv (blind : BlindToScheduling view)
    (cpu : Nat) (kernel : Kernel) :
    view (soltarCurenv cpu kernel) = view kernel := by
  unfold Scheduler.soltarCurenv
  cases kernel.cpus cpu with
  | none => rfl
  | some current =>
      dsimp only
      split
      · exact blind.status kernel current .runnable
      · rfl

theorem triple_envRun_blind (blind : BlindToScheduling view)
    (property : View → Prop) :
    Triple (fun kernel => property (view kernel)) (envRun cpu e) returned
      (fun kernel => property (view kernel)) := by
  unfold envRun
  refine .bind_modify (fun kernel => property (view kernel)) ?_
    (.bind_modify (fun kernel => property (view kernel)) ?_ ?_)
  · intro kernel holds
    rw [blind.soltarCurenv]
    exact holds
  · intro kernel holds
    rw [blind.dispatched, blind.curenv]
    exact holds
  · apply Triple.bind_read
    intro pgdir
    cases pgdir with
    | none => exact .stop
    | some pgdir => exact .leave fun _ holds => holds.1

theorem triple_schedHalt_blind (blind : BlindToScheduling view)
    (property : View → Prop) :
    Triple (fun kernel => property (view kernel)) (schedHalt cpu) returned
      (fun kernel => property (view kernel)) := by
  constructor
  intro kernel holds
  unfold schedHalt
  by_cases active : kernel.hasActive = true
  · rw [if_pos active]
    dsimp only
    rw [blind.curenv]
    exact holds
  · rw [if_neg active]
    trivial

theorem triple_roundRobin_blind (blind : BlindToScheduling view)
    (property : View → Prop) :
    Triple (fun kernel => property (view kernel)) (roundRobin cpu)
      (fun _ kernel => property (view kernel))
      (fun kernel => property (view kernel)) := by
  unfold roundRobin
  apply Triple.bind_read
  intro siguiente
  cases siguiente with
  | some e =>
      refine .bind_modify (fun kernel => property (view kernel)) ?_
        (triple_envRun_blind blind property)
      intro kernel holds
      rw [blind.counted]
      exact holds.1
  | none =>
      apply Triple.bind_read
      intro curenv
      cases curenv with
      | some current =>
          refine .bind_modify (fun kernel => property (view kernel)) ?_
            (triple_envRun_blind blind property)
          intro kernel holds
          rw [blind.counted]
          exact holds.1.1
      | none => exact .pure fun _ holds => holds.1.1

theorem triple_prioridadMlfq_blind (blind : BlindToScheduling view)
    (property : View → Prop) :
    Triple (fun kernel => property (view kernel)) (prioridadMlfq cpu)
      (fun _ kernel => property (view kernel))
      (fun kernel => property (view kernel)) := by
  unfold prioridadMlfq
  apply Triple.bind_read
  intro mejor
  match mejor with
  | none => exact .stop
  | some none =>
      apply Triple.bind_read
      intro curenv
      cases curenv with
      | some current =>
          refine .bind_modify (fun kernel => property (view kernel)) ?_
            (triple_envRun_blind blind property)
          intro kernel holds
          rw [blind.counted, blind.contarTotal]
          exact holds.1.1
      | none =>
          exact (triple_schedHalt_blind blind property).strengthen _
            fun _ holds => holds.1.1
  | some (some (index, i)) =>
      apply Triple.bind_read
      intro envId
      refine .strengthen (fun kernel => property (view kernel))
        (fun _ holds => holds.1.1) ?_
      refine ((frame_onCola blind.queues _ _).triple property).bind
        fun _ => ?_
      refine ((frame_schedAgregarEnv blind.queues _ _).triple property).bind
        fun _ => ?_
      refine .bind_modify (fun kernel => property (view kernel)) ?_
        (triple_envRun_blind blind property)
      intro kernel holds
      rw [blind.counted, blind.contarTotal]
      exact holds

theorem triple_schedYield_blind (blind : BlindToScheduling view)
    (property : View → Prop) :
    Triple (fun kernel => property (view kernel)) (schedYield build cpu)
      returned (fun kernel => property (view kernel)) := by
  have elegir : Triple (fun kernel => property (view kernel))
      (elegirEntorno build cpu) (fun _ kernel => property (view kernel))
      (fun kernel => property (view kernel)) := by
    cases build with
    | roundRobin => exact triple_roundRobin_blind blind property
    | priorities =>
        have promovido : Triple (fun kernel => property (view kernel))
            promoverSiCorresponde (fun _ kernel => property (view kernel))
            (fun kernel => property (view kernel)) :=
          (frame_promoverSiCorresponde blind.queues).triple property
        exact promovido.bind fun _ => triple_prioridadMlfq_blind blind property
  unfold schedYield
  refine .bind_modify (fun kernel => property (view kernel)) ?_ ?_
  · intro kernel holds
    rw [blind.runs]
    exact holds
  · exact elegir.bind fun _ => triple_schedHalt_blind blind property

end FeaturesOS.Scheduler

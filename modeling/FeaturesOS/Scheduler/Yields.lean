import FeaturesOS.Scheduler.Priorities

/-!
# What one call of the priority scheduler does

`sched_yield` promotes when it is time, and then `prioridad_MLFQ` moves one entry
to the next queue or leaves the queues as they are.
-/

namespace FeaturesOS.Scheduler

open Entry

/-! ## Promoting -/

/-- The kernel in which `sched_yield` calls `prioridad_MLFQ`. -/
def Kernel.choosing (entered : Kernel) : Option Kernel :=
  (promoverSiCorresponde
    { entered with runsDelSched := entered.runsDelSched + 1 }).finalState

/-- A promotion is due. -/
def Kernel.Due (kernel : Kernel) : Prop :=
  kernel.mlfq.ejecucionesTotales ≥ maxEjecucionesMlfq

instance (kernel : Kernel) : Decidable kernel.Due :=
  inferInstanceAs (Decidable (_ ≥ _))

theorem ledger_of_choosing {entered chosen : Kernel}
    (ordenada : ∀ q, (entered.mlfq.colas q).Ordenada)
    (chooses : entered.choosing = some chosen) :
    chosen.ledger =
      if entered.Due then entered.ledger.promover else entered.ledger := by
  have promotes : Triple
      (fun kernel => (∀ q, (kernel.mlfq.colas q).Ordenada) ∧
        kernel.ledger = entered.ledger ∧
        kernel.mlfq.ejecucionesTotales = entered.mlfq.ejecucionesTotales)
      promoverSiCorresponde
      (fun _ kernel => kernel.ledger =
        if entered.Due then entered.ledger.promover else entered.ledger)
      (fun kernel => kernel.ledger =
        if entered.Due then entered.ledger.promover else entered.ledger) := by
    unfold promoverSiCorresponde
    refine .bind_read fun totales => ?_
    refine .ite (fun enough => ?_) fun few => ?_
    · refine .strengthen _ ?_
        ((triple_promoverColas (fun ledger => ledger =
          if entered.Due then entered.ledger.promover else entered.ledger)).bind
          fun _ => .modify fun _ same => same)
      rintro kernel ⟨⟨ordenada, same, isTotales⟩, rfl⟩
      have due : entered.Due := by
        unfold Kernel.Due
        rwa [← isTotales]
      refine ⟨ordenada, ?_⟩
      rw [if_pos due, same]
    · refine .pure ?_
      rintro kernel ⟨⟨-, same, isTotales⟩, rfl⟩
      have notDue : ¬ entered.Due := by
        unfold Kernel.Due
        rwa [← isTotales]
      rw [if_neg notDue, same]
  refine promotes.final ?_ chooses
  exact ⟨ordenada, rfl, rfl⟩

/-! ## Picking -/

/-- The entry that `prioridad_MLFQ` picks: its queue and its counter. -/
def Kernel.picks (kernel : Kernel) : Option (Fin 4 × Nat) :=
  (kernel.colaMejorPrioridad [0, 1, 2, 3]).bind id

/-- The queues behind `prioridad_MLFQ`: the picked entry has left its queue and
stands at the end of the next one. -/
def Kernel.Moved (kernel : Kernel) (colas : Fin 4 → MlfqCola) : Prop :=
  match kernel.picks with
  | none => colas = kernel.mlfq.colas
  | some (q, i) => ∃ removed,
      (kernel.mlfq.colas q).borrar (i % nenv) = some removed ∧
      colas = ((kernel.ledger.setCola q removed).agregar (kernel.entrada q i)
        (siguienteCola q)).colas

/-- `prioridad_MLFQ` does not return. -/
theorem triple_prioridadMlfq_moved (cpu : Nat) (chosen : Kernel) :
    Triple (fun kernel => kernel = chosen) (prioridadMlfq cpu)
      (fun _ _ => False) (fun next => chosen.Moved next.mlfq.colas) := by
  have runs : ∀ e colas, chosen.Moved colas →
      Triple (fun kernel : Kernel => kernel.mlfq.colas = colas)
        (envRun cpu e : KernelM Unit) (fun _ _ => False)
        (fun next => chosen.Moved next.mlfq.colas) := by
    intro e colas moved
    have placed : Triple _ (envRun cpu e : KernelM Unit) (fun _ _ => False) _ :=
      triple_envRun_places (fun ledger => ledger.colas = colas) cpu e
    refine placed.weaken (fun _ => id) (fun _ _ => id) ?_
    intro kernel same
    have sameColas : kernel.mlfq.colas = colas := same
    rwa [sameColas]
  unfold prioridadMlfq
  refine .bind_read fun mejor => ?_
  by_cases best : chosen.colaMejorPrioridad [0, 1, 2, 3] = mejor
  · match mejor with
    | none => exact .stop
    | some none =>
        have stays : chosen.Moved chosen.mlfq.colas := by
          unfold Kernel.Moved Kernel.picks
          rw [best]
          rfl
        refine .bind_read fun curenv => ?_
        cases curenv with
        | some current =>
            refine .bind_modify
              (fun kernel => kernel.mlfq.colas = chosen.mlfq.colas) ?_
              (runs current _ stays)
            rintro kernel ⟨⟨rfl, -⟩, -⟩
            rfl
        | none =>
            have placed : Triple _ (schedHalt cpu : KernelM Unit)
                (fun _ _ => False) _ := triple_schedHalt_places
              (fun ledger => ledger.colas = chosen.mlfq.colas) cpu
            refine placed.weaken ?_ (fun _ _ => id) ?_
            · rintro kernel ⟨⟨rfl, -⟩, -⟩
              rfl
            · intro kernel same
              have sameColas : kernel.mlfq.colas = chosen.mlfq.colas := same
              rwa [sameColas]
    | some (some (q, i)) =>
        refine .bind_read fun entry => ?_
        dsimp only
        rw [siguienteCola_val]
        refine .strengthen _ ?_
          ((triple_borrar (fun ledger => chosen.Moved
              (ledger.agregar entry (siguienteCola q)).colas) q
              (i % nenv)).bind
            fun _ => (triple_schedAgregarEnv (fun ledger =>
              chosen.Moved ledger.colas) entry (siguienteCola q)).bind
              fun _ => ?_)
        · rintro kernel ⟨⟨rfl, -⟩, isEntry⟩ next removed
          unfold Kernel.Moved Kernel.picks
          rw [best]
          refine ⟨next, removed, ?_⟩
          rw [← isEntry]
          rfl
        · refine ⟨?_⟩
          intro kernel moved
          have counted := (runs (envx entry) _ moved).run
            (kernel.contarTotal.contarEjecucion (envx entry)) rfl
          exact counted
  · refine ⟨?_⟩
    rintro kernel ⟨rfl, isBest⟩
    exact absurd isBest best

/-- `sched_yield` leaves the kernel in `prioridad_MLFQ`. -/
theorem chosen_of_yield {entered next : Kernel} {cpu : Nat}
    (ends : (schedYield .priorities cpu entered :
      Outcome Kernel Unit).finalState = some next) :
    ∃ chosen, entered.choosing = some chosen ∧
      prioridadMlfq cpu chosen = .leaves next := by
  rw [schedYield_eq, bind_run] at ends
  unfold Kernel.choosing
  cases outcome : promoverSiCorresponde
      { entered with runsDelSched := entered.runsDelSched + 1 } with
  | returns result chosen =>
      rw [outcome] at ends
      refine ⟨chosen, rfl, ?_⟩
      dsimp only at ends
      unfold trasPromocion at ends
      rw [bind_run] at ends
      have moved := (triple_prioridadMlfq_moved cpu chosen).run chosen rfl
      cases chosenOutcome : prioridadMlfq cpu chosen with
      | returns result final =>
          rw [chosenOutcome] at moved
          exact moved.elim
      | leaves final =>
          rw [chosenOutcome] at ends
          cases ends
          rfl
      | stops =>
          rw [chosenOutcome] at ends
          cases ends
  | leaves final =>
      have framed := (frame_promoverSiCorresponde blindToQueues_statuses).run
        { entered with runsDelSched := entered.runsDelSched + 1 }
      rw [outcome] at framed
      exact framed.elim
  | stops =>
      rw [outcome] at ends
      cases ends

/-- What `sched_yield` does to the queues. -/
theorem moved_of_yield {entered next : Kernel} {cpu : Nat}
    (ends : (schedYield .priorities cpu entered :
      Outcome Kernel Unit).finalState = some next) :
    ∃ chosen, entered.choosing = some chosen ∧
      chosen.Moved next.mlfq.colas := by
  obtain ⟨chosen, chooses, left⟩ := chosen_of_yield ends
  have moved := (triple_prioridadMlfq_moved cpu chosen).run chosen rfl
  rw [left] at moved
  exact ⟨chosen, chooses, moved⟩

end FeaturesOS.Scheduler

import FeaturesOS.Scheduler.Yields

/-!
# What the priority scheduler chooses

`prioridad_MLFQ` looks at the runnable environments only.  Among them it takes
one of the first queue, as long as no environment is lost and no entry stands in
another queue than its environment.  A current environment that is still running
keeps its processor only when no environment is runnable.
-/

namespace FeaturesOS.Scheduler

open Entry

/-- No step takes a slot for which a queue has an entry, and what a step appends
to a queue finds room there. -/
def KeepsQueues (kernel : Kernel) (event : Nat × SchedOp) : Prop :=
  TakesUnused kernel event ∧ event.2.Fits kernel event.1

/-- The queues cover the environments, and every entry stands in the queue of its
environment. -/
structure Kernel.Arranged (kernel : Kernel) : Prop where
  kept : Kept False True kernel
  homed : kernel.ledger.Homed none

theorem arranged_of_reachable {kernel : Kernel}
    (reachable : schedMachine.Reachable KeepsQueues kernel) :
    kernel.Arranged := by
  refine ⟨?_, homed_of_reachable (reachable.weaken fun _ _ keeps => keeps.1)⟩
  have initially : ∀ kernel, schedMachine.Initial kernel →
      Kept False True kernel := by
    rintro kernel ⟨mem, kernPgdir, pool, -, rfl⟩
    exact kept_initial mem kernPgdir
  exact reachable.invariant initially fun _ _ _ kept keeps step =>
    kept_of_step kept False.elim (fun _ => keeps.2) step

theorem arranged_of_choosing {kernel entered chosen : Kernel}
    {event : Nat × SchedOp} (arranged : kernel.Arranged)
    (keeps : KeepsQueues kernel event)
    (yields : event.2.yieldsIn kernel event.1 = some entered)
    (chooses : entered.choosing = some chosen) : chosen.Arranged := by
  obtain ⟨kept, fits⟩ :=
    kept_of_yieldsIn arranged.kept (fun _ => keeps.2) yields
  have ranked : RankedAt 0 0 0 kernel := by
    refine rankedAt_ledger.mpr ⟨arranged.homed, fun _ => ?_⟩
    obtain ⟨q, home⟩ := arranged.kept.sound.colaActual 0
    omega
  have promoted : Triple _ promoverSiCorresponde
      (fun _ kernel => Kept False True kernel ∧ RankedAt 0 0 0 kernel)
      (fun kernel => Kept False True kernel ∧ RankedAt 0 0 0 kernel) :=
    ((triple_promoverSiCorresponde False True).and
      (triple_promoverSiCorresponde_ranked 0 0 0)).weaken (fun _ => id)
      (fun _ _ holds => ⟨holds.1.1, holds.2⟩) fun _ holds => holds
  have rankedEntered : RankedAt 0 0 0 entered :=
    ranked_of_yieldsIn ranked yields
  have ends : Kept False True chosen ∧ RankedAt 0 0 0 chosen := by
    refine promoted.final ?_ chooses
    exact ⟨⟨kept, fits⟩, kept.sound.ordenada, rankedEntered,
      .inl (Int.le_refl 0)⟩
  exact ⟨ends.1, (rankedAt_ledger.mp ends.2).homed⟩

/-- The queue in which a runnable environment is found is the first with one. -/
theorem colaMejorPrioridad_first {kernel : Kernel}
    (ordenada : ∀ q, (kernel.mlfq.colas q).Ordenada) {indices : List (Fin 4)}
    (sorted : indices.Pairwise fun p q => p.val < q.val) {p q : Fin 4} {i j : Nat}
    (found : kernel.colaMejorPrioridad indices = some (some (q, i)))
    (member : p ∈ indices) (isCounter : j ∈ (kernel.mlfq.colas p).ring.counters)
    (runnable : kernel.Runnable (envx (kernel.entrada p j))) :
    q.val ≤ p.val := by
  induction indices with
  | nil => cases member
  | cons first rest induction =>
      obtain ⟨below, tail⟩ := List.pairwise_cons.mp sorted
      have visited := MlfqCola.recorrido_eq (ordenada first)
      rw [Kernel.colaMejorPrioridad] at found
      unfold Kernel.primeroEjecutable at found
      rw [visited, Option.map_some] at found
      cases best : (kernel.mlfq.colas first).ring.counters.find? fun i =>
          decide (kernel.Runnable
            (envx ((kernel.mlfq.colas first).entrada i))) with
      | some k =>
          rw [best] at found
          cases found
          rcases List.mem_cons.mp member with here | there
          · exact Nat.le_of_eq (congrArg Fin.val here.symm)
          · exact Nat.le_of_lt (below p there)
      | none =>
          rw [best] at found
          refine induction tail found ?_
          rcases List.mem_cons.mp member with here | there
          · subst here
            have absent := List.find?_eq_none.mp best j isCounter
            exact absurd (decide_eq_true runnable) absent
          · exact there

/-- What `prioridad_MLFQ` may dispatch on a processor. -/
def Kernel.Selects (kernel : Kernel) (cpu e : Nat) : Prop :=
  (kernel.Runnable e ∧ ∀ f, kernel.Runnable f →
    (kernel.envs e).colaActual ≤ (kernel.envs f).colaActual) ∨
  (kernel.curenvRunning cpu = some e ∧ ∀ f, ¬ kernel.Runnable f)

theorem selects_of_found {kernel : Kernel} (arranged : kernel.Arranged)
    (cpu : Nat) {q : Fin 4} {i : Nat}
    (found : kernel.colaMejorPrioridad [0, 1, 2, 3] = some (some (q, i))) :
    kernel.Selects cpu (envx (kernel.entrada q i)) := by
  have ordenada := arranged.kept.sound.ordenada
  obtain ⟨-, -, -, runnable⟩ := kernel.colaMejorPrioridad_found found
  refine .inl ⟨runnable, ?_⟩
  intro f other
  have isCounter := mem_counters_of_found arranged.kept found
  obtain ⟨-, home, -⟩ := arranged.homed.entry q _
    (List.mem_map_of_mem isCounter)
  have alive : kernel.ledger.status f ≠ .free := by
    rw [show kernel.ledger.status f = .runnable from other]
    decide
  obtain ⟨p, envId, member, slot⟩ := (arranged.kept.covered trivial).entry f
    (arranged.kept.sound.live f alive) (by simp)
  obtain ⟨-, otherHome, -⟩ := arranged.homed.entry p envId member
  obtain ⟨j, isOther, same⟩ := List.mem_map.mp member
  have first : q.val ≤ p.val := by
    refine colaMejorPrioridad_first ordenada (by decide) found ?_ isOther ?_
    · match p with
      | 0 => decide
      | 1 => decide
      | 2 => decide
      | 3 => decide
    · have entry : kernel.entrada p j = envId := same
      rw [entry, slot]
      exact other
  rw [slot] at otherHome
  have chosen : (kernel.envs (envx (kernel.entrada q i))).colaActual = q.val :=
    home
  have later : (kernel.envs f).colaActual = p.val := otherHome
  rw [chosen, later]
  exact Int.ofNat_le.mpr first

theorem triple_envRun_current (cpu e : Nat) {Result : Type}
    {before : Kernel → Prop} {returned : Result → Kernel → Prop} :
    Triple before (envRun cpu e) returned
      (fun kernel => kernel.cpus cpu = some e) := by
  unfold envRun
  refine .bind_modify (fun _ => True) (fun _ _ => trivial) ?_
  refine .bind_modify (fun kernel => kernel.cpus cpu = some e) ?_ ?_
  · intro kernel _
    simp [Kernel.setCurenv, Kernel.updateEnv, Kernel.setEnv]
  · refine .bind_read fun pgdir => ?_
    cases pgdir with
    | none => exact .stop
    | some pgdir => exact .leave fun _ holds => holds.1

theorem triple_schedHalt_current (cpu : Nat) {Result : Type}
    {before : Kernel → Prop} {returned : Result → Kernel → Prop} :
    Triple before (schedHalt cpu) returned
      (fun kernel => kernel.cpus cpu = none) := by
  constructor
  intro kernel _
  unfold schedHalt
  by_cases active : kernel.hasActive = true
  · rw [if_pos active]
    simp [Kernel.setCurenv]
  · rw [if_neg active]
    trivial

/-- Whatever the processor runs behind `prioridad_MLFQ` may be dispatched. -/
theorem triple_prioridadMlfq_selects {chosen : Kernel}
    (arranged : chosen.Arranged) (cpu : Nat) :
    Triple (fun kernel => kernel = chosen) (prioridadMlfq cpu)
      (fun _ _ => False)
      (fun kernel => ∀ e, kernel.cpus cpu = some e →
        chosen.Selects cpu e) := by
  have runs : ∀ e, chosen.Selects cpu e → ∀ before : Kernel → Prop,
      Triple before (envRun cpu e : KernelM Unit) (fun _ _ => False)
        (fun kernel => ∀ e, kernel.cpus cpu = some e →
          chosen.Selects cpu e) := by
    intro e selects before
    have left : Triple before (envRun cpu e : KernelM Unit) (fun _ _ => False)
        _ := triple_envRun_current cpu e
    refine left.weaken (fun _ => id) (fun _ _ => id) ?_
    intro kernel current f isCurrent
    rw [current] at isCurrent
    cases isCurrent
    exact selects
  unfold prioridadMlfq
  refine .bind_read fun mejor => ?_
  by_cases best : chosen.colaMejorPrioridad [0, 1, 2, 3] = mejor
  · match mejor with
    | none => exact .stop
    | some none =>
        have nobody : ∀ f, ¬ chosen.Runnable f := by
          intro f runnable
          obtain ⟨q, i, found⟩ :=
            colaMejorPrioridad_of_runnable arranged.kept runnable
          rw [found] at best
          cases best
        refine .bind_read fun curenv => ?_
        cases curenv with
        | some current =>
            by_cases running : chosen.curenvRunning cpu = some current
            · exact .bind_modify (fun _ => True) (fun _ _ => trivial)
                (runs current (.inr ⟨running, nobody⟩) _)
            · refine ⟨?_⟩
              rintro kernel ⟨⟨rfl, -⟩, isCurrent⟩
              exact absurd isCurrent running
        | none =>
            have left : Triple (fun _ => True) (schedHalt cpu : KernelM Unit)
                (fun _ _ => False) _ := triple_schedHalt_current cpu
            refine left.weaken (fun _ _ => trivial) (fun _ _ => id) ?_
            intro kernel halted e isCurrent
            rw [halted] at isCurrent
            cases isCurrent
    | some (some (q, i)) =>
        refine .bind_read fun entry => ?_
        by_cases same : chosen.entrada q i = entry
        · have selects := selects_of_found arranged cpu best
          rw [same] at selects
          -- What the queue functions do does not matter any more.
          have taken := frame_onCola blindToQueues_statuses q fun cola =>
            cola.borrar (i % nenv)
          have moved := frame_schedAgregarEnv blindToQueues_statuses entry
            (if q.val ≥ 3 then 3 else q.val + 1)
          refine .strengthen (fun _ => True) (fun _ _ => trivial)
            ((taken.triple fun _ => True).bind fun _ =>
              (moved.triple fun _ => True).bind fun _ => ?_)
          exact .bind_modify (fun _ => True) (fun _ _ => trivial)
            (runs (envx entry) selects _)
        · refine ⟨?_⟩
          rintro kernel ⟨⟨rfl, -⟩, isEntry⟩
          exact absurd isEntry same
  · refine ⟨?_⟩
    rintro kernel ⟨rfl, isBest⟩
    exact absurd isBest best

/-- Behind `sched_yield` the processor runs a runnable environment of the first
queue that any runnable environment has, or the environment that was still
running there when no environment was runnable. -/
theorem selects_of_keepsQueues {kernel entered chosen next : Kernel}
    {event : Nat × SchedOp}
    (reachable : schedMachine.Reachable KeepsQueues kernel)
    (keeps : KeepsQueues kernel event)
    (step : schedMachine.Step kernel event next)
    (yields : event.2.yieldsIn kernel event.1 = some entered)
    (chooses : entered.choosing = some chosen) {e : Nat}
    (dispatched : next.cpus event.1 = some e) :
    chosen.Selects event.1 e := by
  have arranged := arranged_of_choosing (arranged_of_reachable reachable) keeps
    yields chooses
  obtain ⟨-, ends⟩ := step
  rw [entry_of_yieldsIn yields] at ends
  obtain ⟨other, otherChooses, left⟩ := chosen_of_yield ends
  rw [chooses] at otherChooses
  cases otherChooses
  have selects := (triple_prioridadMlfq_selects arranged event.1).run chosen rfl
  rw [left] at selects
  exact selects e dispatched

/-- Of two runnable children the second one has been moved to the last queue. -/
def twoQueues : List (Nat × SchedOp) :=
  [(0, .envAlloc 0), (0, .yield), (0, .exofork), (0, .exofork),
    (0, .asignarPrioridad 4097 3), (0, .setStatus 4097 2),
    (0, .setStatus 4098 2)]

/-- The processor 1 takes the child of the earlier queue, which has been created
later. -/
theorem selects_after_twoQueues :
    let kernel := twoQueues.foldl SchedOp.after noEnv
    ∃ chosen, kernel.choosing = some chosen ∧ chosen.Selects 1 2 := by
  have along : Machine.Along
      (fun kernel event => SchedOp.GoesRoomily kernel event ∧
        event.2.TakesUnusedSlot kernel)
      SchedOp.after noEnv twoQueues := by
    decide +kernel
  have reachable : schedMachine.Reachable KeepsQueues
      (twoQueues.foldl SchedOp.after noEnv) :=
    reachable_of_ops (fun _ _ checked => checked.1.1)
      (fun _ _ checked => ⟨checked.2, checked.1.fits⟩) along
  have goes : SchedOp.GoesRoomily (twoQueues.foldl SchedOp.after noEnv)
      (1, .yield) := by
    decide +kernel
  obtain ⟨chosen, chooses⟩ : ∃ chosen,
      (twoQueues.foldl SchedOp.after noEnv).choosing = some chosen :=
    Option.isSome_iff_exists.mp (by decide +kernel)
  have keeps : KeepsQueues (twoQueues.foldl SchedOp.after noEnv) (1, .yield) :=
    ⟨trivial, goes.fits⟩
  exact ⟨chosen, chooses, selects_of_keepsQueues reachable keeps goes.1.step rfl
    chooses (by decide +kernel)⟩

/-- An environment of the second queue has moved its child to the last one and
made it runnable. -/
def demoted : List (Nat × SchedOp) :=
  [(0, .envAlloc 0), (0, .yield), (0, .exofork), (0, .asignarPrioridad 4097 3),
    (0, .setStatus 4097 2)]

/-- The parent, which is still running, loses its processor to the child. -/
theorem not_selects_smallest_after_yield :
    ¬ ∀ kernel entered chosen next event e,
      schedMachine.Reachable (fun _ event => event.1 = 0) kernel →
      event.1 = 0 →
      schedMachine.Step kernel event next →
      event.2.yieldsIn kernel event.1 = some entered →
      entered.choosing = some chosen → next.cpus event.1 = some e →
      ∀ f, chosen.Runnable f ∨ chosen.curenvRunning event.1 = some f →
        (chosen.envs e).colaActual ≤ (chosen.envs f).colaActual := by
  intro smallest
  have along : Machine.Along
      (fun kernel event => SchedOp.Goes kernel event ∧ event.1 = 0)
      SchedOp.after noEnv demoted := by
    decide +kernel
  have reachable : schedMachine.Reachable (fun _ event => event.1 = 0)
      (demoted.foldl SchedOp.after noEnv) :=
    reachable_of_ops (fun _ _ checked => checked.1)
      (fun _ _ checked => checked.2) along
  have goes : SchedOp.Goes (demoted.foldl SchedOp.after noEnv) (0, .yield) := by
    decide +kernel
  obtain ⟨chosen, chooses⟩ : ∃ chosen,
      (demoted.foldl SchedOp.after noEnv).choosing = some chosen :=
    Option.isSome_iff_exists.mp (by decide +kernel)
  have facts : ((demoted.foldl SchedOp.after noEnv).choosing.map fun kernel =>
      (kernel.curenvRunning 0, (kernel.envs 0).colaActual,
        (kernel.envs 1).colaActual)) = some (some 0, 1, 3) := by
    decide +kernel
  rw [chooses, Option.map_some] at facts
  obtain ⟨running, parent, child⟩ :=
    Prod.mk.inj (Option.some.inj facts) |>.imp_right Prod.mk.inj
  have less := smallest _ _ chosen _ _ 1 reachable rfl goes.step rfl chooses
    (by decide +kernel) 0 (.inr running)
  omega

end FeaturesOS.Scheduler

import FeaturesOS.Scheduler.ColaRuns

/-!
# Overtaking in the first queue

While the entry of a runnable environment stands in `cola_a`, only entries ahead
of it are picked, and a picked entry comes back behind it.  Removing an entry
from the middle moves the first entry into its place, which is ahead as well, so
the entries ahead only become fewer.
-/

namespace FeaturesOS.Scheduler

open Entry

/-- The entry `envId` stands in `cola_a`, and its environment is runnable. -/
def Kernel.Waits (kernel : Kernel) (envId : UInt32) : Prop :=
  (∃ i, kernel.Visible 0 i ∧ kernel.entrada 0 i = envId) ∧
    kernel.Runnable (envx envId)

/-- The entry that an event picks. -/
def ColaEvent.picked (kernel : Kernel) : ColaEvent → Option UInt32
  | yield _ => kernel.choosing.bind fun chosen =>
      chosen.picks.map fun (q, i) => chosen.entrada q i
  | alloc _ _ | status _ _ => none

/-- In a run `envId` waits from some moment on until `kernel` and is not picked;
the entries in `picked` are. -/
inductive Waiting (envId : UInt32) : List UInt32 → Kernel → Prop where
  | start {kernel : Kernel} :
      colaMachine.Reachable Machine.Unrestricted kernel →
      kernel.Waits envId →
      Waiting envId [] kernel
  | step {picked : List UInt32} {kernel next : Kernel} {event : ColaEvent} :
      Waiting envId picked kernel →
      colaMachine.Step kernel event next →
      event.picked kernel ≠ some envId →
      next.Waits envId →
      Waiting envId (picked ++ (event.picked kernel).toList) next

variable {covered : Prop} {kernel chosen next : Kernel} {envId : UInt32}
variable {picked : List UInt32}

theorem Waiting.reachable (waiting : Waiting envId picked kernel) :
    colaMachine.Reachable Machine.Unrestricted kernel := by
  induction waiting with
  | start reachable _ => exact reachable
  | step _ step _ _ induction => exact induction.step trivial step

theorem Waiting.waits (waiting : Waiting envId picked kernel) :
    kernel.Waits envId := by
  cases waiting with
  | start _ waits => exact waits
  | step _ _ _ waits => exact waits

/-! ## The picked entry -/

theorem isCounter_of_visible {q : Fin 4} {i : Nat}
    (ordenada : (kernel.mlfq.colas q).Ordenada) (visible : kernel.Visible q i) :
    i ∈ (kernel.mlfq.colas q).ring.counters :=
  (MlfqCola.mem_counters ordenada).mpr visible

/-- The picked entry of `cola_a` is not behind a runnable one. -/
theorem picks_of_runnable {j : Nat}
    (ordenada : (kernel.mlfq.colas 0).Ordenada)
    (isCounter : j ∈ (kernel.mlfq.colas 0).ring.counters)
    (runnable : kernel.Runnable (envx (kernel.entrada 0 j))) :
    ∃ i, kernel.picks = some (0, i) ∧
      i ∈ (kernel.mlfq.colas 0).ring.counters ∧ i ≤ j := by
  have visited := MlfqCola.recorrido_eq ordenada
  unfold Kernel.picks
  rw [Kernel.colaMejorPrioridad]
  unfold Kernel.primeroEjecutable
  rw [visited, Option.map_some]
  cases first : (kernel.mlfq.colas 0).ring.counters.find? fun i =>
      decide (kernel.Runnable (envx ((kernel.mlfq.colas 0).entrada i))) with
  | none =>
      have absent := List.find?_eq_none.mp first j isCounter
      exact absurd (decide_eq_true runnable) absent
  | some i =>
      refine ⟨i, rfl, List.mem_of_find?_eq_some first, ?_⟩
      obtain ⟨-, -, before⟩ := List.find?_range'_eq_some.mp first
      by_contra behind
      have low := (Ring.mem_counters.mp isCounter).1
      have passed := before j low (by omega)
      have holds : decide (kernel.Runnable
          (envx ((kernel.mlfq.colas 0).entrada j))) = true :=
        decide_eq_true runnable
      rw [holds] at passed
      cases passed

theorem picks_of_empty (kept : Kept True covered kernel)
    (empty : ∀ q, (kernel.mlfq.colas q).contenido = []) :
    kernel.picks = none := by
  unfold Kernel.picks
  cases best : kernel.colaMejorPrioridad [0, 1, 2, 3] with
  | none => rfl
  | some found =>
      cases found with
      | none => rfl
      | some found =>
          obtain ⟨q, i⟩ := found
          have isCounter := mem_counters_of_found kept best
          have member : (kernel.mlfq.colas q).ring.entry nenv i ∈
              (kernel.mlfq.colas q).contenido :=
            List.mem_map_of_mem isCounter
          rw [empty q] at member
          cases member

/-! ## The entries ahead -/

/-- The entries ahead of `envId` in `cola_a` have not been picked. -/
structure Ahead (envId : UInt32) (picked : List UInt32) (kernel : Kernel) :
    Prop where
  order : ∃ front back,
    (kernel.mlfq.colas 0).contenido = front ++ envId :: back ∧
      ∀ entry ∈ picked, entry ∉ front
  nodup : picked.Nodup
  absent : envId ∉ picked

theorem Waits.mem (kept : Kept True covered kernel)
    (waits : kernel.Waits envId) :
    envId ∈ (kernel.mlfq.colas 0).contenido := by
  obtain ⟨⟨i, visible, rfl⟩, -⟩ := waits
  exact List.mem_map_of_mem
    (isCounter_of_visible (kept.sound.ordenada 0) visible)

theorem ahead_start (kept : Kept True covered kernel)
    (waits : kernel.Waits envId) : Ahead envId [] kernel := by
  obtain ⟨front, back, split⟩ := List.append_of_mem (Waits.mem kept waits)
  refine ⟨⟨front, back, split, ?_⟩, List.nodup_nil, ?_⟩
  · intro entry member
    cases member
  · intro member
    cases member

/-- Entries may be appended to `cola_a`. -/
theorem Ahead.extend (ahead : Ahead envId picked kernel) (more : List UInt32)
    (appended : (next.mlfq.colas 0).contenido =
      (kernel.mlfq.colas 0).contenido ++ more) :
    Ahead envId picked next := by
  obtain ⟨⟨front, back, split, fresh⟩, nodup, absent⟩ := ahead
  refine ⟨⟨front, back ++ more, ?_, fresh⟩, nodup, absent⟩
  rw [appended, split, List.append_assoc, List.cons_append]

/-- The picked entry is new, and when it is another one than `envId` it leaves the
entries ahead. -/
theorem Ahead.pick (kept : Kept True covered chosen)
    (ahead : Ahead envId picked chosen)
    (runnable : chosen.Runnable (envx envId)) :
    ∃ i, chosen.picks = some (0, i) ∧
      (picked ++ [chosen.entrada 0 i]).Nodup ∧
      (chosen.entrada 0 i ≠ envId → chosen.Moved next.mlfq.colas →
        Ahead envId (picked ++ [chosen.entrada 0 i]) next) := by
  obtain ⟨⟨front, back, split, fresh⟩, nodup, absent⟩ := ahead
  have ordenada : (chosen.mlfq.colas 0).Ordenada := kept.sound.ordenada 0
  have isClean := kept.clean trivial
  have length : (chosen.mlfq.colas 0).contenido.length =
      (chosen.mlfq.colas 0).ring.last - (chosen.mlfq.colas 0).ring.first :=
    Ring.length_contents
  have inside : front.length < (chosen.mlfq.colas 0).contenido.length := by
    rw [split, List.length_append, List.length_cons]
    omega
  have isCounter : (chosen.mlfq.colas 0).ring.first + front.length ∈
      (chosen.mlfq.colas 0).ring.counters :=
    Ring.mem_counters.mpr ⟨by omega, by omega⟩
  have isEntry : chosen.entrada 0
      ((chosen.mlfq.colas 0).ring.first + front.length) = envId := by
    obtain ⟨below, here⟩ := MlfqCola.getElem_contenido isCounter
    simp only [split, Nat.add_sub_cancel_left, List.getElem_append_right
      (Nat.le_refl _), Nat.sub_self, List.getElem_cons_zero] at here
    exact here.symm
  obtain ⟨i, picks, isPicked, notBehind⟩ :=
    picks_of_runnable ordenada isCounter (by rwa [isEntry])
  obtain ⟨below, here⟩ := MlfqCola.getElem_contenido isPicked
  have entryHere : chosen.entrada 0 i =
      (chosen.mlfq.colas 0).contenido[i - (chosen.mlfq.colas 0).ring.first] :=
    here.symm
  have low := (Ring.mem_counters.mp isPicked).1
  refine ⟨i, picks, ?_⟩
  by_cases own : i = (chosen.mlfq.colas 0).ring.first + front.length
  · rw [own, isEntry]
    refine ⟨?_, fun other => absurd rfl other⟩
    refine List.nodup_append.mpr ⟨nodup, List.nodup_singleton _, ?_⟩
    rintro entry member other isOther rfl
    rw [List.mem_singleton.mp isOther] at member
    exact absent member
  · have earlier : i - (chosen.mlfq.colas 0).ring.first < front.length := by
      omega
    have inFront : chosen.entrada 0 i =
        front[i - (chosen.mlfq.colas 0).ring.first] := by
      rw [entryHere]
      simp only [split, List.getElem_append_left earlier]
    have wholeNodup := isClean.nodup 0
    change (chosen.mlfq.colas 0).contenido.Nodup at wholeNodup
    rw [split] at wholeNodup
    have frontNodup := (List.nodup_append.mp wholeNodup).1
    have perm := Ring.moveHead_perm earlier
    rw [← inFront] at perm
    have isNew : chosen.entrada 0 i ∉ picked := by
      intro member
      refine fresh _ member ?_
      rw [inFront]
      exact List.getElem_mem earlier
    have longer : (picked ++ [chosen.entrada 0 i]).Nodup := by
      refine List.nodup_append.mpr ⟨nodup, List.nodup_singleton _, ?_⟩
      rintro entry member other isOther rfl
      rw [List.mem_singleton.mp isOther] at member
      exact isNew member
    refine ⟨longer, fun different moved => ⟨?_, longer, ?_⟩⟩
    · unfold Kernel.Moved at moved
      rw [picks] at moved
      obtain ⟨removed, borrado, same⟩ := moved
      have first : next.mlfq.colas 0 = removed := by
        rw [same]
        simp [Ledger.agregar, Ledger.setCola, Ledger.setColaActual,
          siguienteCola]
      have shorter := MlfqCola.contenido_borrar ordenada isPicked
        isClean.homed.length_le borrado
      rw [split, Ring.moveHead_append earlier] at shorter
      refine ⟨_, back, by rw [first, shorter], ?_⟩
      intro entry member ahead
      rcases List.mem_append.mp member with old | new
      · exact fresh entry old
          (perm.mem_iff.mp (List.mem_cons_of_mem _ ahead))
      · rw [List.mem_singleton.mp new] at ahead
        exact (List.nodup_cons.mp (perm.nodup_iff.mpr frontNodup)).1 ahead
    · intro member
      rcases List.mem_append.mp member with old | new
      · exact absent old
      · exact different (List.mem_singleton.mp new).symm

/-! ## Steps -/

/-- The kernel in which the entry is picked: either `cola_a` has only grown, or
its `ultimo` has overflowed in a promotion and nothing is picked. -/
theorem ahead_of_choosing (kept : Kept True False kernel)
    (ahead : Ahead envId picked kernel)
    (chooses : kernel.choosing = some chosen) :
    Kept True False chosen ∧
      (Ahead envId picked chosen ∨
        ∀ q, (chosen.mlfq.colas q).contenido = []) := by
  have ordenada : ∀ q, (kernel.mlfq.colas q).Ordenada := kept.sound.ordenada
  have same := ledger_of_choosing ordenada chooses
  have keptChosen : Kept True False chosen := by
    unfold Kept
    rw [same]
    split
    · exact kept.promover False.elim
    · exact kept
  refine ⟨keptChosen, ?_⟩
  by_cases due : kernel.Due
  · rw [if_pos due] at same
    have colas : ∀ q, chosen.mlfq.colas q = kernel.ledger.promover.colas q := by
      intro q
      rw [← same]
      rfl
    have first : chosen.mlfq.colas 0 =
        (kernel.mlfq.colas 0).agregarTodos kernel.ledger.promovidas := colas 0
    have room := (kept.clean trivial).homed.all_length
    rcases MlfqCola.agregarTodos_cases (ordenada 0) room with appended | wraps
    · left
      refine ahead.extend kernel.ledger.promovidas ?_
      rw [first, appended]
    · right
      intro q
      by_cases isFirst : q = 0
      · rw [isFirst, first]
        exact MlfqCola.contenido_of_negative wraps
      · rw [colas q]
        simp only [Ledger.promover, if_neg isFirst]
        exact MlfqCola.contenido_vaciada
  · rw [if_neg due] at same
    left
    have unchanged : (chosen.mlfq.colas 0).contenido =
        (kernel.mlfq.colas 0).contenido ++ [] := by
      rw [List.append_nil]
      change (chosen.ledger.colas 0).contenido = _
      rw [same]
      rfl
    exact ahead.extend [] unchanged

theorem runnable_of_choosing (kept : Kept True False kernel)
    (chooses : kernel.choosing = some chosen) {e : Nat}
    (runnable : kernel.Runnable e) : chosen.Runnable e := by
  have same := congrArg Ledger.status
    (ledger_of_choosing kept.sound.ordenada chooses)
  have status : chosen.ledger.status = kernel.ledger.status := by
    rw [same]
    split <;> rfl
  exact (congrFun status e).trans runnable

/-- What an event does while `envId` waits: the picked entry is new, and as long as
`envId` waits the picked entries are not ahead of it. -/
theorem ahead_of_step {event : ColaEvent} (kept : Kept True False kernel)
    (waits : kernel.Waits envId) (ahead : Ahead envId picked kernel)
    (step : colaMachine.Step kernel event next) :
    (picked ++ (event.picked kernel).toList).Nodup ∧
      (event.picked kernel ≠ some envId → next.Waits envId →
        Ahead envId (picked ++ (event.picked kernel).toList) next) := by
  have keptNext : Kept True False next := kept_of_colaStep kept False.elim step
  obtain ⟨-, ends⟩ := step
  have unpicked : (picked ++ (none : Option UInt32).toList) = picked := by
    simp
  have unchanged : next.mlfq.colas 0 = kernel.mlfq.colas 0 →
      Ahead envId picked next := by
    intro same
    refine ahead.extend [] ?_
    rw [same, List.append_nil]
  cases event with
  | status e value =>
      cases ends
      rw [show (ColaEvent.status e value).picked kernel = none from rfl,
        unpicked]
      exact ⟨ahead.nodup, fun _ _ => unchanged rfl⟩
  | alloc cpu parentId =>
      rw [show (ColaEvent.alloc cpu parentId).picked kernel = none from rfl,
        unpicked]
      refine ⟨ahead.nodup, fun _ waitsNext => ?_⟩
      obtain ⟨result, -, entered⟩ := entered_of_alloc kept ends
      cases result with
      | error r => exact unchanged (congrFun entered 0)
      | ok e =>
          obtain ⟨q, -, same⟩ := entered
          by_cases first : q = 0
          · subst q
            have appended : next.mlfq.colas 0 =
                (kernel.mlfq.colas 0).agregar (next.envs e).envId := by
              rw [same, Function.update_self]
            have room : (next.mlfq.colas 0).contenido.length ≤ nenv :=
              (keptNext.clean trivial).homed.length_le
            rw [appended] at room
            have ordenada : (kernel.mlfq.colas 0).Ordenada :=
              kept.sound.ordenada 0
            rcases MlfqCola.agregar_cases _ ordenada room with longer | wraps
            · refine ahead.extend [(next.envs e).envId] ?_
              rw [appended]
              exact longer
            · have member := Waits.mem keptNext waitsNext
              rw [appended, MlfqCola.contenido_of_negative wraps] at member
              cases member
          · refine unchanged ?_
            rw [same, Function.update_of_ne (Ne.symm first)]
  | yield cpu =>
      obtain ⟨chosen, chooses, moved⟩ := moved_of_yield ends
      have isPicked : (ColaEvent.yield cpu).picked kernel =
          chosen.picks.map fun (q, i) => chosen.entrada q i := by
        unfold ColaEvent.picked
        rw [chooses, Option.bind_some]
      obtain ⟨keptChosen, still⟩ := ahead_of_choosing kept ahead chooses
      rcases still with aheadChosen | empty
      · obtain ⟨i, picks, nodup, leaves⟩ := aheadChosen.pick keptChosen
          (runnable_of_choosing kept chooses waits.2)
        rw [isPicked, picks, Option.map_some, Option.toList_some]
        refine ⟨nodup, fun different _ => leaves ?_ moved⟩
        intro same
        exact different (congrArg some same)
      · have picks := picks_of_empty keptChosen empty
        rw [isPicked, picks, Option.map_none, unpicked]
        refine ⟨ahead.nodup, fun _ waitsNext => ?_⟩
        unfold Kernel.Moved at moved
        rw [picks] at moved
        have member := Waits.mem keptNext waitsNext
        rw [moved, empty 0] at member
        cases member

/-! ## Runs -/

theorem ahead_of_waiting (waiting : Waiting envId picked kernel) :
    Ahead envId picked kernel := by
  induction waiting with
  | @start kernel reachable waits =>
      have kept : Kept True False kernel :=
        kept_of_colaReachable False.elim reachable
      exact ahead_start kept waits
  | @step picked kernel next event waiting step different waits induction =>
      have kept : Kept True False kernel :=
        kept_of_colaReachable False.elim waiting.reachable
      exact (ahead_of_step kept waiting.waits induction step).2 different waits

/-- While a runnable environment waits in `cola_a`, no entry is picked twice. -/
theorem picked_nodup_of_waiting {event : ColaEvent}
    (waiting : Waiting envId picked kernel)
    (step : colaMachine.Step kernel event next) :
    (picked ++ (event.picked kernel).toList).Nodup := by
  have kept : Kept True False kernel :=
    kept_of_colaReachable False.elim waiting.reachable
  exact (ahead_of_step kept waiting.waits (ahead_of_waiting waiting) step).1

/-- Two environments wait in `cola_a`. -/
def twoEnvs : List ColaEvent := [.alloc 0 0, .alloc 0 0]

/-- The first of two environments is dispatched, and then the second one. -/
theorem picked_nodup_after_yield :
    let first := twoEnvs.foldl ColaEvent.after noEnv
    let second := ColaEvent.after first (.yield 0)
    ([] ++ ((ColaEvent.yield 0).picked first).toList ++
      ((ColaEvent.yield 0).picked second).toList).Nodup := by
  have along : Machine.Along ColaEvent.Goes ColaEvent.after noEnv twoEnvs := by
    decide +kernel
  have waitsFirst : (twoEnvs.foldl ColaEvent.after noEnv).Waits 4097 :=
    ⟨⟨1, ⟨by decide +kernel, by decide +kernel⟩, by decide +kernel⟩,
      show _ = _ by decide +kernel⟩
  have goes : ColaEvent.Goes (twoEnvs.foldl ColaEvent.after noEnv)
      (.yield 0) := by
    decide +kernel
  have waitsSecond : (ColaEvent.after (twoEnvs.foldl ColaEvent.after noEnv)
      (.yield 0)).Waits 4097 :=
    ⟨⟨1, ⟨by decide +kernel, by decide +kernel⟩, by decide +kernel⟩,
      show _ = _ by decide +kernel⟩
  have goesOn : ColaEvent.Goes (ColaEvent.after
      (twoEnvs.foldl ColaEvent.after noEnv) (.yield 0)) (.yield 0) := by
    decide +kernel
  have waiting := (Waiting.start (reachable_of_events along) waitsFirst).step
    goes.step (by decide +kernel) waitsSecond
  exact picked_nodup_of_waiting waiting goesOn.step

end FeaturesOS.Scheduler

import FeaturesOS.Scheduler.Orderly
import FeaturesOS.Scheduler.Overtaking

/-!
# The counters of the queues

A run is recorded as the calls that it makes to the queues.  As long as no
`ultimo` overflows, every counter of a queue has a position in the array and the
queue holds what has been appended and not removed.  The counters of `cola_a` are
never reset, so a run that is long enough overflows them.
-/

namespace FeaturesOS.Scheduler

open Entry

/-- What a run does to the queues. -/
inductive ColaCall where
  | agregar (q : Fin 4) (envId : UInt32)
  | borrar (q : Fin 4) (envId : UInt32)
  | vaciar

/-- The entries of the queue `q` behind a call. -/
def ColaCall.after (q : Fin 4) (pending : List UInt32) : ColaCall → List UInt32
  | agregar p envId => if p = q then pending ++ [envId] else pending
  | borrar p envId => if p = q then pending.erase envId else pending
  | vaciar => if q = 0 then pending else []

/-- The entries of the queue `q` that have been appended and not yet removed. -/
def pendientes (q : Fin 4) (calls : List ColaCall) : List UInt32 :=
  calls.foldl (ColaCall.after q) []

/-- The calls of `promover_colas`, when it is time for them. -/
def Kernel.promociones (kernel : Kernel) : List ColaCall :=
  if kernel.Due then
    kernel.ledger.promovidas.map (ColaCall.agregar 0) ++ [.vaciar]
  else
    []

/-- The calls with which `prioridad_MLFQ` moves an entry. -/
def Kernel.traslado (chosen : Kernel) : List ColaCall :=
  match chosen.picks with
  | none => []
  | some (q, i) =>
      [.borrar q (chosen.entrada q i),
        .agregar (siguienteCola q) (chosen.entrada q i)]

/-- The call with which `env_alloc` enters a new environment. -/
def Kernel.alta : Outcome Kernel (Except Int Nat) → List ColaCall
  | .returns (.ok e) next =>
      match obtenerCola (next.envs e).colaActual with
      | some q => [.agregar q (next.envs e).envId]
      | none => []
  | _ => []

/-- The calls of an event. -/
def ColaEvent.calls (kernel : Kernel) : ColaEvent → List ColaCall
  | alloc cpu parentId => Kernel.alta (envAlloc cpu parentId kernel)
  | yield _ =>
      kernel.promociones ++ kernel.choosing.elim [] Kernel.traslado
  | status _ _ => []

/-- A run and the calls that it has made. -/
inductive Recorded (allowed : Kernel → ColaEvent → Prop) :
    List ColaCall → Kernel → Prop where
  | start {kernel : Kernel} :
      colaMachine.Initial kernel → Recorded allowed [] kernel
  | step {calls : List ColaCall} {kernel next : Kernel} {event : ColaEvent} :
      Recorded allowed calls kernel →
      allowed kernel event →
      colaMachine.Step kernel event next →
      Recorded allowed (calls ++ event.calls kernel) next

/-- `primero` has not passed `ultimo`, and every counter between them has its
position in the array. -/
def MlfqCola.EnRango (cola : MlfqCola) : Prop :=
  cola.primero ≤ cola.ultimo ∧
    ∀ counter : Int32, cola.primero ≤ counter → counter ≤ cola.ultimo →
      ∃ position < nenv, posicion counter = some position

/-- The loops over the queues visit what has been appended and not removed. -/
structure Kernel.Accounted (kernel : Kernel) (calls : List ColaCall) : Prop where
  enRango : ∀ q, (kernel.mlfq.colas q).EnRango
  visited : ∀ q, ∃ counters, (kernel.mlfq.colas q).recorrido = some counters ∧
    (counters.map (kernel.entrada q)).Perm (pendientes q calls)

/-- The promotion of the next `sched_yield` keeps the counters in range. -/
def Kernel.Promotes (kernel : Kernel) : Prop :=
  ∃ chosen, kernel.choosing = some chosen ∧
    ∀ q, (chosen.mlfq.colas q).EnRango

variable {allowed : Kernel → ColaEvent → Prop} {calls : List ColaCall}
variable {kernel chosen next : Kernel} {event : ColaEvent}

theorem Recorded.reachable (recorded : Recorded allowed calls kernel) :
    colaMachine.Reachable allowed kernel := by
  induction recorded with
  | start initial => exact .initial initial
  | step _ permitted step induction => exact induction.step permitted step

theorem MlfqCola.enRango_of_valid {cola : MlfqCola} (ordenada : cola.Ordenada)
    (valid : 0 ≤ cola.ultimo.toInt) : cola.EnRango := by
  have primero := ordenada.primero
  have order := ordenada.ultimo
  constructor
  · apply Int32.le_iff_toInt_le.mpr
    omega
  · intro counter low _
    have above := Int32.le_iff_toInt_le.mp low
    exact ⟨_, Nat.mod_lt _ (by decide), posicion_eq (by omega)⟩

/-! ## Recording -/

theorem pendientes_append (q : Fin 4) (more : List ColaCall) :
    pendientes q (calls ++ more) =
      more.foldl (ColaCall.after q) (pendientes q calls) :=
  List.foldl_append

theorem perm_after {q : Fin 4} {left right : List UInt32}
    (perm : left.Perm right) (call : ColaCall) :
    (ColaCall.after q left call).Perm (ColaCall.after q right call) := by
  cases call with
  | agregar p envId =>
      dsimp only [ColaCall.after]
      split
      · exact perm.append_right [envId]
      · exact perm
  | borrar p envId =>
      dsimp only [ColaCall.after]
      split
      · exact perm.erase envId
      · exact perm
  | vaciar =>
      dsimp only [ColaCall.after]
      split
      · exact perm
      · exact .refl []

theorem perm_foldl_after {q : Fin 4} {left right : List UInt32}
    (perm : left.Perm right) (calls : List ColaCall) :
    (calls.foldl (ColaCall.after q) left).Perm
      (calls.foldl (ColaCall.after q) right) := by
  induction calls generalizing left right with
  | nil => exact perm
  | cons call rest induction => exact induction (perm_after perm call)

theorem foldl_after_agregar_zero (entries pending : List UInt32) :
    (entries.map (ColaCall.agregar 0)).foldl (ColaCall.after 0) pending =
      pending ++ entries := by
  induction entries generalizing pending with
  | nil => rw [List.map_nil, List.foldl_nil, List.append_nil]
  | cons envId rest induction =>
      rw [List.map_cons, List.foldl_cons, induction, ColaCall.after,
        if_pos rfl, List.append_assoc, List.singleton_append]

/-! ## Steps -/

/-- The queues hold what the calls of `event` make of the queues before. -/
def Kernel.Follows (kernel : Kernel) (calls : List ColaCall) (next : Kernel) :
    Prop :=
  ∀ q, (next.mlfq.colas q).contenido.Perm
    (calls.foldl (ColaCall.after q) (kernel.mlfq.colas q).contenido)

/-- A queue behind `sched_agregar_env`. -/
theorem contenido_agregado {colas : Fin 4 → MlfqCola} {q : Fin 4}
    {envId : UInt32} (ordenada : (colas q).Ordenada)
    (room : ((colas q).agregar envId).contenido.length ≤ nenv)
    (valid : 0 ≤ ((colas q).agregar envId).ultimo.toInt) (p : Fin 4) :
    (Function.update colas q ((colas q).agregar envId) p).contenido =
      ColaCall.after p (colas p).contenido (.agregar q envId) := by
  dsimp only [ColaCall.after]
  by_cases here : q = p
  · subst here
    rw [if_pos rfl, Function.update_self]
    rcases MlfqCola.agregar_cases envId ordenada room with longer | negative
    · exact longer
    · omega
  · rw [if_neg here, Function.update_of_ne (Ne.symm here)]

theorem follows_of_alloc {cpu : Nat} {parentId : UInt32}
    (kept : Kept True True kernel) (keptNext : Kept True True next)
    (ends : ((ColaEvent.alloc cpu parentId).entry kernel).finalState =
      some next) :
    kernel.Follows ((ColaEvent.alloc cpu parentId).calls kernel) next := by
  obtain ⟨result, returned, entered⟩ := entered_of_alloc kept ends
  intro p
  change (next.mlfq.colas p).contenido.Perm
    ((Kernel.alta (envAlloc cpu parentId kernel)).foldl _ _)
  rw [returned]
  cases result with
  | error r =>
      have same : next.mlfq.colas = kernel.mlfq.colas := entered
      rw [same]
      exact .refl _
  | ok e =>
      obtain ⟨q, home, same⟩ := entered
      dsimp only [Kernel.alta]
      rw [home, obtenerCola_val]
      have here : next.mlfq.colas q =
          (kernel.mlfq.colas q).agregar (next.envs e).envId := by
        rw [same, Function.update_self]
      have room : (next.mlfq.colas q).contenido.length ≤ nenv :=
        (keptNext.covered trivial).room q
      have valid : 0 ≤ (next.mlfq.colas q).ultimo.toInt :=
        (keptNext.covered trivial).valid q
      have ordenada : (kernel.mlfq.colas q).Ordenada := kept.sound.ordenada q
      rw [here] at room valid
      rw [same, contenido_agregado ordenada room valid p]
      exact .refl _

theorem kept_of_choosing (kept : Kept True True kernel)
    (fits : kernel.YieldFits) (chooses : kernel.choosing = some chosen) :
    Kept True True chosen := by
  have promoted : Triple _ promoverSiCorresponde
      (fun _ => Kept True True) (Kept True True) :=
    (triple_promoverSiCorresponde True True).weaken (fun _ => id)
      (fun _ _ holds => holds.1) fun _ => id
  refine promoted.final ?_ chooses
  exact ⟨kept, fun _ => fits⟩

theorem follows_of_choosing (kept : Kept True True kernel)
    (keptChosen : Kept True True chosen)
    (chooses : kernel.choosing = some chosen) :
    kernel.Follows kernel.promociones chosen := by
  have ordenada : ∀ q, (kernel.mlfq.colas q).Ordenada := kept.sound.ordenada
  have same := ledger_of_choosing ordenada chooses
  intro q
  have valid : 0 ≤ (chosen.ledger.colas q).ultimo.toInt :=
    (keptChosen.covered trivial).valid q
  change (chosen.ledger.colas q).contenido.Perm _
  unfold Kernel.promociones
  by_cases due : kernel.Due
  · rw [if_pos due] at same
    rw [if_pos due, List.foldl_append]
    by_cases first : q = 0
    · subst first
      have grown : chosen.ledger.colas 0 =
          (kernel.mlfq.colas 0).agregarTodos kernel.ledger.promovidas := by
        rw [same]
        rfl
      rw [grown] at valid ⊢
      rw [foldl_after_agregar_zero]
      rcases MlfqCola.agregarTodos_cases (ordenada 0)
        (kept.clean trivial).homed.all_length with appended | negative
      · have appended : ((kernel.mlfq.colas 0).agregarTodos
            kernel.ledger.promovidas).contenido = _ := appended
        rw [appended]
        exact .refl _
      · omega
    · have emptied : chosen.ledger.colas q = (kernel.mlfq.colas q).vaciada := by
        rw [same]
        simp only [Ledger.promover, if_neg first]
        rfl
      rw [emptied, MlfqCola.contenido_vaciada, List.foldl_cons, List.foldl_nil,
        ColaCall.after, if_neg first]
  · rw [if_neg due] at same
    rw [if_neg due, same]
    exact .refl _

theorem found_of_picks {q : Fin 4} {i : Nat}
    (picks : kernel.picks = some (q, i)) :
    kernel.colaMejorPrioridad [0, 1, 2, 3] = some (some (q, i)) := by
  obtain ⟨found, best, rfl⟩ := Option.bind_eq_some_iff.mp picks
  exact best

theorem follows_of_moved (kept : Kept True True chosen)
    (keptNext : Kept True True next)
    (moved : chosen.Moved next.mlfq.colas) :
    chosen.Follows chosen.traslado next := by
  intro p
  unfold Kernel.Moved at moved
  unfold Kernel.traslado
  cases picks : chosen.picks with
  | none =>
      rw [picks] at moved
      rw [show next.mlfq.colas = chosen.mlfq.colas from moved]
      exact .refl _
  | some picked =>
      obtain ⟨q, i⟩ := picked
      rw [picks] at moved
      obtain ⟨removed, borrado, same⟩ := moved
      have isCounter := mem_counters_of_found kept (found_of_picks picks)
      have ordenada : ∀ q, (chosen.mlfq.colas q).Ordenada := kept.sound.ordenada
      let middle := Function.update chosen.mlfq.colas q removed
      have taken : ∀ p, (middle p).contenido.Perm (ColaCall.after p
          (chosen.mlfq.colas p).contenido (.borrar q (chosen.entrada q i))) := by
        intro p
        dsimp only [ColaCall.after, middle]
        by_cases here : q = p
        · subst here
          rw [if_pos rfl, Function.update_self]
          have perm := MlfqCola.borrar_perm (ordenada q) isCounter
            ((kept.covered trivial).room q) borrado
          have member : chosen.entrada q i ∈
              (chosen.mlfq.colas q).contenido :=
            List.mem_map_of_mem isCounter
          exact (List.perm_cons _).mp
            (perm.trans (List.perm_cons_erase member))
        · rw [if_neg here, Function.update_of_ne (Ne.symm here)]
      have orderedMiddle : ∀ p, (middle p).Ordenada := by
        intro p
        dsimp only [middle]
        by_cases here : p = q
        · subst here
          rw [Function.update_self]
          exact (ordenada p).borrar isCounter borrado
        · rw [Function.update_of_ne here]
          exact ordenada p
      have here : next.mlfq.colas = Function.update middle (siguienteCola q)
          ((middle (siguienteCola q)).agregar (chosen.entrada q i)) := same
      have room : (next.mlfq.colas (siguienteCola q)).contenido.length ≤ nenv :=
        (keptNext.covered trivial).room _
      have valid : 0 ≤ (next.mlfq.colas (siguienteCola q)).ultimo.toInt :=
        (keptNext.covered trivial).valid _
      rw [here, Function.update_self] at room valid
      rw [here, contenido_agregado (orderedMiddle _) room valid p]
      exact perm_after (taken p) _

theorem follows_of_step (kept : Kept True True kernel)
    (keptNext : Kept True True next) (fits : event.Fits kernel)
    (step : colaMachine.Step kernel event next) :
    kernel.Follows (event.calls kernel) next := by
  obtain ⟨-, ends⟩ := step
  cases event with
  | alloc cpu parentId => exact follows_of_alloc kept keptNext ends
  | status e value =>
      cases ends
      exact fun q => .refl _
  | yield cpu =>
      obtain ⟨chosen, chooses, moved⟩ := moved_of_yield ends
      have keptChosen := kept_of_choosing kept fits chooses
      have promoted := follows_of_choosing kept keptChosen chooses
      have picked := follows_of_moved keptChosen keptNext moved
      intro q
      dsimp only [ColaEvent.calls]
      rw [chooses, Option.elim_some, List.foldl_append]
      exact (picked q).trans (perm_foldl_after (promoted q) _)

/-! ## Runs -/

theorem kept_of_recorded (recorded : Recorded (fun kernel event => event.Fits kernel)
    calls kernel) :
    Kept True True kernel :=
  kept_of_colaReachable (fun _ _ _ => id) recorded.reachable

theorem contenido_of_recorded
    (recorded : Recorded (fun kernel event => event.Fits kernel) calls kernel)
    (q : Fin 4) :
    (kernel.mlfq.colas q).contenido.Perm (pendientes q calls) := by
  induction recorded with
  | start initial =>
      obtain ⟨mem, kernPgdir, pool, -, rfl⟩ := initial
      exact .refl []
  | step recorded fits step induction =>
      have kept := kept_of_recorded recorded
      have keptNext := kept_of_recorded (recorded.step fits step)
      rw [pendientes_append]
      exact (follows_of_step kept keptNext fits step q).trans
        (perm_foldl_after induction _)

theorem enRango_of_kept (kept : Kept True True kernel) (q : Fin 4) :
    (kernel.mlfq.colas q).EnRango :=
  MlfqCola.enRango_of_valid (kept.sound.ordenada q)
    ((kept.covered trivial).valid q)

/-- As long as no `ultimo` overflows, the counters stay in range, the loops over
the queues visit what has been appended and not removed, and the promotion of the
next `sched_yield` does not leave the arrays. -/
theorem accounted_of_fits
    (recorded : Recorded (fun kernel event => event.Fits kernel) calls kernel) :
    kernel.Accounted calls ∧ (kernel.YieldFits → kernel.Promotes) := by
  have kept := kept_of_recorded recorded
  constructor
  · refine ⟨enRango_of_kept kept, fun q => ?_⟩
    exact ⟨_, MlfqCola.recorrido_eq (kept.sound.ordenada q),
      contenido_of_recorded recorded q⟩
  · intro fits
    have counted : Kept True True
        { kernel with runsDelSched := kernel.runsDelSched + 1 } := kept
    obtain ⟨chosen, promoted⟩ := promoverSiCorresponde_returns counted fits
    have chooses : kernel.choosing = some chosen := by
      unfold Kernel.choosing
      rw [promoted]
      rfl
    exact ⟨chosen, chooses, enRango_of_kept (kept_of_choosing kept fits chooses)⟩

/-! ## A run without end

Two environments take turns on one processor.  Every promotion appends to
`cola_a`, and nothing resets its counters.
-/

/-- `sched_yield` on the processor 0 goes from `e` to `f` and back. -/
structure Kernel.Alternates (kernel : Kernel) (e f : Nat) : Prop where
  kept : Kept True True kernel
  current : kernel.cpus 0 = some e
  running : (kernel.envs e).envStatus = .running
  runnable : kernel.Runnable f
  others : ∀ g, (kernel.envs g).envStatus ≠ .free → g = e ∨ g = f
  mapped : ∀ g, (kernel.envs g).envStatus ≠ .free →
    (kernel.envs g).envPgdir ≠ none
  lowered : (kernel.envs e).colaActual ≠ 0
  totales : 0 ≤ kernel.mlfq.ejecucionesTotales.toInt ∧
    kernel.mlfq.ejecucionesTotales.toInt ≤ 50
  ultimo : ∀ q, q ≠ 0 → (kernel.mlfq.colas q).ultimo.toInt ≤
    kernel.mlfq.ejecucionesTotales.toInt

/-- What every `sched_yield` raises. -/
def Kernel.avance (kernel : Kernel) : Int :=
  (kernel.mlfq.colas 0).ultimo.toInt * 51 +
    kernel.mlfq.ejecucionesTotales.toInt

variable {e f : Nat}

theorem yieldFits_iff :
    kernel.YieldFits ↔
      if kernel.Due then
        (kernel.mlfq.colas 0).Cabe kernel.ledger.promovidas.length
      else
        kernel.NextFits :=
  Iff.rfl

/-- A kernel that is not going to promote finds room in the lower queues. -/
theorem yieldFits_of_room (few : ¬ kernel.Due)
    (room : ∀ q, q ≠ 0 → (kernel.mlfq.colas q).Cabe 1) : kernel.YieldFits := by
  rw [yieldFits_iff, if_neg few]
  intro q i _
  by_cases last : q = 3
  · rw [if_pos last]
    exact (room 3 (by decide)).2
  · have lower : ∀ q : Fin 4, siguienteCola q ≠ 0 := by decide
    rw [if_neg last]
    exact room _ (lower q)

/-- At most the entries of two environments stand in a queue. -/
theorem Kernel.Alternates.length_le (alternates : kernel.Alternates e f)
    (q : Fin 4) : (kernel.mlfq.colas q).contenido.length ≤ 2 := by
  have isClean := alternates.kept.clean trivial
  have inside : ((kernel.mlfq.colas q).contenido.map envx).Subperm [e, f] := by
    refine List.subperm_of_subset isClean.homed.slots_nodup ?_
    intro g member
    obtain ⟨envId, isEntry, rfl⟩ := List.mem_map.mp member
    have alive := (isClean.entry q envId isEntry).2.1
    rcases alternates.others _ alive with same | same
    · rw [same]
      exact List.mem_cons_self
    · rw [same]
      exact List.mem_cons_of_mem _ List.mem_cons_self
  simpa using inside.length_le

theorem Kernel.Alternates.yieldFits (alternates : kernel.Alternates e f)
    (promotes : kernel.Promotes) : kernel.YieldFits := by
  have ordenada : ∀ q, (kernel.mlfq.colas q).Ordenada :=
    alternates.kept.sound.ordenada
  by_cases due : kernel.Due
  · have room := (alternates.kept.clean trivial).homed.all_length
    rw [yieldFits_iff, if_pos due]
    refine ⟨room, ?_⟩
    by_contra overflow
    obtain ⟨chosen, chooses, enRango⟩ := promotes
    have same := ledger_of_choosing ordenada chooses
    rw [if_pos due] at same
    have grown : chosen.mlfq.colas 0 =
        (kernel.mlfq.colas 0).agregarTodos kernel.ledger.promovidas := by
      change chosen.ledger.colas 0 = _
      rw [same]
      rfl
    have order := Int32.le_iff_toInt_le.mp (enRango 0).1
    have negative := MlfqCola.agregarTodos_overflows (Int.not_lt.mp overflow)
    have primero : 0 ≤ (chosen.mlfq.colas 0).primero.toInt := by
      rw [grown]
      exact (MlfqCola.agregarTodos_sublist (ordenada 0) room).2.primero
    rw [grown] at order primero
    omega
  · refine yieldFits_of_room due ?_
    intro q lower
    have short := alternates.length_le q
    have low := alternates.ultimo q lower
    have few := alternates.totales.2
    refine ⟨?_, by omega⟩
    have large : 3 ≤ nenv := by decide
    omega

/-! ### The steps of `sched_yield` -/

theorem totales_of_choosing (chooses : kernel.choosing = some chosen) :
    chosen.mlfq.ejecucionesTotales =
      if kernel.Due then 0 else kernel.mlfq.ejecucionesTotales := by
  have counts : Triple
      (fun entered => entered.mlfq.ejecucionesTotales =
        kernel.mlfq.ejecucionesTotales)
      promoverSiCorresponde
      (fun _ chosen => chosen.mlfq.ejecucionesTotales =
        if kernel.Due then 0 else kernel.mlfq.ejecucionesTotales)
      (fun chosen => chosen.mlfq.ejecucionesTotales =
        if kernel.Due then 0 else kernel.mlfq.ejecucionesTotales) := by
    have promotes : ∀ q (left : Kernel → Prop),
        Triple (fun _ => kernel.Due) (promoverCola q)
          (fun _ _ => kernel.Due) left := fun q left =>
      (frame_promoverCola blindToQueues_statuses q).triple fun _ => kernel.Due
    have promotesAll : ∀ left : Kernel → Prop,
        Triple (fun _ => kernel.Due) promoverColas
          (fun _ _ => kernel.Due) left := fun left =>
      (promotes 1 left).bind fun _ => (promotes 2 left).bind fun _ =>
        (promotes 3 left).bind fun _ => .modify fun _ due => due
    unfold promoverSiCorresponde
    apply Triple.bind_read
    intro totales
    refine .ite (fun enough => ?_) fun few => ?_
    · refine .strengthen (fun _ => kernel.Due) ?_
        ((promotesAll _).bind fun _ => .modify ?_)
      · rintro entered ⟨same, rfl⟩
        unfold Kernel.Due
        rwa [← same]
      · intro entered due
        rw [if_pos due]
    · apply Triple.pure
      rintro entered ⟨same, rfl⟩
      have notDue : ¬ kernel.Due := by
        unfold Kernel.Due
        rwa [← same]
      rw [if_neg notDue, same]
  refine counts.final ?_ chooses
  rfl

theorem yield_of_choosing {cpu : Nat} (chooses : kernel.choosing = some chosen)
    (left : prioridadMlfq cpu chosen = .leaves next) :
    (schedYield .priorities cpu : KernelM Unit) kernel = .leaves next := by
  have framed := (frame_promoverSiCorresponde blindToQueues_census).run
    { kernel with runsDelSched := kernel.runsDelSched + 1 }
  unfold Kernel.choosing at chooses
  rw [schedYield_eq, bind_run]
  cases outcome : promoverSiCorresponde
      { kernel with runsDelSched := kernel.runsDelSched + 1 } with
  | returns result final =>
      rw [outcome] at chooses
      cases chooses
      dsimp only
      unfold trasPromocion
      rw [bind_run, left]
  | leaves final =>
      rw [outcome] at framed
      exact framed.elim
  | stops =>
      rw [outcome] at chooses
      cases chooses

theorem elegido_ultimo {q : Fin 4} {i : Nat} {removed : MlfqCola}
    (borrado : (kernel.mlfq.colas q).borrar (i % nenv) = some removed)
    (valid : ∀ p, 0 ≤ (kernel.mlfq.colas p).ultimo.toInt) (p : Fin 4) :
    ((kernel.elegido q i removed).mlfq.colas p).ultimo =
      if p = siguienteCola q then (kernel.mlfq.colas p).ultimo + 1
      else (kernel.mlfq.colas p).ultimo := by
  have ultimo := (MlfqCola.borrar_ultimo borrado).1
  have middle : ∀ p, (Function.update kernel.mlfq.colas q removed p).ultimo =
      (kernel.mlfq.colas p).ultimo := by
    intro p
    by_cases here : p = q
    · rw [here, Function.update_self, ultimo]
    · rw [Function.update_of_ne here]
  have colas : (kernel.elegido q i removed).mlfq.colas = Function.update
      (Function.update kernel.mlfq.colas q removed) (siguienteCola q)
      ((Function.update kernel.mlfq.colas q removed (siguienteCola q)).agregar
        (kernel.entrada q i)) := rfl
  rw [colas]
  by_cases here : p = siguienteCola q
  · rw [if_pos here, here, Function.update_self, MlfqCola.agregar_eq]
    · dsimp only
      rw [middle]
    · rw [middle]
      exact valid _
  · rw [if_neg here, Function.update_of_ne here, middle]

/-- The processor goes to the environment that was waiting. -/
theorem roster_of_turn (alternates : kernel.Alternates e f)
    (left : (schedYield .priorities 0 : KernelM Unit) kernel = .leaves next)
    (dispatched : next.cpus 0 = some f) :
    next.census.roster = kernel.census.roster.dispatch 0 f := by
  have yields : Triple (Shows kernel.census)
      (schedYield .priorities 0 : KernelM Unit) (fun _ _ => True)
      (LeftFrom .priorities 0 kernel.census) := triple_schedYield_census
  have leaves := yields.run kernel rfl
  rw [left] at leaves
  have current : next.census.roster.current 0 = some f := dispatched
  have notWaiting : kernel.census.roster.current 0 ≠ some f := by
    intro same
    have isCurrent := alternates.current
    rw [show kernel.cpus 0 = some f from same] at isCurrent
    cases isCurrent
    have running := alternates.running
    rw [show (kernel.envs e).envStatus = .runnable from alternates.runnable]
      at running
    cases running
  change kernel.census.Leaves .priorities 0 next.census at leaves
  generalize next.census = after at leaves current
  cases leaves with
  | @resumes g here mapped =>
      have same : (kernel.census.roster.dispatch 0 g).current 0 = some f :=
        current
      rw [Roster.dispatch_current, Function.update_self] at same
      rw [same] at here
      exact absurd here notWaiting
  | @picks g runnable mapped first =>
      have same : (kernel.census.roster.dispatch 0 g).current 0 = some f :=
        current
      rw [Roster.dispatch_current, Function.update_self] at same
      cases same
      rfl
  | @stays g here running mapped last =>
      have same : (kernel.census.roster.dispatch 0 g).current 0 = some f :=
        current
      rw [Roster.dispatch_current, Function.update_self] at same
      rw [same] at here
      exact absurd here notWaiting
  | halts idle last =>
      have same : (kernel.census.roster.setCurrent 0 none).current 0 =
        some f := current
      simp [Roster.setCurrent] at same

theorem ultimo_of_choosing (kept : Kept True True kernel)
    (fits : kernel.YieldFits) (chooses : kernel.choosing = some chosen) :
    (chosen.mlfq.colas 0).ultimo.toInt = (kernel.mlfq.colas 0).ultimo.toInt +
        (if kernel.Due then (kernel.ledger.promovidas.length : Int) else 0) ∧
      ∀ q, q ≠ 0 → (chosen.mlfq.colas q).ultimo =
        if kernel.Due then 0 else (kernel.mlfq.colas q).ultimo := by
  have same := ledger_of_choosing kept.sound.ordenada chooses
  have colas : chosen.mlfq.colas = chosen.ledger.colas := rfl
  rw [yieldFits_iff] at fits
  by_cases due : kernel.Due
  · rw [if_pos due] at same fits
    rw [if_pos due, colas, same]
    refine ⟨?_, fun q lower => ?_⟩
    · exact MlfqCola.agregarTodos_ultimo ((kept.covered trivial).valid 0) fits.2
    · simp only [Ledger.promover, if_neg lower, if_pos due]
      rfl
  · rw [if_neg due] at same
    rw [if_neg due, colas, same]
    refine ⟨(Int.add_zero _).symm, fun q _ => ?_⟩
    rw [if_neg due]
    rfl

/-- The entry of the running environment is promoted. -/
theorem Kernel.Alternates.promovidas_pos (alternates : kernel.Alternates e f) :
    0 < kernel.ledger.promovidas.length := by
  have alive : kernel.ledger.status e ≠ .free := by
    rw [show kernel.ledger.status e = .running from alternates.running]
    decide
  obtain ⟨q, envId, member, slot⟩ := (alternates.kept.covered trivial).entry e
    (alternates.kept.sound.live e alive) (by simp)
  obtain ⟨-, -, home, -⟩ := (alternates.kept.clean trivial).entry q envId member
  rw [slot] at home
  have lower : q ≠ 0 := by
    rintro rfl
    exact alternates.lowered home
  exact List.length_pos_of_mem (Ledger.mem_promovidas.mpr ⟨q, lower, member⟩)

theorem due_iff :
    kernel.Due ↔ 50 ≤ kernel.mlfq.ejecucionesTotales.toInt := by
  unfold Kernel.Due
  rw [ge_iff_le, Int32.le_iff_toInt_le]
  rfl

/-- What `sched_yield` makes of the counters. -/
structure Advanced (kernel next : Kernel) : Prop where
  totales : next.mlfq.ejecucionesTotales.toInt =
    (if kernel.Due then 0 else kernel.mlfq.ejecucionesTotales.toInt) + 1
  first : (next.mlfq.colas 0).ultimo.toInt = (kernel.mlfq.colas 0).ultimo.toInt +
    (if kernel.Due then (kernel.ledger.promovidas.length : Int) else 0)
  lower : ∀ q, q ≠ 0 → (next.mlfq.colas q).ultimo.toInt ≤
    (if kernel.Due then 0 else (kernel.mlfq.colas q).ultimo.toInt) + 1

theorem advanced_of_elegido (alternates : kernel.Alternates e f)
    (fits : kernel.YieldFits) (chooses : kernel.choosing = some chosen)
    (keptChosen : Kept True True chosen) {q : Fin 4} {i : Nat}
    {removed : MlfqCola}
    (borrado : (chosen.mlfq.colas q).borrar (i % nenv) = some removed) :
    Advanced kernel (chosen.elegido q i removed) := by
  have few := alternates.totales
  have small := fun q lower => alternates.ultimo q lower
  have totales := totales_of_choosing chooses
  obtain ⟨first, lower⟩ := ultimo_of_choosing alternates.kept fits chooses
  have ultimo := elegido_ultimo borrado (keptChosen.covered trivial).valid
  have next : ∀ q : Fin 4, siguienteCola q ≠ 0 := by decide
  refine ⟨?_, ?_, ?_⟩
  · change (chosen.mlfq.ejecucionesTotales + 1).toInt = _
    rw [totales]
    by_cases due : kernel.Due
    · rw [if_pos due, if_pos due]
      rfl
    · have below := Int.not_le.mp (mt due_iff.mpr due)
      rw [if_neg due, if_neg due, toInt_succ, if_pos (by omega)]
  · rw [ultimo, if_neg (Ne.symm (next q)), first]
  · intro p notFirst
    have here := lower p notFirst
    have bound : (chosen.mlfq.colas p).ultimo.toInt =
        if kernel.Due then 0 else (kernel.mlfq.colas p).ultimo.toInt := by
      rw [here]
      split <;> rfl
    have limit := small p notFirst
    rw [ultimo]
    by_cases target : p = siguienteCola q
    · rw [if_pos target, toInt_succ, bound]
      split <;> split <;> omega
    · rw [if_neg target, bound]
      omega

theorem Advanced.avance (advanced : Advanced kernel next)
    (alternates : kernel.Alternates e f) : kernel.avance < next.avance := by
  have few := alternates.totales
  have promoted := alternates.promovidas_pos
  obtain ⟨totales, first, -⟩ := advanced
  unfold Kernel.avance
  rw [totales, first]
  by_cases due : kernel.Due
  · rw [if_pos due, if_pos due]
    omega
  · rw [if_neg due, if_neg due]
    omega

theorem alternates_of_turn {ready : Kernel}
    (alternates : kernel.Alternates e f) (fits : kernel.YieldFits)
    (left : (schedYield .priorities 0 : KernelM Unit) kernel =
      .leaves (ready.despachado 0 f))
    (advanced : Advanced kernel ready)
    (pgdirs : ∀ g, (kernel.envs g).envStatus ≠ .free →
      (ready.envs g).envPgdir ≠ none)
    (home : (ready.envs f).colaActual ≠ 0) :
    (ready.despachado 0 f).Alternates f e := by
  obtain ⟨mlfq, envs⟩ := despachado_keeps 0 f ready
  have dispatched := despachado_current 0 f ready
  have roster := roster_of_turn alternates left dispatched
  have status : ∀ g, ((ready.despachado 0 f).envs g).envStatus =
      (kernel.census.roster.dispatch 0 f).status g := fun g =>
    congrFun (congrArg Roster.status roster) g
  have step : colaMachine.Step kernel (.yield 0) (ready.despachado 0 f) :=
    ⟨trivial, congrArg Outcome.finalState left⟩
  have different : e ≠ f := by
    rintro rfl
    have running := alternates.running
    rw [show (kernel.envs e).envStatus = .runnable from alternates.runnable]
      at running
    cases running
  have others : ∀ g, ((ready.despachado 0 f).envs g).envStatus ≠ .free →
      g = f ∨ g = e := by
    intro g alive
    by_cases isNext : g = f
    · exact .inl isNext
    · rw [status, Roster.dispatch_status, if_neg isNext] at alive
      split at alive
      · rename_i here
        have current := alternates.current.symm.trans here.1
        exact .inr (Option.some.inj current).symm
      · exact (alternates.others g alive).symm
  have few := alternates.totales
  have totales := advanced.totales
  have range : 0 ≤ ready.mlfq.ejecucionesTotales.toInt ∧
      ready.mlfq.ejecucionesTotales.toInt ≤ 50 := by
    rw [totales]
    split
    · omega
    · rename_i notDue
      have below := Int.not_le.mp (mt due_iff.mpr notDue)
      omega
  have keeps : (ColaEvent.yield 0).Fits kernel := fits
  exact
    { kept := kept_of_colaStep alternates.kept (fun _ => keeps) step
      current := dispatched
      running := by rw [status, Roster.dispatch_status, if_pos rfl]
      runnable := by
        change ((ready.despachado 0 f).envs e).envStatus = _
        rw [status, Roster.dispatch_status, if_neg different]
        exact if_pos ⟨alternates.current, alternates.running⟩
      others := others
      mapped := by
        intro g alive
        rw [(envs g).1]
        refine pgdirs g ?_
        rcases others g alive with here | here
        · rw [here, show (kernel.envs f).envStatus = .runnable from
            alternates.runnable]
          decide
        · rw [here, alternates.running]
          decide
      lowered := by rwa [(envs f).2]
      totales := by rwa [mlfq]
      ultimo := by
        intro q lower
        have bound := advanced.lower q lower
        have small := alternates.ultimo q lower
        rw [mlfq, totales]
        refine Int.le_trans bound ?_
        split <;> omega }

/-- The other environment takes its turn, and the counters have advanced. -/
theorem alternates_step (alternates : kernel.Alternates e f)
    (promotes : kernel.Promotes) :
    ∃ next, colaMachine.Step kernel (.yield 0) next ∧
      next.Alternates f e ∧ kernel.avance < next.avance := by
  have kept := alternates.kept
  have fits := alternates.yieldFits promotes
  obtain ⟨chosen, chooses, -⟩ := promotes
  have keptChosen := kept_of_choosing kept fits chooses
  have same := ledger_of_choosing kept.sound.ordenada chooses
  have ledger : chosen.ledger.status = kernel.ledger.status ∧
      chosen.ledger.hasPgdir = kernel.ledger.hasPgdir := by
    rw [same]
    split <;> exact ⟨rfl, rfl⟩
  have runnable : chosen.Runnable f :=
    (congrFun ledger.1 f).trans alternates.runnable
  obtain ⟨q, i, found⟩ := colaMejorPrioridad_of_runnable keptChosen runnable
  have isOther : envx (chosen.entrada q i) = f := by
    obtain ⟨-, -, -, other⟩ := chosen.colaMejorPrioridad_found found
    have waiting : (kernel.envs (envx (chosen.entrada q i))).envStatus =
        .runnable := (congrFun ledger.1 _).symm.trans other
    have alive : (kernel.envs (envx (chosen.entrada q i))).envStatus ≠ .free := by
      rw [waiting]
      decide
    rcases alternates.others _ alive with here | here
    · rw [here, alternates.running] at waiting
      cases waiting
    · exact here
  obtain ⟨removed, borrado, dispatches⟩ :=
    prioridadMlfq_elige 0 (keptChosen.sound.ordenada q)
      (keptChosen.covered trivial).valid found
  rw [isOther] at dispatches
  have advanced :=
    advanced_of_elegido alternates fits chooses keptChosen borrado
  obtain ⟨ready, isReady⟩ : ∃ ready, ready = chosen.elegido q i removed :=
    ⟨_, rfl⟩
  have home : (ready.envs f).colaActual = (siguienteCola q).val := by
    rw [isReady, ← isOther]
    exact elegido_colaActual chosen q i removed
  have pgdirs : ∀ g, (kernel.envs g).envStatus ≠ .free →
      (ready.envs g).envPgdir ≠ none := by
    intro g alive unmapped
    have hasPgdir := congrFun ledger.2 g
    rw [isReady, elegido_keeps] at unmapped
    change (chosen.envs g).envPgdir.isSome =
      (kernel.envs g).envPgdir.isSome at hasPgdir
    rw [unmapped] at hasPgdir
    exact alternates.mapped g alive (Option.isNone_iff_eq_none.mp (by
      rw [← Option.not_isSome, ← hasPgdir]
      rfl))
  have lower : ∀ q, siguienteCola q ≠ 0 := by decide
  have alive : (kernel.envs f).envStatus ≠ .free := by
    rw [show (kernel.envs f).envStatus = .runnable from alternates.runnable]
    decide
  rw [← isReady] at dispatches advanced
  rw [envRun_leaves (pgdirs f alive)] at dispatches
  have left := yield_of_choosing chooses dispatches
  have turn := alternates_of_turn alternates fits left advanced pgdirs (by
    rw [home]
    exact fun zero => lower q (Fin.ext (Int.ofNat_inj.mp zero)))
  refine ⟨_, ⟨trivial, congrArg Outcome.finalState left⟩, turn, ?_⟩
  have advances := advanced.avance alternates
  unfold Kernel.avance at advances ⊢
  rwa [(despachado_keeps 0 f ready).1]

/-! ### The run -/

instance (cola : MlfqCola) (count : Nat) : Decidable (cola.Cabe count) :=
  inferInstanceAs (Decidable (_ ∧ _))

/-- `env_alloc` or `sched_yield`, while no queue holds more than `NENV`
entries. -/
def ColaEvent.Ordinary (kernel : Kernel) : ColaEvent → Prop
  | alloc _ _ | yield _ =>
      ∀ q, (kernel.mlfq.colas q).contenido.length ≤ nenv
  | status _ _ => False

instance (kernel : Kernel) : DecidablePred (ColaEvent.Ordinary kernel)
  | .alloc _ _ | .yield _ => inferInstanceAs (Decidable (∀ _, _ ≤ _))
  | .status _ _ => .isFalse id

/-- An event that goes while every queue has room. -/
def ColaEvent.Roomy (kernel : Kernel) (event : ColaEvent) : Prop :=
  event.Goes kernel ∧ event.Ordinary kernel ∧ ¬ kernel.Due ∧
    ∀ q, (kernel.mlfq.colas q).Cabe 1

instance (kernel : Kernel) : DecidablePred (ColaEvent.Roomy kernel) :=
  fun _ => inferInstanceAs (Decidable (_ ∧ _))

theorem ColaEvent.Roomy.fits (roomy : event.Roomy kernel) :
    event.Fits kernel := by
  obtain ⟨-, -, few, room⟩ := roomy
  cases event with
  | alloc cpu parentId => exact fun _ q _ _ _ => room q
  | yield cpu => exact yieldFits_of_room few fun q _ => room q
  | status e value => trivial

theorem exists_recorded (reachable : colaMachine.Reachable allowed kernel) :
    ∃ calls, Recorded allowed calls kernel := by
  have initially : ∀ kernel, colaMachine.Initial kernel →
      ∃ calls, Recorded allowed calls kernel :=
    fun _ initial => ⟨[], .start initial⟩
  apply reachable.invariant initially
  rintro kernel event next ⟨calls, recorded⟩ permitted step
  exact ⟨_, recorded.step permitted step⟩

/-- Two environments are created, and the first of them is dispatched. -/
def firstTurn : List ColaEvent := [.alloc 0 0, .alloc 0 0, .yield 0]

theorem reachable_firstTurn :
    colaMachine.Reachable
      (fun kernel event => event.Fits kernel ∧ event.Ordinary kernel)
      (firstTurn.foldl ColaEvent.after noEnv) := by
  have along : Machine.Along ColaEvent.Roomy ColaEvent.after noEnv
      firstTurn := by
    decide +kernel
  have run : colaMachine.Run
      (fun kernel event => event.Fits kernel ∧ event.Ordinary kernel) noEnv
      (firstTurn.map id) (firstTurn.foldl ColaEvent.after noEnv) :=
    Machine.run_of_along (fun _ _ roomy => roomy.1.step)
      (fun _ _ roomy => ⟨roomy.fits, roomy.2.1⟩) along
  exact ⟨noEnv, _,
    ⟨_, _, _, PhysMem.booted_plain (by decide) (by decide), rfl⟩, run⟩

/-- The counters of the first turn. -/
theorem accounted_after_firstTurn :
    ∃ calls, (firstTurn.foldl ColaEvent.after noEnv).Accounted calls ∧
      ((firstTurn.foldl ColaEvent.after noEnv).YieldFits →
        (firstTurn.foldl ColaEvent.after noEnv).Promotes) := by
  obtain ⟨calls, recorded⟩ := exists_recorded
    (reachable_firstTurn.weaken fun _ _ keeps => keeps.1)
  exact ⟨calls, accounted_of_fits recorded⟩

/-- The kernel after the first turn and `count` more ones. -/
def turnos : Nat → Kernel
  | 0 => firstTurn.foldl ColaEvent.after noEnv
  | count + 1 => ColaEvent.after (turnos count) (.yield 0)

theorem alternates_firstTurn : (turnos 0).Alternates 0 1 := by
  have kept : Kept True True (turnos 0) :=
    kept_of_colaReachable (fun _ _ _ keeps => keeps.1) reachable_firstTurn
  have others : ∀ g < nenv, ((turnos 0).envs g).envStatus ≠ .free →
      g = 0 ∨ g = 1 := by
    decide +kernel
  have below : ∀ g, ((turnos 0).envs g).envStatus ≠ .free → g < nenv := by
    intro g alive
    rw [← kept.sound.slot g (kept.sound.live g alive)]
    exact Nat.mod_lt _ (by decide)
  exact
    { kept := kept
      current := by decide +kernel
      running := by decide +kernel
      runnable := show _ = _ by decide +kernel
      others := fun g alive => others g (below g alive) alive
      mapped := by
        intro g alive
        rcases others g (below g alive) alive with rfl | rfl
        · decide +kernel
        · decide +kernel
      lowered := by decide +kernel
      totales := by decide +kernel
      ultimo := by decide +kernel }

/-- The environments take turns until the counters of `cola_a` overflow. -/
theorem not_accounted_after_turnos :
    ∃ count calls, Recorded ColaEvent.Ordinary calls (turnos count) ∧
      ¬ ((turnos count).Accounted calls ∧ (turnos count).Promotes) := by
  by_contra none
  have accounted : ∀ count calls,
      Recorded ColaEvent.Ordinary calls (turnos count) →
        (turnos count).Promotes := by
    intro count calls recorded
    by_contra fails
    exact none ⟨count, calls, recorded, fun holds => fails holds.2⟩
  have forever : ∀ count : Nat, ∃ calls e f,
      Recorded ColaEvent.Ordinary calls (turnos count) ∧
        (turnos count).Alternates e f ∧ count ≤ (turnos count).avance := by
    intro count
    induction count with
    | zero =>
        obtain ⟨calls, recorded⟩ := exists_recorded
          (reachable_firstTurn.weaken fun _ _ keeps => keeps.2)
        exact ⟨calls, 0, 1, recorded, alternates_firstTurn, by decide +kernel⟩
    | succ count induction =>
        obtain ⟨calls, e, f, recorded, alternates, advanced⟩ := induction
        obtain ⟨next, step, turn, further⟩ :=
          alternates_step alternates (accounted count calls recorded)
        have same : turnos (count + 1) = next := by
          change (((ColaEvent.yield 0).entry (turnos count)).finalState).getD _ = _
          rw [step.2, Option.getD_some]
        have ordinary : (ColaEvent.yield 0).Ordinary (turnos count) :=
          (alternates.kept.covered trivial).room
        rw [same]
        exact ⟨_, f, e, recorded.step ordinary step, turn, by omega⟩
  obtain ⟨count, large⟩ : ∃ count : Nat, count = 2147483648 * 51 := ⟨_, rfl⟩
  obtain ⟨-, e, f, -, alternates, advanced⟩ := forever count
  have high := ((turnos count).mlfq.colas 0).ultimo.toInt_lt
  have few := alternates.totales.2
  unfold Kernel.avance at advanced
  omega

end FeaturesOS.Scheduler

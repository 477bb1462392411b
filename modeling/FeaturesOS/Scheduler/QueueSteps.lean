import FeaturesOS.Scheduler.Selection

/-!
# Single steps of the queues

What `promover_colas`, `prioridad_MLFQ` and `sys_env_asignar_prioridad` do to
queues of any length and at any offset.  An `int` counter at its end and a full
ring are the only obstacles.
-/

namespace FeaturesOS.Scheduler

open Entry

/-- A queue with its counters in order and at most `NENV` entries. -/
structure MlfqCola.Anillo (cola : MlfqCola) : Prop where
  primero : 0 ≤ cola.primero.toInt
  ultimo : cola.primero.toInt ≤ cola.ultimo.toInt
  room : cola.contenido.length ≤ nenv

instance (cola : MlfqCola) : Decidable cola.Anillo :=
  decidable_of_iff
    (0 ≤ cola.primero.toInt ∧ cola.primero.toInt ≤ cola.ultimo.toInt ∧
      cola.contenido.length ≤ nenv)
    ⟨fun ⟨primero, ultimo, room⟩ => ⟨primero, ultimo, room⟩,
      fun anillo => ⟨anillo.primero, anillo.ultimo, anillo.room⟩⟩

namespace MlfqCola

variable {cola : MlfqCola}

theorem Anillo.ordenada (anillo : cola.Anillo) : cola.Ordenada :=
  ⟨anillo.primero, .inl anillo.ultimo⟩

theorem Anillo.valid (anillo : cola.Anillo) : 0 ≤ cola.ultimo.toInt :=
  Int.le_trans anillo.primero anillo.ultimo

end MlfqCola

namespace Kernel

/-- The four queues are rings. -/
def Anillos (kernel : Kernel) : Prop := ∀ q, (kernel.mlfq.colas q).Anillo

instance (kernel : Kernel) : Decidable kernel.Anillos :=
  inferInstanceAs (Decidable (∀ _, _))

/-- The entries of a queue from `primero` to `ultimo`. -/
def contenido (kernel : Kernel) (q : Fin 4) : List UInt32 :=
  (kernel.mlfq.colas q).contenido

/-- What `promover_colas` moves: `cola_b`, then `cola_c`, then `cola_d`. -/
def promovidas (kernel : Kernel) : List UInt32 :=
  kernel.contenido 1 ++ kernel.contenido 2 ++ kernel.contenido 3

end Kernel

variable {kernel next : Kernel}

/-! ## Promotion -/

/-- The first queue has taken in the entries of the other three, in order. -/
structure Kernel.PromotesTo (kernel next : Kernel) : Prop where
  colaA : next.contenido 0 = kernel.contenido 0 ++ kernel.promovidas
  vacias : ∀ q, q ≠ 0 → next.contenido q = []
  colaActual : ∀ envId ∈ kernel.promovidas,
    (next.envs (envx envId)).colaActual = 0

/-- `promover_colas` promotes every entry. -/
def Kernel.PromotesAll (kernel : Kernel) : Prop :=
  ∃ next, promoverColas kernel = .returns () next ∧ kernel.PromotesTo next

theorem ledger_promoverColas (anillos : kernel.Anillos)
    (returns : promoverColas kernel = .returns () next) :
    next.ledger = kernel.ledger.promover := by
  have promoted : Triple _ _ _ fun _ => True := triple_promoverColas
    fun ledger => ledger = kernel.ledger.promover
  exact promoted.of_returns ⟨fun q => (anillos q).ordenada, rfl⟩ returns

/-- Without an overflow nothing is lost on the way to the first queue. -/
theorem promotes_of_ledger (anillos : kernel.Anillos)
    (promoted : next.ledger = kernel.ledger.promover)
    (cabe : (kernel.mlfq.colas 0).Cabe kernel.promovidas.length) :
    kernel.PromotesTo next := by
  have colas : ∀ q, next.mlfq.colas q = kernel.ledger.promover.colas q :=
    fun q => congrFun (congrArg Ledger.colas promoted) q
  constructor
  · unfold Kernel.contenido
    rw [colas 0]
    exact (MlfqCola.agregarTodos_eq (anillos 0).ordenada (anillos 0).valid
      cabe).1
  · intro q later
    unfold Kernel.contenido
    rw [colas q]
    unfold Ledger.promover
    dsimp only
    rw [if_neg later]
    exact MlfqCola.contenido_vaciada
  · intro envId member
    change next.ledger.colaActual (envx envId) = 0
    rw [promoted]
    exact if_pos (List.mem_map_of_mem member)

/-- An overflow of `ultimo` empties the first queue. -/
theorem below_of_promotes (promoted : next.ledger = kernel.ledger.promover)
    (promotes : kernel.PromotesTo next) :
    (kernel.mlfq.colas 0).ultimo.toInt + kernel.promovidas.length <
      2147483648 := by
  by_contra overflow
  have emptied := MlfqCola.contenido_of_negative
    (MlfqCola.agregarTodos_overflows (Int.not_lt.mp overflow))
  have colaA := promotes.colaA
  have first : next.contenido 0 = [] := by
    change (next.ledger.colas 0).contenido = []
    rw [promoted]
    exact emptied
  rw [first] at colaA
  have none := (List.append_eq_nil_iff.mp colaA.symm).2
  have high := (kernel.mlfq.colas 0).ultimo.toInt_lt
  rw [none, List.length_nil] at overflow
  omega

/-- The promotion succeeds exactly when `ultimo` of the first queue stays an
`int`. -/
theorem promotesAll_iff (anillos : kernel.Anillos)
    (room : (kernel.contenido 0).length + kernel.promovidas.length ≤ nenv) :
    kernel.PromotesAll ↔
      (kernel.mlfq.colas 0).ultimo.toInt + kernel.promovidas.length <
        2147483648 := by
  constructor
  · rintro ⟨next, returns, promotes⟩
    exact below_of_promotes (ledger_promoverColas anillos returns) promotes
  · intro below
    have cabe : (kernel.mlfq.colas 0).Cabe kernel.promovidas.length :=
      ⟨room, below⟩
    obtain ⟨next, returns⟩ := promoverColas_returns
      (fun q => (anillos q).ordenada) (anillos 0).valid cabe
    exact ⟨next, returns, promotes_of_ledger anillos
      (ledger_promoverColas anillos returns) cabe⟩

/-- A queue with one entry, at the end of the ring. -/
def unica (envId : UInt32) : MlfqCola :=
  { envs := fun _ => envId, ultimo := 1024, primero := 1023 }

/-- A kernel with a given first queue and one entry in the second. -/
def queued (colaA : MlfqCola) : Kernel :=
  (noEnv.setCola 0 colaA).setCola 1 (unica 4096)

/-- A first queue without entries, whose counters have reached `contador`. -/
def vacia (contador : Int32) : MlfqCola :=
  { envs := fun _ => 0, ultimo := contador, primero := contador }

/-- A queue with the given entries from the counter `primero` on. -/
def anillo (primero : Nat) (entradas : List UInt32) : MlfqCola where
  envs i := entradas.getD ((i + nenv - primero % nenv) % nenv) 0
  ultimo := Int32.ofNat (primero + entradas.length)
  primero := Int32.ofNat primero

/-- Two environments can run, the last two of the second queue.  The entries of
the first three queues go beyond the end of the array. -/
def cuatroColas : Kernel :=
  { noEnv with
    envs := fun e =>
      { noEnv.envs e with
        envStatus := if e = 3 ∨ e = 4 then .runnable else .notRunnable
        envPgdir := some 0 }
    mlfq :=
      { colas := fun q => match q.val with
          | 0 => anillo 1022 [4096, 4097, 4103]
          | 1 => anillo 3071 [4098, 4099, 4100]
          | 2 => anillo 1023 [4101, 4102]
          | _ => anillo 7 []
        ejecucionesTotales := 49 } }

theorem promotesAll_cuatroColas : cuatroColas.PromotesAll :=
  (promotesAll_iff (by decide +kernel) (by decide +kernel)).mpr
    (by decide +kernel)

/-- The promoted entry is behind an `ultimo` that has become negative. -/
theorem not_promotesAll_overflow :
    ¬ ∀ kernel : Kernel, kernel.Anillos →
      (kernel.contenido 0).length + kernel.promovidas.length ≤ nenv →
      kernel.PromotesAll := by
  intro all
  have anillos : (queued (vacia 2147483647)).Anillos := by decide +kernel
  have room : ((queued (vacia 2147483647)).contenido 0).length +
      (queued (vacia 2147483647)).promovidas.length ≤ nenv := by
    decide +kernel
  obtain ⟨next, returns, promotes⟩ := all _ anillos room
  have below := below_of_promotes (ledger_promoverColas anillos returns) promotes
  revert below
  decide +kernel

/-! ## One dispatch -/

/-- `envId` is the first entry of a runnable environment in the queue `q`, and no
earlier queue has one. -/
structure Kernel.FirstRunnable (kernel : Kernel) (q : Fin 4) (front : List UInt32)
    (envId : UInt32) (back : List UInt32) : Prop where
  split : kernel.contenido q = front ++ envId :: back
  runnable : kernel.Runnable (envx envId)
  waiting : ∀ other ∈ front, ¬ kernel.Runnable (envx other)
  higher : ∀ p, p < q → ∀ other ∈ kernel.contenido p,
    ¬ kernel.Runnable (envx other)

/-- The entries whose environments are runnable. -/
def Kernel.ejecutables (kernel : Kernel) (entries : List UInt32) :
    List UInt32 :=
  entries.filter fun envId => decide (kernel.Runnable (envx envId))

/-- The entries that a queue has beside the dispatched one. -/
def Kernel.restantes (kernel : Kernel) (q : Fin 4) (front back : List UInt32)
    (p : Fin 4) : List UInt32 :=
  if p = q then front ++ back else kernel.contenido p

/-- The dispatched entry has moved to the tail of the next queue. -/
structure Kernel.Demotes (kernel moved : Kernel) (q : Fin 4)
    (front : List UInt32) (envId : UInt32) (back : List UInt32) : Prop where
  colas : ∀ p, ∃ others,
    moved.contenido p =
        others ++ (if p = siguienteCola q then [envId] else []) ∧
      others.Perm (kernel.restantes q front back p) ∧
      kernel.ejecutables others =
        kernel.ejecutables (kernel.restantes q front back p)
  colaActual : (moved.envs (envx envId)).colaActual = (siguienteCola q).val
  others : ∀ e, e ≠ envx envId →
    (moved.envs e).colaActual = (kernel.envs e).colaActual
  total : moved.mlfq.ejecucionesTotales.toInt =
    kernel.mlfq.ejecucionesTotales.toInt + 1

/-- `prioridad_MLFQ` moves the first runnable entry and leaves the kernel for its
environment. -/
def Kernel.DispatchesFirst (kernel : Kernel) (cpu : Nat) : Prop :=
  ∃ q front envId back next, kernel.FirstRunnable q front envId back ∧
    prioridadMlfq cpu kernel = .leaves next ∧
    next.cpus cpu = some (envx envId) ∧
    kernel.Demotes next q front envId back

/-- The first runnable environment has an address space, the counters do not
overflow, and the next queue of its entry has a free place or begins with the
entry itself. -/
def Kernel.AdmitsNext (kernel : Kernel) : Prop :=
  ∀ q front envId back, kernel.FirstRunnable q front envId back →
    (kernel.envs (envx envId)).envPgdir ≠ none ∧
      kernel.mlfq.ejecucionesTotales.toInt < 2147483647 ∧
      (kernel.mlfq.colas (siguienteCola q)).ultimo.toInt < 2147483647 ∧
      (siguienteCola q = q ∨
        (kernel.contenido (siguienteCola q)).length < nenv ∨
        (kernel.contenido (siguienteCola q)).head? = some envId)

/-- `env_run` needs an address space. -/
theorem envRun_mapped {cpu e : Nat}
    (left : (envRun cpu e : KernelM Unit) kernel = .leaves next) :
    (kernel.envs e).envPgdir ≠ none := by
  intro found
  have absent : ((kernel.despachado cpu e).envs e).envPgdir = none :=
    ((despachado_keeps cpu e kernel).2 e).1.trans found
  unfold Kernel.despachado at absent
  unfold envRun at left
  rw [modify_bind_run, modify_bind_run, read_bind_run, absent] at left
  cases left

/-- `env_run` leaves the queues as they are. -/
theorem mlfq_envRun {cpu e : Nat}
    (left : (envRun cpu e : KernelM Unit) kernel = .leaves next) :
    next.cpus cpu = some e ∧ next.mlfq = kernel.mlfq ∧
      ∀ f, (next.envs f).colaActual = (kernel.envs f).colaActual := by
  have keeps := despachado_keeps cpu e kernel
  rw [envRun_leaves (envRun_mapped left)] at left
  cases left
  exact ⟨despachado_current cpu e kernel, keeps.1, fun f => (keeps.2 f).2⟩

theorem Kernel.FirstRunnable.takeWhile {q : Fin 4} {front back : List UInt32}
    {envId : UInt32} (first : kernel.FirstRunnable q front envId back) :
    ((kernel.contenido q).takeWhile fun other =>
      !decide (kernel.Runnable (envx other))) = front := by
  rw [first.split, List.takeWhile_append_of_pos]
  · simp [first.runnable]
  · intro other member
    simpa using first.waiting other member

/-- There is only one first runnable entry. -/
theorem Kernel.FirstRunnable.unique {q p : Fin 4}
    {front front' back back' : List UInt32} {envId envId' : UInt32}
    (first : kernel.FirstRunnable q front envId back)
    (other : kernel.FirstRunnable p front' envId' back') :
    q = p ∧ front = front' ∧ envId = envId' ∧ back = back' := by
  have member : envId ∈ kernel.contenido q := by
    rw [first.split]
    simp
  have member' : envId' ∈ kernel.contenido p := by
    rw [other.split]
    simp
  obtain rfl : q = p := by
    rcases Nat.lt_trichotomy q.val p.val with below | same | above
    · exact absurd first.runnable (other.higher q below envId member)
    · exact Fin.ext same
    · exact absurd other.runnable (first.higher p above envId' member')
  have sameFront : front = front' := first.takeWhile.symm.trans other.takeWhile
  have whole := first.split.symm.trans other.split
  rw [sameFront] at whole
  have rest := List.append_cancel_left whole
  exact ⟨rfl, sameFront, (List.cons.inj rest).1, (List.cons.inj rest).2⟩

/-- What `obtener_cola_mejor_prioridad` finds is the first runnable entry. -/
theorem firstRunnable_of_found (anillos : kernel.Anillos) {q : Fin 4} {i : Nat}
    (found : kernel.colaMejorPrioridad [0, 1, 2, 3] = some (some (q, i))) :
    ∃ front back, i ∈ (kernel.mlfq.colas q).ring.counters ∧
      front.length = i - (kernel.mlfq.colas q).ring.first ∧
      kernel.FirstRunnable q front (kernel.entrada q i) back := by
  have ordenada := fun q => (anillos q).ordenada
  obtain ⟨counters, visited, first⟩ := kernel.colaMejorPrioridad_find found
  have same := MlfqCola.recorrido_eq (ordenada q)
  rw [visited] at same
  obtain rfl := Option.some.inj same
  have isCounter := List.mem_of_find?_eq_some first
  obtain ⟨runnable, before, after, split, waiting⟩ :=
    List.find?_eq_some_iff_append.mp first
  have place : before.length = i - (kernel.mlfq.colas q).ring.first := by
    have here : (kernel.mlfq.colas q).ring.counters[before.length]? = some i := by
      rw [split]
      simp
    unfold Ring.counters at here
    obtain ⟨below, value⟩ := List.getElem?_eq_some_iff.mp here
    rw [List.getElem_range'] at value
    omega
  refine ⟨before.map (kernel.entrada q), after.map (kernel.entrada q),
    isCounter, ?_, ?_, ?_, ?_, ?_⟩
  · rw [List.length_map, place]
  · change (kernel.mlfq.colas q).ring.counters.map (kernel.entrada q) = _
    rw [split, List.map_append, List.map_cons]
  · exact of_decide_eq_true runnable
  · intro other member
    obtain ⟨j, isBefore, rfl⟩ := List.mem_map.mp member
    simpa [Kernel.entrada] using waiting j isBefore
  · intro p below other member
    obtain ⟨j, isOther, rfl⟩ := List.mem_map.mp member
    intro isRunnable
    have least := colaMejorPrioridad_first ordenada (by decide) found
      (show p ∈ [0, 1, 2, 3] by
        match p with
        | 0 => decide
        | 1 => decide
        | 2 => decide
        | 3 => decide) isOther isRunnable
    exact absurd below (Nat.not_lt.mpr least)

section Dispatch

variable {q : Fin 4} {front back : List UInt32} {envId : UInt32}
variable {i : Nat} {removed : MlfqCola}

theorem Kernel.Demotes.congr {moved : Kernel}
    (demotes : kernel.Demotes moved q front envId back)
    (mlfq : next.mlfq = moved.mlfq)
    (colaActual : ∀ f, (next.envs f).colaActual = (moved.envs f).colaActual) :
    kernel.Demotes next q front envId back := by
  constructor
  · unfold Kernel.contenido
    rw [mlfq]
    exact demotes.colas
  · rw [colaActual]
    exact demotes.colaActual
  · intro e different
    rw [colaActual]
    exact demotes.others e different
  · rw [mlfq]
    exact demotes.total

/-- Without the dispatched entry its queue has the first entry in its place. -/
theorem contenido_removed (anillos : kernel.Anillos)
    (first : kernel.FirstRunnable q front envId back)
    (isCounter : i ∈ (kernel.mlfq.colas q).ring.counters)
    (place : front.length = i - (kernel.mlfq.colas q).ring.first)
    (borrado : (kernel.mlfq.colas q).borrar (i % nenv) = some removed) :
    removed.contenido = front.rotate 1 ++ back := by
  rw [MlfqCola.contenido_borrar (anillos q).ordenada isCounter (anillos q).room
    borrado, ← place]
  change Ring.moveHead (kernel.contenido q) _ = _
  rw [first.split, Ring.moveHead_length]

/-- The entries in front of the dispatched one are not runnable, so a rotation
of them does not matter. -/
theorem Kernel.FirstRunnable.ejecutables
    (first : kernel.FirstRunnable q front envId back) :
    kernel.ejecutables (front.rotate 1 ++ back) =
      kernel.ejecutables (front ++ back) := by
  have none : ∀ entries : List UInt32, entries.Perm front →
      kernel.ejecutables entries = [] := by
    intro entries perm
    unfold Kernel.ejecutables
    rw [List.filter_eq_nil_iff]
    intro other member
    simpa using first.waiting other (perm.mem_iff.mp member)
  have front' := none front (List.Perm.refl front)
  have rotated := none _ (List.rotate_perm front 1)
  unfold Kernel.ejecutables at front' rotated ⊢
  rw [List.filter_append, List.filter_append, front', rotated]

end Dispatch

/-! ### Where the entry goes -/

/-- An overflow of `ultimo` empties the queue. -/
theorem MlfqCola.contenido_agregar_overflow {cola : MlfqCola} (envId : UInt32)
    (valid : 0 ≤ cola.ultimo.toInt) (overflow : ¬ cola.ultimo.toInt < 2147483647) :
    (cola.agregar envId).contenido = [] := by
  apply contenido_of_negative
  rw [agregar_eq valid, toInt_succ, if_neg overflow]
  omega

/-- Appending keeps the other entries when the counter does not overflow and the
queue has a free place, or begins with the entry itself. -/
theorem MlfqCola.agregar_keeps_iff {cola : MlfqCola} (anillo : cola.Anillo)
    (envId : UInt32) (chosen : UInt32 → Bool) :
    (∃ others, (cola.agregar envId).contenido = others ++ [envId] ∧
      others.Perm cola.contenido ∧
      others.filter chosen = cola.contenido.filter chosen) ↔
      cola.ultimo.toInt < 2147483647 ∧
        (cola.contenido.length < nenv ∨
          cola.contenido.head? = some envId) := by
  by_cases below : cola.ultimo.toInt < 2147483647
  · by_cases room : cola.contenido.length < nenv
    · have appended := contenido_agregar envId anillo.ordenada
        ⟨room, by omega⟩ anillo.valid
      refine iff_of_true ?_ ⟨below, .inl room⟩
      exact ⟨cola.contenido, appended, List.Perm.refl _, rfl⟩
    · have full : cola.contenido.length = nenv :=
        Nat.le_antisymm anillo.room (Nat.le_of_not_lt room)
      rw [contenido_agregar_full envId anillo.valid below full]
      obtain ⟨head, tail, entries⟩ : ∃ head tail,
          cola.contenido = head :: tail := by
        apply List.exists_cons_of_ne_nil
        intro empty
        rw [empty] at full
        cases full
      rw [entries] at room ⊢
      rw [List.set_cons_zero, List.head?_cons, Option.some.injEq]
      constructor
      · rintro ⟨others, appended, perm, -⟩
        have same := List.append_cancel_right appended
        rw [← same] at perm
        have counts := perm.count_eq envId
        rw [List.count_cons_self, List.count_cons] at counts
        refine ⟨below, .inr ?_⟩
        by_contra different
        simp [different] at counts
      · rintro ⟨-, free | rfl⟩
        · exact absurd free room
        · exact ⟨_, rfl, List.Perm.refl _, rfl⟩
  · rw [contenido_agregar_overflow envId anillo.valid below]
    constructor
    · rintro ⟨others, appended, -⟩
      exact absurd appended.symm (List.append_ne_nil_of_right_ne_nil _
        (List.cons_ne_nil _ _))
    · exact fun fits => absurd fits.1 below

/-- The next queue when the dispatched entry has left its own. -/
def Kernel.destino (kernel : Kernel) (q : Fin 4) (removed : MlfqCola) :
    MlfqCola :=
  if siguienteCola q = q then removed else kernel.mlfq.colas (siguienteCola q)

section Dispatch

variable {q : Fin 4} {front back : List UInt32} {envId : UInt32}
variable {i : Nat} {removed : MlfqCola}

theorem contenido_elegido (p : Fin 4) :
    (kernel.elegido q i removed).contenido p =
      if p = siguienteCola q then
        ((kernel.destino q removed).agregar (kernel.entrada q i)).contenido
      else if p = q then removed.contenido else kernel.contenido p := by
  have colas : (kernel.elegido q i removed).mlfq.colas = Function.update
      (Function.update kernel.mlfq.colas q removed) (siguienteCola q)
      ((Function.update kernel.mlfq.colas q removed (siguienteCola q)).agregar
        (kernel.entrada q i)) := rfl
  unfold Kernel.contenido
  rw [colas]
  by_cases isNext : p = siguienteCola q
  · rw [if_pos isNext, isNext, Function.update_self]
    unfold Kernel.destino
    by_cases last : siguienteCola q = q
    · rw [if_pos last, last, Function.update_self]
    · rw [if_neg last, Function.update_of_ne last]
  · rw [if_neg isNext, Function.update_of_ne isNext]
    by_cases own : p = q
    · rw [if_pos own, own, Function.update_self]
    · rw [if_neg own, Function.update_of_ne own]

/-- A queue is still a ring without one of its entries. -/
theorem MlfqCola.Anillo.borrar {cola : MlfqCola} (anillo : cola.Anillo)
    (isCounter : i ∈ cola.ring.counters)
    (borrado : cola.borrar (i % nenv) = some removed) : removed.Anillo := by
  have perm := MlfqCola.borrar_perm anillo.ordenada isCounter anillo.room borrado
  have ordenada := anillo.ordenada.borrar isCounter borrado
  have valid := anillo.valid
  have ultimo := (MlfqCola.borrar_ultimo borrado).1
  have room := anillo.room
  have shorter := perm.length_eq
  rw [List.length_cons] at shorter
  constructor
  · exact ordenada.primero
  · rcases ordenada.ultimo with inOrder | negative
    · exact inOrder
    · rw [ultimo] at negative
      omega
  · omega

/-- The next queue before the entry arrives. -/
structure Kernel.Receives (kernel : Kernel) (q : Fin 4) (front back : List UInt32)
    (destino : MlfqCola) : Prop where
  anillo : destino.Anillo
  ultimo : destino.ultimo = (kernel.mlfq.colas (siguienteCola q)).ultimo
  perm : destino.contenido.Perm
    (kernel.restantes q front back (siguienteCola q))
  ejecutables : kernel.ejecutables destino.contenido =
    kernel.ejecutables (kernel.restantes q front back (siguienteCola q))

theorem receives_destino (anillos : kernel.Anillos)
    (first : kernel.FirstRunnable q front (kernel.entrada q i) back)
    (isCounter : i ∈ (kernel.mlfq.colas q).ring.counters)
    (place : front.length = i - (kernel.mlfq.colas q).ring.first)
    (borrado : (kernel.mlfq.colas q).borrar (i % nenv) = some removed) :
    kernel.Receives q front back (kernel.destino q removed) := by
  unfold Kernel.destino
  by_cases last : siguienteCola q = q
  · have contenido := contenido_removed anillos first isCounter place borrado
    rw [if_pos last]
    constructor
    · exact (anillos q).borrar isCounter borrado
    · rw [last]
      exact (MlfqCola.borrar_ultimo borrado).1
    · rw [contenido, last, Kernel.restantes, if_pos rfl]
      exact (List.rotate_perm front 1).append_right back
    · rw [contenido, last, Kernel.restantes, if_pos rfl]
      exact first.ejecutables
  · have same : kernel.restantes q front back (siguienteCola q) =
        kernel.contenido (siguienteCola q) := if_neg last
    rw [if_neg last]
    constructor
    · exact anillos _
    · rfl
    · rw [same]
      exact List.Perm.refl _
    · rw [same]
      rfl

/-- Only the next queue can lose an entry. -/
theorem demotes_elegido_iff (anillos : kernel.Anillos)
    (first : kernel.FirstRunnable q front (kernel.entrada q i) back)
    (isCounter : i ∈ (kernel.mlfq.colas q).ring.counters)
    (place : front.length = i - (kernel.mlfq.colas q).ring.first)
    (borrado : (kernel.mlfq.colas q).borrar (i % nenv) = some removed) :
    kernel.Demotes (kernel.elegido q i removed) q front (kernel.entrada q i)
        back ↔
      kernel.mlfq.ejecucionesTotales.toInt < 2147483647 ∧
        (kernel.destino q removed).ultimo.toInt < 2147483647 ∧
        ((kernel.destino q removed).contenido.length < nenv ∨
          (kernel.destino q removed).contenido.head? =
            some (kernel.entrada q i)) := by
  have receives := receives_destino anillos first isCounter place borrado
  have counted : (kernel.elegido q i removed).mlfq.ejecucionesTotales =
      kernel.mlfq.ejecucionesTotales + 1 := rfl
  have keeps := MlfqCola.agregar_keeps_iff receives.anillo (kernel.entrada q i)
    fun other => decide (kernel.Runnable (envx other))
  constructor
  · intro demotes
    have total := demotes.total
    rw [counted, toInt_succ] at total
    constructor
    · by_contra overflow
      rw [if_neg overflow] at total
      have low := kernel.mlfq.ejecucionesTotales.le_toInt
      omega
    · obtain ⟨others, moved, perm, order⟩ := demotes.colas (siguienteCola q)
      rw [contenido_elegido, if_pos rfl, if_pos rfl] at moved
      apply keeps.mp
      exact ⟨others, moved, perm.trans receives.perm.symm,
        order.trans receives.ejecutables.symm⟩
  · rintro ⟨below, fits⟩
    obtain ⟨others, moved, perm, order⟩ := keeps.mpr fits
    constructor
    · intro p
      rw [contenido_elegido]
      by_cases isNext : p = siguienteCola q
      · rw [if_pos isNext, if_pos isNext, isNext]
        exact ⟨others, moved, perm.trans receives.perm,
          order.trans receives.ejecutables⟩
      · rw [if_neg isNext, if_neg isNext]
        by_cases own : p = q
        · have contenido := contenido_removed anillos first isCounter place
            borrado
          rw [if_pos own, contenido, Kernel.restantes, if_pos own]
          exact ⟨_, (List.append_nil _).symm,
            (List.rotate_perm front 1).append_right back, first.ejecutables⟩
        · rw [if_neg own, Kernel.restantes, if_neg own]
          exact ⟨_, (List.append_nil _).symm, List.Perm.refl _, rfl⟩
    · exact elegido_colaActual kernel q i removed
    · intro e different
      simp [Kernel.elegido, Kernel.agregado, Kernel.contarEjecucion,
        Kernel.contarTotal, Kernel.setCola, Kernel.updateEnv, Kernel.setEnv,
        different]
    · rw [counted, toInt_succ, if_pos below]

/-- The last queue has a free place once its own entry has left. -/
theorem admits_destino (anillos : kernel.Anillos)
    (first : kernel.FirstRunnable q front envId back)
    (receives : kernel.Receives q front back (kernel.destino q removed)) :
    ((kernel.destino q removed).contenido.length < nenv ∨
        (kernel.destino q removed).contenido.head? = some envId) ↔
      siguienteCola q = q ∨
        (kernel.contenido (siguienteCola q)).length < nenv ∨
        (kernel.contenido (siguienteCola q)).head? = some envId := by
  by_cases last : siguienteCola q = q
  · have whole := congrArg List.length first.split
    have room := (anillos q).room
    have rest := receives.perm.length_eq
    rw [Kernel.restantes, if_pos last, List.length_append] at rest
    rw [List.length_append, List.length_cons] at whole
    unfold Kernel.contenido at whole
    refine iff_of_true (.inl ?_) (.inl last)
    omega
  · unfold Kernel.destino Kernel.contenido
    rw [if_neg last, or_iff_right last]

end Dispatch

section Dispatch

variable {cpu : Nat}

/-- The call for a queue with a runnable environment, up to `env_run`. -/
theorem prioridadMlfq_first (cpu : Nat) (anillos : kernel.Anillos)
    (waits : ∃ q, ∃ envId ∈ kernel.contenido q,
      kernel.Runnable (envx envId)) :
    ∃ q front envId back chosen, kernel.FirstRunnable q front envId back ∧
      prioridadMlfq cpu kernel = envRun cpu (envx envId) chosen ∧
      (chosen.envs (envx envId)).envPgdir =
        (kernel.envs (envx envId)).envPgdir ∧
      (kernel.Demotes chosen q front envId back ↔
        kernel.mlfq.ejecucionesTotales.toInt < 2147483647 ∧
          (kernel.mlfq.colas (siguienteCola q)).ultimo.toInt < 2147483647 ∧
          (siguienteCola q = q ∨
            (kernel.contenido (siguienteCola q)).length < nenv ∨
            (kernel.contenido (siguienteCola q)).head? = some envId)) := by
  obtain ⟨p, other, member, runnable⟩ := waits
  obtain ⟨j, isCounter, rfl⟩ := List.mem_map.mp member
  have all : p ∈ [0, 1, 2, 3] := by
    match p with
    | 0 => decide
    | 1 => decide
    | 2 => decide
    | 3 => decide
  obtain ⟨q, i, found⟩ := colaMejorPrioridad_finds
    (fun q => (anillos q).ordenada) all isCounter runnable
  obtain ⟨front, back, visited, place, first⟩ :=
    firstRunnable_of_found anillos found
  obtain ⟨removed, borrado, chosen⟩ := prioridadMlfq_elige cpu
    (anillos q).ordenada (fun q => (anillos q).valid) found
  have receives := receives_destino anillos first visited place borrado
  have demotes := demotes_elegido_iff anillos first visited place borrado
  rw [receives.ultimo, admits_destino anillos first receives] at demotes
  exact ⟨q, front, _, back, _, first, chosen, elegido_keeps _ _ _ _ _,
    demotes⟩

theorem admitsNext_of_dispatchesFirst (anillos : kernel.Anillos)
    (waits : ∃ q, ∃ envId ∈ kernel.contenido q,
      kernel.Runnable (envx envId))
    (dispatches : kernel.DispatchesFirst cpu) : kernel.AdmitsNext := by
  obtain ⟨q, front, envId, back, chosen, first, runs, mapped, demotes⟩ :=
    prioridadMlfq_first cpu anillos waits
  obtain ⟨q', front', envId', back', next, other, left, -, moves⟩ := dispatches
  obtain ⟨rfl, rfl, rfl, rfl⟩ := first.unique other
  rw [runs] at left
  have hasPgdir := envRun_mapped left
  have run := mlfq_envRun left
  rw [mapped] at hasPgdir
  have before : kernel.Demotes chosen q front envId back :=
    moves.congr run.2.1.symm fun f => (run.2.2 f).symm
  intro q' front' envId' back' again
  obtain ⟨rfl, rfl, rfl, rfl⟩ := first.unique again
  exact ⟨hasPgdir, demotes.mp before⟩

/-- One call dispatches the first runnable entry exactly when its next queue
admits it. -/
theorem dispatchesFirst_iff (anillos : kernel.Anillos)
    (waits : ∃ q, ∃ envId ∈ kernel.contenido q,
      kernel.Runnable (envx envId)) :
    kernel.DispatchesFirst cpu ↔ kernel.AdmitsNext := by
  constructor
  · exact admitsNext_of_dispatchesFirst anillos waits
  · intro admits
    obtain ⟨q, front, envId, back, chosen, first, runs, mapped, demotes⟩ :=
      prioridadMlfq_first cpu anillos waits
    obtain ⟨hasPgdir, fits⟩ := admits q front envId back first
    rw [← mapped] at hasPgdir
    have left : (envRun cpu (envx envId) : KernelM Unit) chosen = .leaves _ :=
      envRun_leaves hasPgdir
    have run := mlfq_envRun left
    exact ⟨q, front, envId, back, _, first, runs.trans left, run.1,
      (demotes.mpr fits).congr run.2.1 run.2.2⟩

/-- A queue with `NENV` entries of one environment. -/
def llena (envId : UInt32) : MlfqCola :=
  { envs := fun _ => envId, ultimo := 1024, primero := 0 }

/-- The entry of a runnable environment in the first queue, and a given second
queue. -/
def ready (colaB : MlfqCola) : Kernel :=
  ((noEnv.updateEnv 0 fun env =>
    { env with envStatus := .runnable, envPgdir := some 0 }).setCola 0
      (unica 4096)).setCola 1 colaB

theorem firstRunnable_ready (colaB : MlfqCola) :
    (ready colaB).FirstRunnable 0 [] 4096 [] := by
  have alone : (unica 4096).contenido = [4096] := by decide +kernel
  constructor
  · exact alone
  · rfl
  · simp
  · intro p below
    exact absurd below (Fin.not_lt_zero p)

theorem waits_ready (colaB : MlfqCola) :
    ∃ q, ∃ envId ∈ (ready colaB).contenido q,
      (ready colaB).Runnable (envx envId) := by
  have first := firstRunnable_ready colaB
  refine ⟨0, 4096, ?_, first.runnable⟩
  rw [first.split]
  simp

theorem dispatchesFirst_cuatroColas : cuatroColas.DispatchesFirst 0 := by
  have colaA : cuatroColas.contenido 0 = [4096, 4097, 4103] := by decide +kernel
  have second : cuatroColas.FirstRunnable 1 [4098] 4099 [4100] := by
    constructor
    · decide +kernel
    · show _ = _
      decide +kernel
    · intro other member
      rw [List.mem_singleton.mp member]
      decide +kernel
    · intro p below other member
      obtain rfl : p = 0 := Fin.ext (Nat.lt_one_iff.mp below)
      rw [colaA] at member
      rcases List.mem_cons.mp member with rfl | member
      · decide +kernel
      rcases List.mem_cons.mp member with rfl | member
      · decide +kernel
      rw [List.mem_singleton.mp member]
      decide +kernel
  refine (dispatchesFirst_iff (by decide +kernel)
    ⟨1, 4099, by decide +kernel, second.runnable⟩).mpr ?_
  intro q front envId back first
  obtain ⟨rfl, rfl, rfl, rfl⟩ := second.unique first
  decide +kernel

/-- The entry of the first environment overwrites the oldest one of a full
queue. -/
theorem not_dispatchesFirst_full :
    ¬ ∀ (kernel : Kernel) (cpu : Nat), kernel.Anillos →
      (∃ q, ∃ envId ∈ kernel.contenido q, kernel.Runnable (envx envId)) →
      kernel.DispatchesFirst cpu := by
  intro all
  have anillos : (ready (llena 4097)).Anillos := by decide +kernel
  have waits := waits_ready (llena 4097)
  have admits := admitsNext_of_dispatchesFirst anillos waits
    (all _ 0 anillos waits)
  have fits := admits 0 [] 4096 [] (firstRunnable_ready _)
  revert fits
  decide +kernel

end Dispatch

end FeaturesOS.Scheduler

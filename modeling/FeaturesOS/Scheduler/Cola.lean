import FeaturesOS.Ring
import FeaturesOS.Scheduler.Sched

/-!
# A queue of the scheduler as a ring

`struct MLFQ_cola` is a ring of `NENV` slots with `int` counters.  `primero`
never passes `ultimo`; only `ultimo` can overflow, and an overflow empties the
queue.
-/

namespace FeaturesOS.Scheduler

/-- `counter++` for an `int` that wraps around. -/
theorem toInt_succ (counter : Int32) :
    (counter + 1).toInt =
      if counter.toInt < 2147483647 then counter.toInt + 1
      else -2147483648 := by
  have low := counter.le_toInt
  have high := counter.toInt_lt
  rw [Int32.toInt_add, show (1 : Int32).toInt = 1 from rfl]
  unfold Int.bmod
  dsimp only
  split <;> split <;> omega

theorem posicion_eq {counter : Int32} (valid : 0 ≤ counter.toInt) :
    posicion counter = some (counter.toInt.toNat % nenv) := by
  have same : counter.toInt.tmod nenv =
      ((counter.toInt.toNat % nenv : Nat) : Int) := by
    rw [Int.tmod_eq_emod_of_nonneg valid, Int.natCast_emod,
      Int.toNat_of_nonneg valid]
  unfold posicion
  rw [same]
  rfl

namespace MlfqCola

def ring (cola : MlfqCola) : Ring UInt32 :=
  { slots := cola.envs
    first := cola.primero.toInt.toNat
    last := cola.ultimo.toInt.toNat }

/-- The entries between `primero` and `ultimo`. -/
def contenido (cola : MlfqCola) : List UInt32 := cola.ring.contents nenv

/-- `primero` is a position, and it has not passed an `ultimo` that is one. -/
structure Ordenada (cola : MlfqCola) : Prop where
  primero : 0 ≤ cola.primero.toInt
  ultimo : cola.primero.toInt ≤ cola.ultimo.toInt ∨ cola.ultimo.toInt < 0

/-- There is room for `count` more entries. -/
def Cabe (cola : MlfqCola) (count : Nat) : Prop :=
  cola.contenido.length + count ≤ nenv ∧
    cola.ultimo.toInt + count < 2147483648

/-- The queue after `sched_agregar_env`; nothing happens when that function
leaves the array. -/
def agregar (cola : MlfqCola) (envId : UInt32) : MlfqCola :=
  match posicion cola.ultimo with
  | none => cola
  | some position =>
      { cola with
        envs := Function.update cola.envs position envId
        ultimo := cola.ultimo + 1 }

variable {cola next : MlfqCola} {envId : UInt32} {i : Nat}

theorem recorrido_eq (ordenada : cola.Ordenada) :
    cola.recorrido = some cola.ring.counters := by
  have primero := ordenada.primero
  unfold recorrido Ring.counters ring
  dsimp only
  split
  · rename_i empty
    rw [show cola.ultimo.toInt.toNat - cola.primero.toInt.toNat = 0 by omega]
    rfl
  · congr 2
    omega

theorem mem_counters (ordenada : cola.Ordenada) :
    i ∈ cola.ring.counters ↔
      cola.primero.toInt ≤ i ∧ (i : Int) < cola.ultimo.toInt := by
  have primero := ordenada.primero
  rw [Ring.mem_counters]
  unfold ring
  dsimp only
  omega

/-! ## Appending -/

/-- A negative `ultimo` stays negative: the last one, -1, has no position. -/
theorem agregar_of_negative (envId : UInt32)
    (negative : cola.ultimo.toInt < 0) :
    (cola.agregar envId).ultimo.toInt < 0 := by
  unfold agregar
  cases found : posicion cola.ultimo with
  | none => exact negative
  | some position =>
      dsimp only
      have notLast : cola.ultimo.toInt ≠ -1 := by
        intro last
        unfold posicion at found
        rw [last] at found
        cases found
      rw [toInt_succ, if_pos (by omega)]
      omega

theorem agregar_eq (valid : 0 ≤ cola.ultimo.toInt) :
    cola.agregar envId =
      { cola with
        envs := Function.update cola.envs (cola.ultimo.toInt.toNat % nenv) envId
        ultimo := cola.ultimo + 1 } := by
  unfold agregar
  rw [posicion_eq valid]

theorem agregar_primero : (cola.agregar envId).primero = cola.primero := by
  unfold agregar
  split <;> rfl

theorem ring_agregar (valid : 0 ≤ cola.ultimo.toInt)
    (fits : cola.ultimo.toInt < 2147483647) :
    (cola.agregar envId).ring = cola.ring.push nenv envId := by
  rw [agregar_eq valid]
  unfold ring Ring.push
  dsimp only
  rw [toInt_succ, if_pos fits]
  congr 1
  omega

theorem contenido_of_negative (negative : cola.ultimo.toInt < 0) :
    cola.contenido = [] := by
  have none : cola.ring.counters = [] := by
    unfold Ring.counters ring
    dsimp only
    rw [show cola.ultimo.toInt.toNat - cola.primero.toInt.toNat = 0 by omega]
    rfl
  rw [contenido, Ring.contents, none, List.map_nil]

theorem contenido_agregar (envId : UInt32) (ordenada : cola.Ordenada)
    (cabe : cola.Cabe 1) (valid : 0 ≤ cola.ultimo.toInt) :
    (cola.agregar envId).contenido = cola.contenido ++ [envId] := by
  have primero := ordenada.primero
  have order := ordenada.ultimo
  obtain ⟨room, below⟩ := cabe
  unfold contenido at room ⊢
  rw [ring_agregar valid (by omega)]
  refine Ring.contents_push ?_ room
  unfold ring
  dsimp only
  omega

/-- In a full queue the new entry also overwrites the first one. -/
theorem contenido_agregar_full (envId : UInt32) (valid : 0 ≤ cola.ultimo.toInt)
    (below : cola.ultimo.toInt < 2147483647)
    (full : cola.contenido.length = nenv) :
    (cola.agregar envId).contenido = cola.contenido.set 0 envId ++ [envId] := by
  unfold contenido at full ⊢
  rw [ring_agregar valid below]
  exact Ring.contents_push_full full (by decide)

theorem contenido_agregar_sublist (envId : UInt32) (ordenada : cola.Ordenada)
    (room : cola.contenido.length < nenv) :
    (cola.agregar envId).contenido.Sublist (cola.contenido ++ [envId]) := by
  by_cases valid : 0 ≤ cola.ultimo.toInt
  · by_cases fits : cola.ultimo.toInt < 2147483647
    · have cabe : cola.Cabe 1 := ⟨room, by omega⟩
      rw [contenido_agregar envId ordenada cabe valid]
    · have negative : (cola.agregar envId).ultimo.toInt < 0 := by
        rw [agregar_eq valid, toInt_succ, if_neg fits]
        omega
      rw [contenido_of_negative negative]
      exact List.nil_sublist _
  · rw [contenido_of_negative (agregar_of_negative envId (by omega))]
    exact List.nil_sublist _

theorem Ordenada.agregar (ordenada : cola.Ordenada) (envId : UInt32) :
    (cola.agregar envId).Ordenada := by
  have primero := ordenada.primero
  have order := ordenada.ultimo
  constructor
  · rw [agregar_primero]
    exact primero
  · rw [agregar_primero]
    by_cases valid : 0 ≤ cola.ultimo.toInt
    · rw [agregar_eq valid]
      dsimp only
      rw [toInt_succ]
      split <;> omega
    · exact .inr (agregar_of_negative envId (by omega))

theorem agregar_ultimo (envId : UInt32) (valid : 0 ≤ cola.ultimo.toInt)
    (cabe : cola.Cabe 1) :
    (cola.agregar envId).ultimo.toInt = cola.ultimo.toInt + 1 := by
  have below := cabe.2
  rw [agregar_eq valid, toInt_succ, if_pos (by omega)]

theorem Cabe.agregar {count : Nat} (ordenada : cola.Ordenada)
    (valid : 0 ≤ cola.ultimo.toInt) (cabe : cola.Cabe (count + 1)) :
    (cola.agregar envId).Cabe count := by
  obtain ⟨room, below⟩ := cabe
  have one : cola.Cabe 1 := ⟨by omega, by omega⟩
  constructor
  · rw [contenido_agregar envId ordenada one valid, List.length_append,
      List.length_singleton]
    omega
  · rw [agregar_ultimo envId valid one]
    omega

/-- Append entries one after the other. -/
def agregarTodos (cola : MlfqCola) (entries : List UInt32) : MlfqCola :=
  entries.foldl MlfqCola.agregar cola

theorem agregarTodos_sublist {entries : List UInt32} (ordenada : cola.Ordenada)
    (room : cola.contenido.length + entries.length ≤ nenv) :
    (cola.agregarTodos entries).contenido.Sublist (cola.contenido ++ entries) ∧
      (cola.agregarTodos entries).Ordenada := by
  induction entries generalizing cola with
  | nil => exact ⟨by simp [agregarTodos], ordenada⟩
  | cons envId rest induction =>
      rw [List.length_cons] at room
      have first := contenido_agregar_sublist envId ordenada
        (by omega)
      have shorter := first.length_le
      rw [List.length_append, List.length_singleton] at shorter
      obtain ⟨others, ordered⟩ := induction (ordenada.agregar envId) (by omega)
      refine ⟨?_, ordered⟩
      have appended := first.append_right rest
      rw [List.append_assoc, List.singleton_append] at appended
      exact others.trans appended

theorem agregarTodos_eq {entries : List UInt32} (ordenada : cola.Ordenada)
    (valid : 0 ≤ cola.ultimo.toInt) (cabe : cola.Cabe entries.length) :
    (cola.agregarTodos entries).contenido = cola.contenido ++ entries ∧
      0 ≤ (cola.agregarTodos entries).ultimo.toInt := by
  induction entries generalizing cola with
  | nil => exact ⟨by simp [agregarTodos], valid⟩
  | cons envId rest induction =>
      have one : cola.Cabe 1 := by
        obtain ⟨room, below⟩ := cabe
        rw [List.length_cons] at room below
        exact ⟨by omega, by omega⟩
      have next := agregar_ultimo envId valid one
      obtain ⟨others, stays⟩ := induction (ordenada.agregar envId) (by omega)
        (Cabe.agregar ordenada valid cabe)
      refine ⟨?_, stays⟩
      change ((cola.agregar envId).agregarTodos rest).contenido = _
      rw [others, contenido_agregar envId ordenada one valid, List.append_assoc,
        List.singleton_append]

/-- Appending extends the queue unless `ultimo` overflows. -/
theorem agregar_cases (envId : UInt32) (ordenada : cola.Ordenada)
    (room : (cola.agregar envId).contenido.length ≤ nenv) :
    (cola.agregar envId).contenido = cola.contenido ++ [envId] ∨
      (cola.agregar envId).ultimo.toInt < 0 := by
  by_cases valid : 0 ≤ cola.ultimo.toInt
  · by_cases fits : cola.ultimo.toInt < 2147483647
    · left
      have primero := ordenada.primero
      have order := ordenada.ultimo
      have longer : (cola.agregar envId).contenido.length =
          cola.contenido.length + 1 := by
        unfold contenido
        rw [Ring.length_contents, Ring.length_contents,
          ring_agregar valid fits]
        unfold Ring.push ring
        dsimp only
        omega
      exact contenido_agregar envId ordenada ⟨by omega, by omega⟩ valid
    · right
      rw [agregar_eq valid, toInt_succ, if_neg fits]
      omega
  · exact .inr (agregar_of_negative envId (by omega))

theorem agregarTodos_of_negative {entries : List UInt32}
    (negative : cola.ultimo.toInt < 0) :
    (cola.agregarTodos entries).ultimo.toInt < 0 := by
  induction entries generalizing cola with
  | nil => exact negative
  | cons envId rest induction =>
      exact induction (agregar_of_negative envId negative)

theorem agregarTodos_cases {entries : List UInt32} (ordenada : cola.Ordenada)
    (room : cola.contenido.length + entries.length ≤ nenv) :
    (cola.agregarTodos entries).contenido = cola.contenido ++ entries ∨
      (cola.agregarTodos entries).ultimo.toInt < 0 := by
  induction entries generalizing cola with
  | nil => exact .inl (by simp [agregarTodos])
  | cons envId rest induction =>
      rw [List.length_cons] at room
      have shorter := (contenido_agregar_sublist envId ordenada
        (by omega)).length_le
      rw [List.length_append, List.length_singleton] at shorter
      rcases agregar_cases envId ordenada (by omega) with appended | negative
      · have others := induction (ordenada.agregar envId) (by omega)
        rw [appended, List.append_assoc, List.singleton_append] at others
        exact others
      · right
        change ((cola.agregar envId).agregarTodos rest).ultimo.toInt < 0
        exact agregarTodos_of_negative negative

theorem agregarTodos_ultimo {entries : List UInt32}
    (valid : 0 ≤ cola.ultimo.toInt)
    (below : cola.ultimo.toInt + entries.length < 2147483648) :
    (cola.agregarTodos entries).ultimo.toInt =
      cola.ultimo.toInt + entries.length := by
  induction entries generalizing cola with
  | nil => exact (Int.add_zero _).symm
  | cons envId rest induction =>
      rw [List.length_cons] at below ⊢
      have next : (cola.agregar envId).ultimo.toInt =
          cola.ultimo.toInt + 1 := by
        rw [agregar_eq valid, toInt_succ, if_pos (by omega)]
      have others : ((cola.agregar envId).agregarTodos rest).ultimo.toInt =
          (cola.agregar envId).ultimo.toInt + rest.length :=
        induction (by omega) (by omega)
      change ((cola.agregar envId).agregarTodos rest).ultimo.toInt = _
      omega

/-- `ultimo` overflows. -/
theorem agregarTodos_overflows {entries : List UInt32}
    (overflow : 2147483648 ≤ cola.ultimo.toInt + entries.length) :
    (cola.agregarTodos entries).ultimo.toInt < 0 := by
  induction entries generalizing cola with
  | nil =>
      have high := cola.ultimo.toInt_lt
      rw [List.length_nil] at overflow
      omega
  | cons envId rest induction =>
      rw [List.length_cons] at overflow
      change ((cola.agregar envId).agregarTodos rest).ultimo.toInt < 0
      by_cases valid : 0 ≤ cola.ultimo.toInt
      · by_cases last : cola.ultimo.toInt < 2147483647
        · refine induction ?_
          rw [agregar_eq valid, toInt_succ, if_pos last]
          omega
        · refine agregarTodos_of_negative ?_
          rw [agregar_eq valid, toInt_succ, if_neg last]
          omega
      · exact agregarTodos_of_negative
          (agregar_of_negative envId (by omega))

theorem Cabe.agregarTodos {entries : List UInt32} {count : Nat}
    (ordenada : cola.Ordenada) (valid : 0 ≤ cola.ultimo.toInt)
    (cabe : cola.Cabe (entries.length + count)) :
    (cola.agregarTodos entries).Cabe count := by
  induction entries generalizing cola with
  | nil => simpa [MlfqCola.agregarTodos] using cabe
  | cons envId rest induction =>
      obtain ⟨room, below⟩ := cabe
      rw [List.length_cons] at room below
      have next := agregar_ultimo envId valid
        (show cola.Cabe 1 from ⟨by omega, by omega⟩)
      have fits : cola.Cabe (rest.length + count + 1) := ⟨by omega, by omega⟩
      exact induction (ordenada.agregar envId) (by omega)
        (Cabe.agregar ordenada valid fits)

/-- The queue after `vaciar_colas`. -/
def vaciada (cola : MlfqCola) : MlfqCola :=
  { cola with primero := 0, ultimo := 0 }

theorem contenido_vaciada : cola.vaciada.contenido = [] := rfl

theorem ordenada_vaciada : cola.vaciada.Ordenada :=
  ⟨Int.le_refl 0, .inl (Int.le_refl 0)⟩

/-! ## Removing -/

theorem borrar_primero (ordenada : cola.Ordenada)
    (isCounter : i ∈ cola.ring.counters) :
    (cola.primero + 1).toInt = cola.primero.toInt + 1 := by
  have bounds := (mem_counters ordenada).mp isCounter
  have high := cola.ultimo.toInt_lt
  rw [toInt_succ, if_pos (by omega)]

/-- `sched_borrar_env` takes the entry of one counter out of the queue and moves
the first entry into its place. -/
theorem contenido_borrar (ordenada : cola.Ordenada)
    (isCounter : i ∈ cola.ring.counters)
    (room : cola.contenido.length ≤ nenv)
    (removed : cola.borrar (i % nenv) = some next) :
    next.contenido = Ring.moveHead cola.contenido (i - cola.ring.first) := by
  have bounds := (mem_counters ordenada).mp isCounter
  have primero := ordenada.primero
  have successor := borrar_primero ordenada isCounter
  unfold borrar at removed
  split at removed
  · rename_i isPrimero
    cases removed
    have spread : cola.contenido.length = cola.ring.last - cola.ring.first :=
      Ring.length_contents
    have window := Ring.mem_counters.mp isCounter
    have same : i % nenv = cola.ring.first % nenv := by
      have isFirst : cola.ring.first = i % nenv := by
        unfold ring
        dsimp only
        omega
      rw [isFirst, Nat.mod_mod]
    have first : i = cola.ring.first := by
      refine Ring.eq_of_mod_eq ?_ ?_ same
      · omega
      · have positive : 0 < nenv := by decide
        omega
    have advanced : ({ cola with primero := cola.primero + 1 } : MlfqCola).ring =
        cola.ring.advance := by
      unfold ring Ring.advance
      dsimp only
      rw [successor]
      congr 1
      omega
    have whole : cola.ring.contents nenv =
        cola.ring.entry nenv i :: cola.ring.advance.contents nenv := by
      rw [first]
      exact Ring.contents_advance (by omega)
    unfold contenido
    rw [advanced, whole, first, Nat.sub_self]
    rfl
  · rw [posicion_eq primero] at removed
    cases removed
    have swapped : ({ cola with
        envs := Function.update
          (Function.update cola.envs (cola.primero.toInt.toNat % nenv)
            (cola.envs (i % nenv)))
          (i % nenv) (cola.envs (cola.primero.toInt.toNat % nenv))
        primero := cola.primero + 1 } : MlfqCola).ring =
        cola.ring.remove nenv i := by
      unfold ring Ring.remove
      dsimp only
      rw [successor]
      congr 1
      omega
    unfold contenido
    rw [swapped]
    exact Ring.contents_remove_eq isCounter room

/-- The entry of a counter stands in the place of the counter. -/
theorem getElem_contenido (isCounter : i ∈ cola.ring.counters) :
    ∃ below : i - cola.ring.first < cola.contenido.length,
      cola.contenido[i - cola.ring.first] = cola.entrada i := by
  have bounds := Ring.mem_counters.mp isCounter
  have below : i - cola.ring.first < (cola.ring.contents nenv).length := by
    rw [Ring.length_contents]
    omega
  have here := Ring.getElem_contents below
  rw [Nat.add_sub_of_le bounds.1] at here
  exact ⟨below, here⟩

theorem borrar_perm (ordenada : cola.Ordenada)
    (isCounter : i ∈ cola.ring.counters)
    (room : cola.contenido.length ≤ nenv)
    (removed : cola.borrar (i % nenv) = some next) :
    (cola.entrada i :: next.contenido).Perm cola.contenido := by
  obtain ⟨below, here⟩ := getElem_contenido isCounter
  rw [contenido_borrar ordenada isCounter room removed, ← here]
  exact Ring.moveHead_perm below

theorem borrar_ultimo {position : Nat}
    (removed : cola.borrar position = some next) :
    next.ultimo = cola.ultimo ∧ next.primero = cola.primero + 1 := by
  unfold borrar at removed
  split at removed
  · cases removed
    exact ⟨rfl, rfl⟩
  · split at removed
    · cases removed
    · cases removed
      exact ⟨rfl, rfl⟩

theorem Ordenada.borrar (ordenada : cola.Ordenada)
    (isCounter : i ∈ cola.ring.counters) {position : Nat}
    (removed : cola.borrar position = some next) : next.Ordenada := by
  have bounds := (mem_counters ordenada).mp isCounter
  have primero := ordenada.primero
  have successor := borrar_primero ordenada isCounter
  obtain ⟨ultimo, advanced⟩ := borrar_ultimo removed
  constructor
  · rw [advanced, successor]
    omega
  · rw [advanced, successor, ultimo]
    omega

end MlfqCola

end FeaturesOS.Scheduler

import FeaturesOS.LinkedList
import FeaturesOS.Scheduler.Cola

/-!
# Ledgers

Which environments exist and where they stand in the queues.  A ledger is the
part of the kernel state that the queues of the priority scheduler depend on.
`Inv` has two independent parts: the queues are `Clean` when every entry belongs
to a living environment, and they `Cover` the environments when none is lost.
While a function has taken an environment out of a queue and not put it back,
its index is `missing`.
-/

namespace FeaturesOS.Scheduler

structure Ledger where
  envId : Nat → UInt32
  status : Nat → EnvStatus
  hasPgdir : Nat → Bool
  link : Nat → Option Nat
  colaActual : Nat → Int
  freeList : Option Nat
  current : Nat → Option Nat
  colas : Fin 4 → MlfqCola

namespace Ledger

def setStatus (ledger : Ledger) (e : Nat) (status : EnvStatus) : Ledger :=
  { ledger with status := Function.update ledger.status e status }

def setCurrent (ledger : Ledger) (cpu : Nat) (env : Option Nat) : Ledger :=
  { ledger with current := Function.update ledger.current cpu env }

/-- A new environment with its page directory leaves the free list. -/
def allocate (ledger : Ledger) (e : Nat) (envId : UInt32) : Ledger :=
  { ledger with
    envId := Function.update ledger.envId e envId
    status := Function.update ledger.status e .runnable
    hasPgdir := Function.update ledger.hasPgdir e true
    freeList := ledger.link e }

/-- A freed environment goes back to the free list. -/
def release (ledger : Ledger) (e : Nat) : Ledger :=
  { ledger with
    status := Function.update ledger.status e .free
    hasPgdir := Function.update ledger.hasPgdir e false
    link := Function.update ledger.link e ledger.freeList
    freeList := some e }

def setCola (ledger : Ledger) (q : Fin 4) (cola : MlfqCola) : Ledger :=
  { ledger with colas := Function.update ledger.colas q cola }

def setColaActual (ledger : Ledger) (e : Nat) (cola : Int) : Ledger :=
  { ledger with colaActual := Function.update ledger.colaActual e cola }

/-- `sched_agregar_env` for the queue `q`. -/
def agregar (ledger : Ledger) (envId : UInt32) (q : Fin 4) : Ledger :=
  (ledger.setColaActual (envx envId) q.val).setCola q
    ((ledger.colas q).agregar envId)

/-- `sched_agregar_env` for the first queue and one entry after the other. -/
def agregarTodos (ledger : Ledger) (entries : List UInt32) : Ledger :=
  { ledger with
    colaActual := fun e =>
      if e ∈ entries.map envx then 0 else ledger.colaActual e
    colas := Function.update ledger.colas 0
      ((ledger.colas 0).agregarTodos entries) }

/-- `vaciar_colas`. -/
def vaciar (ledger : Ledger) : Ledger :=
  { ledger with
    colas := fun q =>
      if q = 0 then ledger.colas 0 else (ledger.colas q).vaciada }

/-- The entries that `promover_colas` promotes. -/
def promovidas (ledger : Ledger) : List UInt32 :=
  (ledger.colas 1).contenido ++ (ledger.colas 2).contenido ++
    (ledger.colas 3).contenido

/-- `promover_colas`. -/
def promover (ledger : Ledger) : Ledger :=
  { ledger with
    colaActual := fun e =>
      if e ∈ ledger.promovidas.map envx then 0 else ledger.colaActual e
    colas := fun q =>
      if q = 0 then (ledger.colas 0).agregarTodos ledger.promovidas
      else (ledger.colas q).vaciada }

theorem agregar_colas_self (ledger : Ledger) (envId : UInt32) (q : Fin 4) :
    (ledger.agregar envId q).colas q = (ledger.colas q).agregar envId := by
  simp [agregar, setCola, setColaActual]

theorem agregarTodos_colas_zero (ledger : Ledger) (entries : List UInt32) :
    (ledger.agregarTodos entries).colas 0 =
      (ledger.colas 0).agregarTodos entries := by
  simp [agregarTodos]

theorem agregarTodos_colas_of_ne (ledger : Ledger) (entries : List UInt32)
    {q : Fin 4} (different : q ≠ 0) :
    (ledger.agregarTodos entries).colas q = ledger.colas q := by
  simp [agregarTodos, different]

/-- What no function of the kernel breaks. -/
structure Sound (ledger : Ledger) : Prop where
  ordenada : ∀ q, (ledger.colas q).Ordenada
  colaActual : ∀ e, ∃ q : Fin 4, ledger.colaActual e = q.val
  freeHead : ∀ e, ledger.freeList = some e → e < nenv
  freeLink : ∀ e next, ledger.link e = some next → next < nenv
  slot : ∀ e, ledger.envId e ≠ 0 → envx (ledger.envId e) = e
  live : ∀ e, ledger.status e ≠ .free → ledger.envId e ≠ 0
  mapped : ∀ e, ledger.hasPgdir e = true → ledger.envId e ≠ 0
  current : ∀ cpu e, ledger.current cpu = some e → ledger.envId e ≠ 0

/-- Every entry is the identifier of an environment in the queue that its
`cola_actual` names, and no environment has two.  The environment may have been
freed since. -/
structure Homed (ledger : Ledger) (missing : Option Nat) : Prop where
  entry : ∀ q, ∀ envId ∈ (ledger.colas q).contenido,
    ledger.envId (envx envId) = envId ∧
      ledger.colaActual (envx envId) = q.val ∧ missing ≠ some (envx envId)
  nodup : ∀ q, (ledger.colas q).contenido.Nodup

/-- Every entry is the identifier of a living environment in the queue that its
`cola_actual` names, and no environment has two. -/
structure Clean (ledger : Ledger) (missing : Option Nat) : Prop where
  entry : ∀ q, ∀ envId ∈ (ledger.colas q).contenido,
    ledger.envId (envx envId) = envId ∧
      ledger.status (envx envId) ≠ .free ∧
      ledger.colaActual (envx envId) = q.val ∧ missing ≠ some (envx envId)
  nodup : ∀ q, (ledger.colas q).contenido.Nodup
  freeNodes : ∃ nodes, Linked ledger.link ledger.freeList nodes ∧
    nodes.Nodup ∧ ∀ e ∈ nodes, ledger.status e = .free
  current : ∀ cpu e, ledger.current cpu = some e → ledger.status e ≠ .free

/-- Every environment that has ever been allocated keeps an entry. -/
structure Covered (ledger : Ledger) (missing : Option Nat) : Prop where
  entry : ∀ e, ledger.envId e ≠ 0 → missing ≠ some e →
    ∃ q, ∃ envId ∈ (ledger.colas q).contenido, envx envId = e
  room : ∀ q, (ledger.colas q).contenido.length ≤ nenv
  valid : ∀ q, 0 ≤ (ledger.colas q).ultimo.toInt

structure Inv (ledger : Ledger) (clean covered : Prop)
    (missing : Option Nat) : Prop where
  sound : ledger.Sound
  clean : clean → ledger.Clean missing
  covered : covered → ledger.Covered missing

variable {ledger : Ledger} {clean covered : Prop} {missing : Option Nat}
variable {e : Nat} {q : Fin 4}

/-! ## Statuses and processors -/

theorem Inv.setStatus (inv : ledger.Inv clean covered missing)
    {status : EnvStatus} (lives : status ≠ .free)
    (allocated : ledger.envId e ≠ 0)
    (live : clean → ledger.status e ≠ .free) :
    (ledger.setStatus e status).Inv clean covered missing := by
  obtain ⟨sound, isClean, isCovered⟩ := inv
  refine ⟨?_, ?_, ?_⟩
  · refine { sound with live := ?_ }
    intro f alive
    by_cases same : f = e
    · rw [same]
      exact allocated
    · exact sound.live f (by simpa [Ledger.setStatus, same] using alive)
  · intro wanted
    obtain ⟨entry, nodup, ⟨nodes, linked, distinct, free⟩, current⟩ :=
      isClean wanted
    refine ⟨?_, nodup, ⟨nodes, linked, distinct, ?_⟩, ?_⟩
    · intro q envId member
      obtain ⟨isId, alive, home, present⟩ := entry q envId member
      refine ⟨isId, ?_, home, present⟩
      by_cases same : envx envId = e
      · simpa [Ledger.setStatus, same] using lives
      · simpa [Ledger.setStatus, same] using alive
    · intro f member
      have different : f ≠ e := by
        rintro rfl
        exact live wanted (free f member)
      simpa [Ledger.setStatus, different] using free f member
    · intro cpu f isCurrent
      by_cases same : f = e
      · simpa [Ledger.setStatus, same] using lives
      · simpa [Ledger.setStatus, same] using current cpu f isCurrent
  · intro wanted
    obtain ⟨entry, room, valid⟩ := isCovered wanted
    exact ⟨entry, room, valid⟩

theorem Inv.setCurrent (inv : ledger.Inv clean covered missing) (cpu : Nat)
    {env : Option Nat} (allocated : ∀ e, env = some e → ledger.envId e ≠ 0)
    (live : clean → ∀ e, env = some e → ledger.status e ≠ .free) :
    (ledger.setCurrent cpu env).Inv clean covered missing := by
  obtain ⟨sound, isClean, isCovered⟩ := inv
  refine ⟨?_, ?_, ?_⟩
  · refine { sound with current := ?_ }
    intro here f isCurrent
    by_cases same : here = cpu
    · subst here
      exact allocated f (by simpa [Ledger.setCurrent] using isCurrent)
    · exact sound.current here f
        (by simpa [Ledger.setCurrent, same] using isCurrent)
  · intro wanted
    refine { isClean wanted with current := ?_ }
    intro here f isCurrent
    by_cases same : here = cpu
    · subst here
      exact live wanted f (by simpa [Ledger.setCurrent] using isCurrent)
    · exact (isClean wanted).current here f
        (by simpa [Ledger.setCurrent, same] using isCurrent)
  · intro wanted
    exact { isCovered wanted with }

/-! ## Allocation and release -/

theorem Inv.release (inv : ledger.Inv clean covered missing)
    (unclean : ¬ clean) (mapped : ledger.hasPgdir e = true) :
    (ledger.release e).Inv clean covered missing := by
  obtain ⟨sound, -, isCovered⟩ := inv
  have below : e < nenv := by
    rw [← sound.slot e (sound.mapped e mapped)]
    exact Nat.mod_lt _ (by decide)
  refine ⟨?_, fun wanted => absurd wanted unclean, ?_⟩
  · refine { sound with freeHead := ?_, freeLink := ?_, live := ?_, mapped := ?_ }
    · intro f head
      rw [← Option.some.inj head]
      exact below
    · intro f next link
      by_cases same : f = e
      · exact sound.freeHead next (by simpa [Ledger.release, same] using link)
      · exact sound.freeLink f next
          (by simpa [Ledger.release, same] using link)
    · intro f alive
      by_cases same : f = e
      · simp [Ledger.release, same] at alive
      · exact sound.live f (by simpa [Ledger.release, same] using alive)
    · intro f mapped
      by_cases same : f = e
      · simp [Ledger.release, same] at mapped
      · exact sound.mapped f (by simpa [Ledger.release, same] using mapped)
  · intro wanted
    exact { isCovered wanted with }

theorem Inv.allocate (inv : ledger.Inv clean covered none)
    (head : ledger.freeList = some e) {envId : UInt32}
    (slot : envx envId = e) (nonzero : envId ≠ 0) :
    (ledger.allocate e envId).Inv clean covered (some e) := by
  obtain ⟨sound, isClean, isCovered⟩ := inv
  refine ⟨?_, ?_, ?_⟩
  · refine { sound with
      freeHead := fun f => sound.freeLink e f
      slot := ?_
      live := ?_
      mapped := ?_
      current := ?_ }
    · intro f given
      by_cases same : f = e
      · simpa [Ledger.allocate, same] using slot
      · simp only [Ledger.allocate, Function.update_of_ne same] at given ⊢
        exact sound.slot f given
    · intro f alive
      by_cases same : f = e
      · simpa [Ledger.allocate, same] using nonzero
      · simp only [Ledger.allocate, Function.update_of_ne same] at alive ⊢
        exact sound.live f alive
    · intro f mapped
      by_cases same : f = e
      · simpa [Ledger.allocate, same] using nonzero
      · simp only [Ledger.allocate, Function.update_of_ne same] at mapped ⊢
        exact sound.mapped f mapped
    · intro cpu f current
      by_cases same : f = e
      · simpa [Ledger.allocate, same] using nonzero
      · simpa [Ledger.allocate, same] using sound.current cpu f current
  · intro wanted
    obtain ⟨entry, nodup, ⟨nodes, linked, distinct, free⟩, current⟩ :=
      isClean wanted
    rw [head] at linked
    obtain ⟨rest, rfl, tail⟩ := linked.of_some
    have isFree := free e List.mem_cons_self
    refine ⟨?_, nodup,
      ⟨rest, tail, (List.nodup_cons.mp distinct).2, ?_⟩, ?_⟩
    · intro q other member
      obtain ⟨isId, alive, home, -⟩ := entry q other member
      have different : envx other ≠ e := by
        intro same
        rw [same] at alive
        exact alive isFree
      refine ⟨?_, ?_, home, ?_⟩
      · simpa [Ledger.allocate, different] using isId
      · simpa [Ledger.allocate, different] using alive
      · exact fun same => different (Option.some.inj same).symm
    · intro f member
      have different : f ≠ e := by
        rintro rfl
        exact (List.nodup_cons.mp distinct).1 member
      simpa [Ledger.allocate, different] using
        free f (List.mem_cons_of_mem _ member)
    · intro cpu f isCurrent
      by_cases same : f = e
      · simp [Ledger.allocate, same]
      · simpa [Ledger.allocate, same] using current cpu f isCurrent
  · intro wanted
    obtain ⟨entry, room, valid⟩ := isCovered wanted
    refine ⟨?_, room, valid⟩
    intro f given present
    have different : f ≠ e := by
      rintro rfl
      exact present rfl
    refine entry f ?_ (by simp)
    simpa [Ledger.allocate, different] using given

/-! ## Queues -/

theorem Clean.homed (isClean : ledger.Clean missing) :
    ledger.Homed missing := by
  refine ⟨?_, isClean.nodup⟩
  intro q envId member
  obtain ⟨isId, -, home, present⟩ := isClean.entry q envId member
  exact ⟨isId, home, present⟩

namespace Homed

theorem slots_nodup (homed : ledger.Homed missing) :
    ((ledger.colas q).contenido.map envx).Nodup := by
  refine (homed.nodup q).map_on ?_
  intro first isFirst second isSecond same
  have left := (homed.entry q first isFirst).1
  have right := (homed.entry q second isSecond).1
  rw [← left, ← right, same]

theorem slots_subset {cola : MlfqCola} {f : Nat}
    (member : f ∈ cola.contenido.map envx) : f ∈ List.range nenv := by
  obtain ⟨envId, -, same⟩ := List.mem_map.mp member
  rw [List.mem_range, ← same]
  exact Nat.mod_lt _ (by decide)

/-- A queue without duplicates has at most one entry for each environment. -/
theorem length_le (homed : ledger.Homed missing) :
    (ledger.colas q).contenido.length ≤ nenv := by
  have inside : ((ledger.colas q).contenido.map envx).Subperm
      (List.range nenv) :=
    List.subperm_of_subset homed.slots_nodup fun _ => slots_subset
  simpa using inside.length_le

/-- There is room for a missing environment. -/
theorem length_lt (homed : ledger.Homed (some e)) (below : e < nenv) :
    (ledger.colas q).contenido.length < nenv := by
  have absent : e ∉ (ledger.colas q).contenido.map envx := by
    intro member
    obtain ⟨envId, isEntry, same⟩ := List.mem_map.mp member
    exact (homed.entry q envId isEntry).2.2 (by rw [same])
  have inside : (e :: (ledger.colas q).contenido.map envx).Subperm
      (List.range nenv) := by
    refine List.subperm_of_subset
      (List.nodup_cons.mpr ⟨absent, homed.slots_nodup⟩) ?_
    intro f member
    rcases List.mem_cons.mp member with rfl | isEntry
    · exact List.mem_range.mpr below
    · exact slots_subset isEntry
  have bound := inside.length_le
  simp only [List.length_cons, List.length_map, List.length_range] at bound
  omega

/-- A new environment for whose slot no queue has an entry. -/
theorem allocate (homed : ledger.Homed none) {envId : UInt32}
    (unused : ∀ q, ∀ id ∈ (ledger.colas q).contenido, envx id ≠ e) :
    (ledger.allocate e envId).Homed (some e) := by
  refine ⟨?_, homed.nodup⟩
  intro q id member
  have different := unused q id member
  obtain ⟨isId, home, -⟩ := homed.entry q id member
  refine ⟨?_, home, fun same => different (Option.some.inj same).symm⟩
  simpa [Ledger.allocate, different] using isId

/-- The entry of one counter leaves its queue. -/
theorem quitar (homed : ledger.Homed none) {i : Nat}
    (ordenada : (ledger.colas q).Ordenada)
    (isCounter : i ∈ (ledger.colas q).ring.counters) {next : MlfqCola}
    (removed : (ledger.colas q).borrar (i % nenv) = some next) :
    (ledger.setCola q next).Homed
      (some (envx ((ledger.colas q).entrada i))) := by
  have perm := MlfqCola.borrar_perm ordenada isCounter homed.length_le removed
  have unique := perm.nodup_iff.mpr (homed.nodup q)
  have taken := homed.entry q _ (perm.mem_iff.mp List.mem_cons_self)
  constructor
  · intro other envId member
    have still : envId ∈ (ledger.colas other).contenido ∧
        (other = q → envId ≠ (ledger.colas q).entrada i) := by
      by_cases same : other = q
      · subst other
        simp only [Ledger.setCola, Function.update_self] at member
        refine ⟨perm.mem_iff.mp (List.mem_cons_of_mem _ member), ?_⟩
        rintro - rfl
        exact (List.nodup_cons.mp unique).1 member
      · simp only [Ledger.setCola, Function.update_of_ne same] at member
        exact ⟨member, fun impossible => absurd impossible same⟩
    obtain ⟨isId, home, -⟩ := homed.entry other envId still.1
    refine ⟨isId, home, ?_⟩
    intro sameSlot
    have slots : envx envId = envx ((ledger.colas q).entrada i) :=
      (Option.some.inj sameSlot).symm
    have sameId : envId = (ledger.colas q).entrada i := by
      rw [← isId, slots, taken.1]
    refine still.2 ?_ sameId
    have sameHome := taken.2.1
    rw [← slots, home] at sameHome
    exact Fin.ext (Int.ofNat.inj sameHome)
  · intro other
    by_cases same : other = q
    · subst other
      simpa [Ledger.setCola] using (List.nodup_cons.mp unique).2
    · simpa [Ledger.setCola, same] using homed.nodup other

/-- The missing environment is appended to a queue. -/
theorem agregar {envId : UInt32}
    (homed : ledger.Homed (some (envx envId)))
    (ordenada : (ledger.colas q).Ordenada)
    (isId : ledger.envId (envx envId) = envId) :
    (ledger.agregar envId q).Homed none := by
  have below : envx envId < nenv := Nat.mod_lt _ (by decide)
  have appended := MlfqCola.contenido_agregar_sublist envId ordenada
    (homed.length_lt below)
  have old : ∀ other id, id ∈ (ledger.colas other).contenido →
      (ledger.agregar envId q).envId (envx id) = id ∧
        (ledger.agregar envId q).colaActual (envx id) = other.val ∧
        none ≠ some (envx id) := by
    intro other id member
    obtain ⟨isId, home, present⟩ := homed.entry other id member
    have different : envx id ≠ envx envId := by
      intro same
      exact present (by rw [same])
    refine ⟨isId, ?_, by simp⟩
    simpa [Ledger.agregar, Ledger.setCola, Ledger.setColaActual, different]
      using home
  constructor
  · intro other id member
    by_cases same : other = q
    · subst other
      simp only [Ledger.agregar, Ledger.setCola, Ledger.setColaActual,
        Function.update_self] at member
      rcases List.mem_append.mp (appended.subset member) with before | new
      · exact old q id before
      · rw [List.mem_singleton.mp new]
        exact ⟨isId, by simp [Ledger.agregar, Ledger.setCola,
          Ledger.setColaActual], by simp⟩
    · simp only [Ledger.agregar, Ledger.setCola, Ledger.setColaActual,
        Function.update_of_ne same] at member
      exact old other id member
  · intro other
    by_cases same : other = q
    · subst other
      simp only [Ledger.agregar, Ledger.setCola, Ledger.setColaActual,
        Function.update_self]
      refine appended.nodup ?_
      refine List.nodup_append.mpr
        ⟨homed.nodup q, List.nodup_singleton _, ?_⟩
      rintro id member new isNew rfl
      rw [List.mem_singleton.mp isNew] at member
      exact (homed.entry q envId member).2.2 rfl
    · simpa [Ledger.agregar, Ledger.setCola, Ledger.setColaActual, same]
        using homed.nodup other

end Homed

/-- The entry of one counter leaves its queue. -/
theorem Inv.quitar (inv : ledger.Inv clean covered none) {i : Nat}
    (isCounter : i ∈ (ledger.colas q).ring.counters) {next : MlfqCola}
    (removed : (ledger.colas q).borrar (i % nenv) = some next) :
    (ledger.setCola q next).Inv clean covered
      (some (envx ((ledger.colas q).entrada i))) := by
  obtain ⟨sound, isClean, isCovered⟩ := inv
  have perm := fun room =>
    MlfqCola.borrar_perm (sound.ordenada q) isCounter room removed
  obtain ⟨ultimo, -⟩ := MlfqCola.borrar_ultimo removed
  refine ⟨?_, ?_, ?_⟩
  · refine { sound with ordenada := ?_ }
    intro other
    by_cases same : other = q
    · subst other
      simpa [Ledger.setCola] using
        (sound.ordenada q).borrar isCounter removed
    · simpa [Ledger.setCola, same] using sound.ordenada other
  · intro wanted
    have before := isClean wanted
    have homed := before.homed.quitar (sound.ordenada q) isCounter removed
    refine ⟨?_, homed.nodup, before.freeNodes, before.current⟩
    intro other envId member
    obtain ⟨isId, home, present⟩ := homed.entry other envId member
    refine ⟨isId, ?_, home, present⟩
    by_cases same : other = q
    · subst other
      simp only [Ledger.setCola, Function.update_self] at member
      have inside := (perm before.homed.length_le).mem_iff.mp
        (List.mem_cons_of_mem _ member)
      exact (before.entry q envId inside).2.1
    · simp only [Ledger.setCola, Function.update_of_ne same] at member
      exact (before.entry other envId member).2.1
  · intro wanted
    obtain ⟨entry, room, valid⟩ := isCovered wanted
    refine ⟨?_, ?_, ?_⟩
    · intro f given present
      obtain ⟨other, envId, member, slot⟩ := entry f given (by simp)
      refine ⟨other, envId, ?_, slot⟩
      by_cases same : other = q
      · subst other
        simp only [Ledger.setCola, Function.update_self]
        have kept := (perm (room q)).mem_iff.mpr member
        refine (List.mem_cons.mp kept).resolve_left ?_
        rintro rfl
        exact present (by rw [slot])
      · simpa [Ledger.setCola, same] using member
    · intro other
      by_cases same : other = q
      · subst other
        have shorter := (perm (room q)).length_eq
        simp only [Ledger.setCola, Function.update_self]
        rw [List.length_cons] at shorter
        have bound := room q
        omega
      · simpa [Ledger.setCola, same] using room other
    · intro other
      by_cases same : other = q
      · subst other
        simpa [Ledger.setCola, ultimo] using valid q
      · simpa [Ledger.setCola, same] using valid other

/-- The missing environment is appended to a queue. -/
theorem Inv.agregar {envId : UInt32}
    (inv : ledger.Inv clean covered (some (envx envId)))
    (lives : clean → ledger.envId (envx envId) = envId ∧
      ledger.status (envx envId) ≠ .free)
    (cabe : covered → (ledger.colas q).Cabe 1) :
    (ledger.agregar envId q).Inv clean covered none := by
  obtain ⟨sound, isClean, isCovered⟩ := inv
  refine ⟨?_, ?_, ?_⟩
  · refine { sound with ordenada := ?_, colaActual := ?_ }
    · intro other
      by_cases same : other = q
      · subst other
        simpa [Ledger.agregar, Ledger.setCola] using
          (sound.ordenada q).agregar envId
      · simpa [Ledger.agregar, Ledger.setCola, Ledger.setColaActual, same]
          using sound.ordenada other
    · intro f
      by_cases same : f = envx envId
      · exact ⟨q, by simp [Ledger.agregar, Ledger.setCola,
          Ledger.setColaActual, same]⟩
      · simpa [Ledger.agregar, Ledger.setCola, Ledger.setColaActual, same]
          using sound.colaActual f
  · intro wanted
    have before := isClean wanted
    obtain ⟨isId, alive⟩ := lives wanted
    have homed := before.homed.agregar (sound.ordenada q) isId
    refine ⟨?_, homed.nodup, before.freeNodes, before.current⟩
    intro other id member
    obtain ⟨sameId, home, present⟩ := homed.entry other id member
    refine ⟨sameId, ?_, home, present⟩
    by_cases same : other = q
    · subst other
      simp only [Ledger.agregar, Ledger.setCola, Ledger.setColaActual,
        Function.update_self] at member
      have appended := MlfqCola.contenido_agregar_sublist envId
        (sound.ordenada q) (before.homed.length_lt (Nat.mod_lt _ (by decide)))
      rcases List.mem_append.mp (appended.subset member) with old | new
      · exact (before.entry q id old).2.1
      · rw [List.mem_singleton.mp new]
        exact alive
    · simp only [Ledger.agregar, Ledger.setCola, Ledger.setColaActual,
        Function.update_of_ne same] at member
      exact (before.entry other id member).2.1
  · intro wanted
    obtain ⟨entry, room, valid⟩ := isCovered wanted
    have fits := cabe wanted
    have appended := MlfqCola.contenido_agregar envId
      (sound.ordenada q) fits (valid q)
    refine ⟨?_, ?_, ?_⟩
    · intro f given _
      by_cases same : f = envx envId
      · refine ⟨q, envId, ?_, same.symm⟩
        simp [Ledger.agregar, Ledger.setCola, appended]
      · obtain ⟨other, id, member, slot⟩ :=
          entry f given (fun equal => same (Option.some.inj equal).symm)
        refine ⟨other, id, ?_, slot⟩
        by_cases sameCola : other = q
        · subst other
          simp only [Ledger.agregar, Ledger.setCola, Ledger.setColaActual,
            Function.update_self, appended]
          exact List.mem_append_left _ member
        · simpa [Ledger.agregar, Ledger.setCola, Ledger.setColaActual,
            sameCola] using member
    · intro other
      by_cases same : other = q
      · subst other
        simp only [Ledger.agregar, Ledger.setCola, Ledger.setColaActual,
          Function.update_self, appended, List.length_append,
          List.length_singleton]
        exact fits.1
      · simpa [Ledger.agregar, Ledger.setCola, Ledger.setColaActual, same]
          using room other
    · intro other
      by_cases same : other = q
      · subst other
        simp only [Ledger.agregar, Ledger.setCola, Ledger.setColaActual,
          Function.update_self]
        rw [MlfqCola.agregar_ultimo envId (valid q) fits]
        have before := valid q
        omega
      · simpa [Ledger.agregar, Ledger.setCola, Ledger.setColaActual, same]
          using valid other

/-! ## Promotion -/

theorem agregarTodos_nil : ledger.agregarTodos [] = ledger := by
  simp [agregarTodos, MlfqCola.agregarTodos]

theorem agregarTodos_cons (envId : UInt32) (rest : List UInt32) :
    ledger.agregarTodos (envId :: rest) =
      (ledger.agregar envId 0).agregarTodos rest := by
  unfold agregarTodos agregar setCola setColaActual
  congr 1
  · funext f
    by_cases first : f = envx envId
    · simp [first]
    · simp [first, Function.update_of_ne]
  · simp [MlfqCola.agregarTodos]

theorem agregarTodos_append (front back : List UInt32) :
    ledger.agregarTodos (front ++ back) =
      (ledger.agregarTodos front).agregarTodos back := by
  induction front generalizing ledger with
  | nil => rw [agregarTodos_nil, List.nil_append]
  | cons envId rest induction =>
      rw [List.cons_append, agregarTodos_cons, agregarTodos_cons, induction]

theorem promover_eq :
    ledger.promover = (ledger.agregarTodos ledger.promovidas).vaciar := by
  unfold promover vaciar agregarTodos
  congr 1
  funext q
  by_cases first : q = 0 <;> simp [first]

/-- All entries, in the order that the promotion gives them. -/
theorem Homed.all_nodup (homed : ledger.Homed none) :
    ((ledger.colas 0).contenido ++ ledger.promovidas).Nodup := by
  have disjoint : ∀ p q : Fin 4, p ≠ q →
      ∀ first ∈ (ledger.colas p).contenido,
        ∀ second ∈ (ledger.colas q).contenido, first ≠ second := by
    rintro p q different first isFirst second isSecond rfl
    have home := (homed.entry p first isFirst).2.1
    rw [(homed.entry q first isSecond).2.1] at home
    exact different (Fin.ext (Int.ofNat.inj home)).symm
  unfold promovidas
  simp only [List.nodup_append, List.mem_append]
  refine ⟨homed.nodup 0, ⟨⟨homed.nodup 1, homed.nodup 2,
    disjoint 1 2 (by decide)⟩, homed.nodup 3, ?_⟩, ?_⟩
  · rintro first (isFirst | isFirst) second isSecond
    · exact disjoint 1 3 (by decide) first isFirst second isSecond
    · exact disjoint 2 3 (by decide) first isFirst second isSecond
  · rintro first isFirst second ((isSecond | isSecond) | isSecond)
    · exact disjoint 0 1 (by decide) first isFirst second isSecond
    · exact disjoint 0 2 (by decide) first isFirst second isSecond
    · exact disjoint 0 3 (by decide) first isFirst second isSecond

theorem mem_promovidas {envId : UInt32} :
    envId ∈ ledger.promovidas ↔
      ∃ q : Fin 4, q ≠ 0 ∧ envId ∈ (ledger.colas q).contenido := by
  unfold promovidas
  rw [List.mem_append, List.mem_append]
  constructor
  · rintro ((member | member) | member)
    · exact ⟨1, by decide, member⟩
    · exact ⟨2, by decide, member⟩
    · exact ⟨3, by decide, member⟩
  · rintro ⟨q, notFirst, member⟩
    match q with
    | 0 => exact absurd rfl notFirst
    | 1 => exact .inl (.inl member)
    | 2 => exact .inl (.inr member)
    | 3 => exact .inr member

theorem exists_cola {envId : UInt32}
    (member : envId ∈ (ledger.colas 0).contenido ++ ledger.promovidas) :
    ∃ q, envId ∈ (ledger.colas q).contenido := by
  rcases List.mem_append.mp member with first | promoted
  · exact ⟨0, first⟩
  · obtain ⟨q, -, inside⟩ := mem_promovidas.mp promoted
    exact ⟨q, inside⟩

theorem Homed.all_length (homed : ledger.Homed none) :
    (ledger.colas 0).contenido.length + ledger.promovidas.length ≤ nenv := by
  have slots : (((ledger.colas 0).contenido ++ ledger.promovidas).map
      envx).Nodup := by
    refine homed.all_nodup.map_on ?_
    intro first isFirst second isSecond same
    obtain ⟨p, atFirst⟩ := exists_cola isFirst
    obtain ⟨q, atSecond⟩ := exists_cola isSecond
    rw [← (homed.entry p first atFirst).1,
      ← (homed.entry q second atSecond).1, same]
  have inside : (((ledger.colas 0).contenido ++ ledger.promovidas).map
      envx).Subperm (List.range nenv) := by
    refine List.subperm_of_subset slots ?_
    intro f member
    obtain ⟨envId, -, same⟩ := List.mem_map.mp member
    rw [List.mem_range, ← same]
    exact Nat.mod_lt _ (by decide)
  simpa using inside.length_le

/-- Every entry that remains after a promotion was there before. -/
theorem mem_of_promover {envId : UInt32}
    (homed : ledger.Homed none) (ordenada : (ledger.colas 0).Ordenada)
    (member : envId ∈ (ledger.promover.colas q).contenido) :
    q = 0 ∧ envId ∈ (ledger.colas 0).contenido ++ ledger.promovidas := by
  obtain ⟨sublist, -⟩ := MlfqCola.agregarTodos_sublist ordenada
    homed.all_length
  unfold Ledger.promover at member
  dsimp only at member
  split at member
  · rename_i first
    exact ⟨first, sublist.subset member⟩
  · rw [MlfqCola.contenido_vaciada] at member
    cases member

theorem Homed.promover (homed : ledger.Homed none)
    (ordenada : (ledger.colas 0).Ordenada) :
    ledger.promover.Homed none := by
  constructor
  · intro q envId member
    obtain ⟨first, before⟩ := mem_of_promover homed ordenada member
    subst q
    obtain ⟨p, inside⟩ := exists_cola before
    obtain ⟨isId, home, -⟩ := homed.entry p envId inside
    refine ⟨isId, ?_, by simp⟩
    unfold Ledger.promover
    dsimp only
    split
    · rfl
    · rename_i missing
      have atFirst : p = 0 := by
        by_contra notFirst
        exact missing (List.mem_map.mpr
          ⟨envId, mem_promovidas.mpr ⟨p, notFirst, inside⟩, rfl⟩)
      rw [home, atFirst]
  · intro q
    obtain ⟨sublist, -⟩ := MlfqCola.agregarTodos_sublist ordenada
      homed.all_length
    unfold Ledger.promover
    dsimp only
    split
    · exact sublist.nodup homed.all_nodup
    · exact List.nodup_nil

theorem ordenada_agregarTodos {cola : MlfqCola} (ordenada : cola.Ordenada)
    (entries : List UInt32) : (cola.agregarTodos entries).Ordenada := by
  induction entries generalizing cola with
  | nil => exact ordenada
  | cons envId rest induction => exact induction (ordenada.agregar envId)

theorem Inv.promover (inv : ledger.Inv clean covered none)
    (cabe : covered → (ledger.colas 0).Cabe ledger.promovidas.length) :
    ledger.promover.Inv clean covered none := by
  obtain ⟨sound, isClean, isCovered⟩ := inv
  refine ⟨?_, ?_, ?_⟩
  · refine { sound with ordenada := ?_, colaActual := ?_ }
    · intro q
      unfold Ledger.promover
      dsimp only
      split
      · exact ordenada_agregarTodos (sound.ordenada 0) _
      · exact MlfqCola.ordenada_vaciada
    · intro e
      unfold Ledger.promover
      dsimp only
      split
      · exact ⟨0, rfl⟩
      · exact sound.colaActual e
  · intro wanted
    have all := isClean wanted
    have homed := all.homed.promover (sound.ordenada 0)
    refine ⟨?_, homed.nodup, all.freeNodes, all.current⟩
    intro q envId member
    obtain ⟨isId, home, present⟩ := homed.entry q envId member
    obtain ⟨-, before⟩ := mem_of_promover all.homed (sound.ordenada 0) member
    obtain ⟨p, inside⟩ := exists_cola before
    exact ⟨isId, (all.entry p envId inside).2.1, home, present⟩
  · intro wanted
    obtain ⟨entry, room, valid⟩ := isCovered wanted
    obtain ⟨appended, stays⟩ := MlfqCola.agregarTodos_eq (sound.ordenada 0)
      (valid 0) (cabe wanted)
    refine ⟨?_, ?_, ?_⟩
    · intro e given present
      obtain ⟨q, envId, member, slot⟩ := entry e given present
      refine ⟨0, envId, ?_, slot⟩
      unfold Ledger.promover
      dsimp only
      rw [if_pos rfl, appended, List.mem_append]
      by_cases first : q = 0
      · rw [first] at member
        exact .inl member
      · exact .inr (mem_promovidas.mpr ⟨q, first, member⟩)
    · intro q
      unfold Ledger.promover
      dsimp only
      split
      · rw [appended, List.length_append]
        exact (cabe wanted).1
      · exact Nat.zero_le _
    · intro q
      unfold Ledger.promover
      dsimp only
      split
      · exact stays
      · exact Int.le_refl 0

end Ledger

end FeaturesOS.Scheduler

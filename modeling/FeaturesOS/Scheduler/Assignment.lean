import FeaturesOS.Scheduler.PageFault
import FeaturesOS.Scheduler.PageMessages
import FeaturesOS.Scheduler.Removal

/-!
# Assigning a priority

`sys_env_asignar_prioridad` in states where every environment has exactly one
entry, in the queue of its `cola_actual`: a call changes nothing, or it moves one
entry to a later queue.
-/

namespace FeaturesOS.Scheduler

open Entry

variable {kernel next : Kernel} {cpu e current : Nat} {envid : UInt32}
variable {p q : Fin 4}

/-- The environment has one entry, in the queue of its `cola_actual`. -/
structure Kernel.OneEntry (kernel : Kernel) (e : Nat) : Prop where
  slot : envx (kernel.envs e).envId = e
  single : ∃ q : Fin 4, (kernel.envs e).colaActual = q.val ∧
    ∀ p, (kernel.contenido p).count (kernel.envs e).envId =
      if p = q then 1 else 0

/-- Every environment that is not free has one entry. -/
def Kernel.Registered (kernel : Kernel) : Prop :=
  ∀ e < nenv, (kernel.envs e).envStatus ≠ .free → kernel.OneEntry e

/-- The entry of `e` has moved to the queue `q`. -/
structure Kernel.Reassigns (kernel next : Kernel) (e : Nat) (q : Fin 4) :
    Prop where
  contenido : ∀ p, (next.contenido p).Perm
    ((kernel.contenido p).erase (kernel.envs e).envId ++
      if p = q then [(kernel.envs e).envId] else [])
  envs : next.envs = Function.update kernel.envs e
    { kernel.envs e with colaActual := q.val }

/-- A call changes nothing, or it moves the entry of the caller or of one of its
children to a later queue. -/
def Kernel.AssignsSafely (kernel : Kernel) (cpu : Nat) (envid : UInt32)
    (prioridad : Int) : Prop :=
  ∃ r next, sysEnvAsignarPrioridad cpu envid prioridad kernel =
      .returns r next ∧
    ((next = kernel ∧
        (r = -1 ∨ ∃ e, kernel.Finds cpu envid false e ∧
          r = (kernel.envs e).colaActual)) ∨
      ∃ e current, ∃ q : Fin 4, kernel.Finds cpu envid false e ∧
        kernel.cpus cpu = some current ∧
        (e = current ∨
          (kernel.envs e).envParentId = (kernel.envs current).envId) ∧
        prioridad = q.val ∧ (kernel.envs e).colaActual < prioridad ∧
        r = prioridad ∧ kernel.Reassigns next e q ∧ next.Registered)

/-! ## Entering a queue -/

/-- A new entry is added to the others exactly when the queue has room. -/
theorem MlfqCola.agregar_perm_iff {cola : MlfqCola} {envId : UInt32}
    (anillo : cola.Anillo) (absent : envId ∉ cola.contenido) :
    (cola.agregar envId).contenido.Perm (cola.contenido ++ [envId]) ↔
      cola.Cabe 1 := by
  constructor
  · intro perm
    by_cases below : cola.ultimo.toInt < 2147483647
    · by_cases room : cola.contenido.length < nenv
      · exact ⟨room, by omega⟩
      · have full : cola.contenido.length = nenv :=
          Nat.le_antisymm anillo.room (Nat.le_of_not_lt room)
        have positive : 0 < cola.contenido.length := by
          rw [full]
          decide
        rw [contenido_agregar_full envId anillo.valid below full] at perm
        have others := (List.perm_append_right_iff _).mp perm
        have member := others.mem_iff.mp (List.mem_set positive envId)
        exact absurd member absent
    · rw [contenido_agregar_overflow envId anillo.valid below] at perm
      have same := perm.length_eq
      rw [List.length_append, List.length_singleton] at same
      cases same
  · intro cabe
    rw [contenido_agregar envId anillo.ordenada cabe anillo.valid]

/-! ## The move -/

/-- The kernel after a call that moves the entry of `e`; `removed` is its old
queue without that entry. -/
def Kernel.reasignado (kernel : Kernel) (e : Nat) (p q : Fin 4)
    (removed : MlfqCola) : Kernel :=
  ((kernel.setCola p removed).agregado (kernel.envs e).envId q).updateEnv e
    fun env => { env with colaActual := q.val }

variable {removed : MlfqCola}

theorem envs_reasignado (slot : envx (kernel.envs e).envId = e) :
    (kernel.reasignado e p q removed).envs = Function.update kernel.envs e
      { kernel.envs e with colaActual := q.val } := by
  unfold Kernel.reasignado Kernel.agregado
  rw [slot]
  simp [Kernel.updateEnv, Kernel.setEnv, Kernel.setCola]

theorem contenido_reasignado (different : q ≠ p) (other : Fin 4) :
    (kernel.reasignado e p q removed).contenido other =
      if other = q then
        ((kernel.mlfq.colas q).agregar (kernel.envs e).envId).contenido
      else if other = p then removed.contenido
      else kernel.contenido other := by
  have colas : (kernel.reasignado e p q removed).mlfq.colas = Function.update
      (Function.update kernel.mlfq.colas p removed) q
      ((Function.update kernel.mlfq.colas p removed q).agregar
        (kernel.envs e).envId) := rfl
  unfold Kernel.contenido
  rw [colas]
  by_cases isNew : other = q
  · rw [if_pos isNew, isNew, Function.update_self,
      Function.update_of_ne different]
  · rw [if_neg isNew, Function.update_of_ne isNew]
    by_cases isOld : other = p
    · rw [if_pos isOld, isOld, Function.update_self]
    · rw [if_neg isOld, Function.update_of_ne isOld]

/-- Only the new queue can lose entries. -/
theorem reassigns_reasignado_iff (anillos : kernel.Anillos)
    (slot : envx (kernel.envs e).envId = e) (different : q ≠ p)
    (absent : ∀ other, other ≠ p →
      (kernel.envs e).envId ∉ kernel.contenido other)
    (perm : removed.contenido.Perm
      ((kernel.contenido p).erase (kernel.envs e).envId)) :
    kernel.Reassigns (kernel.reasignado e p q removed) e q ↔
      (kernel.mlfq.colas q).Cabe 1 := by
  have keeps := MlfqCola.agregar_perm_iff (anillos q) (absent q different)
  constructor
  · intro moves
    have moved := moves.contenido q
    rw [contenido_reasignado different, if_pos rfl, if_pos rfl,
      List.erase_of_not_mem (absent q different)] at moved
    exact keeps.mp moved
  · intro cabe
    constructor
    · intro other
      rw [contenido_reasignado different]
      by_cases isNew : other = q
      · rw [if_pos isNew, if_pos isNew, isNew,
          List.erase_of_not_mem (absent q different)]
        exact keeps.mpr cabe
      · rw [if_neg isNew, if_neg isNew, List.append_nil]
        by_cases isOld : other = p
        · rw [if_pos isOld, isOld]
          exact perm
        · rw [if_neg isOld, List.erase_of_not_mem (absent other isOld)]
    · exact envs_reasignado slot

/-- A moved entry leaves one entry for each environment. -/
theorem Kernel.Reassigns.registered (registered : kernel.Registered)
    (below : e < nenv) (alive : (kernel.envs e).envStatus ≠ .free)
    (moves : kernel.Reassigns next e q) : next.Registered := by
  intro f fBelow fAlive
  have entry := registered e below alive
  by_cases same : f = e
  · have env : next.envs f = { kernel.envs e with colaActual := q.val } := by
      rw [moves.envs, same, Function.update_self]
    obtain ⟨home, isHome, counts⟩ := entry.single
    constructor
    · rw [env, same]
      exact entry.slot
    · refine ⟨q, by rw [env], fun other => ?_⟩
      rw [env, (moves.contenido other).count_eq, List.count_append,
        List.count_erase_self, counts other]
      have gone : (if other = home then 1 else 0) - 1 = 0 := by
        split <;> rfl
      rw [gone, Nat.zero_add]
      by_cases isNew : other = q
      · rw [if_pos isNew, if_pos isNew, List.count_singleton_self]
      · rw [if_neg isNew, if_neg isNew, List.count_nil]
  · have env : next.envs f = kernel.envs f := by
      rw [moves.envs, Function.update_of_ne same]
    have fEntry := registered f fBelow (by rwa [env] at fAlive)
    have different : (kernel.envs f).envId ≠ (kernel.envs e).envId := by
      intro sameId
      apply same
      rw [← fEntry.slot, sameId, entry.slot]
    obtain ⟨home, isHome, counts⟩ := fEntry.single
    constructor
    · rw [env]
      exact fEntry.slot
    · refine ⟨home, by rw [env]; exact isHome, fun other => ?_⟩
      rw [env, (moves.contenido other).count_eq, List.count_append,
        List.count_erase_of_ne different, counts other]
      by_cases isNew : other = q
      · rw [if_pos isNew, List.count_singleton]
        simp [different.symm]
      · rw [if_neg isNew, List.count_nil, Nat.add_zero]

/-! ## The call -/

/-- The call once the environment is found. -/
theorem sysEnvAsignarPrioridad_run {prioridad : Int}
    (inRange : ¬ (prioridad < 0 ∨ prioridad > 3))
    (finds : kernel.Finds cpu envid false e)
    (isCurrent : kernel.cpus cpu = some current) :
    sysEnvAsignarPrioridad cpu envid prioridad kernel =
      if e ≠ current ∧
          (kernel.envs e).envParentId ≠ (kernel.envs current).envId then
        .returns (-1) kernel
      else if (kernel.envs e).colaActual = prioridad then
        .returns prioridad kernel
      else if (kernel.envs e).colaActual > prioridad then
        .returns (-1) kernel
      else
        (do
          schedEliminarEnv (kernel.envs e).envId
          schedAgregarEnv (kernel.envs e).envId prioridad
          Entry.modify fun kernel =>
            kernel.updateEnv e fun env => { env with colaActual := prioridad }
          pure prioridad : KernelM Int) kernel := by
  have found : lookupEnv cpu envid false kernel = .returns (.ok e) kernel := by
    rw [lookupEnv_run, finds]
  unfold sysEnvAsignarPrioridad
  rw [if_neg inRange, bind_run, found]
  dsimp only
  rw [bind_run, theCurenv_run isCurrent]
  dsimp only
  rw [read_bind_run, read_bind_run]
  split
  · rfl
  · split
    · rfl
    · split <;> rfl

/-- A call that passes its checks moves the entry, safely or not. -/
theorem sysEnvAsignarPrioridad_moves (anillos : kernel.Anillos)
    (entry : kernel.OneEntry e) (finds : kernel.Finds cpu envid false e)
    (isCurrent : kernel.cpus cpu = some current)
    (related : e = current ∨
      (kernel.envs e).envParentId = (kernel.envs current).envId)
    (later : (kernel.envs e).colaActual < q.val) :
    ∃ next, sysEnvAsignarPrioridad cpu envid q.val kernel =
        .returns q.val next ∧
      (kernel.Reassigns next e q ↔ (kernel.mlfq.colas q).Cabe 1) := by
  obtain ⟨home, isHome, counts⟩ := entry.single
  have slot := entry.slot
  have different : q ≠ home := by
    rintro rfl
    omega
  have member : (kernel.envs e).envId ∈ kernel.contenido home := by
    rw [← List.count_pos_iff, counts home, if_pos rfl]
    exact Nat.one_pos
  have absent : ∀ other, other ≠ home →
      (kernel.envs e).envId ∉ kernel.contenido other := by
    intro other elsewhere
    rw [← List.count_eq_zero, counts other, if_neg elsewhere]
  have named : obtenerCola
      (kernel.envs (envx (kernel.envs e).envId)).colaActual = some home := by
    rw [slot, isHome, obtenerCola_val]
  obtain ⟨i, removed, isCounter, same, borrado, eliminado⟩ :=
    schedEliminarEnv_returns (anillos home) named member
  have perm := MlfqCola.borrar_perm (anillos home).ordenada isCounter
    (anillos home).room borrado
  change (kernel.entrada home i :: _).Perm (kernel.contenido home) at perm
  rw [same] at perm
  have remaining : removed.contenido.Perm
      ((kernel.contenido home).erase (kernel.envs e).envId) := by
    have erased := perm.erase (kernel.envs e).envId
    rwa [List.erase_cons_head] at erased
  have valid : 0 ≤ ((kernel.setCola home removed).mlfq.colas q).ultimo.toInt := by
    unfold Kernel.setCola
    dsimp only
    rw [Function.update_of_ne different]
    exact (anillos q).valid
  have agregado := schedAgregarEnv_returns q (kernel.envs e).envId valid
  refine ⟨kernel.reasignado e home q removed, ?_,
    reassigns_reasignado_iff anillos slot different absent remaining⟩
  rw [sysEnvAsignarPrioridad_run (by omega) finds isCurrent, if_neg (by tauto),
    if_neg (by omega), if_neg (by omega), bind_run, eliminado]
  dsimp only
  rw [bind_run, agregado]
  rfl

/-- What a call finds is an environment that is not free. -/
theorem Kernel.Finds.live (isCurrent : kernel.cpus cpu = some current)
    (below : current < nenv) (alive : (kernel.envs current).envStatus ≠ .free)
    (finds : kernel.Finds cpu envid false e) :
    e < nenv ∧ (kernel.envs e).envStatus ≠ .free := by
  rcases finds.current_or_live with own | live
  · rw [isCurrent] at own
    obtain rfl := Option.some.inj own
    exact ⟨below, alive⟩
  · refine ⟨?_, live⟩
    unfold Kernel.Finds envid2env at finds
    split at finds
    · rw [isCurrent] at finds
      obtain rfl := Option.some.inj (Except.ok.inj finds)
      exact below
    · dsimp only at finds
      split at finds
      · cases finds
      · split at finds
        · cases finds
        · rw [← Option.some.inj (Except.ok.inj finds)]
          exact Nat.mod_lt _ (by decide)

theorem assignFits_of_assignsSafely {prioridad : Int} (anillos : kernel.Anillos)
    (registered : kernel.Registered) (isCurrent : kernel.cpus cpu = some current)
    (below : current < nenv) (alive : (kernel.envs current).envStatus ≠ .free)
    (safely : kernel.AssignsSafely cpu envid prioridad) :
    kernel.AssignFits cpu envid prioridad := by
  rintro e caller q finds isCaller related rfl later
  have live := finds.live isCurrent below alive
  have entry := registered e live.1 live.2
  obtain ⟨moved, returned, keeps⟩ := sysEnvAsignarPrioridad_moves anillos entry
    finds isCaller related later
  obtain ⟨r, next, runs, outcome⟩ := safely
  rw [returned] at runs
  obtain ⟨rfl, rfl⟩ := Outcome.returns.inj runs
  rcases outcome with ⟨-, failed | ⟨f, again, same⟩⟩ |
    ⟨f, -, p, again, -, -, isQueue, -, -, moves, -⟩
  · omega
  · obtain rfl : e = f := by
      have found := finds.symm.trans again
      exact Option.some.inj (Except.ok.inj found)
    omega
  · obtain rfl : e = f := by
      have found := finds.symm.trans again
      exact Option.some.inj (Except.ok.inj found)
    obtain rfl : q = p := Fin.ext (Int.ofNat.inj isQueue)
    exact keeps.mp moves

/-- A call is safe exactly when the requested queue has room for an entry that
passes the checks. -/
theorem assignsSafely_iff {prioridad : Int} (anillos : kernel.Anillos)
    (registered : kernel.Registered) (isCurrent : kernel.cpus cpu = some current)
    (below : current < nenv) (alive : (kernel.envs current).envStatus ≠ .free) :
    kernel.AssignsSafely cpu envid prioridad ↔
      kernel.AssignFits cpu envid prioridad := by
  constructor
  · exact assignFits_of_assignsSafely anillos registered isCurrent below alive
  · intro fits
    by_cases outside : prioridad < 0 ∨ prioridad > 3
    · refine ⟨-1, kernel, ?_, .inl ⟨rfl, .inl rfl⟩⟩
      unfold sysEnvAsignarPrioridad
      rw [if_pos outside]
      rfl
    rcases envid2env_answers isCurrent envid false with ⟨code, fails⟩ | ⟨e, finds⟩
    · refine ⟨-1, kernel, ?_, .inl ⟨rfl, .inl rfl⟩⟩
      have failed : lookupEnv cpu envid false kernel =
          .returns (.error code) kernel := by
        rw [lookupEnv_run, fails]
      unfold sysEnvAsignarPrioridad
      rw [if_neg outside, bind_run, failed]
      rfl
    have run := sysEnvAsignarPrioridad_run outside finds isCurrent
    by_cases unrelated : e ≠ current ∧
        (kernel.envs e).envParentId ≠ (kernel.envs current).envId
    · rw [if_pos unrelated] at run
      exact ⟨-1, kernel, run, .inl ⟨rfl, .inl rfl⟩⟩
    rw [if_neg unrelated] at run
    by_cases same : (kernel.envs e).colaActual = prioridad
    · rw [if_pos same] at run
      exact ⟨prioridad, kernel, run, .inl ⟨rfl, .inr ⟨e, finds, same.symm⟩⟩⟩
    rw [if_neg same] at run
    by_cases higher : (kernel.envs e).colaActual > prioridad
    · rw [if_pos higher] at run
      exact ⟨-1, kernel, run, .inl ⟨rfl, .inl rfl⟩⟩
    obtain ⟨q, rfl⟩ : ∃ q : Fin 4, prioridad = q.val := by
      refine ⟨⟨prioridad.toNat, by omega⟩, ?_⟩
      dsimp only
      omega
    have later : (kernel.envs e).colaActual < q.val := by omega
    have related : e = current ∨
        (kernel.envs e).envParentId = (kernel.envs current).envId := by
      tauto
    have live := finds.live isCurrent below alive
    have entry := registered e live.1 live.2
    obtain ⟨next, moved, keeps⟩ := sysEnvAsignarPrioridad_moves anillos entry
      finds isCurrent related later
    have moves := keeps.mpr (fits e current q finds isCurrent related rfl later)
    exact ⟨q.val, next, moved, .inr ⟨e, current, q, finds, isCurrent, related,
      rfl, later, rfl, moves, moves.registered registered live.1 live.2⟩⟩

/-- The environment 0 runs, with two children behind it in the first queue; the
third queue has another environment.  Both queues go beyond the end of the
array. -/
def hermanos : Kernel :=
  { noEnv with
    envs := fun e =>
      if e < 4 then
        { noEnv.envs e with
          envId := UInt32.ofNat (4096 + e)
          envParentId := 4096
          envStatus := if e = 0 then .running else .runnable
          colaActual := if e = 3 then 2 else 0 }
      else
        noEnv.envs e
    cpus := fun cpu => if cpu = 0 then some 0 else none
    mlfq :=
      { colas := fun q => match q.val with
          | 0 => anillo 1022 [4096, 4097, 4098]
          | 1 => anillo 5 []
          | 2 => anillo 3071 [4099]
          | _ => anillo 0 []
        ejecucionesTotales := 7 } }

theorem registered_hermanos : hermanos.Registered := by
  have entries : ∀ e < 4, envx (hermanos.envs e).envId = e ∧
      ∃ q : Fin 4, (hermanos.envs e).colaActual = q.val ∧
        ∀ p, (hermanos.contenido p).count (hermanos.envs e).envId =
          if p = q then 1 else 0 := by
    decide +kernel
  intro e below alive
  by_cases first : e < 4
  · exact ⟨(entries e first).1, (entries e first).2⟩
  · have free : (hermanos.envs e).envStatus = .free := by
      unfold hermanos
      dsimp only
      rw [if_neg first]
      rfl
    exact absurd free alive

/-- The second child goes to the third queue. -/
theorem assignsSafely_hermanos : hermanos.AssignsSafely 0 4098 2 :=
  (assignsSafely_iff (by decide +kernel) registered_hermanos rfl
    (by decide) (by decide +kernel)).mpr (by
      rintro e current q finds isCurrent related isQueue later
      obtain rfl : q = 2 := Fin.ext (Int.ofNat.inj isQueue.symm)
      exact ⟨by decide +kernel, by decide +kernel⟩)

/-- The environment 0 runs, with one entry in the first queue; the second queue
is given. -/
def running (colaB : MlfqCola) : Kernel :=
  { (ready colaB).updateEnv 0 fun env =>
      { env with envStatus := .running, envId := 4096, colaActual := 0 } with
    cpus := fun _ => some 0 }

theorem contenido_vacia {contador : Int32} : (vacia contador).contenido = [] := by
  unfold MlfqCola.contenido Ring.contents Ring.counters MlfqCola.ring vacia
  dsimp only
  rw [Nat.sub_self]
  rfl

theorem registered_running (contador : Int32) :
    (running (vacia contador)).Registered := by
  intro e below alive
  by_cases own : e = 0
  · subst own
    have slot : envx 4096 = 0 := by decide
    refine ⟨slot, 0, rfl, fun p => ?_⟩
    have alone : (unica 4096).contenido = [4096] := by decide +kernel
    have empty : (vacia contador).contenido = [] := contenido_vacia
    match p with
    | 0 =>
        change (unica 4096).contenido.count 4096 = 1
        rw [alone]
        rfl
    | 1 =>
        change (vacia contador).contenido.count 4096 = 0
        rw [empty]
        rfl
    | 2 => rfl
    | 3 => rfl
  · have free : ((running (vacia contador)).envs e).envStatus = .free := by
      simp [running, ready, noEnv, Kernel.initial, initialEnv,
        Kernel.updateEnv, Kernel.setEnv, Kernel.setCola, own]
    exact absurd free alive

/-- The only entry of the environment disappears behind an `ultimo` that has
become negative. -/
theorem not_assignsSafely_overflow :
    ¬ ∀ (kernel : Kernel) (cpu current : Nat) (envid : UInt32) (prioridad : Int),
      kernel.Anillos → kernel.Registered → kernel.cpus cpu = some current →
      current < nenv → (kernel.envs current).envStatus ≠ .free →
      kernel.AssignsSafely cpu envid prioridad := by
  intro all
  have anillos : (running (vacia 2147483647)).Anillos := by decide +kernel
  have registered := registered_running 2147483647
  have alive : ((running (vacia 2147483647)).envs 0).envStatus ≠ .free := by
    decide +kernel
  have fits := assignFits_of_assignsSafely anillos registered rfl (by decide)
    alive (all _ 0 0 0 1 anillos registered rfl (by decide) alive)
  have cabe := fits 0 0 1 rfl rfl (.inl rfl) rfl (by decide +kernel)
  have below := cabe.2
  revert below
  decide +kernel

end FeaturesOS.Scheduler

import FeaturesOS.Scheduler.QueueSteps

/-!
# Removing an entry

`sched_eliminar_env` looks up the queue of an environment, at any offset of the
ring, and drops the entry by exchanging it with the first one.  No entry is lost,
but the first one falls back behind those that stood in front of the dropped
entry.
-/

namespace FeaturesOS.Scheduler

variable {kernel : Kernel} {q : Fin 4} {envId : UInt32}

/-- The queue is left with its old entries, in their old order, without one. -/
def Kernel.KeepsTurns (kernel : Kernel) (q : Fin 4) (envId : UInt32) : Prop :=
  ∃ removed, schedEliminarEnv envId kernel =
      .returns () (kernel.setCola q removed) ∧
    removed.contenido = (kernel.contenido q).erase envId

/-- The search finds an entry of `envId`, and nothing but its queue changes. -/
theorem schedEliminarEnv_returns (anillo : (kernel.mlfq.colas q).Anillo)
    (home : obtenerCola (kernel.envs (envx envId)).colaActual = some q)
    (member : envId ∈ kernel.contenido q) :
    ∃ i removed, i ∈ (kernel.mlfq.colas q).ring.counters ∧
      kernel.entrada q i = envId ∧
      (kernel.mlfq.colas q).borrar (i % nenv) = some removed ∧
      schedEliminarEnv envId kernel =
        .returns () (kernel.setCola q removed) := by
  have visited := MlfqCola.recorrido_eq anillo.ordenada
  obtain ⟨j, isCounter, isEntry⟩ := List.mem_map.mp member
  cases found : (kernel.mlfq.colas q).ring.counters.find? fun i =>
      (kernel.mlfq.colas q).entrada i == envId with
  | none =>
      have missing := List.find?_eq_none.mp found j isCounter
      exact absurd (beq_iff_eq.mpr isEntry) missing
  | some i =>
      have visits := List.mem_of_find?_eq_some found
      have same := List.find?_some found
      rw [beq_iff_eq] at same
      obtain ⟨removed, borrado⟩ : ∃ removed,
          (kernel.mlfq.colas q).borrar (i % nenv) = some removed := by
        unfold MlfqCola.borrar
        rw [posicion_eq anillo.primero]
        split <;> exact ⟨_, rfl⟩
      refine ⟨i, removed, visits, same, borrado, ?_⟩
      unfold schedEliminarEnv
      rw [home]
      dsimp only
      rw [visited]
      dsimp only
      rw [found]
      unfold onCola
      dsimp only
      rw [borrado]

/-- What is left of a queue, in terms of the entries in front of the removed one
and behind it. -/
theorem MlfqCola.contenido_borrar_split {cola removed : MlfqCola} {i : Nat}
    (anillo : cola.Anillo) (isCounter : i ∈ cola.ring.counters)
    (isEntry : cola.entrada i = envId)
    (borrado : cola.borrar (i % nenv) = some removed) :
    ∃ front back, cola.contenido = front ++ envId :: back ∧
      removed.contenido = front.rotate 1 ++ back := by
  obtain ⟨below, here⟩ := getElem_contenido isCounter
  obtain ⟨front, back, split, moved⟩ := Ring.moveHead_split below
  rw [here, isEntry] at split
  refine ⟨front, back, split, ?_⟩
  rw [contenido_borrar anillo.ordenada isCounter anillo.room borrado, moved]

theorem Kernel.setCola_injective {left right : MlfqCola}
    (same : kernel.setCola q left = kernel.setCola q right) : left = right := by
  have queue := congrArg (fun kernel => kernel.mlfq.colas q) same
  simpa [Kernel.setCola] using queue

/-- An entry that occurs once leaves its queue, and the first entry takes its
place.  The others keep their order exactly when the entries in front of it are
all the same. -/
theorem schedEliminarEnv_rotates (anillo : (kernel.mlfq.colas q).Anillo)
    (home : obtenerCola (kernel.envs (envx envId)).colaActual = some q)
    (once : (kernel.contenido q).count envId = 1) :
    ∃ front back removed, kernel.contenido q = front ++ envId :: back ∧
      schedEliminarEnv envId kernel =
        .returns () (kernel.setCola q removed) ∧
      removed.Anillo ∧
      removed.contenido = front.rotate 1 ++ back ∧
      removed.contenido.Perm ((kernel.contenido q).erase envId) ∧
      (kernel.KeepsTurns q envId ↔
        ∀ left ∈ front, ∀ right ∈ front, left = right) := by
  have member : envId ∈ kernel.contenido q :=
    List.count_pos_iff.mp (by omega)
  obtain ⟨i, removed, isCounter, isEntry, borrado, returns⟩ :=
    schedEliminarEnv_returns anillo home member
  obtain ⟨front, back, split, left⟩ :=
    MlfqCola.contenido_borrar_split anillo isCounter isEntry borrado
  change kernel.contenido q = _ at split
  have alone := once
  rw [split, List.count_append, List.count_cons_self] at alone
  have inFront : envId ∉ front := List.count_eq_zero.mp (by omega)
  have erased : (kernel.contenido q).erase envId = front ++ back := by
    rw [split, List.erase_append_right _ inFront, List.erase_cons_head]
  refine ⟨front, back, removed, split, returns, anillo.borrar isCounter borrado,
    left, ?_, ?_⟩
  · rw [left, erased]
    exact (List.rotate_perm front 1).append_right back
  · constructor
    · rintro ⟨other, again, keeps⟩
      rw [returns] at again
      have same := Kernel.setCola_injective (Outcome.returns.inj again).2
      rw [← same, left, erased] at keeps
      exact Ring.rotate_one_eq_iff.mp (List.append_cancel_right keeps)
    · intro same
      refine ⟨removed, returns, ?_⟩
      rw [left, erased, Ring.rotate_one_eq_iff.mpr same]

/-- Three environments in the second queue, at the end of the ring. -/
def tresEnColaB : Kernel :=
  { noEnv.setCola 1
      { envs := fun position =>
          if position = 1023 then 4096 else if position = 0 then 4097 else 4098
        ultimo := 1026
        primero := 1023 } with
    envs := fun e => { noEnv.envs e with colaActual := 1 } }

theorem schedEliminarEnv_rotates_second :
    ∃ front back removed, tresEnColaB.contenido 1 = front ++ 4097 :: back ∧
      schedEliminarEnv 4097 tresEnColaB =
        .returns () (tresEnColaB.setCola 1 removed) ∧
      removed.Anillo ∧
      removed.contenido = front.rotate 1 ++ back ∧
      removed.contenido.Perm ((tresEnColaB.contenido 1).erase 4097) ∧
      (tresEnColaB.KeepsTurns 1 4097 ↔
        ∀ left ∈ front, ∀ right ∈ front, left = right) :=
  schedEliminarEnv_rotates (by decide +kernel) rfl (by decide +kernel)

/-- The first environment falls back behind the second when the third leaves. -/
theorem not_keepsTurns_third :
    ¬ ∀ (kernel : Kernel) (q : Fin 4) (envId : UInt32),
      (kernel.mlfq.colas q).Anillo →
      obtenerCola (kernel.envs (envx envId)).colaActual = some q →
      (kernel.contenido q).count envId = 1 → kernel.KeepsTurns q envId := by
  intro all
  obtain ⟨removed, returns, keeps⟩ :=
    all tresEnColaB 1 4098 (by decide +kernel) rfl (by decide +kernel)
  have order : removed.contenido = [4096, 4097] := by
    rw [keeps]
    decide +kernel
  have swapped : schedEliminarEnv 4098 tresEnColaB =
      .returns () (tresEnColaB.setCola 1
        { envs := Function.update (Function.update
            (tresEnColaB.mlfq.colas 1).envs 1023 4098) 1 4096
          ultimo := 1026
          primero := 1024 }) := rfl
  rw [swapped] at returns
  have same := Kernel.setCola_injective (Outcome.returns.inj returns).2
  rw [← same] at order
  revert order
  decide +kernel

end FeaturesOS.Scheduler

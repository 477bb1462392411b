import FeaturesOS.Scheduler.Frames
import FeaturesOS.Scheduler.Ledger

/-!
# The kernel functions on the queues

What the functions of the kernel preserve of the ledger.  The queues stay clean
as long as no environment is freed, and they cover every environment as long as
every entry finds room in its queue.
-/

namespace FeaturesOS.Scheduler

open Entry

namespace Kernel

/-- The ledger of a kernel state. -/
def ledger (kernel : Kernel) : Ledger :=
  { envId := fun e => (kernel.envs e).envId
    status := fun e => (kernel.envs e).envStatus
    hasPgdir := fun e => (kernel.envs e).envPgdir.isSome
    link := fun e => (kernel.envs e).envLink
    colaActual := fun e => (kernel.envs e).colaActual
    freeList := kernel.envFreeList
    current := kernel.cpus
    colas := kernel.mlfq.colas }

/-- An update that touches only the status of an environment. -/
theorem ledger_updateEnv_status (kernel : Kernel) (e : Nat)
    {change : Env → Env} (envId : ∀ env, (change env).envId = env.envId)
    (pgdir : ∀ env, (change env).envPgdir = env.envPgdir)
    (link : ∀ env, (change env).envLink = env.envLink)
    (cola : ∀ env, (change env).colaActual = env.colaActual) :
    (kernel.updateEnv e change).ledger =
      kernel.ledger.setStatus e (change (kernel.envs e)).envStatus := by
  unfold ledger Ledger.setStatus updateEnv setEnv
  congr 1 <;> funext f <;> by_cases same : f = e <;>
    simp [same, envId, pgdir, link, cola, Function.update_of_ne]

/-- An update of fields that the ledger does not show. -/
theorem ledger_updateEnv_same (kernel : Kernel) (e : Nat)
    {change : Env → Env} (envId : ∀ env, (change env).envId = env.envId)
    (status : ∀ env, (change env).envStatus = env.envStatus)
    (pgdir : ∀ env, (change env).envPgdir = env.envPgdir)
    (link : ∀ env, (change env).envLink = env.envLink)
    (cola : ∀ env, (change env).colaActual = env.colaActual) :
    (kernel.updateEnv e change).ledger = kernel.ledger := by
  rw [ledger_updateEnv_status kernel e envId pgdir link cola, status]
  unfold Ledger.setStatus
  rw [show (kernel.envs e).envStatus = kernel.ledger.status e from rfl,
    Function.update_eq_self]

theorem ledger_updateEnv_cola (kernel : Kernel) (e : Nat) (cola : Int) :
    (kernel.updateEnv e fun env => { env with colaActual := cola }).ledger =
      kernel.ledger.setColaActual e cola := by
  unfold ledger Ledger.setColaActual updateEnv setEnv
  congr 1 <;> funext f <;> by_cases same : f = e <;>
    simp [same, Function.update_of_ne]

end Kernel

theorem blindToMem_ledger : BlindToMem Kernel.ledger := fun _ _ => rfl

variable {clean covered : Prop} {cpu e : Nat}

/-- The kernel keeps the invariant, and no environment is on its way between
queues. -/
def Kept (clean covered : Prop) (kernel : Kernel) : Prop :=
  kernel.ledger.Inv clean covered none

/-- `e` is an environment that a processor may run or whose status may
change. -/
def Usable (clean covered : Prop) (e : Nat) (kernel : Kernel) : Prop :=
  Kept clean covered kernel ∧ kernel.ledger.envId e ≠ 0 ∧
    (clean → kernel.ledger.status e ≠ .free)

theorem Usable.of_live {kernel : Kernel} (kept : Kept clean covered kernel)
    (live : kernel.ledger.status e ≠ .free) : Usable clean covered e kernel :=
  ⟨kept, kept.sound.live e live, fun _ => live⟩

theorem Usable.of_current {kernel : Kernel} (kept : Kept clean covered kernel)
    (current : kernel.cpus cpu = some e) : Usable clean covered e kernel :=
  ⟨kept, kept.sound.current cpu e current,
    fun wanted => (kept.clean wanted).current cpu e current⟩

theorem Usable.setStatus {kernel : Kernel}
    (usable : Usable clean covered e kernel) {status : EnvStatus}
    (lives : status ≠ .free) :
    (kernel.ledger.setStatus e status).Inv clean covered none :=
  usable.1.setStatus lives usable.2.1 usable.2.2

theorem kept_updateEnv {kernel : Kernel} {change : Env → Env}
    (usable : Usable clean covered e kernel)
    (lives : (change (kernel.envs e)).envStatus ≠ .free)
    (envId : ∀ env, (change env).envId = env.envId)
    (pgdir : ∀ env, (change env).envPgdir = env.envPgdir)
    (link : ∀ env, (change env).envLink = env.envLink)
    (cola : ∀ env, (change env).colaActual = env.colaActual) :
    Kept clean covered (kernel.updateEnv e change) := by
  unfold Kept
  rw [kernel.ledger_updateEnv_status e envId pgdir link cola]
  exact usable.setStatus lives

/-- An update of an environment that leaves others usable. -/
theorem Usable.updateEnv {kernel : Kernel} {f : Nat} {change : Env → Env}
    (usable : Usable clean covered e kernel)
    (kept : Usable clean covered f kernel)
    (lives : (change (kernel.envs f)).envStatus ≠ .free)
    (envId : ∀ env, (change env).envId = env.envId)
    (pgdir : ∀ env, (change env).envPgdir = env.envPgdir)
    (link : ∀ env, (change env).envLink = env.envLink)
    (cola : ∀ env, (change env).colaActual = env.colaActual) :
    Usable clean covered e (kernel.updateEnv f change) := by
  unfold Usable Kept
  rw [kernel.ledger_updateEnv_status f envId pgdir link cola]
  refine ⟨kept.setStatus lives, usable.2.1, fun wanted => ?_⟩
  by_cases same : e = f
  · simpa [Ledger.setStatus, same] using lives
  · simpa [Ledger.setStatus, same] using usable.2.2 wanted

theorem kept_updateEnv_same {kernel : Kernel} (kept : Kept clean covered kernel)
    (e : Nat) {change : Env → Env}
    (envId : ∀ env, (change env).envId = env.envId)
    (status : ∀ env, (change env).envStatus = env.envStatus)
    (pgdir : ∀ env, (change env).envPgdir = env.envPgdir)
    (link : ∀ env, (change env).envLink = env.envLink)
    (cola : ∀ env, (change env).colaActual = env.colaActual) :
    Kept clean covered (kernel.updateEnv e change) := by
  unfold Kept
  rw [kernel.ledger_updateEnv_same e envId status pgdir link cola]
  exact kept

/-! ## Dispatching -/

theorem usable_soltarCurenv {kernel : Kernel} (cpu : Nat)
    (usable : Usable clean covered e kernel) :
    Usable clean covered e (soltarCurenv cpu kernel) := by
  unfold soltarCurenv
  cases here : kernel.cpus cpu with
  | none => exact usable
  | some current =>
      dsimp only
      split
      · exact usable.updateEnv (.of_current usable.1 here) (by simp)
          (fun _ => rfl) (fun _ => rfl) (fun _ => rfl) fun _ => rfl
      · exact usable

theorem triple_envRun_queues (cpu e : Nat) {Result : Type}
    {returned : Result → Kernel → Prop} :
    Triple (Usable clean covered e) (envRun cpu e) returned
      (Kept clean covered) := by
  unfold envRun
  refine .bind_modify (Usable clean covered e)
    (fun _ => usable_soltarCurenv cpu) ?_
  refine .bind_modify (Kept clean covered) ?_ ?_
  · intro kernel usable
    have moved : Usable clean covered e (kernel.setCurenv cpu (some e)) := by
      refine ⟨usable.1.setCurrent cpu ?_ ?_, usable.2⟩
      · rintro f same
        cases same
        exact usable.2.1
      · rintro wanted f same
        cases same
        exact usable.2.2 wanted
    exact kept_updateEnv moved (by simp) (fun _ => rfl) (fun _ => rfl)
      (fun _ => rfl) fun _ => rfl
  · refine .bind_read ?_
    intro pgdir
    cases pgdir with
    | none => exact .stop
    | some pgdir => exact .leave fun _ kept => kept.1

theorem kept_halt {kernel : Kernel} (kept : Kept clean covered kernel)
    (cpu : Nat) : Kept clean covered (kernel.setCurenv cpu none) :=
  kept.setCurrent cpu (fun _ impossible => by cases impossible)
    fun _ _ impossible => by cases impossible

theorem triple_schedHalt_queues (cpu : Nat) {Result : Type}
    {returned : Result → Kernel → Prop} :
    Triple (Kept clean covered) (schedHalt cpu) returned
      (Kept clean covered) := by
  constructor
  intro kernel kept
  unfold schedHalt
  split
  · rename_i outcome
    split at outcome
    · cases outcome
    · cases outcome
  · rename_i outcome
    split at outcome
    · cases outcome
      exact kept_halt kept cpu
    · cases outcome
  · trivial

/-! ## Queue functions -/

theorem obtenerCola_val (q : Fin 4) : obtenerCola q.val = some q := by
  match q with
  | 0 => rfl
  | 1 => rfl
  | 2 => rfl
  | 3 => rfl

section QueueFunctions

variable (property : Ledger → Prop) {left : Kernel → Prop}

theorem triple_schedAgregarEnv (envId : UInt32) (q : Fin 4) :
    Triple (fun kernel => property (kernel.ledger.agregar envId q))
      (schedAgregarEnv envId q.val) (fun _ kernel => property kernel.ledger)
      left := by
  constructor
  intro kernel holds
  unfold schedAgregarEnv
  rw [obtenerCola_val]
  dsimp only
  cases found : posicion (kernel.mlfq.colas q).ultimo with
  | none => trivial
  | some position =>
      have appended : (kernel.mlfq.colas q).agregar envId =
          { kernel.mlfq.colas q with
            envs := Function.update (kernel.mlfq.colas q).envs position envId
            ultimo := (kernel.mlfq.colas q).ultimo + 1 } := by
        unfold MlfqCola.agregar
        rw [found]
      dsimp only
      rw [← appended]
      have marked : ∀ cola, ((kernel.updateEnv (envx envId) fun env =>
          { env with colaActual := (q.val : Int) }).setCola q cola).ledger =
          (kernel.ledger.setColaActual (envx envId) q.val).setCola q cola := by
        intro cola
        rw [← kernel.ledger_updateEnv_cola]
        rfl
      rw [marked]
      exact holds

theorem triple_borrar (q : Fin 4) (position : Nat) :
    Triple
      (fun kernel => ∀ next,
        (kernel.ledger.colas q).borrar position = some next →
        property (kernel.ledger.setCola q next))
      (onCola q fun cola => cola.borrar position)
      (fun _ kernel => property kernel.ledger) left := by
  constructor
  intro kernel holds
  unfold onCola
  dsimp only
  cases removed : (kernel.mlfq.colas q).borrar position with
  | none => trivial
  | some next => exact holds next removed

theorem triple_promoverEntradas (entries : List UInt32) :
    Triple (fun kernel => property (kernel.ledger.agregarTodos entries))
      (promoverEntradas entries) (fun _ kernel => property kernel.ledger)
      left := by
  induction entries with
  | nil =>
      refine .pure ?_
      intro kernel holds
      rwa [Ledger.agregarTodos_nil] at holds
  | cons envId rest induction =>
      refine .strengthen _ ?_
        ((triple_schedAgregarEnv
          (fun ledger => property (ledger.agregarTodos rest)) envId 0).bind
          fun _ => induction)
      intro kernel holds
      rwa [Ledger.agregarTodos_cons] at holds

theorem triple_promoverCola (q : Fin 4) :
    Triple
      (fun kernel => (kernel.ledger.colas q).Ordenada ∧
        property (kernel.ledger.agregarTodos (kernel.ledger.colas q).contenido))
      (promoverCola q) (fun _ kernel => property kernel.ledger) left := by
  refine .bind_read ?_
  intro cola
  cases visited : cola.recorrido with
  | none => exact .stop
  | some counters =>
      refine (triple_promoverEntradas property _).strengthen _ ?_
      rintro kernel ⟨⟨ordenada, holds⟩, rfl⟩
      have same := MlfqCola.recorrido_eq ordenada
      rw [show kernel.ledger.colas q = kernel.mlfq.colas q from rfl,
        visited] at same
      rw [Option.some.inj same]
      exact holds

theorem triple_promoverColas :
    Triple
      (fun kernel => (∀ q, (kernel.ledger.colas q).Ordenada) ∧
        property kernel.ledger.promover)
      promoverColas (fun _ kernel => property kernel.ledger) left := by
  unfold promoverColas
  have emptied : Triple (fun kernel => property kernel.ledger.vaciar)
      vaciarColas (fun _ kernel => property kernel.ledger) left :=
    .modify fun kernel holds => holds
  have third := (triple_promoverCola (fun ledger => property ledger.vaciar)
    3).bind fun _ => emptied
  have second := (triple_promoverCola
    (fun ledger => (ledger.colas 3).Ordenada ∧
      property (ledger.agregarTodos (ledger.colas 3).contenido).vaciar)
    2).bind fun _ => third
  have first := (triple_promoverCola
    (fun ledger => (ledger.colas 2).Ordenada ∧
      ((ledger.agregarTodos (ledger.colas 2).contenido).colas 3).Ordenada ∧
      property ((ledger.agregarTodos (ledger.colas 2).contenido).agregarTodos
        ((ledger.agregarTodos (ledger.colas 2).contenido).colas
          3).contenido).vaciar)
    1).bind fun _ => second
  refine .strengthen _ ?_ first
  rintro kernel ⟨ordenada, holds⟩
  rw [Ledger.promover_eq] at holds
  unfold Ledger.promovidas at holds
  rw [Ledger.agregarTodos_append, Ledger.agregarTodos_append] at holds
  exact ⟨ordenada 1, ordenada 2, ordenada 3, holds⟩

end QueueFunctions

/-! ## The scheduler -/

/-- The queue behind `q`. -/
def siguienteCola (q : Fin 4) : Fin 4 := if q = 3 then 3 else q + 1

theorem siguienteCola_val (q : Fin 4) :
    (if q.val ≥ 3 then 3 else (q.val : Int) + 1) = (siguienteCola q).val := by
  match q with
  | 0 => rfl
  | 1 => rfl
  | 2 => rfl
  | 3 => rfl

theorem siguienteCola_ne {q : Fin 4} (notLast : q ≠ 3) : siguienteCola q ≠ q := by
  revert q
  decide

/-- The environment that `prioridad_MLFQ` would choose finds room in its next
queue; in the last queue it leaves the room that it takes. -/
def Kernel.NextFits (kernel : Kernel) : Prop :=
  ∀ q i, kernel.colaMejorPrioridad [0, 1, 2, 3] = some (some (q, i)) →
    if q = 3 then (kernel.mlfq.colas 3).ultimo.toInt + 1 < 2147483648
    else (kernel.mlfq.colas (siguienteCola q)).Cabe 1

/-- What `sched_yield` appends to a queue finds room there. -/
def Kernel.YieldFits (kernel : Kernel) : Prop :=
  if kernel.mlfq.ejecucionesTotales ≥ maxEjecucionesMlfq then
    (kernel.mlfq.colas 0).Cabe kernel.ledger.promovidas.length
  else
    kernel.NextFits

theorem mem_counters_of_found {kernel : Kernel}
    (kept : Kept clean covered kernel) {indices : List (Fin 4)} {q : Fin 4}
    {i : Nat}
    (found : kernel.colaMejorPrioridad indices = some (some (q, i))) :
    i ∈ (kernel.mlfq.colas q).ring.counters := by
  obtain ⟨counters, visited, member, -⟩ := kernel.colaMejorPrioridad_found found
  have same := MlfqCola.recorrido_eq (kept.sound.ordenada q)
  rw [show kernel.ledger.colas q = kernel.mlfq.colas q from rfl, visited] at same
  rwa [← Option.some.inj same]

/-- The chosen entry moves to the next queue. -/
theorem inv_mover {kernel : Kernel} (kept : Kept clean covered kernel)
    (fits : covered → kernel.NextFits) {q : Fin 4}
    {i : Nat}
    (found : kernel.colaMejorPrioridad [0, 1, 2, 3] = some (some (q, i)))
    {next : MlfqCola}
    (removed : (kernel.ledger.colas q).borrar (i % nenv) = some next) :
    ((kernel.ledger.setCola q next).agregar
      ((kernel.mlfq.colas q).entrada i) (siguienteCola q)).Inv clean covered
      none := by
  have isCounter := mem_counters_of_found kept found
  have perm := fun room => MlfqCola.borrar_perm (kept.sound.ordenada q)
    isCounter room removed
  obtain ⟨ultimo, -⟩ := MlfqCola.borrar_ultimo removed
  refine (kept.quitar isCounter removed).agregar ?_ ?_
  · intro wanted
    have isClean := kept.clean wanted
    have member := (perm isClean.homed.length_le).mem_iff.mp List.mem_cons_self
    obtain ⟨isId, alive, -, -⟩ := isClean.entry q _ member
    exact ⟨isId, alive⟩
  · intro wanted
    have room := (kept.covered wanted).room q
    have shorter := (perm room).length_eq
    rw [List.length_cons] at shorter
    have next' := fits wanted q i found
    by_cases last : q = 3
    · subst q
      rw [if_pos rfl] at next'
      simp only [siguienteCola, if_true, Ledger.setCola, Function.update_self]
      refine ⟨by omega, ?_⟩
      rw [ultimo]
      exact next'
    · rw [if_neg last] at next'
      have different := siguienteCola_ne last
      simp only [Ledger.setCola, Function.update_of_ne different]
      exact next'

theorem contarTotal_ledger (kernel : Kernel) (e : Nat) :
    (kernel.contarTotal.contarEjecucion e).ledger = kernel.ledger :=
  kernel.contarTotal.ledger_updateEnv_same e (fun _ => rfl) (fun _ => rfl)
    (fun _ => rfl) (fun _ => rfl) fun _ => rfl

theorem usable_of_curenvRunning {kernel : Kernel}
    (kept : Kept clean covered kernel)
    (current : kernel.curenvRunning cpu = some e) :
    Usable clean covered e kernel :=
  .of_current kept (Option.filter_eq_some_iff.mp current).1

theorem triple_prioridadMlfq_queues (cpu : Nat) :
    Triple
      (fun kernel => Kept clean covered kernel ∧ (covered → kernel.NextFits))
      (prioridadMlfq cpu) (fun _ => Kept clean covered)
      (Kept clean covered) := by
  unfold prioridadMlfq
  refine .bind_read ?_
  intro mejor
  match mejor with
  | none => exact .stop
  | some none =>
      refine .bind_read ?_
      intro curenv
      cases curenv with
      | some current =>
          refine .bind_modify (Usable clean covered current) ?_
            (triple_envRun_queues cpu current)
          rintro kernel ⟨⟨⟨kept, -⟩, -⟩, found⟩
          unfold Usable Kept
          rw [contarTotal_ledger]
          exact usable_of_curenvRunning kept found
      | none =>
          exact .strengthen (Kept clean covered) (fun _ kept => kept.1.1.1)
            (triple_schedHalt_queues cpu)
  | some (some (q, i)) =>
      refine .bind_read ?_
      intro envId
      dsimp only
      rw [siguienteCola_val]
      refine .strengthen _ ?_
        ((triple_borrar (fun ledger =>
            (ledger.agregar envId (siguienteCola q)).Inv clean covered none ∧
              ledger.status (envx envId) = .runnable) q (i % nenv)).bind
          fun _ => (triple_schedAgregarEnv (fun ledger =>
            ledger.Inv clean covered none ∧
              ledger.status (envx envId) = .runnable) envId
            (siguienteCola q)).bind fun _ => ?_)
      · rintro kernel ⟨⟨⟨kept, fits⟩, found⟩, rfl⟩ next removed
        obtain ⟨-, -, -, runnable⟩ := kernel.colaMejorPrioridad_found found
        exact ⟨inv_mover kept fits found removed, runnable⟩
      · refine .bind_modify (Usable clean covered (envx envId)) ?_
          (triple_envRun_queues cpu _)
        rintro kernel ⟨kept, runnable⟩
        unfold Usable Kept
        rw [contarTotal_ledger]
        exact Usable.of_live kept (by rw [runnable]; decide)

/-- After a promotion only the first queue has entries. -/
theorem nextFits_of_promoted {kernel : Kernel}
    (kept : Kept clean covered kernel)
    (emptied : ∀ q, q ≠ 0 → (kernel.mlfq.colas q).contenido = [] ∧
      (kernel.mlfq.colas q).ultimo = 0) :
    kernel.NextFits := by
  intro q i found
  have isCounter := mem_counters_of_found kept found
  have first : q = 0 := by
    by_contra notFirst
    have inside : (kernel.mlfq.colas q).ring.entry nenv i ∈
        (kernel.mlfq.colas q).contenido :=
      List.mem_map_of_mem isCounter
    rw [(emptied q notFirst).1] at inside
    cases inside
  subst q
  rw [if_neg (by decide)]
  obtain ⟨none, start⟩ := emptied (siguienteCola 0) (by decide)
  constructor
  · rw [none]
    decide
  · rw [start]
    decide

theorem triple_promoverSiCorresponde (clean covered : Prop) :
    Triple
      (fun kernel => Kept clean covered kernel ∧ (covered → kernel.YieldFits))
      promoverSiCorresponde
      (fun _ kernel => Kept clean covered kernel ∧ (covered → kernel.NextFits))
      (Kept clean covered) := by
  unfold promoverSiCorresponde
  refine .bind_read ?_
  intro totales
  refine .ite (fun enough => ?_) fun few => ?_
  · refine .strengthen _ ?_
      ((triple_promoverColas (fun ledger => ledger.Inv clean covered none ∧
        ∀ q, q ≠ 0 → (ledger.colas q).contenido = [] ∧
          (ledger.colas q).ultimo = 0)).bind fun _ => ?_)
    · rintro kernel ⟨⟨kept, fits⟩, rfl⟩
      refine ⟨kept.sound.ordenada, kept.promover ?_, ?_⟩
      · intro wanted
        have yields := fits wanted
        unfold Kernel.YieldFits at yields
        rwa [if_pos enough] at yields
      · intro q notFirst
        simp only [Ledger.promover, if_neg notFirst]
        exact ⟨MlfqCola.contenido_vaciada, rfl⟩
    · refine .modify ?_
      rintro kernel ⟨kept, emptied⟩
      exact ⟨kept, fun _ => nextFits_of_promoted kept emptied⟩
  · refine .pure ?_
    rintro kernel ⟨⟨kept, fits⟩, rfl⟩
    refine ⟨kept, fun wanted => ?_⟩
    have yields := fits wanted
    unfold Kernel.YieldFits at yields
    rwa [if_neg few] at yields

theorem triple_schedYield_queues (cpu : Nat)
    {Result : Type} {returned : Result → Kernel → Prop} :
    Triple
      (fun kernel => Kept clean covered kernel ∧ (covered → kernel.YieldFits))
      (schedYield .priorities cpu) returned (Kept clean covered) := by
  unfold schedYield
  refine .bind_modify
    (fun kernel => Kept clean covered kernel ∧ (covered → kernel.YieldFits))
    (fun _ kept => kept) ?_
  have elegido := (triple_promoverSiCorresponde clean covered).bind fun _ =>
    triple_prioridadMlfq_queues cpu
  exact Triple.bind elegido fun _ => triple_schedHalt_queues cpu

/-! ## Creating and freeing environments -/

theorem nextGeneration_mod (envId : UInt32) :
    (nextGeneration envId).toNat % 1024 = 0 := by
  unfold nextGeneration
  dsimp only
  split
  · rfl
  · rw [UInt32.toNat_and, show (1024 : Nat) = 2 ^ 10 from rfl,
      Nat.and_mod_two_pow, show (~~~(1023 : UInt32)).toNat % 2 ^ 10 = 0 from rfl,
      Nat.and_zero]

theorem nextGeneration_ne_zero (envId : UInt32) :
    nextGeneration envId ≠ 0 := by
  unfold nextGeneration
  dsimp only
  split
  · decide
  · rename_i positive
    intro zero
    rw [zero] at positive
    exact positive (by decide)

theorem envx_newId (envId : UInt32) (below : e < nenv) :
    envx (nextGeneration envId ||| UInt32.ofNat e) = e := by
  have small : e < 1024 := below
  unfold envx
  rw [UInt32.toNat_or, show nenv = 2 ^ 10 from rfl, Nat.or_mod_two_pow,
    show (2 : Nat) ^ 10 = 1024 from rfl, nextGeneration_mod, Nat.zero_or,
    UInt32.toNat_ofNat']
  omega

theorem newId_ne_zero (envId : UInt32) :
    nextGeneration envId ||| UInt32.ofNat e ≠ 0 := by
  intro zero
  exact nextGeneration_ne_zero envId (UInt32.or_eq_zero_iff.mp zero).1

/-- The new environment finds room in the queue of its parent. -/
def Kernel.AllocFits (kernel : Kernel) (cpu : Nat) (parentId : UInt32) : Prop :=
  ∀ e q, kernel.envFreeList = some e → kernel.mem.pageFreeList ≠ none →
    obtenerCola (colaPadre cpu parentId (commitEnv parentId e kernel)) =
      some q →
    (kernel.mlfq.colas q).Cabe 1

theorem colaPadre_congr {kernel other : Kernel} (cpu : Nat) (parentId : UInt32)
    (cpus : other.cpus = kernel.cpus)
    (status : ∀ e, (other.envs e).envStatus = (kernel.envs e).envStatus)
    (envId : ∀ e, (other.envs e).envId = (kernel.envs e).envId)
    (cola : ∀ e, (other.envs e).colaActual = (kernel.envs e).colaActual) :
    colaPadre cpu parentId other = colaPadre cpu parentId kernel := by
  unfold colaPadre envid2env
  simp only [cpus, status, envId, cola, Bool.false_eq_true, false_and, if_false]

theorem colaPadre_range {kernel : Kernel}
    (range : ∀ e, ∃ q : Fin 4, (kernel.envs e).colaActual = q.val)
    (cpu : Nat) (parentId : UInt32) :
    ∃ q : Fin 4, colaPadre cpu parentId kernel = q.val := by
  unfold colaPadre
  split
  · exact range _
  · exact ⟨0, rfl⟩

/-- `env_alloc` may commit the environment `e`. -/
def Ready (clean covered : Prop) (cpu : Nat) (parentId : UInt32) (e : Nat)
    (kernel : Kernel) : Prop :=
  (commitEnv parentId e kernel).ledger.Inv clean covered (some e) ∧
    envx (nextGeneration (kernel.envs e).envId ||| UInt32.ofNat e) = e ∧
    (covered → ∀ q,
      obtenerCola (colaPadre cpu parentId (commitEnv parentId e kernel)) =
        some q → (kernel.mlfq.colas q).Cabe 1)

theorem commitEnv_envs (parentId : UInt32) (e : Nat) (kernel : Kernel) :
    ((commitEnv parentId e kernel).envs e).envId =
        nextGeneration (kernel.envs e).envId ||| UInt32.ofNat e ∧
      ((commitEnv parentId e kernel).envs e).envStatus = .runnable := by
  simp [commitEnv, Kernel.updateEnv, Kernel.setEnv]

theorem triple_envSetupVm_queues (cpu : Nat) (parentId : UInt32) (e : Nat) :
    Triple
      (fun kernel => Kept clean covered kernel ∧
        (covered → kernel.AllocFits cpu parentId) ∧
        kernel.envFreeList = some e)
      (envSetupVm e)
      (fun r kernel => if r < 0 then Kept clean covered kernel
        else Ready clean covered cpu parentId e kernel)
      (Kept clean covered) := by
  constructor
  rintro kernel ⟨kept, fits, head⟩
  have below : e < nenv := kept.sound.freeHead e head
  unfold envSetupVm PhysMem.pageAlloc
  cases pages : kernel.mem.pageFreeList with
  | none => exact kept
  | some page =>
      have slot := envx_newId (kernel.envs e).envId below
      have mapped : ∀ mem,
          (commitEnv parentId e ((kernel.setMem mem).updateEnv e fun env =>
            { env with envPgdir := some page })).ledger =
          kernel.ledger.allocate e
            (nextGeneration (kernel.envs e).envId ||| UInt32.ofNat e) := by
        intro mem
        unfold Kernel.ledger Ledger.allocate commitEnv Kernel.updateEnv
          Kernel.setEnv Kernel.setMem
        congr 1 <;> first
          | (funext f; by_cases same : f = e <;> simp [same])
          | simp
      have sameCola : ∀ mem, colaPadre cpu parentId
          (commitEnv parentId e ((kernel.setMem mem).updateEnv e fun env =>
            { env with envPgdir := some page })) =
          colaPadre cpu parentId (commitEnv parentId e kernel) := by
        intro mem
        refine colaPadre_congr cpu parentId rfl ?_ ?_ ?_ <;> intro f <;>
          by_cases same : f = e <;>
          simp [commitEnv, Kernel.updateEnv, Kernel.setEnv, Kernel.setMem, same]
      dsimp only
      rw [if_neg (by decide)]
      refine ⟨?_, ?_, ?_⟩
      · rw [mapped]
        exact kept.allocate head slot (newId_ne_zero _)
      · simpa [Kernel.updateEnv, Kernel.setEnv, Kernel.setMem] using slot
      · intro wanted q found
        rw [sameCola] at found
        exact fits wanted e q head (by rw [pages]; simp) found

theorem triple_envAlloc_queues (cpu : Nat) (parentId : UInt32) :
    Triple
      (fun kernel => Kept clean covered kernel ∧
        (covered → kernel.AllocFits cpu parentId))
      (envAlloc cpu parentId)
      (fun result kernel => Kept clean covered kernel ∧
        ∀ e, result = .ok e → kernel.ledger.status e = .runnable)
      (Kept clean covered) := by
  unfold envAlloc
  refine .bind_read ?_
  intro head
  cases head with
  | none =>
      exact .pure fun _ holds => ⟨holds.1.1, fun _ impossible => by
        cases impossible⟩
  | some e =>
      refine .strengthen _ ?_
        ((triple_envSetupVm_queues cpu parentId e).bind fun r => ?_)
      · rintro kernel ⟨⟨kept, fits⟩, head⟩
        exact ⟨kept, fits, head⟩
      refine .ite (fun failed => ?_) fun succeeded => ?_
      · refine .pure fun kernel holds => ?_
        rw [if_pos failed] at holds
        exact ⟨holds, fun _ impossible => by cases impossible⟩
      · simp only [if_neg succeeded]
        refine .bind_modify
          (fun kernel => kernel.ledger.Inv clean covered (some e) ∧
            envx (kernel.envs e).envId = e ∧
            (kernel.envs e).envStatus = .runnable ∧
            (covered → ∀ q, obtenerCola (colaPadre cpu parentId kernel) =
              some q → (kernel.mlfq.colas q).Cabe 1)) ?_ ?_
        · rintro kernel ⟨inv, slot, fits⟩
          obtain ⟨isId, isRunnable⟩ := commitEnv_envs parentId e kernel
          exact ⟨inv, by rw [isId]; exact slot, isRunnable, fits⟩
        · refine .bind_read fun cola => .bind_read fun envId => ?_
          by_cases range : ∃ q : Fin 4, cola = q.val
          · obtain ⟨q, rfl⟩ := range
            refine .strengthen _ ?_
              ((triple_schedAgregarEnv (fun ledger =>
                ledger.Inv clean covered none ∧ ledger.status e = .runnable)
                envId q).bind fun _ => .pure ?_)
            · rintro kernel ⟨⟨⟨inv, slot, runnable, fits⟩, isCola⟩, rfl⟩
              refine ⟨Ledger.Inv.agregar ?_ ?_ ?_, runnable⟩
              · rw [slot]
                exact inv
              · intro _
                rw [slot]
                refine ⟨rfl, ?_⟩
                change (kernel.envs e).envStatus ≠ .free
                rw [runnable]
                decide
              · intro wanted
                exact fits wanted q (by rw [isCola]; exact obtenerCola_val q)
            · rintro kernel ⟨kept, runnable⟩
              refine ⟨kept, ?_⟩
              rintro f same
              cases same
              exact runnable
          · refine ⟨?_⟩
            rintro kernel ⟨⟨⟨inv, -⟩, isCola⟩, -⟩
            refine absurd ?_ range
            rw [← isCola]
            exact colaPadre_range inv.sound.colaActual cpu parentId

/-- `e` is already free. -/
def Kernel.retired (kernel : Kernel) (e : Nat) : Kernel :=
  kernel.updateEnv e fun env => { env with envStatus := .free }

theorem yieldFits_congr (kernel other : Kernel) (mlfq : other.mlfq = kernel.mlfq)
    (status : ∀ e, (other.envs e).envStatus = (kernel.envs e).envStatus) :
    other.YieldFits ↔ kernel.YieldFits := by
  have runnable : other.Runnable = kernel.Runnable := by
    funext e
    unfold Kernel.Runnable
    rw [status]
  have first : ∀ cola,
      other.primeroEjecutable cola = kernel.primeroEjecutable cola := by
    intro cola
    unfold Kernel.primeroEjecutable
    simp only [runnable]
  have best : ∀ indices,
      other.colaMejorPrioridad indices = kernel.colaMejorPrioridad indices := by
    intro indices
    induction indices with
    | nil => rfl
    | cons index rest induction =>
        simp only [Kernel.colaMejorPrioridad, mlfq, first, induction]
  unfold Kernel.YieldFits Kernel.NextFits Kernel.ledger Ledger.promovidas
  simp only [mlfq, best]

theorem triple_envFree_queues (unclean : ¬ clean) (fits : Prop) (e : Nat) :
    Triple
      (fun kernel => Kept clean covered kernel ∧
        (fits → (kernel.retired e).YieldFits))
      (envFree e)
      (fun _ kernel => Kept clean covered kernel ∧ (fits → kernel.YieldFits))
      (Kept clean covered) := by
  constructor
  rintro kernel ⟨kept, yields⟩
  unfold envFree
  cases pgdir : (kernel.envs e).envPgdir with
  | none => trivial
  | some directory =>
      dsimp only
      cases (envFreeTables directory userTables kernel.mem).bind fun mem =>
          mem.pageDecref directory with
      | none => trivial
      | some mem =>
          have released :
              ({ (kernel.setMem mem).updateEnv e fun env =>
                  { env with
                    envPgdir := none
                    envStatus := .free
                    envLink := kernel.envFreeList } with
                envFreeList := some e } : Kernel).ledger =
                kernel.ledger.release e := by
            unfold Kernel.ledger Ledger.release Kernel.updateEnv Kernel.setEnv
            congr 1 <;> funext f <;> by_cases same : f = e <;>
              simp [same, Kernel.setMem]
          refine ⟨?_, fun wanted => ?_⟩
          · change Ledger.Inv _ clean covered none
            rw [released]
            refine kept.release unclean ?_
            change (kernel.envs e).envPgdir.isSome = true
            rw [pgdir]
            rfl
          · refine (yieldFits_congr (kernel.retired e) _ ?_ ?_).mpr
              (yields wanted)
            · rfl
            intro f
            by_cases same : f = e <;>
              simp [Kernel.retired, Kernel.updateEnv, Kernel.setEnv,
                Kernel.setMem, same]

/-- `env_destroy` leaves the environment to the processor that runs it. -/
def Kernel.Deferred (kernel : Kernel) (cpu e : Nat) : Prop :=
  (kernel.envs e).envStatus = .running ∧ kernel.cpus cpu ≠ some e

theorem triple_envDestroy_queues (cpu e : Nat) :
    Triple
      (fun kernel => Kept clean covered kernel ∧
        (clean → kernel.Deferred cpu e) ∧
        (covered → kernel.cpus cpu = some e → (kernel.retired e).YieldFits))
      (envDestroy .priorities cpu e) (fun _ => Kept clean covered)
      (Kept clean covered) := by
  unfold envDestroy
  refine .bind_read fun status => .bind_read fun curenv => ?_
  refine .ite (fun deferred => ?_) fun frees => ?_
  · refine .modify ?_
    rintro kernel ⟨⟨⟨kept, -⟩, isStatus⟩, -⟩
    have live : kernel.ledger.status e ≠ .free := by
      change (kernel.envs e).envStatus ≠ .free
      rw [isStatus, deferred.1]
      decide
    exact kept_updateEnv (Usable.of_live kept live) (by simp) (fun _ => rfl)
      (fun _ => rfl) (fun _ => rfl) fun _ => rfl
  · by_cases wanted : clean
    · refine ⟨?_⟩
      rintro kernel ⟨⟨⟨-, deferred, -⟩, isStatus⟩, isCurenv⟩
      obtain ⟨running, elsewhere⟩ := deferred wanted
      refine absurd ⟨?_, ?_⟩ frees
      · rw [← isStatus, running]
      · rwa [← isCurenv]
    · refine .strengthen _ ?_
        ((triple_envFree_queues wanted (covered ∧ curenv = some e) e).bind
          fun _ => ?_)
      · rintro kernel ⟨⟨⟨kept, -, fits⟩, -⟩, isCurenv⟩
        refine ⟨kept, ?_⟩
        rintro ⟨isCovered, own⟩
        exact fits isCovered (isCurenv.trans own)
      · refine .ite (fun own => ?_) fun _ => ?_
        · refine .bind_modify (fun kernel => Kept clean covered kernel ∧
            (covered → kernel.YieldFits)) ?_
            (triple_schedYield_queues cpu)
          rintro kernel ⟨kept, fits⟩
          refine ⟨kept_halt kept cpu, fun isCovered => ?_⟩
          exact (yieldFits_congr kernel _ rfl fun _ => rfl).mpr
            (fits ⟨isCovered, own⟩)
        · exact .pure fun _ holds => holds.1

end FeaturesOS.Scheduler

import FeaturesOS.Machine
import FeaturesOS.Scheduler.Boot
import FeaturesOS.Scheduler.QueueCalls

/-!
# Runs of the priority scheduler

The operations that touch the queues or the status of an environment, in any
order and on any processor.  Over such runs the queues stay clean until an
environment is freed: `env_free` does not remove the entry.  They lose no
environment until an entry is appended to a full queue.
-/

namespace FeaturesOS.Scheduler

open Entry

/-- The operations on environments and queues. -/
inductive SchedOp where
  | envRun (e : Nat)
  | envAlloc (parentId : UInt32)
  | envFree (e : Nat)
  | envDestroy (e : Nat)
  | exofork
  | setStatus (envid status : UInt32)
  | ipcRecv (dstva : UInt32)
  | ipcTrySend (surroundings : Surroundings) (envid value srcva perm : UInt32)
  | asignarPrioridad (envid : UInt32) (prioridad : Int)
  | yield

namespace SchedOp

/-- The operation on the processor `cpu`. -/
def entry (cpu : Nat) : SchedOp → KernelM Unit
  | envRun e => Scheduler.envRun cpu e
  | envAlloc parentId => do
      let _ ← Scheduler.envAlloc cpu parentId
      pure ()
  | envFree e => Scheduler.envFree e
  | envDestroy e => Scheduler.envDestroy .priorities cpu e
  | exofork => do
      let _ ← sysExofork cpu
      pure ()
  | setStatus envid status => do
      let _ ← sysEnvSetStatus cpu envid status
      pure ()
  | ipcRecv dstva => do
      let _ ← sysIpcRecv .priorities cpu dstva
      pure ()
  | ipcTrySend surroundings envid value srcva perm => do
      let _ ← sysIpcTrySend surroundings cpu envid value srcva perm
      pure ()
  | asignarPrioridad envid prioridad => do
      let _ ← sysEnvAsignarPrioridad cpu envid prioridad
      pure ()
  | yield => schedYield .priorities cpu

/-- `env_run` is called for an environment that exists. -/
def Possible (kernel : Kernel) : SchedOp → Prop
  | envRun e => (kernel.envs e).envStatus ≠ .free
  | _ => True

/-- The operation frees no environment. -/
def FreesNothing (kernel : Kernel) (cpu : Nat) : SchedOp → Prop
  | envFree _ => False
  | envDestroy e => kernel.Deferred cpu e
  | _ => True

/-- What the operation appends to a queue finds room there. -/
def Fits (kernel : Kernel) (cpu : Nat) : SchedOp → Prop
  | envAlloc parentId => kernel.AllocFits cpu parentId
  | exofork => ∀ current, kernel.cpus cpu = some current →
      kernel.AllocFits cpu (kernel.envs current).envId
  | asignarPrioridad envid prioridad => kernel.AssignFits cpu envid prioridad
  | ipcRecv dstva => UserPage dstva → ∀ current,
      kernel.cpus cpu = some current → (kernel.blocked current).YieldFits
  | envDestroy e => kernel.cpus cpu = some e → (kernel.retired e).YieldFits
  | yield => kernel.YieldFits
  | _ => True

end SchedOp

/-- The kernel with the operations of its processors as steps. -/
def schedMachine : Machine Kernel (Nat × SchedOp) where
  Initial kernel := ∃ mem kernPgdir pool,
    PhysMem.Booted mem kernPgdir pool ∧ kernel = .initial mem kernPgdir
  Step kernel event next := event.2.Possible kernel ∧
    (event.2.entry event.1 kernel).finalState = some next

variable {clean covered : Prop}

theorem sound_initial (mem : PhysMem) (kernPgdir : Nat) :
    (Kernel.initial mem kernPgdir).ledger.Sound where
  ordenada _ := ⟨Int.le_refl 0, .inl (Int.le_refl 0)⟩
  colaActual _ := ⟨0, rfl⟩
  freeHead e head := by
    rw [← Option.some.inj head]
    decide
  freeLink e next link := by
    change (if e + 1 < nenv then some (e + 1) else none) = some next at link
    split at link
    · rw [← Option.some.inj link]
      assumption
    · cases link
  slot _ given := absurd rfl given
  live _ alive := absurd rfl alive
  mapped _ mapped := by cases mapped
  current _ _ current := by cases current

theorem clean_initial (mem : PhysMem) (kernPgdir : Nat) :
    (Kernel.initial mem kernPgdir).ledger.Clean none where
  entry _ _ member := by cases member
  nodup _ := List.nodup_nil
  freeNodes := ⟨_, Kernel.initial_freeList mem kernPgdir, List.nodup_range',
    fun _ _ => rfl⟩
  current _ _ current := by cases current

theorem kept_initial (mem : PhysMem) (kernPgdir : Nat) :
    Kept clean covered (.initial mem kernPgdir) where
  sound := sound_initial mem kernPgdir
  clean _ := clean_initial mem kernPgdir
  covered _ :=
    { entry := fun _ given => absurd rfl given
      room := fun _ => Nat.zero_le _
      valid := fun _ => Int.le_refl 0 }

/-- What one operation preserves. -/
theorem triple_schedOp (cpu : Nat) (op : SchedOp) :
    Triple
      (fun kernel => Kept clean covered kernel ∧ op.Possible kernel ∧
        (clean → op.FreesNothing kernel cpu) ∧
        (covered → op.Fits kernel cpu))
      (op.entry cpu) (fun _ => Kept clean covered) (Kept clean covered) := by
  have discard : ∀ {Result : Type} {before : Kernel → Prop}
      {entry : KernelM Result},
      Triple before entry (fun _ => Kept clean covered)
        (Kept clean covered) →
      Triple before (do let _ ← entry; pure ()) (fun _ => Kept clean covered)
        (Kept clean covered) :=
    fun triple => triple.bind fun _ => .pure fun _ kept => kept
  cases op with
  | envRun e =>
      refine (triple_envRun_queues cpu e).strengthen _ ?_
      rintro kernel ⟨kept, live, -⟩
      exact .of_live kept live
  | envAlloc parentId =>
      refine discard ((triple_envAlloc_queues cpu parentId).weaken ?_
        (fun _ _ holds => holds.1) fun _ => id)
      rintro kernel ⟨kept, -, -, fits⟩
      exact ⟨kept, fits⟩
  | envFree e =>
      by_cases wanted : clean
      · exact ⟨fun _ holds => (holds.2.2.1 wanted).elim⟩
      · refine (triple_envFree_queues wanted False e).weaken ?_
          (fun _ _ holds => holds.1) fun _ => id
        rintro kernel ⟨kept, -⟩
        exact ⟨kept, False.elim⟩
  | envDestroy e =>
      refine (triple_envDestroy_queues cpu e).strengthen _ ?_
      rintro kernel ⟨kept, -, deferred, fits⟩
      exact ⟨kept, deferred, fits⟩
  | exofork =>
      refine discard ((triple_sysExofork_queues cpu).strengthen _ ?_)
      rintro kernel ⟨kept, -, -, fits⟩
      exact ⟨kept, fits⟩
  | setStatus envid status =>
      exact discard ((triple_sysEnvSetStatus_queues cpu envid status).strengthen
        _ fun _ holds => holds.1)
  | ipcRecv dstva =>
      refine discard ((triple_sysIpcRecv_queues cpu dstva).strengthen
        _ ?_)
      rintro kernel ⟨kept, -, -, fits⟩
      exact ⟨kept, fits⟩
  | ipcTrySend surroundings envid value srcva perm =>
      exact discard ((triple_sysIpcTrySend_queues surroundings cpu envid value
        srcva perm).strengthen _ fun _ holds => holds.1)
  | asignarPrioridad envid prioridad =>
      refine discard ((triple_sysEnvAsignarPrioridad_queues cpu envid
        prioridad).strengthen _ ?_)
      rintro kernel ⟨kept, -, -, fits⟩
      exact ⟨kept, fits⟩
  | yield =>
      refine (triple_schedYield_queues cpu).strengthen _ ?_
      rintro kernel ⟨kept, -, -, fits⟩
      exact ⟨kept, fits⟩

theorem kept_of_step {kernel next : Kernel}
    {event : Nat × SchedOp} (kept : Kept clean covered kernel)
    (frees : clean → event.2.FreesNothing kernel event.1)
    (fits : covered → event.2.Fits kernel event.1)
    (step : schedMachine.Step kernel event next) :
    Kept clean covered next :=
  (triple_schedOp event.1 event.2).final
    ⟨kept, step.1, frees, fits⟩ step.2

/-! ## Runs on concrete inputs -/

instance (kernel : Kernel) : DecidablePred (SchedOp.Possible kernel)
  | .envRun _ => inferInstanceAs (Decidable (_ ≠ _))
  | .envAlloc _ | .envFree _ | .envDestroy _ | .exofork | .setStatus _ _
  | .ipcRecv _ | .ipcTrySend _ _ _ _ _ | .asignarPrioridad _ _ | .yield =>
      .isTrue trivial

instance (kernel : Kernel) (cpu e : Nat) : Decidable (kernel.Deferred cpu e) :=
  inferInstanceAs (Decidable (_ ∧ _))

instance (kernel : Kernel) (cpu : Nat) :
    DecidablePred (SchedOp.FreesNothing kernel cpu)
  | .envFree _ => .isFalse False.elim
  | .envDestroy e => inferInstanceAs (Decidable (kernel.Deferred cpu e))
  | .envRun _ | .envAlloc _ | .exofork | .setStatus _ _ | .ipcRecv _
  | .ipcTrySend _ _ _ _ _ | .asignarPrioridad _ _ | .yield => .isTrue trivial

/-- The state after an operation that returns or leaves. -/
def SchedOp.after (kernel : Kernel) (event : Nat × SchedOp) : Kernel :=
  (event.2.entry event.1 kernel).finalState.getD kernel

/-- The operation is possible and ends. -/
def SchedOp.Goes (kernel : Kernel) (event : Nat × SchedOp) : Prop :=
  event.2.Possible kernel ∧
    (event.2.entry event.1 kernel).finalState.isSome = true

instance (kernel : Kernel) : DecidablePred (SchedOp.Goes kernel) :=
  fun _ => inferInstanceAs (Decidable (_ ∧ _))

theorem SchedOp.Goes.step {kernel : Kernel} {event : Nat × SchedOp}
    (goes : SchedOp.Goes kernel event) :
    schedMachine.Step kernel event (SchedOp.after kernel event) := by
  refine ⟨goes.1, ?_⟩
  unfold SchedOp.after
  obtain ⟨next, ends⟩ := Option.isSome_iff_exists.mp goes.2
  rw [ends, Option.getD_some]

/-- A small machine without environments. -/
def noEnv : Kernel := .initial (.plain 32) 1

theorem reachable_of_ops {allowed : Kernel → Nat × SchedOp → Prop}
    {check : Kernel → Nat × SchedOp → Prop}
    (goes : ∀ kernel event, check kernel event → SchedOp.Goes kernel event)
    (permits : ∀ kernel event, check kernel event → allowed kernel event)
    {events : List (Nat × SchedOp)}
    (along : Machine.Along check SchedOp.after noEnv events) :
    schedMachine.Reachable allowed (events.foldl SchedOp.after noEnv) := by
  have run : schedMachine.Run allowed noEnv (events.map id)
      (events.foldl SchedOp.after noEnv) :=
    Machine.run_of_along (fun kernel event checked =>
      (goes kernel event checked).step) permits along
  exact ⟨noEnv, _, ⟨_, _, _, PhysMem.booted_plain (by decide) (by decide), rfl⟩,
    run⟩

/-! ## Stale and duplicate entries -/

/-- The counter `i` stands between `primero` and `ultimo`. -/
def Kernel.Visible (kernel : Kernel) (q : Fin 4) (i : Nat) : Prop :=
  (kernel.mlfq.colas q).primero.toInt ≤ i ∧
    (i : Int) < (kernel.mlfq.colas q).ultimo.toInt

def Kernel.entrada (kernel : Kernel) (q : Fin 4) (i : Nat) : UInt32 :=
  (kernel.mlfq.colas q).entrada i

/-- Every entry is the identifier of a living environment in its queue, and no
two entries belong to one environment. -/
structure Kernel.QueuesClean (kernel : Kernel) : Prop where
  entry : ∀ q i, kernel.Visible q i →
    let env := kernel.envs (envx (kernel.entrada q i))
    env.envId = kernel.entrada q i ∧ env.envStatus ≠ .free ∧
      env.colaActual = q.val
  unique : ∀ q i p j, kernel.Visible q i → kernel.Visible p j →
    envx (kernel.entrada q i) = envx (kernel.entrada p j) → q = p ∧ i = j

theorem queuesClean_of_kept {kernel : Kernel}
    (kept : Kept True covered kernel) : kernel.QueuesClean := by
  have isClean := kept.clean trivial
  have isCounter : ∀ q i, kernel.Visible q i →
      i ∈ (kernel.ledger.colas q).ring.counters := fun q i visible =>
    (MlfqCola.mem_counters (kept.sound.ordenada q)).mpr visible
  have entries : ∀ q i, kernel.Visible q i →
      kernel.entrada q i ∈ (kernel.ledger.colas q).contenido :=
    fun q i visible => List.mem_map_of_mem (isCounter q i visible)
  constructor
  · intro q i visible
    obtain ⟨isId, alive, home, -⟩ :=
      isClean.entry q _ (entries q i visible)
    exact ⟨isId, alive, home⟩
  · intro q i p j first second same
    obtain ⟨firstId, -, firstHome, -⟩ := isClean.entry q _ (entries q i first)
    obtain ⟨secondId, -, secondHome, -⟩ :=
      isClean.entry p _ (entries p j second)
    rw [same, secondHome] at firstHome
    have sameCola : q = p := Fin.ext (Int.ofNat.inj firstHome.symm)
    subst p
    refine ⟨rfl, ?_⟩
    rw [same, secondId] at firstId
    exact Ring.entry_injective (isClean.nodup q) (isCounter q i first)
      (isCounter q j second) firstId.symm

theorem queuesClean_of_freesNothing {kernel : Kernel}
    (reachable : schedMachine.Reachable
      (fun kernel event => event.2.FreesNothing kernel event.1) kernel) :
    kernel.QueuesClean := by
  have initially : ∀ kernel, schedMachine.Initial kernel →
      Kept True False kernel := by
    rintro kernel ⟨mem, kernPgdir, pool, -, rfl⟩
    exact kept_initial mem kernPgdir
  have preserved : ∀ kernel event next, Kept True False kernel →
      event.2.FreesNothing kernel event.1 →
      schedMachine.Step kernel event next → Kept True False next :=
    fun _ _ _ kept frees step =>
      kept_of_step kept (fun _ => frees) False.elim step
  exact queuesClean_of_kept (reachable.invariant initially preserved)

/-- The operation ends and frees nothing. -/
def SchedOp.GoesCleanly (kernel : Kernel) (event : Nat × SchedOp) : Prop :=
  SchedOp.Goes kernel event ∧ event.2.FreesNothing kernel event.1

instance (kernel : Kernel) : DecidablePred (SchedOp.GoesCleanly kernel) :=
  fun _ => inferInstanceAs (Decidable (_ ∧ _))

/-- An environment creates a child, which runs on the processor 1, and marks it
as dying. -/
theorem queuesClean_after_deferred_destroy :
    ([(0, .envAlloc 0), (0, .yield), (0, .exofork), (0, .setStatus 4097 2),
      (1, .yield), (0, .envDestroy 1)].foldl SchedOp.after noEnv).QueuesClean :=
  have along : Machine.Along SchedOp.GoesCleanly SchedOp.after noEnv
      [(0, .envAlloc 0), (0, .yield), (0, .exofork), (0, .setStatus 4097 2),
        (1, .yield), (0, .envDestroy 1)] := by
    decide +kernel
  queuesClean_of_freesNothing (reachable_of_ops (fun _ _ checked => checked.1)
    (fun _ _ checked => checked.2) along)

/-- An environment creates a child and destroys it; the entry of the child
stays. -/
theorem not_queuesClean_after_destroy :
    ¬ ∀ kernel, schedMachine.Reachable Machine.Unrestricted kernel →
      kernel.QueuesClean := by
  intro clean
  have along : Machine.Along SchedOp.Goes SchedOp.after noEnv
      [(0, .envAlloc 0), (0, .yield), (0, .exofork), (0, .envDestroy 1)] := by
    decide +kernel
  have isClean := clean _ (reachable_of_ops (fun _ _ goes => goes)
    (fun _ _ _ => trivial) along)
  have entry := isClean.entry 1 1 ⟨by decide +kernel, by decide +kernel⟩
  exact entry.2.1 (by decide +kernel)

/-! ## Lost environments -/

section Dispatch

variable {kernel : Kernel} {q : Fin 4} {i e : Nat}

/-- Queues that hold a runnable environment are found. -/
theorem colaMejorPrioridad_finds (ordenada : ∀ q,
    (kernel.mlfq.colas q).Ordenada) {indices : List (Fin 4)}
    (member : q ∈ indices) (isCounter : i ∈ (kernel.mlfq.colas q).ring.counters)
    (runnable : kernel.Runnable (envx (kernel.entrada q i))) :
    ∃ p j, kernel.colaMejorPrioridad indices = some (some (p, j)) := by
  induction indices with
  | nil => cases member
  | cons first rest induction =>
      have visited := MlfqCola.recorrido_eq (ordenada first)
      rw [Kernel.colaMejorPrioridad]
      unfold Kernel.primeroEjecutable
      rw [visited, Option.map_some]
      cases found : (kernel.mlfq.colas first).ring.counters.find? fun i =>
          decide (kernel.Runnable
            (envx ((kernel.mlfq.colas first).entrada i))) with
      | some j => exact ⟨first, j, rfl⟩
      | none =>
          refine induction ?_
          rcases List.mem_cons.mp member with here | there
          · subst here
            have absent := List.find?_eq_none.mp found i isCounter
            exact absurd (decide_eq_true runnable) absent
          · exact there

/-- A runnable environment of a covered kernel is found. -/
theorem colaMejorPrioridad_of_runnable (kept : Kept clean True kernel)
    (runnable : kernel.Runnable e) :
    ∃ p j, kernel.colaMejorPrioridad [0, 1, 2, 3] = some (some (p, j)) := by
  have alive : kernel.ledger.status e ≠ .free := by
    rw [show kernel.ledger.status e = .runnable from runnable]
    decide
  obtain ⟨q, envId, member, slot⟩ := (kept.covered trivial).entry e
    (kept.sound.live e alive) (by simp)
  obtain ⟨i, isCounter, same⟩ := List.mem_map.mp member
  refine colaMejorPrioridad_finds kept.sound.ordenada ?_ isCounter ?_
  · match q with
    | 0 => decide
    | 1 => decide
    | 2 => decide
    | 3 => decide
  · have entry : kernel.entrada q i = envId := same
    rw [entry, slot]
    exact runnable

/-- The kernel behind `sched_agregar_env`. -/
def Kernel.agregado (kernel : Kernel) (envId : UInt32) (q : Fin 4) : Kernel :=
  (kernel.updateEnv (envx envId) fun env =>
    { env with colaActual := q.val }).setCola q
      ((kernel.mlfq.colas q).agregar envId)

theorem schedAgregarEnv_returns (q : Fin 4) (envId : UInt32)
    (valid : 0 ≤ (kernel.mlfq.colas q).ultimo.toInt) :
    schedAgregarEnv envId q.val kernel =
      .returns () (kernel.agregado envId q) := by
  unfold schedAgregarEnv Kernel.agregado
  rw [obtenerCola_val, MlfqCola.agregar_eq valid]
  dsimp only
  rw [posicion_eq valid]

theorem promoverEntradas_returns {entries : List UInt32}
    (ordenada : (kernel.mlfq.colas 0).Ordenada)
    (valid : 0 ≤ (kernel.mlfq.colas 0).ultimo.toInt)
    (cabe : (kernel.mlfq.colas 0).Cabe entries.length) :
    ∃ next, promoverEntradas entries kernel = .returns () next ∧
      next.ledger = kernel.ledger.agregarTodos entries := by
  induction entries generalizing kernel with
  | nil => exact ⟨kernel, rfl, Ledger.agregarTodos_nil.symm⟩
  | cons envId rest induction =>
      have added := schedAgregarEnv_returns 0 envId valid
      have appends : Triple _ _ _ fun _ => True := triple_schedAgregarEnv
        (fun ledger => ledger = kernel.ledger.agregar envId 0) envId 0
      have appended : (kernel.agregado envId 0).ledger =
          kernel.ledger.agregar envId 0 :=
        appends.of_returns rfl added
      have first : (kernel.agregado envId 0).mlfq.colas 0 =
          (kernel.mlfq.colas 0).agregar envId := by
        change (kernel.agregado envId 0).ledger.colas 0 = _
        rw [appended, Ledger.agregar_colas_self]
        rfl
      have one : (kernel.mlfq.colas 0).Cabe 1 := by
        obtain ⟨room, below⟩ := cabe
        rw [List.length_cons] at room below
        exact ⟨by omega, by omega⟩
      have grown := MlfqCola.agregar_ultimo envId valid one
      have isZero : schedAgregarEnv envId 0 kernel =
          .returns () (kernel.agregado envId 0) := added
      rw [promoverEntradas, bind_run, isZero, Ledger.agregarTodos_cons,
        ← appended]
      refine induction ?_ ?_ ?_
      · rw [first]
        exact ordenada.agregar envId
      · rw [first, grown]
        omega
      · rw [first]
        exact MlfqCola.Cabe.agregar ordenada valid cabe

theorem promoverCola_returns (ordenada : ∀ q, (kernel.mlfq.colas q).Ordenada)
    (valid : 0 ≤ (kernel.mlfq.colas 0).ultimo.toInt)
    (cabe : (kernel.mlfq.colas 0).Cabe
      (kernel.mlfq.colas q).contenido.length) :
    ∃ next, promoverCola q kernel = .returns () next ∧
      next.ledger =
        kernel.ledger.agregarTodos (kernel.mlfq.colas q).contenido := by
  have visited := MlfqCola.recorrido_eq (ordenada q)
  obtain ⟨next, promoted, same⟩ :=
    promoverEntradas_returns (ordenada 0) valid cabe
  refine ⟨next, ?_, same⟩
  unfold promoverCola
  rw [read_bind_run, visited]
  exact promoted

theorem promoverColas_returns (ordenada : ∀ q, (kernel.mlfq.colas q).Ordenada)
    (valid : 0 ≤ (kernel.mlfq.colas 0).ultimo.toInt)
    (cabe : (kernel.mlfq.colas 0).Cabe kernel.ledger.promovidas.length) :
    ∃ next, promoverColas kernel = .returns () next := by
  -- What one promotion leaves for the next one.
  have step : ∀ (p : Fin 4) (count : Nat) (kernel : Kernel), p ≠ 0 →
      (∀ q, (kernel.mlfq.colas q).Ordenada) →
      0 ≤ (kernel.mlfq.colas 0).ultimo.toInt →
      (kernel.mlfq.colas 0).Cabe
        ((kernel.mlfq.colas p).contenido.length + count) →
      ∃ next, promoverCola p kernel = .returns () next ∧
        (∀ q, q ≠ 0 → next.mlfq.colas q = kernel.mlfq.colas q) ∧
        (∀ q, (next.mlfq.colas q).Ordenada) ∧
        0 ≤ (next.mlfq.colas 0).ultimo.toInt ∧
        (next.mlfq.colas 0).Cabe count := by
    intro p count kernel notFirst ordenada valid cabe
    have fits : (kernel.mlfq.colas 0).Cabe
        (kernel.mlfq.colas p).contenido.length :=
      ⟨by have room := cabe.1; omega, by have below := cabe.2; omega⟩
    obtain ⟨next, promoted, same⟩ := promoverCola_returns ordenada valid fits
    have others : ∀ q, q ≠ 0 → next.mlfq.colas q = kernel.mlfq.colas q := by
      intro q notZero
      change next.ledger.colas q = _
      rw [same, Ledger.agregarTodos_colas_of_ne _ _ notZero]
      rfl
    have first : next.mlfq.colas 0 = (kernel.mlfq.colas 0).agregarTodos
        (kernel.mlfq.colas p).contenido := by
      change next.ledger.colas 0 = _
      rw [same, Ledger.agregarTodos_colas_zero]
      rfl
    refine ⟨next, promoted, others, ?_, ?_, ?_⟩
    · intro q
      by_cases isZero : q = 0
      · rw [isZero, first]
        exact (MlfqCola.agregarTodos_sublist (ordenada 0) fits.1).2
      · rw [others q isZero]
        exact ordenada q
    · rw [first]
      exact (MlfqCola.agregarTodos_eq (ordenada 0) valid fits).2
    · rw [first]
      exact MlfqCola.Cabe.agregarTodos (ordenada 0) valid cabe
  have total : kernel.ledger.promovidas.length =
      (kernel.mlfq.colas 1).contenido.length +
        ((kernel.mlfq.colas 2).contenido.length +
          ((kernel.mlfq.colas 3).contenido.length + 0)) := by
    change ((kernel.mlfq.colas 1).contenido ++
      (kernel.mlfq.colas 2).contenido ++
        (kernel.mlfq.colas 3).contenido).length = _
    rw [List.length_append, List.length_append]
    omega
  rw [total] at cabe
  obtain ⟨first, ranFirst, firstSame, firstOrdered, firstValid, firstFits⟩ :=
    step 1 _ kernel (by decide) ordenada valid cabe
  rw [← firstSame 2 (by decide)] at firstFits
  obtain ⟨second, ranSecond, secondSame, secondOrdered, secondValid,
    secondFits⟩ := step 2 _ first (by decide) firstOrdered firstValid firstFits
  rw [← firstSame 3 (by decide), ← secondSame 3 (by decide)] at secondFits
  obtain ⟨third, ranThird, -⟩ :=
    step 3 0 second (by decide) secondOrdered secondValid secondFits
  unfold promoverColas
  rw [bind_run, ranFirst]
  dsimp only
  rw [bind_run, ranSecond]
  dsimp only
  rw [bind_run, ranThird]
  exact ⟨_, rfl⟩

/-- `env_run` does not return, whatever follows it. -/
theorem envRun_bind {Result Next : Type} (cpu e : Nat)
    (next : Result → KernelM Next) :
    (envRun cpu e >>= next) = (envRun cpu e : KernelM Next) := by
  funext kernel
  rw [bind_run]
  unfold envRun
  simp only [bind_run, Entry.modify, Entry.read]
  cases (((soltarCurenv cpu kernel).setCurenv cpu (some e)).updateEnv e
    fun env =>
      { env with
        envStatus := .running
        envRuns := env.envRuns + 1
        envCpunum := cpu }).envs e |>.envPgdir with
  | none => rfl
  | some pgdir => rfl

/-- The status of every environment. -/
def Kernel.statuses (kernel : Kernel) (e : Nat) : EnvStatus :=
  (kernel.envs e).envStatus

theorem blindToQueues_statuses : BlindToQueues Kernel.statuses where
  mlfq _ _ := rfl
  colaActual kernel e cola := by
    funext f
    by_cases same : f = e <;>
      simp [Kernel.statuses, Kernel.updateEnv, Kernel.setEnv, same]

theorem promoverSiCorresponde_returns (kept : Kept clean True kernel)
    (fits : kernel.YieldFits) :
    ∃ next, promoverSiCorresponde kernel = .returns () next := by
  unfold Kernel.YieldFits at fits
  unfold promoverSiCorresponde
  rw [read_bind_run]
  split
  · rename_i enough
    rw [if_pos enough] at fits
    obtain ⟨next, promoted⟩ := promoverColas_returns kept.sound.ordenada
      ((kept.covered trivial).valid 0) fits
    rw [bind_run, promoted]
    exact ⟨_, rfl⟩
  · exact ⟨kernel, rfl⟩

/-- The kernel in which `prioridad_MLFQ` calls `env_run` for the entry of the
counter `i`; `removed` is the queue without that entry. -/
def Kernel.elegido (kernel : Kernel) (q : Fin 4) (i : Nat)
    (removed : MlfqCola) : Kernel :=
  ((kernel.setCola q removed).agregado (kernel.entrada q i)
    (siguienteCola q)).contarTotal.contarEjecucion (envx (kernel.entrada q i))

theorem elegido_keeps (kernel : Kernel) (q : Fin 4) (i : Nat)
    (removed : MlfqCola) (g : Nat) :
    ((kernel.elegido q i removed).envs g).envPgdir =
      (kernel.envs g).envPgdir := by
  by_cases same : g = envx (kernel.entrada q i) <;>
    simp [Kernel.elegido, Kernel.agregado, Kernel.contarEjecucion,
      Kernel.contarTotal, Kernel.setCola, Kernel.updateEnv, Kernel.setEnv, same]

theorem elegido_colaActual (kernel : Kernel) (q : Fin 4) (i : Nat)
    (removed : MlfqCola) :
    ((kernel.elegido q i removed).envs
      (envx (kernel.entrada q i))).colaActual = (siguienteCola q).val := by
  simp [Kernel.elegido, Kernel.agregado, Kernel.contarEjecucion,
    Kernel.contarTotal, Kernel.setCola, Kernel.updateEnv, Kernel.setEnv]

theorem prioridadMlfq_elige (cpu : Nat)
    (ordenada : (kernel.mlfq.colas q).Ordenada)
    (before : ∀ q, 0 ≤ (kernel.mlfq.colas q).ultimo.toInt)
    (found : kernel.colaMejorPrioridad [0, 1, 2, 3] = some (some (q, i))) :
    ∃ removed, (kernel.mlfq.colas q).borrar (i % nenv) = some removed ∧
      prioridadMlfq cpu kernel =
        envRun cpu (envx (kernel.entrada q i))
          (kernel.elegido q i removed) := by
  have primero := ordenada.primero
  obtain ⟨next, removed⟩ : ∃ next,
      (kernel.mlfq.colas q).borrar (i % nenv) = some next := by
    unfold MlfqCola.borrar
    rw [posicion_eq primero]
    split <;> exact ⟨_, rfl⟩
  have ultimo := (MlfqCola.borrar_ultimo removed).1
  have valid : 0 ≤ ((kernel.setCola q next).mlfq.colas
      (siguienteCola q)).ultimo.toInt := by
    by_cases same : siguienteCola q = q
    · simp only [Kernel.setCola, same, Function.update_self, ultimo]
      exact before q
    · simp only [Kernel.setCola, Function.update_of_ne same]
      exact before _
  have added := schedAgregarEnv_returns (siguienteCola q)
    (kernel.entrada q i) valid
  have borrado : onCola q (fun cola => cola.borrar (i % nenv)) kernel =
      .returns () (kernel.setCola q next) := by
    unfold onCola
    dsimp only
    rw [removed]
  refine ⟨next, removed, ?_⟩
  unfold prioridadMlfq
  rw [read_bind_run, found]
  dsimp only
  rw [read_bind_run, bind_run, borrado]
  dsimp only
  rw [siguienteCola_val]
  change (schedAgregarEnv (kernel.entrada q i) _ >>= _) _ = _
  rw [bind_run, added]
  rfl

theorem prioridadMlfq_dispatches (cpu : Nat) (kept : Kept clean True kernel)
    (runnable : kernel.Runnable e) :
    ∃ f ready, kernel.Runnable f ∧
      prioridadMlfq cpu kernel = envRun cpu f ready := by
  obtain ⟨q, i, found⟩ := colaMejorPrioridad_of_runnable kept runnable
  obtain ⟨-, -, -, chosen⟩ := kernel.colaMejorPrioridad_found found
  obtain ⟨removed, -, dispatches⟩ := prioridadMlfq_elige cpu
    (kept.sound.ordenada q) (kept.covered trivial).valid found
  exact ⟨_, _, chosen, dispatches⟩

theorem schedYield_dispatches (cpu : Nat) (kept : Kept clean True kernel)
    (fits : kernel.YieldFits) (runnable : kernel.Runnable e) :
    ∃ f ready, kernel.Runnable f ∧
      (schedYield .priorities cpu : KernelM Unit) kernel =
        envRun cpu f ready := by
  have counted : Kept clean True
      { kernel with runsDelSched := kernel.runsDelSched + 1 } := kept
  obtain ⟨promoted, returned⟩ := promoverSiCorresponde_returns counted fits
  obtain ⟨stillKept, -⟩ :=
    (triple_promoverSiCorresponde clean True).of_returns
      ⟨counted, fun _ => fits⟩ returned
  have same : promoted.statuses = kernel.statuses := by
    have framed := (frame_promoverSiCorresponde blindToQueues_statuses).run
      { kernel with runsDelSched := kernel.runsDelSched + 1 }
    rw [returned] at framed
    exact framed
  have stillRunnable : promoted.Runnable e :=
    (congrFun same e).trans runnable
  obtain ⟨f, ready, chosen, dispatched⟩ :=
    prioridadMlfq_dispatches cpu stillKept stillRunnable
  refine ⟨f, ready, (congrFun same f).symm.trans chosen, ?_⟩
  have elegido : elegirEntorno .priorities cpu
      { kernel with runsDelSched := kernel.runsDelSched + 1 } =
      envRun cpu f ready := by
    unfold elegirEntorno
    dsimp only
    rw [bind_run, returned]
    exact dispatched
  have leaves := congrFun
    (envRun_bind cpu f fun _ : Unit => (schedHalt cpu : KernelM Unit)) ready
  unfold schedYield
  rw [modify_bind_run, bind_run, elegido, ← bind_run]
  exact leaves

end Dispatch

/-- No living environment is without an entry, and whenever one is runnable the
scheduler finds and dispatches a runnable one. -/
theorem covered_of_fits {kernel : Kernel}
    (reachable : schedMachine.Reachable
      (fun kernel event => event.2.Fits kernel event.1) kernel) :
    (∀ e, (kernel.envs e).envStatus ≠ .free →
      ∃ q i, kernel.Visible q i ∧ envx (kernel.entrada q i) = e) ∧
    ∀ e, kernel.Runnable e →
      (∃ q i, kernel.colaMejorPrioridad [0, 1, 2, 3] = some (some (q, i))) ∧
      ∀ cpu, kernel.YieldFits → ∃ f ready, kernel.Runnable f ∧
        (schedYield .priorities cpu : KernelM Unit) kernel =
          envRun cpu f ready := by
  have initially : ∀ kernel, schedMachine.Initial kernel →
      Kept False True kernel := by
    rintro kernel ⟨mem, kernPgdir, pool, -, rfl⟩
    exact kept_initial mem kernPgdir
  have preserved : ∀ kernel event next, Kept False True kernel →
      event.2.Fits kernel event.1 →
      schedMachine.Step kernel event next → Kept False True next :=
    fun _ _ _ kept fits step =>
      kept_of_step kept False.elim (fun _ => fits) step
  have kept := reachable.invariant initially preserved
  refine ⟨?_, fun e runnable =>
    ⟨colaMejorPrioridad_of_runnable kept runnable,
      fun cpu fits => schedYield_dispatches cpu kept fits runnable⟩⟩
  intro e alive
  obtain ⟨q, envId, member, slot⟩ := (kept.covered trivial).entry e
    (kept.sound.live e alive) (by simp)
  obtain ⟨i, isCounter, same⟩ := List.mem_map.mp member
  refine ⟨q, i, (MlfqCola.mem_counters (kept.sound.ordenada q)).mp isCounter, ?_⟩
  rw [← slot, ← same]
  rfl

/-- Every queue takes one more entry, and no promotion is due. -/
def Kernel.Roomy (kernel : Kernel) : Prop :=
  (∀ q, (kernel.mlfq.colas q).Cabe 1) ∧
    ¬ kernel.mlfq.ejecucionesTotales ≥ maxEjecucionesMlfq

/-- The operation ends, and appends one entry at most. -/
def SchedOp.GoesRoomily (kernel : Kernel) (event : Nat × SchedOp) : Prop :=
  SchedOp.Goes kernel event ∧ kernel.Roomy ∧
    match event.2 with
    | .ipcRecv _ => False
    | .envDestroy e => kernel.cpus event.1 ≠ some e
    | _ => True

instance (kernel : Kernel) : Decidable kernel.Roomy :=
  have (q : Fin 4) : Decidable ((kernel.mlfq.colas q).Cabe 1) :=
    inferInstanceAs (Decidable (_ ∧ _))
  inferInstanceAs (Decidable (_ ∧ _))

instance (kernel : Kernel) : DecidablePred (SchedOp.GoesRoomily kernel) :=
  fun (cpu, op) => by
    cases op <;> exact inferInstanceAs (Decidable (_ ∧ _ ∧ _))

theorem Kernel.Roomy.yieldFits {kernel : Kernel} (roomy : kernel.Roomy) :
    kernel.YieldFits := by
  unfold Kernel.YieldFits
  rw [if_neg roomy.2]
  intro q i _
  split
  · exact (roomy.1 3).2
  · exact roomy.1 _

theorem SchedOp.GoesRoomily.fits {kernel : Kernel} {event : Nat × SchedOp}
    (goes : SchedOp.GoesRoomily kernel event) :
    event.2.Fits kernel event.1 := by
  obtain ⟨-, roomy, small⟩ := goes
  obtain ⟨cpu, op⟩ := event
  cases op with
  | envAlloc parentId => exact fun _ q _ _ _ => roomy.1 q
  | exofork => exact fun _ _ _ q _ _ _ => roomy.1 q
  | asignarPrioridad envid prioridad => exact fun _ _ q _ _ _ _ _ => roomy.1 q
  | ipcRecv dstva => exact small.elim
  | envDestroy e => exact fun current => absurd current small
  | yield => exact roomy.yieldFits
  | envRun | envFree | setStatus | ipcTrySend => trivial

/-- An environment creates two children, destroys the first one and creates a
third child in its slot; the others stand in three queues. -/
def reusedSlot : List (Nat × SchedOp) :=
  [(0, .envAlloc 0), (0, .yield), (0, .exofork), (0, .setStatus 4097 2),
    (0, .exofork), (0, .asignarPrioridad 4098 3), (0, .setStatus 4098 2),
    (0, .envDestroy 1), (0, .exofork), (0, .setStatus 8193 2), (1, .yield)]

theorem covered_after_reuse :
    let kernel := reusedSlot.foldl SchedOp.after noEnv
    (∀ e, (kernel.envs e).envStatus ≠ .free →
      ∃ q i, kernel.Visible q i ∧ envx (kernel.entrada q i) = e) ∧
    ∀ e, kernel.Runnable e →
      (∃ q i, kernel.colaMejorPrioridad [0, 1, 2, 3] = some (some (q, i))) ∧
      ∀ cpu, kernel.YieldFits → ∃ f ready, kernel.Runnable f ∧
        (schedYield .priorities cpu : KernelM Unit) kernel =
          envRun cpu f ready :=
  have along : Machine.Along SchedOp.GoesRoomily SchedOp.after noEnv
      reusedSlot := by
    decide +kernel
  covered_of_fits (reachable_of_ops (fun _ _ checked => checked.1)
    (fun _ _ checked => checked.fits) along)

/-! ### A full queue -/

/-- An environment without user pages. -/
theorem envFreeTables_empty {mem : PhysMem} {pgdir bound : Nat}
    (empty : ∀ table, table < bound → mem.ram pgdir table = 0) :
    envFreeTables pgdir bound mem = some mem := by
  induction bound with
  | zero => rfl
  | succ bound induction =>
      have before := induction fun table below => empty table (by omega)
      rw [envFreeTables, before, Option.bind_eq_bind, Option.bind_some]
      dsimp only
      rw [empty bound (by omega)]
      rfl

/-- The environment 0 has created `count` children in the slot 1, whose entries
stand behind its own in the second queue. -/
structure Queued (count page : Nat) (kernel : Kernel) : Prop where
  current : kernel.cpus 0 = some 0
  parent : (kernel.envs 0).envId = 4096 ∧
    (kernel.envs 0).envStatus = .running ∧ (kernel.envs 0).colaActual = 1
  primero : (kernel.mlfq.colas 1).primero = 0
  ultimo : (kernel.mlfq.colas 1).ultimo.toInt = count + 1
  children : ∀ j, 1 ≤ j → j ≤ count →
    envx ((kernel.mlfq.colas 1).envs (j % nenv)) = 1
  others : ∀ q, q ≠ 1 → (kernel.mlfq.colas q).ultimo.toInt ≤
    (kernel.mlfq.colas q).primero.toInt
  different : page ≠ kernel.kernPgdir
  unmapped : ∀ table, table < userTables →
    kernel.mem.ram kernel.kernPgdir table = 0

/-- The last child has been destroyed. -/
structure Churned (count page : Nat) (kernel : Kernel) : Prop
    extends Queued count page kernel where
  free : kernel.envFreeList = some 1
  pageFreeList : kernel.mem.pageFreeList = some page
  unreferenced : (kernel.mem.pages page).ppRef = 0

/-- The last child lives. -/
structure Forked (count page : Nat) (kernel : Kernel) : Prop
    extends Queued count page kernel where
  child : (kernel.envs 1).envStatus = .notRunnable ∧
    (kernel.envs 1).envPgdir = some page
  descriptor : kernel.mem.pages page = { ppLink := none, ppRef := 1 }
  empty : ∀ table, table < userTables → kernel.mem.ram page table = 0

theorem churned_destroy {count page : Nat} {kernel : Kernel}
    (forked : Forked count page kernel) :
    ∃ next, envDestroy .priorities 0 1 kernel = .returns () next ∧
      Churned count page next := by
  have lowered : (envFreeTables page userTables kernel.mem).bind
      (fun mem => mem.pageDecref page) =
      some ({ kernel.mem with pageFreeList := some page }.setPage page
        { ppLink := kernel.mem.pageFreeList, ppRef := 0 }) := by
    rw [envFreeTables_empty forked.empty, Option.bind_some]
    unfold PhysMem.pageDecref PhysMem.pageFree PhysMem.setPage
    simp [forked.descriptor]
  obtain ⟨next, freed, same⟩ : ∃ next, envFree 1 kernel = .returns () next ∧
      next =
        { (kernel.setMem ({ kernel.mem with
            pageFreeList := some page }.setPage page
              { ppLink := kernel.mem.pageFreeList, ppRef := 0 })).updateEnv 1
            fun env =>
              { env with
                envPgdir := none
                envStatus := .free
                envLink := kernel.envFreeList } with
          envFreeList := some 1 } := by
    refine ⟨_, ?_, rfl⟩
    unfold envFree
    rw [forked.child.2]
    dsimp only
    rw [lowered]
  refine ⟨next, ?_, ?_⟩
  · unfold envDestroy
    rw [read_bind_run, read_bind_run, forked.child.1, forked.current,
      if_neg (by decide), bind_run, freed]
    rfl
  · subst same
    exact
      { current := forked.current
        parent := by
          simpa [Kernel.updateEnv, Kernel.setEnv, Kernel.setMem]
            using forked.parent
        free := rfl
        primero := forked.primero
        ultimo := forked.ultimo
        children := forked.children
        others := forked.others
        pageFreeList := rfl
        unreferenced := by
          simp [Kernel.updateEnv, Kernel.setEnv, Kernel.setMem,
            PhysMem.setPage]
        different := forked.different
        unmapped := forked.unmapped }

/-- The page directory of a child maps nothing for the user. -/
theorem envSetupVm_child {count page : Nat} {kernel : Kernel}
    (churned : Churned count page kernel) :
    ∃ mem, envSetupVm 1 kernel = .returns 0
        ((kernel.setMem mem).updateEnv 1 fun env =>
          { env with envPgdir := some page }) ∧
      mem.pages page = { ppLink := none, ppRef := 1 } ∧
      (∀ table, table < userTables → mem.ram page table = 0) ∧
      ∀ table, table < userTables → mem.ram kernel.kernPgdir table = 0 := by
  have below : ∀ table, table < userTables → table ≠ pdx uvpt := by
    intro table user same
    unfold userTables at user
    rw [same] at user
    exact absurd user (by decide)
  unfold envSetupVm PhysMem.pageAlloc
  rw [churned.pageFreeList]
  refine ⟨_, rfl, ?_, ?_, ?_⟩
  · simp [PhysMem.zeroPage, PhysMem.pageIncref, PhysMem.setPage,
      PhysMem.store, churned.unreferenced]
  · intro table user
    simpa [PhysMem.zeroPage, PhysMem.pageIncref, PhysMem.setPage,
      PhysMem.store, below table user, churned.different.symm]
      using churned.unmapped table user
  · intro table user
    simpa [PhysMem.zeroPage, PhysMem.pageIncref, PhysMem.setPage,
      PhysMem.store, churned.different.symm]
      using churned.unmapped table user

/-- The kernel in which `env_alloc` has created the child. -/
def withChild (mem : PhysMem) (page position : Nat) (kernel : Kernel) :
    Kernel :=
  let fresh := commitEnv 4096 1 ((kernel.setMem mem).updateEnv 1 fun env =>
    { env with envPgdir := some page })
  let cola := kernel.mlfq.colas 1
  (fresh.updateEnv 1 fun env => { env with colaActual := 1 }).setCola 1
    { cola with
      envs := Function.update cola.envs position (fresh.envs 1).envId
      ultimo := cola.ultimo + 1 }

theorem forked_exofork {count page : Nat} {kernel : Kernel}
    (churned : Churned count page kernel) (small : count < 1024) :
    ∃ result next, sysExofork 0 kernel = .returns result next ∧
      Forked (count + 1) page next := by
  have position : posicion (kernel.mlfq.colas 1).ultimo =
      some ((count + 1) % nenv) := by
    rw [posicion_eq (by rw [churned.ultimo]; omega), churned.ultimo]
    rfl
  obtain ⟨mem, setUp, descriptor, empty, unmapped⟩ := envSetupVm_child churned
  obtain ⟨parentId, running, colaActual⟩ := churned.parent
  have found : colaPadre 0 4096 (commitEnv 4096 1
      ((kernel.setMem mem).updateEnv 1 fun env =>
        { env with envPgdir := some page })) = 1 := by
    unfold colaPadre envid2env
    rw [if_neg (by decide), show envx 4096 = 0 from rfl]
    simp [commitEnv, Kernel.updateEnv, Kernel.setEnv, Kernel.setMem, parentId,
      running, colaActual]
  have isSlot : envx ((commitEnv 4096 1
      ((kernel.setMem mem).updateEnv 1 fun env =>
        { env with envPgdir := some page })).envs 1).envId = 1 := by
    rw [(commitEnv_envs _ _ _).1]
    exact envx_newId _ (by decide)
  have alloc : envAlloc 0 4096 kernel =
      .returns (.ok 1) (withChild mem page ((count + 1) % nenv) kernel) := by
    unfold envAlloc
    rw [read_bind_run, churned.free]
    dsimp only
    rw [bind_run, setUp]
    dsimp only
    rw [if_neg (by decide), modify_bind_run, read_bind_run, found,
      read_bind_run, bind_run]
    unfold schedAgregarEnv
    rw [show obtenerCola 1 = some 1 from rfl, isSlot]
    dsimp only
    rw [show (commitEnv 4096 1 ((kernel.setMem mem).updateEnv 1 fun env =>
        { env with envPgdir := some page })).mlfq = kernel.mlfq from rfl,
      position]
    rfl
  obtain ⟨next, same⟩ : ∃ next,
      next = (withChild mem page ((count + 1) % nenv) kernel).updateEnv 1
        fun env =>
          { env with
            envStatus := .notRunnable
            envTf := (kernel.envs 0).envTf.setEax 0 } := ⟨_, rfl⟩
  have forks : sysExofork 0 kernel =
      .returns (next.envs 1).envId.toInt32.toInt next := by
    unfold sysExofork theCurenv
    rw [bind_run, read_bind_run, churned.current]
    dsimp only
    rw [pure_run]
    dsimp only
    rw [read_bind_run, parentId, bind_run, alloc, same]
    rfl
  have grown : ((kernel.mlfq.colas 1).ultimo + 1).toInt = count + 1 + 1 := by
    rw [toInt_succ, churned.ultimo, if_pos (by omega)]
  subst same
  refine ⟨_, _, forks, ?_⟩
  exact
    { current := churned.current
      parent := by
        simpa [withChild, commitEnv, Kernel.updateEnv, Kernel.setEnv,
          Kernel.setMem, Kernel.setCola] using churned.parent
      primero := by
        simpa [withChild, Kernel.updateEnv, Kernel.setEnv, Kernel.setCola]
          using churned.primero
      ultimo := by
        simpa [withChild, Kernel.updateEnv, Kernel.setEnv, Kernel.setCola]
          using grown
      children := by
        intro j positive below
        simp only [withChild, Kernel.updateEnv, Kernel.setEnv, Kernel.setCola,
          Function.update_self]
        by_cases last : j = count + 1
        · rw [last, Function.update_self]
          exact isSlot
        · have elsewhere : j % nenv ≠ (count + 1) % nenv := by
            unfold nenv
            omega
          rw [Function.update_of_ne elsewhere]
          exact churned.children j positive (by omega)
      others := by
        intro q other
        simpa [withChild, commitEnv, Kernel.updateEnv, Kernel.setEnv,
          Kernel.setMem, Kernel.setCola, other] using churned.others q other
      different := churned.different
      unmapped := unmapped
      child := by
        simp [withChild, commitEnv, Kernel.updateEnv, Kernel.setEnv,
          Kernel.setMem, Kernel.setCola]
      descriptor := descriptor
      empty := empty }

/-- The first environment runs, and no child has been created yet. -/
theorem churned_start : Churned 0 3
    ([(0, .envAlloc 0), (0, .yield)].foldl SchedOp.after noEnv) where
  current := by decide +kernel
  parent := by decide +kernel
  primero := by decide +kernel
  ultimo := by decide +kernel
  children j positive below := by omega
  others := by decide +kernel
  different := by decide +kernel
  unmapped _ _ := by rfl
  free := by decide +kernel
  pageFreeList := by decide +kernel
  unreferenced := by decide +kernel

theorem reachable_churned {count : Nat} (small : count ≤ 1024) :
    ∃ kernel, schedMachine.Reachable Machine.Unrestricted kernel ∧
      Churned count 3 kernel := by
  induction count with
  | zero =>
      refine ⟨_, reachable_of_ops (fun _ _ goes => goes)
        (fun _ _ _ => trivial) ?_, churned_start⟩
      decide +kernel
  | succ count induction =>
      obtain ⟨kernel, reachable, churned⟩ := induction (by omega)
      obtain ⟨result, forked, forks, isForked⟩ :=
        forked_exofork churned (by omega)
      obtain ⟨next, destroys, again⟩ := churned_destroy isForked
      have first : schedMachine.Step kernel (0, .exofork) forked := by
        refine ⟨trivial, ?_⟩
        change (((sysExofork 0 >>= fun _ => pure ()) : KernelM Unit)
          kernel).finalState = _
        rw [bind_run, forks]
        rfl
      have second : schedMachine.Step forked (0, .envDestroy 1) next := by
        refine ⟨trivial, ?_⟩
        change (envDestroy .priorities 0 1 forked).finalState = _
        rw [destroys]
        rfl
      exact ⟨next, (reachable.step trivial first).step trivial second, again⟩

/-- The entry of the 1024th child overwrites that of the parent, which is still
running. -/
theorem not_covered_after_children :
    ¬ ∀ kernel, schedMachine.Reachable Machine.Unrestricted kernel →
      ∀ e, (kernel.envs e).envStatus ≠ .free →
        ∃ q i, kernel.Visible q i ∧ envx (kernel.entrada q i) = e := by
  intro covered
  obtain ⟨kernel, reachable, churned⟩ := reachable_churned (Nat.le_refl 1024)
  obtain ⟨q, i, visible, slot⟩ := covered kernel reachable 0 (by
    rw [churned.parent.2.1]
    decide)
  obtain ⟨above, below⟩ := visible
  by_cases second : q = 1
  · subst second
    rw [churned.ultimo] at below
    have isChild : envx (kernel.entrada 1 i) = 1 := by
      by_cases isZero : i = 0
      · subst isZero
        exact churned.children 1024 (by decide) (by decide)
      · exact churned.children i (by omega) (by omega)
    rw [isChild] at slot
    cases slot
  · have empty := churned.others q second
    omega

end FeaturesOS.Scheduler

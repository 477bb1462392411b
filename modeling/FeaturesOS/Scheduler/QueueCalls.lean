import FeaturesOS.Scheduler.Queues

/-!
# The system calls on the queues

The system calls that create environments, change their status or move them
between queues.
-/

namespace FeaturesOS.Scheduler

open Entry

variable {clean covered : Prop} {cpu e : Nat}

theorem Usable.of_finds {kernel : Kernel} (kept : Kept clean covered kernel)
    {envid : UInt32} {checkperm : Bool}
    (finds : kernel.Finds cpu envid checkperm e) :
    Usable clean covered e kernel := by
  rcases finds.current_or_live with current | live
  · exact .of_current kept current
  · exact .of_live kept live

theorem triple_sysExofork_queues (cpu : Nat) :
    Triple
      (fun kernel => Kept clean covered kernel ∧
        (covered → ∀ current, kernel.cpus cpu = some current →
          kernel.AllocFits cpu (kernel.envs current).envId))
      (sysExofork cpu) (fun _ => Kept clean covered)
      (Kept clean covered) := by
  refine (triple_theCurenv cpu).bind fun current => ?_
  refine .bind_read fun parentId => ?_
  refine .strengthen _ ?_
    ((triple_envAlloc_queues cpu parentId).bind fun result => ?_)
  · rintro kernel ⟨⟨⟨kept, fits⟩, isCurrent⟩, rfl⟩
    exact ⟨kept, fun wanted => fits wanted current isCurrent⟩
  · cases result with
    | error r => exact .pure fun _ holds => holds.1
    | ok newenv =>
        refine .bind_read fun tf => ?_
        refine .bind_modify (Kept clean covered) ?_ (.read fun _ kept => kept)
        rintro kernel ⟨⟨kept, runnable⟩, -⟩
        have live : kernel.ledger.status newenv ≠ .free := by
          rw [runnable newenv rfl]
          decide
        exact kept_updateEnv (Usable.of_live kept live) (by simp)
          (fun _ => rfl) (fun _ => rfl) (fun _ => rfl) fun _ => rfl

theorem triple_sysEnvSetStatus_queues (cpu : Nat) (envid status : UInt32) :
    Triple (Kept clean covered) (sysEnvSetStatus cpu envid status)
      (fun _ => Kept clean covered) (Kept clean covered) := by
  unfold sysEnvSetStatus
  refine .ite (fun _ => .pure fun _ kept => kept) fun _ => ?_
  refine (triple_lookupEnv cpu envid true).bind fun result => ?_
  cases result with
  | error r => exact .pure fun _ holds => holds.1
  | ok e =>
      refine .bind_modify (Kept clean covered) ?_ (.pure fun _ kept => kept)
      rintro kernel ⟨kept, finds⟩
      refine kept_updateEnv (Usable.of_finds kept (finds e rfl)) ?_
        (fun _ => rfl) (fun _ => rfl) (fun _ => rfl) fun _ => rfl
      dsimp only
      split <;> decide

theorem triple_ipcDeliver_queues (sender dst : Nat) (value : UInt32) :
    Triple (Usable clean covered dst) (ipcDeliver sender dst value)
      (fun _ => Kept clean covered) (Kept clean covered) := by
  refine .bind_modify (Kept clean covered) ?_ (.pure fun _ kept => kept)
  intro kernel usable
  exact kept_updateEnv usable (by simp) (fun _ => rfl) (fun _ => rfl)
    (fun _ => rfl) fun _ => rfl

theorem triple_sysIpcTrySend_queues (surroundings : Surroundings) (cpu : Nat)
    (envid value srcva perm : UInt32) :
    Triple (Kept clean covered)
      (sysIpcTrySend surroundings cpu envid value srcva perm)
      (fun _ => Kept clean covered) (Kept clean covered) := by
  refine (triple_lookupEnv cpu envid false).bind fun result => ?_
  cases result with
  | error r => exact .pure fun _ holds => holds.1
  | ok dst =>
      refine (triple_theCurenv cpu).bind fun current => ?_
      refine .bind_read fun recving => ?_
      refine .strengthen (Usable clean covered dst) ?_ ?_
      · rintro kernel ⟨⟨⟨kept, finds⟩, -⟩, -⟩
        exact .of_finds kept (finds dst rfl)
      refine .ite (fun _ => .pure fun _ usable => usable.1) fun _ => ?_
      refine .ite (fun _ => ?_) fun _ => ?_
      · refine .bind_modify _ ?_ (triple_ipcDeliver_queues current dst value)
        intro kernel usable
        unfold Usable Kept
        simp only [kernel.ledger_updateEnv_same dst, implies_true]
        exact usable
      · refine .ite (fun _ => .pure fun _ usable => usable.1) fun _ => ?_
        refine .bind_read fun word => ?_
        cases word with
        | none => exact .stop
        | some srcpte =>
            refine .ite (fun _ => .pure fun _ holds => holds.1.1) fun _ => ?_
            have framed := frame_ipcTransfer blindToMem_ledger
              (fun kernel e _ => kernel.ledger_updateEnv_same e (fun _ => rfl)
                (fun _ => rfl) (fun _ => rfl) (fun _ => rfl) fun _ => rfl)
              current srcva dst (perm ||| pteU ||| pteP)
            have transferred : Triple (Usable clean covered dst)
                (ipcTransfer current srcva dst (perm ||| pteU ||| pteP))
                (fun _ => Usable clean covered dst) (Kept clean covered) :=
              framed.triple fun ledger => ledger.Inv clean covered none ∧
                ledger.envId dst ≠ 0 ∧ (clean → ledger.status dst ≠ .free)
            refine .strengthen (Usable clean covered dst)
              (fun _ holds => holds.1) (transferred.bind fun r => ?_)
            exact .ite (fun _ => .pure fun _ usable => usable.1)
              fun _ => triple_ipcDeliver_queues current dst value

/-- `e` has given up its processor. -/
def Kernel.blocked (kernel : Kernel) (e : Nat) : Kernel :=
  kernel.updateEnv e fun env => { env with envStatus := .notRunnable }

theorem triple_sysIpcRecv_queues (cpu : Nat)
    (dstva : UInt32) :
    Triple
      (fun kernel => Kept clean covered kernel ∧
        (covered → UserPage dstva → ∀ current,
          kernel.cpus cpu = some current →
          (kernel.blocked current).YieldFits))
      (sysIpcRecv .priorities cpu dstva) (fun _ => Kept clean covered)
      (Kept clean covered) := by
  refine (triple_theCurenv cpu).bind fun current => ?_
  refine .bind_modify
    (fun kernel => Usable clean covered current kernel ∧
      (covered → UserPage dstva → (kernel.blocked current).YieldFits)) ?_ ?_
  · rintro kernel ⟨⟨kept, fits⟩, isCurrent⟩
    have usable := Usable.of_current kept isCurrent
    refine ⟨?_, fun wanted user => ?_⟩
    · unfold Usable Kept
      simp only [kernel.ledger_updateEnv_same current, implies_true]
      exact usable
    · refine (yieldFits_congr (kernel.blocked current) _ ?_ ?_).mpr
        (fits wanted user current isCurrent)
      · rfl
      · intro e
        by_cases same : e = current <;>
          simp [Kernel.blocked, Kernel.updateEnv, Kernel.setEnv, same]
  · refine .ite (fun _ => .pure fun _ holds => holds.1.1) fun user => ?_
    refine .bind_modify
      (fun kernel => Kept clean covered kernel ∧ (covered → kernel.YieldFits))
      ?_ (triple_schedYield_queues cpu)
    rintro kernel ⟨usable, fits⟩
    refine ⟨?_, fun wanted => ?_⟩
    · exact kept_updateEnv usable (by simp) (fun _ => rfl) (fun _ => rfl)
        (fun _ => rfl) fun _ => rfl
    · refine (yieldFits_congr (kernel.blocked current) _ ?_ ?_).mpr
        (fits wanted (not_not.mp user))
      · rfl
      · intro e
        by_cases same : e = current <;>
          simp [Kernel.blocked, Kernel.updateEnv, Kernel.setEnv, same]

/-! ## Assigning a priority -/

/-- What `sched_eliminar_env` leaves: the entry of the environment has left its
queue, or that queue had none. -/
theorem triple_schedEliminarEnv (envId : UInt32) (property : Ledger → Prop)
    {left : Kernel → Prop} :
    Triple
      (fun kernel : Kernel => kernel.ledger.Sound ∧
        ∀ q : Fin 4, kernel.ledger.colaActual (envx envId) = q.val →
          (envId ∉ (kernel.ledger.colas q).contenido →
            property kernel.ledger) ∧
          ∀ i next, i ∈ (kernel.ledger.colas q).ring.counters →
            (kernel.ledger.colas q).entrada i = envId →
            (kernel.ledger.colas q).borrar (i % nenv) = some next →
            property (kernel.ledger.setCola q next))
      (schedEliminarEnv envId) (fun _ kernel => property kernel.ledger)
      left := by
  constructor
  rintro kernel ⟨sound, holds⟩
  obtain ⟨q, home⟩ := sound.colaActual (envx envId)
  obtain ⟨absent, present⟩ := holds q home
  have visited := MlfqCola.recorrido_eq (sound.ordenada q)
  change (kernel.mlfq.colas q).recorrido = _ at visited
  unfold schedEliminarEnv
  rw [show (kernel.envs (envx envId)).colaActual = q.val from home,
    obtenerCola_val]
  dsimp only
  rw [visited]
  dsimp only
  cases found : (kernel.ledger.colas q).ring.counters.find? fun i =>
      (kernel.mlfq.colas q).entrada i == envId with
  | none =>
      refine absent ?_
      intro member
      obtain ⟨i, isCounter, same⟩ := List.mem_map.mp member
      have differs := List.find?_eq_none.mp found i isCounter
      exact differs (beq_iff_eq.mpr same)
  | some i =>
      have matched := List.find?_some found
      have same : (kernel.mlfq.colas q).entrada i = envId := by
        simpa using matched
      unfold onCola
      dsimp only
      cases removed : (kernel.mlfq.colas q).borrar (i % nenv) with
      | none => trivial
      | some next =>
          exact present i next (List.mem_of_find?_eq_some found) same removed

/-- An environment whose queue has no entry for it is missing. -/
theorem inv_missing {kernel : Kernel} (kept : Kept clean covered kernel)
    {envId : UInt32} {q : Fin 4} (isId : kernel.ledger.envId e = envId)
    (home : kernel.ledger.colaActual e = q.val)
    (absent : envId ∉ (kernel.ledger.colas q).contenido) :
    kernel.ledger.Inv clean covered (some e) := by
  refine ⟨kept.sound, fun wanted => ?_, fun wanted => ?_⟩
  · have isClean := kept.clean wanted
    refine { isClean with entry := ?_ }
    intro p other member
    obtain ⟨otherId, alive, otherHome, -⟩ := isClean.entry p other member
    refine ⟨otherId, alive, otherHome, ?_⟩
    intro same
    have slot := Option.some.inj same
    rw [← slot, home] at otherHome
    rw [← slot, isId] at otherId
    have sameCola : q = p := Fin.ext (Int.ofNat.inj otherHome)
    rw [sameCola, otherId] at absent
    exact absent member
  · have isCovered := kept.covered wanted
    refine { isCovered with entry := ?_ }
    intro f given _
    exact isCovered.entry f given (by simp)

/-- The environment whose priority changes finds room in its new queue. -/
def Kernel.AssignFits (kernel : Kernel) (cpu : Nat) (envid : UInt32)
    (prioridad : Int) : Prop :=
  ∀ e current, ∀ q : Fin 4, kernel.Finds cpu envid false e →
    kernel.cpus cpu = some current →
    (e = current ∨ (kernel.envs e).envParentId = (kernel.envs current).envId) →
    prioridad = q.val → (kernel.envs e).colaActual < prioridad →
    (kernel.mlfq.colas q).Cabe 1

theorem ledger_agregar_cola (ledger : Ledger) (envId : UInt32) (q : Fin 4) :
    (ledger.agregar envId q).colaActual (envx envId) = q.val := by
  simp [Ledger.agregar, Ledger.setCola, Ledger.setColaActual]

/-- Leaving the queue of `cola_actual` and entering a later one. -/
theorem triple_reasignar (e : Nat) (env : Env)
    (q : Fin 4) :
    Triple
      (fun kernel : Kernel => Usable clean covered e kernel ∧
        kernel.envs e = env ∧ env.colaActual < q.val ∧
        (covered → (kernel.mlfq.colas q).Cabe 1))
      (do
        schedEliminarEnv env.envId
        schedAgregarEnv env.envId q.val
        Entry.modify fun kernel =>
          kernel.updateEnv e fun env => { env with colaActual := q.val }
        pure (q.val : Int))
      (fun _ => Kept clean covered) (Kept clean covered) := by
  refine .strengthen _ ?_
    ((triple_schedEliminarEnv env.envId (fun ledger =>
        (ledger.agregar env.envId q).Inv clean covered none ∧
          (ledger.agregar env.envId q).colaActual e = q.val)).bind
      fun _ => (triple_schedAgregarEnv (fun ledger =>
        ledger.Inv clean covered none ∧ ledger.colaActual e = q.val)
        env.envId q).bind fun _ => ?_)
  · rintro kernel ⟨⟨kept, given, live⟩, rfl, later, fits⟩
    have slot : envx (kernel.envs e).envId = e := kept.sound.slot e given
    refine ⟨kept.sound, ?_⟩
    intro p home
    have moved : ∀ ledger : Ledger, ledger.Inv clean covered (some e) →
        ledger.envId = kernel.ledger.envId →
        ledger.status = kernel.ledger.status →
        ledger.colas q = kernel.mlfq.colas q →
        (ledger.agregar (kernel.envs e).envId q).Inv clean covered none ∧
          (ledger.agregar (kernel.envs e).envId q).colaActual e = q.val := by
      intro ledger inv sameId sameStatus sameCola
      refine ⟨Ledger.Inv.agregar ?_ ?_ ?_, ?_⟩
      · rw [slot]
        exact inv
      · intro wanted
        rw [slot, sameId, sameStatus]
        exact ⟨rfl, live wanted⟩
      · intro wanted
        rw [sameCola]
        exact fits wanted
      · have marked := ledger_agregar_cola ledger (kernel.envs e).envId q
        rwa [slot] at marked
    rw [slot] at home
    refine ⟨fun absent => ?_, fun i next isCounter same removed => ?_⟩
    · exact moved _ (inv_missing kept rfl home absent) rfl rfl rfl
    · have different : q ≠ p := by
        rintro rfl
        rw [show (kernel.envs e).colaActual = q.val from home] at later
        omega
      have taken := kept.quitar isCounter removed
      rw [same, slot] at taken
      exact moved _ taken rfl rfl (Function.update_of_ne different _ _)
  · refine .bind_modify (Kept clean covered) ?_ (.pure fun _ kept => kept)
    rintro kernel ⟨kept, marked⟩
    unfold Kept
    rw [kernel.ledger_updateEnv_cola]
    unfold Ledger.setColaActual
    rw [← marked, Function.update_eq_self]
    exact kept

theorem triple_sysEnvAsignarPrioridad_queues
    (cpu : Nat) (envid : UInt32) (prioridad : Int) :
    Triple
      (fun kernel => Kept clean covered kernel ∧
        (covered → kernel.AssignFits cpu envid prioridad))
      (sysEnvAsignarPrioridad cpu envid prioridad)
      (fun _ => Kept clean covered) (Kept clean covered) := by
  unfold sysEnvAsignarPrioridad
  refine .ite (fun _ => .pure fun _ holds => holds.1) fun inRange => ?_
  obtain ⟨q, rfl⟩ : ∃ q : Fin 4, prioridad = q.val := by
    refine ⟨⟨prioridad.toNat, by omega⟩, ?_⟩
    dsimp only
    omega
  refine (triple_lookupEnv cpu envid false).bind fun result => ?_
  cases result with
  | error r => exact .pure fun _ holds => holds.1.1
  | ok e =>
      refine (triple_theCurenv cpu).bind fun current => ?_
      refine .bind_read fun env => .bind_read fun currentId => ?_
      refine .ite (fun _ => .pure fun _ holds => holds.1.1.1.1.1)
        fun related => ?_
      refine .ite (fun _ => .pure fun _ holds => holds.1.1.1.1.1)
        fun different => ?_
      refine .ite (fun _ => .pure fun _ holds => holds.1.1.1.1.1)
        fun notLater => ?_
      refine (triple_reasignar e env q).strengthen _ ?_
      rintro kernel ⟨⟨⟨⟨⟨kept, fits⟩, finds⟩, isCurrent⟩, rfl⟩, rfl⟩
      have later : (kernel.envs e).colaActual < q.val := by omega
      refine ⟨.of_finds kept (finds e rfl), rfl, later, fun wanted => ?_⟩
      refine fits wanted e current q (finds e rfl) isCurrent ?_ rfl later
      by_cases own : e = current
      · exact .inl own
      · exact .inr (not_not.mp fun other => related ⟨own, other⟩)

end FeaturesOS.Scheduler

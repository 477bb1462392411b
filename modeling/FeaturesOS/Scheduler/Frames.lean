import FeaturesOS.Scheduler.Trap

/-!
# What the kernel functions leave alone

The page functions change only the physical memory, and the queue functions only
the queues and `cola_actual`.  Whatever shows nothing of these parts is framed.
-/

namespace FeaturesOS.Scheduler

open Entry

variable {View : Type*} {view : Kernel → View}

/-- The view shows nothing of the physical memory. -/
def BlindToMem (view : Kernel → View) : Prop :=
  ∀ kernel mem, view (kernel.setMem mem) = view kernel

/-- The view shows nothing of the queues. -/
structure BlindToQueues (view : Kernel → View) : Prop where
  mlfq : ∀ kernel mlfq, view { kernel with mlfq := mlfq } = view kernel
  colaActual : ∀ kernel e cola,
    view (kernel.updateEnv e fun env => { env with colaActual := cola }) =
      view kernel

/-! ## Looking up environments -/

/-- `envid2env` finds `e`. -/
def Kernel.Finds (kernel : Kernel) (cpu : Nat) (envid : UInt32)
    (checkperm : Bool) (e : Nat) : Prop :=
  envid2env cpu envid checkperm kernel = .ok (some e)

/-- An identifier other than 0 names its slot. -/
theorem slot_of_finds {kernel : Kernel} {cpu e : Nat} {envid : UInt32}
    {checkperm : Bool} (finds : kernel.Finds cpu envid checkperm e)
    (named : envid ≠ 0) : e = envx envid := by
  unfold Kernel.Finds envid2env at finds
  rw [if_neg named] at finds
  dsimp only at finds
  split at finds
  · cases finds
  · split at finds
    · cases finds
    · exact (Option.some.inj (Except.ok.inj finds)).symm

/-- What `envid2env` finds is the current environment or alive. -/
theorem Kernel.Finds.current_or_live {kernel : Kernel} {cpu e : Nat}
    {envid : UInt32} {checkperm : Bool}
    (finds : kernel.Finds cpu envid checkperm e) :
    kernel.cpus cpu = some e ∨ (kernel.envs e).envStatus ≠ .free := by
  unfold Kernel.Finds envid2env at finds
  split at finds
  · exact .inl (Except.ok.inj finds)
  · dsimp only at finds
    split at finds
    · cases finds
    · rename_i alive
      split at finds
      · cases finds
      · rw [← Option.some.inj (Except.ok.inj finds)]
        exact .inr fun free => alive (.inl free)

section Lookups

variable {before : Kernel → Prop} {left : Kernel → Prop}

theorem triple_theCurenv (cpu : Nat) :
    Triple before (theCurenv cpu)
      (fun current kernel => before kernel ∧ kernel.cpus cpu = some current)
      left := by
  refine .bind_read ?_
  intro curenv
  cases curenv with
  | none => exact .stop
  | some current => exact .pure fun _ holds => holds

theorem triple_lookupEnv (cpu : Nat) (envid : UInt32) (checkperm : Bool) :
    Triple before (lookupEnv cpu envid checkperm)
      (fun result kernel => before kernel ∧
        ∀ e, result = .ok e → kernel.Finds cpu envid checkperm e) left := by
  refine .bind_read ?_
  intro found
  match found with
  | .error code =>
      exact .pure fun _ holds => ⟨holds.1, fun e same => by cases same⟩
  | .ok none => exact .stop
  | .ok (some e) =>
      refine .pure ?_
      rintro kernel ⟨holds, finds⟩
      refine ⟨holds, ?_⟩
      rintro e same
      cases same
      exact finds

end Lookups

/-! ## Page functions -/

theorem frame_onMem (blind : BlindToMem view) {Result : Type}
    (change : PhysMem → Option (PhysMem × Result)) :
    Frame view (onMem change) := by
  constructor
  intro kernel
  unfold onMem
  cases change kernel.mem with
  | none => trivial
  | some result => exact blind kernel result.1

theorem frame_onPgdir (blind : BlindToMem view) {Result : Type} (e : Nat)
    (change : Nat → PhysMem → Option (PhysMem × Result)) :
    Frame view (onPgdir e change) := by
  refine .bind .read ?_
  intro pgdir
  cases pgdir with
  | none => exact .stop
  | some pgdir => exact frame_onMem blind _

theorem frame_insertPage (blind : BlindToMem view) (e page : Nat)
    (va perm : UInt32) : Frame view (insertPage e page va perm) :=
  frame_onPgdir blind e _

theorem frame_envPageAlloc (blind : BlindToMem view) (e : Nat)
    (va perm : UInt32) : Frame view (envPageAlloc e va perm) := by
  unfold envPageAlloc
  split
  · exact .pure
  · refine .bind (frame_onMem blind _) ?_
    intro page
    cases page with
    | none => exact .pure
    | some page => exact frame_insertPage blind _ _ _ _

theorem frame_lookupPage (e : Nat) (va : UInt32) :
    Frame view (lookupPage e va) := by
  refine .bind .read ?_
  intro found
  cases found with
  | none => exact .stop
  | some found => exact .pure

theorem frame_envPageMap (blind : BlindToMem view) (src : Nat)
    (srcva : UInt32) (dst : Nat) (dstva perm : UInt32) :
    Frame view (envPageMap src srcva dst dstva perm) := by
  refine .bind (frame_lookupPage src srcva) ?_
  intro found
  cases found with
  | none => exact .pure
  | some found =>
      dsimp only
      split
      · exact .pure
      · exact frame_insertPage blind _ _ _ _

theorem frame_theCurenv (cpu : Nat) : Frame view (theCurenv cpu) := by
  refine .bind .read ?_
  intro curenv
  cases curenv with
  | none => exact .stop
  | some current => exact .pure

theorem frame_lookupEnv (cpu : Nat) (envid : UInt32) (checkperm : Bool) :
    Frame view (lookupEnv cpu envid checkperm) := by
  refine .bind .read ?_
  intro found
  cases found with
  | error code => exact .pure
  | ok found =>
      cases found with
      | none => exact .stop
      | some e => exact .pure

theorem frame_regionAllocFrom (blind : BlindToMem view) (e pages : Nat)
    (va : UInt32) : Frame view (regionAllocFrom e pages va) := by
  induction pages generalizing va with
  | zero => exact .pure
  | succ pages induction =>
      refine .bind (frame_onMem blind _) ?_
      intro page
      cases page with
      | none => exact .stop
      | some page =>
          refine .bind (frame_onPgdir blind e _) ?_
          intro r
          split
          · exact .stop
          · exact induction _

theorem frame_regionAlloc (blind : BlindToMem view) (e : Nat)
    (va len : UInt32) : Frame view (regionAlloc e va len) := by
  unfold regionAlloc
  split
  · exact .stop
  · exact frame_regionAllocFrom blind _ _ _

theorem frame_loadIcode (blind : BlindToMem view) (e : Nat) (entry : UInt32)
    (tf : ∀ kernel frame, view (kernel.updateEnv e fun env =>
      { env with envTf := { env.envTf with tfEip := frame } }) = view kernel)
    (segments : List (UInt32 × UInt32)) :
    Frame view (loadIcode e entry segments) := by
  induction segments with
  | nil =>
      rw [loadIcode]
      have stack := frame_regionAlloc blind e (uStackTop - 4096) 4096
      exact stack.bind fun _ => .modify fun kernel => tf kernel entry
  | cons segment segments induction =>
      rw [loadIcode]
      have region := frame_regionAlloc blind e segment.1 segment.2
      exact region.bind fun _ => induction

/-! ## Queue functions -/

theorem frame_schedAgregarEnv (blind : BlindToQueues view) (envId : UInt32)
    (cola : Int) : Frame view (schedAgregarEnv envId cola) := by
  constructor
  intro kernel
  unfold schedAgregarEnv
  cases obtenerCola cola with
  | none => trivial
  | some index =>
      dsimp only
      cases posicion (kernel.mlfq.colas index).ultimo with
      | none => trivial
      | some position =>
          exact (blind.mlfq _ _).trans (blind.colaActual kernel _ _)

theorem frame_onCola (blind : BlindToQueues view) (index : Fin 4)
    (change : MlfqCola → Option MlfqCola) :
    Frame view (onCola index change) := by
  constructor
  intro kernel
  unfold onCola
  cases change (kernel.mlfq.colas index) with
  | none => trivial
  | some cola => exact blind.mlfq kernel _

theorem frame_schedEliminarEnv (blind : BlindToQueues view) (envId : UInt32) :
    Frame view (schedEliminarEnv envId) := by
  constructor
  intro kernel
  unfold schedEliminarEnv
  cases obtenerCola (kernel.envs (envx envId)).colaActual with
  | none => trivial
  | some index =>
      dsimp only
      cases (kernel.mlfq.colas index).recorrido with
      | none => trivial
      | some counters =>
          dsimp only
          cases counters.find?
            (fun i => (kernel.mlfq.colas index).entrada i == envId) with
          | none => rfl
          | some i => exact (frame_onCola blind index _).run kernel

theorem frame_promoverEntradas (blind : BlindToQueues view)
    (entries : List UInt32) : Frame view (promoverEntradas entries) := by
  induction entries with
  | nil => exact .pure
  | cons envId rest induction =>
      exact .bind (frame_schedAgregarEnv blind _ _) fun _ => induction

theorem frame_promoverCola (blind : BlindToQueues view) (index : Fin 4) :
    Frame view (promoverCola index) := by
  refine .bind .read ?_
  intro cola
  cases cola.recorrido with
  | none => exact .stop
  | some counters => exact frame_promoverEntradas blind _

theorem frame_promoverSiCorresponde (blind : BlindToQueues view) :
    Frame view promoverSiCorresponde := by
  refine .bind .read ?_
  intro totales
  split
  · refine .bind ?_ fun _ => .modify fun kernel => blind.mlfq kernel _
    refine .bind (frame_promoverCola blind 1) fun _ => ?_
    refine .bind (frame_promoverCola blind 2) fun _ => ?_
    refine .bind (frame_promoverCola blind 3) fun _ => ?_
    exact .modify fun kernel => blind.mlfq kernel _
  · exact .pure

/-! ## System calls -/

theorem frame_sysPageAlloc (blind : BlindToMem view) (cpu : Nat)
    (envid va perm : UInt32) : Frame view (sysPageAlloc cpu envid va perm) := by
  unfold sysPageAlloc
  split
  · exact .pure
  · refine .bind (frame_lookupEnv cpu envid true) ?_
    intro found
    cases found with
    | error r => exact .pure
    | ok e => exact frame_envPageAlloc blind e _ _

theorem frame_sysPageMap (blind : BlindToMem view) (cpu : Nat)
    (srcenvid srcva dstenvid dstva perm : UInt32) :
    Frame view (sysPageMap cpu srcenvid srcva dstenvid dstva perm) := by
  unfold sysPageMap
  split
  · exact .pure
  · split
    · exact .pure
    · refine .bind (frame_lookupEnv cpu srcenvid true) ?_
      intro found
      cases found with
      | error r => exact .pure
      | ok src =>
          refine .bind (frame_lookupEnv cpu dstenvid true) ?_
          intro found
          cases found with
          | error r => exact .pure
          | ok dst => exact frame_envPageMap blind src _ dst _ _

theorem frame_sysPageUnmap (blind : BlindToMem view) (cpu : Nat)
    (envid va : UInt32) : Frame view (sysPageUnmap cpu envid va) := by
  unfold sysPageUnmap
  split
  · exact .pure
  · refine .bind (frame_lookupEnv cpu envid true) ?_
    intro found
    cases found with
    | error r => exact .pure
    | ok e => exact .bind (frame_onPgdir blind e _) fun _ => .pure

theorem frame_ipcTransfer (blind : BlindToMem view)
    (perm' : ∀ kernel e word, view (kernel.updateEnv e fun env =>
      { env with envIpcPerm := word }) = view kernel)
    (current : Nat) (srcva : UInt32) (dst : Nat) (perm : UInt32) :
    Frame view (ipcTransfer current srcva dst perm) := by
  refine .bind .read ?_
  intro dstva
  split
  · exact .pure
  · refine .bind (frame_envPageAlloc blind dst _ _) ?_
    intro r
    split
    · exact .pure
    · refine .bind (frame_envPageMap blind current _ dst _ _) ?_
      intro r
      split
      · exact .pure
      · exact .bind (.modify fun kernel => perm' kernel dst perm) fun _ => .pure

theorem frame_sysEnvObtenerPrioridad (cpu : Nat) (envid : UInt32) :
    Frame view (sysEnvObtenerPrioridad cpu envid) := by
  refine .bind (frame_lookupEnv cpu envid false) ?_
  intro found
  cases found with
  | error r => exact .pure
  | ok e => exact .read

theorem frame_sysEnvAsignarPrioridad (blind : BlindToQueues view) (cpu : Nat)
    (envid : UInt32) (prioridad : Int) :
    Frame view (sysEnvAsignarPrioridad cpu envid prioridad) := by
  unfold sysEnvAsignarPrioridad
  split
  · exact .pure
  · refine .bind (frame_lookupEnv cpu envid false) ?_
    intro found
    cases found with
    | error r => exact .pure
    | ok e =>
        refine .bind (frame_theCurenv cpu) fun current => ?_
        refine .bind .read fun env => .bind .read fun currentId => ?_
        split
        · exact .pure
        · split
          · exact .pure
          · split
            · exact .pure
            · refine .bind (frame_schedEliminarEnv blind _) fun _ => ?_
              refine .bind (frame_schedAgregarEnv blind _ _) fun _ => ?_
              refine .bind (.modify ?_) fun _ => .pure
              intro kernel
              exact blind.colaActual kernel e prioridad

theorem frame_storeWords (blind : BlindToMem view) (e : Nat) (va : UInt32)
    (words : List UInt32) : Frame view (storeWords e va words) :=
  frame_onPgdir blind e _

/-! ## `env_run` -/

section Dispatch

variable {kernel : Kernel} {e : Nat}

/-- The kernel that `env_run` leaves. -/
def Kernel.despachado (kernel : Kernel) (cpu e : Nat) : Kernel :=
  ((soltarCurenv cpu kernel).setCurenv cpu (some e)).updateEnv e fun env =>
    { env with
      envStatus := .running
      envRuns := env.envRuns + 1
      envCpunum := cpu }

theorem soltarCurenv_keeps (cpu : Nat) (kernel : Kernel) :
    (soltarCurenv cpu kernel).mlfq = kernel.mlfq ∧
      ∀ g, ((soltarCurenv cpu kernel).envs g).envPgdir =
          (kernel.envs g).envPgdir ∧
        ((soltarCurenv cpu kernel).envs g).colaActual =
          (kernel.envs g).colaActual := by
  unfold soltarCurenv
  split
  · exact ⟨rfl, fun _ => ⟨rfl, rfl⟩⟩
  · split
    · refine ⟨rfl, fun g => ?_⟩
      rename_i current _ _
      by_cases same : g = current <;>
        simp [Kernel.updateEnv, Kernel.setEnv, same]
    · exact ⟨rfl, fun _ => ⟨rfl, rfl⟩⟩

theorem despachado_keeps (cpu e : Nat) (kernel : Kernel) :
    (kernel.despachado cpu e).mlfq = kernel.mlfq ∧
      ∀ g, ((kernel.despachado cpu e).envs g).envPgdir =
          (kernel.envs g).envPgdir ∧
        ((kernel.despachado cpu e).envs g).colaActual =
          (kernel.envs g).colaActual := by
  obtain ⟨mlfq, envs⟩ := soltarCurenv_keeps cpu kernel
  refine ⟨mlfq, fun g => ?_⟩
  rw [← (envs g).1, ← (envs g).2]
  by_cases same : g = e <;>
    simp [Kernel.despachado, Kernel.updateEnv, Kernel.setEnv,
      Kernel.setCurenv, same]

theorem despachado_current (cpu e : Nat) (kernel : Kernel) :
    (kernel.despachado cpu e).cpus cpu = some e := by
  simp [Kernel.despachado, Kernel.setCurenv, Kernel.updateEnv, Kernel.setEnv]

theorem despachado_mem (cpu e : Nat) (kernel : Kernel) :
    (kernel.despachado cpu e).mem = kernel.mem := by
  change (soltarCurenv cpu kernel).mem = kernel.mem
  unfold soltarCurenv
  split
  · rfl
  · split <;> rfl

/-- The current environment goes on. -/
theorem despachado_self {cpu : Nat} (current : kernel.cpus cpu = some e) :
    ∃ runs, (kernel.despachado cpu e).envs e =
      { kernel.envs e with
        envStatus := .running
        envRuns := runs
        envCpunum := cpu } := by
  refine ⟨(kernel.envs e).envRuns + 1, ?_⟩
  unfold Kernel.despachado soltarCurenv
  rw [current]
  dsimp only
  split <;>
    simp [Kernel.updateEnv, Kernel.setEnv, Kernel.setCurenv]

theorem envRun_leaves {cpu : Nat} (mapped : (kernel.envs e).envPgdir ≠ none) :
    (envRun cpu e : KernelM Unit) kernel =
      .leaves (kernel.despachado cpu e) := by
  cases found : (kernel.envs e).envPgdir with
  | none => exact absurd found mapped
  | some pgdir =>
      have loaded : ((kernel.despachado cpu e).envs e).envPgdir = some pgdir :=
        ((despachado_keeps cpu e kernel).2 e).1.trans found
      unfold Kernel.despachado at loaded
      unfold envRun
      rw [modify_bind_run, modify_bind_run, read_bind_run, loaded]
      rfl

end Dispatch

end FeaturesOS.Scheduler

import FeaturesOS.Scheduler.Env

/-!
# The scheduler

The functions of `kern/sched.c` in its two builds, and `env_destroy`, which ends
in the scheduler when it frees the current environment.
-/

namespace FeaturesOS.Scheduler

/-- The build flags `SCHED_ROUND_ROBIN` and `SCHED_PRIORITIES`. -/
inductive Build where
  | roundRobin
  | priorities
deriving DecidableEq

/-- `MAX_EJECUCIONES_MLFQ`. -/
def maxEjecucionesMlfq : Int32 := 50

namespace MlfqCola

/-- The counters that a loop from `primero` to `ultimo` visits; a negative one
would address memory in front of the array. -/
def recorrido (cola : MlfqCola) : Option (List Nat) :=
  if cola.ultimo.toInt ≤ cola.primero.toInt then
    some []
  else if 0 ≤ cola.primero.toInt then
    some (List.range' cola.primero.toInt.toNat
      (cola.ultimo.toInt - cola.primero.toInt).toNat)
  else
    none

/-- `cola->envs[i % NENV]`. -/
def entrada (cola : MlfqCola) (i : Nat) : UInt32 := cola.envs (i % nenv)

/-- `sched_borrar_env`. -/
def borrar (cola : MlfqCola) (position : Nat) : Option MlfqCola :=
  if (position : Int) = cola.primero.toInt then
    some { cola with primero := cola.primero + 1 }
  else
    match posicion cola.primero with
    | none => none
    | some first =>
        some
          { cola with
            envs := Function.update
              (Function.update cola.envs first (cola.envs position))
              position (cola.envs first)
            primero := cola.primero + 1 }

end MlfqCola

/-- Run `change` on one queue; `none` is undefined behaviour. -/
def onCola (index : Fin 4) (change : MlfqCola → Option MlfqCola) :
    KernelM Unit := fun kernel =>
  match change (kernel.mlfq.colas index) with
  | none => .stops
  | some cola => .returns () (kernel.setCola index cola)

/-- `sched_eliminar_env`. -/
def schedEliminarEnv (envId : UInt32) : KernelM Unit := fun kernel =>
  match obtenerCola (kernel.envs (envx envId)).colaActual with
  | none => .stops
  | some index =>
      let cola := kernel.mlfq.colas index
      match cola.recorrido with
      | none => .stops
      | some counters =>
          match counters.find? fun i => cola.entrada i == envId with
          | none => .returns () kernel
          | some i => onCola index (fun cola => cola.borrar (i % nenv)) kernel

/-- `vaciar_colas`, which leaves `cola_a` as it is. -/
def vaciarColas : KernelM Unit :=
  Entry.modify fun kernel =>
    { kernel with
      mlfq :=
        { kernel.mlfq with
          colas := fun index =>
            if index = 0 then kernel.mlfq.colas 0
            else { kernel.mlfq.colas index with primero := 0, ultimo := 0 } } }

/-- The body of the loop of `promover_cola` for the entries of a queue. -/
def promoverEntradas : List UInt32 → KernelM Unit
  | [] => pure ()
  | envId :: rest => do
      schedAgregarEnv envId 0
      promoverEntradas rest

/-- `promover_cola`: the loop does not change the queue that it reads. -/
def promoverCola (index : Fin 4) : KernelM Unit := do
  let cola ← Entry.read fun kernel => kernel.mlfq.colas index
  match cola.recorrido with
  | none => Entry.stop
  | some counters => promoverEntradas (counters.map cola.entrada)

/-- `promover_colas`. -/
def promoverColas : KernelM Unit := do
  promoverCola 1
  promoverCola 2
  promoverCola 3
  vaciarColas

namespace Kernel

def Runnable (kernel : Kernel) (e : Nat) : Prop :=
  (kernel.envs e).envStatus = .runnable

instance (kernel : Kernel) : DecidablePred kernel.Runnable := fun _ =>
  inferInstanceAs (Decidable (_ = _))

/-- The environments that `round_robin` tries, in its order. -/
@[irreducible] def rondaDesde (start : Nat) : List Nat :=
  (List.range nenv).map fun i => (start + i) % nenv

/-- The first runnable environment behind the current one. -/
def siguienteEnRonda (kernel : Kernel) (cpu : Nat) : Option Nat :=
  let start :=
    match kernel.cpus cpu with
    | none => 0
    | some current => envx (kernel.envs current).envId + 1
  (rondaDesde start).find? fun e => decide (kernel.Runnable e)

/-- The first counter of a queue whose environment is runnable; the outer `none`
is undefined behaviour. -/
def primeroEjecutable (kernel : Kernel) (cola : MlfqCola) :
    Option (Option Nat) :=
  cola.recorrido.map fun counters =>
    counters.find? fun i => decide (kernel.Runnable (envx (cola.entrada i)))

/-- `obtener_cola_mejor_prioridad`: the first queue with a runnable environment
and its first such counter. -/
def colaMejorPrioridad (kernel : Kernel) :
    List (Fin 4) → Option (Option (Fin 4 × Nat))
  | [] => some none
  | index :: rest =>
      match kernel.primeroEjecutable (kernel.mlfq.colas index) with
      | none => none
      | some (some i) => some (some (index, i))
      | some none => kernel.colaMejorPrioridad rest

/-- `obtener_cola_mejor_prioridad` finds the first entry of a runnable
environment in its queue. -/
theorem colaMejorPrioridad_find (kernel : Kernel) {indices : List (Fin 4)}
    {index : Fin 4} {i : Nat}
    (found : kernel.colaMejorPrioridad indices = some (some (index, i))) :
    ∃ counters, (kernel.mlfq.colas index).recorrido = some counters ∧
      (counters.find? fun i => decide (kernel.Runnable
        (envx ((kernel.mlfq.colas index).entrada i)))) = some i := by
  induction indices with
  | nil => cases found
  | cons first rest induction =>
      rw [colaMejorPrioridad] at found
      cases best : kernel.primeroEjecutable (kernel.mlfq.colas first) with
      | none =>
          rw [best] at found
          cases found
      | some best' =>
          rw [best] at found
          cases best' with
          | none => exact induction found
          | some j =>
              cases found
              exact Option.map_eq_some_iff.mp best

/-- The entry that `obtener_cola_mejor_prioridad` finds is visited in its queue
and belongs to a runnable environment. -/
theorem colaMejorPrioridad_found (kernel : Kernel) {indices : List (Fin 4)}
    {index : Fin 4} {i : Nat}
    (found : kernel.colaMejorPrioridad indices = some (some (index, i))) :
    ∃ counters, (kernel.mlfq.colas index).recorrido = some counters ∧
      i ∈ counters ∧
      kernel.Runnable (envx ((kernel.mlfq.colas index).entrada i)) := by
  obtain ⟨counters, visited, first⟩ := kernel.colaMejorPrioridad_find found
  have runnable := List.find?_some first
  exact ⟨counters, visited, List.mem_of_find?_eq_some first,
    by simpa using runnable⟩

def isActive : EnvStatus → Bool
  | .runnable | .running | .dying => true
  | .free | .notRunnable => false

/-- The search loop of `sched_halt`. -/
@[irreducible] def hasActive (kernel : Kernel) : Bool :=
  (List.range nenv).any fun e => isActive (kernel.envs e).envStatus

/-- `env->ejecuciones++`. -/
def contarEjecucion (kernel : Kernel) (e : Nat) : Kernel :=
  kernel.updateEnv e fun env => { env with ejecuciones := env.ejecuciones + 1 }

/-- `mlfq_scheduler.ejecuciones_totales++`. -/
def contarTotal (kernel : Kernel) : Kernel :=
  { kernel with
    mlfq :=
      { kernel.mlfq with
        ejecucionesTotales := kernel.mlfq.ejecucionesTotales + 1 } }

/-- The current environment, when it is still running. -/
def curenvRunning (kernel : Kernel) (cpu : Nat) : Option Nat :=
  (kernel.cpus cpu).filter fun e =>
    decide ((kernel.envs e).envStatus = .running)

end Kernel

/-- `sched_halt`; without any active environment the processor stays in the
monitor. -/
def schedHalt {Result : Type} (cpu : Nat) : KernelM Result := fun kernel =>
  if kernel.hasActive then
    .leaves (kernel.setCurenv cpu none)
  else
    .stops

/-- `round_robin`. -/
def roundRobin (cpu : Nat) : KernelM Unit := do
  match ← Entry.read fun kernel => kernel.siguienteEnRonda cpu with
  | some e => do
      Entry.modify fun kernel => kernel.contarEjecucion e
      envRun cpu e
  | none =>
      match ← Entry.read fun kernel => kernel.curenvRunning cpu with
      | some current => do
          Entry.modify fun kernel => kernel.contarEjecucion current
          envRun cpu current
      | none => pure ()

/-- `prioridad_MLFQ`. -/
def prioridadMlfq (cpu : Nat) : KernelM Unit := do
  match ← Entry.read fun kernel => kernel.colaMejorPrioridad [0, 1, 2, 3] with
  | none => Entry.stop
  | some none =>
      match ← Entry.read fun kernel => kernel.curenvRunning cpu with
      | some current => do
          Entry.modify fun kernel =>
            kernel.contarTotal.contarEjecucion current
          envRun cpu current
      | none => schedHalt cpu
  | some (some (numeroCola, i)) => do
      let siguienteEnvId ← Entry.read fun kernel =>
        (kernel.mlfq.colas numeroCola).entrada i
      onCola numeroCola fun cola => cola.borrar (i % nenv)
      let nuevoNumeroCola : Int :=
        if numeroCola.val ≥ 3 then 3 else numeroCola.val + 1
      schedAgregarEnv siguienteEnvId nuevoNumeroCola
      Entry.modify fun kernel =>
        kernel.contarTotal.contarEjecucion (envx siguienteEnvId)
      envRun cpu (envx siguienteEnvId)

/-- The promotion that `sched_yield` makes after enough executions. -/
def promoverSiCorresponde : KernelM Unit := do
  let totales ← Entry.read fun kernel => kernel.mlfq.ejecucionesTotales
  if totales ≥ maxEjecucionesMlfq then do
    promoverColas
    Entry.modify fun kernel =>
      { kernel with mlfq := { kernel.mlfq with ejecucionesTotales := 0 } }
  else
    pure ()

/-- The body of `sched_yield` that the build flag selects. -/
def elegirEntorno (build : Build) (cpu : Nat) : KernelM Unit :=
  match build with
  | .roundRobin => roundRobin cpu
  | .priorities => do
      promoverSiCorresponde
      prioridadMlfq cpu

/-- `sched_yield`. -/
def schedYield {Result : Type} (build : Build) (cpu : Nat) :
    KernelM Result := do
  Entry.modify fun kernel =>
    { kernel with runsDelSched := kernel.runsDelSched + 1 }
  elegirEntorno build cpu
  schedHalt cpu

/-- `env_destroy`. -/
def envDestroy (build : Build) (cpu e : Nat) : KernelM Unit := do
  let status ← Entry.read fun kernel => (kernel.envs e).envStatus
  let curenv ← Entry.read fun kernel => kernel.cpus cpu
  if status = .running ∧ curenv ≠ some e then
    Entry.modify fun kernel =>
      kernel.updateEnv e fun env => { env with envStatus := .dying }
  else do
    envFree e
    if curenv = some e then do
      Entry.modify fun kernel => kernel.setCurenv cpu none
      schedYield build cpu

end FeaturesOS.Scheduler

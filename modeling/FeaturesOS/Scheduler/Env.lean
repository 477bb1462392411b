import FeaturesOS.Control
import FeaturesOS.Scheduler.Pmap

/-!
# Environments

The state of the kernel and the functions of `kern/env.c` below the scheduler.
An environment is named by its index in `envs[]`.  The kernel functions are
`Entry` computations: they may leave through `env_run` or `sched_halt`, and they
stop in a panic or in the monitor.
-/

namespace FeaturesOS.Scheduler

/-- `struct PushRegs`. -/
structure PushRegs where
  regEdi : UInt32
  regEsi : UInt32
  regEbp : UInt32
  regOesp : UInt32
  regEbx : UInt32
  regEdx : UInt32
  regEcx : UInt32
  regEax : UInt32
deriving DecidableEq

/-- `struct Trapframe` without its paddings. -/
structure Trapframe where
  tfRegs : PushRegs
  tfEs : UInt16
  tfDs : UInt16
  tfTrapno : UInt32
  tfErr : UInt32
  tfEip : UInt32
  tfCs : UInt16
  tfEflags : UInt32
  tfEsp : UInt32
  tfSs : UInt16
deriving DecidableEq

/-- A trap frame cleared by `memset`. -/
def Trapframe.zero : Trapframe :=
  { tfRegs := ⟨0, 0, 0, 0, 0, 0, 0, 0⟩
    tfEs := 0
    tfDs := 0
    tfTrapno := 0
    tfErr := 0
    tfEip := 0
    tfCs := 0
    tfEflags := 0
    tfEsp := 0
    tfSs := 0 }

/-- `tf->tf_regs.reg_eax = value`. -/
def Trapframe.setEax (frame : Trapframe) (value : UInt32) : Trapframe :=
  { frame with tfRegs := { frame.tfRegs with regEax := value } }

inductive EnvStatus where
  | free
  | dying
  | runnable
  | running
  | notRunnable
deriving DecidableEq

/-- `struct Env`, with its position in `envs[]` as its identity. -/
structure Env where
  envTf : Trapframe
  envLink : Option Nat
  envId : UInt32
  envParentId : UInt32
  envStatus : EnvStatus
  envRuns : UInt32
  envCpunum : Nat
  envPgdir : Option Nat
  envPgfaultUpcall : UInt32
  envIpcRecving : Bool
  envIpcDstva : UInt32
  envIpcValue : UInt32
  envIpcFrom : UInt32
  envIpcPerm : UInt32
  colaActual : Int
  ejecuciones : Int32
deriving DecidableEq

/-- `struct MLFQ_cola`. -/
structure MlfqCola where
  envs : Nat → UInt32
  ultimo : Int32
  primero : Int32

/-- The queues are numbered from zero. -/
instance neZeroColas : NeZero 4 := Nat.instNeZeroSucc

/-- `struct MLFQ_scheduler`: `colas` holds `cola_a` to `cola_d`. -/
structure MlfqScheduler where
  colas : Fin 4 → MlfqCola
  ejecucionesTotales : Int32

/-- `cpus` gives the current environment of each processor. -/
structure Kernel where
  mem : PhysMem
  kernPgdir : Nat
  envs : Nat → Env
  envFreeList : Option Nat
  cpus : Nat → Option Nat
  mlfq : MlfqScheduler
  runsDelSched : Int32

abbrev KernelM (Result : Type) := Entry Kernel Result

namespace Kernel

def setEnv (kernel : Kernel) (index : Nat) (env : Env) : Kernel :=
  { kernel with envs := Function.update kernel.envs index env }

/-- Assign to fields of one environment. -/
def updateEnv (kernel : Kernel) (index : Nat) (change : Env → Env) : Kernel :=
  kernel.setEnv index (change (kernel.envs index))

def setCurenv (kernel : Kernel) (cpu : Nat) (env : Option Nat) : Kernel :=
  { kernel with cpus := Function.update kernel.cpus cpu env }

def setMem (kernel : Kernel) (mem : PhysMem) : Kernel :=
  { kernel with mem := mem }

end Kernel

/-- A change of the physical memory; `none` is a panic. -/
def onMem {Result : Type} (change : PhysMem → Option (PhysMem × Result)) :
    KernelM Result := fun kernel =>
  match change kernel.mem with
  | none => .stops
  | some (mem, result) => .returns result (kernel.setMem mem)

/-- A change of the memory through the page directory of an environment; a NULL
directory faults. -/
def onPgdir {Result : Type} (e : Nat)
    (change : Nat → PhysMem → Option (PhysMem × Result)) : KernelM Result := do
  match ← Entry.read fun kernel => (kernel.envs e).envPgdir with
  | none => Entry.stop
  | some pgdir => onMem (change pgdir)

/-- `envid2env` on the processor `cpu`; the error leaves NULL in `env_store`. -/
def envid2env (cpu : Nat) (envid : UInt32) (checkperm : Bool)
    (kernel : Kernel) : Except Int (Option Nat) :=
  if envid = 0 then
    .ok (kernel.cpus cpu)
  else
    let e := envx envid
    let env := kernel.envs e
    if env.envStatus = .free ∨ env.envId ≠ envid then
      .error (-eBadEnv)
    else if checkperm = true ∧ kernel.cpus cpu ≠ some e ∧
        some env.envParentId ≠
          (kernel.cpus cpu).map fun current => (kernel.envs current).envId then
      .error (-eBadEnv)
    else
      .ok (some e)

/-- `env_setup_vm`: the directory is a copy of `kern_pgdir` with its own page in
the entry of `UVPT`. -/
def envSetupVm (e : Nat) : KernelM Int := fun kernel =>
  match kernel.mem.pageAlloc true with
  | (_, none) => .returns (-eNoMem) kernel
  | (mem, some page) =>
      let copied : PhysMem :=
        { mem with
          ram := Function.update mem.ram page (mem.ram kernel.kernPgdir) }
      let mapped := (copied.pageIncref page).store ⟨page, pdx uvpt⟩
        (page2pa page ||| pteP ||| pteU)
      .returns 0
        ((kernel.setMem mapped).updateEnv e fun env =>
          { env with envPgdir := some page })

/-- The generation part of a fresh `env_id`. -/
def nextGeneration (envId : UInt32) : UInt32 :=
  let generation := (envId + 4096) &&& ~~~1023
  if generation.toInt32 ≤ 0 then 4096 else generation

/-- `obtener_cola`; `none` is NULL. -/
def obtenerCola (cola : Int) : Option (Fin 4) :=
  if cola < 0 then none
  else if cola = 0 then some 0
  else if cola = 1 then some 1
  else if cola = 2 then some 2
  else some 3

/-- The position `counter % NENV` in `cola->envs`; a negative one addresses memory
in front of the array. -/
def posicion (counter : Int32) : Option Nat :=
  let position := counter.toInt.tmod nenv
  if 0 ≤ position then some position.toNat else none

namespace Kernel

def setCola (kernel : Kernel) (index : Fin 4) (cola : MlfqCola) : Kernel :=
  { kernel with
    mlfq :=
      { kernel.mlfq with colas := Function.update kernel.mlfq.colas index cola } }

end Kernel

/-- `sched_agregar_env`. -/
def schedAgregarEnv (envId : UInt32) (valorCola : Int) : KernelM Unit :=
  fun kernel =>
    match obtenerCola valorCola with
    | none => .stops
    | some index =>
        let cola := kernel.mlfq.colas index
        match posicion cola.ultimo with
        | none => .stops
        | some position =>
            let marked := kernel.updateEnv (envx envId) fun env =>
              { env with colaActual := valorCola }
            .returns ()
              (marked.setCola index
                { cola with
                  envs := Function.update cola.envs position envId
                  ultimo := cola.ultimo + 1 })

/-- The part of `env_alloc` that fills in the environment at the head of the free
list. -/
def commitEnv (parentId : UInt32) (e : Nat) (kernel : Kernel) : Kernel :=
  { kernel.updateEnv e fun env =>
      { env with
        envId := nextGeneration env.envId ||| UInt32.ofNat e
        envParentId := parentId
        envStatus := .runnable
        envRuns := 0
        envTf :=
          { Trapframe.zero with
            tfDs := 0x23
            tfEs := 0x23
            tfSs := 0x23
            tfEsp := uStackTop
            tfCs := 0x1B
            tfEflags := 0x200 }
        envPgfaultUpcall := 0
        envIpcRecving := false
        ejecuciones := 0 } with
    envFreeList := (kernel.envs e).envLink }

/-- `padre ? padre->cola_actual : CERO` in `env_alloc`. -/
def colaPadre (cpu : Nat) (parentId : UInt32) (kernel : Kernel) : Int :=
  match envid2env cpu parentId false kernel with
  | .ok (some padre) => (kernel.envs padre).colaActual
  | _ => 0

/-- `env_alloc` on the processor `cpu`: the index of the new environment or a
negative error. -/
def envAlloc (cpu : Nat) (parentId : UInt32) : KernelM (Except Int Nat) := do
  match ← Entry.read Kernel.envFreeList with
  | none => pure (.error (-eNoFreeEnv))
  | some e => do
      let r ← envSetupVm e
      if r < 0 then
        pure (.error r)
      else do
        Entry.modify (commitEnv parentId e)
        let cola ← Entry.read (colaPadre cpu parentId)
        let envId ← Entry.read fun kernel => (kernel.envs e).envId
        schedAgregarEnv envId cola
        pure (.ok e)

/-- The inner loop of `env_free`: unmap the entries below `pteno`. -/
def envFreeTable (pgdir pdeno page : Nat) : Nat → PhysMem → Option PhysMem
  | 0, mem => some mem
  | pteno + 1, mem => do
      let unmapped ← envFreeTable pgdir pdeno page pteno mem
      if unmapped.ram page pteno &&& pteP ≠ 0 then
        unmapped.pageRemove pgdir (pgAddr pdeno pteno)
      else
        some unmapped

/-- The outer loop of `env_free`: free the tables below `pdeno`. -/
def envFreeTables (pgdir : Nat) : Nat → PhysMem → Option PhysMem
  | 0, mem => some mem
  | pdeno + 1, mem => do
      let freed ← envFreeTables pgdir pdeno mem
      let pde := freed.ram pgdir pdeno
      if pde &&& pteP = 0 then
        some freed
      else if freed.Valid (pteFrame pde) then
        let unmapped ←
          envFreeTable pgdir pdeno (pteFrame pde) nptEntries freed
        (unmapped.store ⟨pgdir, pdeno⟩ 0).pageDecref (pteFrame pde)
      else
        none

/-- `env_free`. -/
def envFree (e : Nat) : KernelM Unit := fun kernel =>
  match (kernel.envs e).envPgdir with
  | none => .stops
  | some pgdir =>
      match (envFreeTables pgdir userTables kernel.mem).bind fun mem =>
          mem.pageDecref pgdir with
      | none => .stops
      | some mem =>
          let freed := (kernel.setMem mem).updateEnv e fun env =>
            { env with
              envPgdir := none
              envStatus := .free
              envLink := kernel.envFreeList }
          .returns () { freed with envFreeList := some e }

/-- The first lines of `env_run`: a current environment that is still running
becomes runnable again. -/
def soltarCurenv (cpu : Nat) (kernel : Kernel) : Kernel :=
  match kernel.cpus cpu with
  | none => kernel
  | some current =>
      if (kernel.envs current).envStatus = .running then
        kernel.updateEnv current fun env => { env with envStatus := .runnable }
      else
        kernel

/-- `env_run` on the processor `cpu`.  Loading the page directory panics when
there is none. -/
def envRun {Result : Type} (cpu e : Nat) : KernelM Result := do
  Entry.modify (soltarCurenv cpu)
  Entry.modify fun kernel =>
    (kernel.setCurenv cpu (some e)).updateEnv e fun env =>
      { env with
        envStatus := .running
        envRuns := env.envRuns + 1
        envCpunum := cpu }
  match ← Entry.read fun kernel => (kernel.envs e).envPgdir with
  | none => Entry.stop
  | some _ => Entry.leave

/-- `region_alloc` from the page `va` on; a failure is a panic. -/
def regionAllocFrom (e : Nat) : Nat → UInt32 → KernelM Unit
  | 0, _ => pure ()
  | pages + 1, va => do
      match ← onMem fun mem => some (mem.pageAlloc false) with
      | none => Entry.stop
      | some page => do
          let r ← onPgdir e fun pgdir mem =>
            mem.pageInsert pgdir page va (pteU ||| pteW)
          if r ≠ 0 then Entry.stop else regionAllocFrom e pages (va + 4096)

/-- `region_alloc`. -/
def regionAlloc (e : Nat) (va len : UInt32) : KernelM Unit :=
  if roundUp (va + len) > utop then
    Entry.stop
  else
    regionAllocFrom e
      (((roundUp (va + len)).toNat - (roundDown va).toNat) / pgSize)
      (roundDown va)

/-- The mappings that `load_icode` makes for the loadable segments of a binary
and for the stack. -/
def loadIcode (e : Nat) (entry : UInt32) : List (UInt32 × UInt32) → KernelM Unit
  | [] => do
      regionAlloc e (uStackTop - 4096) 4096
      Entry.modify fun kernel =>
        kernel.updateEnv e fun env =>
          { env with envTf := { env.envTf with tfEip := entry } }
  | (va, memsz) :: segments => do
      regionAlloc e va memsz
      loadIcode e entry segments

/-- `env_create`, which runs before any environment does. -/
def envCreate (cpu : Nat) (entry : UInt32) (segments : List (UInt32 × UInt32)) :
    KernelM Unit := do
  match ← envAlloc cpu 0 with
  | .error _ => Entry.stop
  | .ok e => loadIcode e entry segments

end FeaturesOS.Scheduler

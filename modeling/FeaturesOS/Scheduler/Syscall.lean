import FeaturesOS.Scheduler.Sched

/-!
# System calls

The functions of `kern/syscall.c` on the processor `cpu`.  A system call returns
its `int32_t` result as an integer.  `Surroundings` holds what a call takes from
outside of the modelled state.
-/

namespace FeaturesOS.Scheduler

/-- The character that `cons_getc` returns, and the word behind the pointer that
`sys_ipc_try_send` leaves uninitialised when the source page is not mapped;
`none` is a fault. -/
structure Surroundings where
  console : UInt32
  uninitialised : Option UInt32

/-- The current environment, which the caller dereferences. -/
def theCurenv (cpu : Nat) : KernelM Nat := do
  match ← Entry.read fun kernel => kernel.cpus cpu with
  | none => Entry.stop
  | some e => pure e

/-- `envid2env` for a caller that dereferences `env_store`. -/
def lookupEnv (cpu : Nat) (envid : UInt32) (checkperm : Bool) :
    KernelM (Except Int Nat) := do
  match ← Entry.read fun kernel => envid2env cpu envid checkperm kernel with
  | .error code => pure (.error code)
  | .ok none => Entry.stop
  | .ok (some e) => pure (.ok e)

/-- `page_lookup` in an environment: the page and the word of its entry.  The
outer `none` is a fault. -/
def Kernel.lookupPage (kernel : Kernel) (e : Nat) (va : UInt32) :
    Option (Option (Nat × UInt32)) :=
  (kernel.envs e).envPgdir.bind fun pgdir =>
    (kernel.mem.pageLookup pgdir va).map fun found =>
      found.map fun (page, pte) => (page, kernel.mem.load pte)

def lookupPage (e : Nat) (va : UInt32) : KernelM (Option (Nat × UInt32)) := do
  match ← Entry.read fun kernel => kernel.lookupPage e va with
  | none => Entry.stop
  | some found => pure found

/-- `user_mem_check`; `none` is a fault. -/
def Kernel.userMemCheck (kernel : Kernel) (e : Nat) (va len perm : UInt32) :
    Option Bool :=
  (kernel.envs e).envPgdir.bind fun pgdir =>
    kernel.mem.userMemCheck pgdir va len perm

/-- `check_perm` without an entry. -/
def checkPerm (perm : UInt32) : Int :=
  if perm &&& ~~~pteSyscall ≠ 0 then -eInval
  else if perm &&& pteP = 0 ∨ perm &&& pteU = 0 then -eInval
  else 0

/-- `page_insert` into the address space of an environment. -/
def insertPage (e page : Nat) (va perm : UInt32) : KernelM Int :=
  onPgdir e fun pgdir mem => mem.pageInsert pgdir page va perm

/-- `env_page_alloc`.  The new page is not freed when it cannot be mapped. -/
def envPageAlloc (e : Nat) (va perm : UInt32) : KernelM Int := do
  if checkPerm perm < 0 then
    pure (checkPerm perm)
  else do
    match ← onMem fun mem => some (mem.pageAlloc true) with
    | none => pure (-eNoMem)
    | some page => insertPage e page va perm

/-- `env_page_map`. -/
def envPageMap (src : Nat) (srcva : UInt32) (dst : Nat) (dstva perm : UInt32) :
    KernelM Int := do
  match ← lookupPage src srcva with
  | none => pure (-eInval)
  | some (page, srcpte) =>
      if perm &&& pteW &&& ~~~(pteW &&& srcpte) ≠ 0 then
        pure (-eInval)
      else
        insertPage dst page dstva perm

/-- `user_mem_assert`. -/
def userMemAssert (build : Build) (cpu e : Nat) (va len perm : UInt32) :
    KernelM Unit := do
  match ← Entry.read fun kernel =>
    kernel.userMemCheck e va len (perm ||| pteU) with
  | none => Entry.stop
  | some true => pure ()
  | some false => envDestroy build cpu e

/-- `sys_cputs`. -/
def sysCputs (build : Build) (cpu : Nat) (s len : UInt32) : KernelM Unit := do
  let current ← theCurenv cpu
  userMemAssert build cpu current s len (pteP ||| pteW ||| pteU)

/-- `sys_getenvid`. -/
def sysGetenvid (cpu : Nat) : KernelM Int := do
  let current ← theCurenv cpu
  Entry.read fun kernel => (kernel.envs current).envId.toInt32.toInt

/-- `sys_env_destroy`. -/
def sysEnvDestroy (build : Build) (cpu : Nat) (envid : UInt32) :
    KernelM Int := do
  match ← lookupEnv cpu envid true with
  | .error r => pure r
  | .ok e => do
      envDestroy build cpu e
      pure 0

/-- `sys_exofork`. -/
def sysExofork (cpu : Nat) : KernelM Int := do
  let current ← theCurenv cpu
  let parentId ← Entry.read fun kernel => (kernel.envs current).envId
  match ← envAlloc cpu parentId with
  | .error r => pure r
  | .ok newenv => do
      let tf ← Entry.read fun kernel => (kernel.envs current).envTf
      Entry.modify fun kernel =>
        kernel.updateEnv newenv fun env =>
          { env with envStatus := .notRunnable, envTf := tf.setEax 0 }
      Entry.read fun kernel => (kernel.envs newenv).envId.toInt32.toInt

/-- `sys_env_set_status`; `ENV_RUNNABLE` is 2 and `ENV_NOT_RUNNABLE` is 4. -/
def sysEnvSetStatus (cpu : Nat) (envid status : UInt32) : KernelM Int := do
  if status ≠ 2 ∧ status ≠ 4 then
    pure (-eInval)
  else do
    match ← lookupEnv cpu envid true with
    | .error r => pure r
    | .ok e => do
        Entry.modify fun kernel =>
          kernel.updateEnv e fun env =>
            { env with
              envStatus := if status = 2 then .runnable else .notRunnable }
        pure 0

/-- `sys_env_set_pgfault_upcall`. -/
def sysEnvSetPgfaultUpcall (build : Build) (cpu : Nat) (envid func : UInt32) :
    KernelM Int := do
  match ← lookupEnv cpu envid true with
  | .error r => pure r
  | .ok e => do
      userMemAssert build cpu e func 4096 (pteP ||| pteU)
      Entry.modify fun kernel =>
        kernel.updateEnv e fun env => { env with envPgfaultUpcall := func }
      pure 0

/-- An address of a user page: below `UTOP` and aligned. -/
def UserPage (va : UInt32) : Prop := va < utop ∧ va % 4096 = 0

instance (va : UInt32) : Decidable (UserPage va) :=
  inferInstanceAs (Decidable (_ ∧ _))

/-- `sys_page_alloc`. -/
def sysPageAlloc (cpu : Nat) (envid va perm : UInt32) : KernelM Int := do
  if ¬ UserPage va then
    pure (-eInval)
  else do
    match ← lookupEnv cpu envid true with
    | .error r => pure r
    | .ok e => envPageAlloc e va (perm ||| pteU ||| pteP)

/-- `sys_page_map`. -/
def sysPageMap (cpu : Nat) (srcenvid srcva dstenvid dstva perm : UInt32) :
    KernelM Int := do
  if ¬ UserPage srcva then
    pure (-eInval)
  else if ¬ UserPage dstva then
    pure (-eInval)
  else do
    match ← lookupEnv cpu srcenvid true with
    | .error r => pure r
    | .ok src => do
        match ← lookupEnv cpu dstenvid true with
        | .error r => pure r
        | .ok dst => envPageMap src srcva dst dstva (pteP ||| pteU ||| perm)

/-- `sys_page_unmap`. -/
def sysPageUnmap (cpu : Nat) (envid va : UInt32) : KernelM Int := do
  if ¬ UserPage va then
    pure (-eInval)
  else do
    match ← lookupEnv cpu envid true with
    | .error r => pure r
    | .ok e => do
        onPgdir e fun pgdir mem =>
          (mem.pageRemove pgdir va).map fun mem => (mem, ())
        pure 0

/-- The code of `sys_ipc_try_send` behind the label `bail`. -/
def ipcDeliver (current dst : Nat) (value : UInt32) : KernelM Int := do
  Entry.modify fun kernel =>
    kernel.updateEnv dst fun env =>
      { env with
        envIpcFrom := (kernel.envs current).envId
        envIpcRecving := false
        envIpcValue := value
        envTf := env.envTf.setEax 0
        envStatus := .runnable }
  pure 0

/-- The transfer of a page in `sys_ipc_try_send`, when the receiver has given an
address for it; the result is negative on an error. -/
def ipcTransfer (current : Nat) (srcva : UInt32) (dst : Nat) (perm : UInt32) :
    KernelM Int := do
  let dstva ← Entry.read fun kernel => (kernel.envs dst).envIpcDstva
  if dstva = 0 then
    pure 0
  else do
    let r ← envPageAlloc dst dstva perm
    if r < 0 then
      pure r
    else do
      let r ← envPageMap current srcva dst dstva perm
      if r < 0 then
        pure r
      else do
        Entry.modify fun kernel =>
          kernel.updateEnv dst fun env => { env with envIpcPerm := perm }
        pure 0

/-- The word that `*srcpte` reads in `sys_ipc_try_send`. -/
def Kernel.sourceWord (kernel : Kernel) (surroundings : Surroundings)
    (current : Nat) (srcva : UInt32) : Option UInt32 :=
  (kernel.lookupPage current srcva).bind fun found =>
    (found.map Prod.snd).or surroundings.uninitialised

/-- The two checks of `*srcpte` in `sys_ipc_try_send`. -/
def SrcpteRefused (srcpte perm : UInt32) : Prop :=
  srcpte ≠ 0 ∧ srcpte &&& pteP = 0 ∨ perm &&& pteW ≠ 0 ∧ srcpte &&& pteW = 0

instance (srcpte perm : UInt32) : Decidable (SrcpteRefused srcpte perm) :=
  inferInstanceAs (Decidable (_ ∨ _))

/-- `sys_ipc_try_send`. -/
def sysIpcTrySend (surroundings : Surroundings) (cpu : Nat)
    (envid value srcva perm : UInt32) : KernelM Int := do
  match ← lookupEnv cpu envid false with
  | .error r => pure r
  | .ok dst => do
      let current ← theCurenv cpu
      if ¬ (← Entry.read fun kernel => (kernel.envs dst).envIpcRecving) then
        pure (-eIpcNotRecv)
      else if srcva ≥ utop then do
        Entry.modify fun kernel =>
          kernel.updateEnv dst fun env => { env with envIpcPerm := 0 }
        ipcDeliver current dst value
      else if srcva % 4096 ≠ 0 then
        pure (-eInval)
      else do
        match ← Entry.read fun kernel =>
          kernel.sourceWord surroundings current srcva with
        | none => Entry.stop
        | some srcpte =>
            if SrcpteRefused srcpte perm then
              pure (-eInval)
            else do
              let r ← ipcTransfer current srcva dst (perm ||| pteU ||| pteP)
              if r < 0 then pure r else ipcDeliver current dst value

/-- `sys_ipc_recv`. -/
def sysIpcRecv (build : Build) (cpu : Nat) (dstva : UInt32) : KernelM Int := do
  let current ← theCurenv cpu
  Entry.modify fun kernel =>
    kernel.updateEnv current fun env => { env with envIpcRecving := true }
  if ¬ UserPage dstva then
    pure (-eInval)
  else do
    Entry.modify fun kernel =>
      kernel.updateEnv current fun env =>
        { env with envIpcDstva := dstva, envStatus := .notRunnable }
    schedYield build cpu

/-- `sys_env_obtener_prioridad`. -/
def sysEnvObtenerPrioridad (cpu : Nat) (envid : UInt32) : KernelM Int := do
  match ← lookupEnv cpu envid false with
  | .error r => pure r
  | .ok e => Entry.read fun kernel => (kernel.envs e).colaActual

/-- `sys_env_asignar_prioridad`. -/
def sysEnvAsignarPrioridad (cpu : Nat) (envid : UInt32) (prioridad : Int) :
    KernelM Int := do
  if prioridad < 0 ∨ prioridad > 3 then
    pure (-1)
  else do
    match ← lookupEnv cpu envid false with
    | .error _ => pure (-1)
    | .ok e => do
        let current ← theCurenv cpu
        let env ← Entry.read fun kernel => kernel.envs e
        let currentId ← Entry.read fun kernel => (kernel.envs current).envId
        if e ≠ current ∧ env.envParentId ≠ currentId then
          pure (-1)
        else if env.colaActual = prioridad then
          pure prioridad
        else if env.colaActual > prioridad then
          pure (-1)
        else do
          schedEliminarEnv env.envId
          schedAgregarEnv env.envId prioridad
          Entry.modify fun kernel =>
            kernel.updateEnv e fun env => { env with colaActual := prioridad }
          pure prioridad

/-- `syscall`. -/
def syscall (build : Build) (surroundings : Surroundings) (cpu : Nat)
    (syscallno a1 a2 a3 a4 a5 : UInt32) : KernelM Int := do
  match syscallno.toNat with
  | 0 => do
      sysCputs build cpu a1 a2
      pure 0
  | 1 => pure surroundings.console.toInt32.toInt
  | 2 => sysGetenvid cpu
  | 3 => sysEnvDestroy build cpu a1
  | 4 => sysPageAlloc cpu a1 a2 a3
  | 5 => sysPageMap cpu a1 a2 a3 a4 a5
  | 6 => sysPageUnmap cpu a1 a2
  | 7 => sysExofork cpu
  | 8 => sysEnvSetStatus cpu a1 a2
  | 9 => sysEnvSetPgfaultUpcall build cpu a1 a2
  | 10 => schedYield build cpu
  | 11 => sysIpcTrySend surroundings cpu a1 a2 a3 a4
  | 12 => sysIpcRecv build cpu a1
  | 13 => sysEnvObtenerPrioridad cpu a1
  | 14 => sysEnvAsignarPrioridad cpu a1 a2.toInt32.toInt
  | _ => pure (-eInval)

end FeaturesOS.Scheduler

import FeaturesOS.Interleaving
import FeaturesOS.Scheduler.PageCopies

/-!
# Copy-on-write `fork`

`fork` and `duppage` of `lib/fork.c`, and `set_pgfault_handler` of
`lib/pgfault.c`, as programs that read the windows `uvpd` and `uvpt` and call the
kernel.  Between two of these actions programs store to their memory, and the
accesses that fault run `pgfault`.
-/

namespace FeaturesOS.Scheduler

open Entry

/-- `uvpd`. -/
def uvpd : UInt32 := uvpt + (uvpt >>> 12) * 4

inductive ForkAction where
  /-- `uvpd[pnum >> 10]` -/
  | uvpd (pnum : Nat)
  /-- `uvpt[pnum]` -/
  | uvpt (pnum : Nat)
  /-- `thisenv->env_pgfault_upcall` -/
  | pgfaultUpcall
  | sysPageAlloc (envid va perm : UInt32)
  | sysPageMap (srcenvid srcva dstenvid dstva perm : UInt32)
  | sysEnvSetPgfaultUpcall (envid func : UInt32)
  | sysExofork
  | sysEnvSetStatus (envid status : UInt32)
  | panic (message : String) (arguments : List Int)
deriving DecidableEq

/-- What an action returns; a panic does not return. -/
abbrev ForkAction.Value : ForkAction → Type
  | .uvpd _ | .uvpt _ | .pgfaultUpcall => UInt32
  | .sysPageAlloc _ _ _ | .sysPageMap _ _ _ _ _ | .sysEnvSetPgfaultUpcall _ _
  | .sysExofork | .sysEnvSetStatus _ _ => Int
  | .panic _ _ => Empty

abbrev ForkM (Result : Type) := Routine ForkAction ForkAction.Value Result

def request (action : ForkAction) : ForkM action.Value :=
  Routine.request action

def panics {Result : Type} (message : String) (arguments : List Int) :
    ForkM Result := do
  let never : Empty ← request (.panic message arguments)
  never.elim

/-- The flags of a page that is shared, with those of a page for devices. -/
def sharedPerm (pte : UInt32) : UInt32 :=
  if pte &&& (ptePcd ||| ptePwt) ≠ 0 then
    (pteU ||| pteP) ||| (ptePcd ||| ptePwt)
  else
    pteU ||| pteP

/-- The mappings of a page that one of the two may still write to. -/
def shareCow (envid addr perm : UInt32) : ForkM Int := do
  let r : Int ← request (.sysPageMap 0 addr envid addr (perm ||| pteCow))
  if r < 0 then
    panics "duppage: sys_page_map on childern COW: %e" [r]
  else do
    let r : Int ← request (.sysPageMap 0 addr 0 addr (perm ||| pteCow))
    if r < 0 then
      panics "duppage: sys_page_map on parent COW: %e" [r]
    else
      pure 0

/-- The mapping of a page that nobody may write to. -/
def shareReadOnly (envid addr perm : UInt32) : ForkM Int := do
  let r : Int ← request (.sysPageMap 0 addr envid addr perm)
  if r < 0 then
    panics "duppage: sys_page_map on childern RO: %e" [r]
  else
    pure 0

/-- `duppage`. -/
def duppage (envid : UInt32) (pn : Nat) : ForkM Int := do
  let addr := PhysMem.pageVa pn
  let pte : UInt32 ← request (.uvpt pn)
  if pte &&& pteP = 0 ∨ pte &&& pteU = 0 then
    panics "duppage: copy a non-present or non-user page" []
  else if pte &&& pteW ≠ 0 ∨ pte &&& pteCow ≠ 0 then
    shareCow envid addr (sharedPerm pte)
  else
    shareReadOnly envid addr (sharedPerm pte)

/-- The loop of `fork` over `count` pages from `pnum` on. -/
def duppages (envid : UInt32) : (count pnum : Nat) → ForkM Unit
  | 0, _ => pure ()
  | count + 1, pnum => do
      if pnum = uxStackTop.toNat / pgSize - 1 then
        duppages envid count (pnum + 1)
      else do
        let pde : UInt32 ← request (.uvpd pnum)
        if pde &&& pteP = 0 ∨ pde &&& pteU = 0 then
          duppages envid count (pnum + 1)
        else do
          let pte : UInt32 ← request (.uvpt pnum)
          if pte &&& pteP = 0 ∨ pte &&& pteU = 0 then
            duppages envid count (pnum + 1)
          else do
            let _ ← duppage envid pnum
            duppages envid count (pnum + 1)

/-- `set_pgfault_handler`, with the value of `_pgfault_handler` and the address
`_pgfault_upcall`.  Its last assignment is a store of the program. -/
def setPgfaultHandler (pgfaultHandler upcall : UInt32) : ForkM Unit := do
  if pgfaultHandler = 0 then do
    let exstk := uxStackTop - 4096
    let r : Int ← request (.sysPageAlloc 0 exstk (pteU ||| pteP ||| pteW))
    if r < 0 then
      pure ()
    else do
      let _ : Int ← request (.sysEnvSetPgfaultUpcall 0 upcall)
      pure ()
  else
    pure ()

/-- The part of `fork` behind the loop. -/
def startChild (child : Int) : ForkM Int := do
  let envid := (Int32.ofInt child).toUInt32
  let exstk := uxStackTop - 4096
  let r : Int ← request (.sysPageAlloc envid exstk (pteU ||| pteP ||| pteW))
  if r < 0 then
    panics "fork: sys_page_alloc of exception stk: %e" [r]
  else do
    let upcall : UInt32 ← request .pgfaultUpcall
    let r : Int ← request (.sysEnvSetPgfaultUpcall envid upcall)
    if r < 0 then
      panics "fork: sys_env_set_pgfault_upcall on childern: %e" [r]
    else do
      let r : Int ← request (.sysEnvSetStatus envid 2)
      if r < 0 then
        panics "sys_env_set_status: %e" [r]
      else
        pure child

/-- The part of `fork` behind `sys_exofork` in the parent. -/
def forkInParent (child : Int) : ForkM Int := do
  duppages (Int32.ofInt child).toUInt32 (utop.toNat / pgSize) 0
  startChild child

/-- `fork`.  The child returns 0 behind a store to `thisenv`. -/
def fork (pgfaultHandler upcall : UInt32) : ForkM Int := do
  setPgfaultHandler pgfaultHandler upcall
  let envid : Int ← request .sysExofork
  if envid < 0 then
    panics "sys_exofork: %e" [envid]
  else if envid = 0 then
    pure 0
  else
    forkInParent envid

/-! ## The actions -/

/-- A word that a program reads; a fault does not return. -/
def readUser (e : Nat) (va : UInt32) : KernelM UInt32 := do
  match ← Entry.read fun kernel => kernel.readWord e va with
  | none => Entry.stop
  | some word => pure word

/-- An action of the environment `e` on the processor `cpu`. -/
def ForkAction.run (build : Build) (cpu e : Nat) :
    (action : ForkAction) → KernelM action.Value
  | .uvpd pnum => readUser e (Scheduler.uvpd + UInt32.ofNat (pnum / 1024 * 4))
  | .uvpt pnum => readUser e (Scheduler.uvpt + UInt32.ofNat (pnum * 4))
  | .pgfaultUpcall =>
      Entry.read fun kernel => (kernel.envs e).envPgfaultUpcall
  | .sysPageAlloc envid va perm => Scheduler.sysPageAlloc cpu envid va perm
  | .sysPageMap srcenvid srcva dstenvid dstva perm =>
      Scheduler.sysPageMap cpu srcenvid srcva dstenvid dstva perm
  | .sysEnvSetPgfaultUpcall envid func =>
      Scheduler.sysEnvSetPgfaultUpcall build cpu envid func
  | .sysExofork => Scheduler.sysExofork cpu
  | .sysEnvSetStatus envid status =>
      Scheduler.sysEnvSetStatus cpu envid status
  | .panic _ _ => Entry.stop

/-! ## What happens in between -/

/-- A program stores a byte to its memory, an access of a program faults and
`pgfault` runs, or the kernel does something that concerns neither the memory nor
the address spaces. -/
inductive UserEvent where
  | store (e : Nat) (va : UInt32) (byte : UInt8)
  | fault (cpu e : Nat) (va err : UInt32)
  | elsewhere

/-- The right that the access of a fault has asked for. -/
def faultWrites (err : UInt32) : Bool := err &&& fecWr ≠ 0

/-- No program may write above `UTOP`.  A handler may end in any way. -/
inductive UserEvent.Goes (kernel : Kernel) : UserEvent → Kernel → Prop where
  | store {e d : Nat} {va : UInt32} {byte : UInt8} {place : PhysMem.Place} :
      (kernel.envs e).envPgdir = some d → va < utop →
      kernel.mem.translate d true va = some place →
      Goes kernel (.store e va byte)
        (kernel.setMem (kernel.mem.setByteAt place byte))
  | fault {cpu e d : Nat} {va err : UInt32} {handled : Handled}
      {next : Kernel} :
      kernel.cpus cpu = some e → (kernel.envs e).envPgdir = some d →
      kernel.mem.translate d (faultWrites err) va = none →
      pgfault cpu e va err kernel = .returns handled next →
      Goes kernel (.fault cpu e va err) next
  | elsewhere {next : Kernel} :
      next.spaces = kernel.spaces → Goes kernel .elsewhere next

/-- `fork` in the environment `parent`, among the accesses of all programs. -/
def forking (build : Build) (parent : Nat) :
    Interleaving Kernel ForkAction ForkAction.Value UserEvent where
  Performs action kernel value next := ∃ cpu,
    kernel.cpus cpu = some parent ∧
      action.run build cpu parent kernel = .returns value next
  Interferes kernel event next := event.Goes kernel next

end FeaturesOS.Scheduler

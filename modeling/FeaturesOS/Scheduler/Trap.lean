import FeaturesOS.Machine
import FeaturesOS.Scheduler.Syscall

/-!
# Traps

The functions of `kern/trap.c`, and the kernel of a machine with any number of
processors.  The big kernel lock makes every trap one step.
-/

namespace FeaturesOS.Scheduler

/-- `sizeof (struct UTrapframe)`. -/
def uTrapframeSize : UInt32 := 52

/-- The words of `struct UTrapframe`. -/
def uTrapframe (frame : Trapframe) (faultVa : UInt32) : List UInt32 :=
  [faultVa, frame.tfErr, frame.tfRegs.regEdi, frame.tfRegs.regEsi,
    frame.tfRegs.regEbp, frame.tfRegs.regOesp, frame.tfRegs.regEbx,
    frame.tfRegs.regEdx, frame.tfRegs.regEcx, frame.tfRegs.regEax,
    frame.tfEip, frame.tfEflags, frame.tfEsp]

/-- Store words from `va` on in the current address space; a fault in the kernel
is a panic. -/
def storeWords (e : Nat) (va : UInt32) (words : List UInt32) : KernelM Unit :=
  onPgdir e fun pgdir mem =>
    (PhysMem.storeBytes pgdir mem va (PhysMem.wordBytes words)).map fun mem =>
      (mem, ())

/-- `page_fault_handler` for a fault in user mode. -/
def pageFaultHandler (build : Build) (cpu : Nat) (frame : Trapframe)
    (faultVa : UInt32) : KernelM Unit := do
  let current ← theCurenv cpu
  let upcall ← Entry.read fun kernel => (kernel.envs current).envPgfaultUpcall
  if upcall ≠ 0 then do
    let exstk := uxStackTop - 4096
    let exstkTop := uxStackTop - 1
    userMemAssert build cpu current exstk 4096 (pteU ||| pteW)
    let outside := frame.tfEsp < exstk ∨ frame.tfEsp > exstkTop
    let tmp :=
      if outside then exstkTop - uTrapframeSize
      else frame.tfEsp - 4 - uTrapframeSize
    storeWords current (frame.tfEsp - 4) (if outside then [] else [0])
    storeWords current tmp (uTrapframe frame faultVa)
    if tmp < exstk ∨ tmp > exstkTop then
      Entry.stop
    else do
      Entry.modify fun kernel =>
        kernel.updateEnv current fun env =>
          { env with envTf := { env.envTf with tfEsp := tmp, tfEip := upcall } }
      envRun cpu current
  else
    envDestroy build cpu current

/-- `trap_dispatch` for a trap from user mode. -/
def trapDispatch (build : Build) (surroundings : Surroundings) (cpu : Nat)
    (frame : Trapframe) (faultVa : UInt32) : KernelM Unit := do
  match frame.tfTrapno.toNat with
  | 3 => pure ()
  | 14 => pageFaultHandler build cpu frame faultVa
  | 48 => do
      let current ← theCurenv cpu
      let result ← syscall build surroundings cpu frame.tfRegs.regEax
        frame.tfRegs.regEdx frame.tfRegs.regEcx frame.tfRegs.regEbx
        frame.tfRegs.regEdi frame.tfRegs.regEsi
      Entry.modify fun kernel =>
        kernel.updateEnv current fun env =>
          { env with
            envTf := env.envTf.setEax (Int32.ofInt result).toUInt32 }
  | 39 => pure ()
  | 32 => schedYield build cpu
  | _ => do
      let current ← theCurenv cpu
      envDestroy build cpu current

/-- `trap` from user mode. -/
def trap (build : Build) (surroundings : Surroundings) (cpu : Nat)
    (frame : Trapframe) (faultVa : UInt32) : KernelM Unit := do
  let current ← theCurenv cpu
  if (← Entry.read fun kernel => (kernel.envs current).envStatus) = .dying then
    do
      envFree current
      Entry.modify fun kernel => kernel.setCurenv cpu none
      schedYield build cpu
  else do
    Entry.modify fun kernel =>
      kernel.updateEnv current fun env => { env with envTf := frame }
    trapDispatch build surroundings cpu frame faultVa
    match ← Entry.read fun kernel => kernel.curenvRunning cpu with
    | some current => envRun cpu current
    | none => schedYield build cpu

/-- What happens on one processor: a trap of the environment that it runs, or,
when it runs none, an interrupt that wakes it. -/
inductive TrapEvent where
  | user (cpu : Nat) (surroundings : Surroundings) (frame : Trapframe)
      (faultVa : UInt32)
  | wake (cpu : Nat)

def TrapEvent.cpu : TrapEvent → Nat
  | .user cpu _ _ _ | .wake cpu => cpu

/-- The kernel code that an event runs. -/
def TrapEvent.entry (build : Build) : TrapEvent → KernelM Unit
  | .user cpu surroundings frame faultVa =>
      trap build surroundings cpu frame faultVa
  | .wake cpu => schedYield build cpu

/-- A processor that runs an environment traps from user mode; the others are
halted and only wake up. -/
def TrapEvent.possible (kernel : Kernel) : TrapEvent → Prop
  | .user cpu _ _ _ => kernel.cpus cpu ≠ none
  | .wake cpu => kernel.cpus cpu = none

instance (kernel : Kernel) : DecidablePred (TrapEvent.possible kernel)
  | .user _ _ _ _ => inferInstanceAs (Decidable (_ ≠ _))
  | .wake _ => inferInstanceAs (Decidable (_ = _))

/-- The trap of a system call. -/
def TrapEvent.call (cpu : Nat) (syscallno a1 a2 a3 a4 a5 : UInt32) :
    TrapEvent :=
  .user cpu { console := 0, uninitialised := none }
    { Trapframe.zero with
      tfTrapno := 48
      tfRegs :=
        { Trapframe.zero.tfRegs with
          regEax := syscallno
          regEdx := a1
          regEcx := a2
          regEbx := a3
          regEdi := a4
          regEsi := a5 } }
    0

end FeaturesOS.Scheduler

import Mathlib.Algebra.Group.Int.Defs
import Mathlib.Algebra.GroupWithZero.Nat

/-!
# Addresses, page table entries and error codes

The constants of `inc/mmu.h`, `inc/memlayout.h`, `inc/env.h` and `inc/error.h`
that the kernel model uses.  A physical page is named by its number.
-/

namespace FeaturesOS.Scheduler

/-- `PGSIZE`. -/
def pgSize : Nat := 4096

/-- `NENV`. -/
def nenv : Nat := 1024

/-- `NPTENTRIES` and `NPDENTRIES`. -/
def nptEntries : Nat := 1024

/-- `UTOP`. -/
def utop : UInt32 := 0xEEC00000

/-- `UXSTACKTOP`. -/
def uxStackTop : UInt32 := utop

/-- `USTACKTOP`. -/
def uStackTop : UInt32 := 0xEEBFE000

/-- `UVPT`. -/
def uvpt : UInt32 := 0xEF400000

/-- `PFTEMP`. -/
def pfTemp : UInt32 := 0x7FF000

def pteP : UInt32 := 0x001
def pteW : UInt32 := 0x002
def pteU : UInt32 := 0x004
def ptePwt : UInt32 := 0x008
def ptePcd : UInt32 := 0x010

/-- `PTE_SYSCALL`. -/
def pteSyscall : UInt32 := 0xE07

/-- `PTE_COW`. -/
def pteCow : UInt32 := 0x800

/-- `PDX`. -/
def pdx (va : UInt32) : Nat := va.toNat / 2 ^ 22

/-- `PTX`. -/
def ptx (va : UInt32) : Nat := va.toNat / 2 ^ 12 % 1024

/-- `PGADDR` with the offset zero. -/
def pgAddr (directory table : Nat) : UInt32 :=
  UInt32.ofNat (directory * 2 ^ 22 + table * 2 ^ 12)

/-- `PDX (UTOP)`: the directory entries below it belong to the user. -/
@[irreducible] def userTables : Nat := 955

/-- `PGNUM (PTE_ADDR (pte))`. -/
def pteFrame (pte : UInt32) : Nat := pte.toNat / 4096

/-- `page2pa`. -/
def page2pa (page : Nat) : UInt32 := UInt32.ofNat (page * 4096)

/-- `ROUNDDOWN (va, PGSIZE)`. -/
def roundDown (va : UInt32) : UInt32 := va - va % 4096

/-- `ROUNDUP (va, PGSIZE)`. -/
def roundUp (va : UInt32) : UInt32 := roundDown (va + 4095)

/-- `ENVX`. -/
def envx (envid : UInt32) : Nat := envid.toNat % nenv

def eBadEnv : Int := 2
def eInval : Int := 3
def eNoMem : Int := 4
def eNoFreeEnv : Int := 5
def eIpcNotRecv : Int := 7

end FeaturesOS.Scheduler

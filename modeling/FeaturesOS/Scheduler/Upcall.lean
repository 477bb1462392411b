import FeaturesOS.Scheduler.PageFault

/-!
# `_pgfault_upcall`

The instructions of `lib/pfentry.S` on the registers and the memory of a program.
The upcall calls the handler in C and then goes back to where the fault was: it
puts the trap-time `eip` on the trap-time stack and leaves with `ret`.
-/

namespace FeaturesOS.Scheduler

open PhysMem

/-! ## The processor in user mode -/

/-- The registers of a program, without its segments. -/
structure Registers where
  edi : UInt32
  esi : UInt32
  ebp : UInt32
  ebx : UInt32
  edx : UInt32
  ecx : UInt32
  eax : UInt32
  esp : UInt32
  eip : UInt32
  eflags : UInt32
deriving DecidableEq

/-- The general registers. -/
inductive Reg where
  | edi | esi | ebp | ebx | edx | ecx | eax | esp

namespace Registers

def get (regs : Registers) : Reg → UInt32
  | .edi => regs.edi
  | .esi => regs.esi
  | .ebp => regs.ebp
  | .ebx => regs.ebx
  | .edx => regs.edx
  | .ecx => regs.ecx
  | .eax => regs.eax
  | .esp => regs.esp

def set (regs : Registers) (value : UInt32) : Reg → Registers
  | .edi => { regs with edi := value }
  | .esi => { regs with esi := value }
  | .ebp => { regs with ebp := value }
  | .ebx => { regs with ebx := value }
  | .edx => { regs with edx := value }
  | .ecx => { regs with ecx := value }
  | .eax => { regs with eax := value }
  | .esp => { regs with esp := value }

end Registers

/-- `FL_RF`. -/
def flRf : UInt32 := 0x10000

/-- The flags that an addition or a subtraction sets. -/
def statusFlags : UInt32 := 0x8D5

/-- The flags that `popfl` loads in user mode. -/
def userFlags : UInt32 := 0x244DD5

def flagIf (condition : Prop) [Decidable condition] (flag : UInt32) : UInt32 :=
  if condition then flag else 0

/-- The flags that depend on the result only: parity, zero and sign. -/
def resultFlags (result : UInt32) : UInt32 :=
  let ones := (List.range 8).filter fun i =>
    result >>> UInt32.ofNat i &&& 1 = 1
  flagIf (ones.length % 2 = 0) 0x4 ||| flagIf (result = 0) 0x40 |||
    (result >>> 24 &&& 0x80)

def addFlags (left right : UInt32) : UInt32 :=
  let result := left + right
  resultFlags result ||| flagIf (result < left) 0x1 |||
    ((left ^^^ right ^^^ result) &&& 0x10) |||
    (((left ^^^ result) &&& (right ^^^ result)) >>> (20 : UInt32) &&& 0x800)

def subFlags (left right : UInt32) : UInt32 :=
  let result := left - right
  resultFlags result ||| flagIf (left < right) 0x1 |||
    ((left ^^^ right ^^^ result) &&& 0x10) |||
    (((left ^^^ right) &&& (left ^^^ result)) >>> (20 : UInt32) &&& 0x800)

def Registers.setStatus (regs : Registers) (flags : UInt32) : Registers :=
  { regs with
    eflags := (regs.eflags &&& ~~~statusFlags) ||| (flags &&& statusFlags) }

/-- The registers and the memory of a program. -/
structure Thread where
  regs : Registers
  mem : PhysMem

/-- The instructions of `_pgfault_upcall`; `back` is the address behind a call. -/
inductive Instr where
  | pushl (source : Reg)
  | movlSymbol (address : UInt32) (target : Reg)
  | call (target : Reg) (back : UInt32)
  | addl (amount : UInt32) (target : Reg)
  | subl (amount : UInt32) (target : Reg)
  | movlFrom (offset : UInt32) (base target : Reg)
  | movlTo (source : Reg) (offset : UInt32) (base : Reg)
  | popl (target : Reg)
  | popal
  | popfl
  | ret

namespace Thread

def push (pgdir : Nat) (thread : Thread) (word : UInt32) : Option Thread := do
  let mem ← thread.mem.storeWord pgdir (thread.regs.esp - 4) word
  some ⟨{ thread.regs with esp := thread.regs.esp - 4 }, mem⟩

def pop (pgdir : Nat) (thread : Thread) : Option (UInt32 × Registers) := do
  let word ← thread.mem.loadWord pgdir thread.regs.esp
  some (word, { thread.regs with esp := thread.regs.esp + 4 })

end Thread

/-- One instruction; `none` is a page fault. -/
def Instr.exec (pgdir : Nat) (thread : Thread) : Instr → Option Thread
  | pushl source => thread.push pgdir (thread.regs.get source)
  | movlSymbol address target => do
      let word ← thread.mem.loadWord pgdir address
      some { thread with regs := thread.regs.set word target }
  | call target back => do
      let pushed ← thread.push pgdir back
      some { pushed with
        regs := { pushed.regs with eip := thread.regs.get target } }
  | addl amount target =>
      let value := thread.regs.get target
      some { thread with
        regs := (thread.regs.set (value + amount) target).setStatus
          (addFlags value amount) }
  | subl amount target =>
      let value := thread.regs.get target
      some { thread with
        regs := (thread.regs.set (value - amount) target).setStatus
          (subFlags value amount) }
  | movlFrom offset base target => do
      let word ← thread.mem.loadWord pgdir (thread.regs.get base + offset)
      some { thread with regs := thread.regs.set word target }
  | movlTo source offset base => do
      let mem ← thread.mem.storeWord pgdir (thread.regs.get base + offset)
        (thread.regs.get source)
      some { thread with mem := mem }
  | popl target => do
      let (word, regs) ← thread.pop pgdir
      some { thread with regs := regs.set word target }
  | popal => do
      let esp := thread.regs.esp
      let edi ← thread.mem.loadWord pgdir esp
      let esi ← thread.mem.loadWord pgdir (esp + 4)
      let ebp ← thread.mem.loadWord pgdir (esp + 8)
      let ebx ← thread.mem.loadWord pgdir (esp + 16)
      let edx ← thread.mem.loadWord pgdir (esp + 20)
      let ecx ← thread.mem.loadWord pgdir (esp + 24)
      let eax ← thread.mem.loadWord pgdir (esp + 28)
      some { thread with
        regs :=
          { thread.regs with
            edi := edi
            esi := esi
            ebp := ebp
            ebx := ebx
            edx := edx
            ecx := ecx
            eax := eax
            esp := esp + 32 } }
  | popfl => do
      let (word, regs) ← thread.pop pgdir
      some { thread with
        regs :=
          { regs with
            eflags := (regs.eflags &&& ~~~(userFlags ||| flRf)) |||
              (word &&& userFlags) } }
  | ret => do
      let (word, regs) ← thread.pop pgdir
      some { thread with regs := { regs with eip := word } }

/-- Instructions one after the other. -/
def execAll (pgdir : Nat) : List Instr → Thread → Option Thread
  | [], thread => some thread
  | instr :: instrs, thread => do
      let next ← instr.exec pgdir thread
      execAll pgdir instrs next

/-- `_pgfault_upcall` up to its call; its three instructions take eight bytes. -/
def upcallEntry (upcall handlerSymbol : UInt32) : List Instr :=
  [.pushl .esp, .movlSymbol handlerSymbol .eax, .call .eax (upcall + 8)]

/-- `_pgfault_upcall` from the return of the handler on, until the trap-time `eip`
is on the trap-time stack. -/
def upcallReturn : List Instr :=
  [.addl 4 .esp, .movlFrom 40 .esp .eax, .movlFrom 48 .esp .ebx, .subl 4 .ebx,
    .movlTo .eax 0 .ebx, .movlTo .ebx 48 .esp]

/-- The rest of `_pgfault_upcall`, which restores the trap-time registers. -/
def upcallRestore : List Instr :=
  [.popl .eax, .popl .eax, .popal, .addl 4 .esp, .popfl, .popl .esp, .ret]

variable {pgdir : Nat} {thread next : Thread} {mem : PhysMem}
variable {frame : Trapframe} {faultVa base : UInt32}

theorem execAll_append (first second : List Instr) (thread : Thread) :
    execAll pgdir (first ++ second) thread =
      (execAll pgdir first thread).bind (execAll pgdir second) := by
  induction first generalizing thread with
  | nil => rfl
  | cons instr rest induction =>
      rw [List.cons_append, execAll, execAll]
      cases instr.exec pgdir thread with
      | none => rfl
      | some next => exact induction next

/-! ## Restoring -/

/-- The registers that a frame holds, with the flags that user mode may not
change. -/
def restored (frame : Trapframe) (eflags : UInt32) : Registers :=
  { edi := frame.tfRegs.regEdi
    esi := frame.tfRegs.regEsi
    ebp := frame.tfRegs.regEbp
    ebx := frame.tfRegs.regEbx
    edx := frame.tfRegs.regEdx
    ecx := frame.tfRegs.regEcx
    eax := frame.tfRegs.regEax
    esp := frame.tfEsp
    eip := frame.tfEip
    eflags := (eflags &&& ~~~(userFlags ||| flRf)) |||
      (frame.tfEflags &&& userFlags) }

/-! ### Flags -/

/-- Bits that neither mask has are kept. -/
theorem masked_and {left right mask loaded kept : UInt32}
    (apart : mask &&& kept = 0) (apart' : loaded &&& kept = 0) :
    ((left &&& ~~~mask) ||| (right &&& loaded)) &&& kept = left &&& kept := by
  apply UInt32.toBitVec_inj.mp
  apply BitVec.eq_of_getLsbD_eq
  intro i below
  have zero : (0 : UInt32).toBitVec.getLsbD i = false := by simp
  have bit := congrArg (fun word : UInt32 => word.toBitVec.getLsbD i) apart
  have bit' := congrArg (fun word : UInt32 => word.toBitVec.getLsbD i) apart'
  simp only [UInt32.toBitVec_and, BitVec.getLsbD_and, zero] at bit bit'
  simp only [UInt32.toBitVec_or, UInt32.toBitVec_and, UInt32.toBitVec_not,
    BitVec.getLsbD_or, BitVec.getLsbD_and, BitVec.getLsbD_not, below,
    decide_true, Bool.true_and]
  revert bit bit'
  generalize left.toBitVec.getLsbD i = l, right.toBitVec.getLsbD i = r,
    mask.toBitVec.getLsbD i = m, loaded.toBitVec.getLsbD i = m',
    kept.toBitVec.getLsbD i = k
  revert l r m m' k
  decide

/-- The flags behind `popfl`, when the others already were those of the word. -/
theorem popped_flags {now word mask rf : UInt32}
    (same : now &&& ~~~(mask ||| rf) = word &&& ~~~(mask ||| rf)) :
    ((now &&& ~~~(mask ||| rf)) ||| (word &&& mask)) &&& ~~~rf =
      word &&& ~~~rf := by
  rw [same]
  apply UInt32.toBitVec_inj.mp
  apply BitVec.eq_of_getLsbD_eq
  intro i below
  simp only [UInt32.toBitVec_or, UInt32.toBitVec_and, UInt32.toBitVec_not,
    BitVec.getLsbD_or, BitVec.getLsbD_and, BitVec.getLsbD_not, below,
    decide_true, Bool.true_and]
  generalize word.toBitVec.getLsbD i = w, mask.toBitVec.getLsbD i = m,
    rf.toBitVec.getLsbD i = r
  revert w m r
  decide

/-- The flags that a program cannot change. -/
def systemFlags (eflags : UInt32) : UInt32 :=
  eflags &&& ~~~(userFlags ||| flRf)

theorem systemFlags_setStatus (regs : Registers) (flags : UInt32) :
    systemFlags (regs.setStatus flags).eflags = systemFlags regs.eflags :=
  masked_and (by decide) (by decide)

/-! ### The instructions -/

theorem systemFlags_restored (frame : Trapframe) (eflags : UInt32) :
    systemFlags (restored frame eflags).eflags = systemFlags eflags :=
  masked_and (by decide) (by decide)

theorem execAll_upcallRestore {eip : UInt32}
    (holds : thread.mem.Holds pgdir thread.regs.esp
      (wordBytes ((uTrapframe frame faultVa).take 12)))
    (switched : thread.mem.loadWord pgdir (thread.regs.esp + 48) =
      some (frame.tfEsp - 4))
    (pushed : thread.mem.loadWord pgdir (frame.tfEsp - 4) = some eip) :
    execAll pgdir upcallRestore thread =
      some ⟨{ restored frame (thread.regs.setStatus
        (addFlags (thread.regs.esp + 40) 4)).eflags with eip := eip },
        thread.mem⟩ := by
  have word : ∀ i (below : i < ((uTrapframe frame faultVa).take 12).length),
      thread.mem.loadWord pgdir (thread.regs.esp + UInt32.ofNat (4 * i)) =
        some ((uTrapframe frame faultVa).take 12)[i] := fun i below =>
    loadWord_of_holds holds i below
  have faultVa : thread.mem.loadWord pgdir thread.regs.esp = some faultVa :=
    loadWord_of_holds_one holds.front
  have err : thread.mem.loadWord pgdir (thread.regs.esp + 4) =
      some frame.tfErr := word 1 (Nat.le_of_ble_eq_true rfl)
  have edi : thread.mem.loadWord pgdir (thread.regs.esp + 8) =
      some frame.tfRegs.regEdi := word 2 (Nat.le_of_ble_eq_true rfl)
  have esi : thread.mem.loadWord pgdir (thread.regs.esp + 12) =
      some frame.tfRegs.regEsi := word 3 (Nat.le_of_ble_eq_true rfl)
  have ebp : thread.mem.loadWord pgdir (thread.regs.esp + 16) =
      some frame.tfRegs.regEbp := word 4 (Nat.le_of_ble_eq_true rfl)
  have ebx : thread.mem.loadWord pgdir (thread.regs.esp + 24) =
      some frame.tfRegs.regEbx := word 6 (Nat.le_of_ble_eq_true rfl)
  have edx : thread.mem.loadWord pgdir (thread.regs.esp + 28) =
      some frame.tfRegs.regEdx := word 7 (Nat.le_of_ble_eq_true rfl)
  have ecx : thread.mem.loadWord pgdir (thread.regs.esp + 32) =
      some frame.tfRegs.regEcx := word 8 (Nat.le_of_ble_eq_true rfl)
  have eax : thread.mem.loadWord pgdir (thread.regs.esp + 36) =
      some frame.tfRegs.regEax := word 9 (Nat.le_of_ble_eq_true rfl)
  have eflags : thread.mem.loadWord pgdir (thread.regs.esp + 44) =
      some frame.tfEflags := word 11 (Nat.le_of_ble_eq_true rfl)
  simp only [upcallRestore, execAll, Instr.exec, Thread.pop, faultVa, err, edi,
    esi, ebp, ebx, edx, ecx, eax, eflags, switched, pushed, Registers.get,
    Registers.set, Registers.setStatus, restored, Option.bind_eq_bind,
    Option.bind_some, UInt32.add_assoc, UInt32.reduceAdd, UInt32.sub_add_cancel]

/-- The upcall has put the trap-time `eip` on the trap-time stack. -/
structure Switched (pgdir : Nat) (frame : Trapframe) (faultVa base : UInt32)
    (thread next : Thread) : Prop where
  esp : next.regs.esp = base
  eflags : systemFlags next.regs.eflags = systemFlags thread.regs.eflags
  tables : SameTables pgdir thread.mem next.mem
  holds : next.mem.Holds pgdir base
    (wordBytes ((uTrapframe frame faultVa).take 12))
  switched : next.mem.loadWord pgdir (base + 48) = some (frame.tfEsp - 4)
  pushed : next.mem.loadWord pgdir (frame.tfEsp - 4) = some frame.tfEip
  others : ∀ place, next.mem.byteAt place ≠ thread.mem.byteAt place →
    thread.mem.InWord pgdir (frame.tfEsp - 4) place ∨
      thread.mem.InWord pgdir (base + 48) place

theorem PhysMem.Wrote.inWord {word va : UInt32} {mem next : PhysMem}
    {place : Place} (wrote : Wrote pgdir va (wordBytes [word]) mem next)
    (changed : next.byteAt place ≠ mem.byteAt place) :
    mem.InWord pgdir va place := by
  by_contra outside
  exact changed (wrote.others place fun k below found =>
    outside ⟨k, below, found⟩)

/-- The registers behind `upcallReturn`. -/
def Registers.switched (regs : Registers) (base eip esp : UInt32) :
    Registers :=
  { regs with
    esp := base
    eax := eip
    ebx := esp - 4
    eflags := ((regs.setStatus (addFlags regs.esp 4)).setStatus
      (subFlags esp 4)).eflags }

theorem execAll_upcallReturn_of_stores {eip esp : UInt32}
    {first second : PhysMem} (isBase : thread.regs.esp + 4 = base)
    (loadsEip : thread.mem.loadWord pgdir (base + 40) = some eip)
    (loadsEsp : thread.mem.loadWord pgdir (base + 48) = some esp)
    (storesEip : thread.mem.storeWord pgdir (esp - 4) eip = some first)
    (storesEsp : first.storeWord pgdir (base + 48) (esp - 4) = some second) :
    execAll pgdir upcallReturn thread =
      some ⟨thread.regs.switched base eip esp, second⟩ := by
  simp only [upcallReturn, execAll, Instr.exec, Registers.get, Registers.set,
    Registers.setStatus, Registers.switched, isBase, loadsEip, loadsEsp,
    Option.bind_eq_bind, Option.bind_some, UInt32.add_zero, storesEip,
    storesEsp]

theorem execAll_upcallReturn (apart : thread.mem.TablesApart pgdir)
    (mapped : thread.mem.ExstkMapped pgdir) (isBase : thread.regs.esp + 4 = base)
    (low : 4005556224 ≤ base.toNat) (high : base.toNat + 52 ≤ 4005560320)
    (holds : thread.mem.Holds pgdir base
      (wordBytes (uTrapframe frame faultVa)))
    (writable : thread.mem.Writable pgdir (frame.tfEsp - 4) 4)
    (disjoint : thread.mem.Disjoint pgdir (frame.tfEsp - 4) base 52) :
    ∃ next, execAll pgdir upcallReturn thread = some next ∧
      Switched pgdir frame faultVa base thread next := by
  have eip : thread.mem.loadWord pgdir (base + 40) = some frame.tfEip :=
    loadWord_of_holds holds 10 (Nat.le_of_ble_eq_true rfl)
  have esp : thread.mem.loadWord pgdir (base + 48) = some frame.tfEsp :=
    loadWord_of_holds holds 12 (Nat.le_of_ble_eq_true rfl)
  have address : (base + 48).toNat = base.toNat + 48 := by
    rw [UInt32.toNat_add, show (48 : UInt32).toNat = 48 from rfl]
    omega
  obtain ⟨first, storesEip, wroteEip⟩ :=
    storeWord_wrote frame.tfEip apart writable
  have slot : first.Writable pgdir (base + 48) 4 :=
    (wroteEip.tables.exstkMapped mapped).part (by omega) (by omega)
  obtain ⟨second, storesEsp, wroteEsp⟩ :=
    storeWord_wrote (frame.tfEsp - 4) (wroteEip.tables.tablesApart apart) slot
  have length := length_uTrapframe frame faultVa
  have stillHolds : first.Holds pgdir base
      (wordBytes ((uTrapframe frame faultVa).take 12) ++
        wordBytes [frame.tfEsp]) := by
    have same := wroteEip.holds_same (by rwa [length]) holds
    exact same
  have apartFrame : first.Disjoint pgdir (base + 48) base
      (wordBytes ((uTrapframe frame faultVa).take 12)).length := by
    apply disjoint_of_offsets
    intro k below j inside
    have short : j < 48 := inside
    rw [address]
    omega
  have apartWord : first.Disjoint pgdir (base + 48) (frame.tfEsp - 4)
      (wordBytes [frame.tfEip]).length := by
    intro k below j inside place found clash
    have short : j < 4 := inside
    have slotAddress : base + 48 + UInt32.ofNat k =
        base + UInt32.ofNat (48 + k) := by
      rw [UInt32.ofNat_add, ← UInt32.add_assoc]
      rfl
    rw [wroteEip.tables.translate] at found clash
    obtain ⟨there, stores⟩ := Option.isSome_iff_exists.mp (writable j short)
    rw [translate_of_writes stores] at found
    cases found
    rw [slotAddress] at clash
    exact disjoint j short (48 + k) (by omega) place
      (translate_of_writes clash) stores
  have pushed : first.Holds pgdir (frame.tfEsp - 4)
      (wordBytes [frame.tfEip]) := wroteEip.holds writable
  refine ⟨⟨thread.regs.switched base frame.tfEip frame.tfEsp, second⟩, ?_, ?_⟩
  · exact execAll_upcallReturn_of_stores isBase eip esp storesEip storesEsp
  · exact
      { esp := rfl
        eflags := by
          change systemFlags ((thread.regs.setStatus _).setStatus _).eflags = _
          rw [systemFlags_setStatus, systemFlags_setStatus]
        tables := wroteEip.tables.trans wroteEsp.tables
        holds := wroteEsp.holds_same apartFrame stillHolds.front
        switched := wroteEsp.loadWord slot
        pushed := loadWord_of_holds_one
          (wroteEsp.holds_same apartWord pushed)
        others := by
          intro place changed
          by_cases same : second.byteAt place = first.byteAt place
          · left
            refine wroteEip.inWord (fun still => changed ?_)
            exact same.trans still
          · right
            obtain ⟨k, below, found⟩ := wroteEsp.inWord same
            rw [wroteEip.tables.translate] at found
            exact ⟨k, below, found⟩ }

/-! ## Entering the handler -/

/-- A word that is pushed on the exception stack. -/
theorem push_exstk (apart : thread.mem.TablesApart pgdir)
    (mapped : thread.mem.ExstkMapped pgdir)
    (low : 4005556228 ≤ thread.regs.esp.toNat)
    (high : thread.regs.esp.toNat ≤ 4005560320) (word : UInt32) :
    ∃ mem, thread.push pgdir word =
        some ⟨{ thread.regs with esp := thread.regs.esp - 4 }, mem⟩ ∧
      Wrote pgdir (thread.regs.esp - 4) (wordBytes [word]) thread.mem mem := by
  have address : (thread.regs.esp - 4).toNat = thread.regs.esp.toNat - 4 := by
    rw [UInt32.toNat_sub, show (4 : UInt32).toNat = 4 from rfl]
    omega
  have writable : thread.mem.Writable pgdir (thread.regs.esp - 4) 4 :=
    mapped.part (by omega) (by omega)
  obtain ⟨mem, stores, wrote⟩ := storeWord_wrote word apart writable
  refine ⟨mem, ?_, wrote⟩
  unfold Thread.push
  rw [stores]
  rfl

theorem PhysMem.SameTables.loadWord_isSome {next : PhysMem} {va : UInt32}
    (same : SameTables pgdir mem next)
    (loads : (mem.loadWord pgdir va).isSome = true) :
    (next.loadWord pgdir va).isSome = true := by
  unfold PhysMem.loadWord PhysMem.loadByte at loads ⊢
  simp only [same.translate]
  revert loads
  cases mem.translate pgdir false va <;>
    cases mem.translate pgdir false (va + 1) <;>
    cases mem.translate pgdir false (va + 2) <;>
    cases mem.translate pgdir false (va + 3) <;> simp

/-- The handler in C has been called. -/
structure Entered (pgdir : Nat) (base : UInt32) (thread next : Thread) :
    Prop where
  esp : next.regs.esp = base - 8
  eflags : next.regs.eflags = thread.regs.eflags
  tables : SameTables pgdir thread.mem next.mem
  holds : ∀ bytes : List UInt8, bytes.length = 52 →
    thread.mem.Holds pgdir base bytes → next.mem.Holds pgdir base bytes
  others : ∀ place, next.mem.byteAt place ≠ thread.mem.byteAt place →
    thread.mem.InFrames pgdir base.toNat place

theorem execAll_upcallEntry {upcall handlerSymbol : UInt32}
    (apart : thread.mem.TablesApart pgdir)
    (mapped : thread.mem.ExstkMapped pgdir)
    (low : 4005556232 ≤ thread.regs.esp.toNat)
    (high : thread.regs.esp.toNat + 52 ≤ 4005560320)
    (loads : (thread.mem.loadWord pgdir handlerSymbol).isSome = true) :
    ∃ next, execAll pgdir (upcallEntry upcall handlerSymbol) thread =
        some next ∧
      Entered pgdir thread.regs.esp thread next := by
  obtain ⟨first, pushesUtf, wroteUtf⟩ :=
    push_exstk apart mapped (by omega) (by omega) thread.regs.esp
  have second : (thread.regs.esp - 4).toNat = thread.regs.esp.toNat - 4 := by
    rw [UInt32.toNat_sub, show (4 : UInt32).toNat = 4 from rfl]
    omega
  have third : (thread.regs.esp - 4 - 4).toNat =
      thread.regs.esp.toNat - 8 := by
    rw [UInt32.toNat_sub, show (4 : UInt32).toNat = 4 from rfl, second]
    omega
  obtain ⟨symbol, loaded⟩ := Option.isSome_iff_exists.mp
    (wroteUtf.tables.loadWord_isSome loads)
  let calling : Thread :=
    ⟨{ thread.regs with esp := thread.regs.esp - 4, eax := symbol }, first⟩
  obtain ⟨last, pushesBack, wroteBack⟩ : ∃ mem,
      calling.push pgdir (upcall + 8) =
        some ⟨{ calling.regs with esp := thread.regs.esp - 4 - 4 }, mem⟩ ∧
      Wrote pgdir (thread.regs.esp - 4 - 4) (wordBytes [upcall + 8]) first
        mem := by
    have below : 4005556228 ≤ (thread.regs.esp - 4).toNat := by omega
    have above : (thread.regs.esp - 4).toNat ≤ 4005560320 := by omega
    have frees : calling.mem.ExstkMapped pgdir :=
      wroteUtf.tables.exstkMapped mapped
    have tables : calling.mem.TablesApart pgdir :=
      wroteUtf.tables.tablesApart apart
    exact push_exstk tables frees below above (upcall + 8)
  refine ⟨⟨{ calling.regs with
    esp := thread.regs.esp - 4 - 4, eip := symbol }, last⟩, ?_, ?_⟩
  · simp only [upcallEntry, execAll, Instr.exec, Registers.get, pushesUtf,
      Option.bind_eq_bind, Option.bind_some, loaded, Registers.set]
    change ((calling.push pgdir (upcall + 8)).bind _).bind _ = _
    rw [pushesBack]
    rfl
  · exact
      { esp := by
          apply UInt32.toNat_inj.mp
          change (thread.regs.esp - 4 - 4).toNat = _
          rw [third, UInt32.toNat_sub, show (8 : UInt32).toNat = 8 from rfl]
          omega
        eflags := rfl
        tables := wroteUtf.tables.trans wroteBack.tables
        holds := by
          intro bytes length holds
          refine wroteBack.holds_same (disjoint_of_offsets ?_)
            (wroteUtf.holds_same (disjoint_of_offsets ?_) holds)
          · intro k below j inside
            rw [length] at inside
            rw [third]
            omega
          · intro k below j inside
            rw [length] at inside
            rw [second]
            omega
        others := by
          intro place changed
          have lengthUtf : (wordBytes [thread.regs.esp]).length = 4 := rfl
          have lengthBack : (wordBytes [upcall + 8]).length = 4 := rfl
          by_cases same : last.byteAt place = first.byteAt place
          · rw [show last.byteAt place = first.byteAt place from same]
              at changed
            exact wroteUtf.inFrames (by omega) (by omega) (by omega) changed
          · obtain ⟨va, inside, limited, found⟩ :
                first.InFrames pgdir thread.regs.esp.toNat place :=
              wroteBack.inFrames (by omega) (by omega) (by omega) same
            rw [wroteUtf.tables.translate] at found
            exact ⟨va, inside, limited, found⟩ }

theorem loads_of_upcallEntry {upcall handlerSymbol : UInt32}
    (apart : thread.mem.TablesApart pgdir)
    (mapped : thread.mem.ExstkMapped pgdir)
    (low : 4005556232 ≤ thread.regs.esp.toNat)
    (high : thread.regs.esp.toNat + 52 ≤ 4005560320)
    (enters : execAll pgdir (upcallEntry upcall handlerSymbol) thread =
      some next) :
    (thread.mem.loadWord pgdir handlerSymbol).isSome = true := by
  obtain ⟨first, pushes, wrote⟩ :=
    push_exstk apart mapped (by omega) (by omega) thread.regs.esp
  simp only [upcallEntry, execAll, Instr.exec, Registers.get, pushes,
    Option.bind_eq_bind, Option.bind_some] at enters
  cases loaded : first.loadWord pgdir handlerSymbol with
  | none =>
      rw [loaded] at enters
      cases enters
  | some symbol =>
      refine wrote.tables.symm.loadWord_isSome ?_
      rw [loaded]
      rfl

end FeaturesOS.Scheduler

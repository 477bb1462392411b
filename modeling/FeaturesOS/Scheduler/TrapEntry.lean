import FeaturesOS.Stack
import FeaturesOS.Scheduler.Upcall

/-!
# `trapentry.S` and `switch.S`

The way of the registers of a program through the kernel.  The processor, the
stub of the vector and `_alltraps` push them as a `struct Trapframe`, `trap`
copies that into `env_tf`, and `context_switch` pops them from there.  The kernel
stack and `envs[]` are mapped, so no access to them faults.
-/

namespace FeaturesOS.Scheduler

open LittleEndian

/-! ## `struct Trapframe` with its paddings -/

/-- The upper halves of the four stack slots that hold a segment register; what
the processor writes there is not defined. -/
structure Paddings where
  tfPadding1 : UInt16
  tfPadding2 : UInt16
  tfPadding3 : UInt16
  tfPadding4 : UInt16

/-- The fields of `struct Trapframe` in their order. -/
def Trapframe.fields (frame : Trapframe) (paddings : Paddings) :
    List (Nat × Nat) :=
  [(4, frame.tfRegs.regEdi.toNat), (4, frame.tfRegs.regEsi.toNat),
    (4, frame.tfRegs.regEbp.toNat), (4, frame.tfRegs.regOesp.toNat),
    (4, frame.tfRegs.regEbx.toNat), (4, frame.tfRegs.regEdx.toNat),
    (4, frame.tfRegs.regEcx.toNat), (4, frame.tfRegs.regEax.toNat),
    (2, frame.tfEs.toNat), (2, paddings.tfPadding1.toNat),
    (2, frame.tfDs.toNat), (2, paddings.tfPadding2.toNat),
    (4, frame.tfTrapno.toNat), (4, frame.tfErr.toNat), (4, frame.tfEip.toNat),
    (2, frame.tfCs.toNat), (2, paddings.tfPadding3.toNat),
    (4, frame.tfEflags.toNat), (4, frame.tfEsp.toNat),
    (2, frame.tfSs.toNat), (2, paddings.tfPadding4.toNat)]

/-- The widths of the fields of `struct Trapframe`. -/
def trapframeWidths : List Nat :=
  [4, 4, 4, 4, 4, 4, 4, 4, 2, 2, 2, 2, 4, 4, 4, 2, 2, 4, 4, 2, 2]

/-- `sizeof (struct Trapframe)`. -/
def trapframeSize : Nat := trapframeWidths.sum

/-- The bytes of a `struct Trapframe`. -/
def Trapframe.encode (frame : Trapframe) (paddings : Paddings) : List UInt8 :=
  encodeFields (frame.fields paddings)

/-- The `struct Trapframe` at an address. -/
def Trapframe.load (ram : Ram) (address : UInt32) : Trapframe × Paddings :=
  let fields := decodeFields trapframeWidths (ram.load address trapframeSize)
  let word index := UInt32.ofNat (fields.getD index 0)
  let half index := UInt16.ofNat (fields.getD index 0)
  ({ tfRegs :=
      { regEdi := word 0
        regEsi := word 1
        regEbp := word 2
        regOesp := word 3
        regEbx := word 4
        regEdx := word 5
        regEcx := word 6
        regEax := word 7 }
     tfEs := half 8
     tfDs := half 10
     tfTrapno := word 12
     tfErr := word 13
     tfEip := word 14
     tfCs := half 15
     tfEflags := word 17
     tfEsp := word 18
     tfSs := half 19 },
    { tfPadding1 := half 9
      tfPadding2 := half 11
      tfPadding3 := half 16
      tfPadding4 := half 20 })

/-! ## The processor in the kernel -/

/-- The registers of a program with its segments. -/
structure Context where
  regs : Registers
  ds : UInt16
  es : UInt16
  cs : UInt16
  ss : UInt16
deriving DecidableEq

/-- A processor and the memory that its kernel sees. -/
structure Processor where
  context : Context
  ram : Ram

inductive SegReg where
  | ds | es

/-- The instructions of `trapentry.S` and `switch.S`. -/
inductive KernelInstr where
  | pushlImm (value : UInt32)
  | pushlSeg (source : SegReg)
  | pushal
  | pushEsp
  | call (back : UInt32)
  | addEsp (amount : UInt32)
  | movEsp
  | popal
  | popSeg (target : SegReg)
  | iret

namespace Processor

def esp (processor : Processor) : UInt32 := processor.context.regs.esp

def setEsp (processor : Processor) (esp : UInt32) : Processor :=
  { processor with
    context :=
      { processor.context with
        regs := { processor.context.regs with esp := esp } } }

/-- Push bytes, the first of which gets the lowest address. -/
def push (processor : Processor) (bytes : List UInt8) : Processor :=
  let esp := processor.esp - UInt32.ofNat bytes.length
  { processor.setEsp esp with ram := processor.ram.store esp bytes }

def pushl (processor : Processor) (word : UInt32) : Processor :=
  processor.push (toBytes 4 word.toNat)

/-- Push a segment register in a slot of four bytes. -/
def pushSegment (processor : Processor) (segment padding : UInt16) :
    Processor :=
  processor.push (toBytes 2 segment.toNat ++ toBytes 2 padding.toNat)

end Processor

namespace KernelInstr

/-- One instruction; `upper` is what is pushed above the segment registers. -/
def exec (upper : Paddings) (processor : Processor) : KernelInstr → Processor
  | pushlImm value => processor.pushl value
  | pushlSeg .ds =>
      processor.pushSegment processor.context.ds upper.tfPadding2
  | pushlSeg .es =>
      processor.pushSegment processor.context.es upper.tfPadding1
  | pushal =>
      let regs := processor.context.regs
      ((((((((processor.pushl regs.eax).pushl regs.ecx).pushl regs.edx).pushl
        regs.ebx).pushl regs.esp).pushl regs.ebp).pushl regs.esi).pushl
          regs.edi)
  | pushEsp => processor.pushl processor.esp
  | call back => processor.pushl back
  | addEsp amount =>
      let esp := processor.esp
      { processor with
        context :=
          { processor.context with
            regs :=
              ({ processor.context.regs with esp := esp + amount }).setStatus
                (addFlags esp amount) } }
  | movEsp => processor.setEsp (processor.ram.loadWord processor.esp)
  | popal =>
      let esp := processor.esp
      { processor with
        context :=
          { processor.context with
            regs :=
              { processor.context.regs with
                edi := processor.ram.loadWord esp
                esi := processor.ram.loadWord (esp + 4)
                ebp := processor.ram.loadWord (esp + 8)
                ebx := processor.ram.loadWord (esp + 16)
                edx := processor.ram.loadWord (esp + 20)
                ecx := processor.ram.loadWord (esp + 24)
                eax := processor.ram.loadWord (esp + 28)
                esp := esp + 32 } } }
  | popSeg target =>
      let esp := processor.esp
      let popped := processor.setEsp (esp + 4)
      let segment := processor.ram.loadHalf esp
      match target with
      | .ds =>
          { popped with context := { popped.context with ds := segment } }
      | .es =>
          { popped with context := { popped.context with es := segment } }
  | iret =>
      let esp := processor.esp
      let ram := processor.ram
      let cs := ram.loadHalf (esp + 4)
      let returned :=
        { processor.context with
          cs := cs
          regs :=
            { processor.context.regs with
              eip := ram.loadWord esp
              eflags := ram.loadWord (esp + 8)
              esp := esp + 12 } }
      -- The stack is popped too when the privilege level changes.
      if cs &&& 3 = 0 then
        { processor with context := returned }
      else
        { processor with
          context :=
            { returned with
              ss := ram.loadHalf (esp + 16)
              regs := { returned.regs with esp := ram.loadWord (esp + 12) } } }

/-- Instructions one after the other. -/
def execAll (upper : Paddings) (instrs : List KernelInstr)
    (processor : Processor) : Processor :=
  instrs.foldl (exec upper) processor

end KernelInstr

/-! ## Entering the kernel -/

/-- The vectors for which the processor pushes an error code. -/
def errorCodeVectors : List Nat := [8, 10, 11, 12, 13, 14, 17]

/-- `GD_KT` and `GD_KD`. -/
def gdKt : UInt16 := 0x08

def gdKd : UInt16 := 0x10

/-- The flags that an interrupt gate clears: `TF`, `IF`, `NT`, `RF` and `VM`. -/
def gateFlags : UInt32 := 0x34300

/-- The processor on the kernel stack of the TSS, before it pushes. -/
def switchStack (handler esp0 : UInt32) (user : Context) (ram : Ram) :
    Processor :=
  { context :=
      { user with
        cs := gdKt
        ss := gdKd
        regs :=
          { user.regs with
            esp := esp0
            eip := handler
            eflags := user.regs.eflags &&& ~~~gateFlags } }
    ram := ram }

/-- What the processor does on a trap from user mode.  The flags of the program
are those that it saves. -/
def enterGate (upper : Paddings) (vector : Nat) (errorCode : UInt32)
    (handler esp0 : UInt32) (user : Context) (ram : Ram) : Processor :=
  let entered := switchStack handler esp0 user ram
  let saved :=
    ((((entered.pushSegment user.ss upper.tfPadding4).pushl user.regs.esp).pushl
      user.regs.eflags).pushSegment user.cs upper.tfPadding3).pushl user.regs.eip
  if vector ∈ errorCodeVectors then saved.pushl errorCode else saved

/-- `_alltraps`, up to the entry of `trap`; `back` is the address behind the
call. -/
def alltraps (back : UInt32) : List KernelInstr :=
  [.pushlSeg .ds, .pushlSeg .es, .pushal, .pushEsp, .call back]

/-- `TRAPHANDLER`, with the jump to `_alltraps`. -/
def traphandler (num back : UInt32) : List KernelInstr :=
  .pushlImm num :: alltraps back

/-- `TRAPHANDLER_NOEC`, with the jump to `_alltraps`. -/
def traphandlerNoec (num back : UInt32) : List KernelInstr :=
  .pushlImm 0 :: .pushlImm num :: alltraps back

/-- The stubs of `trapentry.S`. -/
def stub (vector : Nat) (back : UInt32) : Option (List KernelInstr) :=
  match vector with
  | 0 | 1 | 2 | 3 | 4 | 5 | 6 | 7 | 9 | 15 | 16 | 18 | 19 | 32 | 48 =>
      some (traphandlerNoec (UInt32.ofNat vector) back)
  | 8 | 10 | 11 | 12 | 13 | 14 | 17 =>
      some (traphandler (UInt32.ofNat vector) back)
  | _ => none

/-- `curenv->env_tf = *tf` in `trap`, for a trap from user mode; the argument
lies above the return address. -/
def trapSave (envTf : UInt32) (processor : Processor) : Ram :=
  let tf := processor.ram.loadWord (processor.esp + 4)
  let (frame, paddings) := Trapframe.load processor.ram tf
  if frame.tfCs &&& 3 = 3 then
    processor.ram.store envTf (frame.encode paddings)
  else
    processor.ram

/-- `context_switch`; its argument lies above the return address. -/
def contextSwitch : List KernelInstr :=
  [.addEsp 4, .movEsp, .popal, .popSeg .es, .popSeg .ds, .addEsp 8, .iret]

variable {upper : Paddings} {user : Context} {vector : Nat} {ram : Ram}
variable {errorCode handler esp0 back envTf : UInt32}
variable {instrs : List KernelInstr} {processor : Processor}
variable {front bytes : List UInt8}

/-! ## What is pushed -/

namespace Processor

/-- The bytes on top of the stack. -/
def Top (processor : Processor) (bytes : List UInt8) : Prop :=
  processor.ram.Holds processor.esp bytes

theorem Top.push (top : processor.Top bytes)
    (room : front.length + bytes.length ≤ 2 ^ 32) :
    (processor.push front).Top (front ++ bytes) :=
  Ram.Holds.push top room

theorem Top.pushl (top : processor.Top bytes) (word : UInt32)
    (room : bytes.length ≤ 2 ^ 31) :
    (processor.pushl word).Top (toBytes 4 word.toNat ++ bytes) := by
  apply Top.push top
  rw [length_toBytes]
  omega

theorem Top.pushSegment (top : processor.Top bytes) (segment padding : UInt16)
    (room : bytes.length ≤ 2 ^ 31) :
    (processor.pushSegment segment padding).Top
      (toBytes 2 segment.toNat ++ toBytes 2 padding.toNat ++ bytes) := by
  apply Top.push top
  rw [List.length_append, length_toBytes, length_toBytes]
  omega

/-- The argument of `trap` points to what lies above it. -/
theorem Top.callTrap (top : processor.Top bytes) (back : UInt32)
    (room : bytes.length ≤ 2 ^ 30) :
    let called := (processor.pushl processor.esp).pushl back
    called.Top (toBytes 4 back.toNat ++
      (toBytes 4 (called.esp + 8).toNat ++ bytes)) := by
  dsimp only
  have pops : ((processor.pushl processor.esp).pushl back).esp + 8 =
      processor.esp := by
    change processor.esp - 4 - 4 + 8 = processor.esp
    grind
  rw [pops]
  have tf := top.pushl processor.esp (by omega)
  exact tf.pushl back (by simp; omega)

end Processor

/-- The frame that the registers of a program make. -/
def Context.trapframe (user : Context) (trapno err oesp : UInt32) : Trapframe :=
  { tfRegs :=
      { regEdi := user.regs.edi
        regEsi := user.regs.esi
        regEbp := user.regs.ebp
        regOesp := oesp
        regEbx := user.regs.ebx
        regEdx := user.regs.edx
        regEcx := user.regs.ecx
        regEax := user.regs.eax }
    tfEs := user.es
    tfDs := user.ds
    tfTrapno := trapno
    tfErr := err
    tfEip := user.regs.eip
    tfCs := user.cs
    tfEflags := user.regs.eflags
    tfEsp := user.regs.esp
    tfSs := user.ss }

/-- The part of the frame that the processor pushes without an error code. -/
def hardwareFields (upper : Paddings) (user : Context) : List (Nat × Nat) :=
  [(4, user.regs.eip.toNat), (2, user.cs.toNat), (2, upper.tfPadding3.toNat),
    (4, user.regs.eflags.toNat), (4, user.regs.esp.toNat), (2, user.ss.toNat),
    (2, upper.tfPadding4.toNat)]

/-- `struct PushRegs` as `pushal` pushes it. -/
def pushalFields (regs : Registers) : List (Nat × Nat) :=
  [(4, regs.edi.toNat), (4, regs.esi.toNat), (4, regs.ebp.toNat),
    (4, regs.esp.toNat), (4, regs.ebx.toNat), (4, regs.edx.toNat),
    (4, regs.ecx.toNat), (4, regs.eax.toNat)]

theorem Processor.Top.pushal (upper : Paddings) (top : processor.Top bytes)
    (room : bytes.length ≤ 2 ^ 30) :
    (KernelInstr.exec upper processor .pushal).Top
      (encodeFields (pushalFields processor.context.regs) ++ bytes) := by
  have eax := top.pushl processor.context.regs.eax (by omega)
  have ecx := eax.pushl processor.context.regs.ecx (by simp; omega)
  have edx := ecx.pushl processor.context.regs.edx (by simp; omega)
  have ebx := edx.pushl processor.context.regs.ebx (by simp; omega)
  have esp := ebx.pushl processor.context.regs.esp (by simp; omega)
  have ebp := esp.pushl processor.context.regs.ebp (by simp; omega)
  have esi := ebp.pushl processor.context.regs.esi (by simp; omega)
  have edi := esi.pushl processor.context.regs.edi (by simp; omega)
  simp only [pushalFields, encodeFields, List.append_assoc, List.nil_append]
  exact edi

/-- The part of the frame that `_alltraps` pushes on a stack at `esp`. -/
def alltrapsFields (upper : Paddings) (context : Context) (esp : UInt32) :
    List (Nat × Nat) :=
  pushalFields { context.regs with esp := esp - 4 - 4 } ++
    [(2, context.es.toNat), (2, upper.tfPadding1.toNat),
      (2, context.ds.toNat), (2, upper.tfPadding2.toNat)]

theorem Processor.Top.alltraps (upper : Paddings) (top : processor.Top bytes)
    (room : bytes.length ≤ 2 ^ 29) (back : UInt32) :
    let entered := KernelInstr.execAll upper (alltraps back) processor
    entered.Top (toBytes 4 back.toNat ++
      (toBytes 4 (entered.esp + 8).toNat ++
        (encodeFields (alltrapsFields upper processor.context processor.esp) ++
          bytes))) := by
  have ds := top.pushSegment processor.context.ds upper.tfPadding2 (by omega)
  have es := ds.pushSegment processor.context.es upper.tfPadding1
    (by simp; omega)
  have saved := es.pushal upper (by simp; omega)
  have called := saved.callTrap back
    (by simp [pushalFields, length_encodeFields]; omega)
  have fields : encodeFields
      (alltrapsFields upper processor.context processor.esp) ++ bytes =
        encodeFields (pushalFields
          { processor.context.regs with esp := processor.esp - 4 - 4 }) ++
          (toBytes 2 processor.context.es.toNat ++
            toBytes 2 upper.tfPadding1.toNat ++
              (toBytes 2 processor.context.ds.toNat ++
                toBytes 2 upper.tfPadding2.toNat ++ bytes)) := by
    rw [alltrapsFields, encodeFields_append]
    simp only [encodeFields, List.append_assoc, List.nil_append]
  rw [fields]
  exact called

/-- A stub pushes a zero exactly when the processor pushes no error code. -/
theorem stub_cases (found : stub vector back = some instrs) :
    vector ∈ errorCodeVectors ∧
        instrs = traphandler (UInt32.ofNat vector) back ∨
      vector ∉ errorCodeVectors ∧
        instrs = traphandlerNoec (UInt32.ofNat vector) back := by
  unfold stub at found
  split at found <;> cases found <;> simp [errorCodeVectors]

/-- The error code in the frame. -/
def savedError (vector : Nat) (errorCode : UInt32) : UInt32 :=
  if vector ∈ errorCodeVectors then errorCode else 0

theorem top_hardware (upper : Paddings) (errorCode handler esp0 : UInt32)
    (user : Context) (ram : Ram) :
    (enterGate upper vector errorCode handler esp0 user ram).Top
      ((if vector ∈ errorCodeVectors then toBytes 4 errorCode.toNat else []) ++
        encodeFields (hardwareFields upper user)) := by
  have empty : (switchStack handler esp0 user ram).Top [] := rfl
  have ss := empty.pushSegment user.ss upper.tfPadding4 (Nat.zero_le _)
  have esp := ss.pushl user.regs.esp (by simp)
  have eflags := esp.pushl user.regs.eflags (by simp)
  have cs := eflags.pushSegment user.cs upper.tfPadding3 (by simp)
  have eip := cs.pushl user.regs.eip (by simp)
  have err := eip.pushl errorCode (by simp)
  simp only [hardwareFields, encodeFields, List.append_assoc,
    List.append_nil] at eip err ⊢
  unfold enterGate
  split
  · exact err
  · exact eip

/-- A push leaves the registers that `_alltraps` pushes. -/
theorem alltrapsFields_pushl (upper : Paddings) (processor : Processor)
    (word esp : UInt32) :
    alltrapsFields upper (processor.pushl word).context esp =
      alltrapsFields upper processor.context esp :=
  rfl

theorem alltrapsFields_pushSegment (upper : Paddings) (processor : Processor)
    (segment padding : UInt16) (esp : UInt32) :
    alltrapsFields upper (processor.pushSegment segment padding).context esp =
      alltrapsFields upper processor.context esp :=
  rfl

theorem alltrapsFields_enterGate (upper : Paddings)
    (errorCode handler esp0 esp : UInt32) (user : Context) (ram : Ram) :
    alltrapsFields upper
        (enterGate upper vector errorCode handler esp0 user ram).context esp =
      alltrapsFields upper user esp := by
  have switched : alltrapsFields upper
      (switchStack handler esp0 user ram).context esp =
        alltrapsFields upper user esp := rfl
  unfold enterGate
  split
  · simp only [alltrapsFields_pushl, alltrapsFields_pushSegment, switched]
  · simp only [alltrapsFields_pushl, alltrapsFields_pushSegment, switched]

/-- The frame is made of the parts that the three of them push. -/
theorem encode_trapframe (upper : Paddings) (user : Context)
    (trapno err esp : UInt32) :
    (user.trapframe trapno err (esp - 4 - 4)).encode upper =
      encodeFields (alltrapsFields upper user esp) ++
        (toBytes 4 trapno.toNat ++ (toBytes 4 err.toNat ++
          encodeFields (hardwareFields upper user))) := by
  have parts : (user.trapframe trapno err (esp - 4 - 4)).fields upper =
      alltrapsFields upper user esp ++
        ((4, trapno.toNat) :: (4, err.toNat) :: hardwareFields upper user) := by
    simp only [Trapframe.fields, Context.trapframe, alltrapsFields, pushalFields,
      hardwareFields, List.cons_append, List.nil_append]
  rw [Trapframe.encode, parts, encodeFields_append, encodeFields, encodeFields]

/-- What `_alltraps` leaves on the stack for `trap`. -/
theorem Processor.Top.trapframe (upper : Paddings) {trapno err : UInt32}
    (top : processor.Top (toBytes 4 trapno.toNat ++ (toBytes 4 err.toNat ++
      encodeFields (hardwareFields upper user))))
    (kept : ∀ esp, alltrapsFields upper processor.context esp =
      alltrapsFields upper user esp) (back : UInt32) :
    let entered := KernelInstr.execAll upper (Scheduler.alltraps back) processor
    ∃ oesp, entered.Top (toBytes 4 back.toNat ++
      (toBytes 4 (entered.esp + 8).toNat ++
        (user.trapframe trapno err oesp).encode upper)) := by
  have hardware : (encodeFields (hardwareFields upper user)).length = 20 := by
    rw [length_encodeFields]
    rfl
  refine ⟨processor.esp - 4 - 4, ?_⟩
  rw [encode_trapframe, ← kept]
  exact top.alltraps upper (by simp [hardware]) back

theorem execAll_traphandler (upper : Paddings) (num back : UInt32)
    (processor : Processor) :
    KernelInstr.execAll upper (traphandler num back) processor =
      KernelInstr.execAll upper (alltraps back) (processor.pushl num) := by
  rw [traphandler, KernelInstr.execAll, List.foldl_cons]
  rfl

theorem execAll_traphandlerNoec (upper : Paddings) (num back : UInt32)
    (processor : Processor) :
    KernelInstr.execAll upper (traphandlerNoec num back) processor =
      KernelInstr.execAll upper (alltraps back)
        ((processor.pushl 0).pushl num) := by
  rw [traphandlerNoec, KernelInstr.execAll, List.foldl_cons, List.foldl_cons]
  rfl

/-- What a stub and `_alltraps` leave on the stack for `trap`. -/
theorem top_entered (upper : Paddings) (errorCode handler esp0 : UInt32)
    (user : Context) (ram : Ram) (found : stub vector back = some instrs) :
    let entered := KernelInstr.execAll upper instrs
      (enterGate upper vector errorCode handler esp0 user ram)
    ∃ oesp, entered.Top (toBytes 4 back.toNat ++
      (toBytes 4 (entered.esp + 8).toNat ++
        (user.trapframe (UInt32.ofNat vector) (savedError vector errorCode)
          oesp).encode upper)) := by
  have top : (enterGate upper vector errorCode handler esp0 user ram).Top _ :=
    top_hardware upper errorCode handler esp0 user ram
  have kept (esp : UInt32) : alltrapsFields upper
      (enterGate upper vector errorCode handler esp0 user ram).context esp =
        alltrapsFields upper user esp :=
    alltrapsFields_enterGate upper errorCode handler esp0 esp user ram
  have hardware : (encodeFields (hardwareFields upper user)).length = 20 := by
    rw [length_encodeFields]
    rfl
  unfold savedError
  rcases stub_cases found with ⟨pushes, rfl⟩ | ⟨pushesNot, rfl⟩
  · rw [if_pos pushes] at top ⊢
    rw [execAll_traphandler]
    have trapno := top.pushl (UInt32.ofNat vector) (by simp [hardware])
    refine trapno.trapframe upper (fun esp => ?_) back
    rw [alltrapsFields_pushl]
    exact kept esp
  · rw [if_neg pushesNot] at top ⊢
    rw [execAll_traphandlerNoec]
    have err := top.pushl 0 (by simp [hardware])
    have trapno := err.pushl (UInt32.ofNat vector) (by simp [hardware])
    refine trapno.trapframe upper (fun esp => ?_) back
    rw [alltrapsFields_pushl, alltrapsFields_pushl]
    exact kept esp

/-! ## What is copied -/

theorem length_encode_trapframe (frame : Trapframe) (paddings : Paddings) :
    (frame.encode paddings).length = trapframeSize := by
  rw [Trapframe.encode, length_encodeFields]
  rfl

theorem load_trapframe {frame : Trapframe} {paddings : Paddings}
    {address : UInt32} (held : ram.Holds address (frame.encode paddings)) :
    Trapframe.load ram address = (frame, paddings) := by
  unfold Ram.Holds at held
  rw [length_encode_trapframe] at held
  have decoded := decodeFields_encodeFields (frame.fields paddings) []
  rw [List.append_nil] at decoded
  have widths : (frame.fields paddings).map Prod.fst = trapframeWidths := rfl
  rw [widths] at decoded
  unfold Trapframe.load
  rw [held, Trapframe.encode, decoded]
  simp [Trapframe.fields]

/-- A trap from user mode leaves the frame of the program in `env_tf`. -/
theorem trapSave_entered (upper : Paddings) (errorCode handler esp0 : UInt32)
    (ram : Ram) (envTf : UInt32) (found : stub vector back = some instrs)
    (userMode : user.cs &&& 3 = 3) :
    ∃ oesp, (trapSave envTf (KernelInstr.execAll upper instrs
        (enterGate upper vector errorCode handler esp0 user ram))).Holds envTf
      ((user.trapframe (UInt32.ofNat vector) (savedError vector errorCode)
        oesp).encode upper) := by
  obtain ⟨oesp, top⟩ := top_entered upper errorCode handler esp0 user ram found
  refine ⟨oesp, ?_⟩
  generalize KernelInstr.execAll upper instrs
    (enterGate upper vector errorCode handler esp0 user ram) = entered
    at top ⊢
  have above := Ram.Holds.atZero top
  have argument : entered.ram.loadWord (entered.esp + 4) = entered.esp + 8 :=
    above.behind.loadWord
  have held : entered.ram.Holds (entered.esp + 8) _ := above.behind.behind
  have copied := load_trapframe held
  unfold trapSave
  dsimp only
  rw [argument, copied]
  change Ram.Holds (if user.cs &&& 3 = 3 then _ else _) envTf _
  rw [if_pos userMode]
  apply Ram.holds_store
  rw [length_encode_trapframe]
  decide

/-! ## What is popped -/

/-- The registers that a frame holds for user mode. -/
def Trapframe.context (frame : Trapframe) : Context :=
  { regs :=
      { edi := frame.tfRegs.regEdi
        esi := frame.tfRegs.regEsi
        ebp := frame.tfRegs.regEbp
        ebx := frame.tfRegs.regEbx
        edx := frame.tfRegs.regEdx
        ecx := frame.tfRegs.regEcx
        eax := frame.tfRegs.regEax
        esp := frame.tfEsp
        eip := frame.tfEip
        eflags := frame.tfEflags }
    ds := frame.tfDs
    es := frame.tfEs
    cs := frame.tfCs
    ss := frame.tfSs }

theorem context_contextSwitch {frame : Trapframe} {paddings : Paddings}
    (argument : processor.ram.loadWord (processor.esp + 4) = envTf)
    (held : processor.ram.Holds envTf (frame.encode paddings))
    (userMode : frame.tfCs &&& 3 = 3) :
    (KernelInstr.execAll upper contextSwitch processor).context =
      frame.context := by
  have edi := held.atZero
  rw [Trapframe.encode, Trapframe.fields] at edi
  simp only [encodeFields] at edi
  have esi := edi.behind
  have ebp := esi.behind
  have oesp := ebp.behind
  have ebx := oesp.behind
  have edx := ebx.behind
  have ecx := edx.behind
  have eax := ecx.behind
  have es := eax.behind
  have ds := es.behind.behind
  have trapno := ds.behind.behind
  have eip := trapno.behind.behind
  have cs := eip.behind
  have eflags := cs.behind.behind
  have esp := eflags.behind
  have ss := esp.behind
  change processor.ram.loadWord (processor.context.regs.esp + 4) = envTf
    at argument
  have regEdi : processor.ram.loadWord (envTf + 0) = _ := edi.loadWord
  have regEsi : processor.ram.loadWord (envTf + 4) = _ := esi.loadWord
  have regEbp : processor.ram.loadWord (envTf + 8) = _ := ebp.loadWord
  have regEbx : processor.ram.loadWord (envTf + 16) = _ := ebx.loadWord
  have regEdx : processor.ram.loadWord (envTf + 20) = _ := edx.loadWord
  have regEcx : processor.ram.loadWord (envTf + 24) = _ := ecx.loadWord
  have regEax : processor.ram.loadWord (envTf + 28) = _ := eax.loadWord
  have tfEs : processor.ram.loadHalf (envTf + 32) = _ := es.loadHalf
  have tfDs : processor.ram.loadHalf (envTf + 36) = _ := ds.loadHalf
  have tfEip : processor.ram.loadWord (envTf + 48) = _ := eip.loadWord
  have tfCs : processor.ram.loadHalf (envTf + 52) = _ := cs.loadHalf
  have tfEflags : processor.ram.loadWord (envTf + 56) = _ := eflags.loadWord
  have tfEsp : processor.ram.loadWord (envTf + 60) = _ := esp.loadWord
  have tfSs : processor.ram.loadHalf (envTf + 64) = _ := ss.loadHalf
  rw [UInt32.add_zero] at regEdi
  have outer : ¬ frame.tfCs &&& 3 = 0 := by
    rw [userMode]
    decide
  simp only [contextSwitch, KernelInstr.execAll, List.foldl_cons, List.foldl_nil,
    KernelInstr.exec, Processor.esp, Processor.setEsp, Registers.setStatus,
    argument, UInt32.add_assoc, UInt32.reduceAdd]
  rw [tfCs, if_neg outer]
  simp only [regEdi, regEsi, regEbp, regEbx, regEdx, regEcx, regEax, tfEs, tfDs,
    tfEip, tfEflags, tfEsp, tfSs]
  rfl

/-- A program in the middle of a system call. -/
def callingProgram : Context :=
  { regs := ⟨1, 2, 3, 4, 5, 6, 7, 0xEEBFDF00, 0x800020, 0x202⟩
    ds := 0x23
    es := 0x23
    cs := 0x1B
    ss := 0x23 }

/-- The memory behind the system call of that program. -/
def callSaved : Ram :=
  trapSave 0xF0200000 (KernelInstr.execAll ⟨0, 0, 0, 0⟩
    (traphandlerNoec 48 0xF0104000)
    (enterGate ⟨0, 0, 0, 0⟩ 48 0 0xF0103FF0 0xF0000000 callingProgram
      fun _ => 0))

end FeaturesOS.Scheduler

import FeaturesOS.Scheduler.FaultRuns

/-!
# The bounds of the exception stack

For which stack pointers `page_fault_handler` keeps to the exception stack.  The
kernel stores the spare word and the frame before it tests for an overflow.
-/

namespace FeaturesOS.Scheduler

open Entry PhysMem

variable {kernel : Kernel} {mem next : PhysMem} {cpu e pgdir : Nat}
variable {upcall esp va : UInt32} {frame : Trapframe} {place : Place}

/-- Everything that has been stored lies in the exception stack. -/
def PhysMem.KeepsToExstk (pgdir : Nat) (mem next : PhysMem) : Prop :=
  ∀ place, next.byteAt place ≠ mem.byteAt place →
    ∃ va, InExstk va ∧ mem.translate pgdir true va = some place

/-- The spare word and the frame lie in the exception stack. -/
structure FrameInside (esp : UInt32) : Prop where
  spare : InExstk esp → InExstk (esp - 4)
  base : InExstk (utfBase esp)
  top : InExstk (utfBase esp + 51)

/-- The handler stores the frame within the exception stack and resumes the
environment in its upcall, or it destroys the environment. -/
inductive Kernel.ServesFault (kernel : Kernel) (build : Build)
    (cpu e pgdir : Nat) (upcall : UInt32) (frame : Trapframe)
    (faultVa : UInt32) : Prop where
  | resumes {next : Kernel} :
      pageFaultHandler build cpu frame faultVa kernel = .leaves next →
      kernel.Delivered cpu e pgdir upcall frame faultVa next →
      PhysMem.KeepsToExstk pgdir kernel.mem next.mem →
      FrameInside frame.tfEsp →
      ServesFault kernel build cpu e pgdir upcall frame faultVa
  | destroys {next : Kernel} :
      pageFaultHandler build cpu frame faultVa kernel = .leaves next →
      (next.envs e).envStatus = .free →
      ServesFault kernel build cpu e pgdir upcall frame faultVa

theorem sub_four (inside : InExstk esp) :
    (esp - 4).toNat = esp.toNat - 4 := by
  obtain ⟨low, high⟩ := inExstk_iff.mp inside
  rw [UInt32.toNat_sub, show (4 : UInt32).toNat = 4 from rfl]
  omega

theorem HoldsFrame.frameInside (room : HoldsFrame esp) : FrameInside esp := by
  have base := utfBase_toNat room
  have bounds : 4005556224 ≤ (utfBase esp).toNat ∧
      (utfBase esp).toNat + 52 ≤ 4005560320 := by
    rw [base]
    split
    · rename_i inside
      have above := room.above inside
      have limits := inExstk_iff.mp inside
      omega
    · omega
  refine ⟨?_, ?_, ?_⟩
  · intro inside
    have above := room.above inside
    have limits := inExstk_iff.mp inside
    rw [inExstk_iff, sub_four inside]
    omega
  · rw [inExstk_iff]
    omega
  · rw [inExstk_iff, UInt32.toNat_add, show (51 : UInt32).toNat = 51 from rfl]
    omega

theorem PhysMem.Framed.keepsToExstk {faultVa : UInt32}
    (framed : mem.Framed pgdir frame faultVa next)
    (room : HoldsFrame frame.tfEsp) : PhysMem.KeepsToExstk pgdir mem next := by
  intro place changed
  rcases framed.others place changed with inFrame | ⟨inside, k, below, found⟩
  · obtain ⟨va, inside, _, found⟩ := inFrame
    exact ⟨va, inside, found⟩
  · have above := room.above inside
    have limits := inExstk_iff.mp inside
    refine ⟨frame.tfEsp - 4 + UInt32.ofNat k, ?_, found⟩
    rw [inExstk_iff, UInt32.toNat_add, sub_four inside, UInt32.toNat_ofNat']
    omega

/-- Below the room for a frame, the frame starts below the exception stack. -/
theorem utfBase_below_exstk (inside : InExstk esp)
    (low : esp.toNat < 4005556280) :
    esp - 4 - uTrapframeSize < uxStackTop - 4096 := by
  have limits := inExstk_iff.mp inside
  rw [UInt32.lt_iff_toNat_lt, UInt32.toNat_sub, sub_four inside,
    show uTrapframeSize.toNat = 52 from rfl,
    show (uxStackTop - 4096).toNat = 4005556224 from rfl]
  omega

/-- A store of the kernel faults, which is a panic, or returns. -/
theorem storeWords_ends (e : Nat) (va : UInt32) (words : List UInt32)
    (kernel : Kernel) :
    storeWords e va words kernel = .stops ∨
      ∃ mem, storeWords e va words kernel = .returns () (kernel.setMem mem) := by
  unfold storeWords onPgdir
  rw [read_bind_run]
  cases (kernel.envs e).envPgdir with
  | none => exact .inl rfl
  | some pgdir =>
      unfold onMem
      dsimp only
      cases storeBytes pgdir kernel.mem va (wordBytes words) with
      | none => exact .inl rfl
      | some mem => exact .inr ⟨mem, rfl⟩

/-- Near the bottom of the exception stack the handler panics. -/
theorem pageFaultHandler_stops (build : Build)
    (runs : kernel.RunsIn cpu e pgdir upcall) (registered : upcall ≠ 0)
    (mapped : kernel.mem.ExstkMapped pgdir) (inside : InExstk frame.tfEsp)
    (low : frame.tfEsp.toNat < 4005556280) (faultVa : UInt32) :
    pageFaultHandler build cpu frame faultVa kernel = .stops := by
  have notOutside : ¬ (frame.tfEsp < uxStackTop - 4096 ∨
      frame.tfEsp > uxStackTop - 1) :=
    mt outside_iff.mp (not_not_intro inside)
  have below := utfBase_below_exstk inside low
  unfold pageFaultHandler
  rw [bind_run, theCurenv_run runs.current]
  dsimp only
  rw [read_bind_run, runs.upcall, if_pos registered, bind_run,
    userMemAssert_run build runs mapped]
  dsimp only
  rw [if_neg notOutside, if_neg notOutside, bind_run]
  rcases storeWords_ends e (frame.tfEsp - 4) [0] kernel with faults |
    ⟨mem, stored⟩
  · rw [faults]
  · rw [stored]
    dsimp only
    rw [bind_run]
    rcases storeWords_ends e (frame.tfEsp - 4 - uTrapframeSize)
      (uTrapframe frame faultVa) (kernel.setMem mem) with faults |
      ⟨mem', stored'⟩
    · rw [faults]
    · rw [stored']
      dsimp only
      rw [if_pos (.inl below)]
      rfl

/-- A page fault is served as long as the stack pointer is not in the 56 bytes
at the bottom of the exception stack. -/
theorem servesFault_iff (build : Build)
    (runs : kernel.RunsIn cpu e pgdir upcall) (registered : upcall ≠ 0)
    (apart : kernel.mem.TablesApart pgdir)
    (mapped : kernel.mem.ExstkMapped pgdir)
    (trapped : (kernel.envs e).envTf = frame) (faultVa : UInt32) :
    kernel.ServesFault build cpu e pgdir upcall frame faultVa ↔
      HoldsFrame frame.tfEsp := by
  constructor
  · intro serves inside
    by_contra low
    have stops := pageFaultHandler_stops build runs registered mapped inside
      (Nat.lt_of_not_le low) faultVa
    cases serves with
    | resumes leaves =>
        rw [stops] at leaves
        cases leaves
    | destroys leaves =>
        rw [stops] at leaves
        cases leaves
  · intro room
    obtain ⟨next, leaves, delivered⟩ := pageFaultHandler_delivers build runs
      registered apart mapped room trapped faultVa
    exact .resumes leaves delivered (delivered.framed.keepsToExstk room)
      room.frameInside

/-- The kernel in which the trap of `stackProgram` is handled. -/
def stackTrapped (esp : UInt32) : Kernel :=
  (stackState esp).kernel.updateEnv 0 fun env =>
    { env with envTf := stackFrame esp }

theorem runsIn_stackTrapped (esp : UInt32) :
    (stackTrapped esp).RunsIn 0 0 1 0x800100 :=
  ⟨rfl, rfl, rfl, rfl⟩

theorem servesFault_stack :
    (stackTrapped 0xEEBFF800).ServesFault .roundRobin 0 0 1 0x800100
        (stackFrame 0xEEBFF800) 0xEEBFC000 ↔
      HoldsFrame 0xEEBFF800 :=
  have fit := fit_stackState 0xEEBFF800
  servesFault_iff .roundRobin (runsIn_stackTrapped _) (by decide) fit.apart
    fit.mapped rfl 0xEEBFC000

/-- A fault with the stack pointer at the bottom of the exception stack. -/
theorem not_servesFault :
    ¬ ∀ (build : Build) (kernel : Kernel) (cpu e pgdir : Nat)
        (upcall : UInt32) (frame : Trapframe) (faultVa : UInt32),
      kernel.RunsIn cpu e pgdir upcall → upcall ≠ 0 →
      kernel.mem.TablesApart pgdir → kernel.mem.ExstkMapped pgdir →
      (kernel.envs e).envTf = frame →
      kernel.ServesFault build cpu e pgdir upcall frame faultVa := by
  intro serves
  have fit := fit_stackState 0xEEBFF000
  have served := serves .roundRobin (stackTrapped 0xEEBFF000) 0 0 1 0x800100
    (stackFrame 0xEEBFF000) 0xEEBFC000 (runsIn_stackTrapped _) (by decide)
    fit.apart fit.mapped rfl
  have stops := @pageFaultHandler_stops (stackTrapped 0xEEBFF000) 0 0 1 0x800100
    (stackFrame 0xEEBFF000) .roundRobin (runsIn_stackTrapped _) (by decide)
    fit.mapped (by decide) (by decide) 0xEEBFC000
  cases served with
  | resumes leaves =>
      rw [stops] at leaves
      cases leaves
  | destroys leaves =>
      rw [stops] at leaves
      cases leaves

end FeaturesOS.Scheduler

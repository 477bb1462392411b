import Mathlib.Data.Set.Basic
import FeaturesOS.Scheduler.Upcall
import FeaturesOS.Scheduler.Boot

/-!
# Page faults inside page faults

The handler in C runs between the two parts of `_pgfault_upcall`.  What it does
itself is only bounded: it leaves the frames that are still in use as they are.
It may fault as often as it likes, and each of these faults is served by the
kernel, by the upcall and by the handler in turn.
-/

namespace FeaturesOS.Scheduler

open PhysMem

/-- An environment with its address space, its upcall and the address of
`_pgfault_handler`. -/
structure Program where
  e : Nat
  pgdir : Nat
  upcall : UInt32
  handlerSymbol : UInt32

/-- A program between two instructions, on the processor that runs it. -/
structure UserState where
  cpu : Nat
  regs : Registers
  kernel : Kernel

namespace UserState

def mem (state : UserState) : PhysMem := state.kernel.mem

def thread (state : UserState) : Thread := ⟨state.regs, state.kernel.mem⟩

/-- Instructions have run in user mode. -/
def withThread (state : UserState) (thread : Thread) : UserState :=
  { state with
    regs := thread.regs
    kernel := state.kernel.setMem thread.mem }

end UserState

namespace Registers

def withoutRf (regs : Registers) : Registers :=
  { regs with eflags := regs.eflags &&& ~~~flRf }

/-- The registers that `env_pop_tf` loads. -/
def ofTrapframe (frame : Trapframe) : Registers :=
  { edi := frame.tfRegs.regEdi
    esi := frame.tfRegs.regEsi
    ebp := frame.tfRegs.regEbp
    ebx := frame.tfRegs.regEbx
    edx := frame.tfRegs.regEdx
    ecx := frame.tfRegs.regEcx
    eax := frame.tfRegs.regEax
    esp := frame.tfEsp
    eip := frame.tfEip
    eflags := frame.tfEflags }

/-- The trap frame of a page fault.  The processor pushes the flag RF as it
likes. -/
structure Trapped (regs : Registers) (frame : Trapframe) : Prop where
  trapno : frame.tfTrapno = 14
  regs : (ofTrapframe frame).withoutRf = regs.withoutRf

end Registers

/-- From a page fault to the first instruction of the handler. -/
structure Faults (program : Program) (state next : UserState)
    (frame : Trapframe) (faultVa : UInt32) : Prop where
  trapped : state.regs.Trapped frame
  entered : ∃ build surroundings resumed thread,
    trap build surroundings state.cpu frame faultVa state.kernel =
        .leaves resumed ∧
      execAll program.pgdir
          (upcallEntry program.upcall program.handlerSymbol)
          ⟨.ofTrapframe (resumed.envs program.e).envTf, resumed.mem⟩ =
        some thread ∧
      next = ⟨state.cpu, thread.regs, resumed.setMem thread.mem⟩

/-- The handler has returned to the upcall, which has its frame at `base`. -/
def Returned (program : Program) (base : UInt32) (state : UserState) : Prop :=
  state.regs.esp = base - 4 ∧ state.regs.eip = program.upcall + 8

/-- The rest of `_pgfault_upcall`. -/
def Resumes (program : Program) (state next : UserState) : Prop :=
  ∃ thread, execAll program.pgdir (upcallReturn ++ upcallRestore)
      state.thread = some thread ∧
    next = state.withThread thread

/-- The program runs, its upcall is registered, and its exception stack is
mapped. -/
structure Fit (program : Program) (state : UserState) : Prop where
  runs : state.kernel.RunsIn state.cpu program.e program.pgdir program.upcall
  apart : state.mem.TablesApart program.pgdir
  mapped : state.mem.ExstkMapped program.pgdir

/-- What is left alone while frames are in use: the frames, the pages of the
exception stack and the flags of the system. -/
structure Leaves (program : Program) (frames : List UInt32)
    (state next : UserState) : Prop where
  exstk : ∀ va, InExstk va → next.mem.translate program.pgdir true va =
    state.mem.translate program.pgdir true va
  frames : ∀ base ∈ frames, ∀ bytes : List UInt8, bytes.length = 52 →
    state.mem.Holds program.pgdir base bytes →
      next.mem.Holds program.pgdir base bytes
  eflags : systemFlags next.regs.eflags = systemFlags state.regs.eflags

/-- The bytes of the physical memory that differ are in `places`. -/
def Touches (state next : UserState) (places : Set Place) : Prop :=
  ∀ place, next.mem.byteAt place ≠ state.mem.byteAt place → place ∈ places

/-- A handler and everything that happens while it runs; `own` is what it changes
itself. -/
inductive HandlerRun (program : Program) :
    List UInt32 → Set Place → UserState → UserState → Prop where
  | start (frames : List UInt32) (state : UserState) :
      HandlerRun program frames ∅ state state
  | work {frames : List UInt32} {own more : Set Place}
      {state middle next : UserState} :
      HandlerRun program frames own state middle →
      Fit program next → Leaves program frames middle next →
      Touches middle next more →
      HandlerRun program frames (own ∪ more) state next
  | fault {frames : List UInt32} {own inner : Set Place}
      {state middle called returned next : UserState} {frame : Trapframe}
      {faultVa : UInt32} :
      HandlerRun program frames own state middle →
      InExstk middle.regs.esp → HasRoom middle.regs.esp →
      (∀ base ∈ frames, middle.regs.esp ≤ base) →
      Faults program middle called frame faultVa →
      HandlerRun program (utfBase middle.regs.esp :: frames) inner called
        returned →
      Returned program (utfBase middle.regs.esp) returned →
      Resumes program returned next →
      HandlerRun program frames (own ∪ inner) state next

variable {program : Program} {state middle next : UserState}
variable {frames : List UInt32} {own places : Set Place}
variable {frame : Trapframe} {faultVa : UInt32}

namespace Registers.Trapped

variable {regs : Registers}

theorem esp (trapped : regs.Trapped frame) : frame.tfEsp = regs.esp :=
  congrArg Registers.esp trapped.regs

theorem eflags (trapped : regs.Trapped frame) :
    frame.tfEflags &&& ~~~flRf = regs.eflags &&& ~~~flRf :=
  congrArg Registers.eflags trapped.regs

theorem systemFlags (trapped : regs.Trapped frame) :
    Scheduler.systemFlags frame.tfEflags =
      Scheduler.systemFlags regs.eflags := by
  have part : ~~~(userFlags ||| flRf) =
      ~~~flRf &&& ~~~(userFlags ||| flRf) := by
    decide
  unfold Scheduler.systemFlags
  rw [part, ← UInt32.and_assoc, ← UInt32.and_assoc, trapped.eflags]

end Registers.Trapped

/-! ## Where a frame stands -/

theorem utfBase_bounds {esp : UInt32} (room : HasRoom esp) :
    4005556232 ≤ (utfBase esp).toNat ∧
      (utfBase esp).toNat + 52 ≤ 4005560319 := by
  rw [utfBase_toNat room.holdsFrame]
  split
  · rename_i inside
    have above := room.above inside
    have bounds := inExstk_iff.mp inside
    omega
  · omega

theorem utfBase_below {esp : UInt32} (room : HasRoom esp)
    (inside : InExstk esp) : (utfBase esp).toNat + 56 = esp.toNat := by
  have above := room.above inside
  rw [utfBase_toNat room.holdsFrame, if_pos inside]
  omega

/-! ## The two parts of the upcall -/

/-- The handler has been called. -/
structure Called (program : Program) (state called : UserState)
    (frame : Trapframe) (faultVa : UInt32) : Prop where
  fit : Fit program called
  tables : SameTables program.pgdir state.mem called.mem
  eflags : systemFlags called.regs.eflags = systemFlags state.regs.eflags
  holds : called.mem.Holds program.pgdir (utfBase state.regs.esp)
    (wordBytes (uTrapframe frame faultVa))
  others : ∀ place, called.mem.byteAt place ≠ state.mem.byteAt place →
    state.mem.InFrames program.pgdir ((utfBase state.regs.esp).toNat + 52)
        place ∨
      InExstk state.regs.esp ∧
        state.mem.InWord program.pgdir (state.regs.esp - 4) place

/-- The upcall as the kernel starts it. -/
def startsUpcall (program : Program) (frame : Trapframe) (resumed : Kernel) :
    Thread :=
  ⟨.ofTrapframe
    { frame with tfEsp := utfBase frame.tfEsp, tfEip := program.upcall },
    resumed.mem⟩

theorem called_of_entered {resumed : Kernel} {thread : Thread}
    (fit : Fit program state) (trapped : state.regs.Trapped frame)
    (delivered : state.kernel.Delivered state.cpu program.e program.pgdir
      program.upcall frame faultVa resumed)
    (entered : Entered program.pgdir (utfBase frame.tfEsp)
      (startsUpcall program frame resumed) thread) :
    Called program state ⟨state.cpu, thread.regs, resumed.setMem thread.mem⟩
      frame faultVa := by
  have framed : Framed program.pgdir frame faultVa state.mem resumed.mem :=
    delivered.framed
  have tables : SameTables program.pgdir state.mem thread.mem :=
    framed.tables.trans entered.tables
  have esp := trapped.esp
  have runs := delivered.runs
  exact
    { fit :=
        { runs := ⟨runs.current, runs.running, runs.pgdir, runs.upcall⟩
          apart := tables.tablesApart fit.apart
          mapped := tables.exstkMapped fit.mapped }
      tables := tables
      eflags := by
        change systemFlags thread.regs.eflags = _
        rw [entered.eflags, ← trapped.systemFlags]
        rfl
      holds := by
        rw [← esp]
        exact entered.holds _ (length_uTrapframe frame faultVa) framed.holds
      others := by
        intro place changed
        rw [← esp]
        by_cases same : thread.mem.byteAt place = resumed.mem.byteAt place
        · refine framed.others place ?_
          intro still
          exact changed (same.trans still)
        · obtain ⟨va, inside, limited, found⟩ := entered.others place same
          refine .inl ⟨va, inside, by omega, ?_⟩
          rw [← framed.tables.translate]
          exact found }

theorem called_of_faults (fit : Fit program state)
    (registered : program.upcall ≠ 0) (room : HasRoom state.regs.esp)
    (faults : Faults program state next frame faultVa) :
    Called program state next frame faultVa := by
  obtain ⟨trapped, build, surroundings, resumed, thread, traps, enters, rfl⟩ :=
    faults
  rw [← trapped.esp] at room
  obtain ⟨other, same, delivered⟩ := trap_delivers build surroundings fit.runs
    registered fit.apart fit.mapped room.holdsFrame trapped.trapno faultVa
  rw [traps] at same
  cases same
  have tables := delivered.framed.tables
  have bounds := utfBase_bounds room
  have apart : (startsUpcall program frame resumed).mem.TablesApart
      program.pgdir := tables.tablesApart fit.apart
  have mapped : (startsUpcall program frame resumed).mem.ExstkMapped
      program.pgdir := tables.exstkMapped fit.mapped
  rw [delivered.envTf] at enters
  have loads := loads_of_upcallEntry apart mapped bounds.1
    (Nat.le_succ_of_le bounds.2) enters
  obtain ⟨last, enters', entered⟩ := execAll_upcallEntry apart mapped bounds.1
    (Nat.le_succ_of_le bounds.2) loads
  have same : some thread = some last := enters.symm.trans enters'
  cases same
  exact called_of_entered fit trapped delivered entered

/-- A page fault gets to the handler. -/
theorem faults_of_trapped (fit : Fit program state)
    (registered : program.upcall ≠ 0) (room : HasRoom state.regs.esp)
    (loads : (state.mem.loadWord program.pgdir
      program.handlerSymbol).isSome = true)
    (trapped : state.regs.Trapped frame) (faultVa : UInt32) :
    ∃ next, Faults program state next frame faultVa := by
  rw [← trapped.esp] at room
  obtain ⟨resumed, traps, delivered⟩ := trap_delivers .priorities
    { console := 0, uninitialised := none } fit.runs registered fit.apart
    fit.mapped room.holdsFrame trapped.trapno faultVa
  have tables := delivered.framed.tables
  have bounds := utfBase_bounds room
  have apart : (startsUpcall program frame resumed).mem.TablesApart
      program.pgdir := tables.tablesApart fit.apart
  have mapped : (startsUpcall program frame resumed).mem.ExstkMapped
      program.pgdir := tables.exstkMapped fit.mapped
  obtain ⟨thread, enters, -⟩ := execAll_upcallEntry apart mapped bounds.1
    (Nat.le_succ_of_le bounds.2) (tables.loadWord_isSome loads)
  refine ⟨_, trapped, _, _, resumed, thread, traps, ?_, rfl⟩
  rw [delivered.envTf]
  exact enters

/-- The program is back where the fault was. -/
structure Resumed (program : Program) (base : UInt32) (frame : Trapframe)
    (state next : UserState) : Prop where
  fit : Fit program next
  tables : SameTables program.pgdir state.mem next.mem
  regs : ∃ eflags, systemFlags eflags = systemFlags state.regs.eflags ∧
    next.regs = restored frame eflags
  others : ∀ place, next.mem.byteAt place ≠ state.mem.byteAt place →
    state.mem.InWord program.pgdir (frame.tfEsp - 4) place ∨
      state.mem.InWord program.pgdir (base + 48) place

theorem resumes_of_returned {base : UInt32} (fit : Fit program state)
    (low : 4005556224 ≤ base.toNat) (high : base.toNat + 52 ≤ 4005560320)
    (holds : state.mem.Holds program.pgdir base
      (wordBytes (uTrapframe frame faultVa)))
    (returned : Returned program base state)
    (writable : state.mem.Writable program.pgdir (frame.tfEsp - 4) 4)
    (disjoint : state.mem.Disjoint program.pgdir (frame.tfEsp - 4) base 52) :
    ∃ next, Resumes program state next ∧
      Resumed program base frame state next := by
  have isBase : state.thread.regs.esp + 4 = base := by
    change state.regs.esp + 4 = base
    rw [returned.1, UInt32.sub_add_cancel]
  obtain ⟨thread, returns, switched⟩ := execAll_upcallReturn fit.apart
    fit.mapped isBase low high holds writable disjoint
  have esp := switched.esp
  subst esp
  obtain ⟨eflags, sameFlags, restores⟩ : ∃ eflags,
      systemFlags eflags = systemFlags thread.regs.eflags ∧
      execAll program.pgdir upcallRestore thread =
        some ⟨restored frame eflags, thread.mem⟩ :=
    ⟨_, systemFlags_setStatus _ _, execAll_upcallRestore switched.holds
      switched.switched switched.pushed⟩
  refine ⟨state.withThread ⟨restored frame eflags, thread.mem⟩,
    ⟨_, ?_, rfl⟩, ?_⟩
  · rw [execAll_append, returns, Option.bind_some, restores]
  · have runs := fit.runs
    exact
      { fit :=
          { runs := ⟨runs.current, runs.running, runs.pgdir, runs.upcall⟩
            apart := switched.tables.tablesApart fit.apart
            mapped := switched.tables.exstkMapped fit.mapped }
        tables := switched.tables
        regs := ⟨eflags, sameFlags.trans switched.eflags, rfl⟩
        others := switched.others }

/-! ## What a run of a handler keeps -/

/-- The exception stack below the frames. -/
def below (program : Program) (frames : List UInt32) (state : UserState) :
    Set Place :=
  { place | ∃ va, InExstk va ∧ (∀ base ∈ frames, va < base) ∧
    state.mem.translate program.pgdir true va = some place }

/-- The frames lie on the exception stack. -/
def Placed (frames : List UInt32) : Prop :=
  ∀ base ∈ frames, 4005556224 ≤ base.toNat ∧ base.toNat + 52 ≤ 4005560320

structure Keeps (program : Program) (frames : List UInt32) (own : Set Place)
    (state next : UserState) : Prop where
  fit : Fit program next
  leaves : Leaves program frames state next
  touches : Touches state next (own ∪ below program frames state)

theorem Touches.trans {more : Set Place} (first : Touches state middle places)
    (second : Touches middle next more) :
    Touches state next (places ∪ more) := by
  intro place changed
  by_cases same : next.mem.byteAt place = middle.mem.byteAt place
  · rw [same] at changed
    exact .inl (first place changed)
  · exact .inr (second place same)

theorem Touches.mono {more : Set Place} (touches : Touches state next places)
    (inside : places ⊆ more) : Touches state next more :=
  fun place changed => inside (touches place changed)

theorem Leaves.refl (program : Program) (frames : List UInt32)
    (state : UserState) : Leaves program frames state state :=
  ⟨fun _ _ => rfl, fun _ _ _ _ holds => holds, rfl⟩

theorem Leaves.trans (first : Leaves program frames state middle)
    (second : Leaves program frames middle next) :
    Leaves program frames state next where
  exstk va inside := (second.exstk va inside).trans (first.exstk va inside)
  frames base member bytes length holds :=
    second.frames base member bytes length
      (first.frames base member bytes length holds)
  eflags := second.eflags.trans first.eflags

theorem Leaves.tail {base : UInt32}
    (leaves : Leaves program (base :: frames) state next) :
    Leaves program frames state next where
  exstk := leaves.exstk
  frames other member := leaves.frames other (List.mem_cons_of_mem _ member)
  eflags := leaves.eflags

theorem Leaves.below (leaves : Leaves program frames state next)
    (others : List UInt32) :
    Scheduler.below program others next =
      Scheduler.below program others state := by
  ext place
  constructor
  · rintro ⟨va, inside, under, found⟩
    exact ⟨va, inside, under, by rwa [← leaves.exstk va inside]⟩
  · rintro ⟨va, inside, under, found⟩
    exact ⟨va, inside, under, by rwa [leaves.exstk va inside]⟩

theorem below_tail (base : UInt32) :
    below program (base :: frames) state ⊆ below program frames state := by
  rintro place ⟨va, inside, under, found⟩
  exact ⟨va, inside, fun other member =>
    under other (List.mem_cons_of_mem _ member), found⟩

/-- What happens below the frames leaves them alone. -/
theorem leaves_of_below (placed : Placed frames)
    (tables : SameTables program.pgdir state.mem next.mem)
    (eflags : systemFlags next.regs.eflags = systemFlags state.regs.eflags)
    (touches : Touches state next (below program frames state)) :
    Leaves program frames state next where
  exstk va _ := tables.translate
  frames base member bytes length holds := by
    intro k inside
    have bounds := placed base member
    have here := holds k inside
    unfold PhysMem.loadByte at here ⊢
    rw [tables.translate]
    cases found : state.mem.translate program.pgdir false
        (base + UInt32.ofNat k) with
    | none =>
        rw [found] at here
        cases here
    | some place =>
        rw [found, Option.map_some] at here
        rw [Option.map_some, ← here]
        by_contra changed
        obtain ⟨va, stack, under, there⟩ := touches place fun same =>
          changed (congrArg some same)
        have lower := UInt32.lt_iff_toNat_lt.mp (under base member)
        have range := inExstk_iff.mp stack
        refine translate_ne ?_ found there
        rw [add_ofNat_mod]
        omega
  eflags := eflags

/-- The places of a word of the exception stack under the frames. -/
theorem inWord_below {va : UInt32} (low : 4005556224 ≤ va.toNat)
    (high : va.toNat + 4 ≤ 4005560320)
    (under : ∀ base ∈ frames, va.toNat + 4 ≤ base.toNat) {place : Place}
    (found : state.mem.InWord program.pgdir va place) :
    place ∈ below program frames state := by
  obtain ⟨k, inside, there⟩ := found
  have address : (va + UInt32.ofNat k).toNat = va.toNat + k := by
    rw [UInt32.toNat_add, UInt32.toNat_ofNat']
    omega
  refine ⟨_, inExstk_iff.mpr ⟨by omega, by omega⟩, ?_, there⟩
  intro base member
  have above := under base member
  rw [UInt32.lt_iff_toNat_lt]
  omega

theorem inFrames_below {limit : Nat}
    (under : ∀ base ∈ frames, limit ≤ base.toNat) {place : Place}
    (found : state.mem.InFrames program.pgdir limit place) :
    place ∈ below program frames state := by
  obtain ⟨va, inside, limited, there⟩ := found
  refine ⟨va, inside, ?_, there⟩
  intro base member
  have above := under base member
  rw [UInt32.lt_iff_toNat_lt]
  omega

theorem Resumes.unique {other : UserState} (first : Resumes program state next)
    (second : Resumes program state other) : next = other := by
  obtain ⟨thread, runs, rfl⟩ := first
  obtain ⟨thread', runs', rfl⟩ := second
  have same : some thread = some thread' := runs.symm.trans runs'
  cases same
  rfl

theorem touches_called {called : UserState} {esp : UInt32}
    (isEsp : state.regs.esp = esp) (room : HasRoom esp) (inside : InExstk esp)
    (under : ∀ base ∈ frames, esp ≤ base)
    (calls : Called program state called frame faultVa) :
    Touches state called (below program frames state) := by
  subst isEsp
  have stack := utfBase_below room inside
  have bounds := utfBase_bounds room
  have range := inExstk_iff.mp inside
  have four : (state.regs.esp - 4).toNat = state.regs.esp.toNat - 4 := by
    rw [UInt32.toNat_sub, show (4 : UInt32).toNat = 4 from rfl]
    omega
  have above : ∀ base ∈ frames, state.regs.esp.toNat ≤ base.toNat :=
    fun base member => UInt32.le_iff_toNat_le.mp (under base member)
  intro place changed
  rcases calls.others place changed with framed | ⟨-, word⟩
  · refine inFrames_below (fun base member => ?_) framed
    have higher := above base member
    omega
  · refine inWord_below (by omega) (by omega) (fun base member => ?_) word
    have higher := above base member
    omega

/-- A handler that returns to a trap-time stack on the exception stack. -/
theorem resumes_of_inside {esp : UInt32} (inside : InExstk esp)
    (room : HasRoom esp) (trapped : frame.tfEsp = esp) (fit : Fit program state)
    (holds : state.mem.Holds program.pgdir (utfBase esp)
      (wordBytes (uTrapframe frame faultVa)))
    (returns : Returned program (utfBase esp) state) :
    ∃ next, Resumes program state next ∧
      Resumed program (utfBase esp) frame state next := by
  subst trapped
  have stack := utfBase_below room inside
  have bounds := utfBase_bounds room
  have range := inExstk_iff.mp inside
  have four : (frame.tfEsp - 4).toNat = frame.tfEsp.toNat - 4 := by
    rw [UInt32.toNat_sub, show (4 : UInt32).toNat = 4 from rfl]
    omega
  refine resumes_of_returned fit (by omega) (by omega) holds returns
    (fit.mapped.part (by omega) (by omega)) (disjoint_of_offsets ?_)
  intro k small j inFrame
  omega

/-- A fault of the handler that has been served. -/
theorem keeps_of_fault {called returned : UserState} {inner : Set Place}
    (registered : program.upcall ≠ 0) (placed : Placed frames)
    (fit : Fit program state) (inside : InExstk state.regs.esp)
    (room : HasRoom state.regs.esp)
    (under : ∀ base ∈ frames, state.regs.esp ≤ base)
    (faults : Faults program state called frame faultVa)
    (keeps : Keeps program (utfBase state.regs.esp :: frames) inner called
      returned)
    (returns : Returned program (utfBase state.regs.esp) returned)
    (resumes : Resumes program returned next) :
    Keeps program frames inner state next := by
  have calls := called_of_faults fit registered room faults
  have trapped := faults.trapped.esp
  have stack := utfBase_below room inside
  have bounds := utfBase_bounds room
  have range := inExstk_iff.mp inside
  have above : ∀ base ∈ frames, state.regs.esp.toNat ≤ base.toNat :=
    fun base member => UInt32.le_iff_toNat_le.mp (under base member)
  have four : (state.regs.esp - 4).toNat = state.regs.esp.toNat - 4 := by
    rw [UInt32.toNat_sub, show (4 : UInt32).toNat = 4 from rfl]
    omega
  have slot : (utfBase state.regs.esp + 48).toNat =
      (utfBase state.regs.esp).toNat + 48 := by
    rw [UInt32.toNat_add, show (48 : UInt32).toNat = 48 from rfl]
    omega
  have entering := touches_called rfl room inside under calls
  have leavesCalled := leaves_of_below placed calls.tables calls.eflags entering
  have holds := keeps.leaves.frames _ List.mem_cons_self _
    (length_uTrapframe frame faultVa) calls.holds
  obtain ⟨other, resumesOther, resumed⟩ :=
    resumes_of_inside inside room trapped keeps.fit holds returns
  cases resumes.unique resumesOther
  have leaving : Touches returned next (below program frames returned) := by
    intro place changed
    rcases resumed.others place changed with word | word
    · rw [trapped] at word
      refine inWord_below (by omega) (by omega) (fun base member => ?_) word
      have higher := above base member
      omega
    · refine inWord_below (by omega) (by omega) (fun base member => ?_) word
      have higher := above base member
      omega
  have sameFlags : systemFlags next.regs.eflags =
      systemFlags returned.regs.eflags := by
    obtain ⟨eflags, same, regs⟩ := resumed.regs
    rw [regs, systemFlags_restored, same]
  have leavesNext :=
    leaves_of_below placed resumed.tables sameFlags leaving
  have leavesReturned := leavesCalled.trans keeps.leaves.tail
  refine ⟨resumed.fit, leavesReturned.trans leavesNext, ?_⟩
  refine ((entering.trans keeps.touches).trans leaving).mono ?_
  rw [leavesReturned.below]
  rintro place ((low | (isInner | low)) | low)
  · exact .inr low
  · exact .inl isInner
  · refine .inr (below_tail (utfBase state.regs.esp) ?_)
    rwa [leavesCalled.below] at low
  · exact .inr low

theorem keeps_of_handlerRun (registered : program.upcall ≠ 0)
    (placed : Placed frames) (fit : Fit program state)
    (run : HandlerRun program frames own state next) :
    Keeps program frames own state next := by
  induction run with
  | start frames state =>
      refine ⟨fit, .refl program frames state, ?_⟩
      intro place changed
      exact absurd rfl changed
  | @work frames own more state middle next run fitNext leaves touches
      induction =>
      have keeps := induction placed fit
      refine ⟨fitNext, keeps.leaves.trans leaves, ?_⟩
      refine (keeps.touches.trans touches).mono ?_
      rintro place ((isOwn | low) | isMore)
      · exact .inl (.inl isOwn)
      · exact .inr low
      · exact .inl (.inr isMore)
  | @fault frames own inner state middle called returned next frame faultVa run
      inside room under faults nested returns resumes induction inductionNested =>
      have keeps := induction placed fit
      have bounds := utfBase_bounds room
      have placedNested : Placed (utfBase middle.regs.esp :: frames) := by
        intro base member
        rcases List.mem_cons.mp member with rfl | outer
        · exact ⟨by omega, by omega⟩
        · exact placed base outer
      have calls := called_of_faults keeps.fit registered room faults
      have served := keeps_of_fault registered placed keeps.fit inside room
        under faults (inductionNested placedNested calls.fit) returns resumes
      refine ⟨served.fit, keeps.leaves.trans served.leaves, ?_⟩
      refine (keeps.touches.trans served.touches).mono ?_
      rw [keeps.leaves.below]
      rintro place ((isOwn | low) | (isInner | low))
      · exact .inl (.inl isOwn)
      · exact .inr low
      · exact .inl (.inr isInner)
      · exact .inr low

/-! ## Delivery and return -/

/-- The word below the trap-time stack is writable when the handler returns, and
it is no part of the frame.  On the exception stack both hold anyway. -/
def SpareWord (program : Program) (esp : UInt32) (returned : UserState) : Prop :=
  ¬ InExstk esp → returned.mem.Writable program.pgdir (esp - 4) 4 ∧
    returned.mem.Disjoint program.pgdir (esp - 4) (utfBase esp) 52

/-- The places that a fault may change when it is served. -/
def Served (program : Program) (own : Set Place)
    (state returned : UserState) : Set Place :=
  own ∪
    { place | state.mem.InFrames program.pgdir
      ((utfBase state.regs.esp).toNat + 52) place } ∪
    { place | returned.mem.InWord program.pgdir (state.regs.esp - 4) place }

theorem touches_served {called returned : UserState}
    (room : HasRoom state.regs.esp) (trapped : frame.tfEsp = state.regs.esp)
    (calls : Called program state called frame faultVa)
    (keeps : Keeps program (utfBase state.regs.esp :: frames) own called
      returned)
    (resumed : Resumed program (utfBase state.regs.esp) frame returned next) :
    Touches state next (Served program own state returned) := by
  have bounds := utfBase_bounds room
  -- The exception stack stays where it was.
  have stays : ∀ va, InExstk va → returned.mem.translate program.pgdir true va =
      state.mem.translate program.pgdir true va := by
    intro va inside
    rw [keeps.leaves.exstk va inside, calls.tables.translate]
  have entering : Touches state called (Served program own state returned) := by
    intro place changed
    rcases calls.others place changed with framed | ⟨inside, k, small, found⟩
    · exact .inl (.inr framed)
    · refine .inr ⟨k, small, ?_⟩
      have above := room.above inside
      have range := inExstk_iff.mp inside
      rw [stays _ ?_]
      · exact found
      · rw [inExstk_iff, UInt32.toNat_add, UInt32.toNat_ofNat',
          UInt32.toNat_sub, show (4 : UInt32).toNat = 4 from rfl]
        omega
  have handling : Touches called returned
      (Served program own state returned) := by
    intro place changed
    rcases keeps.touches place changed with isOwn | ⟨va, inside, under, found⟩
    · exact .inl (.inl isOwn)
    · refine .inl (.inr ⟨va, inside, ?_, ?_⟩)
      · have lower := UInt32.lt_iff_toNat_lt.mp (under _ List.mem_cons_self)
        omega
      · rw [← calls.tables.translate]
        exact found
  have leaving : Touches returned next (Served program own state returned) := by
    intro place changed
    rcases resumed.others place changed with word | ⟨k, small, found⟩
    · rw [trapped] at word
      exact .inr word
    · have address : (utfBase state.regs.esp + 48 + UInt32.ofNat k).toNat =
          (utfBase state.regs.esp).toNat + 48 + k := by
        rw [UInt32.toNat_add, UInt32.toNat_add, UInt32.toNat_ofNat',
          show (48 : UInt32).toNat = 48 from rfl]
        omega
      have inside : InExstk
          (utfBase state.regs.esp + 48 + UInt32.ofNat k) :=
        inExstk_iff.mpr ⟨by omega, by omega⟩
      refine .inl (.inr ⟨_, inside, by omega, ?_⟩)
      rw [← stays _ inside]
      exact found
  refine ((entering.trans handling).trans leaving).mono ?_
  rintro place ((isServed | isServed) | isServed) <;> exact isServed

/-- The page of the exception stack and that of the normal stack. -/
def stackMem : PhysMem :=
  { npages := 8
    pages := fun _ => { ppLink := none, ppRef := 1 }
    pageFreeList := none
    ram := fun page index =>
      if page = 1 ∧ index = 954 then 0x2007
      else if page = 2 ∧ index = 1023 then 0x3007
      else if page = 2 ∧ index = 1021 then 0x4007
      else if page = 4 ∧ index = 0 then 0x800040
      else 0 }

/-- Its upcall is at 0x800100, and `_pgfault_handler` is the first word of its
stack. -/
def stackProgram : Program :=
  { e := 0, pgdir := 1, upcall := 0x800100, handlerSymbol := 0xEEBFD000 }

def stackKernel : Kernel :=
  { Kernel.initial stackMem 7 with
    envs := Function.update initialEnv 0
      { initialEnv 0 with
        envStatus := .running
        envPgdir := some 1
        envPgfaultUpcall := 0x800100 }
    cpus := Function.update (fun _ => none) 0 (some 0) }

/-- The program at 0x800020 with the stack pointer `esp`. -/
def stackState (esp : UInt32) : UserState :=
  { cpu := 0
    regs :=
      { edi := 1, esi := 2, ebp := 3, ebx := 4, edx := 5, ecx := 6, eax := 7
        esp := esp, eip := 0x800020, eflags := 0x202 }
    kernel := stackKernel }

def stackFrame (esp : UInt32) : Trapframe :=
  { Trapframe.zero with
    tfRegs := ⟨1, 2, 3, 0, 4, 5, 6, 7⟩
    tfTrapno := 14
    tfErr := 6
    tfEip := 0x800020
    tfEflags := 0x202
    tfEsp := esp }

/-- The program goes on at `eip`, with another stack pointer. -/
def UserState.goesTo (state : UserState) (esp eip : UInt32) : UserState :=
  { state with regs := { state.regs with esp := esp, eip := eip } }

/-- The handler returns to the upcall. -/
def UserState.handled (program : Program) (base : UInt32)
    (called : UserState) : UserState :=
  called.goesTo (base - 4) (program.upcall + 8)

theorem UserState.handled_mem (program : Program) (base : UInt32)
    (called : UserState) : (called.handled program base).mem = called.mem :=
  rfl

theorem stackMem_translate {writes : Bool} {va : UInt32} {place : Place}
    (found : stackMem.translate 1 writes va = some place) :
    va.toNat / 2 ^ 12 % 1024 = 1023 ∧ place.1 = 3 ∨
      va.toNat / 2 ^ 12 % 1024 = 1021 ∧ place.1 = 4 := by
  have zero : (0 : UInt32) &&& userRights writes ≠ userRights writes := by
    cases writes <;> decide
  unfold PhysMem.translate at found
  dsimp only at found
  split at found
  · rename_i granted
    cases found
    have table : pteFrame (stackMem.ram 1 (pdx va)) = 2 := by
      by_cases index : pdx va = 954
      · rw [index]
        rfl
      · have empty : stackMem.ram 1 (pdx va) = 0 := by
          simp [stackMem, index]
        rw [empty] at granted
        exact absurd granted.1 zero
    have entry := granted.2
    rw [table] at entry ⊢
    by_cases first : ptx va = 1023
    · refine .inl ⟨first, ?_⟩
      rw [first]
      rfl
    · by_cases second : ptx va = 1021
      · refine .inr ⟨second, ?_⟩
        rw [second]
        rfl
      · have empty : stackMem.ram 2 (ptx va) = 0 := by
          simp [stackMem, first, second]
        rw [empty] at entry
        exact absurd entry zero
  · cases found

theorem fit_stackState (esp : UInt32) : Fit stackProgram (stackState esp) where
  runs := ⟨rfl, rfl, rfl, rfl⟩
  apart := by
    rintro va place found (isDirectory | ⟨i, -, present, isTable⟩)
    · have directory : place.1 = 1 := isDirectory
      rcases stackMem_translate found with ⟨-, page⟩ | ⟨-, page⟩ <;> omega
    · have table : pteFrame (stackMem.ram 1 i) = 2 := by
        by_cases index : i = 954
        · subst index
          rfl
        · have empty : stackMem.ram 1 i = 0 := by
            simp [stackMem, index]
          have absent : stackMem.ram 1 i &&& pteP ≠ 0 := present
          rw [empty] at absent
          exact absurd rfl absent
      have isTable' : place.1 = pteFrame (stackMem.ram 1 i) := isTable
      rcases stackMem_translate found with ⟨-, page⟩ | ⟨-, page⟩ <;> omega
  mapped := by
    constructor
    · change stackMem.Valid (pteFrame (stackMem.ram 1 (pdx (uxStackTop - 4096))))
      decide
    · intro k below
      have address : (uxStackTop - 4096 + UInt32.ofNat k).toNat =
          4005556224 + k := by
        rw [UInt32.toNat_add, UInt32.toNat_ofNat',
          show (uxStackTop - 4096).toNat = 4005556224 from rfl]
        omega
      have directory : pdx (uxStackTop - 4096 + UInt32.ofNat k) = 954 := by
        unfold pdx
        omega
      have table : ptx (uxStackTop - 4096 + UInt32.ofNat k) = 1023 := by
        unfold ptx
        omega
      change (stackMem.translate 1 true
        (uxStackTop - 4096 + UInt32.ofNat k)).isSome = true
      unfold PhysMem.translate
      dsimp only
      rw [directory, table, if_pos ⟨by decide, by decide⟩]
      rfl

theorem trapped_stackFrame (esp : UInt32) :
    (stackState esp).regs.Trapped (stackFrame esp) :=
  ⟨rfl, rfl⟩

theorem fit_goesTo (fit : Fit program state) (esp eip : UInt32) :
    Fit program (state.goesTo esp eip) := by
  have runs := fit.runs
  exact ⟨⟨runs.current, runs.running, runs.pgdir, runs.upcall⟩, fit.apart,
    fit.mapped⟩

/-- A handler that changes no memory. -/
theorem HandlerRun.goesTo (run : HandlerRun program frames ∅ state middle)
    (fit : Fit program middle) (esp eip : UInt32) :
    HandlerRun program frames ∅ state (middle.goesTo esp eip) := by
  have more : HandlerRun program frames (∅ ∪ ∅) state
      (middle.goesTo esp eip) := by
    refine run.work (fit_goesTo fit esp eip) ?_ ?_
    · exact ⟨fun _ _ => rfl, fun _ _ _ _ holds => holds, rfl⟩
    · intro place changed
      exact absurd rfl changed
  rwa [Set.union_self] at more

theorem spareWord_stack {returned : UserState}
    (tables : SameTables 1 stackMem returned.mem) :
    SpareWord stackProgram uStackTop returned := by
  intro outside
  constructor
  · intro k below
    change (returned.mem.translate 1 true _).isSome = true
    rw [tables.translate]
    revert k
    decide +kernel
  · intro k below j inside place found there
    have found' : returned.mem.translate 1 false
      (utfBase uStackTop + UInt32.ofNat j) = some place := found
    have there' : returned.mem.translate 1 true
      (uStackTop - 4 + UInt32.ofNat k) = some place := there
    rw [tables.translate] at found' there'
    have first := stackMem_translate found'
    have second := stackMem_translate there'
    rw [UInt32.toNat_add, UInt32.toNat_ofNat'] at first second
    rw [show (utfBase uStackTop).toNat = 4005560267 from rfl] at first
    rw [show (uStackTop - 4).toNat = 4005552124 from rfl] at second
    omega

/-- The trap frame of a fault in a handler. -/
def Registers.trapframe (regs : Registers) : Trapframe :=
  { Trapframe.zero with
    tfRegs :=
      ⟨regs.edi, regs.esi, regs.ebp, 0, regs.ebx, regs.edx, regs.ecx, regs.eax⟩
    tfTrapno := 14
    tfErr := 4
    tfEip := regs.eip
    tfEflags := regs.eflags
    tfEsp := regs.esp }

theorem Registers.trapped_trapframe (regs : Registers) :
    regs.Trapped regs.trapframe :=
  ⟨rfl, rfl⟩

/-- A handler that faults goes on behind the fault when the inner handler changes
no memory. -/
theorem HandlerRun.faulting (registered : program.upcall ≠ 0)
    (run : HandlerRun program frames ∅ state middle) (fit : Fit program middle)
    (inside : InExstk middle.regs.esp) (room : HasRoom middle.regs.esp)
    (under : ∀ base ∈ frames, middle.regs.esp ≤ base)
    (loads : (middle.mem.loadWord program.pgdir
      program.handlerSymbol).isSome = true) (faultVa : UInt32) :
    ∃ next, HandlerRun program frames ∅ state next ∧ Fit program next ∧
      SameTables program.pgdir middle.mem next.mem := by
  obtain ⟨called, faults⟩ := faults_of_trapped fit registered room loads
    middle.regs.trapped_trapframe faultVa
  have calls := called_of_faults fit registered room faults
  have inner : HandlerRun program (utfBase middle.regs.esp :: frames) ∅ called
      (called.handled program (utfBase middle.regs.esp)) :=
    (HandlerRun.start _ called).goesTo calls.fit _ _
  have fits : Fit program (called.handled program (utfBase middle.regs.esp)) :=
    fit_goesTo calls.fit _ _
  have returns : Returned program (utfBase middle.regs.esp)
      (called.handled program (utfBase middle.regs.esp)) :=
    ⟨rfl, rfl⟩
  have trapped : middle.regs.trapframe.tfEsp = middle.regs.esp := rfl
  obtain ⟨next, resumes, resumed⟩ :=
    resumes_of_inside inside room trapped fits calls.holds returns
  have served := run.fault inside room under faults inner returns resumes
  rw [Set.union_self] at served
  exact ⟨next, served, resumed.fit, calls.tables.trans resumed.tables⟩

/-- The handler, which has its locals below the frame, faults itself. -/
theorem handlerRun_nested {base esp : UInt32} {called : UserState}
    (registered : program.upcall ≠ 0) (fit : Fit program called)
    (inside : InExstk esp) (room : HasRoom esp) (under : esp ≤ base)
    (loads : (called.mem.loadWord program.pgdir
      program.handlerSymbol).isSome = true) :
    ∃ returned, HandlerRun program [base] ∅ called returned ∧
      Returned program base returned ∧
      SameTables program.pgdir called.mem returned.mem := by
  have working : HandlerRun program [base] ∅ called
      (called.goesTo esp program.upcall) :=
    (HandlerRun.start _ called).goesTo fit _ _
  have isUnder : ∀ other ∈ [base],
      (called.goesTo esp program.upcall).regs.esp ≤ other := by
    intro other member
    rw [List.mem_singleton.mp member]
    exact under
  obtain ⟨back, served, fitBack, same⟩ := working.faulting registered
    (fit_goesTo fit _ _) inside room isUnder loads 0xEEBFC000
  exact ⟨back.handled program base, served.goesTo fitBack _ _, ⟨rfl, rfl⟩, same⟩

/-- The trap-time stack is the exception stack, and it is empty.  The word for
the trap-time `eip` is a part of the frame. -/
theorem resumes_of_top (fit : Fit program state)
    (top : frame.tfEsp = uxStackTop)
    (holds : state.mem.Holds program.pgdir (utfBase uxStackTop)
      (wordBytes (uTrapframe frame faultVa)))
    (returned : Returned program (utfBase uxStackTop) state) :
    ∃ next, Resumes program state next ∧
      next.regs.eip = wordOf [0xFF, 0xBF, 0xEE, getByte frame.tfEip 3] := by
  have isBase : state.thread.regs.esp + 4 = utfBase uxStackTop := by
    change state.regs.esp + 4 = _
    rw [returned.1, UInt32.sub_add_cancel]
  have base : (utfBase uxStackTop).toNat = 4005560267 := rfl
  have slotAddress : (utfBase uxStackTop + 48).toNat = 4005560315 := rfl
  have spareAddress : (uxStackTop - 4).toNat = 4005560316 := rfl
  have eip : state.mem.loadWord program.pgdir (utfBase uxStackTop + 40) =
      some frame.tfEip := loadWord_of_holds holds 10 (Nat.le_of_ble_eq_true rfl)
  have esp : state.mem.loadWord program.pgdir (utfBase uxStackTop + 48) =
      some uxStackTop := by
    have there : state.mem.loadWord program.pgdir
        (utfBase uxStackTop + 48) = some frame.tfEsp :=
      loadWord_of_holds holds 12 (Nat.le_of_ble_eq_true rfl)
    rw [there, top]
  have spare : state.mem.Writable program.pgdir (uxStackTop - 4) 4 :=
    fit.mapped.part (by omega) (by omega)
  obtain ⟨first, storesEip, wroteEip⟩ :=
    storeWord_wrote frame.tfEip fit.apart spare
  have slot : first.Writable program.pgdir (utfBase uxStackTop + 48) 4 :=
    (wroteEip.tables.exstkMapped fit.mapped).part (by omega) (by omega)
  obtain ⟨second, storesEsp, wroteEsp⟩ := storeWord_wrote (uxStackTop - 4)
    (wroteEip.tables.tablesApart fit.apart) slot
  have front : state.mem.Holds program.pgdir (utfBase uxStackTop)
      (wordBytes ((uTrapframe frame faultVa).take 12)) := by
    have whole : state.mem.Holds program.pgdir (utfBase uxStackTop)
        (wordBytes ((uTrapframe frame faultVa).take 12) ++
          wordBytes [frame.tfEsp]) := holds
    exact whole.front
  have stays : second.Holds program.pgdir (utfBase uxStackTop)
      (wordBytes ((uTrapframe frame faultVa).take 12)) := by
    refine wroteEsp.holds_same (disjoint_of_offsets ?_)
      (wroteEip.holds_same (disjoint_of_offsets ?_) front)
    · intro k small j inside
      have short : j < 48 := inside
      omega
    · intro k small j inside
      have short : j < 48 := inside
      omega
  have switched := wroteEsp.loadWord slot
  have slotBytes := wroteEsp.holds slot
  have pushed : second.loadWord program.pgdir (uxStackTop - 4) =
      some (wordOf [0xFF, 0xBF, 0xEE, getByte frame.tfEip 3]) := by
    have four : (wordBytes [uxStackTop - 4]).length = 4 := rfl
    have four' : (wordBytes [frame.tfEip]).length = 4 := rfl
    have byte0 : second.loadByte program.pgdir (uxStackTop - 4) =
        some 0xFF := slotBytes 1 (by omega)
    have byte1 : second.loadByte program.pgdir (uxStackTop - 4 + 1) =
        some 0xBF := slotBytes 2 (by omega)
    have byte2 : second.loadByte program.pgdir (uxStackTop - 4 + 2) =
        some 0xEE := slotBytes 3 (by omega)
    have byte3 : first.loadByte program.pgdir (uxStackTop - 4 + 3) =
        some (getByte frame.tfEip 3) := wroteEip.holds spare 3 (by omega)
    have same : second.loadByte program.pgdir (uxStackTop - 4 + 3) =
        first.loadByte program.pgdir (uxStackTop - 4 + 3) := by
      refine wroteEsp.loadByte_same fun k small place found => ?_
      refine translate_ne ?_ found
      rw [add_ofNat_mod, slotAddress,
        show (uxStackTop - 4 + 3).toNat = 4005560319 from rfl]
      omega
    unfold PhysMem.loadWord
    rw [byte0, byte1, byte2, same, byte3]
    rfl
  have returns : execAll program.pgdir upcallReturn state.thread =
      some ⟨state.thread.regs.switched (utfBase uxStackTop) frame.tfEip
        uxStackTop, second⟩ :=
    execAll_upcallReturn_of_stores isBase eip esp storesEip storesEsp
  have isSpare : uxStackTop - 4 = frame.tfEsp - 4 := by rw [top]
  rw [isSpare] at switched pushed
  obtain ⟨regs, restores, isEip⟩ : ∃ regs,
      execAll program.pgdir upcallRestore
        ⟨state.thread.regs.switched (utfBase uxStackTop) frame.tfEip uxStackTop,
          second⟩ = some ⟨regs, second⟩ ∧
      regs.eip = wordOf [0xFF, 0xBF, 0xEE, getByte frame.tfEip 3] :=
    ⟨_, execAll_upcallRestore stays switched pushed, rfl⟩
  refine ⟨state.withThread ⟨regs, second⟩, ⟨_, ?_, rfl⟩, isEip⟩
  rw [execAll_append, returns, Option.bind_some]
  exact restores

end FeaturesOS.Scheduler

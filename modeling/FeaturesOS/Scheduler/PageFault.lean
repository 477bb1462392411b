import FeaturesOS.Scheduler.Frames
import FeaturesOS.Scheduler.Trap
import FeaturesOS.Scheduler.UserMemory

/-!
# The frame of a page fault

`page_fault_handler` stores a `struct UTrapframe` on the exception stack and
resumes the environment in its upcall.
-/

namespace FeaturesOS.Scheduler

open Entry PhysMem

/-- The processor runs `e` in the address space `pgdir`, and `e` has registered
the upcall. -/
structure Kernel.RunsIn (kernel : Kernel) (cpu e pgdir : Nat)
    (upcall : UInt32) : Prop where
  current : kernel.cpus cpu = some e
  running : (kernel.envs e).envStatus = .running
  pgdir : (kernel.envs e).envPgdir = some pgdir
  upcall : (kernel.envs e).envPgfaultUpcall = upcall

/-- An address of the exception stack. -/
def InExstk (va : UInt32) : Prop :=
  uxStackTop - 4096 ≤ va ∧ va ≤ uxStackTop - 1

instance (va : UInt32) : Decidable (InExstk va) :=
  inferInstanceAs (Decidable (_ ∧ _))

/-- The exception stack is mapped, and the program may write to it. -/
structure PhysMem.ExstkMapped (mem : PhysMem) (pgdir : Nat) : Prop where
  valid : mem.Valid (pteFrame (mem.ram pgdir (pdx (uxStackTop - 4096))))
  writable : mem.Writable pgdir (uxStackTop - 4096) 4096

/-- Where the kernel stores the frame of a fault with the stack pointer `esp`. -/
def utfBase (esp : UInt32) : UInt32 :=
  if InExstk esp then esp - 4 - uTrapframeSize
  else uxStackTop - 1 - uTrapframeSize

/-- The exception stack has room for the frame of a fault and for the two words
that the upcall pushes. -/
def HasRoom (esp : UInt32) : Prop :=
  InExstk esp → (uxStackTop - 4096).toNat + 64 ≤ esp.toNat

/-- The exception stack has room for the frame of a fault and the spare word. -/
def HoldsFrame (esp : UInt32) : Prop :=
  InExstk esp → (uxStackTop - 4096).toNat + 56 ≤ esp.toNat

/-- The place belongs to the exception stack below `limit`. -/
def PhysMem.InFrames (mem : PhysMem) (pgdir : Nat) (limit : Nat)
    (place : Place) : Prop :=
  ∃ va, InExstk va ∧ va.toNat < limit ∧
    mem.translate pgdir true va = some place

/-- The place belongs to the word at `va`. -/
def PhysMem.InWord (mem : PhysMem) (pgdir : Nat) (va : UInt32)
    (place : Place) : Prop :=
  ∃ k < 4, mem.translate pgdir true (va + UInt32.ofNat k) = some place

variable {kernel : Kernel} {mem next : PhysMem} {cpu e pgdir : Nat}
variable {upcall esp va : UInt32} {frame : Trapframe} {place : Place}

/-! ## The exception stack -/

theorem inExstk_iff :
    InExstk va ↔ 4005556224 ≤ va.toNat ∧ va.toNat ≤ 4005560319 :=
  Iff.rfl

theorem HasRoom.above (room : HasRoom esp) (inside : InExstk esp) :
    4005556288 ≤ esp.toNat :=
  room inside

theorem HoldsFrame.above (room : HoldsFrame esp) (inside : InExstk esp) :
    4005556280 ≤ esp.toNat :=
  room inside

theorem HasRoom.holdsFrame (room : HasRoom esp) : HoldsFrame esp := by
  intro inside
  have above := room inside
  omega

theorem exists_offset (inside : InExstk va) :
    ∃ k < 4096, va = uxStackTop - 4096 + UInt32.ofNat k := by
  obtain ⟨low, high⟩ := inExstk_iff.mp inside
  refine ⟨va.toNat - 4005556224, by omega, ?_⟩
  apply UInt32.toNat_inj.mp
  have base : (uxStackTop - 4096).toNat = 4005556224 := rfl
  rw [UInt32.toNat_add, UInt32.toNat_ofNat', base]
  omega

theorem PhysMem.ExstkMapped.translate (mapped : mem.ExstkMapped pgdir)
    (inside : InExstk va) : (mem.translate pgdir true va).isSome = true := by
  obtain ⟨k, below, rfl⟩ := exists_offset inside
  exact mapped.writable k below

/-- A part of the exception stack is writable. -/
theorem PhysMem.ExstkMapped.part (mapped : mem.ExstkMapped pgdir)
    {count : Nat} (low : 4005556224 ≤ va.toNat)
    (high : va.toNat + count ≤ 4005560320) : mem.Writable pgdir va count := by
  intro k below
  apply mapped.translate
  rw [inExstk_iff, UInt32.toNat_add, UInt32.toNat_ofNat']
  omega

theorem PhysMem.SameTables.exstkMapped (same : SameTables pgdir mem next)
    (mapped : mem.ExstkMapped pgdir) : next.ExstkMapped pgdir where
  valid := by
    unfold PhysMem.Valid
    rw [same.npages, same.table pgdir (.inl rfl)]
    exact mapped.valid
  writable := by
    intro k below
    rw [same.translate]
    exact mapped.writable k below

theorem utfBase_toNat (room : HoldsFrame esp) :
    (utfBase esp).toNat =
      if InExstk esp then esp.toNat - 56 else 4005560267 := by
  unfold utfBase
  split
  · rename_i inside
    have above := room.above inside
    have bound := esp.toNat_lt
    have four : (4 : UInt32).toNat = 4 := rfl
    have size : uTrapframeSize.toNat = 52 := rfl
    rw [UInt32.toNat_sub, UInt32.toNat_sub, four, size]
    omega
  · rfl

/-! ## The kernel's side -/

theorem userMemCheck_exstk (mapped : mem.ExstkMapped pgdir) :
    mem.userMemCheck pgdir (uxStackTop - 4096) 4096 (pteU ||| pteW ||| pteU) =
      some true := by
  have first := mapped.writable 0 (by decide)
  have zero : uxStackTop - 4096 + UInt32.ofNat 0 = uxStackTop - 4096 := rfl
  rw [zero] at first
  obtain ⟨place, found⟩ := Option.isSome_iff_exists.mp first
  unfold PhysMem.translate at found
  dsimp only at found
  split at found
  · rename_i granted
    have present := userRights_present true granted.1
    have pde : mem.ram pgdir (pdx (uxStackTop - 4096)) ≠ 0 := by
      intro zero
      rw [zero] at present
      exact present rfl
    have walks : mem.pgdirWalk pgdir (uxStackTop - 4096) false =
        some (mem, some ⟨pteFrame (mem.ram pgdir (pdx (uxStackTop - 4096))),
          ptx (uxStackTop - 4096)⟩) := by
      unfold PhysMem.pgdirWalk PhysMem.tableEntry
      rw [if_neg (fun both => pde both.1)]
      dsimp only
      rw [if_neg pde, if_pos mapped.valid]
    have rights : pteU ||| pteW ||| pteU ||| pteP = userRights true := rfl
    have pages : ((roundUp (uxStackTop - 4096 + 4096)).toNat -
        (roundDown (uxStackTop - 4096)).toNat) / pgSize = 1 := rfl
    have low : roundDown (uxStackTop - 4096) = uxStackTop - 4096 := rfl
    unfold PhysMem.userMemCheck
    dsimp only
    rw [if_neg (by decide), pages, low]
    unfold PhysMem.userMemCheckFrom
    rw [walks, rights]
    dsimp only [Option.bind_eq_bind, Option.bind_some]
    have entry : mem.load ⟨pteFrame (mem.ram pgdir (pdx (uxStackTop - 4096))),
        ptx (uxStackTop - 4096)⟩ &&& userRights true = userRights true :=
      granted.2
    rw [if_neg (not_not_intro entry)]
    rfl
  · cases found

/-- The frame is stored, and above it in the recursive case the spare word. -/
structure PhysMem.Framed (pgdir : Nat) (frame : Trapframe) (faultVa : UInt32)
    (mem next : PhysMem) : Prop where
  tables : SameTables pgdir mem next
  holds : next.Holds pgdir (utfBase frame.tfEsp)
    (wordBytes (uTrapframe frame faultVa))
  others : ∀ place, next.byteAt place ≠ mem.byteAt place →
    mem.InFrames pgdir ((utfBase frame.tfEsp).toNat + 52) place ∨
      InExstk frame.tfEsp ∧ mem.InWord pgdir (frame.tfEsp - 4) place

theorem length_uTrapframe (frame : Trapframe) (faultVa : UInt32) :
    (wordBytes (uTrapframe frame faultVa)).length = 52 :=
  length_wordBytes _

/-- What is stored into the exception stack lies there. -/
theorem PhysMem.Wrote.inFrames {bytes : List UInt8} {limit : Nat}
    (wrote : Wrote pgdir va bytes mem next) (low : 4005556224 ≤ va.toNat)
    (high : va.toNat + bytes.length ≤ 4005560320)
    (limited : va.toNat + bytes.length ≤ limit)
    (changed : next.byteAt place ≠ mem.byteAt place) :
    mem.InFrames pgdir limit place := by
  by_contra outside
  refine changed (wrote.others place fun k below found => outside ?_)
  refine ⟨va + UInt32.ofNat k, ?_, ?_, found⟩
  · rw [inExstk_iff, UInt32.toNat_add, UInt32.toNat_ofNat']
    omega
  · rw [UInt32.toNat_add, UInt32.toNat_ofNat']
    omega

theorem exists_framed (apart : mem.TablesApart pgdir)
    (mapped : mem.ExstkMapped pgdir) (room : HoldsFrame frame.tfEsp)
    (faultVa : UInt32) :
    ∃ middle next,
      storeBytes pgdir mem (frame.tfEsp - 4)
        (wordBytes (if InExstk frame.tfEsp then [0] else [])) = some middle ∧
      storeBytes pgdir middle (utfBase frame.tfEsp)
        (wordBytes (uTrapframe frame faultVa)) = some next ∧
      mem.Framed pgdir frame faultVa next := by
  have base := utfBase_toNat room
  have length := length_uTrapframe frame faultVa
  obtain ⟨middle, scratch, wroteScratch⟩ : ∃ middle,
      storeBytes pgdir mem (frame.tfEsp - 4)
        (wordBytes (if InExstk frame.tfEsp then [0] else [])) = some middle ∧
      Wrote pgdir (frame.tfEsp - 4)
        (wordBytes (if InExstk frame.tfEsp then [0] else [])) mem middle := by
    by_cases inside : InExstk frame.tfEsp
    · have above := room.above inside
      have bounds := inExstk_iff.mp inside
      have four : (frame.tfEsp - 4).toNat = frame.tfEsp.toNat - 4 := by
        rw [UInt32.toNat_sub, show (4 : UInt32).toNat = 4 from rfl]
        omega
      have short : (wordBytes [0]).length = 4 := rfl
      rw [if_pos inside]
      refine storeBytes_wrote apart ?_ (by omega)
      rw [short]
      exact mapped.part (by omega) (by omega)
    · rw [if_neg inside]
      refine storeBytes_wrote apart ?_ (Nat.zero_le _)
      intro k below
      exact absurd below (Nat.not_lt_zero k)
  have low : 4005556224 ≤ (utfBase frame.tfEsp).toNat ∧
      (utfBase frame.tfEsp).toNat + 52 ≤ 4005560320 := by
    rw [base]
    split
    · rename_i inside
      have above := room.above inside
      have bounds := inExstk_iff.mp inside
      omega
    · omega
  have writable : middle.Writable pgdir (utfBase frame.tfEsp)
      (wordBytes (uTrapframe frame faultVa)).length := by
    rw [length]
    exact (wroteScratch.tables.exstkMapped mapped).part low.1 low.2
  obtain ⟨next, stored, wrote⟩ := storeBytes_wrote
    (wroteScratch.tables.tablesApart apart) writable (by omega)
  refine ⟨middle, next, scratch, stored, ?_⟩
  refine ⟨wroteScratch.tables.trans wrote.tables, wrote.holds writable, ?_⟩
  intro place changed
  by_cases second : next.byteAt place = middle.byteAt place
  · right
    rw [second] at changed
    by_contra outside
    refine changed (wroteScratch.others place fun k below found => outside ?_)
    by_cases inside : InExstk frame.tfEsp
    · rw [if_pos inside] at below
      exact ⟨inside, k, below, found⟩
    · rw [if_neg inside] at below
      exact absurd below (Nat.not_lt_zero k)
  · left
    obtain ⟨va, inside, limited, found⟩ :=
      wrote.inFrames low.1 (by omega) (by rw [length]) second
    rw [wroteScratch.tables.translate] at found
    exact ⟨va, inside, limited, found⟩

theorem theCurenv_run (current : kernel.cpus cpu = some e) :
    theCurenv cpu kernel = .returns e kernel := by
  unfold theCurenv
  rw [read_bind_run, current]
  rfl

theorem storeWords_run {words : List UInt32}
    (hasPgdir : (kernel.envs e).envPgdir = some pgdir)
    (stored : storeBytes pgdir kernel.mem va (wordBytes words) = some next) :
    storeWords e va words kernel = .returns () (kernel.setMem next) := by
  unfold storeWords onPgdir
  rw [read_bind_run, hasPgdir]
  unfold onMem
  dsimp only
  rw [stored]
  rfl

theorem userMemAssert_run (build : Build) (runs : kernel.RunsIn cpu e pgdir upcall)
    (mapped : kernel.mem.ExstkMapped pgdir) :
    userMemAssert build cpu e (uxStackTop - 4096) 4096 (pteU ||| pteW) kernel =
      .returns () kernel := by
  unfold userMemAssert
  rw [read_bind_run]
  unfold Kernel.userMemCheck
  rw [runs.pgdir, Option.bind_some, userMemCheck_exstk mapped]
  rfl

theorem outside_iff :
    (esp < uxStackTop - 4096 ∨ esp > uxStackTop - 1) ↔ ¬ InExstk esp := by
  unfold InExstk
  rw [not_and_or, UInt32.not_le, UInt32.not_le]

/-- The frame is on the exception stack, and the upcall is going to run. -/
structure Kernel.Delivered (kernel : Kernel) (cpu e pgdir : Nat)
    (upcall : UInt32) (frame : Trapframe) (faultVa : UInt32)
    (next : Kernel) : Prop where
  runs : next.RunsIn cpu e pgdir upcall
  envTf : (next.envs e).envTf =
    { frame with tfEsp := utfBase frame.tfEsp, tfEip := upcall }
  framed : kernel.mem.Framed pgdir frame faultVa next.mem

theorem pageFaultHandler_delivers (build : Build)
    (runs : kernel.RunsIn cpu e pgdir upcall) (registered : upcall ≠ 0)
    (apart : kernel.mem.TablesApart pgdir)
    (mapped : kernel.mem.ExstkMapped pgdir) (room : HoldsFrame frame.tfEsp)
    (trapped : (kernel.envs e).envTf = frame) (faultVa : UInt32) :
    ∃ next, pageFaultHandler build cpu frame faultVa kernel = .leaves next ∧
      kernel.Delivered cpu e pgdir upcall frame faultVa next := by
  obtain ⟨middle, mem, scratch, stored, framed⟩ :=
    exists_framed apart mapped room faultVa
  have base := utfBase_toNat room
  have inside : InExstk (utfBase frame.tfEsp) := by
    rw [inExstk_iff, base]
    split
    · rename_i inside
      have above := room.above inside
      have bounds := inExstk_iff.mp inside
      omega
    · omega
  have here : (if frame.tfEsp < uxStackTop - 4096 ∨
      frame.tfEsp > uxStackTop - 1 then uxStackTop - 1 - uTrapframeSize
      else frame.tfEsp - 4 - uTrapframeSize) = utfBase frame.tfEsp := by
    unfold utfBase
    by_cases inside : InExstk frame.tfEsp
    · rw [if_pos inside, if_neg (mt outside_iff.mp (not_not_intro inside))]
    · rw [if_neg inside, if_pos (outside_iff.mpr inside)]
  have spare : (if frame.tfEsp < uxStackTop - 4096 ∨
      frame.tfEsp > uxStackTop - 1 then ([] : List UInt32) else [0]) =
      if InExstk frame.tfEsp then [0] else [] := by
    by_cases inside : InExstk frame.tfEsp
    · rw [if_pos inside, if_neg (mt outside_iff.mp (not_not_intro inside))]
    · rw [if_neg inside, if_pos (outside_iff.mpr inside)]
  let ready := (kernel.setMem mem).updateEnv e fun env =>
    { env with
      envTf :=
        { env.envTf with tfEsp := utfBase frame.tfEsp, tfEip := upcall } }
  have readyEnv : ready.envs e =
      { kernel.envs e with
        envTf :=
          { frame with tfEsp := utfBase frame.tfEsp, tfEip := upcall } } := by
    simp [ready, Kernel.updateEnv, Kernel.setEnv, Kernel.setMem, trapped]
  have loaded : (ready.envs e).envPgdir ≠ none := by
    rw [readyEnv]
    change (kernel.envs e).envPgdir ≠ none
    rw [runs.pgdir]
    exact Option.some_ne_none pgdir
  have storesFrame : storeWords e (utfBase frame.tfEsp)
      (uTrapframe frame faultVa) (kernel.setMem middle) =
        .returns () ((kernel.setMem middle).setMem mem) :=
    storeWords_run runs.pgdir stored
  refine ⟨ready.despachado cpu e, ?_, ?_⟩
  · unfold pageFaultHandler
    rw [bind_run, theCurenv_run runs.current]
    dsimp only
    rw [read_bind_run, runs.upcall, if_pos registered, bind_run,
      userMemAssert_run build runs mapped]
    dsimp only
    rw [spare, bind_run, storeWords_run runs.pgdir scratch]
    dsimp only
    rw [here, bind_run, storesFrame]
    dsimp only
    rw [if_neg (mt outside_iff.mp (not_not_intro inside)), modify_bind_run]
    exact envRun_leaves loaded
  · have current : ready.cpus cpu = some e := runs.current
    obtain ⟨count, same⟩ := despachado_self current
    rw [readyEnv] at same
    exact
      { runs :=
          { current := despachado_current cpu e ready
            running := by rw [same]
            pgdir := by
              rw [same]
              exact runs.pgdir
            upcall := by
              rw [same]
              exact runs.upcall }
        envTf := by rw [same]
        framed := by
          rw [despachado_mem]
          exact framed }

/-- A page fault resumes the environment in its upcall. -/
theorem trap_delivers (build : Build) (surroundings : Surroundings)
    (runs : kernel.RunsIn cpu e pgdir upcall) (registered : upcall ≠ 0)
    (apart : kernel.mem.TablesApart pgdir)
    (mapped : kernel.mem.ExstkMapped pgdir) (room : HoldsFrame frame.tfEsp)
    (trapno : frame.tfTrapno = 14) (faultVa : UInt32) :
    ∃ next, trap build surroundings cpu frame faultVa kernel = .leaves next ∧
      kernel.Delivered cpu e pgdir upcall frame faultVa next := by
  let entered := kernel.updateEnv e fun env => { env with envTf := frame }
  have enteredEnv : entered.envs e =
      { kernel.envs e with envTf := frame } := by
    simp [entered, Kernel.updateEnv, Kernel.setEnv]
  have enteredRuns : entered.RunsIn cpu e pgdir upcall :=
    { current := runs.current
      running := by
        rw [enteredEnv]
        exact runs.running
      pgdir := by
        rw [enteredEnv]
        exact runs.pgdir
      upcall := by
        rw [enteredEnv]
        exact runs.upcall }
  obtain ⟨next, handled, delivered⟩ := pageFaultHandler_delivers build
    enteredRuns registered apart mapped room (by rw [enteredEnv]) faultVa
  refine ⟨next, ?_, { delivered with }⟩
  have dispatches : trapDispatch build surroundings cpu frame faultVa
      (kernel.updateEnv e fun env => { env with envTf := frame }) =
        .leaves next := by
    unfold trapDispatch
    rw [trapno]
    exact handled
  have notDying : ¬ EnvStatus.running = .dying := by decide
  unfold trap
  rw [bind_run, theCurenv_run runs.current]
  dsimp only
  rw [read_bind_run, runs.running, if_neg notDying, modify_bind_run, bind_run]
  rw [dispatches]

end FeaturesOS.Scheduler

import FeaturesOS.Scheduler.ForkIsolation

/-!
# Runs of `fork`

How `fork` goes on from page to page, and a run in which the stack of the parent
grows into a read-only page while `duppage` shares it.
-/

namespace FeaturesOS.Scheduler

open Entry

variable {build : Build} {kernel middle next last : Kernel} {cpu : Nat}
variable {pn count : Nat} {parent : Nat} {addr perm envid word : UInt32}
variable {r : Int} {permits : Option ForkAction → Kernel → Option UserEvent → Prop}

/-- The reading of the page tables is always permitted. -/
def PermitsReads (permits : Option ForkAction → Kernel → Option UserEvent → Prop) :
    Prop :=
  ∀ pn kernel, permits (some (.uvpd pn)) kernel none ∧
    permits (some (.uvpt pn)) kernel none

theorem readUser_run {e : Nat} {va : UInt32}
    (reads : kernel.readWord e va = some word) :
    readUser e va kernel = .returns word kernel := by
  unfold readUser
  rw [read_bind_run, reads]
  rfl

/-- The entries `pde` and `pte` that `fork` reads for the page `pn`. -/
def Kernel.Shows (kernel : Kernel) (e pn : Nat) (pde pte : UInt32) : Prop :=
  kernel.readWord e (uvpd + UInt32.ofNat (pn / 1024 * 4)) = some pde ∧
    kernel.readWord e (uvpt + UInt32.ofNat (pn * 4)) = some pte

/-- `fork` skips the page. -/
def Kernel.Skips (kernel : Kernel) (e pn : Nat) : Prop :=
  pn = exceptionPage ∨
    (∃ pde, kernel.readWord e (uvpd + UInt32.ofNat (pn / 1024 * 4)) = some pde ∧
      (pde &&& pteP = 0 ∨ pde &&& pteU = 0)) ∨
    ∃ pde pte, kernel.Shows e pn pde pte ∧ (pte &&& pteP = 0 ∨ pte &&& pteU = 0)

theorem executes_skip (reads : PermitsReads permits)
    (isCurrent : kernel.cpus cpu = some parent)
    (skips : kernel.Skips parent pn)
    (rest : (forking build parent).Executes permits
      (duppages envid count (pn + 1)) kernel () last) :
    (forking build parent).Executes permits (duppages envid (count + 1) pn)
      kernel () last := by
  unfold duppages
  split
  · exact rest
  · rename_i notStack
    rw [request_bind]
    rcases skips with isStack | ⟨pde, isPde, absent⟩ |
      ⟨pde, pte, ⟨isPde, isPte⟩, absent⟩
    · exact absurd isStack notStack
    · refine .perform (reads pn kernel).1 ⟨cpu, isCurrent, readUser_run isPde⟩ ?_
      rw [if_pos absent]
      exact rest
    · refine .perform (reads pn kernel).1 ⟨cpu, isCurrent, readUser_run isPde⟩ ?_
      split
      · exact rest
      · rw [request_bind]
        refine .perform (reads pn kernel).2 ⟨cpu, isCurrent, readUser_run isPte⟩ ?_
        rw [if_pos absent]
        exact rest

theorem executes_skips {skipped : Nat} (reads : PermitsReads permits)
    (isCurrent : kernel.cpus cpu = some parent)
    (skips : ∀ k < skipped, kernel.Skips parent (pn + k))
    (rest : (forking build parent).Executes permits
      (duppages envid count (pn + skipped)) kernel () last) :
    (forking build parent).Executes permits
      (duppages envid (count + skipped) pn) kernel () last := by
  induction skipped generalizing pn with
  | zero => exact rest
  | succ skipped induction =>
      refine executes_skip reads isCurrent (skips 0 (by omega)) ?_
      refine induction (fun k below => ?_) ?_
      · have later := skips (k + 1) (by omega)
        rwa [show pn + (k + 1) = pn + 1 + k by omega] at later
      · rwa [show pn + (skipped + 1) = pn + 1 + skipped by omega] at rest

/-! ## A page that is shared -/

/-- The entries are those of a page that `fork` shares. -/
def SharesPage (pde pte : UInt32) : Prop :=
  ¬ (pde &&& pteP = 0 ∨ pde &&& pteU = 0) ∧
    ¬ (pte &&& pteP = 0 ∨ pte &&& pteU = 0)

theorem executes_page {pde pte : UInt32} {result : Int}
    (reads : PermitsReads permits) (isCurrent : kernel.cpus cpu = some parent)
    (notStack : pn ≠ exceptionPage) (shows : kernel.Shows parent pn pde pte)
    (shares : SharesPage pde pte)
    (shared : (forking build parent).Executes permits
      (if pte &&& pteW ≠ 0 ∨ pte &&& pteCow ≠ 0 then
        shareCow envid (PhysMem.pageVa pn) (sharedPerm pte)
      else
        shareReadOnly envid (PhysMem.pageVa pn) (sharedPerm pte))
      kernel result middle)
    (rest : (forking build parent).Executes permits
      (duppages envid count (pn + 1)) middle () last) :
    (forking build parent).Executes permits (duppages envid (count + 1) pn)
      kernel () last := by
  obtain ⟨isPde, isPte⟩ := shows
  unfold duppages
  rw [if_neg (show ¬ pn = uxStackTop.toNat / pgSize - 1 from notStack),
    request_bind]
  refine .perform (reads pn kernel).1 ⟨cpu, isCurrent, readUser_run isPde⟩ ?_
  rw [if_neg shares.1, request_bind]
  refine .perform (reads pn kernel).2 ⟨cpu, isCurrent, readUser_run isPte⟩ ?_
  rw [if_neg shares.2]
  have whole : (forking build parent).Executes permits (duppage envid pn)
      kernel result middle := by
    unfold duppage
    dsimp only
    rw [request_bind]
    refine .perform (reads pn kernel).2
      ⟨cpu, isCurrent, readUser_run isPte⟩ ?_
    rw [if_neg shares.2]
    exact shared
  exact whole.bind rest

/-! ## Playing a program -/

/-- The run of a program without a disturbance, for `fuel` steps at most. -/
def play {Result : Type} (check : ForkAction → Kernel → Bool) (build : Build)
    (cpu e : Nat) : Nat → ForkM Result → Kernel → Option (Result × Kernel)
  | 0, _, _ => none
  | _ + 1, .done result, kernel => some (result, kernel)
  | fuel + 1, .perform action next, kernel =>
      if kernel.cpus cpu = some e ∧ check action kernel = true then
        match action.run build cpu e kernel with
        | .returns value after => play check build cpu e fuel (next value) after
        | .leaves _ | .stops => none
      else none

theorem executes_of_play {Result : Type} {check : ForkAction → Kernel → Bool}
    (checks : ∀ action kernel, check action kernel = true →
      permits (some action) kernel none) {fuel : Nat}
    {program : ForkM Result} {result : Result}
    (played : play check build cpu parent fuel program kernel =
      some (result, last)) :
    (forking build parent).Executes permits program kernel result last := by
  induction fuel generalizing program kernel with
  | zero => cases played
  | succ fuel induction =>
      cases program with
      | done result' =>
          cases played
          exact .done result last
      | perform action next =>
          unfold play at played
          split at played
          · rename_i ready
            split at played
            · rename_i value after returns
              exact .perform (checks action kernel ready.2)
                ⟨cpu, ready.1, returns⟩ (induction played)
            · cases played
            · cases played
          · cases played

/-! ## A fault that is handled -/

theorem SoundAt.pgfault_serves {pool : List Nat} {e d f g : Nat}
    {faultVa err pte : UInt32} {mapped : Kernel}
    (sound : SoundAt pool kernel) (isCurrent : kernel.cpus cpu = some e)
    (isDir : (kernel.envs e).envPgdir = some d) (user : roundDown faultVa < utop)
    (readable : kernel.readWord e (uvptEntry faultVa) = some pte)
    (allocates : sysPageAlloc cpu 0 pfTemp (pteP ||| pteU ||| pteW) kernel =
      .returns 0 middle)
    (reads : middle.mem.translate d false (roundDown faultVa) = some (f, 0))
    (writable : middle.mem.translate d true pfTemp = some (g, 0))
    (different : f ≠ g)
    (maps : sysPageMap cpu 0 pfTemp 0 (roundDown faultVa)
      (pteP ||| pteU ||| pteW)
      (middle.setMem (middle.mem.copyPage f g)) = .returns 0 mapped)
    (unmaps : sysPageUnmap cpu 0 pfTemp mapped = .returns 0 next) :
    pgfault cpu e faultVa err kernel = .returns .returns next := by
  have below := Spaces.Sound.below sound isDir
  have changes := (@SoundAt.temp_changes _ _ _ _ _ _ faultVa sound isCurrent
    below allocates).1.changes
  have isDir' : (middle.envs e).envPgdir = some d := by
    rw [changes.envs]
    exact isDir
  have isDir'' : middle.spaces.dirs (⟨e, below⟩ : Fin nenv) = some d := isDir'
  obtain ⟨free, accounted⟩ := changes.sound.accounted
  have accounted' : middle.mem.Accounted pool free middle.spaces.dirs :=
    accounted
  obtain ⟨moved, moves, copies⟩ := accounted'.memmove_copies
    changes.sound.separate isDir'' ⟨user, roundDown_aligned faultVa⟩
    userPage_pfTemp reads writable different
  rw [pgfault_run readable, allocates]
  dsimp only
  rw [if_neg (by decide), installCopy_run isDir', moves]
  dsimp only
  rw [if_pos rfl, copies.eq_copyPage, maps]
  dsimp only
  rw [if_neg (by decide), unmaps]
  rfl

/-! ## The stack grows into a read-only page -/

/-- `sys_page_map` of the program's own page does not make its `pp_ref` wrap
around. -/
def refIsLow (e : Nat) : ForkAction → Kernel → Bool
  | .sysPageMap srcenvid srcva _ _ _, kernel =>
      srcenvid == 0 && match kernel.lookupPage e srcva with
        | some (some (page, _)) => (kernel.mem.pages page).ppRef != 65535
        | _ => true
  | _, _ => true

theorem permits_of_refIsLow {e : Nat} {action : ForkAction}
    (isLow : refIsLow e action kernel = true) :
    ForkPermits e (some action) kernel none := by
  cases action with
  | sysPageMap srcenvid srcva dstenvid dstva perm =>
      unfold refIsLow at isLow
      rw [Bool.and_eq_true, beq_iff_eq] at isLow
      obtain ⟨rfl, low⟩ := isLow
      rintro cpu dst page isCurrent
        ⟨_, _, _, src, finds, srcpte, found, _⟩ ⟨_, _, isLast, _⟩
      cases (finds_self isCurrent).unique finds
      rw [found] at low
      dsimp only at low
      rw [isLast] at low
      exact absurd low (by decide)
  | _ => trivial

/-- The kernel behind a run of a program. -/
def endState {Result : Type} (fuel : Nat) (program : ForkM Result)
    (kernel : Kernel) : Kernel :=
  ((play (refIsLow 0) .roundRobin 0 0 fuel program kernel).map
    Prod.snd).getD kernel

theorem executes_endState {Result : Type} {fuel : Nat}
    {program : ForkM Result} {result : Result}
    (checks : ∀ action kernel, refIsLow 0 action kernel = true →
      permits (some action) kernel none)
    (value : (play (refIsLow 0) .roundRobin 0 0 fuel program kernel).map
      Prod.fst = some result) :
    (forking .roundRobin 0).Executes permits program kernel result
      (endState fuel program kernel) := by
  unfold endState
  cases played : play (refIsLow 0) .roundRobin 0 0 fuel program kernel with
  | none =>
      rw [played] at value
      cases value
  | some ended =>
      rw [played] at value
      obtain ⟨result', last⟩ := ended
      cases value
      exact executes_of_play checks played

/-- The page below the stack, which is mapped read-only. -/
def belowVa : UInt32 := 0xEEBFC000

/-- The program has set its handler. -/
def handlerEnv : Kernel :=
  endState 5 (setPgfaultHandler 0 belowVa) readOnlyEnv

/-- The program has created its child. -/
def forkedEnv : Kernel := Entry.after (sysExofork 0) handlerEnv

/-- The page below the stack is shared. -/
def sharedEnv (kernel : Kernel) : Kernel :=
  endState 5 (shareReadOnly 4097 belowVa (sharedPerm 12293)) kernel

/-- All pages are shared. -/
def restEnv (kernel : Kernel) : Kernel :=
  endState 12 (duppages 4097 3 0xEEBFD) (sharedEnv kernel)

/-- The child can run. -/
def doneEnv (kernel : Kernel) : Kernel :=
  endState 5 (startChild 4097) (restEnv kernel)

/-- `fork` returns in the end if it goes on from this kernel. -/
structure Finishes (kernel : Kernel) : Prop where
  shares : (play (refIsLow 0) .roundRobin 0 0 5
    (shareReadOnly 4097 belowVa (sharedPerm 12293)) kernel).map Prod.fst =
      some 0
  rest : (play (refIsLow 0) .roundRobin 0 0 12 (duppages 4097 3 0xEEBFD)
    (sharedEnv kernel)).map Prod.fst = some ()
  starts : (play (refIsLow 0) .roundRobin 0 0 5 (startChild 4097)
    (restEnv kernel)).map Prod.fst = some 4097

theorem finishes_forkedEnv : Finishes forkedEnv :=
  ⟨by decide +kernel, by decide +kernel, by decide +kernel⟩

/-- The page for the copy. -/
def tempEnv : Kernel :=
  Entry.after (sysPageAlloc 0 0 pfTemp (pteP ||| pteU ||| pteW)) forkedEnv

def copiedEnv : Kernel := tempEnv.setMem (tempEnv.mem.copyPage 3 7)

def remappedEnv : Kernel :=
  Entry.after (sysPageMap 0 0 pfTemp 0 belowVa (pteP ||| pteU ||| pteW))
    copiedEnv

/-- The fault on the page below the stack has been handled. -/
def faultedEnv : Kernel := Entry.after (sysPageUnmap 0 0 pfTemp) remappedEnv

theorem finishes_faultedEnv : Finishes faultedEnv :=
  ⟨by decide +kernel, by decide +kernel, by decide +kernel⟩

theorem nenv_pos : 0 < nenv := by decide

/-- The parent of the runs. -/
def first : Fin nenv := ⟨0, nenv_pos⟩

/-- The program maps pages in the last table of its directory only. -/
def Kernel.UsesLastTable (kernel : Kernel) (e d : Nat) (pde : UInt32) : Prop :=
  (kernel.envs e).envPgdir = some d ∧ kernel.mem.Window d ∧
    (∀ i < 954, kernel.mem.ram d i = 0) ∧ kernel.mem.ram d 954 = pde

instance (kernel : Kernel) (e d : Nat) (pde : UInt32) :
    Decidable (kernel.UsesLastTable e d pde) :=
  inferInstanceAs (Decidable (_ ∧ _))

theorem Kernel.UsesLastTable.windowed {e d : Nat} {pde : UInt32}
    (uses : kernel.UsesLastTable e d pde) (rights : PhysMem.TableRights pde) :
    kernel.Windowed e d := by
  obtain ⟨isDir, window, empty, isTable⟩ := uses
  refine ⟨isDir, window, fun i => ?_⟩
  have isTables : userTables = 955 := by
    unfold userTables
    rfl
  have below := i.isLt
  by_cases isLast : (i : Nat) = 954
  · rw [isLast, isTable]
    exact .inr rights
  · exact .inl (empty i (by omega))

/-- An entry of the program, by the number of its page. -/
theorem Kernel.UsesLastTable.entry {e : Fin nenv} {d : Nat} {pde : UInt32}
    (uses : kernel.UsesLastTable e d pde) (rights : PhysMem.TableRights pde)
    {x : Slot} (isEnv : x.1 = e) :
    kernel.entry x = 0 ∨ 954 * 1024 ≤ x.pageNumber ∧
      kernel.entry x = kernel.mem.ram (pteFrame pde) (x.pageNumber % 1024) := by
  have below := pageNumber_lt x
  have isSlot : x = pageSlot e below :=
    slot_ext isEnv (pageNumber_pageSlot e below).symm
  have bound := below
  rw [userPages_eq] at bound
  have found := (uses.windowed rights).entry e.isLt below
  obtain ⟨_, _, empty, isTable⟩ := uses
  rw [← isSlot] at found
  by_cases early : x.pageNumber < 954 * 1024
  · rcases found with ⟨_, zero⟩ | ⟨present, _⟩
    · exact .inl zero
    · rw [empty _ (by omega)] at present
      exact absurd present (by decide)
  · rw [show x.pageNumber / 1024 = 954 by omega, isTable] at found
    rcases found with ⟨_, zero⟩ | ⟨_, isEntry⟩
    · exact .inl zero
    · exact .inr ⟨by omega, isEntry⟩

/-- The address space of the program before it calls `fork`. -/
theorem readOnlyEnv_space : readOnlyEnv.UsesLastTable first 2 16391 ∧
    (∀ j < 1024, readOnlyEnv.mem.ram 4 j = 0 ∨
      readOnlyEnv.mem.ram 4 j &&& PhysMem.userRights false =
        PhysMem.userRights false) ∧
    readOnlyEnv.mem.ram 4 (exceptionPage % 1024) = 0 := by
  decide +kernel

theorem mayFork_readOnlyEnv : readOnlyEnv.MayFork first 2 := by
  obtain ⟨uses, forUser, unmapped⟩ := readOnlyEnv_space
  have rights : PhysMem.TableRights 16391 := by decide
  have isTable : pteFrame 16391 = 4 := by decide
  have entries := fun (x : Slot) (isEnv : x.1 = first) =>
    uses.entry rights isEnv
  rw [isTable] at entries
  refine ⟨uses.windowed rights, fun x isEnv => ?_, ?_, ?_⟩
  · rcases entries x isEnv with zero | ⟨_, isEntry⟩
    · exact .inl zero
    · rw [isEntry]
      exact forUser _ (Nat.mod_lt _ (by decide))
  · rcases entries _ (rfl : (slotAt first userPage_pfTemp.1).1 = first) with
      zero | ⟨late, _⟩
    · exact zero
    · rw [pageNumber_slotAt] at late
      exact absurd late (by decide)
  · rintro x y isEnv _ isStack _ ⟨_, page, names, _⟩
    rcases entries x isEnv with zero | ⟨_, isEntry⟩
    · rw [zero] at names
      cases names
    · rw [isEntry, isStack, unmapped] at names
      cases names

/-- The address space of the program when it has created its child. -/
theorem forkedEnv_space : forkedEnv.cpus 0 = some 0 ∧
    forkedEnv.UsesLastTable 0 2 16391 ∧
    (∀ j < 1020, forkedEnv.mem.ram 4 j = 0) ∧
    forkedEnv.mem.ram 4 1020 = 12293 := by
  decide +kernel

theorem forkedEnv_shows {pn : Nat} (below : pn < 2 ^ 20) :
    forkedEnv.readWord 0 (uvpd + UInt32.ofNat (pn / 1024 * 4)) =
        some (forkedEnv.mem.ram 2 (pn / 1024)) ∧
      forkedEnv.readWord 0 (uvpt + UInt32.ofNat (pn * 4)) =
        if forkedEnv.mem.ram 2 (pn / 1024) &&& PhysMem.userRights false =
            PhysMem.userRights false then
          some (forkedEnv.mem.ram
            (pteFrame (forkedEnv.mem.ram 2 (pn / 1024))) (pn % 1024))
        else none := by
  obtain ⟨_, ⟨isDir, window, _⟩, _⟩ := forkedEnv_space
  unfold Kernel.readWord
  rw [isDir]
  exact ⟨window.uvpd (by decide) below, window.uvpt (by decide) below⟩

/-- The program maps nothing in front of its two pages. -/
theorem forkedEnv_skips : ∀ k < 0xEEBFC, forkedEnv.Skips 0 (0 + k) := by
  obtain ⟨_, ⟨_, _, empty, isTable⟩, unmapped, _⟩ := forkedEnv_space
  intro k inFront
  rw [Nat.zero_add]
  obtain ⟨isPde, isPte⟩ := @forkedEnv_shows k (by omega)
  by_cases early : k / 1024 < 954
  · rw [empty _ early] at isPde
    exact .inr (.inl ⟨0, isPde, .inl (by decide)⟩)
  · rw [show k / 1024 = 954 by omega, isTable] at isPde isPte
    rw [if_pos (by decide), show pteFrame 16391 = 4 by decide,
      unmapped _ (by omega)] at isPte
    refine .inr (.inr ⟨16391, 0, ⟨?_, isPte⟩, .inl (by decide)⟩)
    rw [show k / 1024 = 954 by omega]
    exact isPde

/-- The loop shares the two pages. -/
theorem executes_loop {kernel : Kernel} (reads : PermitsReads permits)
    (checks : ∀ action kernel, refIsLow 0 action kernel = true →
      permits (some action) kernel none) (finishes : Finishes kernel)
    (shared : (forking .roundRobin 0).Executes permits
      (shareReadOnly 4097 belowVa (sharedPerm 12293)) forkedEnv 0
      (sharedEnv kernel)) :
    (forking .roundRobin 0).Executes permits
      (duppages 4097 (4 + 0xEEBFC) 0) forkedEnv () (restEnv kernel) := by
  obtain ⟨isCurrent, ⟨_, _, _, isTable⟩, _, isEntry⟩ := forkedEnv_space
  have shows : forkedEnv.Shows 0 0xEEBFC 16391 12293 := by
    obtain ⟨isPde, isPte⟩ := @forkedEnv_shows 0xEEBFC (by decide)
    rw [show 0xEEBFC / 1024 = 954 by decide, isTable] at isPde isPte
    rw [if_pos (by decide), show pteFrame 16391 = 4 by decide,
      show 0xEEBFC % 1024 = 1020 by decide, isEntry] at isPte
    exact ⟨isPde, isPte⟩
  refine executes_skips reads isCurrent forkedEnv_skips ?_
  rw [Nat.zero_add]
  have page : (forking .roundRobin 0).Executes permits
      (if (12293 : UInt32) &&& pteW ≠ 0 ∨ (12293 : UInt32) &&& pteCow ≠ 0 then
        shareCow 4097 (PhysMem.pageVa 0xEEBFC) (sharedPerm 12293)
      else
        shareReadOnly 4097 (PhysMem.pageVa 0xEEBFC) (sharedPerm 12293))
      forkedEnv 0 (sharedEnv kernel) := by
    rw [if_neg (by decide)]
    exact shared
  exact executes_page reads isCurrent (by decide) shows
    ⟨by decide, by decide⟩ page (executes_endState checks finishes.rest)

/-- The calls in front of the loop return. -/
theorem handlerEnv_runs :
    (play (refIsLow 0) .roundRobin 0 0 5 (setPgfaultHandler 0 belowVa)
      readOnlyEnv).map Prod.fst = some () ∧
    (sysExofork 0 handlerEnv).value = some 4097 ∧
    handlerEnv.cpus 0 = some 0 := by
  decide +kernel

theorem executes_fork {kernel : Kernel} (reads : PermitsReads permits)
    (checks : ∀ action kernel, refIsLow 0 action kernel = true →
      permits (some action) kernel none) (finishes : Finishes kernel)
    (shared : (forking .roundRobin 0).Executes permits
      (shareReadOnly 4097 belowVa (sharedPerm 12293)) forkedEnv 0
      (sharedEnv kernel)) :
    (forking .roundRobin 0).Executes permits (fork 0 belowVa) readOnlyEnv 4097
      (doneEnv kernel) := by
  obtain ⟨handler, forks, isCurrent⟩ := handlerEnv_runs
  have isId : (Int32.ofInt 4097).toUInt32 = 4097 := by decide
  have total : utop.toNat / pgSize = 4 + 0xEEBFC := by decide
  have loop := executes_loop reads checks finishes shared
  unfold fork
  refine (executes_endState checks handler).bind ?_
  rw [request_bind]
  refine .perform (checks .sysExofork handlerEnv rfl)
    ⟨0, isCurrent, returns_after forks⟩ ?_
  rw [if_neg (by decide), if_neg (by decide)]
  unfold forkInParent
  rw [isId, total]
  exact loop.bind (executes_endState checks finishes.starts)

theorem sound_readOnlyEnv : ∃ pool, SoundAt pool readOnlyEnv :=
  sound_of_reachable readOnlyEnv_reachable

theorem forkPermits_reads (e : Nat) : PermitsReads (ForkPermits e) :=
  fun _ _ => ⟨trivial, trivial⟩

theorem sound_forkedEnv : ∃ pool, SoundAt pool forkedEnv := by
  obtain ⟨pool, sound⟩ := sound_readOnlyEnv
  obtain ⟨handler, forks, _⟩ := handlerEnv_runs
  have executes : (forking .roundRobin 0).Executes (ForkPermits 0)
      (setPgfaultHandler 0 belowVa) readOnlyEnv () handlerEnv :=
    executes_endState (fun _ _ isLow => permits_of_refIsLow isLow) handler
  have during := executes.ensures (@ensures_setPgfaultHandler .roundRobin pool
    readOnlyEnv 2 first (mayFork_readOnlyEnv.during sound) 0 belowVa)
  have since : SoundSince pool (fun _ _ _ => False) handlerEnv.spaces.words
      forkedEnv :=
    (@triple_sysExofork_since _ (fun _ => True) _ _ _).of_returns
      during.forkable.sound.since (returns_after forks)
  exact ⟨pool, since.sound⟩

/-- The calls of `pgfault`, and what it reads and writes. -/
theorem forkedEnv_calls :
    forkedEnv.readWord 0 (uvptEntry 0xEEBFCFFC) = some 12293 ∧
    forkedEnv.mem.translate 2 (faultWrites 7) 0xEEBFCFFC = none ∧
    (sysPageAlloc 0 0 pfTemp (pteP ||| pteU ||| pteW) forkedEnv).value =
      some 0 ∧
    tempEnv.mem.translate 2 true pfTemp = some (7, 0) ∧
    tempEnv.mem.translate 2 false belowVa = some (3, 0) ∧
    (sysPageMap 0 0 pfTemp 0 belowVa (pteP ||| pteU ||| pteW)
      copiedEnv).value = some 0 ∧
    (sysPageUnmap 0 0 pfTemp remappedEnv).value = some 0 := by
  decide +kernel

/-- A store to the page below the stack makes the page a writable one. -/
theorem forkedEnv_faults :
    (UserEvent.fault 0 0 0xEEBFCFFC 7).Goes forkedEnv faultedEnv := by
  obtain ⟨pool, sound⟩ := sound_forkedEnv
  obtain ⟨isCurrent, ⟨isDir, _⟩, _⟩ := forkedEnv_space
  obtain ⟨readable, faults, allocates, isTemp, isBelow, maps, unmaps⟩ :=
    forkedEnv_calls
  have isPage : roundDown 0xEEBFCFFC = belowVa := by decide
  refine .fault isCurrent isDir faults
    (sound.pgfault_serves isCurrent isDir (by decide) readable
      (returns_after allocates) (f := 3) (g := 7) ?_ isTemp (by decide) ?_
      (returns_after unmaps))
  · rw [isPage]
    exact isBelow
  · rw [isPage]
    exact returns_after maps

/-! ## When `fork` isolates -/

/-- In all runs in which no fault comes between the reading and the mapping of a
read-only page, parent and child are isolated. -/
theorem isolatedAfter_of_permitted {parent : Fin nenv}
    {pgfaultHandler upcall : UInt32} {state : ForkM Int × Kernel}
    (reachable : (forkMachine build parent pgfaultHandler upcall).Reachable
      (Interleaving.Permitted (ForkPermits parent)) state) :
    IsolatedAfter parent state := by
  obtain ⟨⟨program, kernel⟩, events, ⟨rfl, pool, d, sound, mayFork⟩, run⟩ :=
    reachable
  have ensures := Interleaving.Ensures.run
    (ensures_fork (mayFork.during sound) pgfaultHandler upcall) ?_ run
  · intro r isDone positive
    rw [isDone] at ensures
    exact (ensures positive).keptApart
  · intro r state next isolates disturbs positive
    exact severed_stable none _ _ _ (isolates positive) disturbs

theorem isolatedAfter_readOnlyEnv :
    IsolatedAfter first (.done 4097, doneEnv forkedEnv) := by
  obtain ⟨pool, sound⟩ := sound_readOnlyEnv
  have checks := fun action kernel isLow =>
    @permits_of_refIsLow kernel 0 action isLow
  have executes := executes_fork (forkPermits_reads 0) checks finishes_forkedEnv
    (executes_endState checks finishes_forkedEnv.shares)
  obtain ⟨events, run⟩ := executes.run
  exact isolatedAfter_of_permitted
    ⟨_, events, ⟨rfl, pool, 2, sound, mayFork_readOnlyEnv⟩, run⟩

/-- The parent stores to the page below its stack when it pushes the arguments
of `sys_page_map`. -/
theorem not_isolatedAfter :
    ¬ ∀ (build : Build) (parent : Fin nenv) (pgfaultHandler upcall : UInt32)
      (state : ForkM Int × Kernel),
      (forkMachine build parent pgfaultHandler upcall).Reachable
        Machine.Unrestricted state → IsolatedAfter parent state := by
  intro isolates
  obtain ⟨pool, sound⟩ := sound_readOnlyEnv
  have executes := @executes_fork (fun _ _ _ => True) faultedEnv
    (fun _ _ => ⟨trivial, trivial⟩) (fun _ _ _ => trivial) finishes_faultedEnv
    (.disturb trivial forkedEnv_faults
      (executes_endState (fun _ _ _ => trivial) finishes_faultedEnv.shares))
  obtain ⟨events, run⟩ := executes.run
  have apart := isolates .roundRobin first 0 belowVa
    (.done 4097, doneEnv faultedEnv)
    ⟨_, events, ⟨rfl, pool, 2, sound, mayFork_readOnlyEnv⟩, run⟩ 4097 rfl
    (by decide)
  have mapped : (doneEnv faultedEnv).lookupPage 0 belowVa =
      some (some (7, 28679)) ∧ (doneEnv faultedEnv).lookupPage 1 belowVa =
      some (some (7, 28677)) := by
    decide +kernel
  have readOnly := apart.readOnly belowVa belowVa 7 28679 28677 (by decide)
    (by decide) mapped.1 mapped.2
  exact absurd readOnly.1 (by decide)

end FeaturesOS.Scheduler

import FeaturesOS.Scheduler.EntryChanges

/-!
# The entries that a page fault changes

`pgfault` takes a page for `PFTEMP`, copies the page of the fault to it and maps
the copy in the place of that page.
-/

namespace FeaturesOS.Scheduler

open Entry

variable {pool free : List Nat} {kernel middle next : Kernel}
variable {slots others : Set Slot} {mem : PhysMem} {cpu e d page : Nat}
variable {va srcva dstva perm envid : UInt32} {r : Int}

theorem Kernel.Changes.refreshes (changes : kernel.Changes pool next slots)
    (alone : ∀ x ∈ slots, frameOf (next.entry x) = none ∨
      ∀ y, ¬ Sharing.Shares frameOf next.entry x y) :
    Sharing.Refreshes frameOf kernel.entry next.entry := by
  intro x
  by_cases inside : x ∈ slots
  · exact .inr (alone x inside)
  · exact .inl (changes.entries x inside)

/-- A page that was free is mapped once. -/
theorem Kernel.Changes.alone {x : Slot}
    (changes : kernel.Changes pool next {x})
    (fresh : ∀ y, frameOf (kernel.entry y) ≠ some page)
    (names : frameOf (next.entry x) = some page) (y : Slot) :
    ¬ Sharing.Shares frameOf next.entry x y := by
  rintro ⟨different, page', atX, atY⟩
  cases names.symm.trans atX
  rw [changes.entries y different.symm] at atY
  exact fresh y atY

/-- A page that is mapped once can be mapped again. -/
theorem SoundAt.ref_alone (sound : SoundAt pool kernel) {x : Slot}
    (names : frameOf (kernel.entry x) = some page)
    (alone : ∀ y, ¬ Sharing.Shares frameOf kernel.entry x y) :
    (kernel.mem.pages page).ppRef ≠ 65535 := by
  obtain ⟨free, accounted⟩ := sound.accounted
  have accounted' : kernel.mem.Accounted pool free kernel.spaces.dirs :=
    accounted
  have held : kernel.mem.holds kernel.spaces.dirs x.holder = some page := names
  have once : references (kernel.mem.holds kernel.spaces.dirs) page ≤ 1 := by
    refine @references_le_one _ _ _ _ _ x.holder _ fun other refers => ?_
    cases other with
    | pgdir f =>
        exact absurd refers (sound.separate _ _ _ page held (.pgdir f) trivial)
    | pde f i =>
        exact absurd refers (sound.separate _ _ _ page held (.pde f i) trivial)
    | pte f i j =>
        by_contra different
        refine alone (f, i, j) ⟨?_, page, names, refers⟩
        rintro rfl
        exact different rfl
  have counted := accounted'.ref (accounted'.tree.pooled _ _ held)
  intro isLast
  rw [isLast] at counted
  have many : (65535 : UInt16).toNat = 65535 := rfl
  omega

/-- Bytes have been stored to pages that the other entries do not name. -/
theorem SoundAt.changes_written (sound : SoundAt pool kernel)
    (written : kernel.mem.Written mem pool free kernel.spaces.dirs)
    (contents : ∀ x, x ∉ slots → ∀ page,
      frameOf (kernel.entry x) = some page →
      mem.ram page = kernel.mem.ram page) :
    kernel.Changes pool (kernel.setMem mem) slots where
  sound := sound.setMem written.accounted (written.separate sound.separate)
    written.outside
  envs := rfl
  cpus := rfl
  entries x _ := congrFun written.word x.holder
  contents := contents
  upper f d' i isDir := written.outside.upper f d' i isDir
  tables f d' i isDir := by
    left
    have isDir' : kernel.spaces.dirs f = some d' := isDir
    have same := congrFun written.word (.pde f i)
    rwa [PhysMem.word_pde isDir', PhysMem.word_pde isDir'] at same

/-- The user part of an address space, as the processor finds it. -/
theorem Kernel.translate_entry (kernel : Kernel) (below : e < nenv)
    (isDir : (kernel.envs e).envPgdir = some d) (user : va < utop)
    {writes : Bool} {place : PhysMem.Place}
    (found : kernel.mem.translate d writes va = some place) :
    frameOf (kernel.entry (slotAt ⟨e, below⟩ user)) = some place.1 ∧
      kernel.entry (slotAt ⟨e, below⟩ user) &&& PhysMem.userRights writes =
        PhysMem.userRights writes := by
  have isDir' : kernel.spaces.dirs (⟨e, below⟩ : Fin nenv) = some d := isDir
  rw [PhysMem.translate_word isDir' user] at found
  split at found
  · rename_i granted
    cases found
    exact ⟨if_neg (ne_zero_of_present
      (PhysMem.userRights_present writes granted.2)), granted.2⟩
  · cases found

/-- A copy to `PFTEMP` changes no entry, and no page but the one there. -/
theorem SoundAt.moveMemory_changes {addr : UInt32} (sound : SoundAt pool kernel)
    (below : e < nenv) (isDir : (kernel.envs e).envPgdir = some d)
    (aligned : addr % 4096 = 0)
    (alone : ∀ y, ¬ Sharing.Shares frameOf kernel.entry
      (slotAt ⟨e, below⟩ userPage_pfTemp.1) y) :
    kernel.Changes pool
      (kernel.setMem (kernel.mem.memmove d pfTemp addr 4096).2)
      {slotAt ⟨e, below⟩ userPage_pfTemp.1} := by
  obtain ⟨free, accounted⟩ := sound.accounted
  have accounted' : kernel.mem.Accounted pool free kernel.spaces.dirs :=
    accounted
  have isDir' : kernel.spaces.dirs (⟨e, below⟩ : Fin nenv) = some d := isDir
  rw [PhysMem.memmove_page aligned (by decide)]
  have written := @PhysMem.Accounted.moveUnits _ _ _ _ ⟨e, below⟩ _ _ _ addr
    PhysMem.pageOffsets accounted' sound.separate isDir
    fun offset member k inside => PhysMem.pageOffsets_user member inside
  have others := (@PhysMem.Accounted.moveUnits_others _ _ _ _ ⟨e, below⟩ _ addr
    _ _ accounted' sound.separate isDir' userPage_pfTemp
    PhysMem.pageOffsets_inside).2
  refine sound.changes_written written fun x other page names => ?_
  apply others
  intro found
  obtain ⟨refers, _⟩ :=
    kernel.translate_entry below isDir userPage_pfTemp.1 found
  exact alone x ⟨Ne.symm other, page, refers, names⟩

/-- The entries of a fault: the one of `PFTEMP` and the one of the page. -/
def faultSlots (e : Fin nenv) (faultVa : UInt32) : Set Slot :=
  {x | x = slotAt e userPage_pfTemp.1 ∨
    ∃ user : roundDown faultVa < utop, x = slotAt e user}

/-- What a run of `pgfault` does to the entries: every one is as it was, empty
or a writable one of a page that is mapped nowhere else. -/
structure Kernel.Faulted (pool : List Nat) (kernel next : Kernel) (e : Fin nenv)
    (faultVa : UInt32) : Prop where
  changes : kernel.Changes pool next (faultSlots e faultVa)
  refreshes : Sharing.Refreshes frameOf kernel.entry next.entry
  entries : ∀ x, next.entry x = kernel.entry x ∨ next.entry x = 0 ∨
    next.entry x &&& PhysMem.userRights true = PhysMem.userRights true

theorem Kernel.Faulted.refl {slot : Fin nenv} {faultVa : UInt32}
    (sound : SoundAt pool kernel) : kernel.Faulted pool kernel slot faultVa :=
  ⟨.refl sound, .refl _, fun _ => .inl rfl⟩

theorem Kernel.Faulted.trans {slot : Fin nenv} {faultVa : UInt32}
    (first : kernel.Faulted pool middle slot faultVa)
    (second : middle.Faulted pool next slot faultVa) :
    kernel.Faulted pool next slot faultVa := by
  have changes := first.changes.trans second.changes
  rw [Set.union_self] at changes
  refine ⟨changes, first.refreshes.trans second.refreshes, fun x => ?_⟩
  rcases second.entries x with same | changed
  · rw [same]
    exact first.entries x
  · exact .inr changed

/-- A page is copied, and the copy can be written. -/
structure Kernel.CopiesPage (kernel next : Kernel) (x : Slot) (f g : Nat) :
    Prop where
  source : frameOf (kernel.entry x) = some f
  names : frameOf (next.entry x) = some g
  rights : next.entry x &&& PhysMem.userRights true = PhysMem.userRights true
  words : ∀ i < 1024, next.mem.ram g i = kernel.mem.ram f i

theorem tempPerm_rights (page : Nat) (flags : UInt32)
    (granted : flags &&& PhysMem.userRights true = PhysMem.userRights true) :
    (page2pa page ||| flags ||| pteP) &&& PhysMem.userRights true =
      PhysMem.userRights true :=
  PhysMem.granted_or granted _ _

theorem slotAt_ne {slot : Fin nenv} {other : UInt32} {user : va < utop}
    {user' : other < utop} (aligned : va % 4096 = 0)
    (aligned' : other % 4096 = 0) (different : va ≠ other) :
    slotAt slot user ≠ slotAt slot user' := by
  intro same
  have holders : Holder.pteAt slot user = Holder.pteAt slot user' :=
    congrArg Slot.holder same
  exact different (pteAt_inj aligned aligned' holders).2

/-- The page at `PFTEMP` holds what the page of the fault holds. -/
theorem SoundAt.memmove_temp {addr : UInt32} (sound : SoundAt pool kernel)
    (below : e < nenv) (isDir : (kernel.envs e).envPgdir = some d)
    (user : UserPage addr) (different : addr ≠ pfTemp)
    (names : frameOf (kernel.entry (slotAt ⟨e, below⟩ userPage_pfTemp.1)) =
      some page)
    (alone : ∀ y, ¬ Sharing.Shares frameOf kernel.entry
      (slotAt ⟨e, below⟩ userPage_pfTemp.1) y)
    (done : (kernel.mem.memmove d pfTemp addr 4096).1 = true) :
    ∃ f, frameOf (kernel.entry (slotAt ⟨e, below⟩ user.1)) = some f ∧
      ∀ i < 1024, (kernel.mem.memmove d pfTemp addr 4096).2.ram page i =
        kernel.mem.ram f i := by
  obtain ⟨free, accounted⟩ := sound.accounted
  have accounted' : kernel.mem.Accounted pool free kernel.spaces.dirs :=
    accounted
  have isDir' : kernel.spaces.dirs (⟨e, below⟩ : Fin nenv) = some d := isDir
  obtain ⟨f, g, reads, writable⟩ := accounted'.memmove_done sound.separate
    isDir' user.2 userPage_pfTemp done
  have isCopy := (kernel.translate_entry below isDir userPage_pfTemp.1
    writable).1
  have isTemp : page = g := Option.some.inj (names.symm.trans isCopy)
  have isSource := (kernel.translate_entry below isDir user.1 reads).1
  have distinct : f ≠ g := by
    intro same
    rw [same] at isSource
    exact alone _ ⟨slotAt_ne userPage_pfTemp.2 user.2 (Ne.symm different), g,
      isCopy, isSource⟩
  obtain ⟨moved, runs, copies⟩ := accounted'.memmove_copies sound.separate
    isDir' user userPage_pfTemp reads writable distinct
  refine ⟨f, isSource, fun i inside => ?_⟩
  rw [runs, isTemp]
  exact copies.ram inside

/-- A page at `PFTEMP` alone can be mapped a second time. -/
theorem SoundAt.temp_fits (sound : SoundAt pool kernel)
    (isCurrent : kernel.cpus cpu = some e) (below : e < nenv)
    (alone : ∀ y, ¬ Sharing.Shares frameOf kernel.entry
      (slotAt ⟨e, below⟩ userPage_pfTemp.1) y) (addr perm : UInt32) (page : Nat)
    (maps : kernel.MapsPage cpu 0 pfTemp 0 addr perm e page) :
    ¬ kernel.Wraps e page addr := by
  obtain ⟨_, _, _, src, finds, srcpte, found, _⟩ := maps
  rintro ⟨_, _, isLast, _⟩
  cases (finds_self isCurrent).unique finds
  have isPage := (entry_of_lookupPage sound below userPage_pfTemp.1 found).2
  exact sound.ref_alone isPage alone isLast

theorem remap_outside {addr : UInt32} (outside : ¬ addr < utop)
    (maps : sysPageMap cpu 0 pfTemp 0 addr perm kernel = .returns r next) :
    r < 0 ∧ next = kernel := by
  unfold Scheduler.sysPageMap at maps
  rw [if_neg (not_not_intro userPage_pfTemp),
    if_pos fun isUser => outside isUser.1] at maps
  cases maps
  exact ⟨by decide, rfl⟩

/-- The page at `PFTEMP` stays if it cannot be mapped elsewhere. -/
theorem SoundAt.remap_fails {addr : UInt32} (sound : SoundAt pool kernel)
    (isCurrent : kernel.cpus cpu = some e) (below : e < nenv)
    (alone : ∀ y, ¬ Sharing.Shares frameOf kernel.entry
      (slotAt ⟨e, below⟩ userPage_pfTemp.1) y)
    (aligned : addr % 4096 = 0)
    (maps : sysPageMap cpu 0 pfTemp 0 addr (pteP ||| pteU ||| pteW) kernel =
      .returns r next)
    (failed : r < 0) : next = kernel := by
  by_cases user : addr < utop
  · rcases sound.sysPageMap_changes isCurrent below userPage_pfTemp below
      (fun f finds => (finds_self isCurrent).unique finds) ⟨user, aligned⟩
      (by decide) (sound.temp_fits isCurrent below alone addr _) maps with
      ⟨_, same⟩ | ⟨isZero, _⟩
    · exact same
    · rw [isZero] at failed
      exact absurd failed (by decide)
  · exact (remap_outside user maps).2

/-- The page at `PFTEMP` moves to the page of the fault. -/
theorem SoundAt.remap_changes {faultVa : UInt32} {r' : Int}
    (sound : SoundAt pool kernel) (isCurrent : kernel.cpus cpu = some e)
    (below : e < nenv)
    (names : frameOf (kernel.entry (slotAt ⟨e, below⟩ userPage_pfTemp.1)) =
      some page)
    (alone : ∀ y, ¬ Sharing.Shares frameOf kernel.entry
      (slotAt ⟨e, below⟩ userPage_pfTemp.1) y)
    (user : roundDown faultVa < utop)
    (maps : sysPageMap cpu 0 pfTemp 0 (roundDown faultVa)
      (pteP ||| pteU ||| pteW) kernel = .returns r middle)
    (succeeds : ¬ r < 0)
    (unmaps : sysPageUnmap cpu 0 pfTemp middle = .returns r' next) :
    kernel.Faulted pool next ⟨e, below⟩ faultVa ∧
      (roundDown faultVa ≠ pfTemp →
        frameOf (next.entry (slotAt ⟨e, below⟩ user)) = some page ∧
        next.entry (slotAt ⟨e, below⟩ user) &&& PhysMem.userRights true =
          PhysMem.userRights true ∧
        next.mem.ram page = kernel.mem.ram page) := by
  have aligned := roundDown_aligned faultVa
  rcases sound.sysPageMap_changes isCurrent below userPage_pfTemp below
    (fun f finds => (finds_self isCurrent).unique finds) ⟨user, aligned⟩
    (by decide) (sound.temp_fits isCurrent below alone _ _) maps with
    ⟨failed, _⟩ | ⟨_, page', isPage', mapped, isWord, isFrame⟩
  · exact absurd failed succeeds
  · cases names.symm.trans isPage'
    have isCurrent' : middle.cpus cpu = some e := by
      rw [mapped.cpus]
      exact isCurrent
    obtain ⟨unmapped, zero⟩ := mapped.sound.sysPageUnmap_changes isCurrent'
      below userPage_pfTemp unmaps
    generalize isTemp : slotAt ⟨e, below⟩ userPage_pfTemp.1 = temp
      at names alone unmapped zero
    generalize isSlot : slotAt ⟨e, below⟩ user = slot at mapped isWord isFrame ⊢
    have rights : middle.entry slot &&& PhysMem.userRights true =
        PhysMem.userRights true := by
      rw [isWord]
      exact tempPerm_rights page _ (by decide)
    have inSlots : ∀ x, x = temp ∨ x = slot →
        x ∈ faultSlots ⟨e, below⟩ faultVa := by
      rintro x (rfl | rfl)
      · exact .inl isTemp.symm
      · exact .inr ⟨user, isSlot.symm⟩
    have changes : kernel.Changes pool next (faultSlots ⟨e, below⟩ faultVa) :=
      (mapped.trans unmapped).mono fun x inside => inSlots x inside.symm
    have stays : ∀ x, x ≠ temp → x ≠ slot → next.entry x = kernel.entry x :=
      fun x notTemp notSlot => (unmapped.entries x notTemp).trans
        (mapped.entries x notSlot)
    have kept : slot ≠ temp → next.entry slot = middle.entry slot :=
      fun different => unmapped.entries slot different
    have refreshes : Sharing.Refreshes frameOf kernel.entry next.entry := by
      intro x
      by_cases atTemp : x = temp
      · subst atTemp
        rw [zero]
        exact .inr (.inl rfl)
      · by_cases atSlot : x = slot
        · subst atSlot
          right
          right
          rintro y ⟨different, other, atX, atY⟩
          rw [kept atTemp] at atX
          cases isFrame.symm.trans atX
          by_cases yTemp : y = temp
          · subst yTemp
            rw [zero] at atY
            cases atY
          · rw [stays y yTemp different.symm] at atY
            exact alone y ⟨Ne.symm yTemp, page, names, atY⟩
        · exact .inl (stays x atTemp atSlot)
    refine ⟨⟨changes, refreshes, fun x => ?_⟩, fun different => ?_⟩
    · by_cases atTemp : x = temp
      · subst atTemp
        exact .inr (.inl zero)
      · by_cases atSlot : x = slot
        · subst atSlot
          rw [kept atTemp]
          exact .inr (.inr rights)
        · exact .inl (stays x atTemp atSlot)
    · have notTemp : slot ≠ temp := by
        rw [← isSlot, ← isTemp]
        exact slotAt_ne aligned userPage_pfTemp.2 different
      rw [kept notTemp]
      refine ⟨isFrame, rights, ?_⟩
      rw [unmapped.contents slot notTemp page isFrame,
        mapped.contents temp notTemp.symm page names]

/-- The copy, with a page of its own at `PFTEMP`. -/
theorem SoundAt.installCopy_changes {faultVa : UInt32} {handled : Handled}
    (sound : SoundAt pool kernel) (isCurrent : kernel.cpus cpu = some e)
    (below : e < nenv) (isDir : (kernel.envs e).envPgdir = some d)
    (names : frameOf (kernel.entry (slotAt ⟨e, below⟩ userPage_pfTemp.1)) =
      some page)
    (alone : ∀ y, ¬ Sharing.Shares frameOf kernel.entry
      (slotAt ⟨e, below⟩ userPage_pfTemp.1) y)
    (ends : installCopy cpu e (roundDown faultVa) (pteP ||| pteU ||| pteW)
      kernel = .returns handled next) :
    kernel.Faulted pool next ⟨e, below⟩ faultVa ∧
      (handled = .returns → ∀ user : roundDown faultVa < utop,
        roundDown faultVa ≠ pfTemp → ∃ f,
          kernel.CopiesPage next (slotAt ⟨e, below⟩ user) f page) := by
  have aligned := roundDown_aligned faultVa
  have moves := sound.moveMemory_changes below isDir aligned alone
  have same := (sound.moveMemory isDir aligned).2
  have reached := fun user different done => sound.memmove_temp below isDir
    ⟨user, aligned⟩ different names alone done
  rw [installCopy_run isDir] at ends
  dsimp only at ends
  generalize kernel.mem.memmove d pfTemp (roundDown faultVa) 4096 = moved
    at moves same reached ends
  have sameEntries : ∀ x, (kernel.setMem moved.2).entry x = kernel.entry x :=
    fun x => congrFun same x.holder
  have first : kernel.Faulted pool (kernel.setMem moved.2) ⟨e, below⟩
      faultVa := by
    refine ⟨moves.mono ?_, fun x => .inl (sameEntries x),
      fun x => .inl (sameEntries x)⟩
    rintro x rfl
    exact .inl rfl
  have isTemp : frameOf ((kernel.setMem moved.2).entry
      (slotAt ⟨e, below⟩ userPage_pfTemp.1)) = some page := by
    rw [sameEntries]
    exact names
  have alone' : ∀ y, ¬ Sharing.Shares frameOf (kernel.setMem moved.2).entry
      (slotAt ⟨e, below⟩ userPage_pfTemp.1) y := by
    rw [funext sameEntries]
    exact alone
  by_cases done : moved.1 = true
  · rw [if_pos done] at ends
    split at ends
    · cases ends
    · cases ends
    · rename_i r mapped maps
      split at ends
      · rename_i failed
        cases ends
        rw [moves.sound.remap_fails isCurrent below alone' aligned maps failed]
        exact ⟨first, fun impossible => by cases impossible⟩
      · rename_i succeeds
        have user : roundDown faultVa < utop := by
          by_contra outside
          exact succeeds (remap_outside outside maps).1
        split at ends
        · cases ends
        · cases ends
        · rename_i r' last unmaps
          cases ends
          obtain ⟨second, copied⟩ := moves.sound.remap_changes isCurrent below
            isTemp alone' user maps succeeds unmaps
          refine ⟨first.trans second, fun _ user different => ?_⟩
          obtain ⟨f, source, words⟩ := reached user different done
          obtain ⟨isFrame, rights, contents⟩ := copied different
          refine ⟨f, source, isFrame, rights, fun i inside => ?_⟩
          rw [contents]
          exact words i inside
  · rw [if_neg done] at ends
    cases ends
    exact ⟨first, fun impossible => by cases impossible⟩

/-- The page for `PFTEMP`. -/
theorem SoundAt.temp_changes {faultVa : UInt32} (sound : SoundAt pool kernel)
    (isCurrent : kernel.cpus cpu = some e) (below : e < nenv)
    (allocates : sysPageAlloc cpu 0 pfTemp (pteP ||| pteU ||| pteW) kernel =
      .returns r next) :
    kernel.Faulted pool next ⟨e, below⟩ faultVa ∧ (¬ r < 0 →
      ∃ page, (∀ x, frameOf (kernel.entry x) ≠ some page) ∧
        kernel.Changes pool next {slotAt ⟨e, below⟩ userPage_pfTemp.1} ∧
        frameOf (next.entry (slotAt ⟨e, below⟩ userPage_pfTemp.1)) =
          some page) := by
  rcases sound.sysPageAlloc_changes below
    (fun f finds => (finds_self isCurrent).unique finds) userPage_pfTemp
    allocates with
    ⟨failed, changes⟩ | ⟨_, page, fresh, changes, isWord, isFrame⟩
  · refine ⟨⟨changes.mono (Set.empty_subset _), fun x => ?_, fun x => ?_⟩,
      fun succeeds => absurd failed succeeds⟩
    · exact .inl (changes.entries x id)
    · exact .inl (changes.entries x id)
  · refine ⟨⟨changes.mono ?_, changes.refreshes ?_, fun x => ?_⟩, fun _ =>
      ⟨page, fresh, changes, isFrame⟩⟩
    · rintro x rfl
      exact .inl rfl
    · rintro x rfl
      exact .inr (changes.alone fresh isFrame)
    · by_cases isTemp : x = slotAt ⟨e, below⟩ userPage_pfTemp.1
      · subst isTemp
        rw [isWord]
        exact .inr (.inr (tempPerm_rights page _ (by decide)))
      · exact .inl (changes.entries x isTemp)

/-- A fault changes no entry but those of `PFTEMP` and of its page.  If the
handler returns, the page has become a writable copy. -/
theorem SoundAt.pgfault_changes {faultVa err : UInt32} {handled : Handled}
    (sound : SoundAt pool kernel) (isCurrent : kernel.cpus cpu = some e)
    (below : e < nenv) (isDir : (kernel.envs e).envPgdir = some d)
    (ends : pgfault cpu e faultVa err kernel = .returns handled next) :
    kernel.Faulted pool next ⟨e, below⟩ faultVa ∧
      (handled = .returns → ∀ user : roundDown faultVa < utop,
        roundDown faultVa ≠ pfTemp → ∃ f page,
          kernel.CopiesPage next (slotAt ⟨e, below⟩ user) f page) := by
  cases readable : kernel.readWord e (uvptEntry faultVa) with
  | none =>
      rw [pgfault_unreadable readable] at ends
      cases ends
      exact ⟨.refl sound, fun impossible => by cases impossible⟩
  | some pte =>
      rw [pgfault_run readable] at ends
      split at ends
      · cases ends
      · cases ends
      · rename_i r middle allocates
        obtain ⟨first, mapped⟩ := @SoundAt.temp_changes _ _ _ _ _ _ faultVa
          sound isCurrent below allocates
        split at ends
        · cases ends
          exact ⟨first, fun impossible => by cases impossible⟩
        · rename_i succeeds
          obtain ⟨page, fresh, changes, isFrame⟩ := mapped succeeds
          have isCurrent' : middle.cpus cpu = some e := by
            rw [changes.cpus]
            exact isCurrent
          have isDir' : (middle.envs e).envPgdir = some d := by
            rw [changes.envs]
            exact isDir
          obtain ⟨second, copied⟩ := changes.sound.installCopy_changes
            isCurrent' below isDir' isFrame (changes.alone fresh isFrame) ends
          refine ⟨first.trans second, fun returns user different => ?_⟩
          obtain ⟨f, copies⟩ := copied returns user different
          have notTemp : slotAt ⟨e, below⟩ user ≠
              slotAt ⟨e, below⟩ userPage_pfTemp.1 :=
            slotAt_ne (roundDown_aligned faultVa) userPage_pfTemp.2 different
          have source := copies.source
          rw [changes.entries _ notTemp] at source
          refine ⟨f, _, source, copies.names, copies.rights, fun i inside => ?_⟩
          rw [copies.words i inside, changes.contents _ notTemp f source]

end FeaturesOS.Scheduler

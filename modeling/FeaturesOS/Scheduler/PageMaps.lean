import FeaturesOS.Scheduler.Accounts

/-!
# Mapping and unmapping pages

`page_lookup`, `page_remove` and `page_insert` on a user address, seen as changes
of one entry of the tree.
-/

namespace FeaturesOS.Scheduler

namespace PhysMem

variable {mem next walked : PhysMem} {dirs : Nat → Option Nat}
variable {pool free free' : List Nat} {count : Nat → Nat} {e : Fin nenv}
variable {i : Fin userTables} {d page old : Nat} {va perm : UInt32}
variable {user : va < utop} {ptr : EntryPtr}

/-! ## What a walk leaves -/

theorem Walk.accounted (walk : Walk mem pool free dirs e i next free')
    (accounted : mem.Accounted pool free dirs) :
    next.Accounted pool free' dirs := by
  cases walk with
  | stays => exact accounted
  | adds added => exact added.accounted

theorem Walk.outside (walk : Walk mem pool free dirs e i next free') :
    Outside mem next pool dirs := by
  cases walk with
  | stays => exact .refl _ _ _
  | adds added => exact added.outside

theorem Walk.word_pte (walk : Walk mem pool free dirs e i next free')
    (f : Fin nenv) (k : Fin userTables) (l : Fin nptEntries) :
    next.word dirs (.pte f k l) = mem.word dirs (.pte f k l) := by
  cases walk with
  | stays => rfl
  | adds added => exact added.ptes f k l

theorem Walk.holds_pte (walk : Walk mem pool free dirs e i next free')
    (f : Fin nenv) (k : Fin userTables) (l : Fin nptEntries) :
    next.holds dirs (.pte f k l) = mem.holds dirs (.pte f k l) := by
  exact congrArg frameOf (walk.word_pte f k l)

/-- A page that is in use stays so, and its references stay the same. -/
theorem Walk.busy (walk : Walk mem pool free dirs e i next free')
    (busy : page ∉ free) :
    page ∉ free' ∧
      references (next.holds dirs) page = references (mem.holds dirs) page := by
  cases walk with
  | stays => exact ⟨busy, rfl⟩
  | @adds _ _ t added =>
      rw [added.isFree] at busy
      have different : page ≠ t := by
        rintro rfl
        exact busy List.mem_cons_self
      refine ⟨fun member => busy (List.mem_cons_of_mem _ member), ?_⟩
      rw [added.holds, references_set added.noTable,
        Function.update_of_ne different]

/-! ## The entry of an address -/

theorem holds_pteAt_none (absent : mem.entryAt dirs e user = none) :
    mem.holds dirs (.pteAt e user) = none := by
  have noTable : mem.holds dirs (.pdeAt e user) = none :=
    Option.map_eq_none_iff.mp absent
  unfold holds Holder.pteAt
  cases isDir : dirs e with
  | none => simp [word_pte_noDir isDir, frameOf]
  | some d =>
      rw [Holder.pdeAt, holds_pde isDir] at noTable
      simp [word_pte_none isDir noTable, frameOf]

theorem load_entryAt (found : mem.entryAt dirs e user = some ptr) :
    mem.load ptr = mem.word dirs (.pteAt e user) := by
  obtain ⟨t, isTable, isPtr⟩ := Option.map_eq_some_iff.mp found
  subst isPtr
  cases isDir : dirs e with
  | none =>
      rw [Holder.pdeAt, holds, word_pde_noDir isDir] at isTable
      cases isTable
  | some d =>
      rw [Holder.pdeAt, holds_pde isDir] at isTable
      unfold Holder.pteAt
      rw [word_pte isDir isTable]
      rfl

/-- A store through the pointer changes the entry. -/
theorem word_store_entryAt (apart : mem.Apart dirs)
    (found : mem.entryAt dirs e user = some ptr) (entry : UInt32) :
    (mem.store ptr entry).word dirs =
      Function.update (mem.word dirs) (.pteAt e user) entry := by
  obtain ⟨t, isTable, isPtr⟩ := Option.map_eq_some_iff.mp found
  subst isPtr
  have index : ptx va < nptEntries := Nat.mod_lt _ (by decide)
  exact @word_store_pte mem dirs e _ ⟨ptx va, index⟩ t apart isTable entry

/-- The page of the pointer is in the pool, and it is no directory. -/
theorem Tree.entryAt_page (tree : mem.Tree pool dirs)
    (found : mem.entryAt dirs e user = some ptr) :
    ptr.page ∈ pool ∧ ∀ (f : Fin nenv) d', dirs f = some d' →
      d' ≠ ptr.page := by
  obtain ⟨t, isTable, isPtr⟩ := Option.map_eq_some_iff.mp found
  subst isPtr
  refine ⟨tree.pooled _ _ isTable, ?_⟩
  rintro f d' isDir rfl
  cases tree.apart (.pgdir f) (.pdeAt e user) _ trivial trivial isDir isTable

/-- A store through the pointer stays within the tree. -/
theorem Tree.outside_store (tree : mem.Tree pool dirs)
    (found : mem.entryAt dirs e user = some ptr) (entry : UInt32) :
    Outside mem (mem.store ptr entry) pool dirs := by
  obtain ⟨isPooled, notDir⟩ := tree.entryAt_page found
  refine ⟨?_, fun _ _ => rfl, ?_, rfl⟩
  · intro other outside
    apply ram_store_other
    rintro rfl
    exact outside isPooled
  · intro f d' index isDir _
    rw [ram_store_other (notDir f d' isDir)]

/-! ## `page_lookup` -/

theorem tableEntry_same {pgdir : Nat} {entry : Option EntryPtr}
    (found : mem.tableEntry pgdir va = some (next, entry)) : next = mem := by
  unfold tableEntry at found
  dsimp only at found
  split at found
  · cases found
    rfl
  · split at found
    · cases found
      rfl
    · cases found

theorem pgdirWalk_keep (mem : PhysMem) (pgdir : Nat) (va : UInt32) :
    mem.pgdirWalk pgdir va false = mem.tableEntry pgdir va := by
  unfold pgdirWalk
  rw [if_neg (by simp)]

theorem Tree.pageLookup (tree : mem.Tree pool dirs)
    (books : mem.Books pool free count) (isDir : dirs e = some d)
    (user : va < utop) :
    mem.pageLookup d va =
      some ((mem.entryAt dirs e user).bind fun ptr =>
        (mem.holds dirs (.pteAt e user)).map fun page => (page, ptr)) := by
  unfold PhysMem.pageLookup
  rw [pgdirWalk_keep, tree.tableEntry books isDir user]
  dsimp only [Option.bind_eq_bind, Option.bind_some]
  cases found : mem.entryAt dirs e user with
  | none => rfl
  | some ptr =>
      have loads := load_entryAt found
      dsimp only [Option.bind_some]
      have isHeld : mem.holds dirs (.pteAt e user) = frameOf (mem.load ptr) := by
        rw [loads]
        rfl
      rw [isHeld]
      unfold frameOf
      split
      · rfl
      · rename_i nonzero
        have holds : mem.holds dirs (.pteAt e user) =
            some (pteFrame (mem.load ptr)) := by
          rw [isHeld, frameOf, if_neg nonzero]
        have valid := books.valid _ (tree.pooled _ _ holds)
        rw [if_pos valid]
        rfl

/-- `page_lookup` finds the page and the word that the tree holds there. -/
theorem Tree.pageLookup_some (tree : mem.Tree pool dirs)
    (books : mem.Books pool free count) (isDir : dirs e = some d)
    (user : va < utop) (maps : mem.holds dirs (.pteAt e user) = some page) :
    ∃ ptr, mem.entryAt dirs e user = some ptr ∧
      mem.pageLookup d va = some (some (page, ptr)) := by
  have looks := tree.pageLookup books isDir user
  cases found : mem.entryAt dirs e user with
  | none =>
      rw [holds_pteAt_none found] at maps
      cases maps
  | some ptr =>
      refine ⟨ptr, rfl, ?_⟩
      rw [looks, found, maps]
      rfl

theorem Tree.pageLookup_none (tree : mem.Tree pool dirs)
    (books : mem.Books pool free count) (isDir : dirs e = some d)
    (user : va < utop) (absent : mem.holds dirs (.pteAt e user) = none) :
    mem.pageLookup d va = some none := by
  rw [tree.pageLookup books isDir user, absent]
  cases mem.entryAt dirs e user with
  | none => rfl
  | some ptr => rfl

/-- What `page_lookup` finds: the page and the word of its entry.  The outer
`none` is a panic. -/
def translation (mem : PhysMem) (pgdir : Nat) (va : UInt32) :
    Option (Option (Nat × UInt32)) :=
  (mem.pageLookup pgdir va).map fun found =>
    found.map fun (page, pte) => (page, mem.load pte)

theorem Tree.translation (tree : mem.Tree pool dirs)
    (books : mem.Books pool free count) (isDir : dirs e = some d)
    (user : va < utop) :
    mem.translation d va =
      some ((mem.holds dirs (.pteAt e user)).map fun page =>
        (page, mem.word dirs (.pteAt e user))) := by
  unfold PhysMem.translation
  cases maps : mem.holds dirs (.pteAt e user) with
  | none =>
      rw [tree.pageLookup_none books isDir user maps]
      rfl
  | some page =>
      obtain ⟨ptr, found, looks⟩ := tree.pageLookup_some books isDir user maps
      rw [looks, ← load_entryAt found]
      rfl

/-! ## `page_remove` -/

theorem Tree.pageRemove_none (tree : mem.Tree pool dirs)
    (books : mem.Books pool free count) (isDir : dirs e = some d)
    (user : va < utop) (absent : mem.holds dirs (.pteAt e user) = none) :
    mem.pageRemove d va = some mem := by
  unfold PhysMem.pageRemove
  rw [tree.pageLookup_none books isDir user absent]
  rfl

/-- A page has been unmapped: it is counted once less, and freed when that was
the last time. -/
structure Removed (mem next : PhysMem) (pool free : List Nat) (count : Nat → Nat)
    (old : Nat) (ptr : EntryPtr) : Prop where
  books : next.Books pool (if count old = 1 then old :: free else free)
    (Function.update count old (count old - 1))
  ram : next.ram = (mem.store ptr 0).ram
  elsewhere : Elsewhere mem next old

theorem Tree.pageRemove_some (tree : mem.Tree pool dirs)
    (books : mem.Books pool free count) (isDir : dirs e = some d)
    (user : va < utop) (maps : mem.holds dirs (.pteAt e user) = some old)
    (counted : 0 < count old) (bounded : count old ≤ 2 ^ 16) :
    ∃ ptr next, mem.entryAt dirs e user = some ptr ∧
      mem.pageRemove d va = some next ∧
      Removed mem next pool free count old ptr := by
  obtain ⟨ptr, found, looks⟩ := tree.pageLookup_some books isDir user maps
  obtain ⟨lowered, lowers, books, ram, elsewhere⟩ :=
    books.pageDecref (tree.pooled _ _ maps) counted bounded
  refine ⟨ptr, lowered.store ptr 0, found, ?_, ?_, ?_, ?_⟩
  · unfold PhysMem.pageRemove
    rw [looks]
    dsimp only [Option.bind_eq_bind, Option.bind_some]
    rw [lowers]
    rfl
  · exact books.withRam _
  · simp [store, ram]
  · exact ⟨elsewhere.pages, elsewhere.npages⟩

/-! ## `page_insert` -/

theorem Elsewhere.outside (elsewhere : Elsewhere mem next page)
    (isPooled : page ∈ pool) {other : Nat} (outside : other ∉ pool) :
    next.pages other = mem.pages other := by
  apply elsewhere.pages
  rintro rfl
  exact outside isPooled

theorem elsewhere_pageIncref (mem : PhysMem) (page : Nat) :
    Elsewhere mem (mem.pageIncref page) page :=
  elsewhere_of_update rfl rfl

theorem entryAt_of_ram (same : next.ram = mem.ram) :
    next.entryAt dirs e user = mem.entryAt dirs e user := by
  unfold entryAt
  rw [holds_congr (word_of_ram same)]

/-- An entry of the tree has been written. -/
structure Entered (mem next : PhysMem) (pool : List Nat)
    (dirs : Nat → Option Nat) (e : Fin nenv) (user : va < utop)
    (entry : UInt32) : Prop where
  tree : next.Tree pool dirs
  word : next.word dirs =
    Function.update (mem.word dirs) (.pteAt e user) entry
  holds : next.holds dirs =
    Function.update (mem.holds dirs) (.pteAt e user) (frameOf entry)

theorem Tree.enter {entry : UInt32} (tree : mem.Tree pool dirs)
    (found : mem.entryAt dirs e user = some ptr)
    (pooled : ∀ page, frameOf entry = some page → page ∈ pool)
    (present : entry ≠ 0 → entry &&& pteP ≠ 0)
    (ram : next.ram = (mem.store ptr entry).ram) :
    Entered mem next pool dirs e user entry := by
  have word : next.word dirs =
      Function.update (mem.word dirs) (.pteAt e user) entry := by
    rw [word_of_ram ram]
    exact word_store_entryAt tree.apart found entry
  have isEntry : ∀ f, Holder.pteAt e user ≠ .pgdir f := fun f same => by
    cases same
  exact ⟨tree.setPte word pooled present, word, holds_update isEntry word⟩

/-- A page has been mapped.  The walk may have added a table, and the page that
was mapped before is freed when that was its only reference. -/
structure Inserted (mem walked next : PhysMem) (pool free free' : List Nat)
    (dirs : Nat → Option Nat) (e : Fin nenv) (user : va < utop) (page : Nat)
    (entry : UInt32) : Prop where
  frame : frameOf entry = some page
  walk : ∃ freeWalked,
    Walk mem pool free dirs e ⟨pdx va, pdx_lt_userTables user⟩ walked
      freeWalked ∧
    free' = match mem.holds dirs (.pteAt e user) with
      | none => freeWalked
      | some old =>
          if old ≠ page ∧ references (mem.holds dirs) old = 1 then
            old :: freeWalked
          else freeWalked
  entered : Entered walked next pool dirs e user entry
  books : next.Books pool free' (references (next.holds dirs))
  outside : Outside mem next pool dirs

/-- There is no table for the address and no page for one. -/
theorem Accounted.pageInsert_full (accounted : mem.Accounted pool free dirs)
    (isDir : dirs e = some d) (noEntry : mem.entryAt dirs e user = none)
    (empty : free = []) (page : Nat) (perm : UInt32) :
    mem.pageInsert d page va perm = some (mem, -eNoMem) := by
  obtain ⟨walked, freeWalked, walks, walk, absent⟩ :=
    accounted.pgdirWalk isDir user true
  have noEntryThere := absent.mpr ⟨noEntry, fun _ => empty⟩
  unfold PhysMem.pageInsert
  rw [walks, noEntryThere]
  cases walk with
  | stays => rfl
  | adds added =>
      rw [added.isFree] at empty
      cases empty

/-- The walk at the beginning of `page_insert`. -/
theorem Accounted.walkToInsert (accounted : mem.Accounted pool free dirs)
    (isDir : dirs e = some d) (user : va < utop)
    (notFull : ¬ (mem.entryAt dirs e user = none ∧ free = [])) :
    ∃ walked freeWalked ptr, mem.pgdirWalk d va true = some (walked, some ptr) ∧
      walked.entryAt dirs e user = some ptr ∧
      Walk mem pool free dirs e ⟨pdx va, pdx_lt_userTables user⟩ walked
        freeWalked := by
  obtain ⟨walked, freeWalked, walks, walk, absent⟩ :=
    accounted.pgdirWalk isDir user true
  cases found : walked.entryAt dirs e user with
  | none =>
      obtain ⟨noEntry, full⟩ := absent.mp found
      exact absurd ⟨noEntry, full rfl⟩ notFull
  | some ptr =>
      rw [found] at walks
      exact ⟨walked, freeWalked, ptr, walks, found, walk⟩

/-- The entry of a page with its flags. -/
theorem insertedEntry (addressable : page < 2 ^ 20) (low : perm.toNat < 4096) :
    frameOf (page2pa page ||| perm ||| pteP) = some page ∧
      (page2pa page ||| perm ||| pteP) &&& pteP ≠ 0 := by
  refine ⟨?_, or_pteP_present _⟩
  rw [UInt32.or_assoc]
  exact frameOf_or addressable (or_pteP_lt low) (or_pteP_present perm)

/-- After `pp->pp_ref++` the tree is the same. -/
theorem Accounted.pageIncref (accounted : mem.Accounted pool free dirs)
    (isPooled : page ∈ pool) (busy : page ∉ free) :
    (mem.pageIncref page).Tree pool dirs ∧
      (mem.pageIncref page).Books pool free
        (Function.update (references (mem.holds dirs)) page
          (references (mem.holds dirs) page + 1)) ∧
      (mem.pageIncref page).holds dirs = mem.holds dirs :=
  ⟨accounted.tree.congr (word_of_ram rfl),
    accounted.books.pageIncref isPooled busy, holds_congr (word_of_ram rfl)⟩

/-- Nothing was mapped. -/
theorem Accounted.insertFresh {entry : UInt32} {freeWalked : List Nat}
    (accounted : mem.Accounted pool free dirs) (isDir : dirs e = some d)
    (walk : Walk mem pool free dirs e ⟨pdx va, pdx_lt_userTables user⟩ walked
      freeWalked)
    (found : walked.entryAt dirs e user = some ptr) (isPooled : page ∈ pool)
    (busy : page ∉ free) (frame : frameOf entry = some page)
    (present : entry &&& pteP ≠ 0)
    (mapped : mem.holds dirs (.pteAt e user) = none) :
    ∃ removed, (walked.pageIncref page).pageRemove d va = some removed ∧
      Inserted mem walked (removed.store ptr entry) pool free freeWalked dirs e
        user page entry := by
  have walkedOk := walk.accounted accounted
  have maps : walked.holds dirs (.pteAt e user) = none :=
    (walk.holds_pte _ _ _).trans mapped
  obtain ⟨tree, counted, held⟩ := walkedOk.pageIncref isPooled (walk.busy busy).1
  have pooled : ∀ other, frameOf entry = some other → other ∈ pool := by
    intro other named
    cases frame.symm.trans named
    exact isPooled
  have entered : Entered walked ((walked.pageIncref page).store ptr entry) pool
      dirs e user entry :=
    walkedOk.tree.enter found pooled (fun _ => present) rfl
  have stored := walkedOk.tree.outside_store found entry
  refine ⟨_, tree.pageRemove_none counted isDir user (held ▸ maps), frame,
    ⟨freeWalked, walk, ?_⟩, entered, ?_, ?_⟩
  · rw [mapped]
  · rw [entered.holds, frame, references_set maps page]
    exact counted.withRam _
  · refine walk.outside.trans ⟨stored.ram, ?_, stored.upper, rfl⟩
    intro other outside
    exact (elsewhere_pageIncref walked page).outside isPooled outside

/-- A page was mapped, perhaps the same one. -/
theorem Accounted.insertOver {entry : UInt32} {freeWalked : List Nat}
    (accounted : mem.Accounted pool free dirs) (isDir : dirs e = some d)
    (walk : Walk mem pool free dirs e ⟨pdx va, pdx_lt_userTables user⟩ walked
      freeWalked)
    (found : walked.entryAt dirs e user = some ptr) (isPooled : page ∈ pool)
    (busy : page ∉ free) (frame : frameOf entry = some page)
    (present : entry &&& pteP ≠ 0)
    (mapped : mem.holds dirs (.pteAt e user) = some old) :
    ∃ removed free', (walked.pageIncref page).pageRemove d va = some removed ∧
      Inserted mem walked (removed.store ptr entry) pool free free' dirs e
        user page entry := by
  have walkedOk := walk.accounted accounted
  have maps : walked.holds dirs (.pteAt e user) = some old :=
    (walk.holds_pte _ _ _).trans mapped
  obtain ⟨tree, counted, held⟩ := walkedOk.pageIncref isPooled (walk.busy busy).1
  have positive := references_pos maps
  have bounded := walkedOk.bounded old
  have sameOld := (walk.busy (accounted.notFree mapped)).2
  generalize isCount : Function.update (references (walked.holds dirs)) page
    (references (walked.holds dirs) page + 1) = count at counted
  have countOld : count old = if old = page then
      references (walked.holds dirs) old + 1
      else references (walked.holds dirs) old := by
    rw [← isCount]
    by_cases same : old = page
    · subst same
      simp
    · simp [same]
  have countPos : 0 < count old := by
    rw [countOld]
    split
    · omega
    · exact positive
  have countBound : count old ≤ 2 ^ 16 := by
    rw [countOld]
    split
    · omega
    · omega
  have foundHere : (walked.pageIncref page).entryAt dirs e user = some ptr :=
    (entryAt_of_ram rfl).trans found
  obtain ⟨ptr', removed, foundAgain, removes, isRemoved⟩ :=
    tree.pageRemove_some counted isDir user (held ▸ maps) countPos countBound
  cases foundHere.symm.trans foundAgain
  have ram : (removed.store ptr entry).ram = (walked.store ptr entry).ram := by
    simp [store, isRemoved.ram, PhysMem.pageIncref, setPage]
  have pooled : ∀ other, frameOf entry = some other → other ∈ pool := by
    intro other named
    cases frame.symm.trans named
    exact isPooled
  have entered := walkedOk.tree.enter found pooled (fun _ => present) ram
  have stored := walkedOk.tree.outside_store found entry
  refine ⟨removed, _, removes, frame, ⟨freeWalked, walk, rfl⟩, entered, ?_, ?_⟩
  · have onlyOne : (old ≠ page ∧ references (mem.holds dirs) old = 1) ↔
        count old = 1 := by
      rw [countOld, sameOld]
      by_cases same : old = page
      · rw [if_pos same]
        constructor
        · exact fun both => absurd same both.1
        · intro one
          omega
      · rw [if_neg same]
        exact ⟨fun both => both.2, fun one => ⟨same, one⟩⟩
    rw [mapped]
    dsimp only
    rw [if_congr onlyOne rfl rfl, entered.holds, frame,
      references_move maps page, isCount]
    exact isRemoved.books.withRam _
  · refine walk.outside.trans ⟨?_, ?_, ?_, isRemoved.elsewhere.npages⟩
    · rw [ram]
      exact stored.ram
    · intro other outside
      have same := isRemoved.elsewhere.outside
        (walkedOk.tree.pooled _ _ maps) outside
      exact same.trans
        ((elsewhere_pageIncref walked page).outside isPooled outside)
    · rw [ram]
      exact stored.upper

theorem Accounted.pageInsert (accounted : mem.Accounted pool free dirs)
    (isDir : dirs e = some d) (user : va < utop) (isPooled : page ∈ pool)
    (busy : page ∉ free) (low : perm.toNat < 4096)
    (notFull : ¬ (mem.entryAt dirs e user = none ∧ free = [])) :
    ∃ walked next free', mem.pageInsert d page va perm = some (next, 0) ∧
      Inserted mem walked next pool free free' dirs e user page
        (page2pa page ||| perm ||| pteP) := by
  obtain ⟨walked, freeWalked, ptr, walks, found, walk⟩ :=
    accounted.walkToInsert isDir user notFull
  obtain ⟨frame, present⟩ := insertedEntry (accounted.lt isPooled) low
  unfold PhysMem.pageInsert
  rw [walks]
  dsimp only [Option.bind_eq_bind, Option.bind_some]
  cases mapped : mem.holds dirs (.pteAt e user) with
  | none =>
      obtain ⟨removed, removes, inserted⟩ := accounted.insertFresh isDir walk
        found isPooled busy frame present mapped
      rw [removes]
      exact ⟨walked, _, freeWalked, rfl, inserted⟩
  | some old =>
      obtain ⟨removed, free', removes, inserted⟩ := accounted.insertOver isDir
        walk found isPooled busy frame present mapped
      rw [removes]
      exact ⟨walked, _, free', rfl, inserted⟩

section Inserted

variable {entry : UInt32}

theorem Inserted.holds
    (inserted : Inserted mem walked next pool free free' dirs e user page entry) :
    next.holds dirs =
      Function.update (walked.holds dirs) (.pteAt e user) (some page) := by
  rw [inserted.entered.holds, inserted.frame]

/-- Only one entry of all tables has changed. -/
theorem Inserted.word_pte
    (inserted : Inserted mem walked next pool free free' dirs e user page entry)
    {f : Fin nenv} {k : Fin userTables} {l : Fin nptEntries}
    (other : (.pte f k l : Holder) ≠ .pteAt e user) :
    next.word dirs (.pte f k l) = mem.word dirs (.pte f k l) := by
  obtain ⟨_, walk, _⟩ := inserted.walk
  rw [inserted.entered.word, Function.update_of_ne other, walk.word_pte]

theorem Inserted.walked_holds
    (inserted : Inserted mem walked next pool free free' dirs e user page entry) :
    walked.holds dirs (.pteAt e user) = mem.holds dirs (.pteAt e user) := by
  obtain ⟨_, walk, _⟩ := inserted.walk
  exact walk.holds_pte _ _ _

/-- The references to a page that was in use. -/
theorem Inserted.refs
    (inserted : Inserted mem walked next pool free free' dirs e user page entry)
    {other : Nat} (busy : other ∉ free) :
    references (next.holds dirs) other =
      references (mem.holds dirs) other +
          (if other = page then 1 else 0) -
        if mem.holds dirs (.pteAt e user) = some other then 1 else 0 := by
  obtain ⟨_, walk, _⟩ := inserted.walk
  have sameRefs := (walk.busy busy).2
  rw [inserted.holds, ← inserted.walked_holds, ← sameRefs]
  cases mapped : walked.holds dirs (.pteAt e user) with
  | none =>
      rw [references_set mapped]
      by_cases same : other = page
      · subst same
        simp
      · simp [same]
  | some old =>
      rw [references_move mapped]
      by_cases same : other = page
      · subst same
        by_cases isOld : other = old
        · subst isOld
          simp
        · simp [isOld, Ne.symm isOld]
      · by_cases isOld : other = old
        · subst isOld
          simp [same]
        · simp [same, isOld, Ne.symm isOld]

/-- No count wraps around as long as the page has room for a reference. -/
theorem Inserted.accounted
    (inserted : Inserted mem walked next pool free free' dirs e user page entry)
    (accounted : mem.Accounted pool free dirs) (busy : page ∉ free)
    (room : references (mem.holds dirs) page + 1 < 2 ^ 16 ∨
      mem.holds dirs (.pteAt e user) = some page) :
    next.Accounted pool free' dirs := by
  refine ⟨inserted.entered.tree, inserted.books, ?_⟩
  intro other
  obtain ⟨_, walk, _⟩ := inserted.walk
  have boundedHere := (walk.accounted accounted).bounded other
  by_cases isPage : other = page
  · subst isPage
    have bounded := accounted.bounded other
    rw [inserted.refs busy, if_pos rfl]
    rcases room with room | maps
    · omega
    · rw [if_pos maps]
      omega
  · rw [inserted.holds]
    cases mapped : walked.holds dirs (.pteAt e user) with
    | none =>
        rw [references_set mapped, Function.update_of_ne isPage]
        exact boundedHere
    | some old =>
        rw [references_move mapped]
        by_cases isOld : other = old
        · subst isOld
          rw [Function.update_self, Function.update_of_ne isPage]
          omega
        · rw [Function.update_of_ne isOld, Function.update_of_ne isPage]
          exact boundedHere

end Inserted

end PhysMem

end FeaturesOS.Scheduler

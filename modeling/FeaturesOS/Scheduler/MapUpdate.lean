import FeaturesOS.Scheduler.AddressSpaces

/-!
# `page_insert` and `page_remove` as a map update

As long as no `pp_ref` wraps around, inserting and removing change the
translation of one address and the counts of the two pages involved.
-/

namespace FeaturesOS.Scheduler

namespace PhysMem

def Maps (mem : PhysMem) (pgdir : Nat) (va : UInt32) (page : Nat) : Prop :=
  ∃ word, mem.translation pgdir va = some (some (page, word))

/-- An address from `UTOP` on whose table is none of the pages of the pool, as
the one of the window at `UVPT` is. -/
def Above (mem : PhysMem) (pool : List Nat) (pgdir : Nat) (va : UInt32) : Prop :=
  utop ≤ va ∧ ∀ t, frameOf (mem.ram pgdir (pdx va)) = some t → t ∉ pool

/-- Every other address, in any address space, keeps its translation. -/
def KeepsOthers (mem next : PhysMem) (pool : List Nat)
    (dirs : Nat → Option Nat) (e : Fin nenv) (va : UInt32) : Prop :=
  ∀ (f : Fin nenv) pgdir other, dirs f = some pgdir →
    other < utop ∨ mem.Above pool pgdir other →
    f ≠ e ∨ other.toNat / 4096 ≠ va.toNat / 4096 →
    next.translation pgdir other = mem.translation pgdir other

/-- The count of the page drops by one, and at zero the page is freed. -/
def Drops (mem next : PhysMem) (old : Nat) : Prop :=
  (next.pages old).ppRef.toNat + 1 = (mem.pages old).ppRef.toNat ∧
    (next.OnFreeList old ↔ (next.pages old).ppRef = 0)

/-- `page` has been mapped at `va`. -/
structure InsertsPage (mem next : PhysMem) (pool : List Nat)
    (dirs : Nat → Option Nat) (e : Fin nenv) (pgdir page : Nat)
    (va perm : UInt32) : Prop where
  found : next.translation pgdir va =
    some (some (page, page2pa page ||| perm ||| pteP))
  others : KeepsOthers mem next pool dirs e va
  rises : ¬ mem.Maps pgdir va page →
    (next.pages page).ppRef.toNat = (mem.pages page).ppRef.toNat + 1
  again : mem.Maps pgdir va page →
    (next.pages page).ppRef = (mem.pages page).ppRef
  busy : ¬ next.OnFreeList page
  drops : ∀ old, mem.Maps pgdir va old → old ≠ page → Drops mem next old
  rest : ∀ other, other ≠ page → ¬ mem.Maps pgdir va other →
    ¬ mem.OnFreeList other →
    (next.pages other).ppRef = (mem.pages other).ppRef ∧
      ¬ next.OnFreeList other

/-- What was mapped at `va` has been unmapped. -/
structure RemovesPage (mem next : PhysMem) (pool : List Nat)
    (dirs : Nat → Option Nat) (e : Fin nenv) (pgdir : Nat) (va : UInt32) :
    Prop where
  gone : next.translation pgdir va = some none
  others : KeepsOthers mem next pool dirs e va
  drops : ∀ old, mem.Maps pgdir va old → Drops mem next old
  rest : ∀ other, ¬ mem.Maps pgdir va other →
    next.pages other = mem.pages other ∧
      (next.OnFreeList other ↔ mem.OnFreeList other)
  contents : ∀ ptr, (∀ page, mem.pageLookup pgdir va ≠ some (some (page, ptr))) →
    next.load ptr = mem.load ptr

/-- `page_insert` fails without a change or maps the page, and `page_remove`
unmaps what is mapped. -/
def UpdatesMap (mem : PhysMem) (pool : List Nat) (dirs : Nat → Option Nat)
    (e : Fin nenv) (pgdir page : Nat) (va perm : UInt32) : Prop :=
  (∃ next r, mem.pageInsert pgdir page va perm = some (next, r) ∧
    (r = -eNoMem ∧ next = mem ∨
      r = 0 ∧ InsertsPage mem next pool dirs e pgdir page va perm)) ∧
  ∃ next, mem.pageRemove pgdir va = some next ∧
    RemovesPage mem next pool dirs e pgdir va

/-- `pp_ref++` wraps around: the page is mapped nowhere at `va`, and there is a
table for `va` or a page for one. -/
def WrapsAround (mem : PhysMem) (pgdir page : Nat) (va : UInt32) : Prop :=
  (mem.pages page).ppRef = 65535 ∧ ¬ mem.Maps pgdir va page ∧
    (mem.ram pgdir (pdx va) ≠ 0 ∨ mem.pageFreeList ≠ none)

variable {mem next walked : PhysMem} {dirs : Nat → Option Nat}
variable {pool free free' : List Nat} {count : Nat → Nat} {e : Fin nenv}
variable {d page old : Nat} {va perm entry : UInt32}
variable {user : va < utop} {ptr : EntryPtr}

/-! ## Reading the tree -/

theorem Tree.maps_iff (tree : mem.Tree pool dirs)
    (books : mem.Books pool free count) (isDir : dirs e = some d)
    (user : va < utop) :
    mem.Maps d va page ↔ mem.holds dirs (.pteAt e user) = some page := by
  unfold Maps
  rw [tree.translation books isDir user]
  cases mem.holds dirs (.pteAt e user) with
  | none => simp
  | some found => simp

/-- Different addresses have different entries. -/
theorem pteAt_injective {f : Fin nenv} {other : UInt32} {user' : other < utop}
    (same : Holder.pteAt f user' = Holder.pteAt e user) :
    f = e ∧ other.toNat / 4096 = va.toNat / 4096 := by
  have parts := Holder.pte.inj same
  refine ⟨parts.1, ?_⟩
  have table : pdx other = pdx va := congrArg Fin.val parts.2.1
  have index : ptx other = ptx va := congrArg Fin.val parts.2.2
  unfold pdx at table
  unfold ptx at index
  omega

/-! ## Addresses above -/

theorem userTables_le_pdx (above : utop ≤ va) : userTables ≤ pdx va := by
  have bound := UInt32.le_iff_toNat_le.mp above
  have isUtop : utop.toNat = 955 * 2 ^ 22 := by decide
  unfold pdx userTables
  omega

theorem Outside.valid_iff (outside : Outside mem next pool dirs) (page : Nat) :
    next.Valid page ↔ mem.Valid page := by
  unfold Valid
  rw [outside.npages]

theorem Outside.tableEntry (outside : Outside mem next pool dirs)
    (isDir : dirs e = some d) (above : mem.Above pool d va) :
    (next.tableEntry d va).map Prod.snd =
        (mem.tableEntry d va).map Prod.snd ∧
      ∀ ptr, (mem.tableEntry d va).map Prod.snd = some (some ptr) →
        next.load ptr = mem.load ptr := by
  have sameEntry := outside.upper e d _ isDir (userTables_le_pdx above.1)
  unfold PhysMem.tableEntry
  dsimp only
  rw [sameEntry]
  split
  · refine ⟨rfl, ?_⟩
    intro ptr found
    cases found
  · rename_i nonzero
    rw [if_congr (outside.valid_iff _) rfl rfl]
    split
    · refine ⟨rfl, ?_⟩
      intro ptr found
      cases found
      have named : frameOf (mem.ram d (pdx va)) =
          some (pteFrame (mem.ram d (pdx va))) := if_neg nonzero
      exact congrFun (outside.ram _ (above.2 _ named)) _
    · refine ⟨rfl, ?_⟩
      intro ptr found
      cases found

theorem Outside.translation (outside : Outside mem next pool dirs)
    (isDir : dirs e = some d) (above : mem.Above pool d va) :
    next.translation d va = mem.translation d va := by
  obtain ⟨sameEntry, sameLoad⟩ := outside.tableEntry isDir above
  unfold PhysMem.translation PhysMem.pageLookup
  rw [pgdirWalk_keep, pgdirWalk_keep]
  cases found : mem.tableEntry d va with
  | none =>
      rw [found] at sameEntry
      rw [Option.map_eq_none_iff.mp sameEntry]
      rfl
  | some walked =>
      rw [found] at sameEntry sameLoad
      obtain ⟨walked', found', sameSnd⟩ := Option.map_eq_some_iff.mp sameEntry
      rw [found']
      dsimp only [Option.bind_eq_bind, Option.bind_some]
      rw [sameSnd]
      cases isEntry : walked.2 with
      | none => rfl
      | some ptr =>
          have same := sameLoad ptr (congrArg some isEntry)
          dsimp only
          rw [same, if_congr (outside.valid_iff _) rfl rfl]
          split
          · rfl
          · split
            · simp [same]
            · rfl

/-- The tree has changed in one entry. -/
theorem keepsOthers (tree : mem.Tree pool dirs) (books : mem.Books pool free count)
    {count' : Nat → Nat} (nextTree : next.Tree pool dirs)
    (nextBooks : next.Books pool free' count')
    (outside : Outside mem next pool dirs) (user : va < utop)
    (words : ∀ f k l, (.pte f k l : Holder) ≠ .pteAt e user →
      next.word dirs (.pte f k l) = mem.word dirs (.pte f k l)) :
    KeepsOthers mem next pool dirs e va := by
  intro f pgdir other isDir range different
  rcases range with user' | above
  · have sameWord := words f ⟨pdx other, pdx_lt_userTables user'⟩
      ⟨ptx other, Nat.mod_lt _ (by decide)⟩ fun same => by
        have sameEntry : Holder.pteAt f user' = Holder.pteAt e user := same
        obtain ⟨sameEnv, samePage⟩ := pteAt_injective sameEntry
        rcases different with notEnv | notPage
        · exact notEnv sameEnv
        · exact notPage samePage
    have sameHeld : next.holds dirs (.pteAt f user') =
        mem.holds dirs (.pteAt f user') := congrArg frameOf sameWord
    rw [tree.translation books isDir user',
      nextTree.translation nextBooks isDir user', sameHeld]
    unfold Holder.pteAt
    rw [sameWord]
  · exact outside.translation isDir above

theorem load_store_of_ne {other : EntryPtr} (different : other ≠ ptr)
    (word : UInt32) : (mem.store ptr word).load other = mem.load other := by
  unfold load
  by_cases page : other.page = ptr.page
  · apply ram_store_index
    intro index
    apply different
    cases other
    cases ptr
    simp_all
  · rw [ram_store_other page]

/-! ## `page_remove` -/

/-- A page that is counted once less and freed with its last reference. -/
theorem drops_of_books {count' : Nat → Nat} (books : mem.Books pool free count)
    (nextBooks : next.Books pool free' count') (isPooled : old ∈ pool)
    (positive : 0 < count old) (bounded : count old < 2 ^ 16)
    (lowered : count' old = count old - 1)
    (freed : old ∈ free' ↔ count old = 1) : Drops mem next old := by
  unfold Drops
  have less : count old - 1 < UInt16.size := by
    change count old - 1 < 2 ^ 16
    omega
  have refBefore : (mem.pages old).ppRef.toNat = count old := by
    rw [books.ref old isPooled]
    exact UInt16.toNat_ofNat_of_lt' bounded
  have refAfter : (next.pages old).ppRef.toNat = count old - 1 := by
    rw [nextBooks.ref old isPooled, lowered]
    exact UInt16.toNat_ofNat_of_lt' less
  refine ⟨by omega, ?_⟩
  rw [nextBooks.onFreeList_iff, freed, ← UInt16.toNat_inj, refAfter]
  change count old = 1 ↔ count old - 1 = 0
  omega

theorem Accounted.removesPage (accounted : mem.Accounted pool free dirs)
    (isDir : dirs e = some d) (user : va < utop) :
    ∃ next, mem.pageRemove d va = some next ∧
      RemovesPage mem next pool dirs e d va := by
  have tree := accounted.tree
  have books := accounted.books
  have maps : ∀ page, mem.Maps d va page ↔
      mem.holds dirs (.pteAt e user) = some page := fun page =>
    tree.maps_iff books isDir user
  cases mapped : mem.holds dirs (.pteAt e user) with
  | none =>
      have nothing : ∀ page, ¬ mem.Maps d va page := by
        intro page isMapped
        rw [maps, mapped] at isMapped
        cases isMapped
      refine ⟨mem, tree.pageRemove_none books isDir user mapped, ?_, ?_, ?_, ?_,
        ?_⟩
      · rw [tree.translation books isDir user, mapped]
        rfl
      · exact fun _ _ _ _ _ _ => rfl
      · exact fun old isMapped => absurd isMapped (nothing old)
      · exact fun _ _ => ⟨rfl, Iff.rfl⟩
      · exact fun _ _ => rfl
  | some old =>
      have positive := references_pos mapped
      have bounded := accounted.bounded old
      obtain ⟨ptr, next, found, removes, removed⟩ :=
        tree.pageRemove_some books isDir user mapped positive (by omega)
      have entered : Entered mem next pool dirs e user 0 :=
        tree.enter found (fun _ named => by cases named)
          (fun nonzero => absurd rfl nonzero) removed.ram
      have isPooled := tree.pooled _ _ mapped
      have notMapped : ∀ other, ¬ mem.Maps d va other → other ≠ old := by
        rintro other notMaps rfl
        exact notMaps ((maps other).mpr mapped)
      have busy := accounted.notFree mapped
      have freed : ∀ other, other ∈
          (if references (mem.holds dirs) old = 1 then old :: free else free) ↔
          other ∈ free ∨ other = old ∧ references (mem.holds dirs) old = 1 := by
        intro other
        split
        · rename_i one
          simp [one, or_comm]
        · rename_i more
          simp [more]
      have stored := tree.outside_store found 0
      have outside : Outside mem next pool dirs := by
        refine ⟨?_, ?_, ?_, removed.elsewhere.npages⟩
        · rw [removed.ram]
          exact stored.ram
        · exact fun other => removed.elsewhere.outside isPooled
        · rw [removed.ram]
          exact stored.upper
      refine ⟨next, removes, ?_, ?_, ?_, ?_, ?_⟩
      · rw [entered.tree.translation removed.books isDir user, entered.holds,
          Function.update_self]
        rfl
      · apply keepsOthers tree books entered.tree removed.books outside user
        intro f k l different
        rw [entered.word, Function.update_of_ne different]
      · intro old' isMapped
        rw [maps, mapped] at isMapped
        cases isMapped
        apply drops_of_books books removed.books isPooled positive bounded
        · rw [Function.update_self]
        · rw [freed]
          simp [busy]
      · intro other notMaps
        have different := notMapped other notMaps
        refine ⟨removed.elsewhere.pages other different, ?_⟩
        rw [removed.books.onFreeList_iff, books.onFreeList_iff, freed]
        simp [different]
      · intro other notEntry
        have different : other ≠ ptr := by
          rintro rfl
          obtain ⟨ptr', found', looks⟩ :=
            tree.pageLookup_some books isDir user mapped
          cases found.symm.trans found'
          exact notEntry old looks
        have sameLoad : next.load other = (mem.store ptr 0).load other := by
          unfold load
          rw [removed.ram]
        rw [sameLoad, load_store_of_ne different]

/-! ## `page_insert` -/

theorem Inserted.mem_free
    (inserted : Inserted mem walked next pool free free' dirs e user page entry)
    {other : Nat} (busy : other ∉ free) :
    other ∈ free' ↔ other ≠ page ∧
      mem.holds dirs (.pteAt e user) = some other ∧
      references (mem.holds dirs) other = 1 := by
  obtain ⟨freeWalked, walk, isFree⟩ := inserted.walk
  have stillBusy := (walk.busy busy).1
  rw [isFree]
  cases mem.holds dirs (.pteAt e user) with
  | none => simp [stillBusy]
  | some old =>
      dsimp only
      split
      · rename_i freed
        constructor
        · intro member
          rcases List.mem_cons.mp member with rfl | member
          · exact ⟨freed.1, rfl, freed.2⟩
          · exact absurd member stillBusy
        · rintro ⟨_, same, _⟩
          cases same
          exact List.mem_cons_self
      · rename_i kept
        simp only [stillBusy, false_iff]
        rintro ⟨different, same, one⟩
        cases same
        exact kept ⟨different, one⟩

theorem Inserted.insertsPage
    (inserted : Inserted mem walked next pool free free' dirs e user page
      (page2pa page ||| perm ||| pteP))
    (accounted : mem.Accounted pool free dirs) (isDir : dirs e = some d)
    (isPooled : page ∈ pool) (busy : page ∉ free)
    (room : references (mem.holds dirs) page + 1 < 2 ^ 16 ∨
      mem.holds dirs (.pteAt e user) = some page) :
    InsertsPage mem next pool dirs e d page va perm := by
  have after := inserted.accounted accounted busy room
  have maps : ∀ page, mem.Maps d va page ↔
      mem.holds dirs (.pteAt e user) = some page := fun page =>
    accounted.tree.maps_iff accounted.books isDir user
  have refs := fun other (busy : other ∉ free) => inserted.refs busy
  refine ⟨?_, ?_, ?_, ?_, ?_, ?_, ?_⟩
  · rw [after.tree.translation after.books isDir user, inserted.holds,
      Function.update_self, inserted.entered.word, Function.update_self]
    rfl
  · apply keepsOthers accounted.tree accounted.books after.tree after.books
      inserted.outside user
    intro f k l different
    exact inserted.word_pte different
  · intro notMaps
    rw [maps] at notMaps
    rw [after.ref isPooled, accounted.ref isPooled, refs page busy, if_pos rfl,
      if_neg notMaps]
    omega
  · intro isMapped
    rw [maps] at isMapped
    apply UInt16.toNat_inj.mp
    rw [after.ref isPooled, accounted.ref isPooled, refs page busy, if_pos rfl,
      if_pos isMapped]
    omega
  · rw [after.books.onFreeList_iff, inserted.mem_free busy]
    exact fun freed => freed.1 rfl
  · intro old isMapped different
    rw [maps] at isMapped
    have oldBusy := accounted.notFree isMapped
    apply drops_of_books accounted.books after.books
      (accounted.tree.pooled _ _ isMapped) (references_pos isMapped)
      (accounted.bounded old)
    · rw [refs old oldBusy, if_neg different, if_pos isMapped, Nat.add_zero]
    · rw [inserted.mem_free oldBusy]
      exact ⟨fun freed => freed.2.2, fun one => ⟨different, isMapped, one⟩⟩
  · intro other different notMaps notFree
    rw [maps] at notMaps
    rw [accounted.books.onFreeList_iff] at notFree
    constructor
    · by_cases otherPooled : other ∈ pool
      · apply UInt16.toNat_inj.mp
        rw [after.ref otherPooled, accounted.ref otherPooled,
          refs other notFree, if_neg different, if_neg notMaps, Nat.add_zero,
          Nat.sub_zero]
      · rw [inserted.outside.pages other otherPooled]
    · rw [after.books.onFreeList_iff, inserted.mem_free notFree]
      exact fun freed => notMaps freed.2.1

/-- A count that wraps around. -/
theorem Inserted.wraps
    (inserted : Inserted mem walked next pool free free' dirs e user page entry)
    (isPooled : page ∈ pool) (busy : page ∉ free)
    (full : references (mem.holds dirs) page + 1 = 2 ^ 16)
    (notMapped : mem.holds dirs (.pteAt e user) ≠ some page) :
    (next.pages page).ppRef = 0 := by
  rw [inserted.books.ref page isPooled, inserted.refs busy, if_pos rfl,
    if_neg notMapped, full]
  rfl

/-- The table of `va` is missing and there is no page for one. -/
theorem Accounted.noEntry_iff (accounted : mem.Accounted pool free dirs)
    (isDir : dirs e = some d) (user : va < utop) :
    mem.entryAt dirs e user = none ∧ free = [] ↔
      mem.ram d (pdx va) = 0 ∧ mem.pageFreeList = none := by
  have isTable := mem.holds_pdeAt isDir user
  have noEntry : mem.entryAt dirs e user = none ↔ mem.ram d (pdx va) = 0 := by
    unfold entryAt
    rw [Option.map_eq_none_iff, isTable]
    unfold frameOf
    split
    · rename_i zero
      simp [zero]
    · rename_i nonzero
      simp [nonzero]
  have isEmpty : free = [] ↔ mem.pageFreeList = none := by
    have linked := accounted.books.linked
    constructor
    · intro empty
      rw [empty] at linked
      exact linked
    · intro none
      rw [none] at linked
      exact linked.of_none
  rw [noEntry, isEmpty]

/-- A count that wraps around does not rise. -/
theorem Accounted.not_updatesMap (accounted : mem.Accounted pool free dirs)
    (isDir : dirs e = some d) (isPooled : page ∈ pool) (busy : page ∉ free)
    (user : va < utop) (low : perm.toNat < 4096)
    (wraps : mem.WrapsAround d page va) :
    ¬ mem.UpdatesMap pool dirs e d page va perm := by
  obtain ⟨isLast, notMaps, notFull⟩ := wraps
  have isFull := accounted.noEntry_iff isDir user
  have counted := accounted.ref isPooled
  have notMapped : mem.holds dirs (.pteAt e user) ≠ some page := fun isMapped =>
    notMaps ((accounted.tree.maps_iff accounted.books isDir user).mpr isMapped)
  obtain ⟨walked, next, free', inserts, inserted⟩ :=
    accounted.pageInsert isDir user isPooled busy low fun full => by
      rcases notFull with table | someFree
      · exact table (isFull.mp full).1
      · exact someFree (isFull.mp full).2
  rintro ⟨⟨next', r, inserts', outcome⟩, _⟩
  cases inserts.symm.trans inserts'
  rcases outcome with ⟨failed, _⟩ | ⟨_, insertsPage⟩
  · cases failed
  · have rises := insertsPage.rises notMaps
    have full : references (mem.holds dirs) page + 1 = 2 ^ 16 := by
      rw [← counted, isLast]
      rfl
    rw [inserted.wraps isPooled busy full notMapped] at rises
    cases rises

/-- A page whose count does not wrap around may be mapped once more. -/
theorem Accounted.room (accounted : mem.Accounted pool free dirs)
    (isDir : dirs e = some d) (isPooled : page ∈ pool) (user : va < utop)
    (fits : ¬ mem.WrapsAround d page va)
    (notFull : ¬ (mem.entryAt dirs e user = none ∧ free = [])) :
    references (mem.holds dirs) page + 1 < 2 ^ 16 ∨
      mem.holds dirs (.pteAt e user) = some page := by
  have isFull := accounted.noEntry_iff isDir user
  have maps : mem.Maps d va page ↔
      mem.holds dirs (.pteAt e user) = some page :=
    accounted.tree.maps_iff accounted.books isDir user
  by_cases isMapped : mem.holds dirs (.pteAt e user) = some page
  · exact .inr isMapped
  · left
    have bounded := accounted.bounded page
    by_contra tooMany
    have isLast : references (mem.holds dirs) page = 65535 := by omega
    apply fits
    refine ⟨?_, fun isMaps => isMapped (maps.mp isMaps), ?_⟩
    · apply UInt16.toNat_inj.mp
      rw [accounted.ref isPooled, isLast]
      rfl
    · by_contra neither
      rw [not_or, not_not, not_not] at neither
      exact notFull (isFull.mpr neither)

/-- `page_insert` and `page_remove` update the map of an address space exactly
when `pp_ref` does not wrap around. -/
theorem updatesMap_iff_not_wrapsAround {mem : PhysMem} {pool free : List Nat}
    {dirs : Nat → Option Nat} {e : Fin nenv} {pgdir page : Nat}
    {va perm : UInt32} (accounted : mem.Accounted pool free dirs)
    (isDir : dirs e = some pgdir) (isPooled : page ∈ pool)
    (busy : ¬ mem.OnFreeList page) (user : va < utop)
    (low : perm.toNat < 4096) :
    mem.UpdatesMap pool dirs e pgdir page va perm ↔
      ¬ mem.WrapsAround pgdir page va := by
  have notFree : page ∉ free := fun member =>
    busy (accounted.books.onFreeList_iff.mpr member)
  constructor
  · intro updates wraps
    exact accounted.not_updatesMap isDir isPooled notFree user low wraps updates
  · intro fits
    have removes := accounted.removesPage isDir user
    by_cases full : mem.entryAt dirs e user = none ∧ free = []
    · have inserts := accounted.pageInsert_full isDir full.1 full.2 page perm
      exact ⟨⟨mem, _, inserts, .inl ⟨rfl, rfl⟩⟩, removes⟩
    · obtain ⟨walked, next, free', inserts, inserted⟩ :=
        accounted.pageInsert isDir user isPooled notFree low full
      refine ⟨⟨next, 0, inserts, .inr ⟨rfl, ?_⟩⟩, removes⟩
      exact inserted.insertsPage accounted isDir isPooled notFree
        (accounted.room isDir isPooled user fits full)

/-- The page 3 is mapped in the only address space. -/
theorem updatesMap_oneSpace :
    (oneSpace 8).UpdatesMap (List.range' 2 6) oneDir firstEnv 2 3 0x1000 7 ↔
      ¬ (oneSpace 8).WrapsAround 2 3 0x1000 := by
  obtain ⟨free, accounted, _, isPooled, busy, _⟩ :=
    @oneSpace_accounted 8 (by decide) (by decide)
  have notFree : ¬ (oneSpace 8).OnFreeList 3 := fun isFree =>
    busy (accounted.books.onFreeList_iff.mp isFree)
  exact updatesMap_iff_not_wrapsAround accounted rfl isPooled notFree
    (by decide) (by decide)

/-! ## A count that wraps around -/

/-- The address of the page `k`. -/
def pageVa (k : Nat) : UInt32 := UInt32.ofNat (k * 4096)

theorem pageVa_toNat {k : Nat} (bound : k < 2 ^ 20) :
    (pageVa k).toNat = k * 4096 := by
  unfold pageVa
  apply UInt32.toNat_ofNat_of_lt'
  change k * 4096 < 2 ^ 32
  omega

theorem pageVa_user {k : Nat} (bound : k < 2 ^ 16) : pageVa k < utop := by
  have isUtop : utop.toNat = 955 * 2 ^ 22 := by decide
  rw [UInt32.lt_iff_toNat_lt, pageVa_toNat (by omega)]
  omega

/-- The page 3 is mapped at `n` addresses, and there are free pages left. -/
structure Repeated (mem : PhysMem) (pool free : List Nat)
    (dirs : Nat → Option Nat) (n : Nat) : Prop where
  accounted : mem.Accounted pool free dirs
  isPooled : 3 ∈ pool
  busy : 3 ∉ free
  counted : references (mem.holds dirs) 3 = n
  unmapped : ∀ k (bound : k < 2 ^ 16), n ≤ k →
    mem.holds dirs (.pteAt firstEnv (pageVa_user bound)) = none
  spare : 2 ^ 16 ≤ free.length + n

theorem Repeated.again {n : Nat} (repeated : mem.Repeated pool free oneDir n)
    (bound : n + 1 < 2 ^ 16) :
    ∃ (next : PhysMem) (free' : List Nat),
      mem.pageInsert 2 3 (pageVa n) 7 = some (next, 0) ∧
        next.Repeated pool free' oneDir (n + 1) := by
  obtain ⟨accounted, isPooled, busy, counted, unmapped, spare⟩ := repeated
  have small : n < 2 ^ 16 := by omega
  have notFull : ¬ (mem.entryAt oneDir firstEnv (pageVa_user small) = none ∧
      free = []) := by
    rintro ⟨_, empty⟩
    rw [empty, List.length_nil] at spare
    omega
  have low : (7 : UInt32).toNat < 4096 := by decide
  obtain ⟨walked, next, free', inserts, inserted⟩ := accounted.pageInsert rfl
    (pageVa_user small) isPooled busy low notFull
  have nothing := unmapped n small (le_refl n)
  have room : references (mem.holds oneDir) 3 + 1 < 2 ^ 16 := by omega
  have after := inserted.accounted accounted busy (.inl room)
  refine ⟨next, free', inserts, after, isPooled, ?_, ?_, ?_, ?_⟩
  · rw [inserted.mem_free busy]
    exact fun freed => freed.1 rfl
  · rw [inserted.refs busy, if_pos rfl, nothing, if_neg (by simp), counted]
    rfl
  · intro k isPage above
    have different : Holder.pteAt firstEnv (pageVa_user isPage) ≠
        .pteAt firstEnv (pageVa_user small) := by
      intro same
      have pages := (pteAt_injective same).2
      rw [pageVa_toNat (by omega), pageVa_toNat (by omega)] at pages
      omega
    have sameWord := inserted.word_pte different
    exact (congrArg frameOf sameWord).trans (unmapped k isPage (by omega))
  · obtain ⟨freeWalked, walk, isFree⟩ := inserted.walk
    rw [nothing] at isFree
    dsimp only at isFree
    rw [isFree]
    cases walk with
    | stays => omega
    | adds added =>
        rw [added.isFree, List.length_cons] at spare
        omega

theorem exists_repeated {n : Nat} (bound : n < 2 ^ 16) :
    ∃ (mem : PhysMem) (pool free : List Nat),
      mem.Repeated pool free oneDir n := by
  induction n with
  | zero =>
      obtain ⟨free, accounted, length, isPooled, busy, unreferenced, empty⟩ :=
        @oneSpace_accounted (2 ^ 17) (by decide) (by decide)
      refine ⟨_, _, free, accounted, isPooled, busy, ?_, ?_, by omega⟩
      · exact references_eq_zero.mpr unreferenced
      · intro k isPage _
        exact congrArg frameOf (empty _ _ _)
  | succ n induction =>
      obtain ⟨mem, pool, free, repeated⟩ := induction (by omega)
      obtain ⟨next, free', _, again⟩ := repeated.again bound
      exact ⟨next, pool, free', again⟩

/-- A page that is mapped at 65535 addresses is mapped at another one. -/
theorem not_updatesMap :
    ¬ ∀ (mem : PhysMem) (pool free : List Nat) (dirs : Nat → Option Nat)
        (e : Fin nenv) (pgdir page : Nat) (va perm : UInt32),
      mem.Accounted pool free dirs → dirs e = some pgdir → page ∈ pool →
      ¬ mem.OnFreeList page → va < utop → va % 4096 = 0 →
      perm.toNat < 4096 → mem.UpdatesMap pool dirs e pgdir page va perm := by
  intro updates
  obtain ⟨mem, pool, free, accounted, isPooled, busy, counted, unmapped, spare⟩ :=
    @exists_repeated 65535 (by decide)
  have last : 65535 < 2 ^ 16 := by decide
  have user := pageVa_user last
  have notFree : ¬ mem.OnFreeList 3 := fun isFree =>
    busy (accounted.books.onFreeList_iff.mp isFree)
  have low : (7 : UInt32).toNat < 4096 := by decide
  have updated := updates mem pool free oneDir firstEnv 2 3 (pageVa 65535) 7
    accounted rfl isPooled notFree user (by decide) low
  have isDir : oneDir firstEnv = some 2 := rfl
  have noMaps : ¬ mem.Maps 2 (pageVa 65535) 3 := by
    rw [accounted.tree.maps_iff accounted.books isDir user,
      unmapped 65535 last (le_refl _)]
    simp
  have isLast : (mem.pages 3).ppRef = 65535 := by
    apply UInt16.toNat_inj.mp
    rw [accounted.ref isPooled, counted]
    rfl
  have someFree : mem.pageFreeList ≠ none := by
    intro none
    have linked := accounted.books.linked
    rw [none] at linked
    rw [linked.of_none, List.length_nil] at spare
    omega
  exact accounted.not_updatesMap isDir isPooled busy user low
    ⟨isLast, noMaps, .inr someFree⟩ updated

end PhysMem

end FeaturesOS.Scheduler

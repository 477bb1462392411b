import FeaturesOS.Scheduler.PageTree

/-!
# The accounts of the physical pages

The books count every page as often as the directories and tables of the
environments refer to it.  Walking, inserting and removing keep it so.
-/

namespace FeaturesOS.Scheduler

/-! ## Entries -/

section Words

variable {page : Nat} {flags : UInt32}

theorem or_and (first second mask : UInt32) :
    (first ||| second) &&& mask = first &&& mask ||| second &&& mask := by
  apply UInt32.toBitVec_inj.mp
  ext bit
  simp [Bool.and_or_distrib_right]

theorem or_present (present : flags &&& pteP ≠ 0) (first : UInt32) :
    (first ||| flags) &&& pteP ≠ 0 := by
  rw [or_and]
  intro zero
  exact present (UInt32.or_eq_zero_iff.mp zero).2

theorem ne_zero_of_present (present : flags &&& pteP ≠ 0) : flags ≠ 0 := by
  intro zero
  subst zero
  exact present rfl

theorem page2pa_toNat (addressable : page < 2 ^ 20) :
    (page2pa page).toNat = page * 4096 := by
  unfold page2pa
  apply UInt32.toNat_ofNat_of_lt'
  change page * 4096 < 2 ^ 32
  omega

/-- The flags are added below the address of the page. -/
theorem page2pa_or (addressable : page < 2 ^ 20) (low : flags.toNat < 4096) :
    (page2pa page ||| flags).toNat = page * 4096 + flags.toNat := by
  have shifted : page <<< 12 ||| flags.toNat = page <<< 12 + flags.toNat :=
    (Nat.shiftLeft_add_eq_or_of_lt (by omega) page).symm
  rw [UInt32.toNat_or, page2pa_toNat addressable,
    show page * 4096 = page <<< 12 from (Nat.shiftLeft_eq page 12).symm, shifted]

/-- The address of a page has no low bits. -/
theorem page2pa_and {mask : UInt32} (low : mask.toNat < 4096) :
    page2pa page &&& mask = 0 := by
  apply UInt32.toNat_inj.mp
  unfold page2pa
  rw [UInt32.toNat_and, UInt32.toNat_ofNat']
  apply Nat.eq_of_testBit_eq
  intro bit
  rw [Nat.testBit_and, Nat.testBit_mod_two_pow, show page * 4096 = page <<< 12
    from (Nat.shiftLeft_eq page 12).symm, Nat.testBit_shiftLeft]
  by_cases high : 12 ≤ bit
  · have noMask : mask.toNat.testBit bit = false :=
      Nat.testBit_lt_two_pow (Nat.lt_of_lt_of_le low
        (Nat.pow_le_pow_right Nat.two_pos high))
    simp [noMask]
  · simp [high]

theorem page2pa_or_and {mask : UInt32} (low : mask.toNat < 4096) :
    (page2pa page ||| flags) &&& mask = flags &&& mask := by
  rw [or_and, page2pa_and low, UInt32.zero_or]

theorem pteFrame_or (addressable : page < 2 ^ 20) (low : flags.toNat < 4096) :
    pteFrame (page2pa page ||| flags) = page := by
  unfold pteFrame
  rw [page2pa_or addressable low]
  omega

theorem frameOf_or (addressable : page < 2 ^ 20) (low : flags.toNat < 4096)
    (present : flags &&& pteP ≠ 0) :
    frameOf (page2pa page ||| flags) = some page := by
  unfold frameOf
  rw [if_neg (ne_zero_of_present (or_present present _)),
    pteFrame_or addressable low]

theorem or_pteP_present (perm : UInt32) : (perm ||| pteP) &&& pteP ≠ 0 :=
  or_present (by decide) perm

theorem or_pteP_lt (low : flags.toNat < 4096) :
    (flags ||| pteP).toNat < 4096 := by
  rw [UInt32.toNat_or]
  exact @Nat.or_lt_two_pow _ _ 12 low (by decide)

end Words

/-! ## User addresses -/

theorem pdx_lt_userTables {va : UInt32} (user : va < utop) :
    pdx va < userTables := by
  have below := UInt32.lt_iff_toNat_lt.mp user
  have isUtop : utop.toNat = 955 * 2 ^ 22 := by decide
  unfold pdx userTables
  omega

/-- The entry of a user address in the table of its directory. -/
def Holder.pdeAt (e : Fin nenv) {va : UInt32} (user : va < utop) : Holder :=
  .pde e ⟨pdx va, pdx_lt_userTables user⟩

/-- The entry of a user address in its table. -/
def Holder.pteAt (e : Fin nenv) {va : UInt32} (user : va < utop) : Holder :=
  .pte e ⟨pdx va, pdx_lt_userTables user⟩ ⟨ptx va, Nat.mod_lt _ (by decide)⟩

namespace PhysMem

/-! ## The trees of directories and tables -/

/-- What the directories and the tables refer to is in the pool, none of them
shares its page, and every entry is present or 0. -/
structure Tree (mem : PhysMem) (pool : List Nat) (dirs : Nat → Option Nat) :
    Prop where
  pooled : ∀ holder page, mem.holds dirs holder = some page → page ∈ pool
  apart : mem.Apart dirs
  present : ∀ holder, mem.word dirs holder ≠ 0 →
    mem.word dirs holder &&& pteP ≠ 0

variable {mem next : PhysMem} {dirs : Nat → Option Nat} {pool free : List Nat}
variable {count : Nat → Nat} {e : Fin nenv} {i : Fin userTables}
variable {j : Fin nptEntries} {d t page : Nat} {entry va : UInt32}

/-- A new entry in a table. -/
theorem Tree.setPte (tree : mem.Tree pool dirs)
    (changed : next.word dirs =
      Function.update (mem.word dirs) (.pte e i j) entry)
    (pooled : ∀ page, frameOf entry = some page → page ∈ pool)
    (present : entry ≠ 0 → entry &&& pteP ≠ 0) : next.Tree pool dirs := by
  have holds := holds_update (by simp) changed
  have sameContainer : ∀ holder : Holder, holder.IsContainer →
      next.holds dirs holder = mem.holds dirs holder := by
    intro holder container
    rw [holds, Function.update_of_ne]
    rintro rfl
    exact container
  constructor
  · intro holder page refers
    rw [holds] at refers
    by_cases same : holder = .pte e i j
    · subst same
      rw [Function.update_self] at refers
      exact pooled page refers
    · rw [Function.update_of_ne same] at refers
      exact tree.pooled holder page refers
  · intro first second page isFirst isSecond atFirst atSecond
    rw [sameContainer first isFirst] at atFirst
    rw [sameContainer second isSecond] at atSecond
    exact tree.apart first second page isFirst isSecond atFirst atSecond
  · intro holder nonzero
    rw [changed] at nonzero ⊢
    by_cases same : holder = .pte e i j
    · subst same
      rw [Function.update_self] at nonzero ⊢
      exact present nonzero
    · rw [Function.update_of_ne same] at nonzero ⊢
      exact tree.present holder nonzero

/-- A directory or a table in a page that held none, or one less. -/
theorem Tree.setContainer {dirs' : Nat → Option Nat} {holder : Holder}
    {target : Option Nat} (tree : mem.Tree pool dirs)
    (holds : next.holds dirs' =
      Function.update (mem.holds dirs) holder target)
    (pooled : ∀ page, target = some page → page ∈ pool ∧
      ∀ other, other.IsContainer → mem.holds dirs other ≠ some page)
    (present : ∀ other, next.word dirs' other ≠ 0 →
      next.word dirs' other &&& pteP ≠ 0) : next.Tree pool dirs' := by
  constructor
  · intro other page refers
    rw [holds] at refers
    by_cases same : other = holder
    · subst same
      rw [Function.update_self] at refers
      exact (pooled page refers).1
    · rw [Function.update_of_ne same] at refers
      exact tree.pooled other page refers
  · intro first second page isFirst isSecond atFirst atSecond
    rw [holds] at atFirst atSecond
    by_cases sameFirst : first = holder
    · by_cases sameSecond : second = holder
      · exact sameFirst.trans sameSecond.symm
      · subst sameFirst
        rw [Function.update_self] at atFirst
        rw [Function.update_of_ne sameSecond] at atSecond
        exact absurd atSecond ((pooled page atFirst).2 second isSecond)
    · rw [Function.update_of_ne sameFirst] at atFirst
      by_cases sameSecond : second = holder
      · subst sameSecond
        rw [Function.update_self] at atSecond
        exact absurd atFirst ((pooled page atSecond).2 first isFirst)
      · rw [Function.update_of_ne sameSecond] at atSecond
        exact tree.apart first second page isFirst isSecond atFirst atSecond
  · exact present

theorem Tree.congr (tree : mem.Tree pool dirs)
    (same : next.word dirs = mem.word dirs) : next.Tree pool dirs := by
  have holds := holds_congr same
  refine ⟨?_, ?_, ?_⟩
  · rw [holds]
    exact tree.pooled
  · unfold Apart
    rw [holds]
    exact tree.apart
  · rw [same]
    exact tree.present

/-- The entries of a page only change with its contents. -/
theorem word_of_ram (same : next.ram = mem.ram) :
    next.word dirs = mem.word dirs :=
  word_congr fun _ page _ _ => congrFun same page

/-- The books count what the tree refers to, and no count wraps around. -/
structure Accounted (mem : PhysMem) (pool free : List Nat)
    (dirs : Nat → Option Nat) : Prop where
  tree : mem.Tree pool dirs
  books : mem.Books pool free (references (mem.holds dirs))
  bounded : ∀ page, references (mem.holds dirs) page < 2 ^ 16

/-- Every `pp_ref` is the number of references to its page. -/
theorem Accounted.ref (accounted : mem.Accounted pool free dirs)
    (isPooled : page ∈ pool) :
    (mem.pages page).ppRef.toNat = references (mem.holds dirs) page := by
  rw [accounted.books.ref page isPooled]
  exact UInt16.toNat_ofNat_of_lt' (accounted.bounded page)

theorem Accounted.unreferenced (accounted : mem.Accounted pool free dirs)
    (member : page ∈ free) (holder : Holder) :
    mem.holds dirs holder ≠ some page :=
  references_eq_zero.mp (accounted.books.uncounted page member) holder

theorem Accounted.notFree (accounted : mem.Accounted pool free dirs)
    {holder : Holder} (refers : mem.holds dirs holder = some page) :
    page ∉ free :=
  fun member => accounted.unreferenced member holder refers

theorem Accounted.lt (accounted : mem.Accounted pool free dirs)
    (isPooled : page ∈ pool) : page < 2 ^ 20 :=
  Nat.lt_of_lt_of_le (accounted.books.valid page isPooled)
    accounted.books.addressable

/-- What a change of the tree leaves alone: the pages that `page_alloc` does not
manage, and what a directory maps from `UTOP` on. -/
structure Outside (mem next : PhysMem) (pool : List Nat)
    (dirs : Nat → Option Nat) : Prop where
  ram : ∀ page, page ∉ pool → next.ram page = mem.ram page
  pages : ∀ page, page ∉ pool → next.pages page = mem.pages page
  upper : ∀ (e : Fin nenv) d index, dirs e = some d → userTables ≤ index →
    next.ram d index = mem.ram d index
  npages : next.npages = mem.npages

theorem Outside.refl (mem : PhysMem) (pool : List Nat)
    (dirs : Nat → Option Nat) : Outside mem mem pool dirs :=
  ⟨fun _ _ => rfl, fun _ _ => rfl, fun _ _ _ _ _ => rfl, rfl⟩

theorem Outside.trans {last : PhysMem} (first : Outside mem next pool dirs)
    (second : Outside next last pool dirs) : Outside mem last pool dirs where
  ram page outside := (second.ram page outside).trans (first.ram page outside)
  pages page outside :=
    (second.pages page outside).trans (first.pages page outside)
  upper e d index isDir upper :=
    (second.upper e d index isDir upper).trans (first.upper e d index isDir upper)
  npages := second.npages.trans first.npages

/-- `page_alloc` takes a page out of the free ones and leaves the tree alone. -/
theorem Accounted.pageAlloc (accounted : mem.Accounted pool free dirs)
    {zero : Bool} (taken : mem.pageAlloc zero = (next, some page)) :
    ∃ free', free = page :: free' ∧ page ∈ pool ∧ page ∉ free' ∧
      next.Accounted pool free' dirs ∧ next.word dirs = mem.word dirs ∧
      Outside mem next pool dirs := by
  have alloc := accounted.books.pageAlloc zero
  rw [taken] at alloc
  obtain ⟨rest, isFree, books, ram, elsewhere⟩ := alloc
  have member : page ∈ free := isFree ▸ List.mem_cons_self
  have isPooled := accounted.books.pooled page member
  have unreferenced := accounted.unreferenced member
  have nodup := accounted.books.nodup
  rw [isFree, List.nodup_cons] at nodup
  have otherRam : ∀ other, other ≠ page → next.ram other = mem.ram other := by
    intro other different
    rw [ram]
    cases zero with
    | false => rfl
    | true => exact Function.update_of_ne different _ _
  have word : next.word dirs = mem.word dirs := by
    apply word_congr
    intro holder other _ refers
    apply otherRam
    rintro rfl
    exact unreferenced holder refers
  have holds := holds_congr word
  refine ⟨rest, isFree, isPooled, nodup.1,
    ⟨accounted.tree.congr word, ?_, ?_⟩, word, ?_⟩
  · rw [holds]
    exact books
  · rw [holds]
    exact accounted.bounded
  · have notPage : ∀ other, other ∉ pool → other ≠ page := by
      rintro other outside rfl
      exact outside isPooled
    refine ⟨?_, ?_, ?_, elsewhere.npages⟩
    · exact fun other outside => otherRam other (notPage other outside)
    · exact fun other outside => elsewhere.pages other (notPage other outside)
    · intro f d' index isDir _
      rw [otherRam]
      rintro rfl
      exact unreferenced (.pgdir f) isDir

/-! ## `pgdir_walk` -/

/-- The pointer that a walk returns. -/
def entryAt (mem : PhysMem) (dirs : Nat → Option Nat) (e : Fin nenv)
    (user : va < utop) : Option EntryPtr :=
  (mem.holds dirs (.pdeAt e user)).map fun t => ⟨t, ptx va⟩

theorem holds_pdeAt (mem : PhysMem) (isDir : dirs e = some d)
    (user : va < utop) :
    mem.holds dirs (.pdeAt e user) = frameOf (mem.ram d (pdx va)) :=
  holds_pde isDir

theorem Tree.tableEntry (tree : mem.Tree pool dirs)
    (books : mem.Books pool free count) (isDir : dirs e = some d)
    (user : va < utop) :
    mem.tableEntry d va = some (mem, mem.entryAt dirs e user) := by
  have isTable := mem.holds_pdeAt isDir user
  unfold PhysMem.tableEntry entryAt
  dsimp only
  split
  · rename_i zero
    rw [isTable, zero]
    rfl
  · rename_i present
    have named : frameOf (mem.ram d (pdx va)) =
        some (pteFrame (mem.ram d (pdx va))) := if_neg present
    rw [named] at isTable
    have pooled := tree.pooled _ _ isTable
    rw [if_pos (books.valid _ pooled), isTable]
    rfl

/-- A table has been added in a page that was free. -/
structure Added (mem next : PhysMem) (pool free free' : List Nat)
    (dirs : Nat → Option Nat) (e : Fin nenv) (i : Fin userTables) (t : Nat) :
    Prop where
  accounted : next.Accounted pool free' dirs
  isFree : free = t :: free'
  noTable : mem.holds dirs (.pde e i) = none
  holds : next.holds dirs =
    Function.update (mem.holds dirs) (.pde e i) (some t)
  ptes : ∀ e i j, next.word dirs (.pte e i j) = mem.word dirs (.pte e i j)
  outside : Outside mem next pool dirs

/-- The flags of a new directory entry. -/
theorem pdeFlags : (pteP ||| pteW ||| pteU).toNat < 4096 ∧
    (pteP ||| pteW ||| pteU) &&& pteP ≠ 0 := by
  decide

theorem pdeWord (page : Nat) :
    page2pa page ||| pteP ||| pteW ||| pteU =
      page2pa page ||| (pteP ||| pteW ||| pteU) := by
  rw [UInt32.or_assoc, UInt32.or_assoc, UInt32.or_assoc]

theorem Accounted.addTable (accounted : mem.Accounted pool free dirs)
    (isDir : dirs e = some d) (i : Fin userTables) (empty : mem.ram d i = 0)
    {allocated : PhysMem}
    (taken : mem.pageAlloc true = (allocated, some t))
    (linked : next = (allocated.pageIncref t).store ⟨d, i⟩
      (page2pa t ||| pteP ||| pteW ||| pteU)) :
    ∃ free', Added mem next pool free free' dirs e i t := by
  subst linked
  have alloc := accounted.books.pageAlloc true
  rw [taken] at alloc
  obtain ⟨rest, isFree, books, ram, elsewhere⟩ := alloc
  have member : t ∈ free := isFree ▸ List.mem_cons_self
  have pooled := accounted.books.pooled t member
  have unreferenced := accounted.unreferenced member
  have nodup := accounted.books.nodup
  rw [isFree, List.nodup_cons] at nodup
  have addressable := accounted.lt pooled
  have dirPooled : ∀ (f : Fin nenv) d', dirs f = some d' → d' ∈ pool :=
    fun f d' isDir => accounted.tree.pooled (.pgdir f) d' isDir
  have dirOther : ∀ (f : Fin nenv) d', dirs f = some d' → d' ≠ t := by
    rintro f d' isDir rfl
    exact unreferenced (.pgdir f) isDir
  have otherPages : ∀ page, page ∉ pool →
      (allocated.pageIncref t).pages page = mem.pages page := by
    intro page outside
    have different : page ≠ t := by
      rintro rfl
      exact outside pooled
    exact (Function.update_of_ne different _ _).trans
      (elsewhere.pages page different)
  have npages : (allocated.pageIncref t).npages = mem.npages :=
    elsewhere.npages
  generalize isAllocated : allocated.pageIncref t = counted at otherPages npages
  have ramCounted : counted.ram = Function.update mem.ram t fun _ => 0 := by
    rw [← isAllocated]
    exact ram
  have sameWord : counted.word dirs = mem.word dirs := by
    apply word_congr
    intro holder page _ refers
    rw [ramCounted, Function.update_of_ne]
    rintro rfl
    exact unreferenced holder refers
  have sameHolds := holds_congr sameWord
  have tree := accounted.tree.congr sameWord
  have noEntry : mem.holds dirs (.pde e i) = none := by
    rw [holds_pde isDir, empty]
    rfl
  rw [pdeWord]
  have names : frameOf (page2pa t ||| (pteP ||| pteW ||| pteU)) = some t :=
    frameOf_or addressable pdeFlags.1 pdeFlags.2
  generalize isEntry : page2pa t ||| (pteP ||| pteW ||| pteU) = entry
    at names ⊢
  have changed : (counted.store ⟨d, i⟩ entry).word dirs =
      Function.update (counted.word dirs) (.pde e i) entry := by
    apply word_store_pde tree.apart isDir
    · intro j
      rw [sameWord]
      exact word_pte_none isDir (congrArg frameOf empty)
    · intro t' isT
      cases names.symm.trans isT
      exact ⟨(dirOther e d isDir).symm, fun j => by
        rw [ramCounted, Function.update_self]⟩
  have holds := holds_update (by simp) changed
  rw [names, sameHolds] at holds
  rw [sameWord] at changed
  have counts := references_set noEntry t
  rw [← holds] at counts
  refine ⟨rest, ⟨?_, ?_, ?_⟩, isFree, noEntry, holds, ?_, ?_, ?_, ?_, ?_⟩
  · apply accounted.tree.setContainer holds
    · intro page isT
      cases isT
      exact ⟨pooled, fun other _ => unreferenced other⟩
    · intro other present
      rw [changed] at present ⊢
      by_cases same : other = .pde e i
      · subst same
        rw [Function.update_self, ← isEntry]
        exact or_present pdeFlags.2 _
      · rw [Function.update_of_ne same] at present ⊢
        exact accounted.tree.present other present
  · rw [counts]
    have incremented := books.pageIncref pooled nodup.1
    rw [isAllocated] at incremented
    exact incremented.withRam _
  · intro page
    rw [counts]
    by_cases isT : page = t
    · subst isT
      rw [Function.update_self, accounted.books.uncounted page member]
      decide
    · rw [Function.update_of_ne isT]
      exact accounted.bounded page
  · intro f k l
    rw [changed, Function.update_of_ne (by simp)]
  · intro page outside
    have notDir : page ≠ d := by
      rintro rfl
      exact outside (dirPooled e page isDir)
    have notTable : page ≠ t := by
      rintro rfl
      exact outside pooled
    rw [ram_store_other notDir, ramCounted, Function.update_of_ne notTable]
  · exact otherPages
  · intro f d' index isOther upper
    have notIndex : index ≠ i := fun same => by omega
    rw [ram_store_index notIndex, ramCounted,
      Function.update_of_ne (dirOther f d' isOther)]
  · exact npages

/-- A walk leaves the tree alone or adds a table. -/
inductive Walk (mem : PhysMem) (pool free : List Nat)
    (dirs : Nat → Option Nat) (e : Fin nenv) (i : Fin userTables) :
    PhysMem → List Nat → Prop where
  | stays : Walk mem pool free dirs e i mem free
  | adds {next : PhysMem} {free' : List Nat} {t : Nat} :
      Added mem next pool free free' dirs e i t →
      Walk mem pool free dirs e i next free'

/-- `pgdir_walk` of a user address.  It finds no entry when it must not add a
table or cannot. -/
theorem Accounted.pgdirWalk (accounted : mem.Accounted pool free dirs)
    (isDir : dirs e = some d) (user : va < utop) (create : Bool) :
    ∃ next free',
      mem.pgdirWalk d va create = some (next, next.entryAt dirs e user) ∧
      Walk mem pool free dirs e ⟨pdx va, pdx_lt_userTables user⟩ next free' ∧
      (next.entryAt dirs e user = none ↔
        mem.entryAt dirs e user = none ∧ (create = true → free = [])) := by
  have stays := accounted.tree.tableEntry accounted.books isDir user
  have isTable := mem.holds_pdeAt isDir user
  unfold PhysMem.pgdirWalk
  split
  · rename_i creates
    have noEntry : mem.entryAt dirs e user = none := by
      unfold entryAt
      rw [isTable, creates.1]
      rfl
    have alloc := accounted.books.pageAlloc true
    cases taken : mem.pageAlloc true with
    | mk allocated found =>
        rw [taken] at alloc
        cases found with
        | none =>
            refine ⟨mem, free, ?_, .stays, ?_⟩
            · rw [noEntry]
            · exact ⟨fun none => ⟨none, fun _ => alloc.2⟩, fun both => both.1⟩
        | some t =>
            dsimp only
            obtain ⟨free', added⟩ := accounted.addTable isDir
              ⟨pdx va, pdx_lt_userTables user⟩ creates.1 taken rfl
            refine ⟨_, free', ?_, .adds added, ?_⟩
            · exact added.accounted.tree.tableEntry added.accounted.books isDir
                user
            · constructor
              · intro isNone
                rw [entryAt, added.holds, Holder.pdeAt, Function.update_self]
                  at isNone
                cases isNone
              · rintro ⟨_, full⟩
                have empty := full creates.2
                rw [added.isFree] at empty
                cases empty
  · rename_i keeps
    refine ⟨mem, free, stays, .stays, ?_⟩
    constructor
    · intro isNone
      refine ⟨isNone, fun isCreate => ?_⟩
      have absent : frameOf (mem.ram d (pdx va)) = none := by
        rw [← isTable]
        exact Option.map_eq_none_iff.mp isNone
      have zero : mem.ram d (pdx va) = 0 := by
        by_contra nonzero
        rw [frameOf, if_neg nonzero] at absent
        cases absent
      exact absurd ⟨zero, isCreate⟩ keeps
    · exact fun both => both.1

end PhysMem

end FeaturesOS.Scheduler

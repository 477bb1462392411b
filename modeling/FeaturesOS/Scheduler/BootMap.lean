import FeaturesOS.LinkedList
import FeaturesOS.Scheduler.PageMaps

/-!
# Static mappings

`boot_map_region` and the two ways in which its result is read: by
`check_va2pa`, and by the processor with `CR4_PSE` set.  An address that is a
multiple of `PGSIZE` is the `page2pa` of its page number, whether it is virtual
or physical.
-/

namespace FeaturesOS.Scheduler

/-- `PTE_PS`. -/
def ptePs : UInt32 := 0x080

/-- `LPGSIZE`. -/
def lpgSize : UInt32 := 0x400000

/-- `LPG_OFF`. -/
def lpgOff (la : UInt32) : UInt32 := la &&& 0x3FFFFF

/-- What the large pages have left over. -/
structure Region where
  mem : PhysMem
  va : UInt32
  size : UInt32
  pa : UInt32

/-- The physical address of a byte, and what is allowed there. -/
structure Access where
  pa : UInt32
  user : Bool
  write : Bool
deriving DecidableEq

namespace PhysMem

/-- A round of the loop over the pages; a store through NULL is a fault. -/
def mapPage (mem : PhysMem) (pgdir : Nat) (va entry : UInt32) :
    Option PhysMem := do
  let (walked, pte) ← mem.pgdirWalk pgdir va true
  let removed ← walked.pageRemove pgdir va
  match pte with
  | none => none
  | some pte => some (removed.store pte entry)

/-- The loop over the pages from `i` on. -/
def mapPages (pgdir : Nat) (va size pa perm : UInt32) :
    Nat → PhysMem → UInt32 → Option PhysMem
  | 0, _, _ => none
  | rounds + 1, mem, i =>
      if i < size then do
        let mapped ← mem.mapPage pgdir (va + i) ((pa + i) ||| perm ||| pteP)
        mapPages pgdir va size pa perm rounds mapped (i + 4096)
      else
        some mem

/-- The loop over the large pages. -/
def mapLarge (pgdir : Nat) (perm : UInt32) : Nat → Region → Region
  | 0, region => region
  | rounds + 1, region =>
      if lpgOff region.va = 0 ∧ region.size ≥ lpgSize ∧ lpgOff region.pa = 0 then
        mapLarge pgdir perm rounds
          { mem := region.mem.store ⟨pgdir, pdx region.va⟩
              (region.pa ||| perm ||| pteP ||| ptePs)
            va := region.va + lpgSize
            size := region.size - lpgSize
            pa := region.pa + lpgSize }
      else
        region

/-- `boot_map_region`, compiled with `TP1_PSE` or without it.  The first loop ends
after `size / LPGSIZE` rounds.  In the second one `i` has `2 ^ 20` values, so it
does not end when it needs more rounds. -/
def bootMapRegion (tp1Pse : Bool) (mem : PhysMem) (pgdir : Nat)
    (va size pa perm : UInt32) : Option PhysMem :=
  let region : Region := ⟨mem, va, size, pa⟩
  let rest :=
    if tp1Pse then mapLarge pgdir perm (size.toNat / 2 ^ 22) region else region
  mapPages pgdir rest.va rest.size rest.pa perm (2 ^ 20 + 1) rest.mem 0

/-- `check_va2pa`. -/
def checkVa2pa (mem : PhysMem) (pgdir : Nat) (va : UInt32) : Option UInt32 :=
  let pde := mem.ram pgdir (pdx va)
  if pde &&& pteP = 0 then
    some (~~~0)
  else if pde &&& ptePs ≠ 0 then
    some (pgAddr (pdx pde) (ptx va) ||| (va &&& 0xFFF))
  else if mem.Valid (pteFrame pde) then
    let pte := mem.ram (pteFrame pde) (ptx va)
    if pte &&& pteP = 0 then some (~~~0) else some (page2pa (pteFrame pte))
  else
    none

/-- How the processor translates an address; `none` is a page fault.  The bits 13
to 21 of the entry of a large page are not part of an address of 32 bits. -/
def access (mem : PhysMem) (pgdir : Nat) (va : UInt32) : Option Access :=
  let pde := mem.ram pgdir (pdx va)
  if pde &&& pteP = 0 then
    none
  else if pde &&& ptePs ≠ 0 then
    if pde.toNat / 2 ^ 13 % 2 ^ 9 ≠ 0 then
      none
    else
      some
        { pa := UInt32.ofNat (pdx pde * 2 ^ 22 + va.toNat % 2 ^ 22)
          user := pde &&& pteU ≠ 0
          write := pde &&& pteW ≠ 0 }
  else
    let pte := mem.ram (pteFrame pde) (ptx va)
    if pte &&& pteP = 0 then
      none
    else
      some
        { pa := UInt32.ofNat (pteFrame pte * 2 ^ 12 + va.toNat % 2 ^ 12)
          user := pde &&& pte &&& pteU ≠ 0
          write := pde &&& pte &&& pteW ≠ 0 }

end PhysMem

/-- The entry of the page directory covers a part of the region. -/
def Covers (va size : UInt32) (index : Nat) : Prop :=
  ∃ offset < size.toNat, (va.toNat + offset) / 2 ^ 22 = index

/-- The number of page tables that the region needs. -/
def tablesFor (va size : UInt32) : Nat :=
  if size = 0 then 0
  else (va.toNat + size.toNat - 1) / 2 ^ 22 - va.toNat / 2 ^ 22 + 1

/-- The free list and the number of its pages. -/
structure PhysMem.FreePages (mem : PhysMem) (free : List Nat) : Prop where
  linked : Linked (fun page => (mem.pages page).ppLink) mem.pageFreeList free
  nodup : free.Nodup
  valid : ∀ page ∈ free, mem.Valid page
  addressable : mem.npages ≤ 2 ^ 20

namespace PhysMem

variable {start mem next : PhysMem} {free rest : List Nat} {table : Nat → Nat}
variable {d page : Nat} {va : UInt32} {covered : Nat → Prop}

/-! ## The free list -/

/-- Only the links of the free pages matter. -/
theorem FreePages.congr (supplied : mem.FreePages free)
    (pages : ∀ page, (next.pages page).ppLink = (mem.pages page).ppLink)
    (head : next.pageFreeList = mem.pageFreeList)
    (npages : next.npages = mem.npages) : next.FreePages free where
  linked := by
    rw [head]
    exact supplied.linked.congr fun page _ => pages page
  nodup := supplied.nodup
  valid page member := by
    have isValid := supplied.valid page member
    unfold Valid at isValid ⊢
    rwa [npages]
  addressable := npages ▸ supplied.addressable

theorem FreePages.store (supplied : mem.FreePages free) (ptr : EntryPtr)
    (entry : UInt32) : (mem.store ptr entry).FreePages free :=
  supplied.congr (fun _ => rfl) rfl rfl

theorem FreePages.pageIncref (supplied : mem.FreePages free) (page : Nat) :
    (mem.pageIncref page).FreePages free := by
  refine supplied.congr (fun other => ?_) rfl rfl
  unfold PhysMem.pageIncref setPage
  dsimp only
  by_cases isPage : other = page
  · subst isPage
    rw [Function.update_self]
  · rw [Function.update_of_ne isPage]

/-- `page_alloc` takes the first free page and clears it. -/
theorem FreePages.pageAlloc (supplied : mem.FreePages (page :: rest)) :
    ∃ next, mem.pageAlloc true = (next, some page) ∧ next.FreePages rest ∧
      next.ram = Function.update mem.ram page (fun _ => 0) ∧
      next.npages = mem.npages := by
  obtain ⟨isHead, linked⟩ := supplied.linked
  obtain ⟨notRest, nodup⟩ := List.nodup_cons.mp supplied.nodup
  unfold PhysMem.pageAlloc
  rw [isHead]
  refine ⟨_, rfl, ⟨?_, nodup, ?_, supplied.addressable⟩, rfl, rfl⟩
  · refine linked.congr fun visited member => ?_
    have different : visited ≠ page := by
      rintro rfl
      exact notRest member
    simp [setPage, zeroPage, different]
  · exact fun other member =>
      supplied.valid other (List.mem_cons_of_mem _ member)

/-! ## The tables of a region -/

/-- The tables that have been added since `start` for the entries `covered` of a
directory. -/
structure Tables (start mem : PhysMem) (free : List Nat) (table : Nat → Nat)
    (d : Nat) (covered : Nat → Prop) : Prop where
  supplied : mem.FreePages free
  dirBusy : d ∉ free
  others : ∀ i, ¬ covered i → mem.ram d i = start.ram d i
  entry : ∀ i, covered i →
    mem.ram d i = page2pa (table i) ||| (pteP ||| pteW ||| pteU)
  valid : ∀ i, covered i → mem.Valid (table i)
  notDir : ∀ i, covered i → table i ≠ d
  busy : ∀ i, covered i → table i ∉ free
  apart : ∀ i j, covered i → covered j → table i = table j → i = j

theorem tables_initial (supplied : start.FreePages free) (dirBusy : d ∉ free)
    (table : Nat → Nat) :
    Tables start start free table d fun _ => False :=
  ⟨supplied, dirBusy, fun _ _ => rfl, fun _ no => no.elim, fun _ no => no.elim,
    fun _ no => no.elim, fun _ no => no.elim, fun _ _ no => no.elim⟩

/-- The entry for a table leads to it. -/
theorem tableEntry_of_entry
    (entry : mem.ram d (pdx va) = page2pa page ||| (pteP ||| pteW ||| pteU))
    (valid : mem.Valid page) (addressable : mem.npages ≤ 2 ^ 20) :
    mem.tableEntry d va = some (mem, some ⟨page, ptx va⟩) := by
  have small : page < 2 ^ 20 := Nat.lt_of_lt_of_le valid addressable
  unfold tableEntry
  dsimp only
  rw [entry, if_neg (ne_zero_of_present (or_present pdeFlags.2 _)),
    pteFrame_or small pdeFlags.1, if_pos valid]

theorem Tables.tableEntry (tables : Tables start mem free table d covered)
    (isCovered : covered (pdx va)) :
    mem.tableEntry d va = some (mem, some ⟨table (pdx va), ptx va⟩) :=
  tableEntry_of_entry (tables.entry _ isCovered) (tables.valid _ isCovered)
    tables.supplied.addressable

/-- What a walk adds. -/
structure Walked (start mem next : PhysMem) (free' : List Nat)
    (table table' : Nat → Nat) (d : Nat) (covered : Nat → Prop) (i : Nat) :
    Prop where
  tables : Tables start next free' table' d fun j => covered j ∨ j = i
  same : ∀ j, covered j →
    table' j = table j ∧ next.ram (table j) = mem.ram (table j)
  cleared : ¬ covered i → next.ram (table' i) = fun _ => 0

/-- `pgdir_walk` for an entry that has no table yet. -/
theorem Tables.walkNew (tables : Tables start mem (page :: rest) table d covered)
    (notCovered : ¬ covered (pdx va)) (empty : start.ram d (pdx va) = 0) :
    ∃ next, mem.pgdirWalk d va true = some (next, some ⟨page, ptx va⟩) ∧
      Walked start mem next rest table (Function.update table (pdx va) page) d
        covered (pdx va) := by
  obtain ⟨allocated, isAllocated, supplied, ram, npages⟩ :=
    tables.supplied.pageAlloc
  have noTable : mem.ram d (pdx va) = 0 :=
    (tables.others _ notCovered).trans empty
  obtain ⟨notPage, dirBusy⟩ := not_or.mp (List.mem_cons.not.mp tables.dirBusy)
  have notNew : ∀ i, covered i → i ≠ pdx va := by
    rintro i isCovered rfl
    exact notCovered isCovered
  have busy : ∀ i, covered i → table i ≠ page ∧ table i ∉ rest :=
    fun i isCovered =>
      not_or.mp (List.mem_cons.not.mp (tables.busy i isCovered))
  have inDir : (allocated.pageIncref page).ram d = mem.ram d := by
    change allocated.ram d = _
    rw [ram, Function.update_of_ne notPage]
  let linked := (allocated.pageIncref page).store ⟨d, pdx va⟩
    (page2pa page ||| (pteP ||| pteW ||| pteU))
  have isEntry : linked.ram d (pdx va) =
      page2pa page ||| (pteP ||| pteW ||| pteU) := ram_store_self
  have isValid : linked.Valid page := by
    change page < allocated.npages
    rw [npages]
    exact tables.supplied.valid page List.mem_cons_self
  have isSupplied : linked.FreePages rest :=
    (supplied.pageIncref page).store _ _
  refine ⟨linked, ?_, ⟨isSupplied, dirBusy, ?_, ?_, ?_, ?_, ?_, ?_⟩, ?_, ?_⟩
  · unfold PhysMem.pgdirWalk
    rw [if_pos ⟨noTable, rfl⟩, isAllocated]
    dsimp only
    rw [pdeWord]
    exact tableEntry_of_entry isEntry isValid isSupplied.addressable
  · intro i outside
    obtain ⟨notOld, different⟩ := not_or.mp outside
    calc
      linked.ram d i = (allocated.pageIncref page).ram d i :=
        ram_store_index different d
      _ = start.ram d i := by rw [inDir, tables.others i notOld]
  · rintro i (isOld | rfl)
    · rw [Function.update_of_ne (notNew i isOld), ← tables.entry i isOld,
        ← inDir]
      exact ram_store_index (notNew i isOld) d
    · rw [Function.update_self]
      exact isEntry
  · rintro i (isOld | rfl)
    · rw [Function.update_of_ne (notNew i isOld)]
      change table i < allocated.npages
      rw [npages]
      exact tables.valid i isOld
    · rw [Function.update_self]
      exact isValid
  · rintro i (isOld | rfl)
    · rw [Function.update_of_ne (notNew i isOld)]
      exact tables.notDir i isOld
    · rw [Function.update_self]
      exact Ne.symm notPage
  · rintro i (isOld | rfl)
    · rw [Function.update_of_ne (notNew i isOld)]
      exact (busy i isOld).2
    · rw [Function.update_self]
      exact (List.nodup_cons.mp tables.supplied.nodup).1
  · rintro i j (isOld | rfl) (isOld' | rfl)
    · rw [Function.update_of_ne (notNew i isOld),
        Function.update_of_ne (notNew j isOld')]
      exact tables.apart i j isOld isOld'
    · rw [Function.update_of_ne (notNew i isOld), Function.update_self]
      exact fun same => absurd same (busy i isOld).1
    · rw [Function.update_of_ne (notNew j isOld'), Function.update_self]
      exact fun same => absurd same.symm (busy j isOld').1
    · exact fun _ => rfl
  · intro i isOld
    refine ⟨Function.update_of_ne (notNew i isOld) _ _, ?_⟩
    calc
      linked.ram (table i) = allocated.ram (table i) :=
        ram_store_other (tables.notDir i isOld)
      _ = mem.ram (table i) := by
        rw [ram, Function.update_of_ne (busy i isOld).1]
  · intro _
    calc
      linked.ram (Function.update table (pdx va) page (pdx va)) =
          linked.ram page := by rw [Function.update_self]
      _ = allocated.ram page := ram_store_other (Ne.symm notPage)
      _ = fun _ => 0 := by rw [ram, Function.update_self]

/-- `pgdir_walk` when it has a page for a new table. -/
theorem Tables.walk (tables : Tables start mem free table d covered)
    (ready : ¬ covered (pdx va) → start.ram d (pdx va) = 0 ∧ free ≠ []) :
    ∃ next free' table', mem.pgdirWalk d va true =
        some (next, some ⟨table' (pdx va), ptx va⟩) ∧
      Walked start mem next free' table table' d covered (pdx va) ∧
      free.length ≤ free'.length + 1 ∧
      (covered (pdx va) → free' = free) := by
  by_cases isCovered : covered (pdx va)
  · have present : mem.ram d (pdx va) ≠ 0 := by
      rw [tables.entry _ isCovered]
      exact ne_zero_of_present (or_present pdeFlags.2 _)
    have same : (fun i => covered i ∨ i = pdx va) = covered := by
      funext i
      refine propext (or_iff_left_of_imp ?_)
      rintro rfl
      exact isCovered
    refine ⟨mem, free, table, ?_, ⟨?_, fun _ _ => ⟨rfl, rfl⟩, ?_⟩, by omega,
      fun _ => rfl⟩
    · unfold PhysMem.pgdirWalk
      rw [if_neg fun creates => present creates.1]
      exact tables.tableEntry isCovered
    · rw [same]
      exact tables
    · exact fun notCovered => absurd isCovered notCovered
  · obtain ⟨empty, more⟩ := ready isCovered
    obtain ⟨page, rest, rfl⟩ := List.exists_cons_of_ne_nil more
    obtain ⟨next, walks, walked⟩ := tables.walkNew isCovered empty
    refine ⟨next, rest, _, ?_, walked, by simp, fun no => absurd no isCovered⟩
    rw [Function.update_self]
    exact walks

/-- A store into one of the tables. -/
theorem Tables.store (tables : Tables start mem free table d covered) {i : Nat}
    (isCovered : covered i) (j : Nat) (entry : UInt32) :
    Tables start (mem.store ⟨table i, j⟩ entry) free table d covered := by
  have inDir : (mem.store ⟨table i, j⟩ entry).ram d = mem.ram d :=
    ram_store_other (Ne.symm (tables.notDir i isCovered))
  refine ⟨tables.supplied.store _ _, tables.dirBusy, ?_, ?_, tables.valid,
    tables.notDir, tables.busy, tables.apart⟩
  · intro k outside
    rw [inDir]
    exact tables.others k outside
  · intro k inside
    rw [inDir]
    exact tables.entry k inside

/-- `page_remove` finds nothing where the entry is empty. -/
theorem Tables.pageRemove (tables : Tables start mem free table d covered)
    (isCovered : covered (pdx va)) (empty : mem.ram (table (pdx va)) (ptx va) = 0) :
    mem.pageRemove d va = some mem := by
  have lookup : mem.pageLookup d va = some none := by
    unfold PhysMem.pageLookup
    rw [pgdirWalk_keep, tables.tableEntry isCovered]
    dsimp only [Option.bind_eq_bind, Option.bind_some]
    exact if_pos empty
  unfold PhysMem.pageRemove
  rw [lookup]
  rfl

/-! ## The loop over the pages -/

/-- The entry `i` covers one of the `k` pages from `v` on. -/
def Under (v k i : Nat) : Prop := 0 < k ∧ i * 1024 < v + k ∧ v < (i + 1) * 1024

theorem under_succ (v k : Nat) :
    (fun i => Under v k i ∨ i = (v + k) / 1024) = Under v (k + 1) := by
  funext i
  refine propext ?_
  unfold Under
  omega

theorem pdx_page2pa (addressable : page < 2 ^ 20) :
    pdx (page2pa page) = page / 1024 := by
  unfold pdx
  rw [page2pa_toNat addressable]
  omega

theorem ptx_page2pa (addressable : page < 2 ^ 20) :
    ptx (page2pa page) = page % 1024 := by
  unfold ptx
  rw [page2pa_toNat addressable]
  omega

theorem page2pa_add (first second : Nat) :
    page2pa first + page2pa second = page2pa (first + second) := by
  unfold page2pa
  rw [← UInt32.ofNat_add, Nat.add_mul]

/-- The pages from `v` to `v + k` lead to those from `p` on. -/
structure Mapped (start mem : PhysMem) (free : List Nat) (table : Nat → Nat)
    (d v p : Nat) (perm : UInt32) (k : Nat) : Prop where
  tables : Tables start mem free table d (Under v k)
  words : ∀ i, Under v k i → ∀ j < 1024, mem.ram (table i) j =
    if v ≤ i * 1024 + j ∧ i * 1024 + j < v + k then
      page2pa (p + (i * 1024 + j - v)) ||| (perm ||| pteP)
    else 0

section Loop

variable {v p k : Nat} {perm : UInt32}

/-- A table that the walk adds is empty, and no page below it is mapped yet. -/
theorem Mapped.walk (mapped : Mapped start mem free table d v p perm k)
    (inside : v + k < 2 ^ 20)
    (ready : ¬ Under v k ((v + k) / 1024) →
      start.ram d ((v + k) / 1024) = 0 ∧ free ≠ []) :
    ∃ next free' table', mem.pgdirWalk d (page2pa (v + k)) true =
        some (next, some ⟨table' ((v + k) / 1024), (v + k) % 1024⟩) ∧
      Tables start next free' table' d (Under v (k + 1)) ∧
      (∀ i, Under v (k + 1) i → ∀ j < 1024, next.ram (table' i) j =
        if v ≤ i * 1024 + j ∧ i * 1024 + j < v + k then
          page2pa (p + (i * 1024 + j - v)) ||| (perm ||| pteP)
        else 0) ∧
      free.length ≤ free'.length + 1 ∧
      (Under v k ((v + k) / 1024) → free' = free) := by
  have isPdx := pdx_page2pa inside
  rw [← isPdx] at ready
  obtain ⟨next, free', table', walks, walked, length, same⟩ :=
    mapped.tables.walk ready
  rw [isPdx, ptx_page2pa inside] at walks
  rw [isPdx] at walked same
  have tables := walked.tables
  rw [under_succ] at tables
  refine ⟨next, free', table', walks, tables, ?_, length, same⟩
  intro i isUnder j below
  by_cases isOld : Under v k i
  · obtain ⟨sameTable, sameRam⟩ := walked.same i isOld
    rw [sameTable, sameRam]
    exact mapped.words i isOld j below
  · have isNew : i = (v + k) / 1024 := by
      unfold Under at isUnder isOld
      omega
    have notMapped : ¬ (v ≤ i * 1024 + j ∧ i * 1024 + j < v + k) := by
      unfold Under at isOld
      omega
    rw [if_neg notMapped, isNew, walked.cleared (isNew ▸ isOld)]

/-- A round of the loop maps the next page. -/
theorem Mapped.step (mapped : Mapped start mem free table d v p perm k)
    (inside : v + k < 2 ^ 20)
    (ready : ¬ Under v k ((v + k) / 1024) →
      start.ram d ((v + k) / 1024) = 0 ∧ free ≠ []) :
    ∃ next free' table', mem.mapPage d (page2pa (v + k))
        (page2pa (p + k) ||| (perm ||| pteP)) = some next ∧
      Mapped start next free' table' d v p perm (k + 1) ∧
      free.length ≤ free'.length + 1 ∧
      (Under v k ((v + k) / 1024) → free' = free) := by
  obtain ⟨walked, free', table', walks, tables, words, length, same⟩ :=
    mapped.walk inside ready
  have isUnder : Under v (k + 1) ((v + k) / 1024) := by
    unfold Under
    omega
  have position : (v + k) / 1024 * 1024 + (v + k) % 1024 = v + k := by omega
  have empty : walked.ram (table' ((v + k) / 1024)) ((v + k) % 1024) = 0 := by
    rw [words _ isUnder _ (by omega), position, if_neg (by omega)]
  have removed : walked.pageRemove d (page2pa (v + k)) = some walked := by
    refine tables.pageRemove ?_ ?_
    · rwa [pdx_page2pa inside]
    · rwa [pdx_page2pa inside, ptx_page2pa inside]
  refine ⟨_, free', table', ?_, ⟨tables.store isUnder ((v + k) % 1024)
    (page2pa (p + k) ||| (perm ||| pteP)), ?_⟩, length, same⟩
  · unfold PhysMem.mapPage
    rw [walks]
    dsimp only [Option.bind_eq_bind, Option.bind_some]
    rw [removed]
    rfl
  · intro i inside' j below
    by_cases isHere : i * 1024 + j = v + k
    · have isTable : i = (v + k) / 1024 := by omega
      have isIndex : j = (v + k) % 1024 := by omega
      subst isTable isIndex
      rw [ram_store_self, if_pos (by omega), position, Nat.add_sub_cancel_left]
    · have sameRange : (v ≤ i * 1024 + j ∧ i * 1024 + j < v + (k + 1)) ↔
          (v ≤ i * 1024 + j ∧ i * 1024 + j < v + k) := by omega
      rw [if_congr sameRange rfl rfl, ← words i inside' j below]
      by_cases isTable : i = (v + k) / 1024
      · exact ram_store_index (show j ≠ (v + k) % 1024 by omega) _
      · have otherTable : table' i ≠ table' ((v + k) / 1024) :=
          fun sameTable => isTable (tables.apart _ _ inside' isUnder sameTable)
        rw [ram_store_other otherTable]

/-- The number of tables for `n` pages from `v` on. -/
def tableCount (v n : Nat) : Nat :=
  if n = 0 then 0 else (v + n - 1) / 1024 - v / 1024 + 1

theorem tableCount_mono {first second : Nat} (below : first ≤ second) :
    tableCount v first ≤ tableCount v second := by
  unfold tableCount
  split
  · exact Nat.zero_le _
  · rw [if_neg (by omega)]
    omega

theorem tableCount_succ (notUnder : ¬ Under v k ((v + k) / 1024)) :
    tableCount v (k + 1) = tableCount v k + 1 := by
  unfold Under at notUnder
  unfold tableCount
  rw [if_neg (Nat.succ_ne_zero k)]
  split
  · omega
  · omega

/-- The rounds of the loop over the pages.  The induction is on the pages that are
left, and for every table that they need a page is free. -/
theorem Mapped.run {n left rounds : Nat}
    (mapped : Mapped start mem free table d v p perm k) (isLeft : k + left = n)
    (enoughRounds : left < rounds) (inside : v + n ≤ 2 ^ 20) (small : n < 2 ^ 20)
    (empty : ∀ i, Under v n i → start.ram d i = 0)
    (enough : tableCount v n ≤ free.length + tableCount v k) :
    ∃ next free' table', mapPages d (page2pa v) (page2pa n) (page2pa p) perm
        rounds mem (page2pa k) = some next ∧
      Mapped start next free' table' d v p perm n := by
  induction left generalizing k mem free table rounds with
  | zero =>
      obtain ⟨rounds, rfl⟩ := Nat.exists_eq_add_of_lt enoughRounds
      have isAll : k = n := isLeft
      subst isAll
      refine ⟨mem, free, table, ?_, mapped⟩
      rw [Nat.zero_add, mapPages]
      exact if_neg (Nat.lt_irrefl _)
  | succ left induction =>
      obtain ⟨rounds, rfl⟩ := Nat.exists_eq_succ_of_ne_zero
        (Nat.ne_of_gt (Nat.lt_of_le_of_lt (Nat.zero_le _) enoughRounds))
      have more : page2pa k < page2pa n := by
        rw [UInt32.lt_iff_toNat_lt, page2pa_toNat (by omega),
          page2pa_toNat small]
        omega
      have ready : ¬ Under v k ((v + k) / 1024) →
          start.ram d ((v + k) / 1024) = 0 ∧ free ≠ [] := by
        intro notUnder
        refine ⟨empty _ ?_, ?_⟩
        · unfold Under
          omega
        · rintro rfl
          have grows : tableCount v (k + 1) ≤ tableCount v n :=
            tableCount_mono (by omega)
          rw [tableCount_succ notUnder] at grows
          rw [List.length_nil] at enough
          omega
      obtain ⟨next, free', table', maps, mapped', length, same⟩ :=
        mapped.step (by omega) ready
      have enough' : tableCount v n ≤ free'.length + tableCount v (k + 1) := by
        by_cases isUnder : Under v k ((v + k) / 1024)
        · have grows : tableCount v k ≤ tableCount v (k + 1) :=
            tableCount_mono (Nat.le_succ k)
          rw [same isUnder]
          omega
        · rw [tableCount_succ isUnder]
          omega
      obtain ⟨last, rest⟩ := induction mapped' (by omega)
        (Nat.lt_of_succ_lt_succ enoughRounds) enough'
      have advances : page2pa k + 4096 = page2pa (k + 1) := page2pa_add k 1
      refine ⟨last, ?_⟩
      rw [mapPages, if_pos more, page2pa_add, page2pa_add, UInt32.or_assoc, maps,
        Option.bind_eq_bind, Option.bind_some, advances]
      exact rest

/-! ## Reading the mapping -/

section Entries

variable {t q : Nat} (isPde : mem.ram d (pdx va) =
  page2pa t ||| (pteP ||| pteW ||| pteU)) (addressable : t < 2 ^ 20)
  (isPte : mem.ram t (ptx va) = page2pa q ||| (perm ||| pteP))
  (target : q < 2 ^ 20) (low : perm.toNat < 4096)

include isPde addressable isPte target low

/-- `check_va2pa` through a table. -/
theorem checkVa2pa_of_table (valid : mem.Valid t) :
    mem.checkVa2pa d va = some (page2pa q) := by
  have noLarge : (pteP ||| pteW ||| pteU) &&& ptePs = 0 := by decide
  unfold checkVa2pa
  dsimp only
  rw [isPde, if_neg (or_present pdeFlags.2 _),
    page2pa_or_and (by decide), if_neg (not_not.mpr noLarge),
    pteFrame_or addressable pdeFlags.1, if_pos valid, isPte,
    if_neg (or_present (or_pteP_present perm) _),
    pteFrame_or target (or_pteP_lt low)]

/-- The flags of the table do not restrict those of the page. -/
theorem access_of_table (aligned : va.toNat % 2 ^ 12 = 0) :
    mem.access d va = some
      { pa := page2pa q
        user := perm &&& pteU ≠ 0
        write := perm &&& pteW ≠ 0 } := by
  have noLarge : (pteP ||| pteW ||| pteU) &&& ptePs = 0 := by decide
  have flag : ∀ mask : UInt32, mask.toNat < 4096 → pteP &&& mask = 0 →
      (pteP ||| pteW ||| pteU) &&& mask = mask →
      (page2pa t ||| (pteP ||| pteW ||| pteU)) &&&
        (page2pa q ||| (perm ||| pteP)) &&& mask = perm &&& mask := by
    intro mask isLow notPresent isSet
    rw [UInt32.and_assoc, page2pa_or_and isLow, or_and perm, notPresent,
      UInt32.or_zero, UInt32.and_comm perm mask, ← UInt32.and_assoc,
      page2pa_or_and isLow, isSet]
  unfold access
  dsimp only
  rw [isPde, if_neg (or_present pdeFlags.2 _),
    page2pa_or_and (by decide), if_neg (not_not.mpr noLarge),
    pteFrame_or addressable pdeFlags.1, isPte,
    if_neg (or_present (or_pteP_present perm) _),
    pteFrame_or target (or_pteP_lt low), flag pteU (by decide) rfl rfl,
    flag pteW (by decide) rfl rfl, aligned, Nat.add_zero]
  rfl

end Entries

/-- Every page that is mapped leads where it should. -/
theorem Mapped.read {n : Nat} (mapped : Mapped start mem free table d v p perm n)
    (below : k < n) (inside : v + n ≤ 2 ^ 20) (target : p + n ≤ 2 ^ 20)
    (low : perm.toNat < 4096) :
    mem.checkVa2pa d (page2pa (v + k)) = some (page2pa (p + k)) ∧
      mem.access d (page2pa (v + k)) = some
        { pa := page2pa (p + k)
          user := perm &&& pteU ≠ 0
          write := perm &&& pteW ≠ 0 } := by
  have isUnder : Under v n ((v + k) / 1024) := by
    unfold Under
    omega
  have isPdx : pdx (page2pa (v + k)) = (v + k) / 1024 := pdx_page2pa (by omega)
  have isPtx : ptx (page2pa (v + k)) = (v + k) % 1024 := ptx_page2pa (by omega)
  have position : (v + k) / 1024 * 1024 + (v + k) % 1024 = v + k := by omega
  have valid := mapped.tables.valid _ isUnder
  have addressable : table ((v + k) / 1024) < 2 ^ 20 :=
    Nat.lt_of_lt_of_le valid mapped.tables.supplied.addressable
  have isPde : mem.ram d (pdx (page2pa (v + k))) =
      page2pa (table ((v + k) / 1024)) ||| (pteP ||| pteW ||| pteU) := by
    rw [isPdx]
    exact mapped.tables.entry _ isUnder
  have isPte := mapped.words _ isUnder ((v + k) % 1024) (by omega)
  rw [position, if_pos (by omega), Nat.add_sub_cancel_left] at isPte
  rw [← isPtx] at isPte
  have aligned : (page2pa (v + k)).toNat % 2 ^ 12 = 0 := by
    rw [page2pa_toNat (by omega)]
    omega
  constructor
  · exact checkVa2pa_of_table isPde addressable isPte (by omega) low valid
  · exact access_of_table isPde addressable isPte (by omega) low aligned

end Loop

end PhysMem

end FeaturesOS.Scheduler

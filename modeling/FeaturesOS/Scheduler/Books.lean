import FeaturesOS.References
import FeaturesOS.Scheduler.Boot

/-!
# The books of the physical pages

The pages that `page_alloc` manages, those of them that are free, and how often
each of them is counted.  The functions on page descriptors keep the books.
-/

namespace FeaturesOS.Scheduler

namespace PhysMem

def OnFreeList (mem : PhysMem) (page : Nat) : Prop :=
  Visited (fun page => (mem.pages page).ppLink) mem.pageFreeList page

/-- `pp_ref` is `count` in 16 bits, and the free pages are counted zero times. -/
structure Books (mem : PhysMem) (pool free : List Nat) (count : Nat → Nat) :
    Prop where
  linked : Linked (fun page => (mem.pages page).ppLink) mem.pageFreeList free
  nodup : free.Nodup
  pooled : ∀ page ∈ free, page ∈ pool
  uncounted : ∀ page ∈ free, count page = 0
  unlinked : ∀ page ∈ pool, page ∉ free → (mem.pages page).ppLink = none
  ref : ∀ page ∈ pool, (mem.pages page).ppRef = UInt16.ofNat (count page)
  valid : ∀ page ∈ pool, mem.Valid page
  addressable : mem.npages ≤ 2 ^ 20

/-- Only one page descriptor has changed. -/
structure Elsewhere (mem next : PhysMem) (page : Nat) : Prop where
  pages : ∀ other, other ≠ page → next.pages other = mem.pages other
  npages : next.npages = mem.npages

variable {mem next : PhysMem} {pool free : List Nat} {count : Nat → Nat}
variable {page : Nat}

theorem elsewhere_of_update {info : PageInfo}
    (pages : next.pages = Function.update mem.pages page info)
    (npages : next.npages = mem.npages) : Elsewhere mem next page := by
  refine ⟨?_, npages⟩
  intro other different
  rw [pages, Function.update_of_ne different]

theorem Elsewhere.trans {last : PhysMem} (first : Elsewhere mem next page)
    (second : Elsewhere next last page) : Elsewhere mem last page :=
  ⟨fun other different =>
    (second.pages other different).trans (first.pages other different),
    second.npages.trans first.npages⟩

theorem Books.onFreeList_iff (books : mem.Books pool free count) :
    mem.OnFreeList page ↔ page ∈ free :=
  books.linked.visited_iff

theorem Books.notFree (books : mem.Books pool free count)
    (counted : count page ≠ 0) : page ∉ free :=
  fun member => counted (books.uncounted page member)

/-- The books say nothing about the contents of the pages. -/
theorem Books.withRam (books : mem.Books pool free count)
    (ram : Nat → Nat → UInt32) : { mem with ram := ram }.Books pool free count :=
  ⟨books.linked, books.nodup, books.pooled, books.uncounted, books.unlinked,
    books.ref, books.valid, books.addressable⟩

theorem Books.withRef (books : mem.Books pool free count) (isPooled : page ∈ pool)
    {ref : UInt16} {counted : Nat} (same : ref = UInt16.ofNat counted)
    (busy : page ∈ free → counted = 0) :
    (mem.setPage page { mem.pages page with ppRef := ref }).Books pool free
      (Function.update count page counted) where
  linked := by
    refine books.linked.congr fun visited _ => ?_
    unfold setPage
    by_cases isPage : visited = page
    · subst isPage
      simp
    · simp [isPage]
  nodup := books.nodup
  pooled := books.pooled
  uncounted other member := by
    by_cases isPage : other = page
    · subst isPage
      rw [Function.update_self]
      exact busy member
    · rw [Function.update_of_ne isPage]
      exact books.uncounted other member
  unlinked other member busy := by
    have none := books.unlinked other member busy
    unfold setPage
    by_cases isPage : other = page
    · subst isPage
      simpa using none
    · simpa [isPage] using none
  ref other member := by
    unfold setPage
    by_cases isPage : other = page
    · subst isPage
      simp [same]
    · simp [isPage, books.ref other member]
  valid := books.valid
  addressable := books.addressable

/-- `pp->pp_ref++` of a page that is not free. -/
theorem Books.pageIncref (books : mem.Books pool free count)
    (isPooled : page ∈ pool) (busy : page ∉ free) :
    (mem.pageIncref page).Books pool free
      (Function.update count page (count page + 1)) := by
  have same : (mem.pages page).ppRef + 1 = UInt16.ofNat (count page + 1) := by
    rw [books.ref page isPooled, UInt16.ofNat_add]
    rfl
  exact books.withRef isPooled same fun member => absurd member busy

/-- `page_free`. -/
theorem Books.pageFree (books : mem.Books pool free count)
    (isPooled : page ∈ pool) (busy : page ∉ free)
    (uncounted : count page = 0) :
    ∃ next, mem.pageFree page = some next ∧
      next.Books pool (page :: free) count ∧ next.ram = mem.ram ∧
      Elsewhere mem next page := by
  have ref : (mem.pages page).ppRef = 0 := by
    rw [books.ref page isPooled, uncounted]
    rfl
  have link := books.unlinked page isPooled busy
  unfold PhysMem.pageFree
  rw [if_neg (not_not.mpr ref), if_neg (not_not.mpr link)]
  refine ⟨_, rfl, ⟨?_, List.nodup_cons.mpr ⟨busy, books.nodup⟩, ?_, ?_, ?_, ?_,
    books.valid, books.addressable⟩, rfl, elsewhere_of_update rfl rfl⟩
  · have pushed := books.linked.push busy
    refine pushed.congr fun visited _ => ?_
    unfold setPage
    by_cases isPage : visited = page
    · subst isPage
      simp
    · simp [isPage]
  · intro other member
    rcases List.mem_cons.mp member with rfl | member
    · exact isPooled
    · exact books.pooled other member
  · intro other member
    rcases List.mem_cons.mp member with rfl | member
    · exact uncounted
    · exact books.uncounted other member
  · intro other member stillBusy
    have different : other ≠ page := by
      rintro rfl
      exact stillBusy List.mem_cons_self
    have none := books.unlinked other member fun isFree =>
      stillBusy (List.mem_cons_of_mem _ isFree)
    simpa [setPage, different] using none
  · intro other member
    unfold setPage
    by_cases isPage : other = page
    · subst isPage
      simp [books.ref other member]
    · simp [isPage, books.ref other member]

/-- `page_decref` of a page that is counted at least once; it frees the page
exactly when it was counted once. -/
theorem Books.pageDecref (books : mem.Books pool free count)
    (isPooled : page ∈ pool) (counted : 0 < count page)
    (bounded : count page ≤ 2 ^ 16) :
    ∃ next, mem.pageDecref page = some next ∧
      next.Books pool (if count page = 1 then page :: free else free)
        (Function.update count page (count page - 1)) ∧
      next.ram = mem.ram ∧ Elsewhere mem next page := by
  have busy : page ∉ free := books.notFree (Nat.pos_iff_ne_zero.mp counted)
  have same : (mem.pages page).ppRef - 1 = UInt16.ofNat (count page - 1) := by
    rw [books.ref page isPooled, UInt16.ofNat_sub counted]
    rfl
  have booked := books.withRef isPooled same fun member => absurd member busy
  unfold PhysMem.pageDecref
  dsimp only
  by_cases one : count page = 1
  · have zero : (mem.pages page).ppRef - 1 = 0 := by
      rw [same, one]
      rfl
    rw [if_pos (by simpa [setPage] using zero), if_pos one]
    have uncounted : Function.update count page (count page - 1) page = 0 := by
      rw [Function.update_self, one]
    obtain ⟨next, freed, books, ram, elsewhere⟩ :=
      booked.pageFree isPooled busy uncounted
    have lowered : Elsewhere mem (mem.setPage page
        { mem.pages page with ppRef := (mem.pages page).ppRef - 1 }) page :=
      elsewhere_of_update rfl rfl
    exact ⟨next, freed, books, ram, lowered.trans elsewhere⟩
  · have small : count page - 1 < 2 ^ 16 := by omega
    have notZero : (mem.pages page).ppRef - 1 ≠ 0 := by
      rw [same]
      intro isZero
      have toNat := congrArg UInt16.toNat isZero
      rw [UInt16.toNat_ofNat_of_lt' small] at toNat
      change count page - 1 = 0 at toNat
      omega
    rw [if_neg (by simpa [setPage] using notZero), if_neg one]
    exact ⟨_, rfl, booked, rfl, elsewhere_of_update rfl rfl⟩

/-- `page_alloc`. -/
theorem Books.pageAlloc (books : mem.Books pool free count) (zero : Bool) :
    match mem.pageAlloc zero with
    | (next, none) => next = mem ∧ free = []
    | (next, some page) => ∃ rest, free = page :: rest ∧
        next.Books pool rest count ∧
        (next.ram = if zero then Function.update mem.ram page fun _ => 0
          else mem.ram) ∧ Elsewhere mem next page := by
  unfold PhysMem.pageAlloc
  have linked := books.linked
  cases head : mem.pageFreeList with
  | none =>
      rw [head] at linked
      exact ⟨rfl, linked.of_none⟩
  | some page =>
      rw [head] at linked
      obtain ⟨rest, isFree, linked⟩ := linked.of_some
      have nodup := books.nodup
      rw [isFree, List.nodup_cons] at nodup
      have taken : ({ mem with pageFreeList := (mem.pages page).ppLink }.setPage
          page { mem.pages page with ppLink := none }).Books pool rest count := by
        refine ⟨?_, nodup.2, ?_, ?_, ?_, ?_, books.valid, books.addressable⟩
        · refine linked.congr fun visited member => ?_
          have different : visited ≠ page := by
            rintro rfl
            exact nodup.1 member
          simp [setPage, different]
        · intro other member
          exact books.pooled other (isFree ▸ List.mem_cons_of_mem _ member)
        · intro other member
          exact books.uncounted other (isFree ▸ List.mem_cons_of_mem _ member)
        · intro other member busy
          by_cases isPage : other = page
          · subst isPage
            simp [setPage]
          · have none := books.unlinked other member fun stillFree => by
              rw [isFree] at stillFree
              rcases List.mem_cons.mp stillFree with same | member
              · exact isPage same
              · exact busy member
            simpa [setPage, isPage] using none
        · intro other member
          by_cases isPage : other = page
          · subst isPage
            simp [setPage, books.ref other member]
          · simp [setPage, isPage, books.ref other member]
      cases zero with
      | false =>
          exact ⟨rest, isFree, taken, rfl, elsewhere_of_update rfl rfl⟩
      | true =>
          exact ⟨rest, isFree, taken.withRam _, rfl, elsewhere_of_update rfl rfl⟩

end PhysMem

end FeaturesOS.Scheduler

import FeaturesOS.Scheduler.Spaces
import FeaturesOS.Scheduler.PageCalls
import FeaturesOS.Scheduler.UserMemory

/-!
# What a change of the page tables leaves alone

`page_insert` and `page_remove` store into one directory and one table, and only
a page that was free is cleared.  The contents of the pages of the user stay, and
a directory entry below `UTOP` only ever becomes the one of a new table.
-/

namespace FeaturesOS.Scheduler

namespace PhysMem

variable {mem next walked : PhysMem} {dirs : Nat → Option Nat}
variable {pool free free' : List Nat} {e : Fin nenv}
variable {d page : Nat} {va perm : UInt32} {r : Int} {ptr : EntryPtr}
variable {zero : Bool} {found : Option Nat}

theorem pageDecref_ram (lowers : mem.pageDecref page = some next) :
    next.ram = mem.ram := by
  unfold pageDecref at lowers
  dsimp only at lowers
  split at lowers
  · unfold pageFree at lowers
    split at lowers
    · cases lowers
    · split at lowers
      · cases lowers
      · cases lowers
        rfl
  · cases lowers
    rfl

theorem tableEntry_some (walks : mem.tableEntry d va = some (next, some ptr)) :
    next = mem ∧ ptr.page = pteFrame (mem.ram d (pdx va)) ∧
      mem.ram d (pdx va) ≠ 0 := by
  unfold tableEntry at walks
  dsimp only at walks
  split at walks
  · cases walks
  · rename_i used
    split at walks
    · cases walks
      exact ⟨rfl, rfl, used⟩
    · cases walks

/-- `page_remove` clears a word of the table. -/
theorem pageRemove_ram (removes : mem.pageRemove d va = some next)
    (other : mem.ram d (pdx va) ≠ 0 → page ≠ pteFrame (mem.ram d (pdx va))) :
    next.ram page = mem.ram page := by
  unfold pageRemove at removes
  obtain ⟨found, looks, rest⟩ := Option.bind_eq_some_iff.mp removes
  cases found with
  | none =>
      cases rest
      rfl
  | some found =>
      obtain ⟨old, ptr⟩ := found
      obtain ⟨lowered, lowers, same⟩ := Option.bind_eq_some_iff.mp rest
      cases same
      unfold pageLookup at looks
      rw [pgdirWalk_keep] at looks
      obtain ⟨⟨kept, entry⟩, walks, reads⟩ := Option.bind_eq_some_iff.mp looks
      cases entry with
      | none => cases reads
      | some ptr' =>
          have isPtr : ptr' = ptr := by
            dsimp only at reads
            split at reads
            · cases reads
            · split at reads
              · cases reads
                rfl
              · cases reads
          subst isPtr
          obtain ⟨_, isPage, used⟩ := tableEntry_some walks
          rw [ram_store_other (isPage ▸ other used), pageDecref_ram lowers]

/-- A walk leaves the memory alone or hangs a cleared page into the directory. -/
theorem pgdirWalk_ram {create : Bool} {entry : Option EntryPtr}
    (walks : mem.pgdirWalk d va create = some (walked, entry)) :
    walked = mem ∨ ∃ t, mem.pageFreeList = some t ∧ mem.ram d (pdx va) = 0 ∧
      walked.ram = Function.update (Function.update mem.ram t fun _ => 0) d
        (Function.update (Function.update mem.ram t (fun _ => 0) d) (pdx va)
          (page2pa t ||| pteP ||| pteW ||| pteU)) := by
  have stays : ∀ {start : PhysMem},
      start.tableEntry d va = some (walked, entry) → walked = start := by
    intro start found
    cases entry with
    | none => exact (tableEntry_none found).1
    | some ptr => exact (tableEntry_some found).1
  unfold pgdirWalk at walks
  split at walks
  · rename_i creates
    cases head : mem.pageFreeList with
    | none =>
        unfold pageAlloc at walks
        rw [head] at walks
        cases walks
        exact .inl rfl
    | some t =>
        unfold pageAlloc at walks
        rw [head] at walks
        rw [stays walks]
        exact .inr ⟨t, rfl, creates.1, rfl⟩
  · exact .inl (stays walks)

/-- `page_insert` stores into the table behind the walk. -/
theorem pageInsert_ram (inserts : mem.pageInsert d page va perm = some (next, r)) :
    ∃ walked entry, mem.pgdirWalk d va true = some (walked, entry) ∧
      ∀ other, (walked.ram d (pdx va) ≠ 0 →
          other ≠ pteFrame (walked.ram d (pdx va))) →
        next.ram other = walked.ram other := by
  unfold pageInsert at inserts
  obtain ⟨⟨walked, entry⟩, walks, rest⟩ := Option.bind_eq_some_iff.mp inserts
  refine ⟨walked, entry, walks, ?_⟩
  intro other isOther
  cases entry with
  | none =>
      cases rest
      rfl
  | some ptr =>
      obtain ⟨removed, removes, same⟩ := Option.bind_eq_some_iff.mp rest
      cases same
      have isPtr : ptr.page = pteFrame (walked.ram d (pdx va)) ∧
          walked.ram d (pdx va) ≠ 0 := by
        unfold pgdirWalk at walks
        split at walks
        · cases head : mem.pageFreeList with
          | none =>
              unfold pageAlloc at walks
              rw [head] at walks
              cases walks
          | some t =>
              unfold pageAlloc at walks
              rw [head] at walks
              obtain ⟨same, isPage, used⟩ := tableEntry_some walks
              subst same
              exact ⟨isPage, used⟩
        · obtain ⟨same, isPage, used⟩ := tableEntry_some walks
          subst same
          exact ⟨isPage, used⟩
      rw [ram_store_other (isPtr.1 ▸ isOther isPtr.2)]
      exact @pageRemove_ram (walked.pageIncref page) _ _ _ _ removes isOther

/-! ## Contents and directories -/

/-- The rights that `pgdir_walk` gives to a table. -/
def TableRights (pde : UInt32) : Prop := pde &&& userRights true = userRights true

instance (pde : UInt32) : Decidable (TableRights pde) :=
  inferInstanceAs (Decidable (_ = _))

/-- The pages that are in use and hold no entries keep their contents, and the
directories only get new tables. -/
structure Kept (mem next : PhysMem) (free : List Nat) (dirs : Nat → Option Nat) :
    Prop where
  contents : ∀ page, page ∉ free →
    (∀ holder, holder.IsContainer → mem.holds dirs holder ≠ some page) →
    next.ram page = mem.ram page
  tables : ∀ (f : Fin nenv) d (i : Fin userTables), dirs f = some d →
    next.ram d i = mem.ram d i ∨ TableRights (next.ram d i)

theorem Kept.refl (mem : PhysMem) (free : List Nat) (dirs : Nat → Option Nat) :
    Kept mem mem free dirs :=
  ⟨fun _ _ _ => rfl, fun _ _ _ _ => .inl rfl⟩

/-- Flags stay where bits are added. -/
theorem granted_or {flags rights : UInt32} (granted : flags &&& rights = rights)
    (first last : UInt32) : (first ||| flags ||| last) &&& rights = rights := by
  rw [or_and, or_and, granted]
  apply UInt32.toBitVec_inj.mp
  ext bit
  simp only [UInt32.toBitVec_or, UInt32.toBitVec_and, BitVec.getElem_or,
    BitVec.getElem_and]
  cases rights.toBitVec[bit] <;> simp

theorem tableRights_new (t : Nat) :
    TableRights (page2pa t ||| pteP ||| pteW ||| pteU) := by
  have all : (pteP ||| pteW ||| pteU) &&& userRights true = userRights true := by
    decide
  have granted := granted_or all (page2pa t) 0
  rwa [UInt32.or_zero, ← pdeWord] at granted

section Kept

variable (accounted : mem.Accounted pool free dirs)

include accounted

theorem Accounted.pageAlloc_kept
    (taken : mem.pageAlloc zero = (next, found)) : Kept mem next free dirs := by
  cases head : mem.pageFreeList with
  | none =>
      unfold PhysMem.pageAlloc at taken
      rw [head] at taken
      cases taken
      exact .refl _ _ _
  | some t =>
      have member : t ∈ free := accounted.books.onFreeList_iff.mp (.head head)
      have other : ∀ page, page ≠ t → next.ram page = mem.ram page := by
        intro page different
        unfold PhysMem.pageAlloc at taken
        rw [head] at taken
        cases taken
        cases zero with
        | false => rfl
        | true => exact Function.update_of_ne different _ _
      refine ⟨?_, ?_⟩
      · rintro page busy _
        apply other
        rintro rfl
        exact busy member
      · intro f d i isDir
        left
        rw [other]
        rintro rfl
        exact accounted.unreferenced member (.pgdir f) isDir

/-- The page of a table is no directory. -/
theorem Accounted.table_ne (isDir : dirs e = some d) (user : va < utop)
    (used : mem.ram d (pdx va) ≠ 0) :
    mem.holds dirs (.pdeAt e user) = some (pteFrame (mem.ram d (pdx va))) ∧
      ∀ f d', dirs (f : Fin nenv) = some d' →
        d' ≠ pteFrame (mem.ram d (pdx va)) := by
  have isTable : mem.holds dirs (.pdeAt e user) =
      some (pteFrame (mem.ram d (pdx va))) := by
    rw [mem.holds_pdeAt isDir user]
    exact if_neg used
  refine ⟨isTable, ?_⟩
  rintro f _ isOther rfl
  cases accounted.tree.apart (.pdeAt e user) (.pgdir f) _ trivial trivial isTable
    isOther

theorem Accounted.pageRemove_kept (isDir : dirs e = some d) (user : va < utop)
    (removes : mem.pageRemove d va = some next) : Kept mem next free dirs := by
  refine ⟨?_, ?_⟩
  · intro page _ plain
    apply pageRemove_ram removes
    rintro used rfl
    exact plain (.pdeAt e user) trivial (accounted.table_ne isDir user used).1
  · intro f d' i isOther
    left
    rw [pageRemove_ram removes]
    exact fun used => (accounted.table_ne isDir user used).2 f d' isOther

theorem Accounted.pageInsert_kept (isDir : dirs e = some d) (user : va < utop)
    (inserts : mem.pageInsert d page va perm = some (next, r)) :
    Kept mem next free dirs := by
  obtain ⟨walked, entry, walks, behind⟩ := pageInsert_ram inserts
  rcases pgdirWalk_ram walks with same | ⟨t, head, unused, ram⟩
  · subst same
    refine ⟨?_, ?_⟩
    · intro other _ plain
      apply behind
      rintro used rfl
      exact plain (.pdeAt e user) trivial (accounted.table_ne isDir user used).1
    · intro f d' i isOther
      left
      rw [behind]
      exact fun used => (accounted.table_ne isDir user used).2 f d' isOther
  · have member : t ∈ free := accounted.books.onFreeList_iff.mp (.head head)
    have dirOther : ∀ (f : Fin nenv) d', dirs f = some d' → d' ≠ t := by
      rintro f _ isOther rfl
      exact accounted.unreferenced member (.pgdir f) isOther
    have isEntry : walked.ram d (pdx va) =
        page2pa t ||| pteP ||| pteW ||| pteU := by
      rw [ram, Function.update_self, Function.update_self]
    have isTable : pteFrame (walked.ram d (pdx va)) = t := by
      have addressable := accounted.lt (accounted.books.pooled t member)
      rw [isEntry, pdeWord]
      exact pteFrame_or addressable pdeFlags.1
    rw [isTable] at behind
    refine ⟨?_, ?_⟩
    · intro other busy plain
      have notTable : other ≠ t := by
        rintro rfl
        exact busy member
      have notDir : other ≠ d := by
        rintro rfl
        exact plain (.pgdir e) trivial isDir
      rw [behind other fun _ => notTable, ram, Function.update_of_ne notDir,
        Function.update_of_ne notTable]
    · intro f d' i isOther
      rw [behind d' fun _ => dirOther f d' isOther, ram]
      by_cases isD : d' = d
      · subst isD
        rw [Function.update_self]
        by_cases isIndex : (i : Nat) = pdx va
        · right
          rw [isIndex, Function.update_self]
          exact tableRights_new t
        · left
          rw [Function.update_of_ne isIndex,
            Function.update_of_ne (dirOther f d' isOther)]
      · left
        rw [Function.update_of_ne isD,
          Function.update_of_ne (dirOther f d' isOther)]

end Kept

end PhysMem

end FeaturesOS.Scheduler

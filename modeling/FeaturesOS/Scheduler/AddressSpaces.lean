import FeaturesOS.Scheduler.PageMaps

/-!
# Making and freeing address spaces

`env_setup_vm` adds an empty directory to the tree, and `env_free` unmaps every
page of one, then every table, then the directory.
-/

namespace FeaturesOS.Scheduler

namespace PhysMem

variable {mem next allocated : PhysMem} {dirs : Nat → Option Nat}
variable {pool free free' : List Nat} {count : Nat → Nat} {e : Fin nenv}
variable {i : Fin userTables} {d t page : Nat} {va : UInt32}

/-! ## Booting -/

theorem Booted.books {kernPgdir : Nat} (booted : mem.Booted kernPgdir pool) :
    mem.Books pool pool fun _ => 0 where
  linked := booted.freePages
  nodup := booted.nodup
  pooled _ member := member
  uncounted _ _ := rfl
  unlinked _ member busy := absurd member busy
  ref page member := booted.unreferenced page member
  valid := booted.valid
  addressable := booted.addressable

theorem word_noDirs (mem : PhysMem) (holder : Holder) :
    mem.word (fun _ => none) holder = 0 := by
  cases holder with
  | pgdir e => rfl
  | pde e i => exact word_pde_noDir rfl
  | pte e i j => exact word_pte_noDir rfl

theorem holds_noDirs (mem : PhysMem) (holder : Holder) :
    mem.holds (fun _ => none) holder = none := by
  cases holder with
  | pgdir e => rfl
  | pde e i => exact congrArg frameOf (word_noDirs mem _)
  | pte e i j => exact congrArg frameOf (word_noDirs mem _)

/-- Without environments nothing is referred to. -/
theorem Booted.accounted {kernPgdir : Nat} (booted : mem.Booted kernPgdir pool) :
    mem.Accounted pool pool fun _ => none := by
  have none : references (mem.holds fun _ => none) = fun _ => 0 := by
    funext page
    rw [references_eq_zero]
    intro holder
    rw [holds_noDirs]
    simp
  refine ⟨⟨?_, ?_, ?_⟩, ?_, ?_⟩
  · intro holder page refers
    rw [holds_noDirs] at refers
    cases refers
  · intro first second page _ _ refers
    rw [holds_noDirs] at refers
    cases refers
  · intro holder nonzero
    exact absurd (word_noDirs mem holder) nonzero
  · rw [none]
    exact booted.books
  · intro page
    rw [none]
    exact Nat.two_pow_pos 16

/-! ## `env_setup_vm` -/

/-- The directory that `env_setup_vm` makes in the page `d`. -/
def withDirectory (mem : PhysMem) (kernPgdir d : Nat) : PhysMem :=
  ({ mem with ram := Function.update mem.ram d (mem.ram kernPgdir) }.pageIncref
    d).store ⟨d, pdx uvpt⟩ (page2pa d ||| pteP ||| pteU)

theorem pdx_uvpt : ∀ i : Fin userTables, (i : Nat) ≠ pdx uvpt := by
  intro i same
  have below := i.isLt
  have isUvpt : pdx uvpt = 957 := by decide
  unfold userTables at below
  omega

theorem ram_withDirectory (mem : PhysMem) (kernPgdir : Nat) (d : Nat) :
    (mem.withDirectory kernPgdir d).ram =
      Function.update mem.ram d (Function.update (mem.ram kernPgdir)
        (pdx uvpt) (page2pa d ||| pteP ||| pteU)) := by
  simp [withDirectory, store, pageIncref, setPage]

/-- A directory has been added for an environment that had none. -/
structure Founded (mem next : PhysMem) (pool free free' : List Nat)
    (dirs : Nat → Option Nat) (e : Fin nenv) (d : Nat) : Prop where
  accounted : next.Accounted pool free' (Function.update dirs e (some d))
  isFree : free = d :: free'
  word : next.word (Function.update dirs e (some d)) = mem.word dirs
  holds : next.holds (Function.update dirs e (some d)) =
    Function.update (mem.holds dirs) (.pgdir e) (some d)
  outside : Outside mem next pool dirs

theorem Accounted.addDirectory (accounted : mem.Accounted pool free dirs)
    (noDir : dirs e = none) {kernPgdir : Nat} (isKernel : kernPgdir ∉ pool)
    (unmapped : ∀ table, table < userTables → mem.ram kernPgdir table = 0)
    (taken : mem.pageAlloc true = (allocated, some d)) :
    ∃ free', Founded mem (allocated.withDirectory kernPgdir d) pool free free'
      dirs e d := by
  have alloc := accounted.books.pageAlloc true
  rw [taken] at alloc
  obtain ⟨rest, isFree, books, ram, elsewhere⟩ := alloc
  rw [if_pos rfl] at ram
  have member : d ∈ free := isFree ▸ List.mem_cons_self
  have isPooled := accounted.books.pooled d member
  have unreferenced := accounted.unreferenced member
  have nodup := accounted.books.nodup
  rw [isFree, List.nodup_cons] at nodup
  have notKernel : kernPgdir ≠ d := by
    rintro rfl
    exact isKernel isPooled
  generalize isNext : allocated.withDirectory kernPgdir d = next
  have nextRam : next.ram = Function.update mem.ram d
      (Function.update (mem.ram kernPgdir) (pdx uvpt)
        (page2pa d ||| pteP ||| pteU)) := by
    rw [← isNext, ram_withDirectory, ram, Function.update_idem,
      Function.update_of_ne notKernel]
  have otherRam : ∀ page, page ≠ d → next.ram page = mem.ram page := by
    intro page different
    rw [nextRam, Function.update_of_ne different]
  have sameWord : next.word dirs = mem.word dirs := by
    apply word_congr
    intro holder page _ refers
    apply otherRam
    rintro rfl
    exact unreferenced holder refers
  have empty : ∀ i : Fin userTables, next.ram d i = 0 := by
    intro i
    rw [nextRam, Function.update_self, Function.update_of_ne (pdx_uvpt i)]
    exact unmapped i i.isLt
  have word := (word_addDir noDir empty).trans sameWord
  have holds := holds_updateDir word
  have counts := references_set
    (show mem.holds dirs (.pgdir e) = none from noDir) d
  have counted : next.Books pool rest
      (Function.update (references (mem.holds dirs)) d
        (references (mem.holds dirs) d + 1)) := by
    rw [← isNext]
    exact ((books.withRam _).pageIncref isPooled nodup.1).withRam _
  have changed : Elsewhere mem next d := by
    rw [← isNext]
    exact elsewhere.trans (elsewhere_of_update rfl rfl)
  refine ⟨rest, ⟨?_, ?_, ?_⟩, isFree, word, holds, ?_⟩
  · apply accounted.tree.setContainer holds
    · intro page isD
      cases isD
      exact ⟨isPooled, fun other _ => unreferenced other⟩
    · rw [word]
      exact accounted.tree.present
  · rw [holds, counts]
    exact counted
  · intro page
    rw [holds, counts]
    by_cases isD : page = d
    · subst isD
      rw [Function.update_self, accounted.books.uncounted page member]
      decide
    · rw [Function.update_of_ne isD]
      exact accounted.bounded page
  · refine ⟨?_, ?_, ?_, changed.npages⟩
    · intro page outside
      apply otherRam
      rintro rfl
      exact outside isPooled
    · exact fun page => changed.outside isPooled
    · intro f d' index isDir _
      rw [otherRam]
      rintro rfl
      exact unreferenced (.pgdir f) isDir

/-- A memory after booting, with the directory 2 of one environment and with the
page 3 allocated. -/
def oneSpace (npages : Nat) : PhysMem :=
  (((plain npages).pageAlloc true).1.withDirectory 1 2 |>.pageAlloc true).1

def firstEnv : Fin nenv := ⟨0, by decide⟩

def oneDir : Nat → Option Nat :=
  Function.update (fun _ => none) firstEnv (some 2)

theorem oneSpace_taken {npages : Nat} (large : 4 ≤ npages) :
    (((plain npages).pageAlloc true).1.withDirectory 1 2).pageAlloc true =
      (oneSpace npages, some 3) := by
  have head : (((plain npages).pageAlloc true).1.withDirectory 1
      2).pageFreeList = some 3 := if_pos (by omega)
  unfold oneSpace
  unfold PhysMem.pageAlloc at head ⊢
  rw [head]

theorem oneSpace_accounted {npages : Nat} (large : 4 ≤ npages)
    (small : npages ≤ 2 ^ 20) :
    ∃ free, (oneSpace npages).Accounted (List.range' 2 (npages - 3 + 1)) free
        oneDir ∧ free.length + 4 = npages ∧
      3 ∈ List.range' 2 (npages - 3 + 1) ∧ 3 ∉ free ∧
      (∀ holder, (oneSpace npages).holds oneDir holder ≠ some 3) ∧
      ∀ e i j, (oneSpace npages).word oneDir (.pte e i j) = 0 := by
  have booted := @booted_plain npages (by omega) small
  have noDir : (fun _ => none : Nat → Option Nat) firstEnv = none := rfl
  have first : (plain npages).pageAlloc true =
      (((plain npages).pageAlloc true).1, some 2) := rfl
  have unmapped := booted.unmapped
  obtain ⟨rest, founded⟩ := @Accounted.addDirectory _ _ _ _ _ firstEnv _
    booted.accounted noDir 1 booted.kernel unmapped first
  have second := oneSpace_taken large
  obtain ⟨free, isRest, isPooled, busy, accounted, word, _⟩ :=
    founded.accounted.pageAlloc second
  have length := congrArg List.length founded.isFree
  rw [isRest, List.length_range', List.length_cons, List.length_cons] at length
  refine ⟨free, accounted, by omega, isPooled, busy, ?_, ?_⟩
  · intro holder
    unfold oneDir
    rw [holds_congr word]
    exact founded.accounted.unreferenced (isRest ▸ List.mem_cons_self) holder
  · intro e i j
    have empty := congrFun founded.word (.pte e i j)
    rw [word_noDirs] at empty
    exact (congrFun word (.pte e i j)).trans empty

/-! ## `env_free` -/

/-- A change that keeps the accounts and clears entries of one environment. -/
structure Clears (mem next : PhysMem) (pool : List Nat)
    (dirs : Nat → Option Nat) (e : Fin nenv) : Prop where
  accounted : ∃ free', next.Accounted pool free' dirs
  word : ∀ holder, next.word dirs holder = mem.word dirs holder ∨
    next.word dirs holder = 0
  others : ∀ f k, f ≠ e →
    next.word dirs (.pde f k) = mem.word dirs (.pde f k) ∧
    ∀ l, next.word dirs (.pte f k l) = mem.word dirs (.pte f k l)
  outside : Outside mem next pool dirs

theorem Clears.refl (accounted : mem.Accounted pool free dirs) :
    Clears mem mem pool dirs e :=
  ⟨⟨free, accounted⟩, fun _ => .inl rfl, fun _ _ _ => ⟨rfl, fun _ => rfl⟩,
    .refl _ _ _⟩

theorem Clears.trans {last : PhysMem} (first : Clears mem next pool dirs e)
    (second : Clears next last pool dirs e) : Clears mem last pool dirs e where
  accounted := second.accounted
  word holder := by
    rcases second.word holder with same | zero
    · rw [same]
      exact first.word holder
    · exact .inr zero
  others f k different := by
    obtain ⟨pde, pte⟩ := first.others f k different
    obtain ⟨pde', pte'⟩ := second.others f k different
    exact ⟨pde'.trans pde, fun l => (pte' l).trans (pte l)⟩
  outside := first.outside.trans second.outside

/-- An entry of `e` is cleared. -/
theorem Clears.of_update {holder : Holder}
    (accounted : next.Accounted pool free' dirs)
    (word : next.word dirs = Function.update (mem.word dirs) holder 0)
    (isOwn : ∀ f k, f ≠ e → holder ≠ .pde f k ∧ ∀ l, holder ≠ .pte f k l)
    (outside : Outside mem next pool dirs) : Clears mem next pool dirs e := by
  refine ⟨⟨free', accounted⟩, ?_, ?_, outside⟩
  · intro other
    rw [word]
    by_cases same : other = holder
    · subst same
      exact .inr (Function.update_self _ _ _)
    · exact .inl (Function.update_of_ne same _ _)
  · intro f k different
    obtain ⟨notPde, notPte⟩ := isOwn f k different
    rw [word]
    exact ⟨Function.update_of_ne notPde.symm _ _, fun l =>
      Function.update_of_ne (notPte l).symm _ _⟩

theorem holds_pte {f : Fin nenv} {k : Fin userTables} {l : Fin nptEntries} :
    mem.holds dirs (.pte f k l) = frameOf (mem.word dirs (.pte f k l)) := rfl

theorem frameOf_eq_none {word : UInt32} : frameOf word = none ↔ word = 0 := by
  unfold frameOf
  split
  · rename_i zero
    simp [zero]
  · rename_i nonzero
    simp [nonzero]

/-- The counts after a reference has gone. -/
theorem Accounted.cleared {dirs' : Nat → Option Nat} {holder : Holder}
    (accounted : mem.Accounted pool free dirs)
    (refers : mem.holds dirs holder = some page) (tree : next.Tree pool dirs')
    (holds : next.holds dirs' = Function.update (mem.holds dirs) holder none)
    (books : next.Books pool free'
      (Function.update (references (mem.holds dirs)) page
        (references (mem.holds dirs) page - 1))) :
    next.Accounted pool free' dirs' := by
  have counts := references_clear refers
  refine ⟨tree, ?_, ?_⟩
  · rw [holds, counts]
    exact books
  · intro other
    have bounded := accounted.bounded other
    rw [holds, counts]
    by_cases same : other = page
    · subst same
      rw [Function.update_self]
      omega
    · rw [Function.update_of_ne same]
      exact bounded

/-- `page_remove` of a user address keeps the accounts. -/
theorem Accounted.pageRemove (accounted : mem.Accounted pool free dirs)
    (isDir : dirs e = some d) (user : va < utop) :
    ∃ next, mem.pageRemove d va = some next ∧ Clears mem next pool dirs e ∧
      next.word dirs = Function.update (mem.word dirs) (.pteAt e user) 0 := by
  have tree := accounted.tree
  have books := accounted.books
  cases mapped : mem.holds dirs (.pteAt e user) with
  | none =>
      refine ⟨mem, tree.pageRemove_none books isDir user mapped,
        .refl accounted, ?_⟩
      have zero : mem.word dirs (.pteAt e user) = 0 := frameOf_eq_none.mp mapped
      rw [← zero, Function.update_eq_self]
  | some old =>
      have bounded := accounted.bounded old
      obtain ⟨ptr, next, found, removes, removed⟩ := tree.pageRemove_some books
        isDir user mapped (references_pos mapped) (by omega)
      have entered : Entered mem next pool dirs e user 0 :=
        tree.enter found (fun _ named => by cases named)
          (fun nonzero => absurd rfl nonzero) removed.ram
      have stored := tree.outside_store found 0
      have isPooled := tree.pooled _ _ mapped
      refine ⟨next, removes, ?_, entered.word⟩
      apply Clears.of_update
        (accounted.cleared mapped entered.tree entered.holds removed.books)
        entered.word
      · intro f k different
        constructor
        · intro same
          cases same
        · intro l same
          cases same
          exact different rfl
      · refine ⟨?_, ?_, ?_, removed.elsewhere.npages⟩
        · rw [removed.ram]
          exact stored.ram
        · exact fun other => removed.elsewhere.outside isPooled
        · rw [removed.ram]
          exact stored.upper

/-! ### Addresses of entries -/

theorem pgAddr_toNat (i : Fin userTables) (j : Fin nptEntries) :
    (pgAddr i j).toNat = i * 2 ^ 22 + j * 2 ^ 12 := by
  have first := i.isLt
  have second := j.isLt
  unfold userTables at first
  unfold nptEntries at second
  unfold pgAddr
  apply UInt32.toNat_ofNat_of_lt'
  change (i : Nat) * 2 ^ 22 + j * 2 ^ 12 < 2 ^ 32
  omega

theorem pgAddr_user (i : Fin userTables) (j : Fin nptEntries) :
    pgAddr i j < utop := by
  have first := i.isLt
  have second := j.isLt
  have isUtop : utop.toNat = 955 * 2 ^ 22 := by decide
  unfold userTables at first
  unfold nptEntries at second
  rw [UInt32.lt_iff_toNat_lt, pgAddr_toNat]
  omega

theorem pteAt_pgAddr (e : Fin nenv) (i : Fin userTables) (j : Fin nptEntries) :
    Holder.pteAt e (pgAddr_user i j) = .pte e i j := by
  have second := j.isLt
  unfold nptEntries at second
  have table : pdx (pgAddr i j) = i := by
    unfold pdx
    rw [pgAddr_toNat]
    omega
  have index : ptx (pgAddr i j) = j := by
    unfold ptx
    rw [pgAddr_toNat]
    omega
  unfold Holder.pteAt
  congr 1
  · exact Fin.ext table
  · exact Fin.ext index

/-! ### Tables -/

/-- The inner loop has unmapped the entries below `n` of the table `i`. -/
structure TableCleared (mem next : PhysMem) (pool : List Nat)
    (dirs : Nat → Option Nat) (e : Fin nenv) (i : Fin userTables) (n : Nat) :
    Prop where
  clears : Clears mem next pool dirs e
  tables : ∀ k, next.word dirs (.pde e k) = mem.word dirs (.pde e k)
  cleared : ∀ j : Fin nptEntries, (j : Nat) < n →
    next.word dirs (.pte e i j) = 0

theorem Accounted.envFreeTable (accounted : mem.Accounted pool free dirs)
    (isDir : dirs e = some d) (isTable : mem.holds dirs (.pde e i) = some t)
    {n : Nat} (bound : n ≤ nptEntries) :
    ∃ next, envFreeTable d i t n mem = some next ∧
      TableCleared mem next pool dirs e i n := by
  induction n with
  | zero =>
      refine ⟨mem, rfl, .refl accounted, fun _ => rfl, ?_⟩
      intro j below
      cases below
  | succ n induction =>
      obtain ⟨half, frees, halfCleared⟩ := induction (by omega)
      obtain ⟨_, halfOk⟩ := halfCleared.clears.accounted
      let j : Fin nptEntries := ⟨n, by omega⟩
      have sameTable : half.holds dirs (.pde e i) = some t := by
        rw [← isTable]
        exact congrArg frameOf (halfCleared.tables i)
      have isWord : half.ram t n = half.word dirs (.pte e i j) := by
        rw [holds_pde isDir] at sameTable
        exact (@word_pte half dirs e i j d t isDir sameTable).symm
      unfold Scheduler.envFreeTable
      rw [frees]
      dsimp only [Option.bind_eq_bind, Option.bind_some]
      rw [isWord]
      split
      · obtain ⟨next, removes, clears, word⟩ :=
          halfOk.pageRemove isDir (pgAddr_user i j)
        rw [pteAt_pgAddr] at word
        refine ⟨next, removes, halfCleared.clears.trans clears, ?_, ?_⟩
        · intro k
          rw [word, Function.update_of_ne (by simp)]
          exact halfCleared.tables k
        · intro k below
          rw [word]
          by_cases isJ : k = j
          · rw [isJ, Function.update_self]
          · have different : (k : Nat) ≠ n := fun same => isJ (Fin.ext same)
            rw [Function.update_of_ne (by simp [isJ])]
            exact halfCleared.cleared k (by omega)
      · rename_i absent
        refine ⟨half, rfl, halfCleared.clears, halfCleared.tables, ?_⟩
        intro k below
        by_cases isJ : k = j
        · rw [isJ]
          by_contra nonzero
          exact absent (halfOk.tree.present _ nonzero)
        · have different : (k : Nat) ≠ n := fun same => isJ (Fin.ext same)
          exact halfCleared.cleared k (by omega)

/-- An empty table is dropped. -/
theorem Accounted.dropTable (accounted : mem.Accounted pool free dirs)
    (isDir : dirs e = some d) (isTable : mem.holds dirs (.pde e i) = some t)
    (empty : ∀ j, mem.word dirs (.pte e i j) = 0) :
    ∃ next, (mem.store ⟨d, i⟩ 0).pageDecref t = some next ∧
      Clears mem next pool dirs e ∧
      next.word dirs = Function.update (mem.word dirs) (.pde e i) 0 := by
  have positive := references_pos isTable
  have bounded := accounted.bounded t
  have isPooled := accounted.tree.pooled _ _ isTable
  have stored : (mem.store ⟨d, i⟩ 0).Books pool free
      (references (mem.holds dirs)) := accounted.books.withRam _
  obtain ⟨next, lowers, books, ram, elsewhere⟩ :=
    stored.pageDecref isPooled positive (by omega)
  have word : next.word dirs =
      Function.update (mem.word dirs) (.pde e i) 0 := by
    rw [word_of_ram ram]
    apply word_store_pde accounted.tree.apart isDir empty
    intro t' named
    cases named
  have holds := holds_update (by simp) word
  have tree : next.Tree pool dirs := by
    apply accounted.tree.setContainer holds
    · intro page named
      cases named
    · intro other nonzero
      rw [word] at nonzero ⊢
      by_cases same : other = .pde e i
      · subst same
        rw [Function.update_self] at nonzero
        exact absurd rfl nonzero
      · rw [Function.update_of_ne same] at nonzero ⊢
        exact accounted.tree.present other nonzero
  refine ⟨next, lowers, ?_, word⟩
  apply Clears.of_update (accounted.cleared isTable tree holds books) word
  · intro f k different
    constructor
    · intro same
      cases same
      exact different rfl
    · intro l same
      cases same
  · have notDir : ∀ page, page ∉ pool → page ≠ d := by
      rintro page outside rfl
      exact outside (accounted.tree.pooled (.pgdir e) page isDir)
    refine ⟨?_, ?_, ?_, elsewhere.npages⟩
    · intro page outside
      rw [ram]
      exact ram_store_other (notDir page outside)
    · exact fun page => elsewhere.outside isPooled
    · intro f d' index _ upper
      rw [ram]
      apply ram_store_index
      intro same
      have below := i.isLt
      dsimp only at same
      omega

/-- The outer loop has dropped the tables below `n`. -/
structure TablesCleared (mem next : PhysMem) (pool : List Nat)
    (dirs : Nat → Option Nat) (e : Fin nenv) (n : Nat) : Prop where
  clears : Clears mem next pool dirs e
  cleared : ∀ i : Fin userTables, (i : Nat) < n →
    next.word dirs (.pde e i) = 0

theorem Accounted.envFreeTables (accounted : mem.Accounted pool free dirs)
    (isDir : dirs e = some d) {n : Nat} (bound : n ≤ userTables) :
    ∃ next, envFreeTables d n mem = some next ∧
      TablesCleared mem next pool dirs e n := by
  induction n with
  | zero =>
      refine ⟨mem, rfl, .refl accounted, ?_⟩
      intro i below
      cases below
  | succ n induction =>
      obtain ⟨half, frees, halfCleared⟩ := induction (by omega)
      obtain ⟨_, halfOk⟩ := halfCleared.clears.accounted
      let i : Fin userTables := ⟨n, by omega⟩
      have isWord : half.ram d n = half.word dirs (.pde e i) :=
        (@word_pde half dirs e i d isDir).symm
      have below : ∀ (k : Fin userTables), (k : Nat) < n + 1 → k ≠ i →
          (k : Nat) < n := by
        intro k isBelow different
        have notN : (k : Nat) ≠ n := fun same => different (Fin.ext same)
        omega
      unfold Scheduler.envFreeTables
      rw [frees]
      dsimp only [Option.bind_eq_bind, Option.bind_some]
      rw [isWord]
      split
      · rename_i absent
        refine ⟨half, rfl, halfCleared.clears, ?_⟩
        intro k isBelow
        by_cases isI : k = i
        · rw [isI]
          by_contra nonzero
          exact halfOk.tree.present _ nonzero absent
        · exact halfCleared.cleared k (below k isBelow isI)
      · rename_i present
        have isTable : half.holds dirs (.pde e i) =
            some (pteFrame (half.word dirs (.pde e i))) :=
          if_neg (ne_zero_of_present present)
        have valid := halfOk.books.valid _ (halfOk.tree.pooled _ _ isTable)
        rw [if_pos valid]
        obtain ⟨unmapped, unmaps, tableCleared⟩ :=
          halfOk.envFreeTable isDir isTable (le_refl nptEntries)
        obtain ⟨_, unmappedOk⟩ := tableCleared.clears.accounted
        have stillTable : unmapped.holds dirs (.pde e i) =
            some (pteFrame (half.word dirs (.pde e i))) := by
          rw [← isTable]
          exact congrArg frameOf (tableCleared.tables i)
        obtain ⟨next, drops, clears, word⟩ := unmappedOk.dropTable isDir
          stillTable fun j => tableCleared.cleared j j.isLt
        rw [unmaps]
        refine ⟨next, drops,
          (halfCleared.clears.trans tableCleared.clears).trans clears, ?_⟩
        intro k isBelow
        rw [word]
        by_cases isI : k = i
        · rw [isI, Function.update_self]
        · rw [Function.update_of_ne (by simp [isI]), tableCleared.tables k]
          exact halfCleared.cleared k (below k isBelow isI)

/-! ### The directory -/

/-- The address space of `e` is gone. -/
structure Freed (mem next : PhysMem) (pool : List Nat)
    (dirs : Nat → Option Nat) (e : Fin nenv) : Prop where
  accounted : ∃ free', next.Accounted pool free' (Function.update dirs e none)
  word : ∀ holder, next.word (Function.update dirs e none) holder =
    mem.word dirs holder ∨ next.word (Function.update dirs e none) holder = 0
  outside : Outside mem next pool dirs

/-- The part of `env_free` that concerns the memory. -/
theorem Accounted.envFree (accounted : mem.Accounted pool free dirs)
    (isDir : dirs e = some d) :
    ∃ next, ((Scheduler.envFreeTables d userTables mem).bind fun mem =>
        mem.pageDecref d) = some next ∧ Freed mem next pool dirs e := by
  obtain ⟨emptied, frees, cleared⟩ :=
    accounted.envFreeTables isDir (le_refl userTables)
  obtain ⟨free', emptiedOk⟩ := cleared.clears.accounted
  have holdsDir : emptied.holds dirs (.pgdir e) = some d := isDir
  have isPooled := emptiedOk.tree.pooled _ _ holdsDir
  have bounded := emptiedOk.bounded d
  obtain ⟨next, lowers, books, ram, elsewhere⟩ :=
    emptiedOk.books.pageDecref isPooled (references_pos holdsDir) (by omega)
  have word : next.word (Function.update dirs e none) = emptied.word dirs := by
    rw [word_of_ram ram]
    exact word_dropDir fun i => cleared.cleared i i.isLt
  have holds := holds_updateDir word
  rw [frees]
  have tree : next.Tree pool (Function.update dirs e none) := by
    apply emptiedOk.tree.setContainer holds
    · intro page named
      cases named
    · rw [word]
      exact emptiedOk.tree.present
  refine ⟨next, lowers, ⟨_, emptiedOk.cleared holdsDir tree holds books⟩, ?_,
    ?_⟩
  · rw [word]
    exact cleared.clears.word
  · refine cleared.clears.outside.trans ⟨?_, ?_, ?_, elsewhere.npages⟩
    · intro page _
      rw [ram]
    · exact fun page => elsewhere.outside isPooled
    · intro f d' index _ _
      rw [ram]

end PhysMem

end FeaturesOS.Scheduler

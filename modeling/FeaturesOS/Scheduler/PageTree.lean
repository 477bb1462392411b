import Mathlib.Data.Fintype.Sigma
import Mathlib.Data.Fintype.Sum
import Mathlib.Tactic.DeriveFintype
import FeaturesOS.Scheduler.Books

/-!
# Page directories and page tables as one table of entries

Everything in the kernel that refers to a physical page on behalf of an
environment is a `Holder`.  As long as no two directories or tables share a page,
a store into one of them changes one entry.
-/

namespace FeaturesOS.Scheduler

/-- `env_pgdir`, an entry of a page directory below `UTOP`, or an entry of a page
table. -/
inductive Holder where
  | pgdir (e : Fin nenv)
  | pde (e : Fin nenv) (i : Fin userTables)
  | pte (e : Fin nenv) (i : Fin userTables) (j : Fin nptEntries)
deriving DecidableEq, Fintype

/-- The page holds entries itself. -/
def Holder.IsContainer : Holder → Prop
  | .pgdir _ | .pde _ _ => True
  | .pte _ _ _ => False

/-- The page that an entry names. -/
def frameOf (word : UInt32) : Option Nat :=
  if word = 0 then none else some (pteFrame word)

namespace PhysMem

/-- The word of an entry; it is 0 where there is no directory or no table. -/
def word (mem : PhysMem) (dirs : Nat → Option Nat) : Holder → UInt32
  | .pgdir _ => 0
  | .pde e i =>
      match dirs e with
      | none => 0
      | some d => mem.ram d i
  | .pte e i j =>
      match dirs e with
      | none => 0
      | some d =>
          match frameOf (mem.ram d i) with
          | none => 0
          | some t => mem.ram t j

/-- The page that a holder refers to. -/
def holds (mem : PhysMem) (dirs : Nat → Option Nat) : Holder → Option Nat
  | .pgdir e => dirs e
  | .pde e i => frameOf (mem.word dirs (.pde e i))
  | .pte e i j => frameOf (mem.word dirs (.pte e i j))

variable {mem next : PhysMem} {dirs : Nat → Option Nat} {pool : List Nat}
variable {e : Fin nenv} {i : Fin userTables} {j : Fin nptEntries}
variable {d t page : Nat}

@[simp] theorem holds_pgdir : mem.holds dirs (.pgdir e) = dirs e := rfl

theorem word_pde (isDir : dirs e = some d) :
    mem.word dirs (.pde e i) = mem.ram d i := by
  simp [word, isDir]

theorem word_pte (isDir : dirs e = some d)
    (isTable : frameOf (mem.ram d i) = some t) :
    mem.word dirs (.pte e i j) = mem.ram t j := by
  simp [word, isDir, isTable]

theorem word_pte_none (isDir : dirs e = some d)
    (isTable : frameOf (mem.ram d i) = none) :
    mem.word dirs (.pte e i j) = 0 := by
  simp [word, isDir, isTable]

theorem word_pde_noDir (noDir : dirs e = none) :
    mem.word dirs (.pde e i) = 0 := by
  simp [word, noDir]

theorem word_pte_noDir (noDir : dirs e = none) :
    mem.word dirs (.pte e i j) = 0 := by
  simp [word, noDir]

theorem holds_pde (isDir : dirs e = some d) :
    mem.holds dirs (.pde e i) = frameOf (mem.ram d i) := by
  simp [holds, word_pde isDir]

/-- Only the contents of directories and tables matter. -/
theorem word_congr
    (same : ∀ holder page, holder.IsContainer →
      mem.holds dirs holder = some page → next.ram page = mem.ram page) :
    next.word dirs = mem.word dirs := by
  have sameDir : ∀ (e : Fin nenv) d, dirs e = some d →
      next.ram d = mem.ram d := fun e d isDir =>
    same (.pgdir e) d trivial isDir
  funext holder
  cases holder with
  | pgdir e => rfl
  | pde e i =>
      cases isDir : dirs e with
      | none => rw [word_pde_noDir isDir, word_pde_noDir isDir]
      | some d => rw [word_pde isDir, word_pde isDir, sameDir e d isDir]
  | pte e i j =>
      cases isDir : dirs e with
      | none => rw [word_pte_noDir isDir, word_pte_noDir isDir]
      | some d =>
          have inDir := sameDir e d isDir
          cases isTable : frameOf (mem.ram d i) with
          | none =>
              rw [word_pte_none isDir isTable,
                word_pte_none isDir (inDir ▸ isTable)]
          | some t =>
              have inTable := same (.pde e i) t trivial
                ((holds_pde isDir).trans isTable)
              rw [word_pte isDir isTable, word_pte isDir (inDir ▸ isTable),
                inTable]

theorem holds_congr (same : next.word dirs = mem.word dirs) :
    next.holds dirs = mem.holds dirs := by
  funext holder
  cases holder with
  | pgdir e => rfl
  | pde e i => simp [holds, same]
  | pte e i j => simp [holds, same]

/-- An entry that changes changes what it refers to. -/
theorem holds_update {holder : Holder} {entry : UInt32}
    (isEntry : ∀ e, holder ≠ .pgdir e)
    (changed : next.word dirs = Function.update (mem.word dirs) holder entry) :
    next.holds dirs =
      Function.update (mem.holds dirs) holder (frameOf entry) := by
  funext other
  by_cases same : other = holder
  · subst same
    rw [Function.update_self]
    have isWord : next.word dirs other = entry := by
      rw [changed, Function.update_self]
    cases other with
    | pgdir e => exact absurd rfl (isEntry e)
    | pde e i => simp [holds, isWord]
    | pte e i j => simp [holds, isWord]
  · rw [Function.update_of_ne same]
    have isWord : next.word dirs other = mem.word dirs other := by
      rw [changed, Function.update_of_ne same]
    cases other with
    | pgdir e => rfl
    | pde e i => simp [holds, isWord]
    | pte e i j => simp [holds, isWord]

/-! ## Stores -/

/-- No page holds two directories, two tables or one of each. -/
def Apart (mem : PhysMem) (dirs : Nat → Option Nat) : Prop :=
  ∀ first second page, first.IsContainer → second.IsContainer →
    mem.holds dirs first = some page → mem.holds dirs second = some page →
    first = second

theorem ram_store_other {other : Nat} {ptr : EntryPtr} {entry : UInt32}
    (different : other ≠ ptr.page) :
    (mem.store ptr entry).ram other = mem.ram other := by
  simp [store, different]

theorem ram_store_index {index : Nat} {ptr : EntryPtr} {entry : UInt32}
    (different : index ≠ ptr.index) (other : Nat) :
    (mem.store ptr entry).ram other index = mem.ram other index := by
  by_cases same : other = ptr.page
  · subst same
    simp [store, different]
  · rw [ram_store_other same]

theorem ram_store_self {ptr : EntryPtr} {entry : UInt32} :
    (mem.store ptr entry).ram ptr.page ptr.index = entry := by
  simp [store]

/-- A store into a table. -/
theorem word_store_pte (apart : mem.Apart dirs)
    (isTable : mem.holds dirs (.pde e i) = some t) (entry : UInt32) :
    (mem.store ⟨t, j⟩ entry).word dirs =
      Function.update (mem.word dirs) (.pte e i j) entry := by
  have notDir : ∀ (f : Fin nenv) d, dirs f = some d → d ≠ t := by
    intro f d isDir same
    subst same
    cases apart (.pgdir f) (.pde e i) d trivial trivial isDir isTable
  have sameDir : ∀ (f : Fin nenv) d, dirs f = some d →
      (mem.store ⟨t, j⟩ entry).ram d = mem.ram d := fun f d isDir =>
    ram_store_other (notDir f d isDir)
  funext holder
  cases holder with
  | pgdir f => rw [Function.update_of_ne (by simp)]; rfl
  | pde f k =>
      rw [Function.update_of_ne (by simp)]
      cases isDir : dirs f with
      | none => rw [word_pde_noDir isDir, word_pde_noDir isDir]
      | some d => rw [word_pde isDir, word_pde isDir, sameDir f d isDir]
  | pte f k l =>
      cases isDir : dirs f with
      | none =>
          have other : (.pte f k l : Holder) ≠ .pte e i j := by
            intro same
            cases same
            rw [holds, word_pde_noDir isDir] at isTable
            cases isTable
          rw [Function.update_of_ne other, word_pte_noDir isDir,
            word_pte_noDir isDir]
      | some d =>
          have inDir := sameDir f d isDir
          cases found : frameOf (mem.ram d k) with
          | none =>
              have other : (.pte f k l : Holder) ≠ .pte e i j := by
                intro same
                cases same
                rw [holds_pde isDir, found] at isTable
                cases isTable
              rw [Function.update_of_ne other, word_pte_none isDir found,
                word_pte_none isDir (inDir ▸ found)]
          | some u =>
              rw [word_pte isDir (inDir ▸ found)]
              by_cases same : (.pte f k l : Holder) = .pte e i j
              · cases same
                rw [holds_pde isDir, found] at isTable
                cases isTable
                rw [Function.update_self]
                exact ram_store_self
              · rw [Function.update_of_ne same, word_pte isDir found]
                by_cases isT : u = t
                · subst isT
                  have sameEntry := apart (.pde f k) (.pde e i) u trivial
                    trivial ((holds_pde isDir).trans found) isTable
                  cases sameEntry
                  have index : (l : Nat) ≠ j := fun sameIndex =>
                    same (by rw [Fin.ext sameIndex])
                  exact ram_store_index index u
                · rw [ram_store_other isT]

/-- A store into a directory that adds or drops an empty table. -/
theorem word_store_pde (apart : mem.Apart dirs) (isDir : dirs e = some d)
    {entry : UInt32} (empty : ∀ j, mem.word dirs (.pte e i j) = 0)
    (fresh : ∀ t, frameOf entry = some t →
      t ≠ d ∧ ∀ j : Fin nptEntries, mem.ram t j = 0) :
    (mem.store ⟨d, i⟩ entry).word dirs =
      Function.update (mem.word dirs) (.pde e i) entry := by
  have otherDir : ∀ (f : Fin nenv) d', dirs f = some d' → f ≠ e →
      (mem.store ⟨d, i⟩ entry).ram d' = mem.ram d' := by
    intro f d' isOther different
    apply ram_store_other
    intro same
    dsimp only at same
    subst same
    cases apart (.pgdir f) (.pgdir e) d' trivial trivial isOther isDir
    exact different rfl
  have ownDir : ∀ k : Fin userTables, k ≠ i →
      (mem.store ⟨d, i⟩ entry).ram d k = mem.ram d k := by
    intro k different
    apply ram_store_index
    exact fun same => different (Fin.ext same)
  have sameDir : ∀ (f : Fin nenv) (k : Fin userTables) d', dirs f = some d' →
      (.pde f k : Holder) ≠ .pde e i →
      (mem.store ⟨d, i⟩ entry).ram d' k = mem.ram d' k := by
    intro f k d' isOther different
    by_cases same : f = e
    · subst same
      cases isDir.symm.trans isOther
      exact ownDir k fun isI => different (by rw [isI])
    · rw [otherDir f d' isOther same]
  have sameTable : ∀ (f : Fin nenv) (k : Fin userTables) u,
      mem.holds dirs (.pde f k) = some u →
      (mem.store ⟨d, i⟩ entry).ram u = mem.ram u := by
    intro f k u isTable
    apply ram_store_other
    intro same
    dsimp only at same
    subst same
    cases apart (.pde f k) (.pgdir e) u trivial trivial isTable isDir
  funext holder
  cases holder with
  | pgdir f => rw [Function.update_of_ne (by simp)]; rfl
  | pde f k =>
      cases isOther : dirs f with
      | none =>
          have different : (.pde f k : Holder) ≠ .pde e i := by
            intro same
            cases same
            cases isOther.symm.trans isDir
          rw [Function.update_of_ne different, word_pde_noDir isOther,
            word_pde_noDir isOther]
      | some d' =>
          rw [word_pde isOther]
          by_cases same : (.pde f k : Holder) = .pde e i
          · cases same
            cases isDir.symm.trans isOther
            rw [Function.update_self]
            exact ram_store_self
          · rw [Function.update_of_ne same, word_pde isOther,
              sameDir f k d' isOther same]
  | pte f k l =>
      rw [Function.update_of_ne (by simp)]
      cases isOther : dirs f with
      | none => rw [word_pte_noDir isOther, word_pte_noDir isOther]
      | some d' =>
          by_cases same : (.pde f k : Holder) = .pde e i
          · cases same
            cases isDir.symm.trans isOther
            rw [empty l]
            have stored : (mem.store ⟨d, i⟩ entry).ram d i = entry :=
              ram_store_self
            cases named : frameOf entry with
            | none =>
                exact word_pte_none isDir ((congrArg frameOf stored).trans named)
            | some t =>
                obtain ⟨notDir, zero⟩ := fresh t named
                rw [word_pte isDir ((congrArg frameOf stored).trans named),
                  ram_store_other notDir]
                exact zero l
          · have inDir := sameDir f k d' isOther same
            cases isTable : frameOf (mem.ram d' k) with
            | none =>
                rw [word_pte_none isOther isTable,
                  word_pte_none isOther (inDir ▸ isTable)]
            | some u =>
                have inTable := sameTable f k u
                  ((holds_pde isOther).trans isTable)
                rw [word_pte isOther isTable,
                  word_pte isOther (inDir ▸ isTable), inTable]

/-! ## Directories -/

/-- A new directory without user entries. -/
theorem word_addDir (noDir : dirs e = none)
    (empty : ∀ i : Fin userTables, mem.ram d i = 0) :
    mem.word (Function.update dirs e (some d)) = mem.word dirs := by
  have added : Function.update dirs e (some d) e = some d :=
    Function.update_self _ _ _
  funext holder
  cases holder with
  | pgdir f => rfl
  | pde f k =>
      by_cases same : f = e
      · subst same
        rw [word_pde added, empty, word_pde_noDir noDir]
      · have unchanged : Function.update dirs e (some d) f = dirs f :=
          Function.update_of_ne (fun isE => same (Fin.ext isE)) _ _
        simp [word, unchanged]
  | pte f k l =>
      by_cases same : f = e
      · subst same
        have noTable : frameOf (mem.ram d k) = none := by simp [frameOf, empty]
        rw [word_pte_none added noTable, word_pte_noDir noDir]
      · have unchanged : Function.update dirs e (some d) f = dirs f :=
          Function.update_of_ne (fun isE => same (Fin.ext isE)) _ _
        simp [word, unchanged]

/-- A directory without user entries goes. -/
theorem word_dropDir (empty : ∀ i, mem.word dirs (.pde e i) = 0) :
    mem.word (Function.update dirs e none) = mem.word dirs := by
  have dropped : Function.update dirs e none e = (none : Option Nat) :=
    Function.update_self _ _ _
  funext holder
  cases holder with
  | pgdir f => rfl
  | pde f k =>
      by_cases same : f = e
      · subst same
        rw [word_pde_noDir dropped, empty]
      · have unchanged : Function.update dirs e none f = dirs f :=
          Function.update_of_ne (fun isE => same (Fin.ext isE)) _ _
        simp [word, unchanged]
  | pte f k l =>
      by_cases same : f = e
      · subst same
        rw [word_pte_noDir dropped]
        cases isDir : dirs f with
        | none => rw [word_pte_noDir isDir]
        | some d =>
            have noTable : frameOf (mem.ram d k) = none := by
              rw [← word_pde isDir, empty]
              rfl
            rw [word_pte_none isDir noTable]
      · have unchanged : Function.update dirs e none f = dirs f :=
          Function.update_of_ne (fun isE => same (Fin.ext isE)) _ _
        simp [word, unchanged]

theorem holds_updateDir {dir : Option Nat}
    (same : next.word (Function.update dirs e dir) = mem.word dirs) :
    next.holds (Function.update dirs e dir) =
      Function.update (mem.holds dirs) (.pgdir e) dir := by
  funext holder
  cases holder with
  | pgdir f =>
      by_cases isE : f = e
      · subst isE
        simp
      · have other : (.pgdir f : Holder) ≠ .pgdir e := by
          intro isSame
          cases isSame
          exact isE rfl
        rw [Function.update_of_ne other]
        exact Function.update_of_ne (fun same => isE (Fin.ext same)) _ _
  | pde f k =>
      rw [Function.update_of_ne (by simp)]
      simp [holds, same]
  | pte f k l =>
      rw [Function.update_of_ne (by simp)]
      simp [holds, same]

end PhysMem

end FeaturesOS.Scheduler

import FeaturesOS.Scheduler.Spaces

/-!
# What becomes of the entries of the page tables

Whatever the kernel does to the tables of the environments, it leaves an entry
as it is, clears it or stores a word for a page with some flags.  A rule says
which pages an environment may be given with which flags.
-/

namespace FeaturesOS.Scheduler

/-- The environment may be given the page with these flags. -/
abbrev Rule := Nat → Nat → UInt32 → Prop

/-- Every entry of a table is as it was, cleared or one that the rule allows. -/
def Rewrites (rule : Rule) (first last : Holder → UInt32) : Prop :=
  ∀ e i j, last (.pte e i j) = first (.pte e i j) ∨ last (.pte e i j) = 0 ∨
    ∃ page perm, rule e page perm ∧
      last (.pte e i j) = page2pa page ||| perm ||| pteP

variable {rule : Rule} {first middle last : Holder → UInt32}

theorem Rewrites.of_eq (same : last = first) : Rewrites rule first last :=
  fun _ _ _ => .inl (congrFun same _)

theorem Rewrites.of_cleared
    (cleared : ∀ holder, last holder = first holder ∨ last holder = 0) :
    Rewrites rule first last := by
  intro e i j
  rcases cleared (.pte e i j) with same | zero
  · exact .inl same
  · exact .inr (.inl zero)

theorem Rewrites.trans (before : Rewrites rule first middle)
    (after : Rewrites rule middle last) : Rewrites rule first last := by
  intro e i j
  rcases after e i j with same | changed
  · rw [same]
    exact before e i j
  · exact .inr changed

namespace PhysMem

theorem Inserted.rewrites {mem walked next : PhysMem}
    {pool free free' : List Nat} {dirs : Nat → Option Nat} {e : Fin nenv}
    {va perm : UInt32} {user : va < utop} {page : Nat}
    (inserted : Inserted mem walked next pool free free' dirs e user page
      (page2pa page ||| perm ||| pteP))
    (allowed : rule e page perm) :
    Rewrites rule (mem.word dirs) (next.word dirs) := by
  intro f i j
  by_cases same : (.pte f i j : Holder) = .pteAt e user
  · have isEnv : f = e := (Holder.pte.inj same).1
    subst isEnv
    refine .inr (.inr ⟨page, perm, allowed, ?_⟩)
    rw [same, inserted.entered.word, Function.update_self]
  · exact .inl (inserted.word_pte same)

end PhysMem

namespace Spaces

def words (spaces : Spaces) : Holder → UInt32 :=
  spaces.mem.word spaces.dirs

theorem setEnv_words (spaces : Spaces) (e : Nat) (dir link : Option Nat)
    (target : UInt32) :
    (spaces.setEnv e dir link target).words =
      spaces.mem.word (Function.update spaces.dirs e dir) :=
  rfl

/-- The accounts are right, and the entries have become what the rule allows
since they were `first`. -/
structure Since (pool : List Nat) (rule : Rule) (first : Holder → UInt32)
    (spaces : Spaces) : Prop where
  sound : spaces.Sound pool
  rewritten : Rewrites rule first spaces.words

variable {pool : List Nat} {spaces next : Spaces}

theorem Since.advance (since : spaces.Since pool rule first)
    (sound : next.Sound pool)
    (rewrites : Rewrites rule spaces.words next.words) :
    next.Since pool rule first :=
  ⟨sound, since.rewritten.trans rewrites⟩

variable {e d : Nat} {mem : PhysMem}

/-- The directory of a new environment is empty. -/
theorem Since.setup (since : spaces.Since pool rule first)
    (head : spaces.freeList = some e) {allocated : PhysMem}
    (taken : spaces.mem.pageAlloc true = (allocated, some d)) :
    ({ spaces.setEnv e (some d) (spaces.links e) (spaces.targets e) with
        mem := allocated.withDirectory spaces.kernPgdir d
        freeList := spaces.links e } : Spaces).Since pool rule first := by
  have sound := since.sound
  obtain ⟨free, accounted⟩ := sound.accounted
  obtain ⟨nodes, linked, _, unused⟩ := sound.unused
  rw [head] at linked
  obtain ⟨rest, isNodes, _⟩ := linked.of_some
  subst isNodes
  obtain ⟨below, noDir⟩ := unused e List.mem_cons_self
  obtain ⟨free', founded⟩ := @PhysMem.Accounted.addDirectory _ _ _ _ _
    ⟨e, below⟩ _ accounted noDir _ sound.kernelDir sound.unmapped taken
  exact since.advance (sound.setup head taken) (.of_eq founded.word)

/-- `env_free` clears the entries of an environment. -/
theorem Since.release (since : spaces.Since pool rule first)
    (isDir : spaces.dirs e = some d)
    (frees : ((envFreeTables d userTables spaces.mem).bind fun mem =>
      mem.pageDecref d) = some mem) :
    ({ spaces.setEnv e none spaces.freeList (spaces.targets e) with
        mem := mem
        freeList := some e } : Spaces).Since pool rule first := by
  have sound := since.sound
  obtain ⟨free, accounted⟩ := sound.accounted
  have below := sound.below isDir
  obtain ⟨mem', frees', freed⟩ :=
    @PhysMem.Accounted.envFree _ _ _ _ ⟨e, below⟩ _ accounted isDir
  cases frees.symm.trans frees'
  exact since.advance (sound.release isDir frees) (.of_cleared freed.word)

end Spaces

end FeaturesOS.Scheduler

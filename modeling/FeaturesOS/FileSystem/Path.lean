import FeaturesOS.FileSystem.Directory

/-!
# Paths

An absolute path is `/` or the rendering of a non-empty list of components.  On
such paths `get_parent` and `strrchr` cut off the last component, and the two
parts determine the path.
-/

namespace FeaturesOS.FileSystem

open CString

/-- A component of a path: a directory entry without `/`. -/
structure Component (name : List UInt8) : Prop extends IsEntry name where
  noSlash : slash ∉ name

instance (name : List UInt8) : Decidable (Component name) :=
  decidable_of_iff
    (name ≠ [] ∧ newline ∉ name ∧ 0 ∉ name ∧ slash ∉ name)
    ⟨fun ⟨nonempty, noNewline, nulFree, noSlash⟩ =>
      ⟨⟨nonempty, noNewline, nulFree⟩, noSlash⟩,
      fun component => ⟨component.nonempty, component.noNewline,
        component.nulFree, component.noSlash⟩⟩

def renderPath (components : List (List UInt8)) : List UInt8 :=
  components.flatMap (slash :: ·)

/-- A path below `/` with non-empty components. -/
def WellNamed (path : List UInt8) : Prop :=
  ∃ parents name, (∀ component ∈ parents, Component component) ∧
    Component name ∧ path = renderPath (parents ++ [name])

/-- `path` lies strictly below `ancestor`. -/
def Descendant (ancestor path : List UInt8) : Prop :=
  ancestor ++ [slash] <+: path

theorem renderPath_concat (parents : List (List UInt8)) (name : List UInt8) :
    renderPath (parents ++ [name]) = renderPath parents ++ slash :: name := by
  simp [renderPath]

theorem renderPath_ne_slash {components : List (List UInt8)}
    (named : ∀ component ∈ components, Component component) :
    renderPath components ≠ [slash] := by
  cases components with
  | nil => simp [renderPath]
  | cons component components =>
      intro equal
      have head := (named component List.mem_cons_self).nonempty
      simp [renderPath, head] at equal

theorem baseName_append (front : List UInt8) {name : List UInt8}
    (noSlash : slash ∉ name) : baseName (front ++ slash :: name) = name := by
  have keeps : ∀ byte ∈ name.reverse, (byte != slash) = true := by
    intro byte member
    have different : byte ≠ slash := by
      rintro rfl
      exact noSlash (List.mem_reverse.mp member)
    simpa using different
  unfold baseName
  rw [List.reverse_append, List.reverse_cons, List.append_assoc,
    List.takeWhile_append_of_pos keeps]
  simp

theorem parentPath_append (front : List UInt8) {name : List UInt8}
    (noSlash : slash ∉ name) :
    parentPath (front ++ slash :: name) =
      if front = [] then [slash] else front := by
  have last : lastSlash (front ++ slash :: name) = front.length := by
    unfold lastSlash
    rw [baseName_append front noSlash]
    simp only [List.length_append, List.length_cons]
    omega
  unfold parentPath
  rw [last]
  by_cases empty : front = []
  · subst front
    simp
  · have nonzero : front.length ≠ 0 := by simpa using empty
    rw [if_neg nonzero, if_neg empty, List.take_left]

namespace WellNamed

variable {path : List UInt8}

/-- The two sides of the last `/`. -/
theorem split (wellNamed : WellNamed path) :
    ∃ front, path = front ++ slash :: baseName path ∧
      Component (baseName path) ∧ front ≠ [slash] ∧
      parentPath path = if front = [] then [slash] else front := by
  obtain ⟨parents, name, named, component, rfl⟩ := wellNamed
  rw [renderPath_concat, baseName_append _ component.noSlash,
    parentPath_append _ component.noSlash]
  exact ⟨renderPath parents, rfl, component, renderPath_ne_slash named, rfl⟩

theorem component (wellNamed : WellNamed path) : Component (baseName path) := by
  obtain ⟨_, -, component, -⟩ := wellNamed.split
  exact component

theorem length_gt (wellNamed : WellNamed path) : 1 < path.length := by
  obtain ⟨front, equality, component, -⟩ := wellNamed.split
  have positive := List.length_pos_iff.mpr component.nonempty
  rw [equality, List.length_append, List.length_cons]
  omega

theorem ne_slash (wellNamed : WellNamed path) : path ≠ [slash] := by
  intro root
  have long := wellNamed.length_gt
  rw [root] at long
  exact absurd long (by decide)

theorem mem_slash (wellNamed : WellNamed path) : slash ∈ path := by
  obtain ⟨front, equality, -⟩ := wellNamed.split
  rw [equality]
  simp

theorem parentPath_length (wellNamed : WellNamed path) :
    (parentPath path).length < path.length := by
  obtain ⟨front, equality, component, -, parent⟩ := wellNamed.split
  have positive := List.length_pos_iff.mpr component.nonempty
  have length := congrArg List.length equality
  rw [List.length_append, List.length_cons] at length
  rw [parent]
  split
  · rw [List.length_singleton]
    omega
  · omega

theorem parentPath_ne (wellNamed : WellNamed path) : parentPath path ≠ path := by
  intro same
  have shorter := wellNamed.parentPath_length
  rw [same] at shorter
  exact Nat.lt_irrefl _ shorter

/-- Parent and base name determine a path. -/
theorem eq_of_parent_base {other : List UInt8} (wellNamed : WellNamed path)
    (otherNamed : WellNamed other)
    (sameParent : parentPath path = parentPath other)
    (sameBase : baseName path = baseName other) : path = other := by
  obtain ⟨front, equality, -, notRoot, parent⟩ := wellNamed.split
  obtain ⟨otherFront, otherEquality, -, otherNotRoot, otherParent⟩ :=
    otherNamed.split
  have sameFront : front = otherFront := by
    rw [parent, otherParent] at sameParent
    by_cases empty : front = []
    · by_cases otherEmpty : otherFront = []
      · rw [empty, otherEmpty]
      · rw [if_pos empty, if_neg otherEmpty] at sameParent
        exact absurd sameParent.symm otherNotRoot
    · by_cases otherEmpty : otherFront = []
      · rw [if_neg empty, if_pos otherEmpty] at sameParent
        exact absurd sameParent notRoot
      · rwa [if_neg empty, if_neg otherEmpty] at sameParent
  rw [equality, otherEquality, sameFront, sameBase]

/-- Below an ancestor lies its child or a parent that is below it too. -/
theorem parent_of_descendant {ancestor : List UInt8}
    (wellNamed : WellNamed path) (nonempty : ancestor ≠ [])
    (below : Descendant ancestor path) :
    parentPath path = ancestor ∨ Descendant ancestor (parentPath path) := by
  obtain ⟨front, equality, component, -, parent⟩ := wellNamed.split
  generalize baseName path = name at equality component
  obtain ⟨rest, whole⟩ := below
  rw [equality] at whole
  rw [List.append_assoc, List.singleton_append] at whole
  rcases List.append_eq_append_iff.mp whole with
    ⟨middle, frontEq, tailEq⟩ | ⟨middle, ancestorEq, tailEq⟩
  · cases middle with
    | nil =>
        left
        rw [List.append_nil] at frontEq
        rw [parent, frontEq, if_neg nonempty]
    | cons byte middle =>
        right
        have isSlash : slash = byte := (List.cons.inj tailEq).1
        subst byte
        have frontNonempty : front ≠ [] := by
          rw [frontEq]
          simp
        rw [parent, if_neg frontNonempty, frontEq]
        exact ⟨middle, by simp⟩
  · cases middle with
    | nil =>
        left
        rw [List.append_nil] at ancestorEq
        rw [parent, ← ancestorEq, if_neg nonempty]
    | cons byte middle =>
        have inName : slash ∈ name := by
          rw [(List.cons.inj tailEq).2]
          simp
        exact absurd inName component.noSlash

end WellNamed

/-! ## Checking a path -/

theorem renderPath_cons (component : List UInt8)
    (components : List (List UInt8)) :
    renderPath (component :: components) =
      slash :: [slash].intercalate (component :: components) := by
  induction components generalizing component with
  | nil => simp [renderPath, List.intercalate_singleton]
  | cons next components induction =>
      have rest := induction next
      rw [List.intercalate_cons_cons, List.append_assoc, List.singleton_append,
        ← rest]
      simp [renderPath]

theorem wellNamed_iff {path : List UInt8} :
    WellNamed path ↔ path.head? = some slash ∧
      ∀ name ∈ path.tail.splitOn slash, Component name := by
  constructor
  · rintro ⟨parents, name, named, component, rfl⟩
    have all : ∀ part ∈ parents ++ [name], Component part := by
      intro part member
      rcases List.mem_append.mp member with inParents | last
      · exact named part inParents
      · rw [List.mem_singleton.mp last]
        exact component
    obtain ⟨first, rest, split⟩ :=
      List.exists_cons_of_ne_nil (List.append_ne_nil_of_right_ne_nil parents
        (List.cons_ne_nil name []))
    rw [split] at all ⊢
    rw [renderPath_cons, List.tail_cons, List.splitOn_intercalate slash
      (fun part member => (all part member).noSlash) (List.cons_ne_nil _ _)]
    exact ⟨rfl, all⟩
  · rintro ⟨absolute, named⟩
    obtain ⟨rest, rfl⟩ : ∃ rest, path = slash :: rest := by
      cases path with
      | nil => cases absolute
      | cons byte rest => exact ⟨rest, by rw [Option.some.inj absolute]⟩
    rw [List.tail_cons] at named
    have nonempty := List.splitOn_ne_nil slash rest
    refine ⟨(rest.splitOn slash).dropLast, (rest.splitOn slash).getLast nonempty,
      fun part member => named part (List.dropLast_subset _ member),
      named _ (List.getLast_mem nonempty), ?_⟩
    rw [List.dropLast_concat_getLast]
    obtain ⟨first, others, split⟩ := List.exists_cons_of_ne_nil nonempty
    rw [split, renderPath_cons, ← split, List.intercalate_splitOn]

instance (path : List UInt8) : Decidable (WellNamed path) :=
  decidable_of_iff _ wellNamed_iff.symm

end FeaturesOS.FileSystem

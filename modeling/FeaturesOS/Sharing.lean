import Mathlib.Data.Set.Basic
import Mathlib.Logic.Function.Basic

/-!
# Entries that share a frame

A table maps slots to words.  A word may name a frame, and it may be writable.
`Fenced` is the state of a table while the entries of one side are handed over to
another side one after the other: no entry that is done is writable and shared.
-/

namespace FeaturesOS.Sharing

variable {Slot Word Frame : Type}

/-- Two slots name the same frame. -/
def Shares (frame : Word → Option Frame) (words : Slot → Word) (x y : Slot) :
    Prop :=
  x ≠ y ∧ ∃ page, frame (words x) = some page ∧ frame (words y) = some page

/-- Every slot is as it was, names nothing or names a frame of its own. -/
def Refreshes (frame : Word → Option Frame) (before after : Slot → Word) :
    Prop :=
  ∀ x, after x = before x ∨ frame (after x) = none ∨
    ∀ y, ¬ Shares frame after x y

/-- What is shared between `own` and `others` is not writable in `own`. -/
def Apart (frame : Word → Option Frame) (writable : Word → Prop)
    (words : Slot → Word) (own others : Set Slot) : Prop :=
  ∀ x ∈ own, ∀ y ∈ others, Shares frame words x y → ¬ writable (words x)

variable {frame : Word → Option Frame} {writable : Word → Prop}
variable {words before after : Slot → Word} {own others : Set Slot}
variable {x y z s : Slot} {word : Word}

theorem Shares.symm (shares : Shares frame words x y) :
    Shares frame words y x := by
  obtain ⟨different, page, atX, atY⟩ := shares
  exact ⟨different.symm, page, atY, atX⟩

theorem Refreshes.refl (words : Slot → Word) : Refreshes frame words words :=
  fun _ => .inl rfl

/-- What is shared afterwards has been shared before. -/
theorem Refreshes.shares (refreshes : Refreshes frame before after)
    (shares : Shares frame after x y) :
    Shares frame before x y ∧ after x = before x ∧ after y = before y := by
  have same : ∀ {x y}, Shares frame after x y → after x = before x := by
    intro x y shares
    rcases refreshes x with same | none | alone
    · exact same
    · obtain ⟨_, page, atX, _⟩ := shares
      cases none.symm.trans atX
    · exact absurd shares (alone y)
  have atX := same shares
  have atY := same shares.symm
  refine ⟨⟨shares.1, ?_⟩, atX, atY⟩
  rw [← atX, ← atY]
  exact shares.2

theorem Refreshes.trans {middle : Slot → Word}
    (first : Refreshes frame before middle)
    (second : Refreshes frame middle after) : Refreshes frame before after := by
  intro x
  rcases second x with same | gone
  · rcases first x with unchanged | none | alone
    · exact .inl (same.trans unchanged)
    · exact .inr (.inl (same ▸ none))
    · refine .inr (.inr fun y shares => ?_)
      exact alone y (second.shares shares).1
  · exact .inr gone

theorem Apart.refresh (apart : Apart frame writable before own others)
    (refreshes : Refreshes frame before after) :
    Apart frame writable after own others := by
  intro x isOwn y isOther shares
  obtain ⟨shared, same, _⟩ := refreshes.shares shares
  rw [same]
  exact apart x isOwn y isOther shared

/-- Words with the same frames of which none has become writable. -/
theorem Apart.lower (apart : Apart frame writable before own others)
    (same : ∀ x, frame (after x) = frame (before x))
    (lowers : ∀ x, writable (after x) → writable (before x)) :
    Apart frame writable after own others := by
  intro x isOwn y isOther shares writes
  obtain ⟨different, page, atX, atY⟩ := shares
  rw [same] at atX atY
  exact apart x isOwn y isOther ⟨different, page, atX, atY⟩ (lowers x writes)

/-- The entries of `done` have been handed over from the parent to the child. -/
structure Fenced (frame : Word → Option Frame) (writable : Word → Prop)
    (words : Slot → Word) (parent child done : Set Slot) : Prop where
  given : Apart frame writable words child parent
  handed : Apart frame writable words done child
  rest : Apart frame writable words done (parent \ done)

section Fenced

variable {parent child done : Set Slot}

theorem Fenced.refresh (fenced : Fenced frame writable before parent child done)
    (refreshes : Refreshes frame before after) :
    Fenced frame writable after parent child done :=
  ⟨fenced.given.refresh refreshes, fenced.handed.refresh refreshes,
    fenced.rest.refresh refreshes⟩

theorem Fenced.lower (fenced : Fenced frame writable before parent child done)
    (same : ∀ x, frame (after x) = frame (before x))
    (lowers : ∀ x, writable (after x) → writable (before x)) :
    Fenced frame writable after parent child done :=
  ⟨fenced.given.lower same lowers, fenced.handed.lower same lowers,
    fenced.rest.lower same lowers⟩

/-- Before the first entry is handed over, the child has none. -/
theorem Fenced.start (empty : ∀ x ∈ child, frame (words x) = none)
    (rest : Apart frame writable words done (parent \ done)) :
    Fenced frame writable words parent child done where
  given := by
    rintro x isChild y _ ⟨_, page, atX, _⟩
    cases (empty x isChild).symm.trans atX
  handed := by
    rintro x _ y isChild ⟨_, page, _, atY⟩
    cases (empty y isChild).symm.trans atY
  rest := rest

/-- The child gets what the parent has in a slot that is not done. -/
theorem Fenced.share [DecidableEq Slot]
    (fenced : Fenced frame writable before parent child done)
    (apart : ∀ x ∈ parent, x ∉ child) (inside : done ⊆ parent)
    (isChild : z ∈ child) (isParent : s ∈ parent) (notDone : s ∉ done)
    (shared : frame word = frame (before s)) (readOnly : ¬ writable word) :
    Fenced frame writable (Function.update before z word) parent child done := by
  have other : ∀ {x}, x ∈ parent → x ≠ z := by
    rintro x isIn rfl
    exact apart x isIn isChild
  have kept : ∀ {x y}, x ≠ z → y ≠ z →
      Shares frame (Function.update before z word) x y →
      Shares frame before x y := by
    rintro x y notX notY ⟨different, page, atX, atY⟩
    rw [Function.update_of_ne notX] at atX
    rw [Function.update_of_ne notY] at atY
    exact ⟨different, page, atX, atY⟩
  constructor
  · intro x isIn y isY shares
    by_cases isZ : x = z
    · subst isZ
      rw [Function.update_self]
      exact readOnly
    · rw [Function.update_of_ne isZ]
      exact fenced.given x isIn y isY (kept isZ (other isY) shares)
  · intro x isIn y isY shares
    have notX := other (inside isIn)
    rw [Function.update_of_ne notX]
    by_cases isZ : y = z
    · subst isZ
      obtain ⟨_, page, atX, atY⟩ := shares
      rw [Function.update_of_ne notX] at atX
      rw [Function.update_self, shared] at atY
      have different : x ≠ s := by
        rintro rfl
        exact notDone isIn
      exact fenced.rest x isIn s ⟨isParent, notDone⟩ ⟨different, page, atX, atY⟩
    · exact fenced.handed x isIn y isY (kept notX isZ shares)
  · intro x isIn y isY shares
    have notX := other (inside isIn)
    rw [Function.update_of_ne notX]
    exact fenced.rest x isIn y isY (kept notX (other isY.1) shares)

/-- A slot that is not writable is done. -/
theorem Fenced.hand (fenced : Fenced frame writable words parent child done)
    (readOnly : ∀ x ∈ own, x ∉ done → ¬ writable (words x)) :
    Fenced frame writable words parent child (done ∪ own) where
  given := fenced.given
  handed := by
    intro x isIn y isY shares
    by_cases before : x ∈ done
    · exact fenced.handed x before y isY shares
    · exact readOnly x (isIn.resolve_left before) before
  rest := by
    intro x isIn y isY shares
    by_cases before : x ∈ done
    · exact fenced.rest x before y
        ⟨isY.1, fun inDone => isY.2 (.inl inDone)⟩ shares
    · exact readOnly x (isIn.resolve_left before) before

end Fenced

end FeaturesOS.Sharing

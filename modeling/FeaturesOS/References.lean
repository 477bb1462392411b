import Mathlib.Data.Fintype.Basic
import Mathlib.Data.Finset.Card

/-!
# Counting references

Finitely many slots, each of which refers to a cell or to none.  The number of
references to a cell follows every update of one slot.
-/

namespace FeaturesOS

variable {Slot Cell : Type*} [Fintype Slot] [DecidableEq Slot]
variable [DecidableEq Cell]

/-- How many slots refer to the cell. -/
def references (target : Slot → Option Cell) (cell : Cell) : Nat :=
  (Finset.univ.filter fun slot => target slot = some cell).card

variable {target : Slot → Option Cell} {slot : Slot} {cell other : Cell}

omit [DecidableEq Slot] in
theorem references_eq_zero :
    references target cell = 0 ↔ ∀ slot, target slot ≠ some cell := by
  unfold references
  rw [Finset.card_eq_zero, Finset.filter_eq_empty_iff]
  simp

omit [DecidableEq Slot] in
theorem references_pos (refers : target slot = some cell) :
    0 < references target cell := by
  apply Nat.pos_of_ne_zero
  intro none
  exact references_eq_zero.mp none slot refers

omit [DecidableEq Slot] in
theorem references_le_one (only : ∀ other, target other = some cell →
    other = slot) : references target cell ≤ 1 := by
  unfold references
  apply Finset.card_le_one.mpr
  intro first atFirst second atSecond
  rw [Finset.mem_filter] at atFirst atSecond
  rw [only first atFirst.2, only second atSecond.2]

/-- A slot that refers to nothing gets a target. -/
theorem references_set (empty : target slot = none) (cell : Cell) :
    references (Function.update target slot (some cell)) =
      Function.update (references target) cell
        (references target cell + 1) := by
  funext other
  unfold references
  by_cases same : other = cell
  · subst same
    rw [Function.update_self]
    have inserted : (Finset.univ.filter fun s =>
        Function.update target slot (some other) s = some other) =
        insert slot (Finset.univ.filter fun s => target s = some other) := by
      ext s
      by_cases isSlot : s = slot
      · simp [isSlot]
      · simp [isSlot]
    rw [inserted, Finset.card_insert_of_notMem (by simp [empty])]
  · rw [Function.update_of_ne same]
    congr 1
    ext s
    by_cases isSlot : s = slot
    · simp [isSlot, empty, Ne.symm same]
    · simp [isSlot]

/-- A slot loses its target. -/
theorem references_clear (refers : target slot = some cell) :
    references (Function.update target slot none) =
      Function.update (references target) cell
        (references target cell - 1) := by
  have restored : Function.update (Function.update target slot none) slot
      (some cell) = target := by
    rw [Function.update_idem, ← refers, Function.update_eq_self]
  have counted := references_set (Function.update_self slot none target) cell
  rw [restored] at counted
  rw [counted, Function.update_self, Function.update_idem,
    Nat.add_sub_cancel, Function.update_eq_self]

/-- A slot gets a target, and loses the one it had. -/
theorem references_move {old : Cell} (refers : target slot = some old)
    (cell : Cell) :
    references (Function.update target slot (some cell)) =
      Function.update
        (Function.update (references target) cell (references target cell + 1))
        old
        (Function.update (references target) cell (references target cell + 1)
          old - 1) := by
  have counted := references_set (Function.update_self slot none target) cell
  rw [Function.update_idem, references_clear refers] at counted
  rw [counted]
  have positive := references_pos refers
  funext other
  by_cases isCell : other = cell
  · subst isCell
    by_cases isOld : other = old
    · subst isOld
      simp only [Function.update_self]
      omega
    · simp [isOld]
  · by_cases isOld : other = old
    · subst isOld
      simp [isCell]
    · simp [isCell, isOld]

end FeaturesOS

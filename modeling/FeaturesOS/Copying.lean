import Mathlib.Data.Nat.Basic
import Mathlib.Tactic.Ring

/-!
# Copying piece by piece

A block of memory is copied in pieces, each of which is read before it is written.
Upwards the result is the one of copying all at once when the target begins in
front of the source or behind its end, and downwards when it begins behind the
source.
-/

namespace FeaturesOS

namespace Copying

variable {Cell : Type*}

/-- The memory after `size` cells have been copied at once. -/
def copy (memory : Nat → Cell) (target source size : Nat) : Nat → Cell :=
  fun address =>
    if target ≤ address ∧ address < target + size then
      memory (source + (address - target))
    else
      memory address

/-- The memory after `size` cells have got values at once. -/
def fill (memory : Nat → Cell) (target size : Nat) (values : Nat → Cell) :
    Nat → Cell :=
  fun address =>
    if target ≤ address ∧ address < target + size then
      values (address - target)
    else
      memory address

/-- Copy `count` pieces of `width` cells one after the other. -/
def copyPieces (width : Nat) (advance : Nat → Nat) :
    Nat → Nat → Nat → (Nat → Cell) → Nat → Cell
  | 0, _, _, memory => memory
  | count + 1, target, source, memory =>
      copyPieces width advance count (advance target) (advance source)
        (copy memory target source width)

/-- Fill `count` pieces of `width` cells one after the other. -/
def fillPieces (width : Nat) (values : Nat → Cell) :
    Nat → Nat → (Nat → Cell) → Nat → Cell
  | 0, _, memory => memory
  | count + 1, target, memory =>
      fillPieces width values count (target + width)
        (fill memory target width values)

variable {memory : Nat → Cell} {target source size width count : Nat}

@[simp] theorem copy_zero : copy memory target source 0 = memory := by
  funext address
  exact if_neg (by omega)

@[simp] theorem fill_zero {values : Nat → Cell} :
    fill memory target 0 values = memory := by
  funext address
  exact if_neg (by omega)

/-- The first piece and then the rest. -/
theorem copy_copy_up (rest : Nat)
    (apart : target ≤ source ∨ source + width + rest ≤ target) :
    copy (copy memory target source width) (target + width) (source + width)
        rest =
      copy memory target source (width + rest) := by
  funext address
  unfold copy
  by_cases inRest : target + width ≤ address ∧ address < target + width + rest
  · have sameCell : source + width + (address - (target + width)) =
        source + (address - target) := by omega
    rw [if_pos inRest, if_neg (by omega), if_pos (by omega), sameCell]
  · rw [if_neg inRest]
    by_cases inFirst : target ≤ address ∧ address < target + width
    · rw [if_pos inFirst, if_pos (by omega)]
    · rw [if_neg inFirst, if_neg (by omega)]

/-- The last piece and then the rest. -/
theorem copy_copy_down (rest : Nat) (behind : source ≤ target) :
    copy (copy memory (target + rest) (source + rest) width) target source
        rest =
      copy memory target source (rest + width) := by
  funext address
  unfold copy
  by_cases inRest : target ≤ address ∧ address < target + rest
  · rw [if_pos inRest, if_neg (by omega), if_pos (by omega)]
  · rw [if_neg inRest]
    by_cases inLast : target + rest ≤ address ∧ address < target + rest + width
    · have sameCell : source + rest + (address - (target + rest)) =
          source + (address - target) := by omega
      rw [if_pos inLast, if_pos (by omega), sameCell]
    · rw [if_neg inLast, if_neg (by omega)]

/-- Upwards, the pieces are a copy of the whole block. -/
theorem copyPieces_up
    (apart : target ≤ source ∨ source + width * count ≤ target) :
    copyPieces width (· + width) count target source memory =
      copy memory target source (width * count) := by
  induction count generalizing target source memory with
  | zero => exact copy_zero.symm
  | succ count induction =>
      have isSum : width * (count + 1) = width + width * count := by ring
      rw [isSum] at apart ⊢
      rw [copyPieces, induction (by omega), copy_copy_up _ (by omega)]

/-- Downwards, the pieces are a copy of the whole block. -/
theorem copyPieces_down (behind : source ≤ target) :
    copyPieces width (· - width) count (target + width * count - width)
        (source + width * count - width) memory =
      copy memory target source (width * count) := by
  induction count generalizing memory with
  | zero => exact copy_zero.symm
  | succ count induction =>
      have isSum : width * (count + 1) = width * count + width := by ring
      have first : ∀ start, start + (width * count + width) - width =
          start + width * count := fun start => by omega
      rw [isSum, first, first, copyPieces, induction, copy_copy_down _ behind]

/-- The pieces fill the whole block with a value that repeats in each of them. -/
theorem fillPieces_eq {value : Cell} {values : Nat → Cell}
    (same : ∀ i < width, values i = value) :
    fillPieces width values count target memory =
      fill memory target (width * count) fun _ => value := by
  induction count generalizing target memory with
  | zero => exact fill_zero.symm
  | succ count induction =>
      have isSum : width * (count + 1) = width + width * count := by ring
      rw [fillPieces, induction, isSum]
      funext address
      unfold fill
      by_cases inRest : target + width ≤ address ∧
          address < target + width + width * count
      · rw [if_pos inRest, if_pos (by omega)]
      · rw [if_neg inRest]
        by_cases inFirst : target ≤ address ∧ address < target + width
        · rw [if_pos inFirst, if_pos (by omega)]
          exact same _ (by omega)
        · rw [if_neg inFirst, if_neg (by omega)]

end Copying

end FeaturesOS

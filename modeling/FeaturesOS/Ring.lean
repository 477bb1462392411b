import Mathlib.Logic.Function.Basic
import Mathlib.Data.List.Nodup
import Mathlib.Data.List.Perm.Basic
import Mathlib.Data.List.Rotate

/-!
# Ring buffers with ever-growing counters

A ring keeps its values in `size` slots.  Its two counters only grow, and the
value of a counter lies in the slot of its remainder.  `contents` is the list
that the ring stands for: pushing appends to it as long as the ring is not full,
and swapping a value to the front and advancing removes that value.
-/

namespace FeaturesOS

universe u

structure Ring (Value : Type u) where
  slots : Nat → Value
  first : Nat
  last : Nat

namespace Ring

variable {Value : Type u}

/-- The counters of the values in the ring. -/
def counters (ring : Ring Value) : List Nat :=
  List.range' ring.first (ring.last - ring.first)

def entry (size : Nat) (ring : Ring Value) (i : Nat) : Value :=
  ring.slots (i % size)

def contents (size : Nat) (ring : Ring Value) : List Value :=
  ring.counters.map (ring.entry size)

def push (size : Nat) (ring : Ring Value) (value : Value) : Ring Value :=
  { ring with
    slots := Function.update ring.slots (ring.last % size) value
    last := ring.last + 1 }

/-- Drop the first value. -/
def advance (ring : Ring Value) : Ring Value :=
  { ring with first := ring.first + 1 }

/-- Exchange the value of the counter `i` with the first one, and drop it. -/
def remove (size : Nat) (ring : Ring Value) (i : Nat) : Ring Value :=
  { ring with
    slots := Function.update
      (Function.update ring.slots (ring.first % size) (ring.slots (i % size)))
      (i % size) (ring.slots (ring.first % size))
    first := ring.first + 1 }

variable {size i : Nat} {ring : Ring Value}

/-- Counters that are less than `size` apart have different slots. -/
theorem eq_of_mod_eq {i j : Nat} (before : i < j + size) (after : j < i + size)
    (same : i % size = j % size) : i = j := by
  have left := Nat.div_add_mod i size
  have right := Nat.div_add_mod j size
  have quotients : i / size = j / size := by
    by_contra different
    rcases Nat.lt_or_gt_of_ne different with less | greater
    · have step := Nat.mul_le_mul_left size less
      rw [Nat.mul_succ] at step
      omega
    · have step := Nat.mul_le_mul_left size greater
      rw [Nat.mul_succ] at step
      omega
  rw [quotients] at left
  omega

theorem mem_counters :
    i ∈ ring.counters ↔ ring.first ≤ i ∧ i < ring.last := by
  rw [counters, List.mem_range'_1]
  omega

theorem length_contents :
    (ring.contents size).length = ring.last - ring.first := by
  simp [contents, counters]

/-- Values at two counters differ when the contents have no duplicates. -/
theorem entry_injective (nodup : (ring.contents size).Nodup) {i j : Nat}
    (isCounter : i ∈ ring.counters) (isCounter' : j ∈ ring.counters)
    (same : ring.entry size i = ring.entry size j) : i = j :=
  List.inj_on_of_nodup_map nodup isCounter isCounter' same

theorem contents_push {value : Value} (ordered : ring.first ≤ ring.last)
    (room : (ring.contents size).length < size) :
    (ring.push size value).contents size = ring.contents size ++ [value] := by
  rw [length_contents] at room
  have counted : (ring.push size value).counters =
      ring.counters ++ [ring.last] := by
    unfold counters push
    rw [show ring.last + 1 - ring.first = ring.last - ring.first + 1 by omega,
      List.range'_concat]
    congr 2
    dsimp only
    omega
  unfold contents
  rw [counted, List.map_append, List.map_singleton]
  congr 1
  · refine List.map_congr_left ?_
    intro i member
    have bounds := mem_counters.mp member
    have different : i % size ≠ ring.last % size := by
      intro same
      have equal := eq_of_mod_eq (by omega) (by omega) same
      omega
    exact Function.update_of_ne different _ _
  · simp [entry, push]

/-- A push into a full ring overwrites the first value. -/
theorem contents_push_full {value : Value}
    (full : (ring.contents size).length = size) (positive : 0 < size) :
    (ring.push size value).contents size =
      (ring.contents size).set 0 value ++ [value] := by
  rw [length_contents] at full
  have counted : (ring.push size value).counters =
      ring.first :: (List.range' (ring.first + 1) (size - 1) ++ [ring.last]) := by
    unfold counters push
    dsimp only
    rw [show ring.last + 1 - ring.first = size - 1 + 1 + 1 by omega,
      List.range'_succ, List.range'_concat,
      show ring.first + 1 + 1 * (size - 1) = ring.last by omega]
  have old : ring.counters =
      ring.first :: List.range' (ring.first + 1) (size - 1) := by
    unfold counters
    rw [show ring.last - ring.first = size - 1 + 1 by omega, List.range'_succ]
  have wraps : ring.first % size = ring.last % size := by
    rw [show ring.last = ring.first + size by omega, Nat.add_mod_right]
  unfold contents
  rw [counted, old, List.map_cons, List.map_append, List.map_singleton,
    List.map_cons, List.set_cons_zero, List.cons_append]
  congr 1
  · simp [entry, push, wraps]
  · congr 1
    · refine List.map_congr_left fun i member => ?_
      have bounds := List.mem_range'_1.mp member
      have different : i % size ≠ ring.last % size := by
        intro same
        have equal := eq_of_mod_eq (by omega) (by omega) same
        omega
      exact Function.update_of_ne different _ _
    · simp [entry, push]

theorem contents_advance (present : ring.first < ring.last) :
    ring.contents size =
      ring.entry size ring.first :: ring.advance.contents size := by
  unfold contents counters advance
  rw [show ring.last - ring.first = ring.last - (ring.first + 1) + 1 by omega,
    List.range'_succ, List.map_cons]
  rfl

/-- What a later counter reads after a removal. -/
theorem entry_remove {j : Nat} (isCounter : i ∈ ring.counters)
    (room : (ring.contents size).length ≤ size) (later : ring.first < j)
    (below : j < ring.last) :
    (ring.remove size i).entry size j =
      if j = i then ring.entry size ring.first else ring.entry size j := by
  rw [length_contents] at room
  have bounds := mem_counters.mp isCounter
  have notFirst : j % size ≠ ring.first % size := by
    intro same
    have equal := eq_of_mod_eq (by omega) (by omega) same
    omega
  unfold entry remove
  split
  · rename_i same
    subst j
    simp
  · rename_i different
    have elsewhere : j % size ≠ i % size := by
      intro same
      exact different (eq_of_mod_eq (by omega) (by omega) same)
    dsimp only
    rw [Function.update_of_ne elsewhere, Function.update_of_ne notFirst]

/-- Drop the value in the place `k` and put the first one there. -/
def moveHead : List Value → Nat → List Value
  | [], _ => []
  | _ :: tail, 0 => tail
  | head :: tail, k + 1 => tail.set k head

theorem moveHead_perm {values : List Value} {k : Nat}
    (below : k < values.length) :
    (values[k] :: moveHead values k).Perm values := by
  cases values with
  | nil => exact absurd below (Nat.not_lt_zero k)
  | cons head tail =>
      cases k with
      | zero => exact List.Perm.refl _
      | succ k =>
          have inTail : k < tail.length := Nat.lt_of_succ_lt_succ below
          have filled := List.set_perm_cons_eraseIdx inTail head
          have whole := List.getElem_cons_eraseIdx_perm inTail
          exact (filled.cons tail[k]).trans
            ((List.Perm.swap _ _ _).trans (whole.cons head))

/-- What stands behind the dropped value stays there. -/
theorem moveHead_append {front back : List Value} {k : Nat}
    (below : k < front.length) :
    moveHead (front ++ back) k = moveHead front k ++ back := by
  cases front with
  | nil => exact absurd below (Nat.not_lt_zero k)
  | cons head tail =>
      cases k with
      | zero => rfl
      | succ k =>
          have inTail : k < tail.length := Nat.lt_of_succ_lt_succ below
          simp only [moveHead, List.cons_append]
          exact List.set_append_left k head inTail

/-- The first value takes the place behind the values in front of the dropped
one. -/
theorem moveHead_length (front back : List Value) (value : Value) :
    moveHead (front ++ value :: back) front.length = front.rotate 1 ++ back := by
  cases front with
  | nil => rfl
  | cons head tail =>
      rw [List.rotate_cons_succ, List.rotate_zero]
      change (tail ++ value :: back).set tail.length head = _
      rw [List.set_append_right _ _ (Nat.le_refl _), Nat.sub_self,
        List.set_cons_zero, List.append_assoc, List.singleton_append]

/-- The values in front of the dropped one are rotated, and those behind it
stay. -/
theorem moveHead_split {values : List Value} {k : Nat}
    (below : k < values.length) :
    ∃ front back, values = front ++ values[k] :: back ∧
      moveHead values k = front.rotate 1 ++ back := by
  have split : values = values.take k ++ values[k] :: values.drop (k + 1) := by
    rw [← List.drop_eq_getElem_cons below, List.take_append_drop]
  have inFront : (values.take k).length = k :=
    List.length_take_of_le (Nat.le_of_lt below)
  refine ⟨values.take k, values.drop (k + 1), split, ?_⟩
  calc
    moveHead values k =
        moveHead (values.take k ++ values[k] :: values.drop (k + 1))
          (values.take k).length := by rw [← split, inFront]
    _ = (values.take k).rotate 1 ++ values.drop (k + 1) :=
        moveHead_length _ _ _

/-- Only a list of equal values is not changed by a rotation. -/
theorem rotate_one_eq_iff {front : List Value} :
    front.rotate 1 = front ↔ ∀ left ∈ front, ∀ right ∈ front, left = right := by
  cases front with
  | nil => simp
  | cons head tail =>
      have _ : Nonempty Value := ⟨head⟩
      rw [List.rotate_one_eq_self_iff_eq_replicate]
      constructor
      · rintro ⟨value, constant⟩ left isLeft right isRight
        rw [constant] at isLeft isRight
        rw [List.eq_of_mem_replicate isLeft, List.eq_of_mem_replicate isRight]
      · intro same
        refine ⟨head, List.eq_replicate_of_mem fun value member => ?_⟩
        exact same value member head List.mem_cons_self

/-- Removing a value from the middle keeps the order of the others, but for the
first one. -/
theorem contents_remove_eq (isCounter : i ∈ ring.counters)
    (room : (ring.contents size).length ≤ size) :
    (ring.remove size i).contents size =
      moveHead (ring.contents size) (i - ring.first) := by
  have bounds := mem_counters.mp isCounter
  have rest : (ring.remove size i).contents size =
      ring.advance.counters.map fun j =>
        if j = i then ring.entry size ring.first else ring.entry size j := by
    refine List.map_congr_left fun j member => ?_
    have inside := mem_counters.mp member
    exact entry_remove isCounter room (Nat.lt_of_succ_le inside.1) inside.2
  rw [rest, contents_advance (by omega)]
  cases place : i - ring.first with
  | zero =>
      refine List.map_congr_left fun j member => ?_
      have inside := (mem_counters.mp member).1
      have different : j ≠ i := by
        simp only [advance] at inside
        omega
      rw [if_neg different]
      rfl
  | succ k =>
      have counted : ring.advance.counters.length =
          ring.last - (ring.first + 1) := by
        simp [counters, advance]
      refine List.ext_getElem ?_ fun j left right => ?_
      · simp [moveHead, contents]
      · rw [List.length_map, counted] at left
        have inside : j < ring.advance.counters.length := by omega
        have later : ring.advance.counters[j] = ring.first + 1 + j := by
          simp [counters, advance]
        simp only [moveHead, contents, List.getElem_map, List.getElem_set,
          later]
        by_cases here : k = j
        · rw [if_pos (by omega), if_pos here]
        · rw [if_neg (by omega), if_neg here]
          rfl

theorem getElem_contents {k : Nat} (below : k < (ring.contents size).length) :
    (ring.contents size)[k] = ring.entry size (ring.first + k) := by
  simp [contents, counters]

end Ring

end FeaturesOS

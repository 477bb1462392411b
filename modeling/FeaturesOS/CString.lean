import Mathlib.Data.List.TakeWhile
import Mathlib.Tactic.Ring

/-!
# C strings and heap blocks

A heap block is the list of its bytes, so its length is the number of bytes
allocated.  A C string is the text that a block holds before its first NUL.
Stores that would fall behind the end of a block are dropped: they leave the
block as it is.
-/

namespace FeaturesOS

namespace CString

/-- The text in front of the first NUL of a block, which is what `strlen`,
`strcmp` and `strcpy` see of it. -/
def text (block : List UInt8) : List UInt8 := block.takeWhile (· != 0)

def strlen (block : List UInt8) : Nat := (text block).length

/-- The block holds a NUL, so a scan for the end of its text stays inside. -/
def Terminated (block : List UInt8) : Prop := 0 ∈ block

instance (block : List UInt8) : Decidable (Terminated block) :=
  inferInstanceAs (Decidable (0 ∈ block))

/-- Store `bytes` from position `offset` on. -/
def overwrite (block : List UInt8) (offset : Nat) (bytes : List UInt8) :
    List UInt8 :=
  (block.take offset ++ bytes ++ block.drop (offset + bytes.length)).take
    block.length

/-- `strcpy (block + offset, source)`. -/
def strcpy (block : List UInt8) (offset : Nat) (source : List UInt8) :
    List UInt8 :=
  overwrite block offset (source ++ [0])

/-- What `realloc` leaves in a block of the new length; `fresh` are the bytes
that the allocator does not initialise. -/
def resize (block : List UInt8) (length : Nat) (fresh : Nat → UInt8) :
    List UInt8 :=
  block.take length ++
    (List.range (length - block.length)).map
      (fun index => fresh (block.length + index))

/-- The zeroed block of `calloc`. -/
def zeros (length : Nat) : List UInt8 := List.replicate length 0

@[simp] theorem length_overwrite (block : List UInt8) (offset : Nat)
    (bytes : List UInt8) :
    (overwrite block offset bytes).length = block.length := by
  simp only [overwrite, List.length_take, List.length_append, List.length_drop]
  omega

@[simp] theorem length_strcpy (block : List UInt8) (offset : Nat)
    (source : List UInt8) :
    (strcpy block offset source).length = block.length :=
  length_overwrite block offset _

@[simp] theorem length_resize (block : List UInt8) (length : Nat)
    (fresh : Nat → UInt8) : (resize block length fresh).length = length := by
  simp only [resize, List.length_append, List.length_take, List.length_map,
    List.length_range]
  omega

@[simp] theorem length_zeros (length : Nat) : (zeros length).length = length :=
  List.length_replicate

theorem overwrite_nil (block : List UInt8) (offset : Nat) :
    overwrite block offset [] = block := by
  simp [overwrite]

/-- A block of no bytes holds no string. -/
theorem strcpy_nil (offset : Nat) (source : List UInt8) :
    strcpy [] offset source = [] := by
  unfold strcpy overwrite
  exact List.take_zero

theorem overwrite_of_fits {block bytes : List UInt8} {offset : Nat}
    (fits : offset + bytes.length ≤ block.length) :
    overwrite block offset bytes =
      block.take offset ++ bytes ++ block.drop (offset + bytes.length) := by
  unfold overwrite
  apply List.take_of_length_le
  simp only [List.length_append, List.length_take, List.length_drop]
  omega

/-- A block that grows or is cut behind its front keeps it. -/
theorem prefix_resize {front block : List UInt8} {length : Nat}
    (isPrefix : front <+: block) (inside : front.length ≤ length)
    (fresh : Nat → UInt8) : front <+: resize block length fresh := by
  obtain ⟨rest, rfl⟩ := isPrefix
  unfold resize
  rw [List.take_append, List.take_of_length_le inside, List.append_assoc]
  exact List.prefix_append front _

theorem prefix_overwrite {front block bytes : List UInt8}
    (isPrefix : front <+: block)
    (fits : front.length + bytes.length ≤ block.length) :
    front ++ bytes <+: overwrite block front.length bytes := by
  rw [overwrite_of_fits fits, ← List.prefix_iff_eq_take.mp isPrefix]
  exact List.prefix_append _ _

/-- The text of a block that starts with a NUL-free text and its terminator. -/
theorem text_append_nul {source : List UInt8} (rest : List UInt8)
    (nulFree : 0 ∉ source) : text (source ++ 0 :: rest) = source := by
  unfold text
  rw [List.takeWhile_append_of_pos]
  · simp
  · intro byte member
    have different : byte ≠ 0 := fun equal => nulFree (equal ▸ member)
    simpa using different

theorem text_nulFree (block : List UInt8) : 0 ∉ text block := by
  intro member
  have nonzero := List.mem_takeWhile_imp member
  simp at nonzero

/-- A terminated block is its text, the terminator and some leftover bytes. -/
theorem eq_text_append_of_terminated {block : List UInt8}
    (terminated : Terminated block) :
    ∃ rest, block = text block ++ 0 :: rest := by
  induction block with
  | nil => simp [Terminated] at terminated
  | cons byte block induction =>
      by_cases zero : byte = 0
      · subst byte
        exact ⟨block, by simp [text]⟩
      · have tail : Terminated block := by
          simpa [Terminated, Ne.symm zero] using terminated
        obtain ⟨rest, equality⟩ := induction tail
        refine ⟨rest, ?_⟩
        have head : text (byte :: block) = byte :: text block := by
          simp [text, zero]
        rw [head, List.cons_append, ← equality]

theorem strlen_lt_length {block : List UInt8} (terminated : Terminated block) :
    strlen block < block.length := by
  obtain ⟨rest, equality⟩ := eq_text_append_of_terminated terminated
  have lengths := congrArg List.length equality
  simp only [List.length_append, List.length_cons] at lengths
  unfold strlen
  omega

theorem strlen_le_length (block : List UInt8) :
    strlen block ≤ block.length :=
  (List.takeWhile_prefix _).length_le

/-- Appending with `strcpy` at the end of the text, when text, source and
terminator fit. -/
theorem strcpy_at_end {block source : List UInt8}
    (fits : strlen block + source.length < block.length) :
    strcpy block (strlen block) source =
      text block ++ source ++
        0 :: block.drop (strlen block + source.length + 1) := by
  have prefixTake : block.take (strlen block) = text block := by
    have isPrefix : text block <+: block := List.takeWhile_prefix _
    exact (List.prefix_iff_eq_take.mp isPrefix).symm
  have room : strlen block + (source ++ [0]).length ≤ block.length := by
    simp only [List.length_append, List.length_cons, List.length_nil]
    omega
  unfold strcpy
  rw [overwrite_of_fits room, prefixTake]
  simp [Nat.add_assoc]

/-- A text and a source that fill the block leave no room for the terminator. -/
theorem strcpy_full {block source : List UInt8}
    (fills : strlen block + source.length = block.length) :
    strcpy block (strlen block) source = text block ++ source := by
  have prefixTake : block.take (strlen block) = text block := by
    have isPrefix : text block <+: block := List.takeWhile_prefix _
    exact (List.prefix_iff_eq_take.mp isPrefix).symm
  have whole : (text block ++ source).length = block.length := by
    rw [List.length_append]
    exact fills
  unfold strcpy overwrite
  rw [prefixTake, ← List.append_assoc, List.append_assoc _ [0]]
  exact List.take_left' whole

theorem text_resize {block : List UInt8} {length : Nat} {fresh : Nat → UInt8}
    (terminated : Terminated block) (grows : block.length ≤ length) :
    text (resize block length fresh) = text block := by
  obtain ⟨rest, equality⟩ := eq_text_append_of_terminated terminated
  unfold resize
  rw [List.take_of_length_le grows]
  generalize List.map _ _ = tail
  rw [equality, List.append_assoc, List.cons_append,
    text_append_nul _ (text_nulFree block), text_append_nul _ (text_nulFree block)]

end CString

end FeaturesOS

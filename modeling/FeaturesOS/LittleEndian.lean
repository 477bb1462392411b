import Mathlib.Data.Nat.Basic
import Mathlib.Tactic.Ring

/-!
# Little-endian records

A fixed-width unsigned value is stored least significant byte first, and a
record is the concatenation of its fields.
-/

namespace FeaturesOS

namespace LittleEndian

/-- The low `width` bytes of a value. -/
def toBytes : Nat → Nat → List UInt8
  | 0, _ => []
  | width + 1, value => UInt8.ofNat value :: toBytes width (value / 256)

def ofBytes : List UInt8 → Nat
  | [] => 0
  | byte :: bytes => byte.toNat + 256 * ofBytes bytes

@[simp] theorem length_toBytes (width value : Nat) :
    (toBytes width value).length = width := by
  induction width generalizing value with
  | zero => rfl
  | succ width induction => simp [toBytes, induction]

theorem ofBytes_toBytes (width value : Nat) :
    ofBytes (toBytes width value) = value % 256 ^ width := by
  induction width generalizing value with
  | zero => simp [toBytes, ofBytes, Nat.mod_one]
  | succ width induction =>
      have head : (UInt8.ofNat value).toNat = value % 256 := by simp
      rw [toBytes, ofBytes, induction, head, Nat.pow_succ', Nat.mod_mul]

/-- The bytes of a record, given as the widths and values of its fields. -/
def encodeFields : List (Nat × Nat) → List UInt8
  | [] => []
  | (width, value) :: fields => toBytes width value ++ encodeFields fields

/-- The field values of a record with the given widths. -/
def decodeFields : List Nat → List UInt8 → List Nat
  | [], _ => []
  | width :: widths, bytes =>
      ofBytes (bytes.take width) :: decodeFields widths (bytes.drop width)

theorem length_encodeFields (fields : List (Nat × Nat)) :
    (encodeFields fields).length = (fields.map Prod.fst).sum := by
  induction fields with
  | nil => rfl
  | cons field fields induction => simp [encodeFields, induction]

theorem encodeFields_append (fields others : List (Nat × Nat)) :
    encodeFields (fields ++ others) =
      encodeFields fields ++ encodeFields others := by
  induction fields with
  | nil => rfl
  | cons field fields induction =>
      rw [List.cons_append, encodeFields, encodeFields, induction,
        List.append_assoc]

theorem decodeFields_encodeFields (fields : List (Nat × Nat))
    (rest : List UInt8) :
    decodeFields (fields.map Prod.fst) (encodeFields fields ++ rest) =
      fields.map (fun field => field.2 % 256 ^ field.1) := by
  induction fields with
  | nil => rfl
  | cons field fields induction =>
      obtain ⟨width, value⟩ := field
      have first :
          (toBytes width value ++ (encodeFields fields ++ rest)).take width =
            toBytes width value :=
        List.take_left' (length_toBytes width value)
      have others :
          (toBytes width value ++ (encodeFields fields ++ rest)).drop width =
            encodeFields fields ++ rest :=
        List.drop_left' (length_toBytes width value)
      simp only [List.map_cons, encodeFields, decodeFields, List.append_assoc,
        first, others, ofBytes_toBytes, induction]

end LittleEndian

end FeaturesOS

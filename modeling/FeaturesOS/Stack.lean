import Mathlib.Data.List.GetD
import FeaturesOS.LittleEndian

/-!
# A stack in byte memory

The addresses have 32 bits and wrap around.  A stack grows downward, and what is
pushed lies below what was there.
-/

namespace FeaturesOS

open LittleEndian

/-- A memory in which every address holds a byte. -/
abbrev Ram := UInt32 → UInt8

namespace Ram

variable {ram : Ram} {address : UInt32} {bytes front back : List UInt8}

/-- The `count` bytes from an address on. -/
def load (ram : Ram) (address : UInt32) (count : Nat) : List UInt8 :=
  (List.range count).map fun i => ram (address + UInt32.ofNat i)

def store (ram : Ram) (address : UInt32) (bytes : List UInt8) : Ram :=
  fun place => bytes.getD (place - address).toNat (ram place)

/-- The little-endian word at an address. -/
def loadWord (ram : Ram) (address : UInt32) : UInt32 :=
  UInt32.ofNat (ofBytes (ram.load address 4))

/-- The little-endian half word at an address. -/
def loadHalf (ram : Ram) (address : UInt32) : UInt16 :=
  UInt16.ofNat (ofBytes (ram.load address 2))

/-- The bytes lie in the memory from an address on. -/
def Holds (ram : Ram) (address : UInt32) (bytes : List UInt8) : Prop :=
  ram.load address bytes.length = bytes

instance (ram : Ram) (address : UInt32) (bytes : List UInt8) :
    Decidable (ram.Holds address bytes) :=
  inferInstanceAs (Decidable (_ = _))

theorem load_add (ram : Ram) (address : UInt32) (count others : Nat) :
    ram.load address (count + others) =
      ram.load address count ++
        ram.load (address + UInt32.ofNat count) others := by
  unfold load
  rw [List.range_add, List.map_append, List.map_map]
  congr 1
  apply List.map_congr_left
  intro i _
  rw [Function.comp_apply, UInt32.ofNat_add, UInt32.add_assoc]

@[simp] theorem length_load (ram : Ram) (address : UInt32) (count : Nat) :
    (ram.load address count).length = count := by
  simp [load]

/-- What two parts of the memory hold one behind the other. -/
theorem holds_append :
    ram.Holds address (front ++ back) ↔
      ram.Holds address front ∧
        ram.Holds (address + UInt32.ofNat front.length) back := by
  unfold Holds
  rw [List.length_append, load_add]
  constructor
  · intro same
    exact List.append_inj same (length_load _ _ _)
  · rintro ⟨first, second⟩
    rw [first, second]

theorem load_congr {other : Ram} {count : Nat}
    (same : ∀ i < count,
      ram (address + UInt32.ofNat i) = other (address + UInt32.ofNat i)) :
    ram.load address count = other.load address count := by
  apply List.map_congr_left
  intro i member
  exact same i (List.mem_range.mp member)

/-- The distance of a place from an address in front of it. -/
theorem toNat_distance (address : UInt32) {i : Nat} (inside : i < 2 ^ 32) :
    (address + UInt32.ofNat i - address).toNat = i := by
  have cancel : address + UInt32.ofNat i - address = UInt32.ofNat i := by
    rw [UInt32.add_comm, UInt32.add_sub_cancel]
  rw [cancel]
  exact UInt32.toNat_ofNat_of_lt' inside

theorem holds_store (ram : Ram) (address : UInt32)
    (short : bytes.length ≤ 2 ^ 32) :
    (ram.store address bytes).Holds address bytes := by
  unfold Holds load
  apply List.ext_getElem
  · simp
  · intro i inside inside'
    rw [List.getElem_map, List.getElem_range, store,
      toNat_distance address (by omega), List.getD_eq_getElem _ _ inside']

/-- A place outside of the stored bytes keeps its byte. -/
theorem store_of_outside (ram : Ram) {place : UInt32}
    (outside : bytes.length ≤ (place - address).toNat) :
    ram.store address bytes place = ram place := by
  rw [store, List.getD_eq_default _ _ outside]

theorem Holds.of_load {other : Ram} (held : ram.Holds address bytes)
    (same : other.load address bytes.length =
      ram.load address bytes.length) : other.Holds address bytes :=
  same.trans held

/-- A push leaves what lies above it. -/
theorem Holds.push (held : ram.Holds address bytes)
    (room : front.length + bytes.length ≤ 2 ^ 32) :
    (ram.store (address - UInt32.ofNat front.length) front).Holds
      (address - UInt32.ofNat front.length) (front ++ bytes) := by
  rw [holds_append]
  refine ⟨holds_store ram _ (by omega), ?_⟩
  rw [UInt32.sub_add_cancel]
  apply held.of_load
  apply load_congr
  intro i inside
  apply store_of_outside
  have distance : address + UInt32.ofNat i -
      (address - UInt32.ofNat front.length) =
        (address - UInt32.ofNat front.length) +
          UInt32.ofNat (front.length + i) -
            (address - UInt32.ofNat front.length) := by
    rw [UInt32.ofNat_add, ← UInt32.add_assoc, UInt32.sub_add_cancel]
  rw [distance, toNat_distance _ (by omega)]
  exact Nat.le_add_right _ _

/-- The value on top of a stack. -/
theorem Holds.ofBytes_load {width value : Nat}
    (held : ram.Holds address (toBytes width value ++ bytes)) :
    ofBytes (ram.load address width) = value % 256 ^ width := by
  have first := (holds_append.mp held).1
  unfold Holds at first
  rw [length_toBytes] at first
  rw [first, ofBytes_toBytes]

theorem Holds.loadWord {word : UInt32}
    (held : ram.Holds address (toBytes 4 word.toNat ++ bytes)) :
    ram.loadWord address = word := by
  have below : word.toNat < 256 ^ 4 := word.toNat_lt
  rw [Ram.loadWord, held.ofBytes_load, Nat.mod_eq_of_lt below]
  exact UInt32.ofNat_toNat

theorem Holds.loadHalf {half : UInt16}
    (held : ram.Holds address (toBytes 2 half.toNat ++ bytes)) :
    ram.loadHalf address = half := by
  have below : half.toNat < 256 ^ 2 := half.toNat_lt
  rw [Ram.loadHalf, held.ofBytes_load, Nat.mod_eq_of_lt below]
  exact UInt16.ofNat_toNat

theorem Holds.atZero (held : ram.Holds address bytes) :
    ram.Holds (address + UInt32.ofNat 0) bytes := by
  change ram.Holds (address + 0) bytes
  rwa [UInt32.add_zero]

/-- What lies behind a field at an offset. -/
theorem Holds.behind {offset width value : Nat}
    (held : ram.Holds (address + UInt32.ofNat offset)
      (toBytes width value ++ bytes)) :
    ram.Holds (address + UInt32.ofNat (offset + width)) bytes := by
  have second := (holds_append.mp held).2
  rwa [length_toBytes, UInt32.add_assoc, ← UInt32.ofNat_add] at second

end Ram

end FeaturesOS

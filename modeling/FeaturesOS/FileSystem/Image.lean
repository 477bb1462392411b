import FeaturesOS.LittleEndian
import FeaturesOS.FileSystem.Superblock

/-!
# The disk image

The byte layout of `inode_t` and the functions `serialize` and `deserialize`.
A write transfers every byte it is asked for; it is refused only for a negative
`int` length, which turns into an oversized `size_t`, and for bytes behind a
NULL pointer.  A read transfers what is left of the file.
-/

namespace FeaturesOS.FileSystem

open CString LittleEndian

def InodeType.code : InodeType → UInt32
  | .file => 0
  | .dir => 1
  | .unnamed code _ => code

def InodeType.ofCode (code : UInt32) : InodeType :=
  if code = 0 then .file
  else if outside : 2 ≤ code.toNat then .unnamed code outside
  else .dir

/-- The widths of the fields behind `path`: the pointer, `size`, `type`, the
three times, the two ids, `permissions` and the padding at the end. -/
def fieldWidths : List Nat := [8, 4, 4, 8, 8, 8, 4, 4, 4, 4]

/-- `sizeof (inode_t)`. -/
def inodeBytes : Nat := 312

/-- The fields behind `path`, for a content buffer at address `pointer`. -/
def Inode.fields (inode : Inode) (pointer : UInt64) : List (Nat × Nat) :=
  [(8, pointer.toNat), (4, inode.size.toUInt32.toNat),
    (4, inode.type.code.toNat), (8, inode.lastAccess.toNat),
    (8, inode.lastModification.toNat), (8, inode.creationTime.toNat),
    (4, inode.group.toNat), (4, inode.owner.toNat),
    (4, inode.permissions.toNat), (4, 0)]

/-- The bytes of an `inode_t`. -/
def Inode.encode (inode : Inode) (pointer : UInt64) : List UInt8 :=
  inode.path.1 ++ encodeFields (inode.fields pointer)

/-- The first `maxPath` bytes of a block, padded with zeros. -/
def PathArray.ofBytes (bytes : List UInt8) : PathArray :=
  ⟨bytes.take maxPath ++ zeros (maxPath - bytes.length), by
    simp only [List.length_append, List.length_take, length_zeros]
    omega⟩

/-- The `inode_t` that a block of `inodeBytes` bytes holds.  The pointer in it
is overwritten by `deserialize`, so `content` is left empty. -/
def Inode.decode (bytes : List UInt8) : Inode :=
  let fields := decodeFields fieldWidths (bytes.drop maxPath)
  { path := PathArray.ofBytes bytes
    content := []
    size := (UInt32.ofNat (fields.getD 1 0)).toInt32
    type := InodeType.ofCode (UInt32.ofNat (fields.getD 2 0))
    lastAccess := UInt64.ofNat (fields.getD 3 0)
    lastModification := UInt64.ofNat (fields.getD 4 0)
    creationTime := UInt64.ofNat (fields.getD 5 0)
    group := UInt32.ofNat (fields.getD 6 0)
    owner := UInt32.ofNat (fields.getD 7 0)
    permissions := UInt32.ofNat (fields.getD 8 0) }

theorem InodeType.ofCode_code (type : InodeType) :
    InodeType.ofCode type.code = type := by
  cases type with
  | file => rfl
  | dir => rfl
  | unnamed code outside =>
      have nonzero : code ≠ 0 := by
        rintro rfl
        simp at outside
      simp [InodeType.ofCode, InodeType.code, nonzero, outside]

theorem length_encode (inode : Inode) (pointer : UInt64) :
    (inode.encode pointer).length = inodeBytes := by
  rw [Inode.encode, List.length_append, inode.path.2, length_encodeFields]
  rfl

/-- A stored `inode_t` is read back with all its fields except the pointer. -/
theorem Inode.decode_encode (inode : Inode) (pointer : UInt64) :
    Inode.decode (inode.encode pointer) = { inode with content := [] } := by
  have front : (inode.encode pointer).take maxPath = inode.path.1 :=
    List.take_left' inode.path.2
  have back :
      (inode.encode pointer).drop maxPath =
        encodeFields (inode.fields pointer) :=
    List.drop_left' inode.path.2
  have path : PathArray.ofBytes (inode.encode pointer) = inode.path := by
    apply Subtype.ext
    change List.take maxPath _ ++ zeros _ = inode.path.1
    rw [front, length_encode]
    exact List.append_nil _
  have decoded :
      decodeFields fieldWidths (encodeFields (inode.fields pointer)) =
        (inode.fields pointer).map (fun field => field.2 % 256 ^ field.1) := by
    have widths : (inode.fields pointer).map Prod.fst = fieldWidths := rfl
    rw [← widths]
    simpa using decodeFields_encodeFields (inode.fields pointer) []
  have narrow (value : UInt32) : value.toNat % 256 ^ 4 = value.toNat :=
    Nat.mod_eq_of_lt value.toNat_lt
  have wide (value : UInt64) : value.toNat % 256 ^ 8 = value.toNat :=
    Nat.mod_eq_of_lt value.toNat_lt
  unfold Inode.decode
  simp only [path, back, decoded]
  simp only [Inode.fields, List.map_cons, List.map_nil, narrow, wide,
    List.getD_cons_succ, List.getD_cons_zero, UInt32.ofNat_toNat,
    UInt64.ofNat_toNat, InodeType.ofCode_code]
  rfl

/-- The recorded size is a length that the content buffer has.  It is not when
the size has wrapped around or when a failed allocation has left NULL. -/
def Inode.Backed (inode : Inode) : Prop :=
  0 ≤ inode.size.toInt ∧ inode.size.toInt ≤ inode.content.length

instance (inode : Inode) : Decidable inode.Backed :=
  inferInstanceAs (Decidable (_ ∧ _))

/-- The two writes of one round of `serialize`. -/
def Inode.record (inode : Inode) (pointer : UInt64) : List UInt8 :=
  inode.encode pointer ++ inode.content.take inode.size.toInt.toNat

namespace Superblock

/-- The writing loop of `serialize` from slot `index` on, for at most `fuel`
slots.  A refused write ends the loop. -/
def serializeFrom (superblock : Superblock) (pointers : Nat → UInt64) :
    Nat → Nat → List UInt8
  | 0, _ => []
  | fuel + 1, index =>
      let inode := superblock.inodes index
      if superblock.inodeBitmap index then
        if inode.Backed then
          inode.record (pointers index) ++
            superblock.serializeFrom pointers fuel (index + 1)
        else
          inode.encode (pointers index)
      else
        superblock.serializeFrom pointers fuel (index + 1)

/-- `serialize`: the bytes that it writes to the truncated disk file.  The loop
runs over the slots below `inode_amount`. -/
def serialize (superblock : Superblock) (pointers : Nat → UInt64) :
    List UInt8 :=
  toBytes 4 superblock.inodeAmount.toUInt32.toNat ++
    superblock.serializeFrom pointers superblock.inodeAmount.toInt.toNat 0

end Superblock

/-- What the loading loop leaves: the table, the number of rounds that ended
well and whether it stopped on an error. -/
structure Loaded where
  superblock : Superblock
  rounds : Nat
  failed : Bool

namespace Superblock

/-- The loading loop of `deserialize` from slot `index` on, with `fuel` rounds
left before `inodes_amount` is reached.  A short `inode_t` overwrites only the
front of the slot. -/
def deserializeFrom (ambient : Ambient) :
    Nat → Superblock → Nat → List UInt8 → Loaded
  | 0, superblock, index, _ => ⟨superblock, index, false⟩
  | fuel + 1, superblock, index, file =>
      let header := file.take inodeBytes
      if header = [] then
        ⟨superblock, index, false⟩
      else
        let slot := (superblock.inodes index).encode 0
        let inode := Inode.decode (header ++ slot.drop header.length)
        let rest := file.drop inodeBytes
        match calloc ambient inode.size.toInt with
        | none => ⟨superblock.setInode index inode, index, true⟩
        | some buffer =>
            let length := inode.size.toInt.toNat
            let content := overwrite buffer 0 (rest.take length)
            let loaded := superblock.setInode index { inode with content }
            deserializeFrom ambient fuel (loaded.setBitmap index true)
              (index + 1) (rest.drop length)

/-- `deserialize`.  After an error the buffers of the slots below `rounds` are
freed and `inode_amount` is reset; the bitmap is not. -/
def deserialize (superblock : Superblock) (ambient : Ambient)
    (file : List UInt8) : Loaded :=
  let header := toBytes 4 0
  let amount :=
    (UInt32.ofNat
      (ofBytes (file.take 4 ++ header.drop (file.take 4).length))).toInt32
  let loaded :=
    deserializeFrom ambient amount.toInt.toNat
      { superblock with inodeAmount := amount } 0 (file.drop 4)
  if loaded.failed then
    { loaded with superblock := { loaded.superblock with inodeAmount := 0 } }
  else
    loaded

end Superblock

end FeaturesOS.FileSystem

import Mathlib.Tactic.IntervalCases
import FeaturesOS.FileSystem.Table

/-!
# The contents of a file

What `fisopfs_read`, `fisopfs_write` and `fisopfs_truncate` do to the bytes of a
file, next to what reading, writing and truncating a list of bytes is.  Each of
the three has a law, and each handler keeps its law on a part of its inputs only.
-/

namespace FeaturesOS.FileSystem

open CString

/-! ## Files as lists of bytes -/

/-- The bytes of a file after `buffer` has been written at `offset`. -/
def written (data buffer : List UInt8) (offset : Nat) : List UInt8 :=
  data.take offset ++ zeros (offset - data.length) ++ buffer ++
    data.drop (offset + buffer.length)

/-- The bytes of a file that has been given the length `size`. -/
def truncated (data : List UInt8) (size : Nat) : List UInt8 :=
  data.take size ++ zeros (size - data.length)

/-- The `size` bytes of a file from `offset` on, as far as there are so many. -/
def readFrom (data : List UInt8) (size offset : Nat) : List UInt8 :=
  (data.drop offset).take size

/-- The inode is a regular file with the bytes `data`. -/
structure Inode.Contains (inode : Inode) (data : List UInt8) : Prop where
  isFile : inode.type = .file
  size : inode.size.toInt = data.length
  content : data <+: inode.content

variable {data buffer content : List UInt8} {size offset : Nat}

section Bytes

variable {i : Nat}

theorem length_written :
    (written data buffer offset).length =
      max data.length (offset + buffer.length) := by
  simp only [written, List.length_append, List.length_take, List.length_drop,
    length_zeros]
  omega

/-- The bytes of the range are those of the buffer. -/
theorem written_inside (inside : i < buffer.length) :
    (written data buffer offset)[offset + i]? = buffer[i]? := by
  have front : (data.take offset ++ zeros (offset - data.length)).length =
      offset := by
    simp only [List.length_append, List.length_take, length_zeros]
    omega
  unfold written
  rw [List.append_assoc, List.getElem?_append_right (by omega), front,
    Nat.add_sub_cancel_left, List.getElem?_append_left inside]

/-- The bytes between the end of the file and the range are zero. -/
theorem written_gap (behind : data.length ≤ i) (before : i < offset) :
    (written data buffer offset)[i]? = some 0 := by
  have short : (data.take offset).length = data.length := by
    rw [List.length_take]
    omega
  have inside : i - data.length < offset - data.length := by omega
  have front : i < (data.take offset ++ zeros (offset - data.length)).length := by
    simp only [List.length_append, length_zeros]
    omega
  unfold written
  rw [List.append_assoc, List.getElem?_append_left front,
    List.getElem?_append_right (by omega), short, zeros,
    List.getElem?_replicate, if_pos inside]

/-- The other bytes stay as they are. -/
theorem written_outside (inside : i < data.length)
    (outside : i < offset ∨ offset + buffer.length ≤ i) :
    (written data buffer offset)[i]? = data[i]? := by
  rcases outside with before | behind
  · have front : i < (data.take offset).length := by
      rw [List.length_take]
      omega
    unfold written
    rw [List.append_assoc, List.append_assoc, List.getElem?_append_left front,
      List.getElem?_take_of_lt before]
  · have front : (data.take offset ++ zeros (offset - data.length) ++
        buffer).length = offset + buffer.length := by
      simp only [List.length_append, List.length_take, length_zeros]
      omega
    unfold written
    rw [List.getElem?_append_right (by omega), front, List.getElem?_drop]
    congr 1
    omega

theorem length_truncated : (truncated data size).length = size := by
  simp only [truncated, List.length_append, List.length_take, length_zeros]
  omega

theorem length_readFrom :
    (readFrom data size offset).length = min size (data.length - offset) := by
  simp only [readFrom, List.length_take, List.length_drop]

end Bytes

namespace Inode.Contains

variable {file : Inode}

theorem length_lt (contains : file.Contains data) : data.length < 2 ^ 31 := by
  have bound := Int32.toInt_lt file.size
  rw [contains.size] at bound
  omega

theorem asSize_eq (contains : file.Contains data) :
    asSize file.size = data.length := by
  unfold asSize
  rw [contains.size, if_neg (by omega)]

end Inode.Contains

namespace Superblock

variable {superblock : Superblock} {path : List UInt8}

/-- The path is that of a live file with the bytes `data`. -/
def HasFile (superblock : Superblock) (path data : List UInt8) : Prop :=
  ∃ index, superblock.searchInode path = some index ∧
    (superblock.inodes index).Contains data

theorem hasFile_setInode {index : Nat} {inode : Inode}
    (found : superblock.searchInode path = some index)
    (same : inode.path = (superblock.inodes index).path) :
    (superblock.setInode index inode).HasFile path data ↔
      inode.Contains data := by
  unfold HasFile
  rw [searchInode_setInode path same, found]
  constructor
  · rintro ⟨other, isIndex, contains⟩
    cases isIndex
    rwa [setInode_inodes_self] at contains
  · intro contains
    refine ⟨index, rfl, ?_⟩
    rwa [setInode_inodes_self]

/-! ### A file of four bytes -/

/-- The path `/f`. -/
def filePath : AbsolutePath :=
  ⟨[slash, 102], by decide, by decide⟩

/-- `/f` has been created and written. -/
def smallFile : Superblock :=
  .calls .generous [.create filePath 420, .write filePath [1, 2, 3, 4] 0]

theorem reachable_smallFile :
    (session .generous).Reachable Machine.Unrestricted smallFile :=
  reachable_calls (fun _ _ => True) (fun _ _ _ => trivial)
    ⟨trivial, trivial, trivial⟩

theorem searchInode_smallFile :
    smallFile.searchInode filePath.bytes = some 1 := by
  unfold searchInode
  decide +kernel

theorem contains_smallFile :
    (smallFile.inodes 1).Contains [1, 2, 3, 4] := by
  constructor
  · decide +kernel
  · decide +kernel
  · have content : (smallFile.inodes 1).content = [1, 2, 3, 4] := by
      decide +kernel
    exact content ▸ List.prefix_rfl

theorem hasFile_smallFile :
    smallFile.HasFile filePath.bytes [1, 2, 3, 4] :=
  ⟨1, searchInode_smallFile, contains_smallFile⟩

/-! ## Reading -/

/-- `fisopfs_read` returns the number of the bytes that are there, stores these
bytes and copies nothing else. -/
structure Reads (superblock : Superblock) (ambient : Ambient)
    (path data : List UInt8) (size offset : Nat) : Prop where
  result : (superblock.fisopfsRead ambient path size offset).2.1 =
    (readFrom data size offset).length
  stored : (superblock.fisopfsRead ambient path size offset).2.2 =
    readFrom data size offset
  inside : ∀ index, superblock.searchInode path = some index →
    readCount (superblock.inodes index) size offset = 0 ∨
      offset + readCount (superblock.inodes index) size offset ≤ data.length

/-- The clamp keeps inside of the file exactly when the offset is not behind its
end and the end of the request does not wrap around. -/
theorem readCount_inside {file : Inode} (contains : file.Contains data)
    (signed : offset < 2 ^ 63) (sized : size < 2 ^ 64) :
    (readCount file size offset = 0 ∨
        offset + readCount file size offset ≤ data.length) ↔
      offset ≤ data.length ∧ offset + size < 2 ^ 64 := by
  have bound := contains.length_lt
  unfold readCount
  rw [contains.asSize_eq, contains.size]
  split <;> omega

theorem readCount_eq {file : Inode} (contains : file.Contains data)
    (before : offset ≤ data.length) (fits : offset + size < 2 ^ 64) :
    readCount file size offset = min size (data.length - offset) := by
  have bound := contains.length_lt
  unfold readCount
  rw [contains.asSize_eq, contains.size]
  split <;> omega

theorem readFrom_of_prefix (isPrefix : data <+: content)
    (before : offset ≤ data.length) :
    (content.drop offset).take (min size (data.length - offset)) =
      readFrom data size offset := by
  obtain ⟨rest, rfl⟩ := isPrefix
  have short : min size (data.length - offset) ≤ (data.drop offset).length := by
    rw [List.length_drop]
    omega
  rw [List.drop_append_of_le_length before, List.take_append_of_le_length short]
  unfold readFrom
  rw [List.take_eq_take_iff, List.length_drop]
  omega

/-- The law of `fisopfs_read` holds up to the end of the file. -/
theorem reads_iff (hasFile : superblock.HasFile path data) (ambient : Ambient)
    (signed : offset < 2 ^ 63) (sized : size < 2 ^ 64) :
    superblock.Reads ambient path data size offset ↔
      offset ≤ data.length ∧ offset + size < 2 ^ 64 := by
  obtain ⟨index, found, contains⟩ := hasFile
  constructor
  · intro reads
    exact (readCount_inside contains signed sized).mp (reads.inside index found)
  · rintro ⟨before, fits⟩
    have count := readCount_eq contains before fits
    have isFile : ¬ (superblock.inodes index).type ≠ .file :=
      not_not_intro contains.isFile
    have reads : superblock.fisopfsRead ambient path size offset =
        (superblock.setInode index
            { superblock.inodes index with lastAccess := ambient.now },
          (Int32.ofInt
            (min size (data.length - offset) : Nat)).toInt,
          ((superblock.inodes index).content.drop offset).take
            (min size (data.length - offset))) := by
      unfold fisopfsRead
      rw [found]
      dsimp only
      rw [if_neg isFile, count]
    refine ⟨?_, ?_, ?_⟩
    · have bound := contains.length_lt
      rw [reads, length_readFrom]
      exact Int32.toInt_ofInt_of_le (by omega) (by omega)
    · rw [reads]
      exact readFrom_of_prefix contains.content before
    · intro other foundOther
      rw [found] at foundOther
      cases foundOther
      exact (readCount_inside contains signed sized).mpr ⟨before, fits⟩

theorem reads_smallFile :
    smallFile.Reads .generous filePath.bytes [1, 2, 3, 4] 10 1 :=
  (reads_iff hasFile_smallFile .generous (by decide) (by decide)).mpr
    ⟨by decide, by decide⟩

/-- One byte behind the end of the file. -/
theorem not_reads_behind_end :
    (session .generous).Reachable Machine.Unrestricted smallFile ∧
      smallFile.HasFile filePath.bytes [1, 2, 3, 4] ∧
      ¬ smallFile.Reads .generous filePath.bytes [1, 2, 3, 4] 1 5 := by
  refine ⟨reachable_smallFile, hasFile_smallFile, ?_⟩
  intro reads
  have inside := reads.inside 1 searchInode_smallFile
  have count : readCount (smallFile.inodes 1) 1 5 = 2 ^ 64 - 1 := by
    decide +kernel
  rw [count] at inside
  revert inside
  decide

/-! ## Writing -/

/-- `fisopfs_write` returns the number of bytes, writes them into the file and
leaves the other inodes alone. -/
structure Writes (superblock : Superblock) (ambient : Ambient)
    (path data buffer : List UInt8) (offset : Nat) : Prop where
  result : (superblock.fisopfsWrite ambient path buffer offset).2 =
    buffer.length
  hasFile : (superblock.fisopfsWrite ambient path buffer offset).1.HasFile path
    (written data buffer offset)
  others : ∀ index, superblock.searchInode path ≠ some index →
    ((superblock.fisopfsWrite ambient path buffer offset).1.inodes
        index).content = (superblock.inodes index).content ∧
      ((superblock.fisopfsWrite ambient path buffer offset).1.inodes
        index).size = (superblock.inodes index).size

/-- The buffer has room for the range behind what the file keeps in front of
it. -/
theorem exists_growForWrite {file : Inode} {ambient : Ambient}
    (contains : file.Contains data)
    (granted : ambient.grants (offset + buffer.length) = true) :
    ∃ content, growForWrite ambient file buffer.length offset = some content ∧
      (data.length ≤ offset + buffer.length →
        offset + buffer.length ≤ content.length ∧
        data.take offset ++ zeros (offset - data.length) <+: content) := by
  have longer := contains.content.length_le
  unfold growForWrite
  rw [contains.asSize_eq, contains.size]
  split
  · rename_i grows
    have possible : (0 : Int) < offset + buffer.length ∧
        ambient.grants (offset + buffer.length : Int).toNat = true :=
      ⟨by omega, granted⟩
    unfold realloc
    rw [if_pos possible, Option.map_some]
    refine ⟨_, rfl, fun _ => ?_⟩
    have length : (offset + buffer.length : Int).toNat =
        offset + buffer.length := rfl
    rw [length, Int.toNat_natCast]
    have grown : data <+: resize file.content (offset + buffer.length)
        ambient.fresh :=
      prefix_resize contains.content (by omega) ambient.fresh
    split
    · rename_i gap
      refine ⟨by simp, ?_⟩
      rw [List.take_of_length_le (by omega)]
      refine prefix_overwrite grown ?_
      simp only [length_zeros, length_resize]
      omega
    · refine ⟨by simp, ?_⟩
      have noGap : offset - data.length = 0 := by omega
      rw [noGap]
      simp only [zeros, List.replicate_zero, List.append_nil]
      exact (List.take_prefix offset data).trans grown
  · refine ⟨_, rfl, fun ends => ?_⟩
    have noGap : offset - data.length = 0 := by omega
    rw [noGap]
    simp only [zeros, List.replicate_zero, List.append_nil]
    exact ⟨by omega, (List.take_prefix offset data).trans contains.content⟩

theorem written_prefix
    (front : data.take offset ++ zeros (offset - data.length) <+: content)
    (long : offset + buffer.length ≤ content.length)
    (ends : data.length ≤ offset + buffer.length) :
    written data buffer offset <+: overwrite content offset buffer := by
  have length : (data.take offset ++ zeros (offset - data.length)).length =
      offset := by
    simp only [List.length_append, List.length_take, length_zeros]
    omega
  have fits : data.take offset ++ zeros (offset - data.length) ++ buffer <+:
      overwrite content
        (data.take offset ++ zeros (offset - data.length)).length buffer :=
    prefix_overwrite front (by omega)
  rw [length] at fits
  unfold written
  rw [List.drop_of_length_le ends, List.append_nil]
  exact fits

/-- What `fisopfs_write` leaves of a file, and what it returns. -/
theorem fisopfsWrite_eq {ambient : Ambient} {index : Nat}
    (found : superblock.searchInode path = some index)
    (isFile : (superblock.inodes index).type = .file)
    (grown : growForWrite ambient (superblock.inodes index) buffer.length
      offset = some content)
    (fits : offset + buffer.length < 2 ^ 31) :
    ∃ inode, superblock.fisopfsWrite ambient path buffer offset =
        (superblock.setInode index inode, (buffer.length : Int)) ∧
      inode.path = (superblock.inodes index).path ∧
      inode.type = .file ∧
      inode.size.toInt = offset + buffer.length ∧
      inode.content = overwrite content offset buffer := by
  refine ⟨{ superblock.inodes index with
    content := overwrite content offset buffer
    size := Int32.ofInt (offset + buffer.length)
    lastModification := ambient.now }, ?_, rfl, isFile, ?_, rfl⟩
  · have result : (Int32.ofInt buffer.length).toInt = buffer.length :=
      Int32.toInt_ofInt_of_le (by omega) (by omega)
    unfold fisopfsWrite
    rw [found]
    dsimp only
    rw [if_neg (not_not_intro isFile), grown]
    dsimp only
    rw [result]
  · exact Int32.toInt_ofInt_of_le (by omega) (by omega)

/-- The law of `fisopfs_write` holds when the range does not end inside the
file. -/
theorem writes_iff {ambient : Ambient} (hasFile : superblock.HasFile path data)
    (fits : offset + buffer.length < 2 ^ 31)
    (granted : ambient.grants (offset + buffer.length) = true) :
    superblock.Writes ambient path data buffer offset ↔
      data.length ≤ offset + buffer.length := by
  obtain ⟨index, found, contains⟩ := hasFile
  obtain ⟨content, grown, room⟩ := exists_growForWrite contains granted
  obtain ⟨inode, writes, samePath, isFile, size, isContent⟩ :=
    fisopfsWrite_eq found contains.isFile grown fits
  constructor
  · intro law
    have holds := law.hasFile
    rw [writes] at holds
    have recorded := ((hasFile_setInode found samePath).mp holds).size
    rw [size, length_written] at recorded
    omega
  · intro ends
    obtain ⟨long, front⟩ := room ends
    refine ⟨?_, ?_, ?_⟩
    · rw [writes]
    · rw [writes]
      refine (hasFile_setInode found samePath).mpr ⟨isFile, ?_, ?_⟩
      · rw [size, length_written]
        omega
      · rw [isContent]
        exact written_prefix front long ends
    · intro other different
      have elsewhere : other ≠ index := by
        rintro rfl
        exact different found
      rw [writes, setInode_inodes_of_ne _ _ elsewhere]
      exact ⟨rfl, rfl⟩

theorem writes_smallFile :
    smallFile.Writes .generous filePath.bytes [1, 2, 3, 4] [5, 6] 6 :=
  (writes_iff hasFile_smallFile (by decide) rfl).mpr (by decide)

/-- The first byte of the file. -/
theorem not_writes_in_middle :
    (session .generous).Reachable Machine.Unrestricted smallFile ∧
      smallFile.HasFile filePath.bytes [1, 2, 3, 4] ∧
      ¬ smallFile.Writes .generous filePath.bytes [1, 2, 3, 4] [5] 0 := by
  refine ⟨reachable_smallFile, hasFile_smallFile, ?_⟩
  intro writes
  obtain ⟨content, grown, -⟩ : ∃ content,
      growForWrite .generous (smallFile.inodes 1) [5].length 0 = some content ∧
        _ := exists_growForWrite contains_smallFile rfl
  obtain ⟨inode, same, samePath, -, size, -⟩ :=
    fisopfsWrite_eq searchInode_smallFile contains_smallFile.isFile grown
      (by decide)
  have holds := writes.hasFile
  rw [same] at holds
  have recorded :=
    ((hasFile_setInode searchInode_smallFile samePath).mp holds).size
  rw [size, length_written] at recorded
  revert recorded
  decide

/-! ## Truncating -/

/-- The index of the reallocated buffer at which `fisopfs_truncate` stores a
NUL. -/
def truncateStore (inode : Inode) (size : Nat) : Option Nat :=
  if size ≠ 0 ∧ inode.size.toInt > size then some size else none

/-- `fisopfs_truncate` changed nothing and says so. -/
structure Refuses (superblock : Superblock) (ambient : Ambient)
    (path : List UInt8) (size : Nat) : Prop where
  result : (superblock.fisopfsTruncate ambient path size).2 < 0
  unchanged : ∀ index, superblock.searchInode path = some index →
    ((superblock.fisopfsTruncate ambient path size).1.inodes index).content =
        (superblock.inodes index).content ∧
      ((superblock.fisopfsTruncate ambient path size).1.inodes index).size =
        (superblock.inodes index).size

/-- `fisopfs_truncate` gave the file the length `size`, and it has stored into
its buffer only. -/
structure Truncates (superblock : Superblock) (ambient : Ambient)
    (path data : List UInt8) (size : Nat) : Prop where
  result : (superblock.fisopfsTruncate ambient path size).2 = 0
  hasFile : (superblock.fisopfsTruncate ambient path size).1.HasFile path
    (truncated data size)
  inside : ∀ index, superblock.searchInode path = some index →
    ∀ i, truncateStore (superblock.inodes index) size = some i →
      i < ((superblock.fisopfsTruncate ambient path size).1.inodes
        index).content.length

/-- The allocation is granted, the file does not shrink, and the bytes that it
gains are zero already; or it is refused to a file whose buffer is empty. -/
def TruncatesWell (ambient : Ambient) (file : Inode) (size : Nat) : Prop :=
  size ≠ 0 ∧
    if ambient.grants size = true then
      file.size.toInt ≤ size ∧
        ∀ i : Nat, file.size.toInt ≤ i → i < size →
          (resize file.content size ambient.fresh)[i]? = some 0
    else
      file.content = []

/-- The first allocation of `fisopfs_truncate` to the length zero. -/
theorem fisopfsTruncate_zero (ambient : Ambient) {index : Nat}
    (found : superblock.searchInode path = some index)
    (isFile : (superblock.inodes index).type = .file) :
    ∃ inode, superblock.fisopfsTruncate ambient path 0 =
        (superblock.setInode index inode, 0) ∧
      inode.path = (superblock.inodes index).path ∧
      inode.size = Int32.ofNat initialContentLength := by
  refine ⟨{ superblock.inodes index with
    content := (calloc ambient initialContentLength).getD []
    size := Int32.ofNat initialContentLength
    lastModification := ambient.now }, ?_, rfl, rfl⟩
  unfold fisopfsTruncate
  rw [found]
  dsimp only
  rw [if_neg (not_not_intro isFile), if_pos rfl]

theorem fisopfsTruncate_refused {ambient : Ambient} {index : Nat}
    (found : superblock.searchInode path = some index)
    (isFile : (superblock.inodes index).type = .file) (nonzero : size ≠ 0)
    (refused : ambient.grants size ≠ true) :
    superblock.fisopfsTruncate ambient path size =
      (superblock.setInode index
        { superblock.inodes index with content := [] }, -enomem) := by
  have none : realloc ambient (superblock.inodes index).content size =
      none := by
    unfold realloc
    exact if_neg fun granted => refused granted.2
  unfold fisopfsTruncate
  rw [found]
  dsimp only
  rw [if_neg (not_not_intro isFile), if_neg nonzero, none]

theorem fisopfsTruncate_granted {ambient : Ambient} {index : Nat}
    (found : superblock.searchInode path = some index)
    (isFile : (superblock.inodes index).type = .file) (nonzero : size ≠ 0)
    (granted : ambient.grants size = true) (fits : size < 2 ^ 31) :
    ∃ inode, superblock.fisopfsTruncate ambient path size =
        (superblock.setInode index inode, 0) ∧
      inode.path = (superblock.inodes index).path ∧
      inode.type = .file ∧
      inode.size.toInt = size ∧
      inode.content.length = size ∧
      ((superblock.inodes index).size.toInt ≤ size → inode.content =
        resize (superblock.inodes index).content size ambient.fresh) := by
  have some : realloc ambient (superblock.inodes index).content size =
      some (resize (superblock.inodes index).content size ambient.fresh) := by
    have positive : (0 : Int) < size := by omega
    unfold realloc
    exact if_pos ⟨positive, granted⟩
  refine ⟨{ superblock.inodes index with
    content :=
      if (superblock.inodes index).size.toInt > size then
        overwrite
          (resize (superblock.inodes index).content size ambient.fresh) size [0]
      else resize (superblock.inodes index).content size ambient.fresh
    size := Int32.ofInt size
    lastModification := ambient.now }, ?_, rfl, isFile, ?_, ?_, ?_⟩
  · unfold fisopfsTruncate
    rw [found]
    dsimp only
    rw [if_neg (not_not_intro isFile), if_neg nonzero, some]
  · exact Int32.toInt_ofInt_of_le (by omega) (by omega)
  · dsimp only
    split <;> simp
  · intro grows
    dsimp only
    rw [if_neg (by omega)]

/-- The bytes of a file that has grown. -/
theorem truncated_prefix_iff {file : Inode} {ambient : Ambient}
    (contains : file.Contains data) (grows : data.length ≤ size) :
    truncated data size <+: resize file.content size ambient.fresh ↔
      ∀ i : Nat, file.size.toInt ≤ i → i < size →
        (resize file.content size ambient.fresh)[i]? = some 0 := by
  have front : data <+: resize file.content size ambient.fresh :=
    prefix_resize contains.content grows ambient.fresh
  obtain ⟨back, whole⟩ := front
  have length : back.length = size - data.length := by
    have lengths := congrArg List.length whole
    rw [List.length_append, length_resize] at lengths
    omega
  unfold truncated
  rw [contains.size, ← whole, List.take_of_length_le grows,
    List.prefix_append_right_inj]
  constructor
  · rintro ⟨rest, isBack⟩ i behind inside
    have zero : i - data.length < (zeros (size - data.length)).length := by
      rw [length_zeros]
      omega
    rw [List.getElem?_append_right (by omega), ← isBack,
      List.getElem?_append_left zero, zeros, List.getElem?_replicate,
      if_pos (by omega)]
  · intro isZero
    have same : back = zeros (size - data.length) := by
      apply List.ext_getElem?
      intro i
      unfold zeros
      rw [List.getElem?_replicate]
      split
      · rename_i inside
        have there := isZero (data.length + i) (by omega) (by omega)
        rwa [List.getElem?_append_right (by omega),
          Nat.add_sub_cancel_left] at there
      · exact List.getElem?_eq_none (by omega)
    exact same ▸ List.prefix_rfl

/-- The law of `fisopfs_truncate` holds when the file keeps its bytes and the
allocator happens to hand out zeros. -/
theorem truncates_iff {ambient : Ambient} {index : Nat}
    (found : superblock.searchInode path = some index)
    (contains : (superblock.inodes index).Contains data)
    (fits : size < 2 ^ 31) :
    superblock.Refuses ambient path size ∨
        superblock.Truncates ambient path data size ↔
      TruncatesWell ambient (superblock.inodes index) size := by
  have isFile := contains.isFile
  unfold TruncatesWell
  by_cases zero : size = 0
  · subst zero
    obtain ⟨inode, truncates, samePath, isSize⟩ :=
      fisopfsTruncate_zero ambient found isFile
    have large : (Int32.ofNat initialContentLength).toInt = 1024 := rfl
    constructor
    · rintro (refuses | law)
      · have result := refuses.result
        rw [truncates] at result
        exact absurd result (Int.lt_irrefl 0)
      · have holds := law.hasFile
        rw [truncates] at holds
        have size := ((hasFile_setInode found samePath).mp holds).size
        rw [isSize, large, length_truncated] at size
        cases size
    · rintro ⟨nonzero, -⟩
      exact absurd rfl nonzero
  by_cases granted : ambient.grants size = true
  · obtain ⟨inode, truncates, samePath, fileStill, isSize, length, grown⟩ :=
      fisopfsTruncate_granted found isFile zero granted fits
    rw [if_pos granted]
    constructor
    · rintro (refuses | law)
      · have result := refuses.result
        rw [truncates] at result
        exact absurd result (Int.lt_irrefl 0)
      · have grows : (superblock.inodes index).size.toInt ≤ size := by
          by_contra shrinks
          have inside := law.inside index found size
            (if_pos ⟨zero, by omega⟩)
          rw [truncates, setInode_inodes_self, length] at inside
          exact absurd inside (Nat.lt_irrefl _)
        have holds := law.hasFile
        rw [truncates] at holds
        have bytes := ((hasFile_setInode found samePath).mp holds).content
        rw [grown grows] at bytes
        refine ⟨zero, grows, ?_⟩
        rw [contains.size] at grows
        exact (truncated_prefix_iff contains (by omega)).mp bytes
    · rintro ⟨-, grows, isZero⟩
      refine .inr ⟨?_, ?_, ?_⟩
      · rw [truncates]
      · rw [truncates]
        refine (hasFile_setInode found samePath).mpr ⟨fileStill, ?_, ?_⟩
        · rw [isSize, length_truncated]
        · rw [grown grows]
          rw [contains.size] at grows
          exact (truncated_prefix_iff contains (by omega)).mpr isZero
      · intro other foundOther i stores
        rw [found] at foundOther
        cases foundOther
        unfold truncateStore at stores
        rw [if_neg (fun both => absurd both.2 (by omega))] at stores
        cases stores
  · have truncates := fisopfsTruncate_refused found isFile zero granted
    rw [if_neg granted]
    constructor
    · rintro (refuses | law)
      · have content := (refuses.unchanged index found).1
        rw [truncates, setInode_inodes_self] at content
        exact ⟨zero, content.symm⟩
      · have result := law.result
        rw [truncates] at result
        cases result
    · rintro ⟨-, empty⟩
      refine .inl ⟨?_, ?_⟩
      · rw [truncates]
        exact Int.negSucc_lt_zero 11
      · intro other foundOther
        rw [found] at foundOther
        cases foundOther
        rw [truncates, setInode_inodes_self]
        exact ⟨empty.symm, rfl⟩

theorem truncates_smallFile :
    smallFile.Refuses .generous filePath.bytes 6 ∨
      smallFile.Truncates .generous filePath.bytes [1, 2, 3, 4] 6 := by
  refine (truncates_iff searchInode_smallFile contains_smallFile
    (by decide)).mpr ⟨by decide, ?_⟩
  have granted : Ambient.generous.grants 6 = true := rfl
  have content : (smallFile.inodes 1).content = [1, 2, 3, 4] := by
    decide +kernel
  rw [if_pos granted, contains_smallFile.size, content]
  refine ⟨by decide, ?_⟩
  intro i behind inside
  have before : 4 ≤ i := Int.ofNat_le.mp behind
  interval_cases i <;> rfl

/-- The length zero. -/
theorem not_truncates_to_zero :
    (session .generous).Reachable Machine.Unrestricted smallFile ∧
      smallFile.HasFile filePath.bytes [1, 2, 3, 4] ∧
      ¬ (smallFile.Refuses .generous filePath.bytes 0 ∨
        smallFile.Truncates .generous filePath.bytes [1, 2, 3, 4] 0) := by
  refine ⟨reachable_smallFile, hasFile_smallFile, ?_⟩
  obtain ⟨inode, truncates, samePath, isSize⟩ :=
    fisopfsTruncate_zero .generous searchInode_smallFile
      contains_smallFile.isFile
  rintro (refuses | law)
  · have result := refuses.result
    rw [truncates] at result
    exact absurd result (Int.lt_irrefl 0)
  · have holds := law.hasFile
    rw [truncates] at holds
    have size :=
      ((hasFile_setInode searchInode_smallFile samePath).mp holds).size
    rw [isSize, length_truncated] at size
    cases size

end Superblock

end FeaturesOS.FileSystem

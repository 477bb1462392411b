import FeaturesOS.CString

/-!
# The superblock

The inode table of `fs.h` and the functions of `fs.c` that search and change
it.  A content buffer is the list of the bytes allocated for it; `size` is a
C `int` and is only loosely related to the length of that list.  What a call
takes from its surroundings (the clock, the caller's ids, which allocation
requests are granted, the bytes that `realloc` leaves uninitialised) is an
argument of the functions.
-/

namespace FeaturesOS.FileSystem

open CString

def initialContentLength : Nat := 1024
def inodesAmount : Nat := 1024
def maxPath : Nat := 256

/-- The `/` that separates path components. -/
def slash : UInt8 := 47

/-- The delimiter of directory entries. -/
def newline : UInt8 := 10

def enoent : Int := 2
def enomem : Int := 12
def enotdir : Int := 20
def eisdir : Int := 21
def enospc : Int := 28
def enametoolong : Int := 36
def enotempty : Int := 39

/-- The macro `ERROR` of `fs.h`. -/
def error : Int := -1

/-- `enum inode_type`.  Only a damaged disk file holds another value. -/
inductive InodeType where
  | file
  | dir
  | unnamed (code : UInt32) (outside : 2 ≤ code.toNat)
deriving DecidableEq

/-- The array `char path[MAX_PATH]`. -/
def PathArray : Type := { bytes : List UInt8 // bytes.length = maxPath }

structure Inode where
  path : PathArray
  content : List UInt8
  size : Int32
  type : InodeType
  lastAccess : UInt64
  lastModification : UInt64
  creationTime : UInt64
  group : UInt32
  owner : UInt32
  permissions : UInt32

/-- The zeroed `inode_t` of a fresh superblock, whose `content` is NULL. -/
def Inode.zero : Inode :=
  { path := ⟨zeros maxPath, length_zeros maxPath⟩
    content := []
    size := 0
    type := .file
    lastAccess := 0
    lastModification := 0
    creationTime := 0
    group := 0
    owner := 0
    permissions := 0 }

structure Superblock where
  inodes : Nat → Inode
  inodeBitmap : Nat → Bool
  inodeAmount : Int32

/-- `superblock_t superblock = {}`. -/
def Superblock.empty : Superblock :=
  { inodes := fun _ => Inode.zero
    inodeBitmap := fun _ => false
    inodeAmount := 0 }

/-- What one call sees of its surroundings. -/
structure Ambient where
  now : UInt64
  gid : UInt32
  uid : UInt32
  grants : Nat → Bool
  fresh : Nat → UInt8

/-- `calloc (length, 1)`; a negative `int` turns into a request that no
allocator grants. -/
def calloc (ambient : Ambient) (length : Int) : Option (List UInt8) :=
  if 0 ≤ length ∧ ambient.grants length.toNat = true then
    some (zeros length.toNat)
  else
    none

/-- `realloc (block, length)`, which returns NULL for the length zero. -/
def realloc (ambient : Ambient) (block : List UInt8) (length : Int) :
    Option (List UInt8) :=
  if 0 < length ∧ ambient.grants length.toNat = true then
    some (resize block length.toNat ambient.fresh)
  else
    none

/-- The C string that a path array holds. -/
def PathArray.text (path : PathArray) : List UInt8 := CString.text path.1

/-- `strcpy (inode->path, path)`, for a path that fits with its NUL. -/
def PathArray.strcpy (path : PathArray) (source : List UInt8) : PathArray :=
  ⟨CString.strcpy path.1 0 source, by rw [length_strcpy, path.2]⟩

theorem PathArray.text_strcpy (path : PathArray) {source : List UInt8}
    (nulFree : 0 ∉ source) (short : source.length < maxPath) :
    (path.strcpy source).text = source := by
  have fits : 0 + (source ++ [0]).length ≤ path.1.length := by
    rw [path.2]
    simp only [List.length_append, List.length_cons, List.length_nil]
    omega
  change CString.text (overwrite path.1 0 (source ++ [0])) = source
  rw [overwrite_of_fits fits]
  simpa using text_append_nul _ nulFree

namespace Superblock

def liveAt (superblock : Superblock) (path : List UInt8) (index : Nat) : Bool :=
  superblock.inodeBitmap index && (superblock.inodes index).path.text == path

/-- The scan of `search_inode`; `none` is `ERROR`.  The scans are irreducible
so that the unifier does not try to run through the table. -/
@[irreducible] def searchInode (superblock : Superblock)
    (path : List UInt8) : Option Nat :=
  (List.range inodesAmount).find? (superblock.liveAt path)

/-- `none` is the result `-1`. -/
@[irreducible] def searchFreeInode (superblock : Superblock) : Option Nat :=
  (List.range inodesAmount).find? (fun index => !superblock.inodeBitmap index)

def setInode (superblock : Superblock) (index : Nat) (inode : Inode) :
    Superblock :=
  { superblock with inodes := Function.update superblock.inodes index inode }

def setBitmap (superblock : Superblock) (index : Nat) (bit : Bool) :
    Superblock :=
  { superblock with
    inodeBitmap := Function.update superblock.inodeBitmap index bit }

/-- `create_inode`: the index of the new inode, or a negative error code.  The
path is copied into the free slot before the allocation is checked. -/
def createInode (superblock : Superblock) (ambient : Ambient)
    (path : List UInt8) (mode : UInt32) (type : InodeType) :
    Superblock × Int :=
  if path.length ≥ maxPath then
    (superblock, -enametoolong)
  else
    match superblock.searchFreeInode with
    | none => (superblock, -enospc)
    | some freeIndex =>
        let inode :=
          { superblock.inodes freeIndex with
            path := (superblock.inodes freeIndex).path.strcpy path }
        match calloc ambient initialContentLength with
        | none =>
            (superblock.setInode freeIndex { inode with content := [] },
              -enomem)
        | some content =>
            let created : Inode :=
              { inode with
                content := content
                size := 0
                type := type
                lastAccess := ambient.now
                lastModification := ambient.now
                creationTime := ambient.now
                group := ambient.gid
                owner := ambient.uid
                permissions := mode }
            ({ (superblock.setInode freeIndex created).setBitmap freeIndex true
                with inodeAmount := superblock.inodeAmount + 1 },
              freeIndex)

/-- The inode that `create_inode` writes over `slot`. -/
def newInode (ambient : Ambient) (slot : Inode) (path : List UInt8)
    (mode : UInt32) (type : InodeType) : Inode :=
  { slot with
    path := slot.path.strcpy path
    content := zeros initialContentLength
    size := 0
    type := type
    lastAccess := ambient.now
    lastModification := ambient.now
    creationTime := ambient.now
    group := ambient.gid
    owner := ambient.uid
    permissions := mode }

/-- The table after `create_inode` has filled a free slot. -/
def addInode (superblock : Superblock) (freeIndex : Nat) (inode : Inode) :
    Superblock :=
  { (superblock.setInode freeIndex inode).setBitmap freeIndex true with
    inodeAmount := superblock.inodeAmount + 1 }

/-- `create_inode` on a path that fits, with a free slot and an allocation that
is granted. -/
theorem createInode_eq {superblock : Superblock} {ambient : Ambient}
    {path : List UInt8} {freeIndex : Nat} (short : path.length < maxPath)
    (found : superblock.searchFreeInode = some freeIndex)
    (granted : ambient.grants initialContentLength = true)
    (mode : UInt32) (type : InodeType) :
    superblock.createInode ambient path mode type =
      (superblock.addInode freeIndex
          (newInode ambient (superblock.inodes freeIndex) path mode type),
        (freeIndex : Int)) := by
  have content : calloc ambient initialContentLength =
      some (zeros initialContentLength) := by
    unfold calloc
    rw [if_pos ⟨Int.natCast_nonneg _, granted⟩]
    rfl
  unfold createInode
  rw [if_neg (Nat.not_le.mpr short), found]
  simp only [content]
  rfl

end Superblock

/-- The text behind the last `/`: `strrchr (path, '/') + 1`. -/
def baseName (path : List UInt8) : List UInt8 :=
  (path.reverse.takeWhile (· != slash)).reverse

/-- The offset `strrchr (path, '/') - path`, for a path that has a `/`. -/
def lastSlash (path : List UInt8) : Nat :=
  path.length - 1 - (baseName path).length

/-- The string that `get_parent` copies into `parent`. -/
def parentPath (path : List UInt8) : List UInt8 :=
  path.take (if lastSlash path = 0 then 1 else lastSlash path)

/-- `get_parent`; `none` is NULL with `error` set to `-ENOENT`. -/
def Superblock.getParent (superblock : Superblock) (path : List UInt8) :
    Option Nat :=
  if path.length = 1 then none else superblock.searchInode (parentPath path)

/-- `get_next_entry`: the entry at `offset` and the offset behind its
delimiter, or `none` when only the terminator is left. -/
def getNextEntry (content : List UInt8) (offset : Nat) :
    Option (List UInt8 × Nat) :=
  let entry :=
    (content.drop offset).takeWhile (fun byte => byte != newline && byte != 0)
  if entry = [] ∧ content.getD offset 0 = 0 then
    none
  else
    some (entry, offset + entry.length + 1)

/-- The loop `while (offset < content_length) get_next_entry (...)` that
`fisopfs_readdir` and `remove_inode` share.  Every round with an entry advances
the offset, so `fuel` rounds are enough for `fuel` bytes. -/
def entriesFrom (content : List UInt8) (contentLength : Nat) :
    Nat → Nat → List (List UInt8)
  | 0, _ => []
  | fuel + 1, offset =>
      if offset < contentLength then
        match getNextEntry content offset with
        | none => []
        | some (entry, next) =>
            entry :: entriesFrom content contentLength fuel next
      else
        []

/-- The entries that repeated `get_next_entry` reads from a content buffer. -/
def directoryEntries (content : List UInt8) : List (List UInt8) :=
  entriesFrom content (strlen content) (strlen content) 0

/-- `add_dentry_to_content`: the buffer and its recorded size.  The comparison
leaves no room for the NUL, and a refused `realloc` drops the entry. -/
def addDentryToContent (ambient : Ambient)
    (content : List UInt8) (contentSize : Int32) (dentry : List UInt8) :
    List UInt8 × Int32 :=
  let entry := dentry ++ [newline]
  let contentLength := strlen content
  if (contentLength + entry.length : Int) > contentSize.toInt then
    let newSize :=
      Int32.ofInt (contentSize.toInt + entry.length + initialContentLength)
    match realloc ambient content newSize.toInt with
    | none => (content, contentSize)
    | some newContent => (strcpy newContent contentLength entry, newSize)
  else
    (strcpy content contentLength entry, contentSize)

/-- One round of the rebuilding loop of `remove_inode`. -/
def keepEntry (ambient : Ambient) (removed : List UInt8)
    (rebuilt : List UInt8 × Int32) (entry : List UInt8) :
    List UInt8 × Int32 :=
  if entry = removed then
    rebuilt
  else
    addDentryToContent ambient rebuilt.1 rebuilt.2 entry

namespace Superblock

/-- `remove_inode`.  The bitmap bit is cleared first; the three early returns
leave the rest as it is. -/
def removeInode (superblock : Superblock) (ambient : Ambient)
    (path : List UInt8) (inodeIndex : Nat) : Superblock :=
  let cleared := superblock.setBitmap inodeIndex false
  match cleared.getParent path with
  | none => cleared
  | some parentIndex =>
      let parent := cleared.inodes parentIndex
      if slash ∉ path then
        cleared
      else
        match calloc ambient parent.size.toInt with
        | none => cleared
        | some newContent =>
            let rebuilt :=
              (directoryEntries parent.content).foldl
                (keepEntry ambient (baseName path)) (newContent, parent.size)
            { cleared.setInode parentIndex
                { parent with content := rebuilt.1, size := rebuilt.2 }
              with inodeAmount := cleared.inodeAmount - 1 }

/-- `add_dentry_to_parent_dir`: the error code and the caller's path buffer,
into which `add_dentry_to_content` has written the delimiter. -/
def addDentryToParentDir (superblock : Superblock) (ambient : Ambient)
    (path : List UInt8) : Superblock × Int × List UInt8 :=
  match superblock.getParent path with
  | none => (superblock, -error, path)
  | some parentIndex =>
      let parent := superblock.inodes parentIndex
      if parent.type ≠ .dir then
        (superblock, -enotdir, path)
      else
        let extended :=
          addDentryToContent ambient parent.content parent.size (baseName path)
        (superblock.setInode parentIndex
            { parent with content := extended.1, size := extended.2 },
          0, path ++ [newline])

/-- The live slots of the table, in table order. -/
def live (superblock : Superblock) : List Nat :=
  (List.range inodesAmount).filter superblock.inodeBitmap

end Superblock

end FeaturesOS.FileSystem

import FeaturesOS.Machine
import FeaturesOS.FileSystem.Superblock

/-!
# The FUSE operations

The handlers of `fisopfs.c`.  Each takes the superblock and the arguments that
FUSE passes and returns the new superblock, the `int` result and whatever else
the handler hands back.  `Call` collects them into the events of the mounted
file system.
-/

namespace FeaturesOS.FileSystem

open CString

/-- The fields of `struct stat` that `fisopfs_getattr` fills in. -/
structure Stat where
  nlink : Nat
  uid : UInt32
  gid : UInt32
  size : Int32
  atime : UInt64
  mtime : UInt64
  ctime : UInt64
  mode : UInt32
deriving DecidableEq

/-- `__S_IFDIR | 0755`. -/
def directoryMode : UInt32 := 0o040755

/-- `__S_IFREG | 0644`. -/
def regularMode : UInt32 := 0o100644

/-- An `int` that takes part in a comparison with a `size_t`. -/
def asSize (value : Int32) : Int :=
  if value.toInt < 0 then value.toInt + 2 ^ 64 else value.toInt

namespace Superblock

/-- `fisopfs_getattr`: the path is cut at its first newline. -/
def fisopfsGetattr (superblock : Superblock) (path : List UInt8) :
    Int × Option Stat :=
  match superblock.searchInode (path.takeWhile (· != newline)) with
  | none => (-enoent, none)
  | some inodeIndex =>
      let inode := superblock.inodes inodeIndex
      let stat : Stat :=
        { nlink := if inode.type = .file then 1 else 2
          uid := inode.owner
          gid := inode.group
          size := inode.size
          atime := inode.lastAccess
          mtime := inode.lastModification
          ctime := inode.creationTime
          mode := if inode.type = .file then regularMode else directoryMode }
      (0, some stat)

/-- `fisopfs_readdir` at offset 0: the names passed to `filler` behind `.` and
`..`.  The access time is set in a local copy of the inode only. -/
def fisopfsReaddir (superblock : Superblock) (path : List UInt8) :
    Int × List (List UInt8) :=
  match superblock.searchInode path with
  | none => (-enoent, [])
  | some inodeIndex =>
      let inode := superblock.inodes inodeIndex
      if inode.type ≠ .dir then
        (-enotdir, [])
      else
        (0, directoryEntries inode.content)

/-- The number of bytes that `fisopfs_read` copies.  The sum and the difference
wrap around in `size_t`, so an offset behind the end of the file gives a large
count. -/
def readCount (file : Inode) (size offset : Nat) : Nat :=
  if (((offset + size) % 2 ^ 64 : Nat) : Int) > asSize file.size then
    ((file.size.toInt - offset) % 2 ^ 64).toNat
  else
    size

def fisopfsRead (superblock : Superblock) (ambient : Ambient)
    (path : List UInt8) (size offset : Nat) :
    Superblock × Int × List UInt8 :=
  match superblock.searchInode path with
  | none => (superblock, -enoent, [])
  | some inodeIndex =>
      let file := superblock.inodes inodeIndex
      if file.type ≠ .file then
        (superblock, -eisdir, [])
      else
        let count := readCount file size offset
        (superblock.setInode inodeIndex { file with lastAccess := ambient.now },
          (Int32.ofInt count).toInt, (file.content.drop offset).take count)

def fisopfsUnlink (superblock : Superblock) (ambient : Ambient)
    (path : List UInt8) : Superblock × Int :=
  match superblock.searchInode path with
  | none => (superblock, -enoent)
  | some inodeIndex =>
      if (superblock.inodes inodeIndex).type ≠ .file then
        (superblock, -eisdir)
      else
        (superblock.removeInode ambient path inodeIndex, 0)

/-- The common body of `fisopfs_mkdir` and `fisopfs_create`.  Only a negative
result of `add_dentry_to_parent_dir` counts as an error. -/
def createEntry (superblock : Superblock) (ambient : Ambient)
    (path : List UInt8) (mode : UInt32) (type : InodeType) :
    Superblock × Int × List UInt8 :=
  let (created, inodeIndex) := superblock.createInode ambient path mode type
  if inodeIndex < 0 then
    (created, inodeIndex, path)
  else
    let (extended, result, buffer) := created.addDentryToParentDir ambient path
    if result < 0 then (extended, result, buffer) else (extended, 0, buffer)

def fisopfsMkdir (superblock : Superblock) (ambient : Ambient)
    (path : List UInt8) (mode : UInt32) : Superblock × Int × List UInt8 :=
  superblock.createEntry ambient path mode .dir

def fisopfsCreate (superblock : Superblock) (ambient : Ambient)
    (path : List UInt8) (mode : UInt32) : Superblock × Int × List UInt8 :=
  superblock.createEntry ambient path mode .file

def fisopfsUtimens (superblock : Superblock) (path : List UInt8)
    (accessed modified : UInt64) : Superblock × Int :=
  match superblock.searchInode path with
  | none => (superblock, -enoent)
  | some inodeIndex =>
      (superblock.setInode inodeIndex
          { superblock.inodes inodeIndex with
            lastAccess := accessed
            lastModification := modified },
        0)

def fisopfsRmdir (superblock : Superblock) (ambient : Ambient)
    (path : List UInt8) : Superblock × Int :=
  match superblock.searchInode path with
  | none => (superblock, -enoent)
  | some inodeIndex =>
      let inode := superblock.inodes inodeIndex
      if inode.type ≠ .dir then
        (superblock, -enotdir)
      else if strlen inode.content > 0 then
        (superblock, -enotempty)
      else
        (superblock.removeInode ambient path inodeIndex, 0)

/-- The content buffer that `fisopfs_write` copies into, or `none` when
`realloc` fails.  The first comparison is unsigned, the second one signed. -/
def growForWrite (ambient : Ambient) (file : Inode) (size offset : Nat) :
    Option (List UInt8) :=
  if (offset + size : Int) > asSize file.size then
    (realloc ambient file.content (offset + size)).map fun newContent =>
      if (offset : Int) > file.size.toInt then
        overwrite newContent file.size.toInt.toNat
          (zeros (offset - file.size.toInt.toNat))
      else
        newContent
  else
    some file.content

/-- `fisopfs_write`: the recorded size becomes the end of the written range,
also when that lies inside the file. -/
def fisopfsWrite (superblock : Superblock) (ambient : Ambient)
    (path : List UInt8) (buffer : List UInt8) (offset : Nat) :
    Superblock × Int :=
  match superblock.searchInode path with
  | none => (superblock, -enoent)
  | some inodeIndex =>
      let file := superblock.inodes inodeIndex
      if file.type ≠ .file then
        (superblock, -eisdir)
      else
        match growForWrite ambient file buffer.length offset with
        | none => (superblock, -enomem)
        | some content =>
            (superblock.setInode inodeIndex
                { file with
                  content := overwrite content offset buffer
                  size := Int32.ofInt (offset + buffer.length)
                  lastModification := ambient.now },
              (Int32.ofInt buffer.length).toInt)

/-- `fisopfs_truncate`.  The store of the NUL at index `size` of a buffer of
`size` bytes falls behind its end. -/
def fisopfsTruncate (superblock : Superblock) (ambient : Ambient)
    (path : List UInt8) (size : Nat) : Superblock × Int :=
  match superblock.searchInode path with
  | none => (superblock, -enoent)
  | some inodeIndex =>
      let inode := superblock.inodes inodeIndex
      if inode.type ≠ .file then
        (superblock, -eisdir)
      else if size = 0 then
        (superblock.setInode inodeIndex
            { inode with
              content := (calloc ambient initialContentLength).getD []
              size := Int32.ofNat initialContentLength
              lastModification := ambient.now },
          0)
      else
        match realloc ambient inode.content size with
        | none =>
            (superblock.setInode inodeIndex { inode with content := [] },
              -enomem)
        | some content =>
            let cut :=
              if inode.size.toInt > size then overwrite content size [0]
              else content
            (superblock.setInode inodeIndex
                { inode with
                  content := cut
                  size := Int32.ofInt size
                  lastModification := ambient.now },
              0)

end Superblock

/-- A path as FUSE passes it: absolute and without NUL. -/
structure AbsolutePath where
  bytes : List UInt8
  absolute : bytes.head? = some slash
  nulFree : 0 ∉ bytes

/-- The calls of one mounted session. -/
inductive Call where
  | getattr (path : AbsolutePath)
  | readdir (path : AbsolutePath)
  | read (path : AbsolutePath) (size offset : Nat)
  | unlink (path : AbsolutePath)
  | mkdir (path : AbsolutePath) (mode : UInt32)
  | create (path : AbsolutePath) (mode : UInt32)
  | utimens (path : AbsolutePath) (accessed modified : UInt64)
  | rmdir (path : AbsolutePath)
  | write (path : AbsolutePath) (buffer : List UInt8) (offset : Nat)
  | truncate (path : AbsolutePath) (size : Nat)

/-- The path a call names. -/
def Call.path : Call → AbsolutePath
  | .getattr path | .readdir path | .read path _ _ | .unlink path
  | .mkdir path _ | .create path _ | .utimens path _ _ | .rmdir path
  | .write path _ _ | .truncate path _ => path

/-- The superblock and the `int` result that a call leaves. -/
def Superblock.call (superblock : Superblock) (ambient : Ambient) :
    Call → Superblock × Int
  | .getattr path => (superblock, (superblock.fisopfsGetattr path.bytes).1)
  | .readdir path => (superblock, (superblock.fisopfsReaddir path.bytes).1)
  | .read path size offset =>
      let (next, result, _) :=
        superblock.fisopfsRead ambient path.bytes size offset
      (next, result)
  | .unlink path => superblock.fisopfsUnlink ambient path.bytes
  | .mkdir path mode =>
      let (next, result, _) := superblock.fisopfsMkdir ambient path.bytes mode
      (next, result)
  | .create path mode =>
      let (next, result, _) := superblock.fisopfsCreate ambient path.bytes mode
      (next, result)
  | .utimens path accessed modified =>
      superblock.fisopfsUtimens path.bytes accessed modified
  | .rmdir path => superblock.fisopfsRmdir ambient path.bytes
  | .write path buffer offset =>
      superblock.fisopfsWrite ambient path.bytes buffer offset
  | .truncate path size => superblock.fisopfsTruncate ambient path.bytes size

/-- The superblock after `fisopfs_init` has found no disk file. -/
def Superblock.fresh (ambient : Ambient) : Superblock :=
  (Superblock.empty.createInode ambient [slash] directoryMode .dir).1

/-- One mounted session, from the mount that finds no disk file on.  An event is
a call together with its surroundings. -/
def session (ambient : Ambient) : Machine Superblock (Ambient × Call) where
  Initial superblock := superblock = .fresh ambient
  Step superblock event next := next = (superblock.call event.1 event.2).1

/-- Surroundings in which every allocation succeeds. -/
def Ambient.generous : Ambient :=
  { now := 0, gid := 0, uid := 0, grants := fun _ => true, fresh := fun _ => 0 }

/-- A session of calls in the same surroundings. -/
def Superblock.calls (ambient : Ambient) (calls : List Call) : Superblock :=
  calls.foldl (fun superblock call => (superblock.call ambient call).1)
    (.fresh ambient)

theorem Superblock.reachable_calls {ambient : Ambient}
    {allowed : Superblock → Ambient × Call → Prop}
    (check : Superblock → Call → Prop)
    (permits : ∀ superblock call, check superblock call →
      allowed superblock (ambient, call))
    {calls : List Call}
    (along : Machine.Along check
      (fun superblock call => (superblock.call ambient call).1)
      (.fresh ambient) calls) :
    (session ambient).Reachable allowed (Superblock.calls ambient calls) :=
  ⟨_, _, rfl, Machine.run_of_along (fun _ _ _ => rfl) permits along⟩

end FeaturesOS.FileSystem

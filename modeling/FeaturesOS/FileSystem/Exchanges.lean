import FeaturesOS.FileSystem.Creation
import FeaturesOS.FileSystem.Volume

/-!
# A session is a volume in use

As long as no call runs into one of the defects of the handlers, a session answers
as a volume does: each of its states shows a volume, and each call with its reply
is an exchange of that volume.
-/

namespace FeaturesOS.FileSystem

open CString

/-! ## What the table shows -/

def Inode.node (inode : Inode) : Node :=
  if inode.type = .dir then .directory
  else .file (inode.content.take inode.size.toInt.toNat)

def Inode.thing (inode : Inode) : Thing :=
  { node := inode.node
    owner := inode.owner
    group := inode.group
    lastAccess := inode.lastAccess
    lastModification := inode.lastModification
    creationTime := inode.creationTime }

theorem Inode.Contains.node {inode : Inode} {data : List UInt8}
    (contains : inode.Contains data) : inode.node = .file data := by
  have isFile : ¬ inode.type = .dir := by
    rw [contains.isFile]
    decide
  obtain ⟨rest, isContent⟩ := contains.content
  unfold Inode.node
  rw [if_neg isFile, contains.size, ← isContent, Int.toNat_natCast,
    List.take_left]

theorem Inode.node_directory {inode : Inode} (isDirectory : inode.type = .dir) :
    inode.node = .directory := by
  unfold Inode.node
  rw [if_pos isDirectory]

namespace Superblock

/-- What a path leads to. -/
def thingAt (superblock : Superblock) (path : List UInt8) : Option Thing :=
  (superblock.searchInode path).map fun index => (superblock.inodes index).thing

def find (superblock : Superblock) (names : Names) : Option Thing :=
  if ∀ name ∈ names, Component name then superblock.thingAt (pathOf names)
  else none

/-- All that a call hands back. -/
def reply (superblock : Superblock) (ambient : Ambient) (call : Call) : Reply :=
  { result := (superblock.call ambient call).2
    stat :=
      match call with
      | .getattr path => (superblock.fisopfsGetattr path.bytes).2
      | _ => none
    names :=
      match call with
      | .readdir path => (superblock.fisopfsReaddir path.bytes).2
      | _ => []
    bytes :=
      match call with
      | .read path size offset =>
          (superblock.fisopfsRead ambient path.bytes size offset).2.2
      | _ => [] }

/-- The call keeps to the part of its inputs on which its handler does what it is
for: a read starts inside of the file, a write reaches its end, and a truncation
lengthens it into bytes that are zero. -/
def WorksOn (superblock : Superblock) (ambient : Ambient) : Call → Prop
  | .getattr path => newline ∉ path.bytes
  | .read path size offset =>
      offset < 2 ^ 63 ∧ size < 2 ^ 64 ∧ ∀ data,
        superblock.HasFile path.bytes data →
          offset ≤ data.length ∧ offset + size < 2 ^ 64
  | .write path buffer offset =>
      offset + buffer.length < 2 ^ 31 ∧ ∀ data,
        superblock.HasFile path.bytes data →
          data.length ≤ offset + buffer.length
  | .truncate path size =>
      size < 2 ^ 31 ∧ ∀ index, superblock.searchInode path.bytes = some index →
        (superblock.inodes index).type = .file →
          TruncatesWell ambient (superblock.inodes index) size
  | _ => True

/-- The table shows a volume. -/
structure Shown (superblock : Superblock) : Prop where
  space : superblock.Namespace
  root : ∃ index, superblock.IsDirectory index ∧
    superblock.pathAt index = [slash]
  contents : ∀ index, superblock.Live index →
    (superblock.inodes index).type = .dir ∨
      ∃ data, (superblock.inodes index).Contains data

variable {superblock next : Superblock} {path : List UInt8} {names : Names}
variable {thing : Thing} {index slot : Nat}

theorem Namespace.thingAt_iff (space : superblock.Namespace) :
    superblock.thingAt path = some thing ↔
      ∃ index, superblock.Live index ∧ superblock.pathAt index = path ∧
        (superblock.inodes index).thing = thing := by
  unfold thingAt
  rw [Option.map_eq_some_iff]
  constructor
  · rintro ⟨index, found, isThing⟩
    obtain ⟨live, isPath⟩ := searchInode_eq_some found
    exact ⟨index, live, isPath, isThing⟩
  · rintro ⟨index, live, rfl, isThing⟩
    exact ⟨index, space.searchInode live, isThing⟩

theorem find_eq (isNames : namesOf path = some names) :
    superblock.find names = superblock.thingAt path := by
  obtain ⟨isPath, named⟩ := pathOf_of_namesOf isNames
  unfold find
  rw [if_pos named, isPath]

theorem find_eq_some (found : superblock.find names = some thing) :
    (∀ name ∈ names, Component name) ∧
      superblock.thingAt (pathOf names) = some thing := by
  unfold find at found
  split at found
  · rename_i named
    exact ⟨named, found⟩
  · cases found

theorem Namespace.namesOf_pathAt (space : superblock.Namespace)
    (live : superblock.Live index) :
    ∃ names, namesOf (superblock.pathAt index) = some names := by
  unfold namesOf
  split
  · exact ⟨_, rfl⟩
  · rename_i notRoot
    rw [if_pos ((space.named index live).resolve_left notRoot)]
    exact ⟨_, rfl⟩

/-- A path that has no names leads nowhere. -/
theorem Namespace.lookup_eq (space : superblock.Namespace) :
    (namesOf path).bind superblock.find = superblock.thingAt path := by
  cases isNames : namesOf path with
  | some names => exact find_eq isNames
  | none =>
      cases found : superblock.searchInode path with
      | none =>
          unfold thingAt
          rw [found]
          rfl
      | some index =>
          obtain ⟨live, rfl⟩ := searchInode_eq_some found
          obtain ⟨names, some⟩ := space.namesOf_pathAt live
          rw [isNames] at some
          cases some

namespace Shown

theorem find_root (shown : superblock.Shown) :
    ∃ thing, superblock.find [] = some thing ∧ thing.node = .directory := by
  obtain ⟨index, isDirectory, isRoot⟩ := shown.root
  refine ⟨(superblock.inodes index).thing, ?_,
    Inode.node_directory isDirectory.2⟩
  have isNames : namesOf [slash] = some [] := rfl
  rw [find_eq isNames]
  exact shown.space.thingAt_iff.mpr ⟨index, isDirectory.1, isRoot, rfl⟩

theorem find_parent (shown : superblock.Shown) (front : Names)
    (name : List UInt8) (thing : Thing)
    (found : superblock.find (front ++ [name]) = some thing) :
    ∃ directory, superblock.find front = some directory ∧
      directory.node = .directory := by
  obtain ⟨named, there⟩ := find_eq_some found
  obtain ⟨index, live, isPath, -⟩ := shown.space.thingAt_iff.mp there
  have notRoot : superblock.pathAt index ≠ [slash] := by
    rw [isPath]
    exact (wellNamed_pathOf (by simp) named).ne_slash
  obtain ⟨parent, isDirectory, isParent⟩ :=
    shown.space.parents index live notRoot
  rw [isPath, (pathOf_concat named).2] at isParent
  have isNames : namesOf (pathOf front) = some front :=
    namesOf_pathOf fun part member =>
      named part (List.mem_append_left _ member)
  refine ⟨(superblock.inodes parent).thing, ?_,
    Inode.node_directory isDirectory.2⟩
  rw [find_eq isNames]
  exact shown.space.thingAt_iff.mpr ⟨parent, isDirectory.1, isParent, rfl⟩

/-- The volume that a table shows. -/
def volume (shown : superblock.Shown) : Volume where
  find := superblock.find
  root := shown.find_root
  parents := shown.find_parent

theorem lookup (shown : superblock.Shown) (path : AbsolutePath) :
    shown.volume.lookup path = superblock.thingAt path.bytes :=
  shown.space.lookup_eq

/-- The things in a directory are its children in the table. -/
theorem holds_iff (shown : superblock.Shown)
    (named : ∀ part ∈ names, Component part) (name : List UInt8) :
    shown.volume.Holds names name ↔
      ∃ child, superblock.Child (pathOf names) child ∧
        baseName (superblock.pathAt child) = name := by
  constructor
  · intro holds
    obtain ⟨thing, found⟩ := Option.ne_none_iff_exists'.mp holds
    obtain ⟨all, there⟩ := find_eq_some found
    obtain ⟨index, live, isPath, -⟩ := shown.space.thingAt_iff.mp there
    obtain ⟨isName, isParent⟩ := pathOf_concat all
    refine ⟨index, ⟨live, ?_, ?_⟩, ?_⟩
    · rw [isPath]
      exact (wellNamed_pathOf (by simp) all).ne_slash
    · rw [isPath, isParent]
    · rw [isPath, isName]
  · rintro ⟨child, isChild, rfl⟩
    have wellNamed := shown.space.child_wellNamed isChild
    have all : ∀ part ∈ names ++ [baseName (superblock.pathAt child)],
        Component part := by
      intro part member
      rcases List.mem_append.mp member with inFront | isLast
      · exact named part inFront
      · rw [List.mem_singleton.mp isLast]
        exact wellNamed.component
    obtain ⟨isName, isParent⟩ := pathOf_concat all
    have isPath : superblock.pathAt child =
        pathOf (names ++ [baseName (superblock.pathAt child)]) :=
      wellNamed.eq_of_parent_base (wellNamed_pathOf (by simp) all)
        (isChild.2.2.trans isParent.symm) isName.symm
    have found : superblock.find
        (names ++ [baseName (superblock.pathAt child)]) =
          some (superblock.inodes child).thing := by
      rw [find_eq (namesOf_pathOf all)]
      exact shown.space.thingAt_iff.mpr ⟨child, isChild.1, isPath, rfl⟩
    intro none
    exact absurd (found.symm.trans none) (Option.some_ne_none _)

end Shown

end Superblock

end FeaturesOS.FileSystem

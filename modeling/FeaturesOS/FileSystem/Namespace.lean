import Mathlib.Data.List.Nodup
import Mathlib.Data.List.Perm.Subperm
import FeaturesOS.FileSystem.Path
import FeaturesOS.FileSystem.Table

/-!
# The namespace of a mounted file system

The inode table keeps full paths and every directory keeps the names of its
children.  Under the guarantees of the FUSE caller both views stay in step, as
long as no new entry fills the recorded size of its parent exactly.
-/

namespace FeaturesOS.FileSystem

open CString

/-- The entries that repeated `get_next_entry` decodes, which expects a
terminated text. -/
def decodeDirectory (content : List UInt8) : Option (List (List UInt8)) :=
  if Terminated content then some (directoryEntries content) else none

namespace Superblock

def pathAt (superblock : Superblock) (index : Nat) : List UInt8 :=
  (superblock.inodes index).path.text

def Live (superblock : Superblock) (index : Nat) : Prop :=
  superblock.inodeBitmap index = true

def IsDirectory (superblock : Superblock) (index : Nat) : Prop :=
  superblock.Live index ∧ (superblock.inodes index).type = .dir

/-- A live inode whose parent path is `directory`; `/` has no parent path. -/
def Child (superblock : Superblock) (directory : List UInt8) (index : Nat) :
    Prop :=
  superblock.Live index ∧ superblock.pathAt index ≠ [slash] ∧
    parentPath (superblock.pathAt index) = directory

instance (superblock : Superblock) (directory : List UInt8) :
    DecidablePred (superblock.Child directory) := fun _ =>
  inferInstanceAs (Decidable (_ = _ ∧ _ ≠ _ ∧ _ = _))

/-- The base names of the children of a directory, in table order. -/
def children (superblock : Superblock) (directory : List UInt8) :
    List (List UInt8) :=
  (superblock.live.filter (superblock.Child directory)).map
    fun index => baseName (superblock.pathAt index)

/-- The table of paths and the texts of the directories agree. -/
structure Consistent (superblock : Superblock) : Prop where
  distinct : ∀ index other, superblock.Live index → superblock.Live other →
    superblock.pathAt index = superblock.pathAt other → index = other
  parents : ∀ index, superblock.Live index →
    superblock.pathAt index ≠ [slash] → ∃ parent,
      superblock.IsDirectory parent ∧
        superblock.pathAt parent = parentPath (superblock.pathAt index)
  entries : ∀ index, superblock.IsDirectory index → ∃ names,
    decodeDirectory (superblock.inodes index).content = some names ∧
      names.Perm (superblock.children (superblock.pathAt index))
  counted : superblock.inodeAmount.toInt = superblock.live.length
  rmdirEmpty : ∀ ambient path, path ≠ [slash] →
    (superblock.fisopfsRmdir ambient path).2 = 0 →
    ∀ index, superblock.Live index →
      ¬ Descendant path (superblock.pathAt index)
  readdirOnce : ∀ index, superblock.IsDirectory index →
    (superblock.fisopfsReaddir (superblock.pathAt index)).1 = 0 ∧
      (superblock.fisopfsReaddir (superblock.pathAt index)).2.Nodup ∧
      ∀ name,
        name ∈ (superblock.fisopfsReaddir (superblock.pathAt index)).2 ↔
          ∃ child, superblock.Child (superblock.pathAt index) child ∧
            baseName (superblock.pathAt child) = name

/-- What the VFS layer promises about a call. -/
def Guaranteed (superblock : Superblock) : Call → Prop
  | .mkdir path _ | .create path _ =>
      WellNamed path.bytes ∧ superblock.searchInode path.bytes = none ∧
        ∃ parent ∈ superblock.getParent path.bytes,
          (superblock.inodes parent).type = .dir
  | .unlink path | .rmdir path =>
      superblock.searchInode path.bytes ≠ none ∧ path.bytes ≠ [slash]
  | _ => True

/-- The call adds an entry that fills the recorded size of its parent exactly, so
that `add_dentry_to_content` leaves no room for the NUL. -/
def FillsParent (superblock : Superblock) : Call → Prop
  | .mkdir path _ | .create path _ =>
      path.bytes.length < maxPath ∧ superblock.searchFreeInode ≠ none ∧
      ∃ parent ∈ superblock.getParent path.bytes,
        (strlen (superblock.inodes parent).content +
          (baseName path.bytes).length + 1 : Int) =
            (superblock.inodes parent).size.toInt
  | _ => False

instance (superblock : Superblock) :
    DecidablePred superblock.Guaranteed := fun call => by
  cases call <;> unfold Guaranteed <;> infer_instance

instance (superblock : Superblock) :
    DecidablePred superblock.FillsParent := fun call => by
  cases call <;> unfold FillsParent <;> infer_instance

end Superblock

/-- A call under the guarantees of its caller, with allocations succeeding. -/
def GuaranteedCall (superblock : Superblock) (event : Ambient × Call) : Prop :=
  (∀ length, event.1.grants length = true) ∧ superblock.Guaranteed event.2

/-- A guaranteed call that does not fill its parent. -/
def RoomyCall (superblock : Superblock) (event : Ambient × Call) : Prop :=
  GuaranteedCall superblock event ∧ ¬ superblock.FillsParent event.2

namespace Superblock

/-- The text of the directory in a slot consists of the base names of its
children. -/
structure DirectoryAt (superblock : Superblock) (index : Nat)
    (names : List (List UInt8)) : Prop where
  buffer : DirectoryBuffer (superblock.inodes index).content
    (superblock.inodes index).size
  holds : text (superblock.inodes index).content = encodeEntries names
  nodup : names.Nodup
  complete : ∀ name, name ∈ names ↔
    ∃ child, superblock.Child (superblock.pathAt index) child ∧
      baseName (superblock.pathAt child) = name

/-- The invariant of the calls. -/
structure Namespace (superblock : Superblock) : Prop where
  inTable : superblock.BitsInTable
  counted : superblock.inodeAmount.toInt = superblock.live.length
  named : ∀ index, superblock.Live index →
    superblock.pathAt index = [slash] ∨ WellNamed (superblock.pathAt index)
  distinct : ∀ index other, superblock.Live index → superblock.Live other →
    superblock.pathAt index = superblock.pathAt other → index = other
  parents : ∀ index, superblock.Live index →
    superblock.pathAt index ≠ [slash] → ∃ parent,
      superblock.IsDirectory parent ∧
        superblock.pathAt parent = parentPath (superblock.pathAt index)
  directories : ∀ index, superblock.IsDirectory index →
    ∃ names, superblock.DirectoryAt index names

/-! ## Searching the table -/

theorem searchInode_eq_some {superblock : Superblock} {path : List UInt8}
    {index : Nat} (found : superblock.searchInode path = some index) :
    superblock.Live index ∧ superblock.pathAt index = path := by
  unfold searchInode at found
  have hit := List.find?_some found
  simpa [liveAt, Live, pathAt] using hit

theorem searchInode_eq_none {superblock : Superblock} {path : List UInt8}
    (inTable : superblock.BitsInTable)
    (absent : superblock.searchInode path = none) {index : Nat}
    (live : superblock.Live index) : superblock.pathAt index ≠ path := by
  unfold searchInode at absent
  have miss := List.find?_eq_none.mp absent index
    (List.mem_range.mpr (inTable index live))
  intro same
  apply miss
  simp only [liveAt, Bool.and_eq_true, beq_iff_eq]
  exact ⟨live, same⟩

/-- The scan finds a live slot whose path no other live slot has. -/
theorem searchInode_of_unique {superblock : Superblock} {path : List UInt8}
    {index : Nat} (inTable : index < inodesAmount)
    (live : superblock.Live index) (path_eq : superblock.pathAt index = path)
    (unique : ∀ other, superblock.Live other →
      superblock.pathAt other = path → other = index) :
    superblock.searchInode path = some index := by
  cases found : superblock.searchInode path with
  | none =>
      unfold searchInode at found
      have miss := List.find?_eq_none.mp found index (List.mem_range.mpr inTable)
      apply absurd _ miss
      simp only [liveAt, Bool.and_eq_true, beq_iff_eq]
      exact ⟨live, path_eq⟩
  | some other =>
      obtain ⟨otherLive, same⟩ := searchInode_eq_some found
      rw [unique other otherLive same]

theorem baseName_length_le (path : List UInt8) :
    (baseName path).length ≤ path.length := by
  unfold baseName
  rw [List.length_reverse]
  exact (List.takeWhile_prefix _).length_le.trans List.length_reverse.le

theorem length_baseName_pathAt (superblock : Superblock) (index : Nat) :
    (baseName (superblock.pathAt index)).length ≤ maxPath := by
  calc (baseName (superblock.pathAt index)).length
      ≤ (superblock.pathAt index).length := baseName_length_le _
    _ ≤ (superblock.inodes index).path.1.length := strlen_le_length _
    _ = maxPath := (superblock.inodes index).path.2

theorem getParent_of_wellNamed {superblock : Superblock} {path : List UInt8}
    (wellNamed : WellNamed path) :
    superblock.getParent path = superblock.searchInode (parentPath path) := by
  unfold getParent
  rw [if_neg (Nat.ne_of_gt wellNamed.length_gt)]

/-! ## What the invariant gives -/

namespace Namespace

variable {superblock : Superblock}

theorem searchInode (space : superblock.Namespace) {index : Nat}
    (live : superblock.Live index) :
    superblock.searchInode (superblock.pathAt index) = some index :=
  searchInode_of_unique (space.inTable index live) live rfl
    (fun other otherLive same => space.distinct other index otherLive live same)

theorem child_wellNamed (space : superblock.Namespace)
    {directory : List UInt8} {index : Nat}
    (child : superblock.Child directory index) :
    WellNamed (superblock.pathAt index) :=
  (space.named index child.1).resolve_left child.2.1

theorem child_injective (space : superblock.Namespace)
    {directory : List UInt8} {index other : Nat}
    (child : superblock.Child directory index)
    (otherChild : superblock.Child directory other)
    (same : baseName (superblock.pathAt index) =
      baseName (superblock.pathAt other)) : index = other :=
  space.distinct index other child.1 otherChild.1
    ((space.child_wellNamed child).eq_of_parent_base
      (space.child_wellNamed otherChild)
      (child.2.2.trans otherChild.2.2.symm) same)

theorem isEntry (space : superblock.Namespace) {index : Nat}
    {names : List (List UInt8)} (directory : superblock.DirectoryAt index names)
    {name : List UInt8} (member : name ∈ names) : IsEntry name := by
  obtain ⟨child, isChild, rfl⟩ := (directory.complete name).mp member
  exact (space.child_wellNamed isChild).component.toIsEntry

theorem directoryEntries (space : superblock.Namespace) {index : Nat}
    {names : List (List UInt8)}
    (directory : superblock.DirectoryAt index names) :
    directoryEntries (superblock.inodes index).content = names :=
  directoryEntries_eq
    (fun _ member => (space.isEntry directory member).isLine)
    directory.holds

/-- A directory has at most as many entries as the table has slots. -/
theorem strlen_lt (space : superblock.Namespace) {index : Nat}
    {names : List (List UInt8)}
    (directory : superblock.DirectoryAt index names) :
    strlen (superblock.inodes index).content < 2 ^ 20 := by
  have subset : names ⊆ superblock.live.map
      (fun slot => baseName (superblock.pathAt slot)) := by
    intro name member
    obtain ⟨child, isChild, rfl⟩ := (directory.complete name).mp member
    exact List.mem_map_of_mem
      (mem_live.mpr ⟨space.inTable child isChild.1, isChild.1⟩)
  have few : names.length ≤ inodesAmount := by
    calc names.length
        ≤ (superblock.live.map
            (fun slot => baseName (superblock.pathAt slot))).length :=
          (List.subperm_of_subset directory.nodup subset).length_le
      _ = superblock.live.length := List.length_map _
      _ ≤ inodesAmount := length_live_le superblock
  have short : ∀ name ∈ names, name.length ≤ maxPath := by
    intro name member
    obtain ⟨child, -, rfl⟩ := (directory.complete name).mp member
    exact length_baseName_pathAt superblock child
  have bounded := length_encodeEntries_le short
  have length : strlen (superblock.inodes index).content =
      (encodeEntries names).length :=
    congrArg List.length directory.holds
  have scaled : names.length * (maxPath + 1) ≤ inodesAmount * (maxPath + 1) :=
    Nat.mul_le_mul_right _ few
  rw [length]
  exact lt_of_le_of_lt (bounded.trans scaled) (by decide)

/-- A directory without entries has no children. -/
theorem childless (space : superblock.Namespace) {index : Nat}
    (isDirectory : superblock.IsDirectory index)
    (empty : strlen (superblock.inodes index).content = 0) (child : Nat) :
    ¬ superblock.Child (superblock.pathAt index) child := by
  intro isChild
  obtain ⟨names, directory⟩ := space.directories index isDirectory
  have member := (directory.complete _).mpr ⟨child, isChild, rfl⟩
  have some := List.length_pos_of_mem member
  have long := length_le_encodeEntries names
  have length : strlen (superblock.inodes index).content =
      (encodeEntries names).length :=
    congrArg List.length directory.holds
  omega

/-- A directory without entries has nothing below it. -/
theorem no_descendant (space : superblock.Namespace) {index : Nat}
    (isDirectory : superblock.IsDirectory index)
    (notRoot : superblock.pathAt index ≠ [slash])
    (empty : strlen (superblock.inodes index).content = 0) (other : Nat)
    (live : superblock.Live other) :
    ¬ Descendant (superblock.pathAt index) (superblock.pathAt other) := by
  have wellNamed := (space.named index isDirectory.1).resolve_left notRoot
  have nonempty : superblock.pathAt index ≠ [] := by
    intro none
    have long := wellNamed.length_gt
    rw [none] at long
    exact absurd long (by decide)
  -- The induction climbs from a descendant to its parent.
  generalize length : (superblock.pathAt other).length = size
  induction size using Nat.strong_induction_on generalizing other with
  | _ size induction =>
      intro below
      have otherNotRoot : superblock.pathAt other ≠ [slash] := by
        intro root
        have longer := below.length_le
        have long := wellNamed.length_gt
        rw [root, List.length_append, List.length_singleton] at longer
        omega
      have otherNamed := (space.named other live).resolve_left otherNotRoot
      rcases otherNamed.parent_of_descendant nonempty below with child | above
      · exact space.childless isDirectory empty other
          ⟨live, otherNotRoot, child⟩
      · obtain ⟨parent, isParent, path⟩ :=
          space.parents other live otherNotRoot
        rw [← path] at above
        have shorter := otherNamed.parentPath_length
        rw [← path] at shorter
        exact induction _ (by omega) parent isParent.1 rfl above

/-- The invariant gives what the caller sees. -/
theorem consistent (space : superblock.Namespace) : superblock.Consistent where
  distinct := space.distinct
  parents := space.parents
  counted := space.counted
  entries := by
    intro index isDirectory
    obtain ⟨names, directory⟩ := space.directories index isDirectory
    refine ⟨names, ?_, ?_⟩
    · unfold decodeDirectory
      rw [if_pos directory.buffer.terminated, space.directoryEntries directory]
    · have liveNodup : superblock.live.Nodup :=
        List.nodup_range.filter superblock.inodeBitmap
      have childrenNodup :
          (superblock.children (superblock.pathAt index)).Nodup := by
        refine List.Nodup.map_on ?_ (liveNodup.filter _)
        intro child member other otherMember same
        have isChild := (List.mem_filter.mp member).2
        have otherIsChild := (List.mem_filter.mp otherMember).2
        exact space.child_injective (of_decide_eq_true isChild)
          (of_decide_eq_true otherIsChild) same
      refine (List.perm_ext_iff_of_nodup directory.nodup childrenNodup).mpr ?_
      intro name
      rw [directory.complete, children, List.mem_map]
      constructor
      · rintro ⟨child, isChild, base⟩
        have member : child ∈ superblock.live :=
          mem_live.mpr ⟨space.inTable child isChild.1, isChild.1⟩
        exact ⟨child, List.mem_filter.mpr ⟨member, decide_eq_true isChild⟩,
          base⟩
      · rintro ⟨child, member, base⟩
        exact ⟨child, of_decide_eq_true (List.mem_filter.mp member).2, base⟩
  rmdirEmpty := by
    intro ambient path notRoot removed index live
    unfold fisopfsRmdir at removed
    cases found : superblock.searchInode path with
    | none => simp [found, enoent] at removed
    | some directory =>
        obtain ⟨isLive, rfl⟩ := searchInode_eq_some found
        simp only [found] at removed
        split at removed
        · simp [enotdir] at removed
        · rename_i isDir
          split at removed
          · simp [enotempty] at removed
          · rename_i empty
            exact space.no_descendant ⟨isLive, not_not.mp isDir⟩ notRoot
              (by omega) index live
  readdirOnce := by
    intro index isDirectory
    obtain ⟨names, directory⟩ := space.directories index isDirectory
    have found := space.searchInode isDirectory.1
    have result : superblock.fisopfsReaddir (superblock.pathAt index) =
        (0, names) := by
      unfold fisopfsReaddir
      simp only [found, isDirectory.2, ne_eq, not_true_eq_false, if_false,
        space.directoryEntries directory]
    rw [result]
    exact ⟨rfl, directory.nodup, directory.complete⟩

end Namespace

/-! ## Calls that keep the namespace -/

/-- The paths, types and directory texts are the same. -/
structure SameNamespace (superblock next : Superblock) : Prop where
  bitmap : next.inodeBitmap = superblock.inodeBitmap
  amount : next.inodeAmount = superblock.inodeAmount
  paths : ∀ index, next.pathAt index = superblock.pathAt index
  types : ∀ index,
    (next.inodes index).type = (superblock.inodes index).type
  directories : ∀ index, (superblock.inodes index).type = .dir →
    (next.inodes index).content = (superblock.inodes index).content ∧
      (next.inodes index).size = (superblock.inodes index).size

theorem SameNamespace.refl (superblock : Superblock) :
    superblock.SameNamespace superblock :=
  ⟨rfl, rfl, fun _ => rfl, fun _ => rfl, fun _ _ => ⟨rfl, rfl⟩⟩

/-- Writing over one inode that keeps its path and type and, for a directory,
its text. -/
theorem SameNamespace.setInode (superblock : Superblock) (index : Nat)
    {inode : Inode}
    (path : inode.path = (superblock.inodes index).path)
    (type : inode.type = (superblock.inodes index).type)
    (directory : (superblock.inodes index).type = .dir →
      inode.content = (superblock.inodes index).content ∧
        inode.size = (superblock.inodes index).size) :
    superblock.SameNamespace (superblock.setInode index inode) := by
  refine ⟨rfl, rfl, ?_, ?_, ?_⟩
  · intro other
    by_cases same : other = index
    · subst other
      simp [pathAt, Superblock.setInode, path]
    · simp [pathAt, Superblock.setInode, Function.update_of_ne same]
  · intro other
    by_cases same : other = index
    · subst other
      simp [Superblock.setInode, type]
    · simp [Superblock.setInode, Function.update_of_ne same]
  · intro other isDirectory
    by_cases same : other = index
    · subst other
      simpa [Superblock.setInode] using directory isDirectory
    · simp [Superblock.setInode, Function.update_of_ne same]

theorem SameNamespace.child_iff {superblock next : Superblock}
    (same : superblock.SameNamespace next) (directory : List UInt8)
    (index : Nat) :
    next.Child directory index ↔ superblock.Child directory index := by
  unfold Child Live
  rw [same.bitmap, same.paths]

theorem SameNamespace.preserves {superblock next : Superblock}
    (same : superblock.SameNamespace next) (space : superblock.Namespace) :
    next.Namespace := by
  have live : ∀ index, next.Live index ↔ superblock.Live index := by
    intro index
    unfold Live
    rw [same.bitmap]
  have isDirectory : ∀ index,
      next.IsDirectory index ↔ superblock.IsDirectory index := by
    intro index
    unfold IsDirectory
    rw [live, same.types]
  refine ⟨?_, ?_, ?_, ?_, ?_, ?_⟩
  · exact space.inTable.congr same.bitmap
  · rw [same.amount, space.counted, Superblock.live, Superblock.live,
      same.bitmap]
  · intro index isLive
    rw [same.paths]
    exact space.named index ((live index).mp isLive)
  · intro index other isLive otherLive path
    rw [same.paths, same.paths] at path
    exact space.distinct index other ((live index).mp isLive)
      ((live other).mp otherLive) path
  · intro index isLive notRoot
    rw [same.paths] at notRoot ⊢
    obtain ⟨parent, isParent, path⟩ :=
      space.parents index ((live index).mp isLive) notRoot
    exact ⟨parent, (isDirectory parent).mpr isParent,
      by rw [same.paths, path]⟩
  · intro index isDir
    have before := (isDirectory index).mp isDir
    obtain ⟨names, directory⟩ := space.directories index before
    obtain ⟨content, size⟩ := same.directories index before.2
    refine ⟨names, ?_, ?_, directory.nodup, ?_⟩
    · rw [content, size]
      exact directory.buffer
    · rw [content]
      exact directory.holds
    · intro name
      rw [directory.complete, same.paths]
      simp only [same.child_iff, same.paths]

theorem fisopfsRead_same (superblock : Superblock) (ambient : Ambient)
    (path : List UInt8) (size offset : Nat) :
    superblock.SameNamespace
      (superblock.fisopfsRead ambient path size offset).1 := by
  unfold fisopfsRead
  split
  · exact .refl _
  · dsimp only
    split
    · exact .refl _
    · exact .setInode _ _ rfl rfl (fun _ => ⟨rfl, rfl⟩)

theorem fisopfsUtimens_same (superblock : Superblock) (path : List UInt8)
    (accessed modified : UInt64) :
    superblock.SameNamespace
      (superblock.fisopfsUtimens path accessed modified).1 := by
  unfold fisopfsUtimens
  split
  · exact .refl _
  · exact .setInode _ _ rfl rfl (fun _ => ⟨rfl, rfl⟩)

/-- A call that has checked for a regular file may change its contents. -/
theorem SameNamespace.setFile (superblock : Superblock) (index : Nat)
    {inode : Inode} (isFile : ¬ (superblock.inodes index).type ≠ .file)
    (path : inode.path = (superblock.inodes index).path)
    (type : inode.type = (superblock.inodes index).type) :
    superblock.SameNamespace (superblock.setInode index inode) := by
  refine .setInode superblock index path type ?_
  intro isDirectory
  rw [not_not.mp isFile] at isDirectory
  cases isDirectory

theorem fisopfsWrite_same (superblock : Superblock) (ambient : Ambient)
    (path buffer : List UInt8) (offset : Nat) :
    superblock.SameNamespace
      (superblock.fisopfsWrite ambient path buffer offset).1 := by
  unfold fisopfsWrite
  split
  · exact .refl _
  · dsimp only
    split
    · exact .refl _
    · rename_i isFile
      split
      · exact .refl _
      · exact .setFile _ _ isFile rfl rfl

theorem fisopfsTruncate_same (superblock : Superblock) (ambient : Ambient)
    (path : List UInt8) (size : Nat) :
    superblock.SameNamespace
      (superblock.fisopfsTruncate ambient path size).1 := by
  unfold fisopfsTruncate
  split
  · exact .refl _
  · dsimp only
    split
    · exact .refl _
    · rename_i isFile
      split
      · exact .setFile _ _ isFile rfl rfl
      · split
        · exact .setFile _ _ isFile rfl rfl
        · exact .setFile _ _ isFile rfl rfl

/-! ## Adding an inode -/

/-- A new inode stands in `slot`, and its base name stands last in the text of
`parent`. -/
structure Added (superblock next : Superblock) (slot parent : Nat)
    (path : List UInt8) : Prop where
  slotInTable : slot < inodesAmount
  slotFree : ¬ superblock.Live slot
  wellNamed : WellNamed path
  absent : ∀ index, superblock.Live index → superblock.pathAt index ≠ path
  parentDirectory : superblock.IsDirectory parent
  parentPath : superblock.pathAt parent = parentPath path
  live : ∀ index, next.Live index ↔ index = slot ∨ superblock.Live index
  slotPath : next.pathAt slot = path
  paths : ∀ index, index ≠ slot →
    next.pathAt index = superblock.pathAt index
  types : ∀ index, index ≠ slot →
    (next.inodes index).type = (superblock.inodes index).type
  slotContent : (next.inodes slot).content = zeros initialContentLength
  slotSize : (next.inodes slot).size = 0
  parentBuffer :
    DirectoryBuffer (next.inodes parent).content (next.inodes parent).size
  parentText : text (next.inodes parent).content =
    text (superblock.inodes parent).content ++ (baseName path ++ [newline])
  others : ∀ index, index ≠ slot → index ≠ parent →
    (next.inodes index).content = (superblock.inodes index).content ∧
      (next.inodes index).size = (superblock.inodes index).size
  counted : next.inodeAmount.toInt = next.live.length

namespace Added

variable {superblock next : Superblock} {slot parent : Nat}
variable {path : List UInt8}

theorem parent_ne_slot (added : superblock.Added next slot parent path) :
    parent ≠ slot := by
  rintro rfl
  exact added.slotFree added.parentDirectory.1

theorem child_slot (added : superblock.Added next slot parent path)
    (directory : List UInt8) :
    next.Child directory slot ↔ FileSystem.parentPath path = directory := by
  unfold Child
  rw [added.slotPath, added.live]
  simp [added.wellNamed.ne_slash]

theorem child_other (added : superblock.Added next slot parent path)
    (directory : List UInt8) {index : Nat} (other : index ≠ slot) :
    next.Child directory index ↔ superblock.Child directory index := by
  unfold Child
  rw [added.paths index other, added.live]
  simp [other]

/-- The base names below a directory: the old ones and, below the parent, the
new one. -/
theorem names (added : superblock.Added next slot parent path)
    (directory name : List UInt8) :
    (∃ child, next.Child directory child ∧
        baseName (next.pathAt child) = name) ↔
      (∃ child, superblock.Child directory child ∧
          baseName (superblock.pathAt child) = name) ∨
        FileSystem.parentPath path = directory ∧ baseName path = name := by
  constructor
  · rintro ⟨child, isChild, base⟩
    by_cases same : child = slot
    · subst child
      rw [added.slotPath] at base
      exact Or.inr ⟨(added.child_slot directory).mp isChild, base⟩
    · rw [added.paths child same] at base
      exact Or.inl ⟨child, (added.child_other directory same).mp isChild, base⟩
  · rintro (⟨child, isChild, base⟩ | ⟨isParent, base⟩)
    · have same : child ≠ slot := by
        rintro rfl
        exact added.slotFree isChild.1
      exact ⟨child, (added.child_other directory same).mpr isChild,
        by rw [added.paths child same, base]⟩
    · exact ⟨slot, (added.child_slot directory).mpr isParent,
        by rw [added.slotPath, base]⟩

theorem preserves (added : superblock.Added next slot parent path)
    (space : superblock.Namespace) : next.Namespace := by
  have old : ∀ {index}, next.Live index → index ≠ slot →
      superblock.Live index :=
    fun isLive other => ((added.live _).mp isLive).resolve_left other
  have still : ∀ {index}, superblock.IsDirectory index →
      next.IsDirectory index := by
    intro index isDirectory
    have other : index ≠ slot := by
      rintro rfl
      exact added.slotFree isDirectory.1
    exact ⟨(added.live _).mpr (Or.inr isDirectory.1),
      by rw [added.types index other]; exact isDirectory.2⟩
  refine ⟨?_, added.counted, ?_, ?_, ?_, ?_⟩
  · intro index isLive
    by_cases same : index = slot
    · exact same ▸ added.slotInTable
    · exact space.inTable index (old isLive same)
  · intro index isLive
    by_cases same : index = slot
    · subst index
      rw [added.slotPath]
      exact Or.inr added.wellNamed
    · rw [added.paths index same]
      exact space.named index (old isLive same)
  · intro index other isLive otherLive path
    by_cases same : index = slot
    · by_cases otherSame : other = slot
      · rw [same, otherSame]
      · subst index
        rw [added.slotPath, added.paths other otherSame] at path
        exact absurd path.symm (added.absent other (old otherLive otherSame))
    · by_cases otherSame : other = slot
      · subst other
        rw [added.slotPath, added.paths index same] at path
        exact absurd path (added.absent index (old isLive same))
      · rw [added.paths index same, added.paths other otherSame] at path
        exact space.distinct index other (old isLive same)
          (old otherLive otherSame) path
  · intro index isLive notRoot
    by_cases same : index = slot
    · subst index
      rw [added.slotPath]
      exact ⟨parent, still added.parentDirectory,
        by rw [added.paths parent added.parent_ne_slot, added.parentPath]⟩
    · rw [added.paths index same] at notRoot ⊢
      obtain ⟨above, isDirectory, path⟩ :=
        space.parents index (old isLive same) notRoot
      have other : above ≠ slot := by
        rintro rfl
        exact added.slotFree isDirectory.1
      exact ⟨above, still isDirectory, by rw [added.paths above other, path]⟩
  · intro index isDirectory
    by_cases same : index = slot
    · -- The new directory is empty: nothing lies below an absent path.
      subst index
      refine ⟨[], ?_, ?_, List.nodup_nil, ?_⟩
      · rw [added.slotContent, added.slotSize]
        exact directoryBuffer_new
      · rw [added.slotContent, text_zeros]
        rfl
      · intro name
        rw [added.slotPath, added.names]
        simp only [List.not_mem_nil, false_iff, not_or]
        refine ⟨?_, fun below => added.wellNamed.parentPath_ne below.1⟩
        rintro ⟨child, isChild, -⟩
        obtain ⟨above, isAbove, equal⟩ :=
          space.parents child isChild.1 isChild.2.1
        exact added.absent above isAbove.1 (equal.trans isChild.2.2)
    · have before : superblock.IsDirectory index :=
        ⟨old isDirectory.1 same, by
          rw [← added.types index same]
          exact isDirectory.2⟩
      obtain ⟨names, directory⟩ := space.directories index before
      have pathSame := added.paths index same
      by_cases isParent : index = parent
      · subst index
        have fresh : baseName path ∉ names := by
          intro member
          obtain ⟨child, isChild, base⟩ := (directory.complete _).mp member
          have equal := (space.child_wellNamed isChild).eq_of_parent_base
            added.wellNamed (isChild.2.2.trans added.parentPath) base
          exact added.absent child isChild.1 equal
        refine ⟨names ++ [baseName path], added.parentBuffer, ?_, ?_, ?_⟩
        · rw [added.parentText, directory.holds, encodeEntries_append]
          simp
        · rw [← List.concat_eq_append]
          exact List.Nodup.concat fresh directory.nodup
        · intro name
          rw [pathSame, added.names, ← directory.complete, List.mem_append,
            List.mem_singleton, added.parentPath]
          simp [eq_comm]
      · obtain ⟨content, size⟩ := added.others index same isParent
        refine ⟨names, ?_, ?_, directory.nodup, ?_⟩
        · rw [content, size]
          exact directory.buffer
        · rw [content]
          exact directory.holds
        · intro name
          have elsewhere :
              ¬ FileSystem.parentPath path = superblock.pathAt index := by
            intro here
            apply isParent
            exact space.distinct index parent before.1
              added.parentDirectory.1 (here.symm.trans added.parentPath.symm)
          rw [pathSame, added.names, ← directory.complete]
          simp [elsewhere]

end Added

/-! ## Removing an inode -/

/-- The inode in `slot` is gone, and so is its base name from the text of
`parent`. -/
structure Removed (superblock next : Superblock) (slot parent : Nat) :
    Prop where
  slotLive : superblock.Live slot
  wellNamed : WellNamed (superblock.pathAt slot)
  childless : ∀ index,
    ¬ superblock.Child (superblock.pathAt slot) index
  parentDirectory : superblock.IsDirectory parent
  parentPath : superblock.pathAt parent = parentPath (superblock.pathAt slot)
  live : ∀ index, next.Live index ↔ index ≠ slot ∧ superblock.Live index
  paths : ∀ index, next.pathAt index = superblock.pathAt index
  types : ∀ index,
    (next.inodes index).type = (superblock.inodes index).type
  parentBuffer :
    DirectoryBuffer (next.inodes parent).content (next.inodes parent).size
  parentText : ∀ names, superblock.DirectoryAt parent names →
    text (next.inodes parent).content = encodeEntries
      (names.filter (· ≠ baseName (superblock.pathAt slot)))
  others : ∀ index, index ≠ parent →
    (next.inodes index).content = (superblock.inodes index).content ∧
      (next.inodes index).size = (superblock.inodes index).size
  counted : next.inodeAmount.toInt = next.live.length

namespace Removed

variable {superblock next : Superblock} {slot parent : Nat}

theorem child_iff (removed : superblock.Removed next slot parent)
    (directory : List UInt8) (index : Nat) :
    next.Child directory index ↔
      index ≠ slot ∧ superblock.Child directory index := by
  unfold Child
  rw [removed.paths, removed.live, and_assoc]

theorem preserves (removed : superblock.Removed next slot parent)
    (space : superblock.Namespace) : next.Namespace := by
  have old : ∀ {index}, next.Live index → superblock.Live index :=
    fun isLive => ((removed.live _).mp isLive).2
  have before : ∀ {index}, next.IsDirectory index →
      superblock.IsDirectory index := by
    intro index isDirectory
    exact ⟨old isDirectory.1, by
      rw [← removed.types]
      exact isDirectory.2⟩
  refine ⟨?_, removed.counted, ?_, ?_, ?_, ?_⟩
  · intro index isLive
    exact space.inTable index (old isLive)
  · intro index isLive
    rw [removed.paths]
    exact space.named index (old isLive)
  · intro index other isLive otherLive path
    rw [removed.paths, removed.paths] at path
    exact space.distinct index other (old isLive) (old otherLive) path
  · -- The parent of a live inode is not the removed one, which has no child.
    intro index isLive notRoot
    rw [removed.paths] at notRoot ⊢
    obtain ⟨above, isDirectory, path⟩ :=
      space.parents index (old isLive) notRoot
    have other : above ≠ slot := by
      rintro rfl
      exact removed.childless index ⟨old isLive, notRoot, path.symm⟩
    exact ⟨above,
      ⟨(removed.live above).mpr ⟨other, isDirectory.1⟩,
        by rw [removed.types]; exact isDirectory.2⟩,
      by rw [removed.paths, path]⟩
  · intro index isDirectory
    obtain ⟨names, directory⟩ := space.directories index (before isDirectory)
    by_cases isParent : index = parent
    · subst index
      refine ⟨names.filter (· ≠ baseName (superblock.pathAt slot)),
        removed.parentBuffer, removed.parentText names directory,
        directory.nodup.filter _, ?_⟩
      intro name
      rw [List.mem_filter, directory.complete, decide_eq_true_iff]
      simp only [removed.child_iff, removed.paths]
      have slotChild :
          superblock.Child (superblock.pathAt parent) slot :=
        ⟨removed.slotLive, removed.wellNamed.ne_slash,
          removed.parentPath.symm⟩
      constructor
      · rintro ⟨⟨child, isChild, base⟩, different⟩
        refine ⟨child, ⟨?_, isChild⟩, base⟩
        rintro rfl
        exact different base.symm
      · rintro ⟨child, ⟨different, isChild⟩, base⟩
        refine ⟨⟨child, isChild, base⟩, ?_⟩
        intro same
        exact different
          (space.child_injective isChild slotChild (base.trans same))
    · obtain ⟨content, size⟩ := removed.others index isParent
      refine ⟨names, ?_, ?_, directory.nodup, ?_⟩
      · rw [content, size]
        exact directory.buffer
      · rw [content]
        exact directory.holds
      · intro name
        rw [directory.complete]
        simp only [removed.child_iff, removed.paths]
        constructor
        · rintro ⟨child, isChild, base⟩
          refine ⟨child, ⟨?_, isChild⟩, base⟩
          rintro rfl
          apply isParent
          exact space.distinct index parent (before isDirectory).1
            removed.parentDirectory.1
            (isChild.2.2.symm.trans removed.parentPath.symm)
        · rintro ⟨child, ⟨-, isChild⟩, base⟩
          exact ⟨child, isChild, base⟩

end Removed

/-! ## The calls that change the namespace -/

theorem toInt_succ {value : Int32} (bound : value.toInt ≤ inodesAmount) :
    (value + 1).toInt = value.toInt + 1 := by
  have one : (1 : Int32).toInt = 1 := rfl
  have lower := value.le_toInt
  simp only [inodesAmount] at bound
  rw [Int32.toInt_add, one]
  exact Int.bmod_eq_of_le (by omega) (by omega)

theorem toInt_pred {value : Int32} (positive : 0 ≤ value.toInt) :
    (value - 1).toInt = value.toInt - 1 := by
  have one : (1 : Int32).toInt = 1 := rfl
  have upper := value.toInt_lt
  rw [Int32.toInt_sub, one]
  exact Int.bmod_eq_of_le (by omega) (by omega)

theorem addDentryToParentDir_eq {superblock : Superblock} {ambient : Ambient}
    {path : List UInt8} {parent : Nat}
    (found : superblock.getParent path = some parent)
    (isDirectory : (superblock.inodes parent).type = .dir) :
    superblock.addDentryToParentDir ambient path =
      let extended := addDentryToContent ambient
        (superblock.inodes parent).content (superblock.inodes parent).size
        (baseName path)
      (superblock.setInode parent
          { superblock.inodes parent with
            content := extended.1
            size := extended.2 },
        0, path ++ [newline]) := by
  unfold addDentryToParentDir
  simp only [found, isDirectory, ne_eq, not_true_eq_false, if_false]

/-- A slot filled with a new inode, and a parent whose text has grown by the new
name. -/
theorem Namespace.added {superblock : Superblock}
    (space : superblock.Namespace) {slot parent : Nat} {path : List UInt8}
    (slotInTable : slot < inodesAmount)
    (slotFree : superblock.inodeBitmap slot = false)
    (wellNamed : WellNamed path)
    (absent : ∀ index, superblock.Live index →
      superblock.pathAt index ≠ path)
    (parentDirectory : superblock.IsDirectory parent)
    (parentPath : superblock.pathAt parent = parentPath path)
    {new grown : Inode} (newPath : new.path.text = path)
    (newContent : new.content = zeros initialContentLength)
    (newSize : new.size = 0)
    (grownPath : grown.path = (superblock.inodes parent).path)
    (grownType : grown.type = (superblock.inodes parent).type)
    (grownBuffer : DirectoryBuffer grown.content grown.size)
    (grownText : text grown.content =
      text (superblock.inodes parent).content ++ (baseName path ++ [newline])) :
    superblock.Added
      ((superblock.addInode slot new).setInode parent grown) slot parent
      path := by
  have notLive : ¬ superblock.Live slot := by
    intro live
    exact absurd (live.symm.trans slotFree) (by decide)
  have parentOther : parent ≠ slot := by
    rintro rfl
    exact notLive parentDirectory.1
  have atSlot :
      ((superblock.addInode slot new).setInode parent grown).inodes slot =
        new := by
    rw [setInode_inodes_of_ne _ _ (Ne.symm parentOther), addInode_inodes_self]
  have atParent :
      ((superblock.addInode slot new).setInode parent grown).inodes parent =
        grown :=
    setInode_inodes_self _ parent grown
  have elsewhere : ∀ index, index ≠ slot → index ≠ parent →
      ((superblock.addInode slot new).setInode parent grown).inodes index =
        superblock.inodes index := by
    intro index notSlot notParent
    rw [setInode_inodes_of_ne _ _ notParent, addInode_inodes_of_ne _ _ notSlot]
  have few := space.counted
  have bounded := length_live_le superblock
  refine
    { slotInTable, slotFree := notLive, wellNamed, absent, parentDirectory,
      parentPath, live := addInode_inodeBitmap superblock slot new
      slotPath := ?_, paths := ?_, types := ?_, slotContent := ?_,
      slotSize := ?_, parentBuffer := ?_, parentText := ?_, others := ?_,
      counted := ?_ }
  · rw [pathAt, atSlot, newPath]
  · intro index notSlot
    by_cases isParent : index = parent
    · subst index
      rw [pathAt, atParent, grownPath]
      rfl
    · rw [pathAt, elsewhere index notSlot isParent]
      rfl
  · intro index notSlot
    by_cases isParent : index = parent
    · subst index
      rw [atParent, grownType]
    · rw [elsewhere index notSlot isParent]
  · rw [atSlot, newContent]
  · rw [atSlot, newSize]
  · rw [atParent]
    exact grownBuffer
  · rw [atParent, grownText]
  · intro index notSlot notParent
    rw [elsewhere index notSlot notParent]
    exact ⟨rfl, rfl⟩
  · have grownCount :
        ((superblock.addInode slot new).setInode parent grown).live.length =
          superblock.live.length + 1 :=
      length_live_addInode new slotInTable slotFree
    have amount :
        ((superblock.addInode slot new).setInode parent grown).inodeAmount =
          superblock.inodeAmount + 1 := rfl
    rw [grownCount, amount, toInt_succ (by omega), few]
    rfl

/-- `create_inode` followed by `add_dentry_to_parent_dir` adds an inode or
leaves the table as it is. -/
theorem Namespace.createEntry {superblock : Superblock}
    (space : superblock.Namespace) {ambient : Ambient}
    (grants : ∀ length, ambient.grants length = true) {path : List UInt8}
    (nulFree : 0 ∉ path) (wellNamed : WellNamed path)
    (absent : superblock.searchInode path = none) {parent : Nat}
    (found : superblock.getParent path = some parent)
    (isDirectory : (superblock.inodes parent).type = .dir)
    (inexact : path.length < maxPath → superblock.searchFreeInode ≠ none →
      (strlen (superblock.inodes parent).content +
        (baseName path).length + 1 : Int) ≠
          (superblock.inodes parent).size.toInt)
    (mode : UInt32) (type : InodeType) :
    (superblock.createEntry ambient path mode type).1 = superblock ∨
      ∃ slot, superblock.Added
        (superblock.createEntry ambient path mode type).1 slot parent path := by
  by_cases long : path.length ≥ maxPath
  · left
    have failed : superblock.createInode ambient path mode type =
        (superblock, -enametoolong) := by
      unfold createInode
      rw [if_pos long]
    unfold Superblock.createEntry
    rw [failed]
    rfl
  · cases free : superblock.searchFreeInode with
    | none =>
        left
        have failed : superblock.createInode ambient path mode type =
            (superblock, -enospc) := by
          unfold createInode
          rw [if_neg long, free]
        unfold Superblock.createEntry
        rw [failed]
        rfl
    | some slot =>
        right
        refine ⟨slot, ?_⟩
        have short : path.length < maxPath := Nat.not_le.mp long
        obtain ⟨slotInTable, slotFree⟩ := searchFreeInode_eq_some free
        rw [getParent_of_wellNamed wellNamed] at found
        obtain ⟨parentLive, parentPath⟩ := searchInode_eq_some found
        have other : parent ≠ slot := by
          rintro rfl
          exact absurd (parentLive.symm.trans slotFree) (by decide)
        obtain ⟨names, directory⟩ :=
          space.directories parent ⟨parentLive, isDirectory⟩
        have textShort := space.strlen_lt directory
        have nameShort := baseName_length_le path
        have fits : strlen (superblock.inodes parent).content +
            (baseName path).length < 2 ^ 24 := by
          simp only [maxPath] at short
          omega
        have roomy := inexact short (by rw [free]; exact nofun)
        have appended := addDentryToContent_spec directory.buffer
          wellNamed.component.nulFree grants roomy fits
        let new := newInode ambient (superblock.inodes slot) path mode type
        have newPath : new.path.text = path :=
          PathArray.text_strcpy _ nulFree short
        have parentSame : (superblock.addInode slot new).inodes parent =
            superblock.inodes parent := addInode_inodes_of_ne _ _ other
        have foundAgain :
            (superblock.addInode slot new).getParent path = some parent := by
          rw [getParent_of_wellNamed wellNamed]
          refine searchInode_of_unique (space.inTable parent parentLive)
            ((addInode_inodeBitmap _ _ _ _).mpr (Or.inr parentLive)) ?_ ?_
          · rw [pathAt, parentSame]
            exact parentPath
          · intro index live path
            by_cases isSlot : index = slot
            · subst index
              rw [pathAt, addInode_inodes_self, newPath] at path
              exact absurd path.symm wellNamed.parentPath_ne
            · have before : superblock.Live index :=
                ((addInode_inodeBitmap _ _ _ _).mp live).resolve_left isSlot
              rw [pathAt, addInode_inodes_of_ne _ _ isSlot] at path
              exact space.distinct index parent before parentLive
                (path.trans parentPath.symm)
        have directoryAgain :
            ((superblock.addInode slot new).inodes parent).type = .dir := by
          rw [parentSame, isDirectory]
        have created := createInode_eq short free (grants _) mode type
        have nonnegative : ¬ ((slot : Int) < 0) := by omega
        unfold Superblock.createEntry
        rw [created]
        simp only [nonnegative, if_false]
        rw [addDentryToParentDir_eq foundAgain directoryAgain]
        simp only [lt_irrefl, if_false, parentSame]
        exact space.added slotInTable slotFree wellNamed
          (fun index live => searchInode_eq_none space.inTable absent live)
          ⟨parentLive, isDirectory⟩ parentPath newPath rfl rfl rfl rfl
          appended.1 appended.2

theorem clearBitmap_live {superblock : Superblock} (slot index : Nat) :
    (superblock.setBitmap slot false).Live index ↔
      index ≠ slot ∧ superblock.Live index := by
  unfold Live setBitmap
  by_cases same : index = slot
  · subst index
    simp
  · simp [same]

/-- `remove_inode` on a live inode without children. -/
theorem Namespace.removeInode {superblock : Superblock}
    (space : superblock.Namespace) {ambient : Ambient}
    (grants : ∀ length, ambient.grants length = true) {slot : Nat}
    (live : superblock.Live slot)
    (notRoot : superblock.pathAt slot ≠ [slash])
    (childless : ∀ index,
      ¬ superblock.Child (superblock.pathAt slot) index) :
    ∃ parent, superblock.Removed
      (superblock.removeInode ambient (superblock.pathAt slot) slot) slot
      parent := by
  have wellNamed := (space.named slot live).resolve_left notRoot
  obtain ⟨parent, parentDirectory, parentPath⟩ :=
    space.parents slot live notRoot
  obtain ⟨names, directory⟩ := space.directories parent parentDirectory
  have other : parent ≠ slot := by
    rintro rfl
    exact wellNamed.parentPath_ne parentPath.symm
  have ownName : baseName (superblock.pathAt slot) ∈ names :=
    (directory.complete _).mpr
      ⟨slot, ⟨live, notRoot, parentPath.symm⟩, rfl⟩
  have rebuilt := rebuild_spec ambient (baseName (superblock.pathAt slot))
    directory.buffer
    (fun _ member => (space.isEntry directory member).isLine)
    directory.holds (List.ne_nil_of_mem ownName)
  have found : (superblock.setBitmap slot false).getParent
      (superblock.pathAt slot) = some parent := by
    rw [getParent_of_wellNamed wellNamed]
    refine searchInode_of_unique (space.inTable parent parentDirectory.1)
      ((clearBitmap_live slot parent).mpr ⟨other, parentDirectory.1⟩)
      parentPath ?_
    intro index indexLive path
    exact space.distinct index parent
      ((clearBitmap_live slot index).mp indexLive).2 parentDirectory.1
      (path.trans parentPath.symm)
  have nonnegative : 0 ≤ (superblock.inodes parent).size.toInt := by
    rcases directory.buffer.sized with exact | zero
    · omega
    · omega
  have granted : calloc ambient (superblock.inodes parent).size.toInt =
      some (zeros (superblock.inodes parent).size.toInt.toNat) := by
    unfold calloc
    rw [if_pos ⟨nonnegative, grants _⟩]
  refine ⟨parent, ?_⟩
  unfold Superblock.removeInode
  simp only [found, setBitmap_inodes, granted, wellNamed.mem_slash,
    not_true_eq_false, if_false, space.directoryEntries directory]
  generalize names.foldl _ _ = text' at rebuilt
  refine
    { slotLive := live, wellNamed, childless, parentDirectory, parentPath
      live := clearBitmap_live slot, paths := ?_, types := ?_
      parentBuffer := ?_, parentText := ?_, others := ?_, counted := ?_ }
  · intro index
    by_cases isParent : index = parent
    · subst index
      simp [pathAt]
    · simp [pathAt, setInode_inodes_of_ne _ _ isParent]
  · intro index
    by_cases isParent : index = parent
    · subst index
      simp
    · simp [setInode_inodes_of_ne _ _ isParent]
  · simpa using rebuilt.1
  · intro others same
    have equal : others = names := by
      rw [← space.directoryEntries same, space.directoryEntries directory]
    rw [equal]
    simpa using rebuilt.2
  · intro index notParent
    simp [setInode_inodes_of_ne _ _ notParent]
  · have before := length_live_clearBitmap (space.inTable slot live) live
    have counted := space.counted
    change (superblock.inodeAmount - 1).toInt =
      (superblock.setBitmap slot false).live.length
    rw [toInt_pred (by omega)]
    omega

theorem Namespace.unlink {superblock : Superblock}
    (space : superblock.Namespace) {ambient : Ambient}
    (grants : ∀ length, ambient.grants length = true) {path : List UInt8}
    (notRoot : path ≠ [slash]) :
    (superblock.fisopfsUnlink ambient path).1.Namespace := by
  unfold fisopfsUnlink
  cases found : superblock.searchInode path with
  | none => exact space
  | some slot =>
      obtain ⟨live, rfl⟩ := searchInode_eq_some found
      dsimp only
      split
      · exact space
      · rename_i isFile
        -- A regular file has no children.
        have childless : ∀ index,
            ¬ superblock.Child (superblock.pathAt slot) index := by
          rintro index ⟨indexLive, indexNotRoot, below⟩
          obtain ⟨parent, isDirectory, path⟩ :=
            space.parents index indexLive indexNotRoot
          have same := space.distinct parent slot isDirectory.1 live
            (path.trans below)
          subst same
          rw [isDirectory.2] at isFile
          exact isFile (by decide)
        obtain ⟨parent, removed⟩ :=
          space.removeInode grants live notRoot childless
        exact removed.preserves space

theorem Namespace.rmdir {superblock : Superblock}
    (space : superblock.Namespace) {ambient : Ambient}
    (grants : ∀ length, ambient.grants length = true) {path : List UInt8}
    (notRoot : path ≠ [slash]) :
    (superblock.fisopfsRmdir ambient path).1.Namespace := by
  unfold fisopfsRmdir
  cases found : superblock.searchInode path with
  | none => exact space
  | some slot =>
      obtain ⟨live, rfl⟩ := searchInode_eq_some found
      dsimp only
      split
      · exact space
      · rename_i isDir
        split
        · exact space
        · rename_i empty
          have childless :=
            space.childless ⟨live, not_not.mp isDir⟩ (by omega)
          obtain ⟨parent, removed⟩ :=
            space.removeInode grants live notRoot childless
          exact removed.preserves space

/-! ## Runs -/

/-- A roomy call keeps the invariant. -/
theorem Namespace.call {superblock : Superblock}
    (space : superblock.Namespace) {ambient : Ambient} {call : Call}
    (roomy : RoomyCall superblock (ambient, call)) :
    (superblock.call ambient call).1.Namespace := by
  obtain ⟨⟨grants, guaranteed⟩, inexact⟩ := roomy
  have create : ∀ (path : AbsolutePath) (mode : UInt32) (type : InodeType),
      superblock.Guaranteed (.mkdir path mode) →
      ¬ superblock.FillsParent (.mkdir path mode) →
      (superblock.createEntry ambient path.bytes mode type).1.Namespace := by
    intro path mode type ⟨wellNamed, absent, parent, found, isDirectory⟩ roomy
    have notExact : path.bytes.length < maxPath →
        superblock.searchFreeInode ≠ none →
        (strlen (superblock.inodes parent).content +
          (baseName path.bytes).length + 1 : Int) ≠
            (superblock.inodes parent).size.toInt :=
      fun short free exact => roomy ⟨short, free, parent, found, exact⟩
    rcases space.createEntry grants path.nulFree wellNamed absent found
      isDirectory notExact mode type with unchanged | ⟨slot, added⟩
    · rw [unchanged]
      exact space
    · exact added.preserves space
  cases call with
  | getattr path => exact space
  | readdir path => exact space
  | read path size offset =>
      exact (fisopfsRead_same superblock ambient _ _ _).preserves space
  | mkdir path mode => exact create path mode .dir guaranteed inexact
  | create path mode => exact create path mode .file guaranteed inexact
  | utimens path accessed modified =>
      exact (fisopfsUtimens_same superblock _ _ _).preserves space
  | write path buffer offset =>
      exact (fisopfsWrite_same superblock ambient _ _ _).preserves space
  | truncate path size =>
      exact (fisopfsTruncate_same superblock ambient _ _).preserves space
  | unlink path => exact space.unlink grants guaranteed.2
  | rmdir path => exact space.rmdir grants guaranteed.2

/-- The root directory of a fresh mount. -/
theorem fresh_namespace {ambient : Ambient}
    (granted : ambient.grants initialContentLength = true) :
    (Superblock.fresh ambient).Namespace := by
  rw [fresh_eq granted]
  let root := newInode ambient Inode.zero [slash] directoryMode .dir
  have path : (Superblock.empty.addInode 0 root).pathAt 0 = [slash] := by
    rw [pathAt, addInode_inodes_self]
    exact PathArray.text_strcpy _ (by decide) (by decide)
  have only : ∀ index, (Superblock.empty.addInode 0 root).Live index →
      index = 0 := by
    intro index live
    rcases (addInode_inodeBitmap _ _ _ _).mp live with first | other
    · exact first
    · cases other
  refine ⟨?_, ?_, ?_, ?_, ?_, ?_⟩
  · intro index live
    rw [only index live]
    decide
  · have empty : Superblock.empty.live.length = 0 := by
      simp [Superblock.live, Superblock.empty]
    rw [length_live_addInode root (by decide) rfl, empty]
    rfl
  · intro index live
    rw [only index live]
    exact Or.inl path
  · intro index other live otherLive _
    rw [only index live, only other otherLive]
  · intro index live notRoot
    rw [only index live] at notRoot
    exact absurd path notRoot
  · rintro index ⟨live, -⟩
    have first := only index live
    subst index
    refine ⟨[], ?_, ?_, List.nodup_nil, ?_⟩
    · rw [addInode_inodes_self]
      exact directoryBuffer_new
    · rw [addInode_inodes_self]
      exact text_zeros _
    · intro name
      simp only [List.not_mem_nil, false_iff]
      rintro ⟨child, ⟨childLive, notRoot, -⟩, -⟩
      rw [only child childLive] at notRoot
      exact notRoot path

end Superblock

/-- In every run of guaranteed calls that never fills a parent exactly the table
and the directories agree. -/
theorem consistent_of_roomy {ambient : Ambient}
    (granted : ambient.grants initialContentLength = true)
    {superblock : Superblock}
    (reachable : (session ambient).Reachable RoomyCall superblock) :
    superblock.Consistent := by
  have space : superblock.Namespace := by
    refine reachable.invariant ?_ ?_
    · rintro _ rfl
      exact Superblock.fresh_namespace granted
    · rintro current ⟨surroundings, call⟩ _ space roomy rfl
      exact space.call roomy
  exact space.consistent

/-- A new file directly below `/` whose name repeats one byte. -/
def repeatedName (byte : UInt8) (count : Nat) (notNul : byte ≠ 0) : Call :=
  .create
    ⟨slash :: List.replicate count byte, rfl, by
      intro member
      rcases List.mem_cons.mp member with first | rest
      · exact absurd first (by decide)
      · exact notNul (List.eq_of_mem_replicate rest).symm⟩ 420

/-- Seven bytes open a root directory of 1032 bytes, and the next five names
fill it to the last byte. -/
def fillingCalls : List Call :=
  [repeatedName 97 7 (by decide), repeatedName 98 254 (by decide),
    repeatedName 99 254 (by decide), repeatedName 100 254 (by decide),
    repeatedName 101 254 (by decide), repeatedName 102 3 (by decide)]

theorem consistent_before_filling :
    (Superblock.calls .generous (fillingCalls.take 5)).Consistent :=
  consistent_of_roomy rfl (Superblock.reachable_calls
    (fun superblock call => superblock.Guaranteed call ∧
      ¬ superblock.FillsParent call)
    (fun _ _ roomy => ⟨⟨fun _ => rfl, roomy.1⟩, roomy.2⟩)
    (by decide +kernel))

/-- After the sixth call the text of `/` has no terminator. -/
theorem not_consistent_after_filling :
    (session .generous).Reachable GuaranteedCall
        (Superblock.calls .generous fillingCalls) ∧
      ¬ (Superblock.calls .generous fillingCalls).Consistent := by
  constructor
  · exact Superblock.reachable_calls Superblock.Guaranteed
      (fun _ _ guaranteed => ⟨fun _ => rfl, guaranteed⟩) (by decide +kernel)
  · intro consistent
    have isDirectory :
        (Superblock.calls .generous fillingCalls).IsDirectory 0 := by
      refine ⟨?_, by decide +kernel⟩
      unfold Superblock.Live
      decide +kernel
    obtain ⟨names, decoded, -⟩ := consistent.entries 0 isDirectory
    have unterminated : ¬ Terminated
        ((Superblock.calls .generous fillingCalls).inodes 0).content := by
      decide +kernel
    rw [decodeDirectory, if_neg unterminated] at decoded
    cases decoded

end FeaturesOS.FileSystem

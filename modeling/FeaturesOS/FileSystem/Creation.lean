import FeaturesOS.FileSystem.Lines

/-!
# Creating files and directories

`fisopfs_mkdir` and `fisopfs_create` fill a slot of the inode table before they
look for the parent.  Nothing is taken back when the parent is missing or is no
directory, or when its content cannot be enlarged or has been freed.
-/

namespace FeaturesOS.FileSystem

open CString

namespace Superblock

variable {superblock next : Superblock} {ambient : Ambient}
variable {path : List UInt8} {mode : UInt32} {type : InodeType} {slot : Nat}

/-! ## What a creation does -/

/-- The inodes in use and their number are the same. -/
structure Untouched (superblock next : Superblock) : Prop where
  live : next.live = superblock.live
  amount : next.inodeAmount = superblock.inodeAmount
  inodes : ∀ index ∈ superblock.live,
    next.inodes index = superblock.inodes index

/-- A parent directory has been given the base name of the path as an entry. -/
structure EntersParent (superblock next : Superblock) (path : List UInt8)
    (parent : Nat) : Prop where
  found : superblock.getParent path = some parent
  type : (superblock.inodes parent).type = .dir
  isLine : IsLine (baseName path)
  content : text (next.inodes parent).content =
    text (superblock.inodes parent).content ++ (baseName path ++ [newline])

/-- One inode is new, and one entry in the content of its parent. -/
structure AddsOne (superblock next : Superblock) (path : List UInt8) :
    Prop where
  inode : ∃ slot, slot ∉ superblock.live ∧
    (∀ index, index ∈ next.live ↔ index = slot ∨ index ∈ superblock.live) ∧
    (next.inodes slot).path.text = path
  amount : next.inodeAmount = superblock.inodeAmount + 1
  entry : ∃ parent, superblock.EntersParent next path parent
  others : ∀ index ∈ superblock.live, superblock.getParent path ≠ some index →
    next.inodes index = superblock.inodes index

/-- A creation that fails changes nothing, and one that succeeds adds one inode
and one entry. -/
structure CreatesAtomically (superblock : Superblock) (ambient : Ambient)
    (path : List UInt8) (mode : UInt32) (type : InodeType) : Prop where
  failed : (superblock.createEntry ambient path mode type).2.1 ≠ 0 →
    superblock.Untouched (superblock.createEntry ambient path mode type).1
  done : (superblock.createEntry ambient path mode type).2.1 = 0 →
    superblock.AddsOne (superblock.createEntry ambient path mode type).1 path

/-- The parent is a directory that takes the base name of the path in as one
entry. -/
def TakesEntry (superblock : Superblock) (ambient : Ambient)
    (path : List UInt8) : Prop :=
  ∃ parent, superblock.getParent path = some parent ∧
    (superblock.inodes parent).type = .dir ∧
    ¬ DropsEntry ambient (superblock.inodes parent).content
      (superblock.inodes parent).size (baseName path) ∧
    newline ∉ baseName path

theorem Untouched.refl (superblock : Superblock) :
    superblock.Untouched superblock :=
  ⟨rfl, rfl, fun _ _ => rfl⟩

theorem searchFreeInode_notLive
    (free : superblock.searchFreeInode = some slot) :
    slot ∉ superblock.live := by
  intro live
  cases (searchFreeInode_eq_some free).2.symm.trans (mem_live.mp live).2

/-- A slot that is not in use may be written. -/
theorem Untouched.setInode (notLive : slot ∉ superblock.live)
    (inode : Inode) : superblock.Untouched (superblock.setInode slot inode) := by
  refine ⟨rfl, rfl, fun index live => ?_⟩
  apply setInode_inodes_of_ne
  rintro rfl
  exact notLive live

/-- `create_inode` fails before it fills a slot. -/
theorem createInode_untouched (cannot : ¬ superblock.CanCreate ambient path)
    (mode : UInt32) (type : InodeType) :
    superblock.Untouched
      (superblock.createInode ambient path mode type).1 := by
  unfold createInode
  split
  · exact .refl superblock
  · rename_i short
    split
    · exact .refl superblock
    · rename_i freeIndex found
      dsimp only
      split
      · exact .setInode (searchFreeInode_notLive found) _
      · rename_i content allocated
        exfalso
        apply cannot
        refine ⟨Nat.lt_of_not_le short, ?_, ?_⟩
        · rw [found]
          exact Option.some_ne_none freeIndex
        · unfold calloc at allocated
          split at allocated
          · rename_i possible
            exact possible.2
          · cases allocated

theorem createEntry_cannot (cannot : ¬ superblock.CanCreate ambient path)
    (mode : UInt32) (type : InodeType) :
    (superblock.createEntry ambient path mode type).2.1 ≠ 0 ∧
      superblock.Untouched
        (superblock.createEntry ambient path mode type).1 := by
  have untouched := createInode_untouched cannot mode type
  rcases createInode_cases superblock ambient path mode type with
    ⟨negative, -⟩ | ⟨_, _, can, _⟩
  · unfold createEntry
    dsimp only
    rw [if_pos negative]
    exact ⟨Int.ne_of_lt negative, untouched⟩
  · exact absurd can cannot

/-- The table with the new inode. -/
def withCreated (superblock : Superblock) (ambient : Ambient)
    (path : List UInt8) (mode : UInt32) (type : InodeType) (slot : Nat) :
    Superblock :=
  superblock.addInode slot
    (newInode ambient (superblock.inodes slot) path mode type)

/-- The parent with the new entry. -/
def withEntry (ambient : Ambient) (parent : Inode) (name : List UInt8) :
    Inode :=
  { parent with
    content := (addDentryToContent ambient parent.content parent.size name).1
    size := (addDentryToContent ambient parent.content parent.size name).2 }

/-- What happens once the slot is filled: without a parent the call returns 0, and
with one that is no directory it returns `-ENOTDIR`. -/
theorem createEntry_run (absolute : path.head? = some slash)
    (nulFree : 0 ∉ path) (can : superblock.CanCreate ambient path)
    (free : superblock.searchFreeInode = some slot) (mode : UInt32)
    (type : InodeType) :
    superblock.createEntry ambient path mode type =
      let created := superblock.withCreated ambient path mode type slot
      match superblock.getParent path with
      | none => (created, 0, path)
      | some parent =>
          if (superblock.inodes parent).type ≠ .dir then
            (created, -enotdir, path)
          else
            (created.setInode parent
              (withEntry ambient (superblock.inodes parent) (baseName path)),
              0, path ++ [newline]) := by
  have isFree := (searchFreeInode_eq_some free).2
  rcases createInode_cases superblock ambient path mode type with
    ⟨-, cannot⟩ | ⟨freeIndex, found, -, created⟩
  · exact absurd can cannot
  · cases free.symm.trans found
    have named : (newInode ambient (superblock.inodes slot) path mode
        type).path.text = path :=
      (superblock.inodes slot).path.text_strcpy nulFree can.1
    unfold createEntry withCreated
    rw [created]
    dsimp only
    rw [if_neg (Int.not_lt.mpr (Int.natCast_nonneg slot))]
    generalize newInode ambient _ path mode type = new at named
    have sameParent := @getParent_addInode _ _ absolute _ _ isFree named
    unfold addDentryToParentDir
    rw [sameParent]
    cases isParent : superblock.getParent path with
    | none => rfl
    | some parent =>
        have other : parent ≠ slot := by
          rintro rfl
          cases isFree.symm.trans (live_of_getParent isParent)
        simp only [addInode_inodes_of_ne _ new other]
        split
        · rfl
        · rfl

/-! ## Atomicity -/

section Created

variable (free : superblock.searchFreeInode = some slot)

include free

theorem mem_live_withCreated (index : Nat) :
    index ∈ (superblock.withCreated ambient path mode type slot).live ↔
      index = slot ∨ index ∈ superblock.live := by
  have inside := (searchFreeInode_eq_some free).1
  rw [mem_live, mem_live, withCreated, addInode_inodeBitmap]
  constructor
  · rintro ⟨below, isSlot | live⟩
    · exact .inl isSlot
    · exact .inr ⟨below, live⟩
  · rintro (rfl | ⟨below, live⟩)
    · exact ⟨inside, .inl rfl⟩
    · exact ⟨below, .inr live⟩

/-- A slot that stays filled is no failure without effect. -/
theorem not_untouched_withCreated :
    ¬ superblock.Untouched
      (superblock.withCreated ambient path mode type slot) := by
  intro untouched
  have created := (@mem_live_withCreated _ ambient path mode type _ free
    slot).mpr (.inl rfl)
  rw [untouched.live] at created
  exact searchFreeInode_notLive free created

theorem addsOne_withEntry (lined : superblock.Lined) (nulFree : 0 ∉ path)
    (short : path.length < maxPath) {parent : Nat}
    (isParent : superblock.getParent path = some parent)
    (isDirectory : (superblock.inodes parent).type = .dir)
    (keeps : ¬ DropsEntry ambient (superblock.inodes parent).content
      (superblock.inodes parent).size (baseName path))
    (noNewline : newline ∉ baseName path) :
    superblock.AddsOne
      ((superblock.withCreated ambient path mode type slot).setInode parent
        (withEntry ambient (superblock.inodes parent) (baseName path))) path := by
  have parentLive := live_of_getParent isParent
  have isFree := (searchFreeInode_eq_some free).2
  have other : parent ≠ slot := by
    rintro rfl
    cases isFree.symm.trans parentLive
  have baseFree := nulFree_baseName nulFree
  have baseShort := Nat.lt_of_le_of_lt (baseName_length_le path) short
  have buffer := (lined parent parentLive).buffer isDirectory
  refine ⟨⟨slot, searchFreeInode_notLive free,
    mem_live_withCreated free, ?_⟩, rfl, ⟨parent, isParent, isDirectory,
    ⟨noNewline, baseFree⟩, ?_⟩, ?_⟩
  · rw [setInode_inodes_of_ne _ _ (Ne.symm other), withCreated,
      addInode_inodes_self]
    exact (superblock.inodes slot).path.text_strcpy nulFree short
  · rw [setInode_inodes_self]
    rcases @LinedBuffer.add ambient _ _ _ buffer baseFree baseShort with
      ⟨dropped, _⟩ | ⟨_, _, holds⟩
    · exact absurd dropped keeps
    · exact holds
  · intro index live notParent
    have different : index ≠ parent := by
      rintro rfl
      exact notParent isParent
    have notSlot : index ≠ slot := by
      rintro rfl
      exact searchFreeInode_notLive free live
    rw [setInode_inodes_of_ne _ _ different, withCreated,
      addInode_inodes_of_ne _ _ notSlot]

end Created

/-- The only entry that a parent takes in is the base name of the path. -/
theorem AddsOne.takesEntry (lined : superblock.Lined) (nulFree : 0 ∉ path)
    (short : path.length < maxPath) {parent : Nat}
    (isParent : superblock.getParent path = some parent)
    (isDirectory : (superblock.inodes parent).type = .dir)
    (adds : superblock.AddsOne next path)
    (isNext : (next.inodes parent).content = (addDentryToContent ambient
      (superblock.inodes parent).content (superblock.inodes parent).size
      (baseName path)).1) :
    superblock.TakesEntry ambient path := by
  obtain ⟨parent', entered⟩ := adds.entry
  cases isParent.symm.trans entered.found
  refine ⟨parent, isParent, isDirectory, fun dropped => ?_,
    entered.isLine.noNewline⟩
  have buffer := (lined parent (live_of_getParent isParent)).buffer isDirectory
  have baseShort := Nat.lt_of_le_of_lt (baseName_length_le path) short
  have holds := entered.content
  rcases @LinedBuffer.add ambient _ _ _ buffer (nulFree_baseName nulFree)
    baseShort with ⟨_, same⟩ | ⟨keeps, _⟩
  · rw [isNext, same] at holds
    have length := congrArg List.length holds
    dsimp only at length
    rw [List.length_append, List.length_append, List.length_singleton] at length
    omega
  · exact keeps dropped

/-- A path below the file `/a`. -/
def belowFile : AbsolutePath :=
  ⟨[slash, 97, slash, 98], rfl, by decide⟩

end Superblock

/-! ## Looking up what has been created -/

/-- What `fisopfs_getattr` reports of an inode. -/
def Inode.stat (inode : Inode) : Stat :=
  { nlink := if inode.type = .file then 1 else 2
    uid := inode.owner
    gid := inode.group
    size := inode.size
    atime := inode.lastAccess
    mtime := inode.lastModification
    ctime := inode.creationTime
    mode := if inode.type = .file then regularMode else directoryMode }

/-- The path that `fisopfs_getattr` searches for. -/
def cutPath (path : List UInt8) : List UInt8 := path.takeWhile (· != newline)

namespace Superblock

variable {superblock next : Superblock} {ambient : Ambient}
variable {path : List UInt8} {mode : UInt32} {type : InodeType}
variable {slot index : Nat}

theorem fisopfsReaddir_eq
    (found : superblock.searchInode path = some index)
    (isDirectory : (superblock.inodes index).type = .dir) :
    superblock.fisopfsReaddir path =
      (0, directoryEntries (superblock.inodes index).content) := by
  unfold fisopfsReaddir
  rw [found]
  dsimp only
  rw [if_neg (not_not_intro isDirectory)]

/-- A directory is listed only where `search_inode` finds one. -/
theorem directory_of_fisopfsReaddir
    (done : (superblock.fisopfsReaddir path).1 = 0) :
    ∃ index, superblock.searchInode path = some index ∧
      (superblock.inodes index).type = .dir := by
  unfold fisopfsReaddir at done
  split at done
  · exact absurd done (by decide)
  · rename_i index found
    refine ⟨index, found, ?_⟩
    dsimp only at done
    split at done
    · exact absurd done (by decide)
    · rename_i isDirectory
      exact Decidable.not_not.mp isDirectory

theorem fisopfsGetattr_eq
    (found : superblock.searchInode (cutPath path) = some index) :
    superblock.fisopfsGetattr path =
      (0, some (superblock.inodes index).stat) := by
  unfold cutPath at found
  unfold fisopfsGetattr
  rw [found]
  rfl

/-- After a creation that succeeds, `fisopfs_getattr` finds the new inode, and
`fisopfs_readdir` lists its name once. -/
structure FindsCreated (superblock : Superblock) (ambient : Ambient)
    (path : List UInt8) (mode : UInt32) (type : InodeType) : Prop where
  found : ∀ next buffer,
    superblock.createEntry ambient path mode type = (next, 0, buffer) →
    ∃ slot, slot ∉ superblock.live ∧ slot ∈ next.live ∧
      next.searchInode (cutPath path) = some slot ∧
      next.fisopfsGetattr path = (0, some (next.inodes slot).stat)
  listed : ∀ next buffer,
    superblock.createEntry ambient path mode type = (next, 0, buffer) →
    (next.fisopfsReaddir (parentPath path)).1 = 0 ∧
      (next.fisopfsReaddir (parentPath path)).2.count (baseName path) = 1

/-- The creation returns 0: there is a free slot and a buffer, and the parent is
missing or a directory. -/
def Accepts (superblock : Superblock) (ambient : Ambient)
    (path : List UInt8) : Prop :=
  superblock.CanCreate ambient path ∧ ∀ parent,
    superblock.getParent path = some parent →
      (superblock.inodes parent).type = .dir

/-- The entry of the path will be the only one of its name. -/
def ListsOnce (ambient : Ambient) (directory : Inode) (name : List UInt8) :
    Prop :=
  ¬ DropsEntry ambient directory.content directory.size name ∧
      name ∉ directoryEntries directory.content ∨
    DropsEntry ambient directory.content directory.size name ∧
      (directoryEntries directory.content).count name = 1

/-- The path has no newline, no slot before the free one holds it, and its parent
lists its base name once. -/
structure Findable (superblock : Superblock) (ambient : Ambient)
    (path : List UInt8) (slot : Nat) : Prop where
  noNewline : newline ∉ path
  first : ∀ index < slot, superblock.liveAt path index = false
  parent : ∃ parent, superblock.getParent path = some parent ∧
    (superblock.inodes parent).type = .dir ∧
    ListsOnce ambient (superblock.inodes parent) (baseName path)

theorem liveAt_slot (nulFree : 0 ∉ path) (short : path.length < maxPath)
    (searched : List UInt8) :
    (superblock.withCreated ambient path mode type slot).liveAt searched slot =
      (path == searched) := by
  have named : (newInode ambient (superblock.inodes slot) path mode
      type).path.text = path :=
    (superblock.inodes slot).path.text_strcpy nulFree short
  unfold liveAt withCreated
  rw [addInode_inodes_self, named]
  simp [addInode, Superblock.setBitmap]

theorem liveAt_other (different : index ≠ slot) (searched : List UInt8) :
    (superblock.withCreated ambient path mode type slot).liveAt searched index =
      superblock.liveAt searched index := by
  unfold liveAt withCreated
  rw [addInode_inodes_of_ne _ _ different]
  simp [addInode, Superblock.setBitmap, different]

/-- The new inode is found exactly when its slot is the first one that holds the
path that is searched for. -/
theorem searchInode_withCreated (free : superblock.searchFreeInode = some slot)
    (nulFree : 0 ∉ path) (short : path.length < maxPath) :
    (superblock.withCreated ambient path mode type slot).searchInode
        (cutPath path) = some slot ↔
      newline ∉ path ∧ ∀ index < slot,
        superblock.liveAt path index = false := by
  have inside := (searchFreeInode_eq_some free).1
  unfold searchInode
  rw [List.find?_range_eq_some, liveAt_slot nulFree short]
  constructor
  · rintro ⟨same, -, before⟩
    have uncut : cutPath path = path := (beq_iff_eq.mp same).symm
    refine ⟨?_, fun index below => ?_⟩
    · intro member
      have keeps := List.takeWhile_eq_self_iff.mp uncut newline member
      simp at keeps
    · have notFound := before index below
      rw [liveAt_other (Nat.ne_of_lt below), uncut] at notFound
      simpa using notFound
  · rintro ⟨noNewline, first⟩
    have uncut : cutPath path = path := by
      apply List.takeWhile_eq_self_iff.mpr
      intro byte member
      have different : byte ≠ newline := by
        rintro rfl
        exact noNewline member
      simpa using different
    refine ⟨beq_iff_eq.mpr uncut.symm, List.mem_range.mpr inside, ?_⟩
    intro index below
    rw [liveAt_other (Nat.ne_of_lt below), uncut, first index below]
    rfl

/-! ### The parent's list -/

/-- The entries of a directory that a new entry was offered to. -/
theorem directoryEntries_withEntry {directory : Inode} {name : List UInt8}
    (buffer : LinedBuffer directory.content directory.size)
    (isLine : IsLine name) (short : name.length < maxPath) :
    directoryEntries (withEntry ambient directory name).content =
      if DropsEntry ambient directory.content directory.size name then
        directoryEntries directory.content
      else
        directoryEntries directory.content ++ [name] := by
  rcases @LinedBuffer.add ambient _ _ _ buffer isLine.nulFree short with
    ⟨dropped, same⟩ | ⟨keeps, _, holds⟩
  · rw [if_pos dropped]
    unfold withEntry
    rw [same]
  · rw [if_neg keeps]
    obtain ⟨areLines, isText⟩ := buffer.directoryEntries
    apply directoryEntries_eq
    · intro line member
      rcases List.mem_append.mp member with old | new
      · exact (areLines line old).1
      · rw [List.mem_singleton.mp new]
        exact isLine
    · calc
        text (withEntry ambient directory name).content
            = text directory.content ++ (name ++ [newline]) := holds
        _ = encodeEntries (directoryEntries directory.content) ++
              encodeEntries [name] := by
          rw [← isText, encodeEntries_cons]
          rfl
        _ = encodeEntries (directoryEntries directory.content ++ [name]) :=
          (encodeEntries_append _ _).symm

theorem count_withEntry {directory : Inode} {name : List UInt8}
    (buffer : LinedBuffer directory.content directory.size)
    (isLine : IsLine name) (short : name.length < maxPath) :
    (directoryEntries (withEntry ambient directory name).content).count name = 1 ↔
      ListsOnce ambient directory name := by
  rw [directoryEntries_withEntry buffer isLine short]
  unfold ListsOnce
  by_cases dropped : DropsEntry ambient directory.content directory.size name
  · rw [if_pos dropped]
    simp [dropped]
  · rw [if_neg dropped, List.count_append, List.count_singleton_self]
    simp [dropped, List.count_eq_zero]

/-- The table after a creation that returns 0. -/
def withListed (superblock : Superblock) (ambient : Ambient)
    (path : List UInt8) (mode : UInt32) (type : InodeType) (slot : Nat) :
    Superblock :=
  match superblock.getParent path with
  | none => superblock.withCreated ambient path mode type slot
  | some parent =>
      (superblock.withCreated ambient path mode type slot).setInode parent
        (withEntry ambient (superblock.inodes parent) (baseName path))

/-- The creations that return 0. -/
theorem createEntry_zero (absolute : path.head? = some slash)
    (nulFree : 0 ∉ path) (mode : UInt32) (type : InodeType) {next : Superblock}
    {buffer : List UInt8} :
    superblock.createEntry ambient path mode type = (next, 0, buffer) →
      superblock.Accepts ambient path := by
  intro created
  by_cases can : superblock.CanCreate ambient path
  · refine ⟨can, fun parent isParent => ?_⟩
    obtain ⟨slot, free⟩ := Option.ne_none_iff_exists'.mp can.2.1
    rw [createEntry_run absolute nulFree can free, isParent] at created
    by_cases isDirectory : (superblock.inodes parent).type = .dir
    · exact isDirectory
    · dsimp only at created
      rw [if_pos isDirectory] at created
      have refused : -enotdir = (0 : Int) := congrArg (·.2.1) created
      exact absurd refused (by decide)
  · have failed := (createEntry_cannot can mode type).1
    rw [created] at failed
    exact absurd rfl failed

theorem createEntry_accepts (absolute : path.head? = some slash)
    (nulFree : 0 ∉ path) (accepts : superblock.Accepts ambient path)
    (free : superblock.searchFreeInode = some slot) (mode : UInt32)
    (type : InodeType) :
    ∃ buffer, superblock.createEntry ambient path mode type =
      (superblock.withListed ambient path mode type slot, 0, buffer) := by
  rw [createEntry_run absolute nulFree accepts.1 free]
  unfold withListed
  cases isParent : superblock.getParent path with
  | none => exact ⟨path, rfl⟩
  | some parent =>
      have isDirectory := accepts.2 parent isParent
      refine ⟨path ++ [newline], ?_⟩
      dsimp only
      rw [if_neg (not_not_intro isDirectory)]

section Listed

variable (free : superblock.searchFreeInode = some slot)

include free

theorem parent_ne_slot {parent : Nat}
    (isParent : superblock.getParent path = some parent) : parent ≠ slot := by
  rintro rfl
  exact searchFreeInode_notLive free
    (mem_live.mpr ⟨(searchFreeInode_eq_some free).1, live_of_getParent isParent⟩)

theorem mem_live_withListed (index : Nat) :
    index ∈ (superblock.withListed ambient path mode type slot).live ↔
      index = slot ∨ index ∈ superblock.live := by
  unfold withListed
  split
  · exact mem_live_withCreated free index
  · exact mem_live_withCreated free index

theorem searchInode_withListed (searched : List UInt8) :
    (superblock.withListed ambient path mode type slot).searchInode searched =
      (superblock.withCreated ambient path mode type slot).searchInode
        searched := by
  unfold withListed
  split
  · rfl
  · rename_i parent isParent
    apply searchInode_setInode
    unfold withCreated
    rw [addInode_inodes_of_ne _ _ (parent_ne_slot free isParent)]
    rfl

theorem inodes_withListed_slot :
    (superblock.withListed ambient path mode type slot).inodes slot =
      newInode ambient (superblock.inodes slot) path mode type := by
  unfold withListed
  split
  · exact addInode_inodes_self _ _ _
  · rename_i parent isParent
    rw [setInode_inodes_of_ne _ _ (Ne.symm (parent_ne_slot free isParent))]
    exact addInode_inodes_self _ _ _

/-- `fisopfs_getattr` reports the new inode. -/
theorem found_withListed (nulFree : 0 ∉ path) (short : path.length < maxPath) :
    (∃ created, created ∉ superblock.live ∧
      created ∈ (superblock.withListed ambient path mode type slot).live ∧
      (superblock.withListed ambient path mode type slot).searchInode
        (cutPath path) = some created ∧
      (superblock.withListed ambient path mode type slot).fisopfsGetattr path =
        (0, some ((superblock.withListed ambient path mode type slot).inodes
          created).stat)) ↔
      newline ∉ path ∧ ∀ index < slot,
        superblock.liveAt path index = false := by
  rw [← @searchInode_withCreated superblock ambient path mode type slot free
    nulFree short, ← searchInode_withListed free]
  constructor
  · rintro ⟨created, notLive, live, found, -⟩
    rcases (mem_live_withListed free created).mp live with rfl | old
    · exact found
    · exact absurd old notLive
  · intro found
    exact ⟨slot, searchFreeInode_notLive free,
      (mem_live_withListed free slot).mpr (.inl rfl), found,
      fisopfsGetattr_eq found⟩

/-- The parent is found where it was before. -/
theorem searchParent_withListed (absolute : path.head? = some slash)
    (nulFree : 0 ∉ path) (short : path.length < maxPath)
    (below : path.length ≠ 1) :
    (superblock.withListed ambient path mode type slot).searchInode
        (parentPath path) = superblock.getParent path := by
  have named : (newInode ambient (superblock.inodes slot) path mode
      type).path.text = path :=
    (superblock.inodes slot).path.text_strcpy nulFree short
  have same := getParent_addInode absolute (searchFreeInode_eq_some free).2 named
  rw [searchInode_withListed free, ← same, getParent, if_neg below]
  rfl

/-- A second `/` has no entries. -/
theorem not_listed_root (short : [slash].length < maxPath)
    (first : ∀ index < slot, superblock.liveAt [slash] index = false)
    (listed : ((superblock.withListed ambient [slash] mode type
      slot).fisopfsReaddir [slash]).1 = 0) :
    ((superblock.withListed ambient [slash] mode type slot).fisopfsReaddir
      [slash]).2 = [] := by
  have found := (searchInode_withListed free _).trans
    ((@searchInode_withCreated superblock ambient [slash] mode type slot free
      (by decide) short).mpr ⟨by decide, first⟩)
  obtain ⟨index, isIndex, isDirectory⟩ := directory_of_fisopfsReaddir listed
  obtain rfl : slot = index := Option.some.inj (found.symm.trans isIndex)
  rw [fisopfsReaddir_eq isIndex isDirectory, inodes_withListed_slot free]
  apply directoryEntries_eq
  · intro line member
    cases member
  · exact text_zeros initialContentLength

/-- `fisopfs_readdir` lists the new name once. -/
theorem listed_withListed (lined : superblock.Lined)
    (absolute : path.head? = some slash) (nulFree : 0 ∉ path)
    (accepts : superblock.Accepts ambient path) (noNewline : newline ∉ path)
    (first : ∀ index < slot, superblock.liveAt path index = false) :
    ((superblock.withListed ambient path mode type slot).fisopfsReaddir
        (parentPath path)).1 = 0 ∧
      ((superblock.withListed ambient path mode type slot).fisopfsReaddir
        (parentPath path)).2.count (baseName path) = 1 ↔
      ∃ parent, superblock.getParent path = some parent ∧
        (superblock.inodes parent).type = .dir ∧
        ListsOnce ambient (superblock.inodes parent) (baseName path) := by
  have short := accepts.1.1
  by_cases root : path.length = 1
  · obtain rfl : path = [slash] := by
      obtain ⟨byte, rfl⟩ := List.length_eq_one_iff.mp root
      rw [Option.some.inj absolute]
    have isRoot : parentPath [slash] = [slash] := rfl
    rw [isRoot]
    constructor
    · rintro ⟨done, once⟩
      rw [not_listed_root free short first done] at once
      cases once
    · rintro ⟨parent, isParent, -⟩
      cases isParent
  · have found := @searchParent_withListed superblock ambient path mode type
      slot free absolute nulFree short root
    cases isParent : superblock.getParent path with
    | none =>
        rw [isParent] at found
        constructor
        · rintro ⟨done, -⟩
          obtain ⟨index, isIndex, -⟩ := directory_of_fisopfsReaddir done
          cases found.symm.trans isIndex
        · rintro ⟨parent, isSome, -⟩
          cases isSome
    | some parent =>
        have isDirectory := accepts.2 parent isParent
        have isLine : IsLine (baseName path) :=
          ⟨fun member => noNewline (mem_of_mem_baseName member),
            nulFree_baseName nulFree⟩
        have once := @count_withEntry ambient _ _
          ((lined parent (live_of_getParent isParent)).buffer isDirectory) isLine
          (Nat.lt_of_le_of_lt (baseName_length_le path) short)
        have parentInode : (superblock.withListed ambient path mode type
            slot).inodes parent = withEntry ambient (superblock.inodes parent)
              (baseName path) := by
          unfold withListed
          rw [isParent]
          exact setInode_inodes_self _ _ _
        rw [isParent] at found
        rw [fisopfsReaddir_eq found (by rw [parentInode]; exact isDirectory),
          parentInode]
        constructor
        · rintro ⟨-, listed⟩
          exact ⟨parent, rfl, isDirectory, once.mp listed⟩
        · rintro ⟨other, same, -, lists⟩
          cases same
          exact ⟨rfl, once.mpr lists⟩

end Listed

/-- The path `/a` with a newline behind it. -/
def newlinePath : AbsolutePath :=
  ⟨[slash, 97, newline], rfl, by decide⟩

end Superblock

end FeaturesOS.FileSystem

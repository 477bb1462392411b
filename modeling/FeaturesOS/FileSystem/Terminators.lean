import FeaturesOS.FileSystem.Loading
import FeaturesOS.FileSystem.Mounts

/-!
# Terminators of directories

The text of a live directory ends inside its buffer, over all calls and mounts, as
long as no entry fills a buffer to its last byte and no directory that records the
size zero is rebuilt, or saved and loaded again: its buffer is then one of no bytes.
-/

namespace FeaturesOS.FileSystem

open CString LittleEndian

/-! ## Lines -/

/-- An entry with newlines in its name is read back as several lines. -/
theorem exists_lines {name : List UInt8} (nulFree : 0 ∉ name) :
    ∃ lines, (∀ line ∈ lines, IsLine line) ∧
      name ++ [newline] = encodeEntries lines := by
  induction name with
  | nil =>
      refine ⟨[[]], ?_, rfl⟩
      intro line member
      rw [List.mem_singleton.mp member]
      exact ⟨List.not_mem_nil, List.not_mem_nil⟩
  | cons byte name induction =>
      obtain ⟨lines, areLines, same⟩ := induction
        fun member => nulFree (List.mem_cons_of_mem byte member)
      by_cases isNewline : byte = newline
      · refine ⟨[] :: lines, ?_, ?_⟩
        · intro line member
          rcases List.mem_cons.mp member with rfl | later
          · exact ⟨List.not_mem_nil, List.not_mem_nil⟩
          · exact areLines line later
        · rw [isNewline, encodeEntries_cons, ← same]
          rfl
      · cases lines with
        | nil =>
            have length := congrArg List.length same
            simp at length
        | cons first lines =>
            have isLine := areLines first List.mem_cons_self
            refine ⟨(byte :: first) :: lines, ?_, ?_⟩
            · intro line member
              rcases List.mem_cons.mp member with rfl | later
              · constructor
                · rintro (_ | ⟨_, inFirst⟩)
                  · exact isNewline rfl
                  · exact isLine.noNewline inFirst
                · rintro (_ | ⟨_, inFirst⟩)
                  · exact nulFree List.mem_cons_self
                  · exact isLine.nulFree inFirst
              · exact areLines line (List.mem_cons_of_mem first later)
            · rw [List.cons_append, same]
              simp only [encodeEntries_cons, List.cons_append]

/-- A directory whose text consists of lines and ends inside its buffer. -/
structure Inode.Listed (inode : Inode) : Prop where
  buffer : DirectoryBuffer inode.content inode.size
  lines : ∃ lines, (∀ line ∈ lines, IsLine line) ∧
    text inode.content = encodeEntries lines

namespace Superblock

/-- The live directories have terminated texts. -/
def Terminators (superblock : Superblock) : Prop :=
  ∀ index, superblock.inodeBitmap index = true →
    (superblock.inodes index).type = .dir →
      Terminated (superblock.inodes index).content

/-- The live directories have texts of lines. -/
structure Listed (superblock : Superblock) : Prop where
  directory : ∀ index, superblock.inodeBitmap index = true →
    (superblock.inodes index).type = .dir → (superblock.inodes index).Listed

variable {superblock : Superblock} {ambient : Ambient} {path : List UInt8}

namespace Listed

theorem terminators (listed : superblock.Listed) : superblock.Terminators :=
  fun index live isDirectory =>
    (listed.directory index live isDirectory).buffer.terminated

theorem setInode (listed : superblock.Listed) {index : Nat} {inode : Inode}
    (isListed : superblock.inodeBitmap index = true → inode.type = .dir →
      inode.Listed) : (superblock.setInode index inode).Listed := by
  constructor
  intro other live isDirectory
  by_cases same : other = index
  · subst same
    rw [setInode_inodes_self] at isDirectory ⊢
    exact isListed live isDirectory
  · rw [setInode_inodes_of_ne _ _ same] at isDirectory ⊢
    exact listed.directory other live isDirectory

theorem clearBitmap (listed : superblock.Listed) (index : Nat) :
    (superblock.setBitmap index false).Listed := by
  constructor
  intro other live isDirectory
  by_cases same : other = index
  · subst same
    simp [Superblock.setBitmap] at live
  · simp only [Superblock.setBitmap, Function.update_of_ne same] at live
    exact listed.directory other live isDirectory

theorem sameNamespace {next : Superblock} (listed : superblock.Listed)
    (same : superblock.SameNamespace next) : next.Listed := by
  constructor
  intro index live isDirectory
  rw [same.bitmap] at live
  rw [same.types] at isDirectory
  obtain ⟨buffer, lines⟩ := listed.directory index live isDirectory
  obtain ⟨content, size⟩ := same.directories index isDirectory
  rw [← content] at buffer lines
  rw [← size] at buffer
  exact ⟨buffer, lines⟩

end Listed

/-! ## Adding an entry -/

theorem Listed.createInode (listed : superblock.Listed) (ambient : Ambient)
    (path : List UInt8) (mode : UInt32) (type : InodeType) :
    (superblock.createInode ambient path mode type).1.Listed := by
  unfold Superblock.createInode
  split
  · exact listed
  · split
    · exact listed
    · rename_i freeIndex found
      have free := (searchFreeInode_eq_some found).2
      dsimp only
      split
      · apply listed.setInode
        intro live
        rw [free] at live
        cases live
      · rename_i content allocated
        have zeroed : content = zeros initialContentLength := by
          unfold calloc at allocated
          split at allocated
          · cases allocated
            rfl
          · cases allocated
        constructor
        intro index live isDirectory
        by_cases same : index = freeIndex
        · subst same
          simp only [Superblock.setBitmap, Superblock.setInode,
            Function.update_self] at isDirectory ⊢
          rw [zeroed]
          exact ⟨directoryBuffer_new, [], fun _ => by simp, text_zeros _⟩
        · simp only [Superblock.setBitmap, Superblock.setInode,
            Function.update_of_ne same] at live isDirectory ⊢
          exact listed.directory index live isDirectory

/-- The new entry would fill the buffer of the directory exactly. -/
def FillsDirectory (superblock : Superblock) (path : List UInt8) : Prop :=
  ∃ parent ∈ superblock.getParent path,
    (superblock.inodes parent).type = .dir ∧
      (strlen (superblock.inodes parent).content +
        (baseName path).length + 1 : Int) =
          (superblock.inodes parent).size.toInt

theorem mem_of_mem_baseName {byte : UInt8} (member : byte ∈ baseName path) :
    byte ∈ path := by
  unfold baseName at member
  have inReverse := (List.takeWhile_sublist _).mem (List.mem_reverse.mp member)
  exact List.mem_reverse.mp inReverse

theorem nulFree_baseName (nulFree : 0 ∉ path) : 0 ∉ baseName path :=
  fun member => nulFree (mem_of_mem_baseName member)

theorem Listed.addDentryToParentDir (listed : superblock.Listed)
    (nulFree : 0 ∉ path) (short : path.length < maxPath)
    (inexact : ¬ superblock.FillsDirectory path) :
    (superblock.addDentryToParentDir ambient path).1.Listed := by
  unfold Superblock.addDentryToParentDir
  cases found : superblock.getParent path with
  | none => exact listed
  | some parent =>
      dsimp only
      split
      · exact listed
      · rename_i isDirectory
        have type := not_not.mp isDirectory
        apply listed.setInode
        intro live _
        obtain ⟨buffer, lines, areLines, holds⟩ :=
          listed.directory parent live type
        have baseFree := nulFree_baseName nulFree
        have baseShort : (baseName path).length < 2 ^ 8 :=
          Nat.lt_of_le_of_lt (baseName_length_le path) short
        have exact : (strlen (superblock.inodes parent).content +
            (baseName path).length + 1 : Int) ≠
              (superblock.inodes parent).size.toInt :=
          fun fills => inexact ⟨parent, found, type, fills⟩
        rcases addDentryToContent_cases ambient buffer baseFree exact baseShort
          with same | ⟨extended, appended⟩
        · rw [same]
          exact ⟨buffer, lines, areLines, holds⟩
        · obtain ⟨added, areAdded, encoded⟩ := exists_lines baseFree
          refine ⟨extended, lines ++ added, ?_, ?_⟩
          · intro line member
            rcases List.mem_append.mp member with old | new
            · exact areLines line old
            · exact areAdded line new
          · rw [encodeEntries_append, ← holds, ← encoded]
            exact appended

theorem parentPath_ne_self (absolute : path.head? = some slash)
    (long : path.length ≠ 1) : parentPath path ≠ path := by
  intro same
  have length := congrArg List.length same
  have hasSlash : slash ∈ path := List.mem_of_mem_head? absolute
  have positive := List.length_pos_of_mem hasSlash
  have baseShort : (baseName path).length < path.length := by
    have reversed : path.reverse.length = path.length := List.length_reverse
    unfold baseName
    rw [List.length_reverse, ← reversed]
    apply Nat.lt_of_le_of_ne (List.takeWhile_prefix _).length_le
    intro whole
    have stays := (List.takeWhile_prefix _).eq_of_length whole
    rw [List.takeWhile_eq_self_iff] at stays
    exact absurd (stays slash (List.mem_reverse.mpr hasSlash)) (by simp)
  unfold parentPath at length
  rw [List.length_take] at length
  unfold lastSlash at length
  split at length
  · omega
  · omega

/-- A new inode does not change where the parent of its path is found. -/
theorem getParent_addInode (absolute : path.head? = some slash) {index : Nat}
    {inode : Inode} (free : superblock.inodeBitmap index = false)
    (named : inode.path.text = path) :
    (superblock.addInode index inode).getParent path =
      superblock.getParent path := by
  unfold Superblock.getParent
  split
  · rfl
  · rename_i long
    have sameAt : (superblock.addInode index inode).liveAt (parentPath path) =
        superblock.liveAt (parentPath path) := by
      funext other
      unfold Superblock.liveAt
      by_cases same : other = index
      · subst same
        have different : path ≠ parentPath path :=
          (parentPath_ne_self absolute long).symm
        simp [addInode_inodes_self, named, different, free]
      · simp [addInode, Superblock.setBitmap, Superblock.setInode, same]
    unfold Superblock.searchInode
    rw [sameAt]

/-- What `create_inode` needs to fill a slot. -/
def CanCreate (superblock : Superblock) (ambient : Ambient)
    (path : List UInt8) : Prop :=
  path.length < maxPath ∧ superblock.searchFreeInode ≠ none ∧
    ambient.grants initialContentLength = true

theorem createInode_cases (superblock : Superblock) (ambient : Ambient)
    (path : List UInt8) (mode : UInt32) (type : InodeType) :
    (superblock.createInode ambient path mode type).2 < 0 ∧
        ¬ superblock.CanCreate ambient path ∨
      ∃ freeIndex, superblock.searchFreeInode = some freeIndex ∧
        superblock.CanCreate ambient path ∧
          superblock.createInode ambient path mode type =
            (superblock.addInode freeIndex
                (newInode ambient (superblock.inodes freeIndex) path mode type),
              (freeIndex : Int)) := by
  by_cases short : path.length < maxPath
  · cases found : superblock.searchFreeInode with
    | none =>
        left
        have negative : -enospc < 0 := by decide
        unfold createInode
        rw [if_neg (Nat.not_le.mpr short), found]
        exact ⟨negative, fun can => can.2.1 found⟩
    | some freeIndex =>
        by_cases granted : ambient.grants initialContentLength = true
        · have hasFree : superblock.searchFreeInode ≠ none := by
            rw [found]
            exact Option.some_ne_none freeIndex
          exact .inr ⟨freeIndex, rfl, ⟨short, hasFree, granted⟩,
            createInode_eq short found granted mode type⟩
        · left
          have refused : calloc ambient initialContentLength = none :=
            if_neg fun possible => granted possible.2
          have negative : -enomem < 0 := by decide
          unfold createInode
          rw [if_neg (Nat.not_le.mpr short), found]
          simp only [refused]
          exact ⟨negative, fun can => granted can.2.2⟩
  · left
    have negative : -enametoolong < 0 := by decide
    unfold createInode
    rw [if_pos (Nat.not_lt.mp short)]
    exact ⟨negative, fun can => short can.1⟩

theorem Listed.createEntry (listed : superblock.Listed)
    (absolute : path.head? = some slash) (nulFree : 0 ∉ path)
    (inexact : superblock.CanCreate ambient path →
      ¬ superblock.FillsDirectory path) (mode : UInt32) (type : InodeType) :
    (superblock.createEntry ambient path mode type).1.Listed := by
  have created := listed.createInode ambient path mode type
  unfold Superblock.createEntry
  dsimp only
  rcases createInode_cases superblock ambient path mode type with
    ⟨negative, -⟩ | ⟨freeIndex, found, can, same⟩
  · rw [if_pos negative]
    exact created
  · have free := (searchFreeInode_eq_some found).2
    have named := (superblock.inodes freeIndex).path.text_strcpy nulFree can.1
    have notFills : ¬ (superblock.createInode ambient path mode
        type).1.FillsDirectory path := by
      rw [same]
      rintro ⟨parent, isParent, isDirectory, fills⟩
      have isParentBefore := isParent
      rw [getParent_addInode absolute free named] at isParentBefore
      have other : parent ≠ freeIndex := by
        rintro rfl
        unfold Superblock.getParent at isParentBefore
        split at isParentBefore
        · cases isParentBefore
        · have live := (searchInode_eq_some isParentBefore).1
          cases free.symm.trans live
      rw [addInode_inodes_of_ne _ _ other] at isDirectory fills
      exact inexact can ⟨parent, isParentBefore, isDirectory, fills⟩
    have extended : ((superblock.createInode ambient path mode
        type).1.addDentryToParentDir ambient path).1.Listed :=
      created.addDentryToParentDir nulFree can.1 notFills
    split
    · exact created
    · split
      · exact extended
      · exact extended

/-! ## Removing an entry -/

/-- `remove_inode` finds a directory that records the size zero, and is granted a
buffer of no bytes for it. -/
def RebuildsUnsized (superblock : Superblock) (ambient : Ambient)
    (path : List UInt8) (index : Nat) : Prop :=
  ambient.grants 0 = true ∧
    ∃ parent ∈ (superblock.setBitmap index false).getParent path,
      (superblock.inodes parent).type = .dir ∧
        (superblock.inodes parent).size = 0

theorem Listed.removeInode (listed : superblock.Listed) {index : Nat}
    (rebuildsSized : ¬ superblock.RebuildsUnsized ambient path index) :
    (superblock.removeInode ambient path index).Listed := by
  have cleared := listed.clearBitmap index
  unfold Superblock.removeInode
  dsimp only
  split
  · exact cleared
  · rename_i parent found
    split
    · exact cleared
    · split
      · exact cleared
      · rename_i buffer allocated
        constructor
        apply (cleared.setInode _).directory
        intro live isDirectory
        obtain ⟨listedBuffer, lines, areLines, holds⟩ :=
          cleared.directory parent live isDirectory
        have granted : ambient.grants
            (superblock.inodes parent).size.toInt.toNat = true ∧
              buffer = zeros (superblock.inodes parent).size.toInt.toNat := by
          unfold calloc at allocated
          split at allocated
          · rename_i possible
            cases allocated
            exact ⟨possible.2, rfl⟩
          · cases allocated
        have exactSize : (superblock.inodes parent).size.toInt =
            (superblock.inodes parent).content.length := by
          rcases listedBuffer.sized with exact | ⟨zero, -⟩
          · exact exact
          · have grantsZero := granted.1
            change (superblock.inodes parent).size.toInt = 0 at zero
            rw [zero] at grantsZero
            have noSize : (superblock.inodes parent).size = 0 :=
              Int32.toInt_inj.mp zero
            exact absurd ⟨grantsZero, parent, found, isDirectory, noSize⟩
              rebuildsSized
        have entries := directoryEntries_eq areLines holds
        obtain ⟨rebuilt, kept⟩ := rebuild_of_sized ambient (baseName path)
          listedBuffer.terminated exactSize areLines holds
        rw [entries, granted.2]
        exact ⟨rebuilt, _, fun line member =>
          areLines line (List.mem_filter.mp member).1, kept⟩

/-! ## Calls -/

/-- No entry fills its directory exactly, and a directory from which an entry is
removed records the size of its buffer. -/
def KeepsTerminators (superblock : Superblock) (ambient : Ambient) :
    Call → Prop
  | .mkdir path _ | .create path _ =>
      superblock.CanCreate ambient path.bytes →
        ¬ superblock.FillsDirectory path.bytes
  | .unlink path =>
      ∀ index ∈ superblock.searchInode path.bytes,
        (superblock.inodes index).type = .file →
          ¬ superblock.RebuildsUnsized ambient path.bytes index
  | .rmdir path =>
      ∀ index ∈ superblock.searchInode path.bytes,
        (superblock.inodes index).type = .dir →
          strlen (superblock.inodes index).content = 0 →
            ¬ superblock.RebuildsUnsized ambient path.bytes index
  | _ => True

theorem Listed.call (listed : superblock.Listed) {call : Call}
    (keeps : superblock.KeepsTerminators ambient call) :
    (superblock.call ambient call).1.Listed := by
  cases call with
  | getattr path => exact listed
  | readdir path => exact listed
  | read path size offset =>
      exact listed.sameNamespace (fisopfsRead_same _ _ _ _ _)
  | unlink path =>
      unfold Superblock.call fisopfsUnlink
      dsimp only
      split
      · exact listed
      · rename_i index found
        split
        · exact listed
        · rename_i isFile
          exact listed.removeInode (keeps index found (not_not.mp isFile))
  | mkdir path mode =>
      exact listed.createEntry path.absolute path.nulFree keeps _ _
  | create path mode =>
      exact listed.createEntry path.absolute path.nulFree keeps _ _
  | utimens path accessed modified =>
      exact listed.sameNamespace (fisopfsUtimens_same _ _ _ _)
  | rmdir path =>
      unfold Superblock.call fisopfsRmdir
      dsimp only
      split
      · exact listed
      · rename_i index found
        split
        · exact listed
        · rename_i isDirectory
          split
          · exact listed
          · rename_i isEmpty
            exact listed.removeInode (keeps index found
              (not_not.mp isDirectory) (Nat.eq_zero_of_not_pos isEmpty))
  | write path buffer offset =>
      exact listed.sameNamespace (fisopfsWrite_same _ _ _ _ _)
  | truncate path size =>
      exact listed.sameNamespace (fisopfsTruncate_same _ _ _ _)

/-! ### Calls that lose a terminator -/

/-- The slot of a directory whose text does not end in its buffer. -/
theorem not_terminators {next : Superblock} {index : Nat}
    (live : next.inodeBitmap index = true)
    (isDirectory : (next.inodes index).type = .dir)
    (unterminated : 0 ∉ (next.inodes index).content) : ¬ next.Terminators :=
  fun terminators => unterminated (terminators index live isDirectory)

theorem live_of_getParent {parent : Nat}
    (found : superblock.getParent path = some parent) :
    superblock.inodeBitmap parent = true := by
  unfold Superblock.getParent at found
  split at found
  · cases found
  · exact (searchInode_eq_some found).1

/-- An entry that fills the buffer overwrites its terminator. -/
theorem addDentryToContent_full {content name : List UInt8} {size : Int32}
    (buffer : DirectoryBuffer content size) (nulFree : 0 ∉ name)
    (fills : (strlen content + name.length + 1 : Int) = size.toInt) :
    0 ∉ (addDentryToContent ambient content size name).1 := by
  have entryLength : (name ++ [newline]).length = name.length + 1 := by simp
  have exactSize : size.toInt = content.length := by
    rcases buffer.sized with exact | ⟨zero, -⟩
    · exact exact
    · omega
  have full : strlen content + (name ++ [newline]).length = content.length := by
    omega
  unfold addDentryToContent
  dsimp only
  rw [if_neg (by omega), strcpy_full full]
  intro member
  rcases List.mem_append.mp member with old | new
  · exact text_nulFree content old
  · rcases List.mem_append.mp new with inName | last
    · exact nulFree inName
    · exact absurd (List.mem_singleton.mp last) (by decide)

theorem not_terminators_createEntry (listed : superblock.Listed)
    (absolute : path.head? = some slash) (nulFree : 0 ∉ path)
    (can : superblock.CanCreate ambient path)
    (fills : superblock.FillsDirectory path) (mode : UInt32)
    (type : InodeType) :
    ¬ (superblock.createEntry ambient path mode type).1.Terminators := by
  obtain ⟨parent, found, isDirectory, exactly⟩ := fills
  rcases createInode_cases superblock ambient path mode type with
    ⟨-, cannot⟩ | ⟨freeIndex, free, -, created⟩
  · exact absurd can cannot
  · have isFree := (searchFreeInode_eq_some free).2
    have live := live_of_getParent found
    have other : parent ≠ freeIndex := by
      rintro rfl
      cases isFree.symm.trans live
    have named : (newInode ambient (superblock.inodes freeIndex) path mode
        type).path.text = path :=
      (superblock.inodes freeIndex).path.text_strcpy nulFree can.1
    unfold Superblock.createEntry
    rw [created]
    dsimp only
    generalize newInode ambient _ path mode type = new at named
    have foundAfter : (superblock.addInode freeIndex new).getParent path =
        some parent := by
      rw [getParent_addInode absolute isFree named]
      exact found
    have sameParent : (superblock.addInode freeIndex new).inodes parent =
        superblock.inodes parent :=
      addInode_inodes_of_ne _ _ other
    have stillLive : (superblock.addInode freeIndex new).inodeBitmap parent =
        true := by
      simpa [addInode, Superblock.setBitmap, other] using live
    have isDirectoryAfter := sameParent ▸ isDirectory
    rw [if_neg (Int.not_lt.mpr (Int.natCast_nonneg freeIndex)),
      addDentryToParentDir_eq foundAfter isDirectoryAfter, sameParent]
    refine not_terminators stillLive ?_ ?_
    · dsimp only
      rw [if_neg (Int.lt_irrefl 0), setInode_inodes_self]
      exact isDirectory
    · dsimp only
      rw [if_neg (Int.lt_irrefl 0), setInode_inodes_self]
      exact addDentryToContent_full
        (listed.directory parent live isDirectory).buffer
        (nulFree_baseName nulFree) exactly

/-- The new text of a directory without a recorded size is a buffer of no
bytes. -/
theorem not_terminators_removeInode (listed : superblock.Listed)
    (absolute : path.head? = some slash) {index : Nat}
    (rebuilds : superblock.RebuildsUnsized ambient path index) :
    ¬ (superblock.removeInode ambient path index).Terminators := by
  obtain ⟨granted, parent, found, isDirectory, unsized⟩ := rebuilds
  have cleared := listed.clearBitmap index
  have live := live_of_getParent found
  have hasSlash : slash ∈ path := List.mem_of_mem_head? absolute
  have noSize : (superblock.inodes parent).size.toInt = 0 := by
    rw [unsized]
    rfl
  have buffer := (cleared.directory parent live isDirectory).buffer
  have noText : directoryEntries (superblock.inodes parent).content = [] := by
    have inside := strlen_lt_length buffer.terminated
    have isNew : (superblock.inodes parent).content =
        zeros initialContentLength := by
      rcases buffer.sized with exact | ⟨-, isNew⟩
      · rw [setBitmap_inodes] at exact inside
        omega
      · exact isNew
    rw [isNew, directoryEntries, strlen, text_zeros]
    rfl
  have allocated : calloc ambient (superblock.inodes parent).size.toInt =
      some [] := by
    rw [noSize]
    exact if_pos ⟨Int.le_refl 0, granted⟩
  unfold Superblock.removeInode
  dsimp only
  rw [found]
  dsimp only
  rw [setBitmap_inodes, if_neg (not_not.mpr hasSlash), allocated, noText]
  refine not_terminators live ?_ ?_
  · simpa [Superblock.setInode] using isDirectory
  · simp [Superblock.setInode]

/-- A call keeps all terminators exactly under the condition. -/
theorem terminators_call_iff (listed : superblock.Listed) (call : Call) :
    (superblock.call ambient call).1.Terminators ↔
      superblock.KeepsTerminators ambient call := by
  constructor
  · intro terminators
    cases call with
    | getattr | readdir | read | utimens | write | truncate => trivial
    | mkdir path mode =>
        intro can fills
        exact not_terminators_createEntry listed path.absolute path.nulFree can
          fills _ _ terminators
    | create path mode =>
        intro can fills
        exact not_terminators_createEntry listed path.absolute path.nulFree can
          fills _ _ terminators
    | unlink path =>
        intro index found isFile rebuilds
        refine not_terminators_removeInode listed path.absolute rebuilds ?_
        unfold Superblock.call fisopfsUnlink at terminators
        dsimp only at terminators
        rw [Option.mem_def.mp found] at terminators
        dsimp only at terminators
        rw [if_neg (not_not.mpr isFile)] at terminators
        exact terminators
    | rmdir path =>
        intro index found isDirectory isEmpty rebuilds
        refine not_terminators_removeInode listed path.absolute rebuilds ?_
        unfold Superblock.call fisopfsRmdir at terminators
        dsimp only at terminators
        rw [Option.mem_def.mp found] at terminators
        dsimp only at terminators
        rw [if_neg (not_not.mpr isDirectory), isEmpty, if_neg (by decide)]
          at terminators
        exact terminators
  · intro keeps
    exact (listed.call keeps).terminators

end Superblock

/-! ## Loading -/

/-- The first inode of a file with what `deserialize` reads into its buffer. -/
def readInode (file : List UInt8) : Inode :=
  { firstInode file with
    content := overwrite (zeros (firstInode file).size.toInt.toNat) 0
      ((file.drop inodeBytes).take (firstInode file).size.toInt.toNat) }

/-- An inode as an image gives it back: a buffer of the recorded size, with the
bytes that `serialize` has written. -/
def Inode.reloaded (inode : Inode) : Inode :=
  { inode with
    content := overwrite (zeros inode.size.toInt.toNat) 0
      (if inode.Backed then inode.content.take inode.size.toInt.toNat else []) }

/-- The inodes of a file up to the `count`-th. -/
def storedInodes : Nat → List UInt8 → List Inode
  | 0, _ => []
  | count + 1, file =>
      if file = [] then []
      else readInode file :: storedInodes count (behindFirst file)

/-- The buffer for the content of an inode is granted. -/
def allocates (ambient : Ambient) (inode : Inode) : Bool :=
  (calloc ambient inode.size.toInt).isSome

/-- The stored inodes in front of the first whose buffer is not granted. -/
def loadedInodes (ambient : Ambient) (count : Nat) (file : List UInt8) :
    List Inode :=
  (storedInodes count file).takeWhile (allocates ambient)

/-- Every directory that is loaded has a size, and no buffer is refused behind
it. -/
def LoadsDirectories (ambient : Ambient) (count : Nat)
    (file : List UInt8) : Prop :=
  ∀ inode ∈ loadedInodes ambient count file, inode.type = .dir →
    inode.size ≠ 0 ∧
      loadedInodes ambient count file = storedInodes count file

/-- The table after `deserialize`, in which the buffers that a failed load has
freed hold nothing. -/
def Loaded.held (loaded : Loaded) : Superblock :=
  { loaded.superblock with
    inodes := fun index =>
      if loaded.failed = true ∧ index < loaded.rounds then
        { loaded.superblock.inodes index with content := [] }
      else
        loaded.superblock.inodes index }

section Loading

variable {superblock : Superblock} {ambient : Ambient} {index : Nat}

theorem eq_zeros_of_calloc {length : Int} {block : List UInt8}
    (allocated : calloc ambient length = some block) :
    block = zeros length.toNat := by
  unfold calloc at allocated
  split at allocated
  · cases allocated
    rfl
  · cases allocated

theorem loadedInodes_succ (ambient : Ambient) (count : Nat) {file : List UInt8}
    (someFile : file ≠ []) :
    loadedInodes ambient (count + 1) file =
      if allocates ambient (readInode file) then
        readInode file :: loadedInodes ambient count (behindFirst file)
      else
        [] := by
  unfold loadedInodes
  rw [storedInodes, if_neg someFile, List.takeWhile_cons]

/-- A round of the loop, on zeroed slots. -/
theorem deserializeFrom_readInode (ambient : Ambient) (fuel : Nat)
    (zero : ZeroFrom superblock index) {file : List UInt8}
    (someFile : file ≠ []) :
    Superblock.deserializeFrom ambient (fuel + 1) superblock index file =
      if allocates ambient (readInode file) then
        Superblock.deserializeFrom ambient fuel
          ((superblock.setInode index (readInode file)).setBitmap index true)
          (index + 1) (behindFirst file)
      else
        ⟨superblock.setInode index (firstInode file), index, true⟩ := by
  rw [deserializeFrom_succ ambient fuel zero, if_neg someFile]
  unfold allocates
  cases allocated : calloc ambient (firstInode file).size.toInt with
  | none =>
      rw [if_neg]
      change ¬ (calloc ambient (firstInode file).size.toInt).isSome = true
      rw [allocated]
      exact Bool.false_ne_true
  | some buffer =>
      rw [if_pos]
      · rw [eq_zeros_of_calloc allocated]
        rfl
      · change (calloc ambient (firstInode file).size.toInt).isSome = true
        rw [allocated]
        rfl

/-- The bits of the loop stand for old inodes and for the loaded ones. -/
theorem deserializeFrom_loads (ambient : Ambient) (fuel : Nat)
    (zero : ZeroFrom superblock index)
    (old : ∀ i, superblock.inodeBitmap i = true → i < index)
    (file : List UInt8) {slot : Nat}
    (live : (Superblock.deserializeFrom ambient fuel superblock index
      file).superblock.inodeBitmap slot = true) :
    superblock.inodeBitmap slot = true ∧
        (Superblock.deserializeFrom ambient fuel superblock index
          file).superblock.inodes slot = superblock.inodes slot ∨
      (Superblock.deserializeFrom ambient fuel superblock index
        file).superblock.inodes slot ∈ loadedInodes ambient fuel file := by
  induction fuel generalizing superblock index file with
  | zero => exact .inl ⟨live, rfl⟩
  | succ fuel induction =>
      by_cases noFile : file = []
      · subst noFile
        rw [Superblock.deserializeFrom_nil] at live ⊢
        exact .inl ⟨live, rfl⟩
      · rw [deserializeFrom_readInode ambient fuel zero noFile] at live ⊢
        rw [loadedInodes_succ ambient fuel noFile]
        by_cases granted : allocates ambient (readInode file) = true
        · rw [if_pos granted] at live ⊢
          rw [if_pos granted]
          have older : ∀ i, ((superblock.setInode index
              (readInode file)).setBitmap index true).inodeBitmap i = true →
                i < index + 1 := by
            intro i bit
            by_cases here : i = index
            · omega
            · simp only [Superblock.setBitmap, Function.update_of_ne here] at bit
              exact Nat.lt_succ_of_lt (old i bit)
          rcases induction (zero.setInode (readInode file) true) older
              (behindFirst file) live with ⟨before, same⟩ | later
          · rw [same]
            by_cases here : slot = index
            · subst here
              rw [Superblock.setBitmap_inodes, Superblock.setInode_inodes_self]
              exact .inr List.mem_cons_self
            · rw [Superblock.setBitmap_inodes,
                Superblock.setInode_inodes_of_ne _ _ here]
              simp only [Superblock.setBitmap, Function.update_of_ne here]
                at before
              exact .inl ⟨before, rfl⟩
          · exact .inr (List.mem_cons_of_mem _ later)
        · rw [if_neg granted] at live ⊢
          have before := Nat.ne_of_lt (old slot live)
          exact .inl ⟨live, Superblock.setInode_inodes_of_ne _ _ before⟩

/-- The loop fails when a buffer is refused. -/
theorem failed_iff (ambient : Ambient) (fuel : Nat)
    (zero : ZeroFrom superblock index) (file : List UInt8) :
    (Superblock.deserializeFrom ambient fuel superblock index
        file).failed = true ↔
      loadedInodes ambient fuel file ≠ storedInodes fuel file := by
  induction fuel generalizing superblock index file with
  | zero => exact iff_of_false Bool.false_ne_true (fun differs => differs rfl)
  | succ fuel induction =>
      by_cases noFile : file = []
      · subst noFile
        rw [Superblock.deserializeFrom_nil]
        exact iff_of_false Bool.false_ne_true (fun differs => differs rfl)
      · rw [deserializeFrom_readInode ambient fuel zero noFile,
          loadedInodes_succ ambient fuel noFile, storedInodes, if_neg noFile]
        by_cases granted : allocates ambient (readInode file) = true
        · rw [if_pos granted, if_pos granted,
            induction (zero.setInode (readInode file) true) (behindFirst file)]
          simp
        · rw [if_neg granted, if_neg granted]
          exact iff_of_true rfl (List.cons_ne_nil _ _).symm

/-! ### Images -/

theorem firstInode_encode (inode : Inode) (pointer : UInt64)
    (rest : List UInt8) :
    firstInode (inode.encode pointer ++ rest) = { inode with content := [] } := by
  have front :
      (inode.encode pointer ++ rest).take inodeBytes = inode.encode pointer :=
    List.take_left' (length_encode inode pointer)
  unfold firstInode
  rw [front, List.drop_of_length_le, List.append_nil, Inode.decode_encode]
  rw [length_encode, length_encode]

theorem readInode_encode (inode : Inode) (pointer : UInt64)
    (rest : List UInt8) :
    readInode (inode.encode pointer ++ rest) =
      { inode with
        content := overwrite (zeros inode.size.toInt.toNat) 0
          (rest.take inode.size.toInt.toNat) } := by
  unfold readInode
  rw [firstInode_encode, List.drop_left' (length_encode inode pointer)]

theorem behindFirst_encode (inode : Inode) (pointer : UInt64)
    (rest : List UInt8) :
    behindFirst (inode.encode pointer ++ rest) =
      rest.drop inode.size.toInt.toNat := by
  unfold behindFirst
  rw [firstInode_encode, List.drop_left' (length_encode inode pointer)]

theorem readInode_record {inode : Inode} (backed : inode.Backed)
    (pointer : UInt64) (rest : List UInt8) :
    readInode (inode.record pointer ++ rest) = inode.reloaded := by
  rw [Inode.record, List.append_assoc, readInode_encode,
    List.take_left' backed.length_take, Inode.reloaded, if_pos backed]

/-- The inode at the end of an image, whose content was not written. -/
theorem readInode_unbacked {inode : Inode} (unbacked : ¬ inode.Backed)
    (pointer : UInt64) :
    readInode (inode.encode pointer ++ []) = inode.reloaded := by
  rw [readInode_encode, List.take_nil, Inode.reloaded, if_neg unbacked]

theorem Inode.Backed.reloaded_content {inode : Inode} (backed : inode.Backed) :
    inode.reloaded.content = inode.content.take inode.size.toInt.toNat := by
  have length := backed.length_take
  have whole : (zeros inode.size.toInt.toNat).length ≤
      (inode.content.take inode.size.toInt.toNat).length := by
    rw [length, length_zeros]
  unfold Inode.reloaded
  rw [if_pos backed, overwrite_of_fits, List.take_zero, List.nil_append,
    Nat.zero_add, List.drop_of_length_le whole, List.append_nil]
  rw [length, length_zeros, Nat.zero_add]

theorem Inode.Listed.backed {inode : Inode} (listed : inode.Listed) :
    inode.Backed := by
  refine ⟨listed.buffer.nonnegative, ?_⟩
  rcases listed.buffer.sized with exact | ⟨zero, -⟩
  · exact exact.le
  · rw [zero]
    exact Int.natCast_nonneg _

/-- A directory that records its size is loaded as it was. -/
theorem Inode.Listed.reloaded {inode : Inode} (listed : inode.Listed)
    (sized : inode.size ≠ 0) : inode.reloaded = inode := by
  have exactSize : inode.size.toInt = inode.content.length := by
    rcases listed.buffer.sized with exact | ⟨zero, -⟩
    · exact exact
    · exact absurd (Int32.toInt_inj.mp zero) sized
  have content : inode.reloaded.content = inode.content := by
    rw [listed.backed.reloaded_content]
    exact List.take_of_length_le (by omega)
  calc
    inode.reloaded = { inode with content := inode.reloaded.content } := rfl
    _ = inode := by rw [content]

theorem storedInodes_nil (count : Nat) : storedInodes count [] = [] := by
  cases count with
  | zero => rfl
  | succ count => rfl

/-- An image stores the inodes of its records. -/
theorem stored_writeRecords {records : List (UInt64 × Inode)} (count : Nat)
    {inode : Inode}
    (stored : inode ∈ storedInodes count (Superblock.writeRecords records)) :
    ∃ record ∈ records, inode = record.2.reloaded := by
  induction records generalizing count with
  | nil =>
      rw [Superblock.writeRecords, storedInodes_nil] at stored
      cases stored
  | cons record records induction =>
      obtain ⟨pointer, saved⟩ := record
      cases count with
      | zero => cases stored
      | succ count =>
          have someFile (rest : List UInt8) :
              saved.encode pointer ++ rest ≠ [] := by
            intro noFile
            have length := congrArg List.length noFile
            have wide : inodeBytes = 312 := rfl
            rw [List.length_append, length_encode, List.length_nil] at length
            omega
          by_cases backed : saved.Backed
          · have behind : behindFirst (saved.record pointer ++
                Superblock.writeRecords records) =
                  Superblock.writeRecords records := by
              rw [Inode.record, List.append_assoc, behindFirst_encode]
              exact List.drop_left' backed.length_take
            rw [Superblock.writeRecords, if_pos backed, storedInodes, if_neg,
              behind, readInode_record backed] at stored
            · rcases List.mem_cons.mp stored with rfl | inRest
              · exact ⟨_, List.mem_cons_self, rfl⟩
              · obtain ⟨record, member, same⟩ := induction count inRest
                exact ⟨record, List.mem_cons_of_mem _ member, same⟩
            · rw [Inode.record, List.append_assoc]
              exact someFile _
          · rw [Superblock.writeRecords, if_neg backed,
              ← List.append_nil (saved.encode pointer), storedInodes,
              if_neg (someFile []), behindFirst_encode, List.drop_nil,
              storedInodes_nil, readInode_unbacked backed] at stored
            cases List.mem_singleton.mp stored
            exact ⟨_, List.mem_cons_self, rfl⟩

/-- `serialize` stores live inodes only. -/
theorem stored_serialize (pointers : Nat → UInt64) {count : Nat}
    {inode : Inode}
    (stored : inode ∈ storedInodes count
      ((superblock.serialize pointers).drop 4)) :
    ∃ slot, superblock.inodeBitmap slot = true ∧
      inode = (superblock.inodes slot).reloaded := by
  have width : (toBytes 4 superblock.inodeAmount.toUInt32.toNat).length = 4 :=
    length_toBytes 4 _
  rw [Superblock.serialize, List.drop_left' width,
    Superblock.serializeFrom_eq] at stored
  obtain ⟨record, member, same⟩ := stored_writeRecords count stored
  obtain ⟨slot, visited, rfl⟩ := List.mem_map.mp member
  exact ⟨slot, (List.mem_filter.mp visited).2, same⟩

/-- The directories that a disk file stores are listed, when they record a
size. -/
def StoresListed (file : List UInt8) : Prop :=
  ∀ count, ∀ inode ∈ storedInodes count (file.drop 4),
    inode.type = .dir → inode.size ≠ 0 → inode.Listed

theorem storesListed_serialize (listed : superblock.Listed)
    (pointers : Nat → UInt64) : StoresListed (superblock.serialize pointers) := by
  intro count inode stored isDirectory sized
  obtain ⟨slot, live, rfl⟩ := stored_serialize pointers stored
  have wasListed := listed.directory slot live isDirectory
  rw [wasListed.reloaded sized]
  exact wasListed

theorem storesListed_nil : StoresListed [] := by
  intro count inode stored
  rw [List.drop_nil, storedInodes_nil] at stored
  cases stored

/-- The slots of a loaded table, and whether their buffers are still there. -/
theorem held_inodes (ambient : Ambient) (file : List UInt8) (slot : Nat) :
    (Superblock.empty.deserialize ambient file).held.inodes slot =
      if (loadLoop ambient file).failed = true ∧
          slot < (loadLoop ambient file).rounds then
        { (loadLoop ambient file).superblock.inodes slot with content := [] }
      else
        (loadLoop ambient file).superblock.inodes slot := by
  rw [deserialize_empty]
  by_cases fails : (loadLoop ambient file).failed = true
  · rw [if_pos fails]
    rfl
  · rw [if_neg fails]
    rfl

theorem held_inodeBitmap (ambient : Ambient) (file : List UInt8) :
    (Superblock.empty.deserialize ambient file).held.inodeBitmap =
      (loadLoop ambient file).superblock.inodeBitmap := by
  rw [deserialize_empty]
  by_cases fails : (loadLoop ambient file).failed = true
  · rw [if_pos fails]
    rfl
  · rw [if_neg fails]
    rfl

theorem loadLoop_loads {file : List UInt8} {slot : Nat}
    (live : (loadLoop ambient file).superblock.inodeBitmap slot = true) :
    (loadLoop ambient file).superblock.inodes slot ∈
      loadedInodes ambient (amountOf file).toInt.toNat (file.drop 4) := by
  have old : ∀ i, ({ Superblock.empty with
      inodeAmount := amountOf file } : Superblock).inodeBitmap i = true →
        i < 0 := by
    intro i bit
    cases bit
  rcases deserializeFrom_loads ambient _ (zeroFrom_empty (amountOf file)) old
      (file.drop 4) live with ⟨before, -⟩ | loaded
  · cases before
  · exact loaded

theorem loadLoop_failed_iff (ambient : Ambient) (file : List UInt8) :
    (loadLoop ambient file).failed = true ↔
      loadedInodes ambient (amountOf file).toInt.toNat (file.drop 4) ≠
        storedInodes (amountOf file).toInt.toNat (file.drop 4) :=
  failed_iff ambient _ (zeroFrom_empty (amountOf file)) (file.drop 4)

/-- A file whose directories are loaded leaves a table with listed
directories. -/
theorem listed_held {file : List UInt8} (stores : StoresListed file)
    (loads : LoadsDirectories ambient (amountOf file).toInt.toNat
      (file.drop 4)) :
    (Superblock.empty.deserialize ambient file).held.Listed := by
  constructor
  intro slot live isDirectory
  rw [held_inodeBitmap] at live
  rw [held_inodes] at isDirectory ⊢
  have loaded := loadLoop_loads live
  have type : ((loadLoop ambient file).superblock.inodes slot).type = .dir := by
    split at isDirectory
    · exact isDirectory
    · exact isDirectory
  obtain ⟨sized, whole⟩ := loads _ loaded type
  have runs : ¬ (loadLoop ambient file).failed = true := fun fails =>
    (loadLoop_failed_iff ambient file).mp fails whole
  rw [if_neg fun freed => runs freed.1]
  have stored := whole ▸ loaded
  exact stores _ _ stored type sized

/-- Every loaded inode stands in a slot. -/
theorem exists_slot_of_loaded (ambient : Ambient) (fuel : Nat)
    (zero : ZeroFrom superblock index) {file : List UInt8} {inode : Inode}
    (loaded : inode ∈ loadedInodes ambient fuel file) :
    ∃ slot, index ≤ slot ∧
      slot < (Superblock.deserializeFrom ambient fuel superblock index
        file).rounds ∧
        (Superblock.deserializeFrom ambient fuel superblock index
          file).superblock.inodes slot = inode := by
  induction fuel generalizing superblock index file with
  | zero => cases loaded
  | succ fuel induction =>
      by_cases noFile : file = []
      · subst noFile
        unfold loadedInodes at loaded
        rw [storedInodes_nil] at loaded
        cases loaded
      · rw [loadedInodes_succ ambient fuel noFile] at loaded
        rw [deserializeFrom_readInode ambient fuel zero noFile]
        by_cases granted : allocates ambient (readInode file) = true
        · rw [if_pos granted] at loaded ⊢
          have fills := deserializeFrom_fills ambient fuel
            ((superblock.setInode index (readInode file)).setBitmap index true)
            (index + 1) (behindFirst file)
          rcases List.mem_cons.mp loaded with rfl | later
          · refine ⟨index, Nat.le_refl index, fills.ordered, ?_⟩
            rw [fills.before index (Nat.lt_succ_self index)]
            exact Superblock.setInode_inodes_self _ _ _
          · obtain ⟨slot, behind, inside, same⟩ :=
              induction (zero.setInode (readInode file) true) later
            exact ⟨slot, Nat.le_of_succ_le behind, inside, same⟩
        · rw [if_neg granted] at loaded
          cases loaded

/-- A load keeps all terminators exactly under the condition. -/
theorem terminators_held_iff {file : List UInt8} (stores : StoresListed file) :
    (Superblock.empty.deserialize ambient file).held.Terminators ↔
      LoadsDirectories ambient (amountOf file).toInt.toNat (file.drop 4) := by
  constructor
  · intro terminators inode loaded isDirectory
    obtain ⟨slot, -, inside, same⟩ := exists_slot_of_loaded ambient _
      (zeroFrom_empty (amountOf file)) loaded
    change slot < (loadLoop ambient file).rounds at inside
    change (loadLoop ambient file).superblock.inodes slot = inode at same
    have live := (loadLoop_bits ambient file slot).mpr inside
    have fills : FillsFrom _ 0 (loadLoop ambient file) :=
      deserializeFrom_fills ambient _ _ _ _
    have length := fills.buffers slot (Nat.zero_le slot) inside
    have ends := terminators slot
    rw [held_inodeBitmap, held_inodes] at ends
    by_cases fails : (loadLoop ambient file).failed = true
    · rw [if_pos ⟨fails, inside⟩, same] at ends
      cases ends live isDirectory
    · rw [if_neg fun freed => fails freed.1, same] at ends
      have terminated := List.length_pos_of_mem (ends live isDirectory)
      rw [same] at length
      constructor
      · intro unsized
        have zero : inode.size.toInt = 0 := by
          rw [unsized]
          rfl
        omega
      · exact not_not.mp fun differs =>
          fails ((loadLoop_failed_iff ambient file).mpr differs)
  · intro loads
    exact (listed_held stores loads).terminators

end Loading

/-! ## Mounts -/

/-- `fisopfs_init`, with the buffers that `deserialize` leaves. -/
def heldInit (ambient : Ambient) : Option (List UInt8) → Host
  | none => fisopfsInit ambient none
  | some file =>
      { disk := some file
        mounted := some (Superblock.empty.deserialize ambient file).held }

inductive HeldStep : Host → HostEvent → Host → Prop where
  | init {disk : Option (List UInt8)} (ambient : Ambient) :
      HeldStep ⟨disk, none⟩ (.init ambient) (heldInit ambient disk)
  | later {host next : Host} {event : HostEvent}
      (notInit : ∀ ambient, event ≠ .init ambient)
      (step : HostStep host event next) : HeldStep host event next

/-- The histories of mounts, with the buffers that are allocated. -/
def heldMounts : Machine Host HostEvent where
  Initial host := host = ⟨none, none⟩
  Step := HeldStep

/-- What is mounted has terminated directories. -/
structure Host.Terminated (host : Host) : Prop where
  mounted : ∀ superblock, host.mounted = some superblock →
    superblock.Terminators

/-- No call fills a buffer exactly or rebuilds a directory without a size, and
every directory of an image is loaded with a size. -/
def Host.KeepsTerminators (host : Host) : HostEvent → Prop
  | .init ambient =>
      ∀ file, host.disk = some file →
        LoadsDirectories ambient (amountOf file).toInt.toNat (file.drop 4)
  | .call ambient call =>
      ∀ superblock, host.mounted = some superblock →
        superblock.KeepsTerminators ambient call
  | .destroy _ | .kill => True

structure Host.Listed (host : Host) : Prop where
  mounted : ∀ superblock, host.mounted = some superblock → superblock.Listed
  disk : ∀ file, host.disk = some file → StoresListed file

theorem Superblock.listed_fresh (ambient : Ambient) :
    (Superblock.fresh ambient).Listed := by
  have empty : Superblock.empty.Listed := by
    constructor
    intro index live
    cases live
  exact empty.createInode ambient _ _ _

theorem Host.Listed.step {host next : Host} {event : HostEvent}
    (listed : host.Listed) (keeps : host.KeepsTerminators event)
    (step : heldMounts.Step host event next) : next.Listed := by
  cases step with
  | init ambient =>
      rename_i disk
      cases disk with
      | none =>
          constructor
          · rintro _ ⟨⟩
            exact Superblock.listed_fresh ambient
          · rintro _ ⟨⟩
            exact storesListed_nil
      | some file =>
          have stores := listed.disk file rfl
          constructor
          · rintro _ ⟨⟩
            exact listed_held stores (keeps file rfl)
          · rintro _ ⟨⟩
            exact stores
  | later notInit step =>
      cases step with
      | init ambient => exact absurd rfl (notInit ambient)
      | call ambient call =>
          constructor
          · rintro _ ⟨⟩
            exact (listed.mounted _ rfl).call (keeps _ rfl)
          · exact listed.disk
      | destroy pointers =>
          constructor
          · rintro _ ⟨⟩
          · rintro _ ⟨⟩
            exact storesListed_serialize (listed.mounted _ rfl) pointers
      | kill =>
          constructor
          · rintro _ ⟨⟩
          · exact listed.disk

theorem Host.listed_of_reachable {host : Host}
    (reachable : heldMounts.Reachable Host.KeepsTerminators host) :
    host.Listed := by
  apply reachable.invariant
  · rintro _ rfl
    constructor
    · rintro _ ⟨⟩
    · rintro _ ⟨⟩
  · intro host event next listed keeps step
    exact listed.step keeps step

theorem Host.terminated_step_iff {host next : Host} {event : HostEvent}
    (listed : host.Listed) (step : heldMounts.Step host event next) :
    next.Terminated ↔ host.KeepsTerminators event := by
  constructor
  · intro terminated
    cases step with
    | init ambient =>
        rename_i disk
        rintro file ⟨⟩
        exact (terminators_held_iff (listed.disk file rfl)).mp
          (terminated.mounted _ rfl)
    | later notInit step =>
        cases step with
        | init ambient => exact absurd rfl (notInit ambient)
        | call ambient call =>
            rintro superblock ⟨⟩
            exact (Superblock.terminators_call_iff (listed.mounted _ rfl)
              call).mp (terminated.mounted _ rfl)
        | destroy | kill => trivial
  · intro keeps
    exact ⟨fun superblock mounted =>
      ((listed.step keeps step).mounted superblock mounted).terminators⟩

/-- In histories under the condition, all directories have their terminators, and
no other step keeps them. -/
theorem terminated_of_keeps {host : Host}
    (reachable : heldMounts.Reachable Host.KeepsTerminators host) :
    host.Terminated ∧
      ∀ event next, heldMounts.Step host event next →
        (next.Terminated ↔ host.KeepsTerminators event) := by
  have listed := Host.listed_of_reachable reachable
  constructor
  · exact ⟨fun superblock mounted =>
      (listed.mounted superblock mounted).terminators⟩
  · intro event next step
    exact Host.terminated_step_iff listed step

theorem notNul_a : (97 : UInt8) ≠ 0 := by decide

/-- The call that creates `/a`. -/
def createA : Call := repeatedName 97 1 notNul_a

/-- The table of the first session, with a file. -/
def savedSession : Superblock :=
  ((Superblock.fresh .generous).call .generous createA).1

/-- A root with an entry is saved with a size. -/
theorem terminated_of_keeps_reload :
    (heldInit .generous
      (some (savedSession.serialize fun _ => 0))).Terminated := by
  have start : heldMounts.Reachable Host.KeepsTerminators ⟨none, none⟩ :=
    .initial rfl
  have first : heldMounts.Reachable Host.KeepsTerminators
      ⟨some [], some (.fresh .generous)⟩ := by
    refine start.step ?_ (HeldStep.init .generous)
    rintro _ ⟨⟩
  have created : heldMounts.Reachable Host.KeepsTerminators
      ⟨some [], some savedSession⟩ := by
    refine first.step ?_ (HeldStep.later (fun _ => HostEvent.noConfusion)
      (HostStep.call .generous createA))
    rintro _ ⟨⟩ _
    unfold Superblock.FillsDirectory
    decide +kernel
  have saved : heldMounts.Reachable Host.KeepsTerminators
      ⟨some (savedSession.serialize fun _ => 0), none⟩ := by
    refine created.step ?_ (HeldStep.later (fun _ => HostEvent.noConfusion)
      (HostStep.destroy fun _ => 0))
    trivial
  have loads : heldMounts.Reachable Host.KeepsTerminators (heldInit .generous
      (some (savedSession.serialize fun _ => 0))) := by
    refine saved.step ?_ (HeldStep.init .generous)
    rintro file ⟨⟩ inode loaded isDirectory
    have granted : ∀ inode ∈ storedInodes
        (amountOf (savedSession.serialize fun _ => 0)).toInt.toNat
          ((savedSession.serialize fun _ => 0).drop 4),
        allocates .generous inode = true ∧
          (inode.type = .dir → inode.size ≠ 0) := by
      decide +kernel
    have stored := (List.takeWhile_sublist _).mem loaded
    refine ⟨(granted inode stored).2 isDirectory, ?_⟩
    exact List.takeWhile_eq_self_iff.mpr fun inode member =>
      (granted inode member).1
  exact (terminated_of_keeps loads).1

/-- A root without an entry is loaded into a buffer of no bytes. -/
theorem not_terminated_empty_root :
    ¬ ∀ host, heldMounts.Reachable Machine.Unrestricted host →
      host.Terminated := by
  intro all
  have start : heldMounts.Reachable Machine.Unrestricted ⟨none, none⟩ :=
    .initial rfl
  have first : heldMounts.Reachable Machine.Unrestricted
      ⟨some [], some (.fresh .generous)⟩ :=
    start.step trivial (HeldStep.init .generous)
  have saved : heldMounts.Reachable Machine.Unrestricted
      ⟨some ((Superblock.fresh .generous).serialize fun _ => 0), none⟩ :=
    first.step trivial (HeldStep.later (fun _ => HostEvent.noConfusion)
      (HostStep.destroy _))
  have again := saved.step trivial (HeldStep.init .generous)
  have terminated := (all _ again).mounted _ rfl 0
  have live : (Superblock.empty.deserialize .generous ((Superblock.fresh
      .generous).serialize fun _ => 0)).held.inodeBitmap 0 = true := by
    decide +kernel
  have isDirectory : ((Superblock.empty.deserialize .generous ((Superblock.fresh
      .generous).serialize fun _ => 0)).held.inodes 0).type = .dir := by
    decide +kernel
  have noBytes : ((Superblock.empty.deserialize .generous ((Superblock.fresh
      .generous).serialize fun _ => 0)).held.inodes 0).content = [] := by
    decide +kernel
  have member := terminated live isDirectory
  rw [noBytes] at member
  cases member

end FeaturesOS.FileSystem

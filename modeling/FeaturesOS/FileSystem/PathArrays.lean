import FeaturesOS.FileSystem.Lines

/-!
# Arrays for paths and names

The copies into arrays of a fixed size.  Only `create_inode` checks a length;
the other copies rely on what can be live and on what a directory can hold.
-/

namespace FeaturesOS.FileSystem

open CString

/-! ## The copies of a call -/

/-- The arrays of a fixed size: `path_copy` of `fisopfs_getattr`, `path` of an
inode, `parent` of `get_parent` and `buff` of `fisopfs_readdir` and of
`remove_inode`. -/
inductive PathBuffer where
  | pathCopy
  | inodePath
  | parent
  | readdirBuff
  | removeBuff
  deriving DecidableEq

def PathBuffer.size : PathBuffer → Nat
  | .pathCopy | .inodePath | .parent => maxPath
  | .readdirBuff => 1024
  | .removeBuff => maxPath + 1

/-- The bytes that are stored from the start of an array on. -/
structure Copy where
  array : PathBuffer
  bytes : List UInt8
  deriving DecidableEq

def Copy.Fits (copy : Copy) : Prop := copy.bytes.length ≤ copy.array.size

instance (copy : Copy) : Decidable copy.Fits :=
  inferInstanceAs (Decidable (_ ≤ _))

/-- `get_parent`; `strncpy` copies the bytes in front of the last `/`. -/
def getParentCopies (path : List UInt8) : List Copy :=
  if path.length = 1 then [] else [⟨.parent, parentPath path ++ [0]⟩]

/-- A round of the loop of `remove_inode`: `get_next_entry` stores the entry, and
`add_dentry_to_content` writes the newline over its NUL. -/
def roundCopies (removed entry : List UInt8) : List Copy :=
  ⟨.removeBuff, entry ++ [0]⟩ ::
    if entry = removed then [] else [⟨.removeBuff, entry ++ [newline, 0]⟩]

namespace Superblock

/-- What a scan of the content of an inode sees: the block and the bytes behind
it. -/
def scanned (superblock : Superblock) (behind : Nat → List UInt8)
    (index : Nat) : List UInt8 :=
  (superblock.inodes index).content ++ behind index

def createInodeCopies (superblock : Superblock) (path : List UInt8) :
    List Copy :=
  if path.length ≥ maxPath then
    []
  else
    match superblock.searchFreeInode with
    | none => []
    | some _ => [⟨.inodePath, path ++ [0]⟩]

def removeInodeCopies (superblock : Superblock) (ambient : Ambient)
    (behind : Nat → List UInt8) (path : List UInt8) (inodeIndex : Nat) :
    List Copy :=
  let cleared := superblock.setBitmap inodeIndex false
  getParentCopies path ++
    match cleared.getParent path with
    | none => []
    | some parent =>
        if slash ∉ path then
          []
        else
          match calloc ambient (cleared.inodes parent).size.toInt with
          | none => []
          | some _ =>
              (directoryEntries (cleared.scanned behind parent)).flatMap
                (roundCopies (baseName path))

/-- `fisopfs_mkdir` and `fisopfs_create`, which look for the parent once the
inode is there. -/
def createEntryCopies (superblock : Superblock) (ambient : Ambient)
    (path : List UInt8) (mode : UInt32) (type : InodeType) : List Copy :=
  superblock.createInodeCopies path ++
    if (superblock.createInode ambient path mode type).2 < 0 then
      []
    else
      getParentCopies path

/-- The copies of a call, for the bytes that lie behind the content blocks. -/
def copies (superblock : Superblock) (ambient : Ambient)
    (behind : Nat → List UInt8) : Call → List Copy
  | .getattr path => [⟨.pathCopy, path.bytes ++ [0]⟩]
  | .readdir path =>
      match superblock.searchInode path.bytes with
      | none => []
      | some index =>
          if (superblock.inodes index).type ≠ .dir then
            []
          else
            (directoryEntries (superblock.scanned behind index)).map
              fun entry => ⟨.readdirBuff, entry ++ [0]⟩
  | .unlink path =>
      match superblock.searchInode path.bytes with
      | none => []
      | some index =>
          if (superblock.inodes index).type ≠ .file then
            []
          else
            superblock.removeInodeCopies ambient behind path.bytes index
  | .rmdir path =>
      match superblock.searchInode path.bytes with
      | none => []
      | some index =>
          if (superblock.inodes index).type ≠ .dir then
            []
          else if strlen (superblock.scanned behind index) > 0 then
            []
          else
            superblock.removeInodeCopies ambient behind path.bytes index
  | .mkdir path mode =>
      superblock.createEntryCopies ambient path.bytes mode .dir
  | .create path mode =>
      superblock.createEntryCopies ambient path.bytes mode .file
  | .read _ _ _ | .utimens _ _ _ | .write _ _ _ | .truncate _ _ => []

/-- Whatever lies behind the blocks, the copies of the call stay in their
arrays. -/
def FitsArrays (superblock : Superblock) (ambient : Ambient) (call : Call) :
    Prop :=
  ∀ behind, ∀ copy ∈ superblock.copies ambient behind call, copy.Fits

/-- `remove_inode` scans a parent that has no NUL, or one that is no directory
and has a long line. -/
def RebuildsLongLine (superblock : Superblock) (ambient : Ambient)
    (path : List UInt8) : Prop :=
  ∃ parent, superblock.getParent path = some parent ∧
    (calloc ambient (superblock.inodes parent).size.toInt).isSome = true ∧
    (¬ Terminated (superblock.inodes parent).content ∨
      (superblock.inodes parent).type ≠ .dir ∧
        ∃ entry ∈ directoryEntries (superblock.inodes parent).content,
          maxPath ≤ entry.length)

/-- The calls with a copy that may leave its array. -/
def Overruns (superblock : Superblock) (ambient : Ambient) : Call → Prop
  | .getattr path => maxPath ≤ path.bytes.length
  | .readdir path =>
      ∃ index, superblock.searchInode path.bytes = some index ∧
        (superblock.inodes index).type = .dir ∧
        ¬ Terminated (superblock.inodes index).content
  | .unlink path =>
      ∃ index, superblock.searchInode path.bytes = some index ∧
        (superblock.inodes index).type = .file ∧
        superblock.RebuildsLongLine ambient path.bytes
  | .rmdir path =>
      ∃ index, superblock.searchInode path.bytes = some index ∧
        (superblock.inodes index).type = .dir ∧
        strlen (superblock.inodes index).content = 0 ∧
        superblock.RebuildsLongLine ambient path.bytes
  | .mkdir _ _ | .create _ _ | .read _ _ _ | .utimens _ _ _ | .write _ _ _
  | .truncate _ _ => False

end Superblock

/-! ## Reading on behind a block -/

section Scanning

variable {content front : List UInt8} {offset : Nat}

/-- What lies behind a NUL is not read. -/
theorem getNextEntry_nul (inside : offset < front.length)
    (rest other : List UInt8) :
    getNextEntry (front ++ 0 :: rest) offset =
      getNextEntry (front ++ 0 :: other) offset := by
  have scan (tail : List UInt8) : ((front ++ 0 :: tail).drop offset).takeWhile
      (fun byte => byte != newline && byte != 0) =
        (front.drop offset).takeWhile
          (fun byte => byte != newline && byte != 0) := by
    have stops : (0 :: tail).takeWhile
        (fun byte => byte != newline && byte != 0) = [] := by
      simp
    rw [List.drop_append_of_le_length (Nat.le_of_lt inside),
      List.takeWhile_append, stops, List.append_nil]
    split
    · rename_i whole
      exact ((List.takeWhile_prefix _).eq_of_length whole).symm
    · rfl
  have here (tail : List UInt8) :
      (front ++ 0 :: tail).getD offset 0 = front.getD offset 0 := by
    rw [List.getD_eq_getElem?_getD, List.getElem?_append_left inside,
      ← List.getD_eq_getElem?_getD]
  unfold getNextEntry
  rw [scan, scan, here, here]

theorem entriesFrom_nul (rest other : List UInt8) (fuel offset : Nat) :
    entriesFrom (front ++ 0 :: rest) front.length fuel offset =
      entriesFrom (front ++ 0 :: other) front.length fuel offset := by
  induction fuel generalizing offset with
  | zero => rfl
  | succ fuel induction =>
      rw [entriesFrom, entriesFrom]
      by_cases inside : offset < front.length
      · rw [if_pos inside, if_pos inside, getNextEntry_nul inside rest other]
        split
        · rfl
        · rw [induction]
      · rw [if_neg inside, if_neg inside]

/-- A scan of a terminated block stays inside. -/
theorem scan_terminated (terminated : Terminated content)
    (behind : List UInt8) :
    strlen (content ++ behind) = strlen content ∧
      directoryEntries (content ++ behind) = directoryEntries content := by
  obtain ⟨rest, split⟩ := eq_text_append_of_terminated terminated
  have frontFree := text_nulFree content
  generalize text content = front at split frontFree
  subst split
  rw [List.append_assoc, List.cons_append]
  have length (tail : List UInt8) : strlen (front ++ 0 :: tail) = front.length :=
    congrArg List.length (text_append_nul tail frontFree)
  unfold directoryEntries
  rw [length, length]
  exact ⟨rfl, entriesFrom_nul _ _ _ _⟩

/-- A scan that sees no text finds none in the block. -/
theorem strlen_eq_zero {behind : List UInt8}
    (empty : strlen (content ++ behind) = 0) : strlen content = 0 := by
  cases content with
  | nil => rfl
  | cons byte content =>
      have scanned := List.eq_nil_of_length_eq_zero empty
      unfold text at scanned
      rw [List.cons_append, List.takeWhile_eq_nil_iff] at scanned
      have zero := scanned (Nat.zero_lt_succ _)
      simpa [strlen, text] using zero

/-- The last entry of a block without a NUL goes on behind it. -/
theorem entry_unterminated (unterminated : ¬ Terminated content)
    {run : List UInt8} (isLine : IsLine run) :
    ∃ entry ∈ directoryEntries (content ++ (run ++ [newline])),
      run.length ≤ entry.length := by
  obtain ⟨lines, areLines, encoded⟩ := exists_lines unterminated
  have someLine : lines ≠ [] := by
    rintro rfl
    simp at encoded
  obtain ⟨front, last, rfl⟩ :=
    List.eq_nil_or_concat' lines |>.resolve_left someLine
  have lastLine := areLines last (List.mem_append_right _ (by simp))
  have cut : content = encodeEntries front ++ last := by
    rw [encodeEntries_append] at encoded
    apply (List.append_left_inj [newline]).mp
    rw [encoded]
    simp
  have grown : content ++ (run ++ [newline]) =
      encodeEntries (front ++ [last ++ run]) := by
    rw [cut, encodeEntries_append]
    simp
  have areGrown : ∀ line ∈ front ++ [last ++ run], IsLine line := by
    intro line member
    rcases List.mem_append.mp member with old | new
    · exact areLines line (List.mem_append_left _ old)
    · rw [List.mem_singleton.mp new]
      constructor
      · exact fun inLine => (List.mem_append.mp inLine).elim
          lastLine.noNewline isLine.noNewline
      · exact fun inLine => (List.mem_append.mp inLine).elim
          lastLine.nulFree isLine.nulFree
  have nulFree : 0 ∉ content ++ (run ++ [newline]) := by
    intro member
    rcases List.mem_append.mp member with old | new
    · exact unterminated old
    · rcases List.mem_append.mp new with inRun | last
      · exact isLine.nulFree inRun
      · exact absurd (List.mem_singleton.mp last) (by decide)
  rw [directoryEntries_eq areGrown ((text_of_nulFree nulFree).trans grown)]
  refine ⟨_, List.mem_append_right _ List.mem_cons_self, ?_⟩
  rw [List.length_append]
  exact Nat.le_add_left _ _

/-- A run of bytes that no array holds. -/
def longRun : List UInt8 := List.replicate 1024 120

theorem isLine_longRun : IsLine longRun := by
  constructor
  · exact fun member => absurd (List.eq_of_mem_replicate member) (by decide)
  · exact fun member => absurd (List.eq_of_mem_replicate member) (by decide)

theorem length_longRun : longRun.length = 1024 := List.length_replicate

end Scanning

/-! ## Which copies fit -/

section Copies

variable {copy : Copy} {path removed entry : List UInt8}

theorem fits_getParentCopies (short : path.length < maxPath)
    (member : copy ∈ getParentCopies path) : copy.Fits := by
  unfold getParentCopies at member
  split at member
  · cases member
  · cases List.mem_singleton.mp member
    have bounded : (parentPath path).length ≤ path.length :=
      List.length_take_le' _ _
    change (parentPath path ++ [0]).length ≤ maxPath
    rw [List.length_append, List.length_singleton]
    omega

/-- `buff` has room for the newline and the NUL behind a short entry. -/
theorem fits_roundCopies (short : entry.length < maxPath)
    (member : copy ∈ roundCopies removed entry) : copy.Fits := by
  unfold roundCopies at member
  rcases List.mem_cons.mp member with rfl | kept
  · change (entry ++ [0]).length ≤ maxPath + 1
    rw [List.length_append, List.length_singleton]
    omega
  · split at kept
    · cases kept
    · cases List.mem_singleton.mp kept
      change (entry ++ [newline, 0]).length ≤ maxPath + 1
      rw [List.length_append]
      exact Nat.succ_le_succ short

theorem overruns_roundCopies (removedShort : removed.length < maxPath)
    (long : maxPath ≤ entry.length) :
    ∃ copy ∈ roundCopies removed entry, ¬ copy.Fits := by
  have different : entry ≠ removed := by
    rintro rfl
    exact Nat.not_lt.mpr long removedShort
  refine ⟨⟨.removeBuff, entry ++ [newline, 0]⟩, ?_, ?_⟩
  · unfold roundCopies
    rw [if_neg different]
    exact List.mem_cons_of_mem _ List.mem_cons_self
  · intro fits
    change (entry ++ [newline, 0]).length ≤ maxPath + 1 at fits
    rw [List.length_append] at fits
    exact Nat.not_succ_le_self _ ((Nat.add_le_add_right long 2).trans fits)

end Copies

namespace Superblock

variable {superblock : Superblock} {ambient : Ambient}
variable {behind : Nat → List UInt8} {path : List UInt8} {index : Nat}
variable {copy : Copy}

/-- `remove_inode` looks for the parent once the bit of the inode is clear. -/
theorem getParent_cleared (absolute : path.head? = some slash)
    (found : superblock.searchInode path = some index) :
    (superblock.setBitmap index false).getParent path =
      superblock.getParent path := by
  have named := (searchInode_eq_some found).2
  change (superblock.inodes index).path.text = path at named
  unfold Superblock.getParent
  split
  · rfl
  · rename_i long
    have different : path ≠ parentPath path :=
      (parentPath_ne_self absolute long).symm
    have sameAt : (superblock.setBitmap index false).liveAt (parentPath path) =
        superblock.liveAt (parentPath path) := by
      funext other
      unfold Superblock.liveAt
      by_cases same : other = index
      · subst same
        simp [Superblock.setBitmap, named, different]
      · simp [Superblock.setBitmap, same]
    unfold Superblock.searchInode
    rw [sameAt]

theorem parent_ne_index (absolute : path.head? = some slash)
    (found : superblock.searchInode path = some index) {parent : Nat}
    (isParent : superblock.getParent path = some parent) : parent ≠ index := by
  rw [← getParent_cleared absolute found] at isParent
  have live := live_of_getParent isParent
  rintro rfl
  simp [Superblock.setBitmap] at live

theorem fits_createEntryCopies {mode : UInt32} {type : InodeType}
    (member : copy ∈ superblock.createEntryCopies ambient path mode type) :
    copy.Fits := by
  unfold createEntryCopies at member
  rcases List.mem_append.mp member with inInode | inParent
  · unfold createInodeCopies at inInode
    split at inInode
    · cases inInode
    · rename_i short
      split at inInode
      · cases inInode
      · cases List.mem_singleton.mp inInode
        change (path ++ [0]).length ≤ maxPath
        rw [List.length_append]
        exact Nat.lt_of_not_le short
  · split at inParent
    · cases inParent
    · rename_i created
      rcases createInode_cases superblock ambient path mode type with
        ⟨negative, -⟩ | ⟨_, _, can, _⟩
      · exact absurd negative created
      · exact fits_getParentCopies can.1 inParent

/-- The lines of a parent that is scanned inside its block are short. -/
theorem fits_removeInodeCopies (lined : superblock.Lined)
    (absolute : path.head? = some slash)
    (found : superblock.searchInode path = some index)
    (rebuilds : ¬ superblock.RebuildsLongLine ambient path)
    (member : copy ∈
      superblock.removeInodeCopies ambient behind path index) : copy.Fits := by
  obtain ⟨live, named⟩ := searchInode_eq_some found
  have short : path.length < maxPath := by
    rw [← named]
    exact (lined index live).short
  unfold removeInodeCopies at member
  dsimp only at member
  rcases List.mem_append.mp member with inParent | inRounds
  · exact fits_getParentCopies short inParent
  · rw [getParent_cleared absolute found] at inRounds
    split at inRounds
    · cases inRounds
    · rename_i parent isParent
      split at inRounds
      · cases inRounds
      · split at inRounds
        · cases inRounds
        · rename_i block allocated
          obtain ⟨entry, isEntry, inRound⟩ := List.mem_flatMap.mp inRounds
          rw [setBitmap_inodes] at allocated
          have granted : (calloc ambient
              (superblock.inodes parent).size.toInt).isSome = true := by
            rw [allocated]
            rfl
          have terminated :
              Terminated (superblock.inodes parent).content := by
            by_contra unterminated
            exact rebuilds ⟨parent, isParent, granted, .inl unterminated⟩
          change entry ∈ directoryEntries
            ((superblock.inodes parent).content ++ behind parent) at isEntry
          rw [(scan_terminated terminated _).2] at isEntry
          refine fits_roundCopies ?_ inRound
          by_cases isDirectory : (superblock.inodes parent).type = .dir
          · have buffer := (lined parent
              (live_of_getParent isParent)).buffer isDirectory
            exact (buffer.directoryEntries.1 entry isEntry).2
          · by_contra long
            exact rebuilds ⟨parent, isParent, granted, .inr ⟨isDirectory, entry,
              isEntry, Nat.le_of_not_lt long⟩⟩

/-- With a long line behind its block, every parent of the kind has an entry that
is too long. -/
theorem overruns_removeInodeCopies (lined : superblock.Lined)
    (absolute : path.head? = some slash)
    (found : superblock.searchInode path = some index)
    (rebuilds : superblock.RebuildsLongLine ambient path)
    (behind : Nat → List UInt8)
    (isBehind : ∀ parent, superblock.getParent path = some parent →
      behind parent = longRun ++ [newline]) :
    ∃ copy ∈ superblock.removeInodeCopies ambient behind path index,
      ¬ copy.Fits := by
  obtain ⟨live, named⟩ := searchInode_eq_some found
  have short : path.length < maxPath := by
    rw [← named]
    exact (lined index live).short
  obtain ⟨parent, isParent, granted, bad⟩ := rebuilds
  obtain ⟨block, allocated⟩ := Option.isSome_iff_exists.mp granted
  have hasSlash : slash ∈ path := List.mem_of_mem_head? absolute
  have wide : maxPath ≤ longRun.length := by
    rw [length_longRun]
    decide
  obtain ⟨entry, isEntry, long⟩ : ∃ entry ∈ directoryEntries
      (superblock.scanned behind parent), maxPath ≤ entry.length := by
    unfold scanned
    rw [isBehind parent isParent]
    by_cases terminated : Terminated (superblock.inodes parent).content
    · obtain ⟨-, longEntry⟩ := bad.resolve_left (not_not_intro terminated)
      rw [(scan_terminated terminated _).2]
      exact longEntry
    · obtain ⟨entry, isEntry, long⟩ :=
        entry_unterminated terminated isLine_longRun
      exact ⟨entry, isEntry, wide.trans long⟩
  obtain ⟨copy, inRound, overruns⟩ := overruns_roundCopies
    (Nat.lt_of_le_of_lt (baseName_length_le path) short) long
  refine ⟨copy, ?_, overruns⟩
  unfold removeInodeCopies
  dsimp only
  apply List.mem_append_right
  rw [getParent_cleared absolute found, isParent]
  dsimp only
  rw [if_neg (not_not_intro hasSlash), setBitmap_inodes, allocated]
  exact List.mem_flatMap.mpr ⟨entry, isEntry, inRound⟩

theorem fitsArrays_of_lined (lined : superblock.Lined) {call : Call}
    (fits : ¬ superblock.Overruns ambient call) :
    superblock.FitsArrays ambient call := by
  intro behind copy member
  cases call with
  | getattr path =>
      cases List.mem_singleton.mp member
      change (path.bytes ++ [0]).length ≤ maxPath
      rw [List.length_append]
      exact Nat.lt_of_not_le fits
  | readdir path =>
      dsimp only [copies] at member
      split at member
      · cases member
      · rename_i index found
        split at member
        · cases member
        · rename_i isDirectory
          have directory := Decidable.not_not.mp isDirectory
          have terminated : Terminated (superblock.inodes index).content := by
            by_contra unterminated
            exact fits ⟨index, found, directory, unterminated⟩
          obtain ⟨entry, isEntry, rfl⟩ := List.mem_map.mp member
          change entry ∈ directoryEntries
            ((superblock.inodes index).content ++ behind index) at isEntry
          rw [(scan_terminated terminated _).2] at isEntry
          have buffer := (lined index (searchInode_eq_some found).1).buffer
            directory
          have short := (buffer.directoryEntries.1 entry isEntry).2
          have isMax : maxPath = 256 := rfl
          change (entry ++ [0]).length ≤ 1024
          rw [List.length_append, List.length_singleton]
          omega
  | unlink path =>
      dsimp only [copies] at member
      split at member
      · cases member
      · rename_i index found
        split at member
        · cases member
        · rename_i isFile
          refine fits_removeInodeCopies lined path.absolute found ?_ member
          intro rebuilds
          exact fits ⟨index, found, Decidable.not_not.mp isFile, rebuilds⟩
  | rmdir path =>
      dsimp only [copies] at member
      split at member
      · cases member
      · rename_i index found
        split at member
        · cases member
        · rename_i isDirectory
          split at member
          · cases member
          · rename_i empty
            refine fits_removeInodeCopies lined path.absolute found ?_ member
            intro rebuilds
            refine fits ⟨index, found, Decidable.not_not.mp isDirectory, ?_,
              rebuilds⟩
            exact strlen_eq_zero (Nat.eq_zero_of_not_pos empty)
  | mkdir path mode => exact fits_createEntryCopies member
  | create path mode => exact fits_createEntryCopies member
  | read path size offset => cases member
  | utimens path accessed modified => cases member
  | write path buffer offset => cases member
  | truncate path size => cases member

theorem not_overruns_of_fits (lined : superblock.Lined) {call : Call}
    (fits : superblock.FitsArrays ambient call) :
    ¬ superblock.Overruns ambient call := by
  intro overruns
  cases call with
  | getattr path =>
      have copied := fits (fun _ => []) _ (List.mem_singleton.mpr rfl)
      change (path.bytes ++ [0]).length ≤ maxPath at copied
      rw [List.length_append] at copied
      exact Nat.not_lt.mpr overruns copied
  | readdir path =>
      obtain ⟨index, found, isDirectory, unterminated⟩ := overruns
      obtain ⟨entry, isEntry, long⟩ :=
        entry_unterminated unterminated isLine_longRun
      have member : ⟨.readdirBuff, entry ++ [0]⟩ ∈ superblock.copies ambient
          (fun _ => longRun ++ [newline]) (.readdir path) := by
        dsimp only [copies]
        rw [found]
        dsimp only
        rw [if_neg (not_not_intro isDirectory)]
        exact List.mem_map.mpr ⟨entry, isEntry, rfl⟩
      have copied := fits _ _ member
      change (entry ++ [0]).length ≤ 1024 at copied
      rw [length_longRun] at long
      rw [List.length_append] at copied
      exact Nat.not_lt.mpr long copied
  | unlink path =>
      obtain ⟨index, found, isFile, rebuilds⟩ := overruns
      obtain ⟨copy, member, overrun⟩ := overruns_removeInodeCopies lined
        path.absolute found rebuilds (fun _ => longRun ++ [newline])
        (fun _ _ => rfl)
      apply overrun
      apply fits (fun _ => longRun ++ [newline])
      dsimp only [copies]
      rw [found]
      dsimp only
      rw [if_neg (not_not_intro isFile)]
      exact member
  | rmdir path =>
      obtain ⟨index, found, isDirectory, empty, rebuilds⟩ := overruns
      -- the removed directory is empty, whatever its parent runs into
      let behind : Nat → List UInt8 :=
        fun slot => if slot = index then [] else longRun ++ [newline]
      have isBehind : ∀ parent, superblock.getParent path.bytes = some parent →
          behind parent = longRun ++ [newline] :=
        fun parent isParent =>
          if_neg (parent_ne_index path.absolute found isParent)
      obtain ⟨copy, member, overrun⟩ := overruns_removeInodeCopies lined
        path.absolute found rebuilds behind isBehind
      have noText : strlen (superblock.scanned behind index) = 0 := by
        unfold scanned
        rw [show behind index = [] from if_pos rfl, List.append_nil]
        exact empty
      apply overrun
      apply fits behind
      dsimp only [copies]
      rw [found]
      dsimp only
      rw [if_neg (not_not_intro isDirectory), if_neg (Nat.not_lt.mpr noText.le)]
      exact member
  | mkdir path mode => exact overruns
  | create path mode => exact overruns
  | read path size offset => exact overruns
  | utimens path accessed modified => exact overruns
  | write path buffer offset => exact overruns
  | truncate path size => exact overruns

/-- In every state that is mounted, a copy can leave its array only in
`fisopfs_getattr` of a long path and in a scan of a block that has no NUL or is
no directory. -/
theorem fitsArrays_iff {host : Host}
    (reachable : heldMounts.Reachable Machine.Unrestricted host)
    (mounted : host.mounted = some superblock) (ambient : Ambient)
    (call : Call) :
    superblock.FitsArrays ambient call ↔ ¬ superblock.Overruns ambient call := by
  have lined := lined_of_reachable reachable mounted
  constructor
  · exact not_overruns_of_fits lined
  · exact fitsArrays_of_lined lined

/-- A path that is looked up before anything is checked. -/
def longPath : AbsolutePath :=
  ⟨slash :: List.replicate 255 97, rfl, by decide⟩

theorem fitsArrays_fresh :
    (Superblock.fresh .generous).FitsArrays .generous (.getattr longPath) ↔
      ¬ (Superblock.fresh .generous).Overruns .generous (.getattr longPath) :=
  fitsArrays_iff reachable_fresh rfl _ _

/-- The NUL behind a path of 256 bytes is written behind `path_copy`. -/
theorem not_fitsArrays :
    ¬ ∀ host, heldMounts.Reachable Machine.Unrestricted host →
      ∀ superblock, host.mounted = some superblock →
      ∀ (ambient : Ambient) (call : Call),
      superblock.FitsArrays ambient call := by
  intro fits
  have fit := fits _ reachable_fresh _ rfl .generous (.getattr longPath)
    (fun _ => []) ⟨.pathCopy, longPath.bytes ++ [0]⟩ List.mem_cons_self
  exact absurd fit (by decide +kernel)

end Superblock

end FeaturesOS.FileSystem

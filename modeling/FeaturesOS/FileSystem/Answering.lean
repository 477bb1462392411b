import FeaturesOS.FileSystem.Exchanges

/-!
# Each call answers

What each handler does to the volume that its table shows.  A call changes one
slot, and besides it only the text of a directory.
-/

namespace FeaturesOS.FileSystem

open CString

namespace Superblock

variable {superblock next : Superblock} {ambient : Ambient}
variable {path : List UInt8} {names : Names} {index slot : Nat}

/-! ## Changing one slot -/

/-- Besides the slot, only the texts of directories differ. -/
structure Alters (superblock next : Superblock) (slot : Nat)
    (path : List UInt8) : Prop where
  live : ∀ index, index ≠ slot → (next.Live index ↔ superblock.Live index)
  inodes : ∀ index, index ≠ slot → superblock.Live index →
    next.inodes index = superblock.inodes index ∨
      (superblock.inodes index).type = .dir ∧ ∃ content size,
        next.inodes index = { superblock.inodes index with content, size }
  before : superblock.Live slot → superblock.pathAt slot = path
  after : next.Live slot → next.pathAt slot = path

namespace Alters

theorem keeps (alters : superblock.Alters next slot path)
    (other : index ≠ slot) (live : superblock.Live index) :
    next.pathAt index = superblock.pathAt index ∧
      (next.inodes index).type = (superblock.inodes index).type ∧
      (next.inodes index).thing = (superblock.inodes index).thing := by
  rcases alters.inodes index other live with
    same | ⟨isDirectory, content, size, same⟩
  · rw [pathAt, same]
    exact ⟨rfl, rfl, rfl⟩
  · rw [pathAt, same]
    refine ⟨rfl, rfl, ?_⟩
    unfold Inode.thing Inode.node
    rw [if_pos isDirectory, if_pos isDirectory]

/-- What the other names lead to is the same. -/
theorem find_other (alters : superblock.Alters next slot path)
    (space : superblock.Namespace) (nextSpace : next.Namespace)
    (isNames : namesOf path = some names) {other : Names}
    (different : other ≠ names) : next.find other = superblock.find other := by
  unfold find
  split
  · rename_i named
    have elsewhere : pathOf other ≠ path := by
      obtain ⟨isPath, named'⟩ := pathOf_of_namesOf isNames
      rw [← isPath]
      exact fun equal => different ((pathOf_inj named named').mp equal)
    refine Option.ext fun thing => ?_
    rw [nextSpace.thingAt_iff, space.thingAt_iff]
    constructor
    · rintro ⟨index, live, isPath, isThing⟩
      have notSlot : index ≠ slot := by
        rintro rfl
        exact elsewhere (isPath.symm.trans (alters.after live))
      have liveBefore := (alters.live index notSlot).mp live
      obtain ⟨samePath, -, sameThing⟩ := alters.keeps notSlot liveBefore
      exact ⟨index, liveBefore, samePath ▸ isPath, sameThing ▸ isThing⟩
    · rintro ⟨index, live, isPath, isThing⟩
      have notSlot : index ≠ slot := by
        rintro rfl
        exact elsewhere (isPath.symm.trans (alters.before live))
      obtain ⟨samePath, -, sameThing⟩ := alters.keeps notSlot live
      exact ⟨index, (alters.live index notSlot).mpr live,
        samePath.trans isPath, sameThing.trans isThing⟩
  · rfl

/-- The slot holds what its path leads to. -/
theorem changes_some (alters : superblock.Alters next slot path)
    (space : superblock.Namespace) (nextSpace : next.Namespace)
    (isNames : namesOf path = some names) (live : next.Live slot) :
    next.find = Function.update superblock.find names
      (some (next.inodes slot).thing) := by
  funext other
  by_cases same : other = names
  · rw [same, Function.update_self, find_eq isNames]
    exact nextSpace.thingAt_iff.mpr ⟨slot, live, alters.after live, rfl⟩
  · rw [Function.update_of_ne same]
    exact alters.find_other space nextSpace isNames same

/-- The path of a slot that has been cleared leads nowhere. -/
theorem changes_none (alters : superblock.Alters next slot path)
    (space : superblock.Namespace) (nextSpace : next.Namespace)
    (isNames : namesOf path = some names) (live : superblock.Live slot)
    (gone : ¬ next.Live slot) :
    next.find = Function.update superblock.find names none := by
  funext other
  by_cases same : other = names
  · rw [same, Function.update_self, find_eq isNames]
    refine Option.eq_none_iff_forall_ne_some.mpr fun thing found => ?_
    obtain ⟨index, indexLive, isPath, -⟩ := nextSpace.thingAt_iff.mp found
    have notSlot : index ≠ slot := by
      rintro rfl
      exact gone indexLive
    have liveBefore := (alters.live index notSlot).mp indexLive
    rw [(alters.keeps notSlot liveBefore).1] at isPath
    exact notSlot (space.distinct index slot liveBefore live
      (isPath.trans (alters.before live).symm))
  · rw [Function.update_of_ne same]
    exact alters.find_other space nextSpace isNames same

/-- The table shows a volume still. -/
theorem shown (alters : superblock.Alters next slot path)
    (shown : superblock.Shown) (nextSpace : next.Namespace)
    (contents : next.Live slot → (next.inodes slot).type = .dir ∨
      ∃ data, (next.inodes slot).Contains data)
    (root : superblock.Live slot → superblock.pathAt slot = [slash] →
      next.IsDirectory slot) : next.Shown := by
  refine ⟨nextSpace, ?_, fun index live => ?_⟩
  · obtain ⟨index, isDirectory, isRoot⟩ := shown.root
    by_cases isSlot : index = slot
    · subst index
      have there := root isDirectory.1 isRoot
      refine ⟨slot, there, ?_⟩
      rw [alters.after there.1, ← alters.before isDirectory.1, isRoot]
    · obtain ⟨samePath, sameType, -⟩ := alters.keeps isSlot isDirectory.1
      exact ⟨index, ⟨(alters.live index isSlot).mpr isDirectory.1,
        sameType.trans isDirectory.2⟩, samePath.trans isRoot⟩
  · by_cases isSlot : index = slot
    · subst index
      exact contents live
    · have liveBefore := (alters.live index isSlot).mp live
      rcases alters.inodes index isSlot liveBefore with
        same | ⟨isDirectory, content, size, same⟩
      · rw [same]
        exact shown.contents index liveBefore
      · rw [same]
        exact .inl isDirectory

end Alters

/-- An inode that keeps its path is written over. -/
theorem alters_setInode {inode : Inode}
    (found : superblock.searchInode path = some index)
    (same : inode.path = (superblock.inodes index).path) :
    superblock.Alters (superblock.setInode index inode) index path := by
  obtain ⟨live, isPath⟩ := searchInode_eq_some found
  refine ⟨fun _ _ => Iff.rfl, fun other different _ => .inl ?_, fun _ => isPath,
    fun _ => ?_⟩
  · exact setInode_inodes_of_ne _ _ different
  · rw [pathAt, setInode_inodes_self, same]
    exact isPath

/-! ## Calls that change nothing -/

theorem cutPath_eq (noNewline : newline ∉ path) : cutPath path = path := by
  apply List.takeWhile_eq_self_iff.mpr
  intro byte member
  have different : byte ≠ newline := by
    rintro rfl
    exact noNewline member
  simpa using different

theorem call_absent {call : Call} (looksFor : call.LooksFor)
    (works : superblock.WorksOn ambient call)
    (absent : superblock.searchInode call.path.bytes = none) :
    (superblock.call ambient call).1 = superblock ∧
      superblock.reply ambient call = .plain (-enoent) := by
  cases call with
  | getattr path =>
      have uncut : path.bytes.takeWhile (· != newline) = path.bytes :=
        cutPath_eq works
      simp only [Call.path] at absent
      simp [reply, Superblock.call, fisopfsGetattr, uncut, absent, Reply.plain]
  | readdir path =>
      simp only [Call.path] at absent
      simp [reply, Superblock.call, fisopfsReaddir, absent, Reply.plain]
  | read path size offset =>
      simp only [Call.path] at absent
      simp [reply, Superblock.call, fisopfsRead, absent, Reply.plain]
  | unlink path =>
      simp only [Call.path] at absent
      simp [reply, Superblock.call, fisopfsUnlink, absent, Reply.plain]
  | utimens path accessed modified =>
      simp only [Call.path] at absent
      simp [reply, Superblock.call, fisopfsUtimens, absent, Reply.plain]
  | rmdir path =>
      simp only [Call.path] at absent
      simp [reply, Superblock.call, fisopfsRmdir, absent, Reply.plain]
  | write path buffer offset =>
      simp only [Call.path] at absent
      simp [reply, Superblock.call, fisopfsWrite, absent, Reply.plain]
  | truncate path size =>
      simp only [Call.path] at absent
      simp [reply, Superblock.call, fisopfsTruncate, absent, Reply.plain]
  | mkdir path mode | create path mode => exact looksFor.elim

theorem call_isDirectory {call : Call} (onFile : call.OnFile)
    (found : superblock.searchInode call.path.bytes = some index)
    (isDirectory : (superblock.inodes index).type = .dir) :
    (superblock.call ambient call).1 = superblock ∧
      superblock.reply ambient call = .plain (-eisdir) := by
  have notFile : (superblock.inodes index).type ≠ .file := by
    rw [isDirectory]
    decide
  cases call with
  | read path size offset =>
      simp only [Call.path] at found
      simp [reply, Superblock.call, fisopfsRead, found, notFile, Reply.plain]
  | unlink path =>
      simp only [Call.path] at found
      simp [reply, Superblock.call, fisopfsUnlink, found, notFile, Reply.plain]
  | write path buffer offset =>
      simp only [Call.path] at found
      simp [reply, Superblock.call, fisopfsWrite, found, notFile, Reply.plain]
  | truncate path size =>
      simp only [Call.path] at found
      simp [reply, Superblock.call, fisopfsTruncate, found, notFile, Reply.plain]
  | getattr _ | readdir _ | utimens _ _ _ | rmdir _ | mkdir _ _ | create _ _ =>
      exact onFile.elim

theorem call_notDirectory {call : Call} (onDirectory : call.OnDirectory)
    (found : superblock.searchInode call.path.bytes = some index)
    (isFile : (superblock.inodes index).type = .file) :
    (superblock.call ambient call).1 = superblock ∧
      superblock.reply ambient call = .plain (-enotdir) := by
  have notDirectory : (superblock.inodes index).type ≠ .dir := by
    rw [isFile]
    decide
  cases call with
  | readdir path =>
      simp only [Call.path] at found
      simp [reply, Superblock.call, fisopfsReaddir, found, notDirectory,
        Reply.plain]
  | rmdir path =>
      simp only [Call.path] at found
      simp [reply, Superblock.call, fisopfsRmdir, found, notDirectory,
        Reply.plain]
  | getattr _ | read _ _ _ | utimens _ _ _ | unlink _ | write _ _ _
  | truncate _ _ | mkdir _ _ | create _ _ => exact onDirectory.elim

/-! ## Calls that change a thing -/

namespace Shown

theorem found_at (shown : superblock.Shown)
    (found : superblock.searchInode path = some index) :
    ∃ names, namesOf path = some names ∧
      shown.volume.find names = some (superblock.inodes index).thing := by
  obtain ⟨live, isPath⟩ := searchInode_eq_some found
  obtain ⟨names, isNames⟩ := shown.space.namesOf_pathAt live
  rw [isPath] at isNames
  refine ⟨names, isNames, ?_⟩
  change superblock.find names = _
  rw [find_eq isNames, thingAt, found]
  rfl

theorem setInode (shown : superblock.Shown)
    (found : superblock.searchInode path = some index)
    (isNames : namesOf path = some names) {inode : Inode}
    (samePath : inode.path = (superblock.inodes index).path)
    (sameType : inode.type = (superblock.inodes index).type)
    (contents : inode.type = .dir ∨ ∃ data, inode.Contains data)
    (nextSpace : (superblock.setInode index inode).Namespace) :
    ∃ nextShown : (superblock.setInode index inode).Shown,
      shown.volume.Changes nextShown.volume names (some inode.thing) := by
  have alters := alters_setInode found samePath
  obtain ⟨live, -⟩ := searchInode_eq_some found
  have nextShown := alters.shown shown nextSpace
    (by rw [setInode_inodes_self]; exact fun _ => contents)
    (fun _ isRoot => by
      obtain ⟨root, isDirectory, rootPath⟩ := shown.root
      have same := shown.space.distinct root index isDirectory.1 live
        (rootPath.trans isRoot.symm)
      refine ⟨live, ?_⟩
      rw [setInode_inodes_self, sameType, ← same]
      exact isDirectory.2)
  refine ⟨nextShown, ?_⟩
  have changed := alters.changes_some shown.space nextSpace isNames live
  rw [setInode_inodes_self] at changed
  exact changed

/-- The attributes that `fisopfs_getattr` reports are those of the thing. -/
theorem described (shown : superblock.Shown) (live : superblock.Live index) :
    (superblock.inodes index).thing.Described (superblock.inodes index).stat := by
  rcases shown.contents index live with isDirectory | ⟨data, contains⟩
  · have node : (superblock.inodes index).thing.node = .directory :=
      Inode.node_directory isDirectory
    refine ⟨?_, ?_, fun data isFile => ?_, rfl, rfl, rfl, rfl, rfl⟩
    · rw [node, Inode.stat, isDirectory]
      rfl
    · rw [node, Inode.stat, isDirectory]
      rfl
    · cases node.symm.trans isFile
  · have node : (superblock.inodes index).thing.node = .file data :=
      contains.node
    refine ⟨?_, ?_, fun data' isFile => ?_, rfl, rfl, rfl, rfl, rfl⟩
    · rw [node, Inode.stat, contains.isFile]
      rfl
    · rw [node, Inode.stat, contains.isFile]
      rfl
    · cases node.symm.trans isFile
      exact contains.size

variable {path : AbsolutePath}

/-- The call leaves a table that shows a volume and answers as it does. -/
def Answered (shown : superblock.Shown) (ambient : Ambient) (call : Call) :
    Prop :=
  ∃ nextShown : (superblock.call ambient call).1.Shown,
    Answers ambient shown.volume call (superblock.reply ambient call)
      nextShown.volume

theorem answered_same (shown : superblock.Shown) {call : Call} {reply : Reply}
    (same : (superblock.call ambient call).1 = superblock ∧
      superblock.reply ambient call = reply)
    (answers : Answers ambient shown.volume call reply shown.volume) :
    shown.Answered ambient call := by
  unfold Answered
  rw [same.2]
  generalize (superblock.call ambient call).1 = next at same
  obtain ⟨rfl, -⟩ := same
  exact ⟨shown, answers⟩

/-- A call that writes one inode over. -/
theorem answered_setInode (shown : superblock.Shown) {call : Call}
    {inode : Inode}
    (isNext : (superblock.call ambient call).1 = superblock.setInode index inode)
    (found : superblock.searchInode path.bytes = some index)
    (isNames : namesOf path.bytes = some names)
    (samePath : inode.path = (superblock.inodes index).path)
    (sameType : inode.type = (superblock.inodes index).type)
    (contents : inode.type = .dir ∨ ∃ data, inode.Contains data)
    (nextSpace : (superblock.call ambient call).1.Namespace)
    (answers : ∀ next, shown.volume.Changes next names (some inode.thing) →
      Answers ambient shown.volume call (superblock.reply ambient call) next) :
    shown.Answered ambient call := by
  unfold Answered
  rw [isNext] at nextSpace ⊢
  obtain ⟨nextShown, changes⟩ :=
    shown.setInode found isNames samePath sameType contents nextSpace
  exact ⟨nextShown, answers _ changes⟩

theorem answered_getattr (shown : superblock.Shown)
    (works : newline ∉ path.bytes)
    (found : superblock.searchInode path.bytes = some index) :
    shown.Answered ambient (.getattr path) := by
  have getattr : superblock.fisopfsGetattr path.bytes =
      (0, some (superblock.inodes index).stat) :=
    fisopfsGetattr_eq (by rw [cutPath_eq works]; exact found)
  obtain ⟨live, -⟩ := searchInode_eq_some found
  refine shown.answered_same ⟨rfl, ?_⟩
    (.getattr ?_ (shown.described live))
  · simp only [reply, Superblock.call, getattr, Reply.plain]
  · rw [shown.lookup, thingAt, found]
    rfl

theorem answered_readdir (shown : superblock.Shown)
    (found : superblock.searchInode path.bytes = some index)
    (isDirectory : (superblock.inodes index).type = .dir) :
    shown.Answered ambient (.readdir path) := by
  obtain ⟨names, isNames, isThing⟩ := shown.found_at found
  obtain ⟨live, isPath⟩ := searchInode_eq_some found
  obtain ⟨entries, directory⟩ := shown.space.directories index ⟨live, isDirectory⟩
  obtain ⟨isPath', named⟩ := pathOf_of_namesOf isNames
  have readdir : superblock.fisopfsReaddir path.bytes = (0, entries) := by
    rw [fisopfsReaddir_eq found isDirectory,
      shown.space.directoryEntries directory]
  refine shown.answered_same ⟨rfl, ?_⟩
    (.readdir isNames isThing (Inode.node_directory isDirectory)
      directory.nodup fun name => ?_)
  · simp only [reply, Superblock.call, readdir, Reply.plain]
  · rw [shown.holds_iff named, directory.complete, isPath, isPath']

theorem answered_utimens (shown : superblock.Shown)
    (found : superblock.searchInode path.bytes = some index)
    (accessed modified : UInt64)
    (nextSpace : (superblock.call ambient
      (.utimens path accessed modified)).1.Namespace) :
    shown.Answered ambient (.utimens path accessed modified) := by
  obtain ⟨names, isNames, isThing⟩ := shown.found_at found
  obtain ⟨live, -⟩ := searchInode_eq_some found
  have isNext : (superblock.call ambient
      (.utimens path accessed modified)).1 = superblock.setInode index
        { superblock.inodes index with
          lastAccess := accessed
          lastModification := modified } := by
    simp only [Superblock.call, fisopfsUtimens, found]
  refine shown.answered_setInode isNext found isNames rfl rfl ?_ nextSpace
    fun next changes => ?_
  · rcases shown.contents index live with isDirectory | ⟨data, contains⟩
    · exact .inl isDirectory
    · exact .inr ⟨data, contains.isFile, contains.size, contains.content⟩
  · have isReply : superblock.reply ambient (.utimens path accessed modified) =
        .plain 0 := by
      simp only [reply, Superblock.call, fisopfsUtimens, found, Reply.plain]
    rw [isReply]
    exact .utimens isNames isThing changes

theorem answered_read (shown : superblock.Shown) {size offset : Nat}
    {data : List UInt8}
    (works : superblock.WorksOn ambient (.read path size offset))
    (found : superblock.searchInode path.bytes = some index)
    (contains : (superblock.inodes index).Contains data)
    (nextSpace : (superblock.call ambient
      (.read path size offset)).1.Namespace) :
    shown.Answered ambient (.read path size offset) := by
  obtain ⟨names, isNames, isThing⟩ := shown.found_at found
  have hasFile : superblock.HasFile path.bytes data := ⟨index, found, contains⟩
  obtain ⟨signed, sized, inside⟩ := works
  have reads :=
    (reads_iff hasFile ambient signed sized).mpr (inside data hasFile)
  have isFile : ¬ (superblock.inodes index).type ≠ .file :=
    not_not_intro contains.isFile
  have isNext : (superblock.call ambient (.read path size offset)).1 =
      superblock.setInode index
        { superblock.inodes index with lastAccess := ambient.now } := by
    simp only [Superblock.call, fisopfsRead, found, if_neg isFile]
  refine shown.answered_setInode isNext found isNames rfl rfl ?_ nextSpace
    fun next changes => ?_
  · exact .inr ⟨data, contains.isFile, contains.size, contains.content⟩
  · have isReply : superblock.reply ambient (.read path size offset) =
        { Reply.plain (readFrom data size offset).length with
          bytes := readFrom data size offset } := by
      simp only [reply, Superblock.call, reads.result, reads.stored, Reply.plain]
    rw [isReply]
    exact .read isNames isThing contains.node changes

theorem answered_write (shown : superblock.Shown) {buffer data : List UInt8}
    {offset : Nat} (grants : ∀ length, ambient.grants length = true)
    (works : superblock.WorksOn ambient (.write path buffer offset))
    (found : superblock.searchInode path.bytes = some index)
    (contains : (superblock.inodes index).Contains data)
    (nextSpace : (superblock.call ambient
      (.write path buffer offset)).1.Namespace) :
    shown.Answered ambient (.write path buffer offset) := by
  obtain ⟨names, isNames, isThing⟩ := shown.found_at found
  have hasFile : superblock.HasFile path.bytes data := ⟨index, found, contains⟩
  obtain ⟨fits, ends⟩ := works
  have writes := (writes_iff hasFile fits (grants _)).mpr (ends data hasFile)
  obtain ⟨content, grown, -⟩ :=
    @exists_growForWrite _ buffer offset _ _ contains (grants _)
  have isFile : ¬ (superblock.inodes index).type ≠ .file :=
    not_not_intro contains.isFile
  have isNext : (superblock.call ambient (.write path buffer offset)).1 =
      superblock.setInode index
        { superblock.inodes index with
          content := overwrite content offset buffer
          size := Int32.ofInt (offset + buffer.length)
          lastModification := ambient.now } := by
    simp only [Superblock.call, fisopfsWrite, found, if_neg isFile, grown]
  have after := writes.hasFile
  change (superblock.call ambient (.write path buffer offset)).1.HasFile _ _
    at after
  rw [isNext] at after
  have contains' := (hasFile_setInode found (by rfl)).mp after
  refine shown.answered_setInode isNext found isNames rfl rfl
    (.inr ⟨_, contains'⟩) nextSpace fun next changes => ?_
  have isReply : superblock.reply ambient (.write path buffer offset) =
      .plain buffer.length := by
    simp only [reply, Superblock.call, writes.result, Reply.plain]
  rw [isReply]
  refine .write isNames isThing contains.node ?_
  rw [Inode.thing, contains'.node] at changes
  exact changes

theorem answered_truncate (shown : superblock.Shown) {data : List UInt8}
    {size : Nat} (grants : ∀ length, ambient.grants length = true)
    (works : superblock.WorksOn ambient (.truncate path size))
    (found : superblock.searchInode path.bytes = some index)
    (contains : (superblock.inodes index).Contains data)
    (nextSpace : (superblock.call ambient (.truncate path size)).1.Namespace) :
    shown.Answered ambient (.truncate path size) := by
  obtain ⟨names, isNames, isThing⟩ := shown.found_at found
  obtain ⟨fits, well⟩ := works
  have truncatesWell := well index found contains.isFile
  have isFile : ¬ (superblock.inodes index).type ≠ .file :=
    not_not_intro contains.isFile
  have allocated : realloc ambient (superblock.inodes index).content size =
      some (resize (superblock.inodes index).content size ambient.fresh) := by
    have positive : (0 : Int) < size := by
      have := truncatesWell.1
      omega
    unfold realloc
    exact if_pos ⟨positive, grants _⟩
  have isNext : (superblock.call ambient (.truncate path size)).1 =
      superblock.setInode index
        { superblock.inodes index with
          content :=
            if (superblock.inodes index).size.toInt > size then
              overwrite (resize (superblock.inodes index).content size
                ambient.fresh) size [0]
            else resize (superblock.inodes index).content size ambient.fresh
          size := Int32.ofInt size
          lastModification := ambient.now } := by
    simp only [Superblock.call, fisopfsTruncate, found, if_neg isFile,
      if_neg truncatesWell.1, allocated]
  have result : (superblock.call ambient (.truncate path size)).2 = 0 := by
    simp only [Superblock.call, fisopfsTruncate, found, if_neg isFile,
      if_neg truncatesWell.1, allocated]
  have law : superblock.Truncates ambient path.bytes data size := by
    rcases (truncates_iff found contains fits).mpr truncatesWell with
      refuses | law
    · have negative := refuses.result
      change (superblock.call ambient (.truncate path size)).2 < 0 at negative
      omega
    · exact law
  have after := law.hasFile
  change (superblock.call ambient (.truncate path size)).1.HasFile _ _ at after
  rw [isNext] at after
  have contains' := (hasFile_setInode found (by rfl)).mp after
  refine shown.answered_setInode isNext found isNames rfl rfl
    (.inr ⟨_, contains'⟩) nextSpace fun next changes => ?_
  have isReply : superblock.reply ambient (.truncate path size) = .plain 0 := by
    simp only [reply, result, Reply.plain]
  rw [isReply]
  refine .truncate isNames isThing contains.node ?_
  rw [Inode.thing, contains'.node] at changes
  exact changes

end Shown

/-! ## Removing a thing -/

theorem removeInode_inodes (superblock : Superblock) (ambient : Ambient)
    (path : List UInt8) (slot index : Nat) : ∃ content size,
      (superblock.removeInode ambient path slot).inodes index =
        { superblock.inodes index with content, size } := by
  unfold removeInode
  dsimp only
  split
  · exact ⟨_, _, rfl⟩
  · rename_i parent found
    split
    · exact ⟨_, _, rfl⟩
    · split
      · exact ⟨_, _, rfl⟩
      · by_cases isParent : index = parent
        · subst index
          rw [setInode_inodes_self]
          exact ⟨_, _, rfl⟩
        · rw [setInode_inodes_of_ne _ _ isParent]
          exact ⟨_, _, rfl⟩

theorem Removed.alters {parent : Nat}
    (removed : superblock.Removed
      (superblock.removeInode ambient (superblock.pathAt slot) slot) slot
      parent) :
    superblock.Alters
      (superblock.removeInode ambient (superblock.pathAt slot) slot) slot
      (superblock.pathAt slot) := by
  refine ⟨fun index other => ?_, fun index other live => ?_, fun _ => rfl,
    fun _ => removed.paths slot⟩
  · rw [removed.live]
    exact and_iff_right other
  · obtain ⟨content, size, same⟩ :=
      removeInode_inodes superblock ambient (superblock.pathAt slot) slot index
    by_cases isParent : index = parent
    · subst index
      exact .inr ⟨removed.parentDirectory.2, content, size, same⟩
    · obtain ⟨sameContent, sameSize⟩ := removed.others index isParent
      rw [same] at sameContent sameSize ⊢
      dsimp only at sameContent sameSize
      rw [sameContent, sameSize]
      exact .inl rfl

namespace Shown

variable {path : AbsolutePath}

/-- `remove_inode` takes a thing without children out of the volume. -/
theorem removes (shown : superblock.Shown)
    (grants : ∀ length, ambient.grants length = true)
    (live : superblock.Live slot)
    (notRoot : superblock.pathAt slot ≠ [slash])
    (childless : ∀ index, ¬ superblock.Child (superblock.pathAt slot) index)
    (isNames : namesOf (superblock.pathAt slot) = some names) :
    ∃ nextShown : (superblock.removeInode ambient (superblock.pathAt slot)
        slot).Shown, shown.volume.Changes nextShown.volume names none := by
  obtain ⟨parent, removed⟩ :=
    shown.space.removeInode grants live notRoot childless
  have nextSpace := removed.preserves shown.space
  have gone : ¬ (superblock.removeInode ambient (superblock.pathAt slot)
      slot).Live slot := fun live => ((removed.live slot).mp live).1 rfl
  have alters := removed.alters
  exact ⟨alters.shown shown nextSpace (fun live => absurd live gone)
      fun _ isRoot => absurd isRoot notRoot,
    alters.changes_none shown.space nextSpace isNames live gone⟩

theorem childless_file (shown : superblock.Shown) (live : superblock.Live slot)
    (isFile : (superblock.inodes slot).type = .file) (index : Nat) :
    ¬ superblock.Child (superblock.pathAt slot) index := by
  rintro ⟨indexLive, indexNotRoot, below⟩
  obtain ⟨parent, isDirectory, isParent⟩ :=
    shown.space.parents index indexLive indexNotRoot
  have same := shown.space.distinct parent slot isDirectory.1 live
    (isParent.trans below)
  subst same
  cases isFile.symm.trans isDirectory.2

theorem answered_unlink (shown : superblock.Shown) {data : List UInt8}
    (grants : ∀ length, ambient.grants length = true)
    (notRoot : path.bytes ≠ [slash])
    (found : superblock.searchInode path.bytes = some index)
    (contains : (superblock.inodes index).Contains data) :
    shown.Answered ambient (.unlink path) := by
  obtain ⟨names, isNames, isThing⟩ := shown.found_at found
  obtain ⟨live, isPath⟩ := searchInode_eq_some found
  have isFile : ¬ (superblock.inodes index).type ≠ .file :=
    not_not_intro contains.isFile
  have unlinks : superblock.fisopfsUnlink ambient path.bytes =
      (superblock.removeInode ambient (superblock.pathAt index) index, 0) := by
    simp only [fisopfsUnlink, found, if_neg isFile, isPath]
  rw [← isPath] at notRoot isNames
  obtain ⟨nextShown, changes⟩ := shown.removes grants live notRoot
    (shown.childless_file live contains.isFile) isNames
  unfold Answered
  have isReply : superblock.reply ambient (.unlink path) = .plain 0 := by
    simp only [reply, Superblock.call, unlinks, Reply.plain]
  have isNext : (superblock.call ambient (.unlink path)).1 =
      superblock.removeInode ambient (superblock.pathAt index) index := by
    simp only [Superblock.call, unlinks]
  rw [isReply, isNext]
  rw [isPath] at isNames
  exact ⟨nextShown, .unlink isNames isThing contains.node changes⟩

theorem answered_rmdir (shown : superblock.Shown)
    (grants : ∀ length, ambient.grants length = true)
    (notRoot : path.bytes ≠ [slash])
    (found : superblock.searchInode path.bytes = some index)
    (isDirectory : (superblock.inodes index).type = .dir) :
    shown.Answered ambient (.rmdir path) := by
  obtain ⟨names, isNames, isThing⟩ := shown.found_at found
  obtain ⟨live, isPath⟩ := searchInode_eq_some found
  obtain ⟨isPath', named⟩ := pathOf_of_namesOf isNames
  have notOther : ¬ (superblock.inodes index).type ≠ .dir :=
    not_not_intro isDirectory
  obtain ⟨entries, directory⟩ := shown.space.directories index ⟨live, isDirectory⟩
  have length : strlen (superblock.inodes index).content =
      (encodeEntries entries).length :=
    congrArg List.length directory.holds
  have held : ∀ name, name ∈ entries ↔ shown.volume.Holds names name := by
    intro name
    rw [shown.holds_iff named, directory.complete, isPath, isPath']
  by_cases empty : strlen (superblock.inodes index).content > 0
  · have rmdirs : superblock.fisopfsRmdir ambient path.bytes =
        (superblock, -enotempty) := by
      simp only [fisopfsRmdir, found, if_neg notOther, if_pos empty]
    obtain ⟨name, member⟩ : ∃ name, name ∈ entries := by
      cases entries with
      | nil =>
          rw [length] at empty
          exact absurd empty (by decide)
      | cons name rest => exact ⟨name, List.mem_cons_self⟩
    refine shown.answered_same ⟨?_, ?_⟩ (.notEmpty isNames isThing
      (Inode.node_directory isDirectory) ((held name).mp member))
    · simp only [Superblock.call, rmdirs]
    · simp only [reply, Superblock.call, rmdirs, Reply.plain]
  · have rmdirs : superblock.fisopfsRmdir ambient path.bytes =
        (superblock.removeInode ambient (superblock.pathAt index) index, 0) := by
      simp only [fisopfsRmdir, found, if_neg notOther, if_neg empty, isPath]
    have none : ∀ name, ¬ shown.volume.Holds names name := by
      intro name holds
      have member := (held name).mpr holds
      have long := length_le_encodeEntries entries
      have some := List.length_pos_of_mem member
      omega
    have childless := shown.space.childless ⟨live, isDirectory⟩ (by omega)
    rw [← isPath] at notRoot isNames
    obtain ⟨nextShown, changes⟩ :=
      shown.removes grants live notRoot childless isNames
    unfold Answered
    have isReply : superblock.reply ambient (.rmdir path) = .plain 0 := by
      simp only [reply, Superblock.call, rmdirs, Reply.plain]
    have isNext : (superblock.call ambient (.rmdir path)).1 =
        superblock.removeInode ambient (superblock.pathAt index) index := by
      simp only [Superblock.call, rmdirs]
    rw [isReply, isNext]
    rw [isPath] at isNames
    exact ⟨nextShown, .rmdir isNames isThing
      (Inode.node_directory isDirectory) none changes⟩

end Shown

/-! ## Adding a thing -/

theorem searchFreeInode_eq_none_iff :
    superblock.searchFreeInode = none ↔
      superblock.live.length = inodesAmount := by
  have range : (List.range inodesAmount).length = inodesAmount :=
    List.length_range
  unfold searchFreeInode Superblock.live
  rw [List.find?_eq_none]
  conv => rhs; rhs; rw [← range]
  rw [List.length_filter_eq_length_iff]
  simp

theorem alters_withEntry {mode : UInt32} {type : InodeType} {parent : Nat}
    (inTable : superblock.BitsInTable)
    (free : superblock.searchFreeInode = some slot) (nulFree : 0 ∉ path)
    (short : path.length < maxPath)
    (isParent : superblock.getParent path = some parent)
    (isDirectory : (superblock.inodes parent).type = .dir) :
    superblock.Alters
      ((superblock.withCreated ambient path mode type slot).setInode parent
        (withEntry ambient (superblock.inodes parent) (baseName path))) slot
      path := by
  have other := parent_ne_slot free isParent
  have notLive : ¬ superblock.Live slot := fun live =>
    searchFreeInode_notLive free (mem_live.mpr ⟨inTable slot live, live⟩)
  refine ⟨fun index different => ?_, fun index different live => ?_,
    fun live => absurd live notLive, fun _ => ?_⟩
  · exact (addInode_inodeBitmap _ _ _ _).trans (or_iff_right different)
  · by_cases same : index = parent
    · subst index
      rw [setInode_inodes_self]
      exact .inr ⟨isDirectory, _, _, rfl⟩
    · rw [setInode_inodes_of_ne _ _ same, withCreated,
        addInode_inodes_of_ne _ _ different]
      exact .inl rfl
  · rw [pathAt, setInode_inodes_of_ne _ _ (Ne.symm other), withCreated,
      addInode_inodes_self]
    exact PathArray.text_strcpy _ nulFree short

namespace Shown

/-- The volume is full when the table is. -/
theorem full_iff (shown : superblock.Shown) :
    shown.volume.Full ↔ superblock.searchFreeInode = none := by
  have isFound : ∀ names, (∃ index ∈ superblock.live,
      namesOf (superblock.pathAt index) = some names) ↔
        shown.volume.find names ≠ none := by
    intro names
    constructor
    · rintro ⟨index, member, isNames⟩ absent
      change superblock.find names = none at absent
      have there := shown.space.thingAt_iff.mpr
        ⟨index, (mem_live.mp member).2, rfl, rfl⟩
      rw [find_eq isNames, there] at absent
      cases absent
    · intro some
      obtain ⟨thing, found⟩ := Option.ne_none_iff_exists'.mp some
      obtain ⟨named, there⟩ := find_eq_some found
      obtain ⟨index, live, isPath, -⟩ := shown.space.thingAt_iff.mp there
      refine ⟨index, mem_live.mpr ⟨shown.space.inTable index live, live⟩, ?_⟩
      rw [isPath]
      exact namesOf_pathOf named
  have isAll : ∃ all : List Names, all.Nodup ∧
      all.length = superblock.live.length ∧
      ∀ names, names ∈ all ↔ shown.volume.find names ≠ none := by
    have some : ∀ index ∈ superblock.live, ∃ names,
        namesOf (superblock.pathAt index) = some names := fun index member =>
      shown.space.namesOf_pathAt (mem_live.mp member).2
    refine ⟨superblock.live.map
      fun index => (namesOf (superblock.pathAt index)).getD [], ?_,
      List.length_map _, fun names => ?_⟩
    · refine List.Nodup.map_on ?_ (List.nodup_range.filter _)
      intro index member other otherMember same
      obtain ⟨names, isNames⟩ := some index member
      obtain ⟨otherNames, isOther⟩ := some other otherMember
      rw [isNames, isOther] at same
      cases same
      exact shown.space.distinct index other (mem_live.mp member).2
        (mem_live.mp otherMember).2 ((pathOf_of_namesOf isNames).1.symm.trans
          (pathOf_of_namesOf isOther).1)
    · rw [← isFound, List.mem_map]
      constructor
      · rintro ⟨index, member, rfl⟩
        obtain ⟨names, isNames⟩ := some index member
        exact ⟨index, member, by rw [isNames]; rfl⟩
      · rintro ⟨index, member, isNames⟩
        exact ⟨index, member, by rw [isNames]; rfl⟩
  obtain ⟨all, nodup, length, complete⟩ := isAll
  rw [searchFreeInode_eq_none_iff]
  constructor
  · rintro ⟨other, otherNodup, otherLength, otherComplete⟩
    have perm : other.Perm all :=
      (List.perm_ext_iff_of_nodup otherNodup nodup).mpr fun names =>
        (otherComplete names).trans (complete names).symm
    rw [← length, ← perm.length_eq, otherLength]
  · intro isFull
    exact ⟨all, nodup, length.trans isFull, complete⟩

/-- The thing in a slot that `create_inode` has filled. -/
theorem thing_newInode (old : Inode) (mode : UInt32) {type : InodeType}
    {node : Node} (isNode : type = .dir ∧ node = .directory ∨
      type = .file ∧ node = .file []) :
    (newInode ambient old path mode type).thing = .new ambient node := by
  rcases isNode with ⟨rfl, rfl⟩ | ⟨rfl, rfl⟩
  · rfl
  · rfl

theorem answered_createEntry (shown : superblock.Shown) {call : Call}
    {node : Node} {mode : UInt32} {type : InodeType}
    (creates : call.Creates node)
    (isNode : type = .dir ∧ node = .directory ∨
      type = .file ∧ node = .file [])
    (isCall : superblock.call ambient call =
      ((superblock.createEntry ambient call.path.bytes mode type).1,
        (superblock.createEntry ambient call.path.bytes mode type).2.1))
    (isReply : superblock.reply ambient call =
      .plain (superblock.createEntry ambient call.path.bytes mode type).2.1)
    (grants : ∀ length, ambient.grants length = true)
    (wellNamed : WellNamed call.path.bytes)
    (absent : superblock.searchInode call.path.bytes = none) {parent : Nat}
    (isParent : superblock.getParent call.path.bytes = some parent)
    (isDirectory : (superblock.inodes parent).type = .dir)
    (nextSpace : (superblock.call ambient call).1.Namespace) :
    shown.Answered ambient call := by
  rw [isCall] at nextSpace
  dsimp only at nextSpace
  by_cases long : maxPath ≤ call.path.bytes.length
  · have failed : superblock.createEntry ambient call.path.bytes mode type =
        (superblock, -enametoolong, call.path.bytes) := by
      unfold createEntry createInode
      rw [if_pos long]
      rfl
    refine shown.answered_same ⟨?_, ?_⟩ (.tooLong creates long)
    · rw [isCall, failed]
    · rw [isReply, failed]
  have short : call.path.bytes.length < maxPath := Nat.not_le.mp long
  cases free : superblock.searchFreeInode with
  | none =>
      have failed : superblock.createEntry ambient call.path.bytes mode type =
          (superblock, -enospc, call.path.bytes) := by
        unfold createEntry createInode
        rw [if_neg (Nat.not_le.mpr short), free]
        rfl
      refine shown.answered_same ⟨?_, ?_⟩
        (.full creates short (shown.full_iff.mpr free))
      · rw [isCall, failed]
      · rw [isReply, failed]
  | some slot =>
      have can : superblock.CanCreate ambient call.path.bytes :=
        ⟨short, by rw [free]; exact Option.some_ne_none slot, grants _⟩
      have runs := createEntry_run call.path.absolute call.path.nulFree can free
        mode type
      rw [isParent] at runs
      dsimp only at runs
      rw [if_neg (not_not_intro isDirectory)] at runs
      have alters := @alters_withEntry _ ambient _ _ mode type _
        shown.space.inTable free call.path.nulFree short isParent isDirectory
      rw [runs] at nextSpace isCall isReply
      dsimp only at nextSpace isCall isReply
      have live : ((superblock.withCreated ambient call.path.bytes mode type
          slot).setInode parent (withEntry ambient (superblock.inodes parent)
            (baseName call.path.bytes))).Live slot :=
        (addInode_inodeBitmap _ _ _ _).mpr (.inl rfl)
      have isNew : ((superblock.withCreated ambient call.path.bytes mode type
          slot).setInode parent (withEntry ambient (superblock.inodes parent)
            (baseName call.path.bytes))).inodes slot =
          newInode ambient (superblock.inodes slot) call.path.bytes mode type := by
        rw [setInode_inodes_of_ne _ _ (Ne.symm (parent_ne_slot free isParent)),
          withCreated, addInode_inodes_self]
      have isNames : namesOf call.path.bytes =
          some (call.path.bytes.tail.splitOn slash) := by
        unfold namesOf
        rw [if_neg wellNamed.ne_slash, if_pos wellNamed]
      have contents : (newInode ambient (superblock.inodes slot)
          call.path.bytes mode type).type = .dir ∨
            ∃ data, (newInode ambient (superblock.inodes slot)
              call.path.bytes mode type).Contains data := by
        rcases isNode with ⟨isDir, -⟩ | ⟨isFile, -⟩
        · exact .inl isDir
        · exact .inr ⟨[], isFile, rfl, List.nil_prefix⟩
      have nextShown := alters.shown shown nextSpace
        (by rw [isNew]; exact fun _ => contents) fun live _ => absurd
          (mem_live.mpr ⟨shown.space.inTable slot live, live⟩)
          (searchFreeInode_notLive free)
      have changes := alters.changes_some shown.space nextSpace isNames live
      rw [isNew, thing_newInode _ mode isNode] at changes
      have notFull : ¬ shown.volume.Full := by
        rw [shown.full_iff, free]
        exact Option.some_ne_none slot
      have isAbsent : shown.volume.find
          (call.path.bytes.tail.splitOn slash) = none := by
        change superblock.find _ = none
        rw [find_eq isNames, thingAt, absent]
        rfl
      unfold Answered
      rw [isReply, isCall]
      exact ⟨nextShown, .creates creates short notFull isNames isAbsent changes⟩

/-! ## Every call -/

theorem looks (shown : superblock.Shown) (call : Call)
    (looksFor : call.LooksFor) (works : superblock.WorksOn ambient call) :
    shown.Answered ambient call ∨
      ∃ index, superblock.searchInode call.path.bytes = some index ∧
        ((superblock.inodes index).type = .dir ∨
          ∃ data, (superblock.inodes index).Contains data) := by
  cases found : superblock.searchInode call.path.bytes with
  | none =>
      refine .inl (shown.answered_same (call_absent looksFor works found)
        (.absent looksFor ?_))
      rw [shown.lookup, thingAt, found]
      rfl
  | some index =>
      obtain ⟨live, -⟩ := searchInode_eq_some found
      exact .inr ⟨index, rfl, shown.contents index live⟩

theorem looksForFile (shown : superblock.Shown) (call : Call)
    (looksFor : call.LooksFor) (onFile : call.OnFile)
    (works : superblock.WorksOn ambient call) :
    shown.Answered ambient call ∨
      ∃ index data, superblock.searchInode call.path.bytes = some index ∧
        (superblock.inodes index).Contains data := by
  rcases shown.looks call looksFor works with
    answered | ⟨index, found, isDirectory | ⟨data, contains⟩⟩
  · exact .inl answered
  · have isThing : shown.volume.lookup call.path =
        some (superblock.inodes index).thing := by
      rw [shown.lookup, thingAt, found]
      rfl
    exact .inl (shown.answered_same (call_isDirectory onFile found isDirectory)
      (.isDirectory onFile isThing (Inode.node_directory isDirectory)))
  · exact .inr ⟨index, data, found, contains⟩

theorem looksForDirectory (shown : superblock.Shown) (call : Call)
    (looksFor : call.LooksFor) (onDirectory : call.OnDirectory)
    (works : superblock.WorksOn ambient call) :
    shown.Answered ambient call ∨
      ∃ index, superblock.searchInode call.path.bytes = some index ∧
        (superblock.inodes index).type = .dir := by
  rcases shown.looks call looksFor works with
    answered | ⟨index, found, isDirectory | ⟨data, contains⟩⟩
  · exact .inl answered
  · exact .inr ⟨index, found, isDirectory⟩
  · have isThing : shown.volume.lookup call.path =
        some (superblock.inodes index).thing := by
      rw [shown.lookup, thingAt, found]
      rfl
    exact .inl (shown.answered_same
      (call_notDirectory onDirectory found contains.isFile)
      (.notDirectory onDirectory isThing contains.node))

/-- A call in good surroundings that does not run into a defect of its handler. -/
theorem answered (shown : superblock.Shown) {call : Call}
    (roomy : RoomyCall superblock (ambient, call))
    (works : superblock.WorksOn ambient call) :
    shown.Answered ambient call := by
  have nextSpace := shown.space.call roomy
  obtain ⟨⟨grants, guaranteed⟩, -⟩ := roomy
  cases call with
  | mkdir path mode =>
      obtain ⟨wellNamed, absent, parent, isParent, isDirectory⟩ := guaranteed
      exact shown.answered_createEntry (.mkdir path mode) (.inl ⟨rfl, rfl⟩) rfl
        rfl grants wellNamed absent isParent isDirectory nextSpace
  | create path mode =>
      obtain ⟨wellNamed, absent, parent, isParent, isDirectory⟩ := guaranteed
      exact shown.answered_createEntry (.create path mode) (.inr ⟨rfl, rfl⟩) rfl
        rfl grants wellNamed absent isParent isDirectory nextSpace
  | getattr path =>
      rcases shown.looks (.getattr path) trivial works with
        answered | ⟨index, found, -⟩
      · exact answered
      · exact shown.answered_getattr works found
  | readdir path =>
      rcases shown.looksForDirectory (.readdir path) trivial trivial works with
        answered | ⟨index, found, isDirectory⟩
      · exact answered
      · exact shown.answered_readdir found isDirectory
  | read path size offset =>
      rcases shown.looksForFile (.read path size offset) trivial trivial works with
        answered | ⟨index, data, found, contains⟩
      · exact answered
      · exact shown.answered_read works found contains nextSpace
  | unlink path =>
      rcases shown.looksForFile (.unlink path) trivial trivial works with
        answered | ⟨index, data, found, contains⟩
      · exact answered
      · exact shown.answered_unlink grants guaranteed.2 found contains
  | utimens path accessed modified =>
      rcases shown.looks (.utimens path accessed modified) trivial works with
        answered | ⟨index, found, -⟩
      · exact answered
      · exact shown.answered_utimens found accessed modified nextSpace
  | rmdir path =>
      rcases shown.looksForDirectory (.rmdir path) trivial trivial works with
        answered | ⟨index, found, isDirectory⟩
      · exact answered
      · exact shown.answered_rmdir grants guaranteed.2 found isDirectory
  | write path buffer offset =>
      rcases shown.looksForFile (.write path buffer offset) trivial trivial works with
        answered | ⟨index, data, found, contains⟩
      · exact answered
      · exact shown.answered_write grants works found contains nextSpace
  | truncate path size =>
      rcases shown.looksForFile (.truncate path size) trivial trivial works with
        answered | ⟨index, data, found, contains⟩
      · exact answered
      · exact shown.answered_truncate grants works found contains nextSpace

end Shown

end Superblock

end FeaturesOS.FileSystem

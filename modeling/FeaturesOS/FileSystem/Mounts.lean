import FeaturesOS.FileSystem.Namespace
import FeaturesOS.FileSystem.Persistence

/-!
# Mounts over one disk file

A host on which sessions follow one another.  `fisopfs_init` takes the existence
of the disk file as the sign that it holds an image, but creates it empty; the
image is written by `fisopfs_destroy`.  A session that is killed leaves the file
as it is.
-/

namespace FeaturesOS.FileSystem

open CString LittleEndian

/-- The disk file, when it exists, and the superblock of the running process. -/
structure Host where
  disk : Option (List UInt8)
  mounted : Option Superblock

/-- `fisopfs_init` in a new process. -/
def fisopfsInit (ambient : Ambient) : Option (List UInt8) → Host
  | none => { disk := some [], mounted := some (.fresh ambient) }
  | some file =>
      { disk := some file
        mounted :=
          some (Superblock.empty.deserialize ambient file).superblock }

/-- `fisopfs_destroy`, which truncates the file and writes the image. -/
def fisopfsDestroy (superblock : Superblock) (pointers : Nat → UInt64) : Host :=
  { disk := some (superblock.serialize pointers), mounted := none }

inductive HostEvent where
  | init (ambient : Ambient)
  | call (ambient : Ambient) (call : Call)
  | destroy (pointers : Nat → UInt64)
  | kill

inductive HostStep : Host → HostEvent → Host → Prop where
  | init {disk : Option (List UInt8)} (ambient : Ambient) :
      HostStep ⟨disk, none⟩ (.init ambient) (fisopfsInit ambient disk)
  | call {disk : Option (List UInt8)} {superblock : Superblock}
      (ambient : Ambient) (call : Call) :
      HostStep ⟨disk, some superblock⟩ (.call ambient call)
        ⟨disk, some (superblock.call ambient call).1⟩
  | destroy {disk : Option (List UInt8)} {superblock : Superblock}
      (pointers : Nat → UInt64) :
      HostStep ⟨disk, some superblock⟩ (.destroy pointers)
        (fisopfsDestroy superblock pointers)
  | kill {disk : Option (List UInt8)} {superblock : Superblock} :
      HostStep ⟨disk, some superblock⟩ .kill ⟨disk, none⟩

/-- A host without a disk file and its histories of mounts. -/
def mounts : Machine Host HostEvent where
  Initial host := host = ⟨none, none⟩
  Step := HostStep

/-- `/` is a live directory. -/
def Superblock.RootLives (superblock : Superblock) : Prop :=
  ∃ index, superblock.searchInode [slash] = some index ∧
    (superblock.inodes index).type = .dir

/-! ## The root in its slot -/

/-- The inode of `/`, which an image keeps. -/
structure Inode.IsRoot (inode : Inode) : Prop where
  path : inode.path.text = [slash]
  type : inode.type = .dir
  backed : inode.Backed

/-- The root is the inode of the first slot. -/
structure Superblock.RootFirst (superblock : Superblock) : Prop where
  live : superblock.inodeBitmap 0 = true
  isRoot : (superblock.inodes 0).IsRoot

theorem addDentryToContent_backed (ambient : Ambient) {content : List UInt8}
    {contentSize : Int32} (dentry : List UInt8)
    (backed : 0 ≤ contentSize.toInt ∧ contentSize.toInt ≤ content.length) :
    let extended := addDentryToContent ambient content contentSize dentry
    0 ≤ extended.2.toInt ∧ extended.2.toInt ≤ extended.1.length := by
  unfold addDentryToContent
  dsimp only
  split
  · generalize Int32.ofInt _ = newSize
    cases granted : realloc ambient content newSize.toInt with
    | none => exact backed
    | some newContent =>
        unfold realloc at granted
        split at granted
        · rename_i possible
          cases granted
          simp only [length_strcpy, length_resize]
          omega
        · cases granted
  · simpa using backed

theorem foldl_keepEntry_backed (ambient : Ambient) (removed : List UInt8)
    (entries : List (List UInt8)) {rebuilt : List UInt8 × Int32}
    (backed : 0 ≤ rebuilt.2.toInt ∧ rebuilt.2.toInt ≤ rebuilt.1.length) :
    let whole := entries.foldl (keepEntry ambient removed) rebuilt
    0 ≤ whole.2.toInt ∧ whole.2.toInt ≤ whole.1.length := by
  induction entries generalizing rebuilt with
  | nil => exact backed
  | cons entry entries induction =>
      refine induction ?_
      unfold keepEntry
      split
      · exact backed
      · exact addDentryToContent_backed ambient entry backed

namespace Superblock

variable {superblock : Superblock}

namespace RootFirst

theorem setInode (root : superblock.RootFirst) {index : Nat} {inode : Inode}
    (kept : index = 0 → inode.IsRoot) :
    (superblock.setInode index inode).RootFirst := by
  refine ⟨root.live, ?_⟩
  by_cases same : index = 0
  · subst same
    rw [setInode_inodes_self]
    exact kept rfl
  · rw [setInode_inodes_of_ne _ _ (Ne.symm same)]
    exact root.isRoot

theorem withAmount (root : superblock.RootFirst) (inodeAmount : Int32) :
    ({ superblock with inodeAmount } : Superblock).RootFirst :=
  ⟨root.live, root.isRoot⟩

theorem of_file (root : superblock.RootFirst) {index : Nat}
    (isFile : (superblock.inodes index).type = .file) : index ≠ 0 := by
  rintro rfl
  rw [root.isRoot.type] at isFile
  cases isFile

theorem searchInode (root : superblock.RootFirst) :
    superblock.searchInode [slash] = some 0 := by
  unfold Superblock.searchInode
  rw [List.find?_eq_some_iff_append]
  refine ⟨?_, [], (List.range' 1 1023), ?_, by simp⟩
  · simp [liveAt, root.live, root.isRoot.path]
  · rw [List.range_eq_range']
    rfl

theorem rootLives (root : superblock.RootFirst) : superblock.RootLives :=
  ⟨0, root.searchInode, root.isRoot.type⟩

theorem createInode (root : superblock.RootFirst) (ambient : Ambient)
    (path : List UInt8) (mode : UInt32) (type : InodeType) :
    (superblock.createInode ambient path mode type).1.RootFirst := by
  unfold Superblock.createInode
  split
  · exact root
  · cases found : superblock.searchFreeInode with
    | none => exact root
    | some freeIndex =>
        have free := (searchFreeInode_eq_some found).2
        have notRoot : freeIndex ≠ 0 := by
          rintro rfl
          rw [root.live] at free
          cases free
        dsimp only
        cases calloc ambient initialContentLength with
        | none => exact root.setInode fun isRoot => absurd isRoot notRoot
        | some content =>
            refine ⟨?_, ?_⟩
            · simp [Superblock.setBitmap, notRoot.symm, root.live]
            · simpa [Superblock.setInode, Superblock.setBitmap, notRoot.symm]
                using root.isRoot

theorem addDentryToParentDir (root : superblock.RootFirst) (ambient : Ambient)
    (path : List UInt8) :
    (superblock.addDentryToParentDir ambient path).1.RootFirst := by
  unfold Superblock.addDentryToParentDir
  cases superblock.getParent path with
  | none => exact root
  | some parentIndex =>
      dsimp only
      split
      · exact root
      · refine root.setInode ?_
        rintro rfl
        exact ⟨root.isRoot.path, root.isRoot.type,
          addDentryToContent_backed ambient _ root.isRoot.backed⟩

theorem createEntry (root : superblock.RootFirst) (ambient : Ambient)
    (path : List UInt8) (mode : UInt32) (type : InodeType) :
    (superblock.createEntry ambient path mode type).1.RootFirst := by
  have created := root.createInode ambient path mode type
  have extended := created.addDentryToParentDir ambient path
  unfold Superblock.createEntry
  dsimp only
  split
  · exact created
  · split <;> exact extended

theorem removeInode (root : superblock.RootFirst) (ambient : Ambient)
    (path : List UInt8) {inodeIndex : Nat} (notRoot : inodeIndex ≠ 0) :
    (superblock.removeInode ambient path inodeIndex).RootFirst := by
  have cleared : (superblock.setBitmap inodeIndex false).RootFirst :=
    ⟨by simp [Superblock.setBitmap, notRoot.symm, root.live], root.isRoot⟩
  unfold Superblock.removeInode
  dsimp only
  split
  · exact cleared
  · split
    · exact cleared
    · rename_i parentIndex _ _
      split
      · exact cleared
      · rename_i newContent allocated
        refine (cleared.setInode ?_).withAmount _
        rintro rfl
        refine ⟨root.isRoot.path, root.isRoot.type, ?_⟩
        refine foldl_keepEntry_backed ambient _ _ ?_
        unfold calloc at allocated
        split at allocated
        · cases allocated
          refine ⟨root.isRoot.backed.1, ?_⟩
          simp only [length_zeros, setBitmap_inodes]
          omega
        · cases allocated

theorem call (root : superblock.RootFirst) (ambient : Ambient) {call : Call}
    (allowed : ∀ path, call = .rmdir path → path.bytes ≠ [slash]) :
    (superblock.call ambient call).1.RootFirst := by
  cases call with
  | getattr path => exact root
  | readdir path => exact root
  | read path size offset =>
      unfold Superblock.call fisopfsRead
      dsimp only
      split
      · exact root
      · split
        · exact root
        · rename_i isFile
          exact root.setInode fun isRoot =>
            absurd isRoot (root.of_file (not_not.mp isFile))
  | unlink path =>
      unfold Superblock.call fisopfsUnlink
      dsimp only
      split
      · exact root
      · split
        · exact root
        · rename_i isFile
          exact root.removeInode ambient _ (root.of_file (not_not.mp isFile))
  | mkdir path mode => exact root.createEntry ambient _ _ _
  | create path mode => exact root.createEntry ambient _ _ _
  | utimens path accessed modified =>
      unfold Superblock.call fisopfsUtimens
      dsimp only
      split
      · exact root
      · refine root.setInode ?_
        rintro rfl
        exact ⟨root.isRoot.path, root.isRoot.type, root.isRoot.backed⟩
  | rmdir path =>
      unfold Superblock.call fisopfsRmdir
      dsimp only
      split
      · exact root
      · rename_i inodeIndex found
        split
        · exact root
        · split
          · exact root
          · refine root.removeInode ambient _ ?_
            rintro rfl
            have named := (searchInode_eq_some found).2
            exact allowed path rfl (named.symm.trans root.isRoot.path)
  | write path buffer offset =>
      unfold Superblock.call fisopfsWrite
      dsimp only
      split
      · exact root
      · split
        · exact root
        · rename_i isFile
          split
          · exact root
          · exact root.setInode fun isRoot =>
              absurd isRoot (root.of_file (not_not.mp isFile))
  | truncate path size =>
      unfold Superblock.call fisopfsTruncate
      dsimp only
      split
      · exact root
      · split
        · exact root
        · rename_i isFile
          have notRoot := root.of_file (not_not.mp isFile)
          split
          · exact root.setInode fun isRoot => absurd isRoot notRoot
          · split <;> exact root.setInode fun isRoot => absurd isRoot notRoot

end RootFirst

/-! ## Saving and loading the root -/

/-- The loading loop does not change the slots before the one it starts at. -/
theorem deserializeFrom_below (ambient : Ambient) (fuel : Nat)
    (superblock : Superblock) {index slot : Nat} (below : slot < index)
    (file : List UInt8) :
    let loaded := (deserializeFrom ambient fuel superblock index file).superblock
    loaded.inodes slot = superblock.inodes slot ∧
      loaded.inodeBitmap slot = superblock.inodeBitmap slot := by
  have different : slot ≠ index := Nat.ne_of_lt below
  induction fuel generalizing superblock index file with
  | zero => exact ⟨rfl, rfl⟩
  | succ fuel induction =>
      rw [deserializeFrom]
      dsimp only
      split
      · exact ⟨rfl, rfl⟩
      · split
        · exact ⟨setInode_inodes_of_ne _ _ different, rfl⟩
        · rename_i buffer allocated
          obtain ⟨sameInode, sameBit⟩ := induction
            (((superblock.setInode index _).setBitmap index true))
            (Nat.lt_succ_of_lt below) _ (by omega)
          rw [sameInode, sameBit]
          constructor
          · rw [setBitmap_inodes, setInode_inodes_of_ne _ _ different]
          · simp [Superblock.setBitmap, different]

/-- A root in the first slot that the image reaches is loaded again, when the
allocator grants its buffer. -/
theorem RootFirst.load (root : superblock.RootFirst)
    (saved : 0 < superblock.inodeAmount.toInt) (pointers : Nat → UInt64)
    {ambient : Ambient}
    (granted :
      ambient.grants (superblock.inodes 0).size.toInt.toNat = true) :
    (Superblock.empty.deserialize ambient
      (superblock.serialize pointers)).superblock.RootFirst := by
  obtain ⟨fuel, amount⟩ : ∃ fuel,
      superblock.inodeAmount.toInt.toNat = fuel + 1 :=
    ⟨superblock.inodeAmount.toInt.toNat - 1, by omega⟩
  have records : superblock.recordsFrom pointers (fuel + 1) 0 =
      (pointers 0, superblock.inodes 0) ::
        superblock.recordsFrom pointers fuel 1 := by
    simp [recordsFrom, List.range'_succ, root.live]
  obtain ⟨path, type, backed⟩ := root.isRoot
  have allocated : calloc ambient (superblock.inodes 0).size.toInt =
      some (zeros (superblock.inodes 0).size.toInt.toNat) := by
    unfold calloc
    rw [if_pos ⟨backed.1, granted⟩]
  have loaded : (deserializeFrom ambient (fuel + 1)
      { Superblock.empty with inodeAmount := superblock.inodeAmount } 0
      (writeRecords (superblock.recordsFrom pointers (fuel + 1) 0))
        ).superblock.RootFirst := by
    rw [records, writeRecords, if_pos backed, Inode.record, List.append_assoc,
      deserializeFrom_encode, allocated]
    obtain ⟨sameInode, sameBit⟩ := deserializeFrom_below ambient fuel _
      (Nat.zero_lt_one) _
    refine ⟨sameBit.trans ?_, ?_⟩
    · simp [Superblock.setBitmap]
    · rw [sameInode, setBitmap_inodes, setInode_inodes_self]
      refine ⟨path, type, backed.1, ?_⟩
      simp only [length_overwrite, length_zeros]
      omega
  rw [deserialize_serialize, amount]
  dsimp only
  split
  · exact loaded.withAmount 0
  · exact loaded

theorem RootFirst.fresh {ambient : Ambient}
    (granted : ambient.grants initialContentLength = true) :
    (Superblock.fresh ambient).RootFirst := by
  refine ⟨(fresh_inodeBitmap granted 0).mpr rfl, ?_⟩
  rw [fresh_eq granted, addInode_inodes_self]
  have named := Inode.zero.path.text_strcpy
    (show (0 : UInt8) ∉ [slash] by decide) (by decide)
  have zero : (0 : Int32).toInt = 0 := rfl
  exact ⟨named, rfl, zero.ge, Int.natCast_nonneg _⟩

end Superblock

/-! ## Histories of mounts -/

/-- The inode that the first record of an image holds. -/
def firstRecord (file : List UInt8) : Inode :=
  Inode.decode ((file.drop 4).take inodeBytes)

/-- A session that has just created the disk file is not killed, the root is not
removed, an image is saved while `inode_amount` is positive, and the content of
the root is allocated. -/
def Host.KeepsRoot (host : Host) : HostEvent → Prop
  | .init ambient =>
      ambient.grants
        (match host.disk with
          | none => initialContentLength
          | some file => (firstRecord file).size.toInt.toNat) = true
  | .call _ call => ∀ path, call = .rmdir path → path.bytes ≠ [slash]
  | .destroy _ =>
      ∀ superblock, host.mounted = some superblock →
        0 < superblock.inodeAmount.toInt
  | .kill => host.disk ≠ some []

/-- The file is the image of a table with its root. -/
def IsImage (file : List UInt8) : Prop :=
  ∃ (superblock : Superblock) (pointers : Nat → UInt64),
    superblock.RootFirst ∧ 0 < superblock.inodeAmount.toInt ∧
      file = superblock.serialize pointers

structure Host.Rooted (host : Host) : Prop where
  mounted : ∀ superblock, host.mounted = some superblock →
    superblock.RootFirst
  disk : ∀ file, host.disk = some file →
    IsImage file ∨ file = [] ∧ host.mounted ≠ none

theorem IsImage.firstRecord {superblock : Superblock}
    (root : superblock.RootFirst) (saved : 0 < superblock.inodeAmount.toInt)
    (pointers : Nat → UInt64) :
    (FileSystem.firstRecord (superblock.serialize pointers)).size =
      (superblock.inodes 0).size := by
  obtain ⟨fuel, amount⟩ : ∃ fuel,
      superblock.inodeAmount.toInt.toNat = fuel + 1 :=
    ⟨superblock.inodeAmount.toInt.toNat - 1, by omega⟩
  have width : (toBytes 4 superblock.inodeAmount.toUInt32.toNat).length = 4 :=
    length_toBytes 4 _
  unfold FileSystem.firstRecord Superblock.serialize
  rw [amount, Superblock.serializeFrom, List.drop_left' width,
    if_pos root.live, if_pos root.isRoot.backed, Inode.record,
    List.append_assoc, List.take_left' (length_encode _ _),
    Inode.decode_encode]

theorem Host.Rooted.step {host next : Host} {event : HostEvent}
    (rooted : host.Rooted) (keeps : host.KeepsRoot event)
    (step : mounts.Step host event next) : next.Rooted := by
  cases step with
  | init ambient =>
      rename_i disk
      cases disk with
      | none =>
          refine ⟨?_, ?_⟩
          · rintro _ ⟨⟩
            exact .fresh keeps
          · intro file created
            exact .inr ⟨(Option.some.inj created).symm, by simp [fisopfsInit]⟩
      | some file =>
          have image : IsImage file := (rooted.disk file rfl).resolve_right
            fun created => created.2 rfl
          refine ⟨?_, ?_⟩
          · rintro _ ⟨⟩
            obtain ⟨superblock, pointers, root, saved, rfl⟩ := image
            unfold Host.KeepsRoot at keeps
            dsimp only at keeps
            rw [IsImage.firstRecord root saved] at keeps
            exact root.load saved pointers keeps
          · rintro _ ⟨⟩
            exact .inl image
  | call ambient call =>
      refine ⟨?_, ?_⟩
      · rintro _ ⟨⟩
        exact (rooted.mounted _ rfl).call ambient keeps
      · intro file present
        exact (rooted.disk file present).imp_right fun created =>
          ⟨created.1, by simp⟩
  | destroy pointers =>
      refine ⟨?_, ?_⟩
      · rintro _ ⟨⟩
      · rintro _ ⟨⟩
        exact .inl ⟨_, pointers, rooted.mounted _ rfl, keeps _ rfl, rfl⟩
  | kill =>
      refine ⟨?_, ?_⟩
      · rintro _ ⟨⟩
      · intro file present
        refine .inl ((rooted.disk file present).resolve_right ?_)
        rintro ⟨rfl, -⟩
        exact keeps present

/-- In histories whose steps keep the root, every mount has it. -/
theorem rootLives_of_keepsRoot {host : Host}
    (reachable : mounts.Reachable Host.KeepsRoot host) {superblock : Superblock}
    (mounted : host.mounted = some superblock) : superblock.RootLives := by
  have initially : ∀ host, mounts.Initial host → host.Rooted := by
    rintro _ rfl
    refine ⟨?_, ?_⟩
    · rintro _ ⟨⟩
    · rintro _ ⟨⟩
  have rooted := reachable.invariant initially
    fun _ _ _ rooted keeps step => rooted.step keeps step
  exact (rooted.mounted superblock mounted).rootLives

/-- The step of the first mount. -/
theorem firstMount : mounts.Step ⟨none, none⟩ (.init .generous)
    ⟨some [], some (.fresh .generous)⟩ :=
  HostStep.init .generous

/-- The first session saves its image, and the second one is mounted. -/
theorem rootLives_after_save :
    (Superblock.empty.deserialize .generous
      ((Superblock.fresh .generous).serialize fun _ => 0)).superblock.RootLives :=
  have initial : mounts.Reachable Host.KeepsRoot ⟨none, none⟩ := .initial rfl
  have keeps : Host.KeepsRoot ⟨none, none⟩ (.init .generous) := rfl
  have first : mounts.Reachable Host.KeepsRoot
      ⟨some [], some (.fresh .generous)⟩ :=
    initial.step keeps firstMount
  have positive : 0 < (Superblock.fresh .generous).inodeAmount.toInt := by
    decide +kernel
  have save : Host.KeepsRoot ⟨some [], some (.fresh .generous)⟩
      (.destroy fun _ => 0) := by
    rintro _ ⟨⟩
    exact positive
  have saved : mounts.Reachable Host.KeepsRoot
      (fisopfsDestroy (.fresh .generous) fun _ => 0) :=
    first.step save (HostStep.destroy _)
  have again : Host.KeepsRoot (fisopfsDestroy (.fresh .generous) fun _ => 0)
      (.init .generous) := rfl
  rootLives_of_keepsRoot (saved.step again (HostStep.init _)) rfl

/-- The first session is killed, and the empty file is taken for an image. -/
theorem not_rootLives_after_kill :
    ¬ ∀ host, mounts.Reachable Machine.Unrestricted host →
      ∀ superblock, host.mounted = some superblock →
        superblock.RootLives := by
  intro lives
  have initial : mounts.Reachable Machine.Unrestricted ⟨none, none⟩ :=
    .initial rfl
  have first := initial.step trivial firstMount
  have killed : mounts.Reachable Machine.Unrestricted ⟨some [], none⟩ :=
    first.step trivial HostStep.kill
  have second : mounts.Reachable Machine.Unrestricted
      (fisopfsInit .generous (some [])) :=
    killed.step trivial (HostStep.init .generous)
  obtain ⟨index, found, -⟩ := lives _ second _ rfl
  have live := (Superblock.searchInode_eq_some found).1
  cases live

end FeaturesOS.FileSystem

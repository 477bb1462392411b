import FeaturesOS.FileSystem.Fisopfs

/-!
# The inode table of a session

What the calls keep about the bitmap, and the table of a fresh mount.
-/

namespace FeaturesOS.FileSystem

open CString

namespace Superblock

/-- Bitmap bits are only set for slots of the table. -/
def BitsInTable (superblock : Superblock) : Prop :=
  ∀ index, superblock.inodeBitmap index = true → index < inodesAmount

theorem mem_live {superblock : Superblock} {index : Nat} :
    index ∈ superblock.live ↔
      index < inodesAmount ∧ superblock.inodeBitmap index = true := by
  simp [live]

@[simp] theorem setInode_inodeBitmap (superblock : Superblock) (index : Nat)
    (inode : Inode) :
    (superblock.setInode index inode).inodeBitmap = superblock.inodeBitmap :=
  rfl

@[simp] theorem setBitmap_inodes (superblock : Superblock) (index : Nat)
    (bit : Bool) : (superblock.setBitmap index bit).inodes = superblock.inodes :=
  rfl

@[simp] theorem setInode_inodeAmount (superblock : Superblock) (index : Nat)
    (inode : Inode) :
    (superblock.setInode index inode).inodeAmount = superblock.inodeAmount :=
  rfl

@[simp] theorem setBitmap_inodeAmount (superblock : Superblock) (index : Nat)
    (bit : Bool) :
    (superblock.setBitmap index bit).inodeAmount = superblock.inodeAmount :=
  rfl

@[simp] theorem addInode_inodes_self (superblock : Superblock) (index : Nat)
    (inode : Inode) : (superblock.addInode index inode).inodes index = inode := by
  simp [addInode, setInode]

theorem addInode_inodes_of_ne (superblock : Superblock) {index other : Nat}
    (inode : Inode) (different : other ≠ index) :
    (superblock.addInode index inode).inodes other =
      superblock.inodes other := by
  simp [addInode, setInode, different]

theorem addInode_inodeBitmap (superblock : Superblock) (index : Nat)
    (inode : Inode) (other : Nat) :
    (superblock.addInode index inode).inodeBitmap other = true ↔
      other = index ∨ superblock.inodeBitmap other = true := by
  by_cases same : other = index
  · subst other
    simp [addInode, setBitmap]
  · simp [addInode, setBitmap, same]

@[simp] theorem setInode_inodes_self (superblock : Superblock) (index : Nat)
    (inode : Inode) : (superblock.setInode index inode).inodes index = inode := by
  simp [setInode]

theorem setInode_inodes_of_ne (superblock : Superblock) {index other : Nat}
    (inode : Inode) (different : other ≠ index) :
    (superblock.setInode index inode).inodes other =
      superblock.inodes other := by
  simp [setInode, different]

/-- An inode that keeps its path is found as before. -/
theorem searchInode_setInode {superblock : Superblock} {index : Nat}
    {inode : Inode} (path : List UInt8)
    (same : inode.path = (superblock.inodes index).path) :
    (superblock.setInode index inode).searchInode path =
      superblock.searchInode path := by
  have live : (superblock.setInode index inode).liveAt path =
      superblock.liveAt path := by
    funext other
    by_cases isIndex : other = index
    · subst isIndex
      simp [liveAt, setInode, same]
    · simp [liveAt, setInode, isIndex]
  unfold searchInode
  rw [live]

theorem searchFreeInode_eq_some {superblock : Superblock} {index : Nat}
    (found : superblock.searchFreeInode = some index) :
    index < inodesAmount ∧ superblock.inodeBitmap index = false := by
  unfold Superblock.searchFreeInode at found
  have clear := List.find?_some found
  have member := List.mem_of_find?_eq_some found
  exact ⟨by simpa using member, by simpa using clear⟩

theorem BitsInTable.setBitmap {superblock : Superblock}
    (inTable : superblock.BitsInTable) (index : Nat) (bit : Bool)
    (inside : bit = true → index < inodesAmount) :
    (superblock.setBitmap index bit).BitsInTable := by
  intro other set
  by_cases same : other = index
  · subst other
    exact inside (by simpa [Superblock.setBitmap] using set)
  · exact inTable other (by simpa [Superblock.setBitmap, same] using set)

theorem BitsInTable.createInode {superblock : Superblock}
    (inTable : superblock.BitsInTable) (ambient : Ambient) (path : List UInt8)
    (mode : UInt32) (type : InodeType) :
    (superblock.createInode ambient path mode type).1.BitsInTable := by
  unfold Superblock.createInode
  split
  · exact inTable
  · cases found : superblock.searchFreeInode with
    | none => exact inTable
    | some freeIndex =>
        cases calloc ambient initialContentLength with
        | none => exact inTable
        | some content =>
            exact inTable.setBitmap freeIndex true
              (fun _ => (searchFreeInode_eq_some found).1)

theorem BitsInTable.removeInode {superblock : Superblock}
    (inTable : superblock.BitsInTable) (ambient : Ambient) (path : List UInt8)
    (inodeIndex : Nat) :
    (superblock.removeInode ambient path inodeIndex).BitsInTable := by
  have cleared : (superblock.setBitmap inodeIndex false).BitsInTable :=
    inTable.setBitmap inodeIndex false (by simp)
  unfold Superblock.removeInode
  dsimp only
  split
  · exact cleared
  · split
    · exact cleared
    · split
      · exact cleared
      · exact cleared

theorem addDentryToParentDir_inodeBitmap (superblock : Superblock)
    (ambient : Ambient) (path : List UInt8) :
    (superblock.addDentryToParentDir ambient path).1.inodeBitmap =
      superblock.inodeBitmap := by
  unfold Superblock.addDentryToParentDir
  split
  · rfl
  · dsimp only
    split <;> rfl

theorem BitsInTable.createEntry {superblock : Superblock}
    (inTable : superblock.BitsInTable) (ambient : Ambient) (path : List UInt8)
    (mode : UInt32) (type : InodeType) :
    (superblock.createEntry ambient path mode type).1.BitsInTable := by
  have created := inTable.createInode ambient path mode type
  unfold Superblock.createEntry
  dsimp only
  split
  · exact created
  · have extended := addDentryToParentDir_inodeBitmap
      (superblock.createInode ambient path mode type).1 ambient path
    split
    · intro index set
      exact created index (by rwa [extended] at set)
    · intro index set
      exact created index (by rwa [extended] at set)

theorem BitsInTable.congr {superblock next : Superblock}
    (inTable : superblock.BitsInTable)
    (same : next.inodeBitmap = superblock.inodeBitmap) : next.BitsInTable := by
  intro index set
  exact inTable index (same ▸ set)

/-- The calls that neither create nor remove an inode keep the bitmap. -/
theorem fisopfsRead_inodeBitmap (superblock : Superblock) (ambient : Ambient)
    (path : List UInt8) (size offset : Nat) :
    (superblock.fisopfsRead ambient path size offset).1.inodeBitmap =
      superblock.inodeBitmap := by
  unfold fisopfsRead
  split
  · rfl
  · dsimp only
    split <;> rfl

theorem fisopfsUtimens_inodeBitmap (superblock : Superblock)
    (path : List UInt8) (accessed modified : UInt64) :
    (superblock.fisopfsUtimens path accessed modified).1.inodeBitmap =
      superblock.inodeBitmap := by
  unfold fisopfsUtimens
  split <;> rfl

theorem fisopfsWrite_inodeBitmap (superblock : Superblock) (ambient : Ambient)
    (path buffer : List UInt8) (offset : Nat) :
    (superblock.fisopfsWrite ambient path buffer offset).1.inodeBitmap =
      superblock.inodeBitmap := by
  unfold fisopfsWrite
  split
  · rfl
  · dsimp only
    split
    · rfl
    · split <;> rfl

theorem fisopfsTruncate_inodeBitmap (superblock : Superblock)
    (ambient : Ambient) (path : List UInt8) (size : Nat) :
    (superblock.fisopfsTruncate ambient path size).1.inodeBitmap =
      superblock.inodeBitmap := by
  unfold fisopfsTruncate
  split
  · rfl
  · dsimp only
    split
    · rfl
    · split
      · rfl
      · split <;> rfl

theorem BitsInTable.call {superblock : Superblock}
    (inTable : superblock.BitsInTable) (ambient : Ambient) (call : Call) :
    (superblock.call ambient call).1.BitsInTable := by
  cases call with
  | getattr path => exact inTable
  | readdir path => exact inTable
  | read path size offset =>
      exact inTable.congr (fisopfsRead_inodeBitmap superblock ambient _ _ _)
  | unlink path =>
      unfold Superblock.call fisopfsUnlink
      dsimp only
      split
      · exact inTable
      · split
        · exact inTable
        · exact inTable.removeInode ambient _ _
  | mkdir path mode => exact inTable.createEntry ambient _ _ _
  | create path mode => exact inTable.createEntry ambient _ _ _
  | utimens path accessed modified =>
      exact inTable.congr (fisopfsUtimens_inodeBitmap superblock _ _ _)
  | rmdir path =>
      unfold Superblock.call fisopfsRmdir
      dsimp only
      split
      · exact inTable
      · split
        · exact inTable
        · split
          · exact inTable
          · exact inTable.removeInode ambient _ _
  | write path buffer offset =>
      exact inTable.congr (fisopfsWrite_inodeBitmap superblock ambient _ _ _)
  | truncate path size =>
      exact inTable.congr (fisopfsTruncate_inodeBitmap superblock ambient _ _)

theorem bitsInTable_of_reachable {ambient : Ambient} {superblock : Superblock}
    (reachable :
      (session ambient).Reachable Machine.Unrestricted superblock) :
    superblock.BitsInTable := by
  refine reachable.invariant ?_ ?_
  · rintro _ rfl
    apply BitsInTable.createInode
    intro index set
    cases set
  · rintro current ⟨surroundings, call⟩ _ inTable _ rfl
    exact inTable.call surroundings call

/-! ## Counting the live slots -/

theorem filter_update_of_le (bits : Nat → Bool) {index length : Nat}
    (outside : length ≤ index) (bit : Bool) :
    (List.range length).filter (Function.update bits index bit) =
      (List.range length).filter bits := by
  apply List.filter_congr
  intro slot member
  have inside := List.mem_range.mp member
  exact Function.update_of_ne (by omega) _ _

/-- Setting a clear bit of the table adds one to the number of set bits. -/
theorem length_filter_update (bits : Nat → Bool) {index length : Nat}
    (inside : index < length) (clear : bits index = false) :
    ((List.range length).filter (Function.update bits index true)).length =
      ((List.range length).filter bits).length + 1 := by
  induction length with
  | zero => omega
  | succ length induction =>
      rw [List.range_succ, List.filter_append, List.filter_append]
      by_cases last : index = length
      · subst index
        rw [filter_update_of_le bits (Nat.le_refl _)]
        simp [clear]
      · have different : length ≠ index := Ne.symm last
        have before := induction (by omega)
        have single : [length].filter (Function.update bits index true) =
            [length].filter bits := by
          apply List.filter_congr
          intro slot member
          rw [List.mem_singleton.mp member]
          exact Function.update_of_ne different _ _
        rw [List.length_append, List.length_append, before, single]
        omega

theorem length_live_addInode {superblock : Superblock} {index : Nat}
    (inode : Inode) (inside : index < inodesAmount)
    (clear : superblock.inodeBitmap index = false) :
    (superblock.addInode index inode).live.length =
      superblock.live.length + 1 :=
  length_filter_update superblock.inodeBitmap inside clear

theorem length_live_clearBitmap {superblock : Superblock} {index : Nat}
    (inside : index < inodesAmount)
    (set : superblock.inodeBitmap index = true) :
    (superblock.setBitmap index false).live.length + 1 =
      superblock.live.length := by
  have cleared : (superblock.setBitmap index false).inodeBitmap index = false :=
    Function.update_self _ _ _
  have restored :
      Function.update (superblock.setBitmap index false).inodeBitmap index true =
        superblock.inodeBitmap := by
    rw [setBitmap, Function.update_idem, ← set, Function.update_eq_self]
  rw [live, live, ← length_filter_update _ inside cleared, restored]

theorem length_live_le (superblock : Superblock) :
    superblock.live.length ≤ inodesAmount :=
  (List.length_filter_le _ _).trans List.length_range.le

/-! ## The fresh mount -/

theorem searchFreeInode_empty : Superblock.empty.searchFreeInode = some 0 := by
  decide +kernel

/-- The root directory of a fresh mount, when its buffer is granted. -/
theorem fresh_eq {ambient : Ambient}
    (granted : ambient.grants initialContentLength = true) :
    Superblock.fresh ambient =
      Superblock.empty.addInode 0
        (newInode ambient Inode.zero [slash] directoryMode .dir) := by
  have short : [slash].length < maxPath := by decide
  unfold Superblock.fresh
  rw [createInode_eq short searchFreeInode_empty granted]
  rfl

end Superblock

end FeaturesOS.FileSystem

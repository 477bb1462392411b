import Mathlib.Data.List.Perm.Subperm
import FeaturesOS.FileSystem.Image
import FeaturesOS.FileSystem.Table

/-!
# Saving and loading a superblock

`serialize` visits the slots below `inode_amount`, and `deserialize` fills the
slots of an empty table from the front.  The image therefore keeps a superblock
exactly when its live inodes are the slots below `inode_amount`.

Both loops are compared on the list of the records that `serialize` writes.
-/

namespace FeaturesOS.FileSystem

open CString LittleEndian

/-- What a path of the file system refers to. -/
structure InodeView where
  type : InodeType
  size : Int32
  data : List UInt8
  owner : UInt32
  group : UInt32
  permissions : UInt32
  lastAccess : UInt64
  lastModification : UInt64
  creationTime : UInt64
deriving DecidableEq

def Inode.view (inode : Inode) : InodeView :=
  { type := inode.type
    size := inode.size
    data := inode.content.take inode.size.toInt.toNat
    owner := inode.owner
    group := inode.group
    permissions := inode.permissions
    lastAccess := inode.lastAccess
    lastModification := inode.lastModification
    creationTime := inode.creationTime }

namespace Superblock

/-- The live paths with what they refer to, in table order. -/
def entries (superblock : Superblock) : List (List UInt8 × InodeView) :=
  superblock.live.map fun index =>
    ((superblock.inodes index).path.text, (superblock.inodes index).view)

def lookup (superblock : Superblock) (path : List UInt8) : Option InodeView :=
  (superblock.searchInode path).map fun index => (superblock.inodes index).view

/-- Saving and loading into an empty superblock gives back the same map from
paths, with no inode lost or added, and `inode_amount` counts them. -/
def RoundTrips (superblock : Superblock) (ambient : Ambient)
    (pointers : Nat → UInt64) : Prop :=
  let loaded :=
    (Superblock.empty.deserialize ambient
      (superblock.serialize pointers)).superblock
  loaded.entries.Perm superblock.entries ∧
    (∀ path, loaded.lookup path = superblock.lookup path) ∧
    loaded.inodeAmount.toInt = loaded.live.length

/-- The live inodes are the slots below `inode_amount`: no hole lies below a
live inode, and the counter is the number of live inodes. -/
def Compact (superblock : Superblock) : Prop :=
  0 ≤ superblock.inodeAmount.toInt ∧
    superblock.inodeAmount.toInt ≤ inodesAmount ∧
    ∀ index, superblock.inodeBitmap index = true ↔
      (index : Int) < superblock.inodeAmount.toInt

/-- Every live inode has the bytes that its size promises, and the allocator
grants as many when the image is loaded. -/
def Storable (superblock : Superblock) (ambient : Ambient) : Prop :=
  ∀ index, superblock.inodeBitmap index = true →
    (superblock.inodes index).Backed ∧
      (calloc ambient (superblock.inodes index).size.toInt).isSome = true

/-! ## The records of an image -/

/-- The slots that the writing loop visits, with the addresses of their
buffers. -/
def recordsFrom (superblock : Superblock) (pointers : Nat → UInt64)
    (fuel index : Nat) : List (UInt64 × Inode) :=
  ((List.range' index fuel).filter superblock.inodeBitmap).map fun slot =>
    (pointers slot, superblock.inodes slot)

/-- The bytes of a list of records, up to the first refused write. -/
def writeRecords : List (UInt64 × Inode) → List UInt8
  | [] => []
  | (pointer, inode) :: records =>
      if inode.Backed then
        inode.record pointer ++ writeRecords records
      else
        inode.encode pointer

theorem serializeFrom_eq (superblock : Superblock) (pointers : Nat → UInt64)
    (fuel index : Nat) :
    superblock.serializeFrom pointers fuel index =
      writeRecords (superblock.recordsFrom pointers fuel index) := by
  induction fuel generalizing index with
  | zero => rfl
  | succ fuel induction =>
      rw [serializeFrom, recordsFrom, List.range'_succ, List.filter_cons]
      by_cases live : superblock.inodeBitmap index = true
      · simp only [live, if_true, List.map_cons, writeRecords]
        by_cases backed : (superblock.inodes index).Backed
        · simp only [backed, if_true]
          rw [induction, recordsFrom]
        · simp only [backed, if_false]
      · simp only [live, Bool.false_eq_true, if_false]
        rw [induction, recordsFrom]

/-- One round of the loading loop on a file that starts with an `inode_t`. -/
theorem deserializeFrom_encode (ambient : Ambient) (fuel : Nat)
    (superblock : Superblock) (index : Nat) (inode : Inode) (pointer : UInt64)
    (rest : List UInt8) :
    deserializeFrom ambient (fuel + 1) superblock index
        (inode.encode pointer ++ rest) =
      match calloc ambient inode.size.toInt with
      | none =>
          ⟨superblock.setInode index { inode with content := [] }, index, true⟩
      | some buffer =>
          deserializeFrom ambient fuel
            ((superblock.setInode index
                { inode with
                  content :=
                    overwrite buffer 0
                      (rest.take inode.size.toInt.toNat) }).setBitmap index true)
            (index + 1) (rest.drop inode.size.toInt.toNat) := by
  have front :
      (inode.encode pointer ++ rest).take inodeBytes = inode.encode pointer :=
    List.take_left' (length_encode inode pointer)
  have back : (inode.encode pointer ++ rest).drop inodeBytes = rest :=
    List.drop_left' (length_encode inode pointer)
  have nonempty : inode.encode pointer ≠ [] := by
    intro empty
    have length := length_encode inode pointer
    rw [empty] at length
    cases length
  have whole :
      ((superblock.inodes index).encode 0).drop
        (inode.encode pointer).length = [] := by
    rw [length_encode inode pointer]
    exact List.drop_of_length_le (length_encode _ _).le
  rw [deserializeFrom]
  cases allocated : calloc ambient inode.size.toInt with
  | none =>
      simp only [front, nonempty, if_false, whole, List.append_nil,
        Inode.decode_encode, allocated]
  | some buffer =>
      simp only [front, back, nonempty, if_false, whole, List.append_nil,
        Inode.decode_encode, allocated]

theorem deserializeFrom_nil (ambient : Ambient) (fuel : Nat)
    (superblock : Superblock) (index : Nat) :
    deserializeFrom ambient fuel superblock index [] =
      ⟨superblock, index, false⟩ := by
  cases fuel with
  | zero => rfl
  | succ fuel => simp [deserializeFrom]

end Superblock

/-- What the image keeps of an inode. -/
def Inode.saved (inode : Inode) : Inode :=
  { inode with content := inode.content.take inode.size.toInt.toNat }

@[simp] theorem Inode.view_saved (inode : Inode) :
    inode.saved.view = inode.view := by
  simp [Inode.view, Inode.saved, List.take_take]

theorem Inode.Backed.length_take {inode : Inode} (backed : inode.Backed) :
    (inode.content.take inode.size.toInt.toNat).length =
      inode.size.toInt.toNat := by
  have enough := backed.2
  simp only [List.length_take]
  omega

/-- The size and the bytes of a backed inode show in its view. -/
theorem Inode.backed_of_view {inode loaded : Inode}
    (backed : loaded.Backed) (same : loaded.view = inode.view) :
    inode.Backed := by
  have size : loaded.size = inode.size := congrArg InodeView.size same
  have data := congrArg (fun view => view.data.length) same
  simp only [Inode.view, size, List.length_take] at data
  obtain ⟨nonnegative, enough⟩ := backed
  rw [size] at nonnegative enough
  exact ⟨nonnegative, by omega⟩

namespace Superblock

/-- The table after the loading loop has read `inodes` into the slots from
`index` on. -/
def install (superblock : Superblock) : Nat → List Inode → Superblock
  | _, [] => superblock
  | index, inode :: inodes =>
      ((superblock.setInode index inode.saved).setBitmap index true).install
        (index + 1) inodes

/-- Records of backed inodes are read back completely, when the loop is allowed
enough rounds and the allocator grants the buffers. -/
theorem deserializeFrom_writeRecords {ambient : Ambient}
    {records : List (UInt64 × Inode)}
    (backed : ∀ record ∈ records, record.2.Backed)
    (granted : ∀ record ∈ records,
      (calloc ambient record.2.size.toInt).isSome = true)
    {fuel : Nat} (enough : records.length ≤ fuel)
    (superblock : Superblock) (index : Nat) :
    deserializeFrom ambient fuel superblock index (writeRecords records) =
      ⟨superblock.install index (records.map Prod.snd),
        index + records.length, false⟩ := by
  induction records generalizing fuel superblock index with
  | nil => exact deserializeFrom_nil ambient fuel superblock index
  | cons record records induction =>
      obtain ⟨pointer, inode⟩ := record
      obtain ⟨fuel, rfl⟩ : ∃ smaller, fuel = smaller + 1 :=
        ⟨fuel - 1, by simp only [List.length_cons] at enough; omega⟩
      have headBacked : inode.Backed :=
        backed (pointer, inode) List.mem_cons_self
      have headGranted : (calloc ambient inode.size.toInt).isSome = true :=
        granted (pointer, inode) List.mem_cons_self
      have dataLength := headBacked.length_take
      obtain ⟨buffer, allocated⟩ := Option.isSome_iff_exists.mp headGranted
      have zeroed : buffer = zeros inode.size.toInt.toNat := by
        unfold calloc at allocated
        split at allocated
        · exact (Option.some.inj allocated).symm
        · cases allocated
      have content :
          overwrite buffer 0
              (inode.content.take inode.size.toInt.toNat) =
            inode.content.take inode.size.toInt.toNat := by
        rw [zeroed, overwrite_of_fits (by rw [length_zeros]; omega), dataLength]
        simp [zeros]
      have dataFront :
          (inode.content.take inode.size.toInt.toNat ++
              writeRecords records).take inode.size.toInt.toNat =
            inode.content.take inode.size.toInt.toNat :=
        List.take_left' dataLength
      have dataBack :
          (inode.content.take inode.size.toInt.toNat ++
              writeRecords records).drop inode.size.toInt.toNat =
            writeRecords records :=
        List.drop_left' dataLength
      have tail := induction
        (fun record member => backed record (List.mem_cons_of_mem _ member))
        (fun record member => granted record (List.mem_cons_of_mem _ member))
        (by simpa using enough)
        ((superblock.setInode index inode.saved).setBitmap index true)
        (index + 1)
      rw [writeRecords, if_pos headBacked, Inode.record, List.append_assoc,
        deserializeFrom_encode]
      simp only [allocated, dataFront, dataBack, content]
      simp only [Inode.saved] at tail
      rw [tail]
      simp only [List.map_cons, install, List.length_cons, Inode.saved,
        Nat.add_assoc, Nat.add_comm 1]

theorem install_inodeAmount (superblock : Superblock) (index : Nat)
    (inodes : List Inode) :
    (superblock.install index inodes).inodeAmount = superblock.inodeAmount := by
  induction inodes generalizing superblock index with
  | nil => rfl
  | cons inode inodes induction => rw [install, induction]; rfl

theorem install_inodeBitmap (superblock : Superblock) (index : Nat)
    (inodes : List Inode) (slot : Nat) :
    (superblock.install index inodes).inodeBitmap slot =
      (superblock.inodeBitmap slot ||
        (decide (index ≤ slot) && decide (slot < index + inodes.length))) := by
  induction inodes generalizing superblock index with
  | nil =>
      have outside : ¬ (index ≤ slot ∧ slot < index + 0) := by omega
      simp only [install, List.length_nil]
      grind
  | cons inode inodes induction =>
      rw [install, induction]
      by_cases same : slot = index
      · subst slot
        simp [setBitmap]
      · simp only [setBitmap, Function.update_of_ne same, List.length_cons]
        have shift : index + 1 ≤ slot ↔ index ≤ slot := by omega
        have bound : slot < index + 1 + inodes.length ↔
            slot < index + (inodes.length + 1) := by omega
        simp only [shift, bound]
        rfl

theorem install_inodes_of_lt (superblock : Superblock) {index slot : Nat}
    (inodes : List Inode) (before : slot < index) :
    (superblock.install index inodes).inodes slot = superblock.inodes slot := by
  induction inodes generalizing superblock index with
  | nil => rfl
  | cons inode inodes induction =>
      have different : slot ≠ index := Nat.ne_of_lt before
      rw [install, induction _ (Nat.lt_succ_of_lt before)]
      exact Function.update_of_ne different _ _

theorem install_inodes (superblock : Superblock) (index : Nat)
    (inodes : List Inode) (slot : Nat) (inside : slot < inodes.length) :
    (superblock.install index inodes).inodes (index + slot) =
      (inodes[slot]).saved := by
  induction inodes generalizing superblock index slot with
  | nil => simp at inside
  | cons inode inodes induction =>
      cases slot with
      | zero =>
          have here : index < index + 1 := Nat.lt_succ_self index
          have first := install_inodes_of_lt
            ((superblock.setInode index inode.saved).setBitmap index true)
            inodes here
          exact first.trans (Function.update_self _ _ _)
      | succ slot =>
          have rest := induction
            ((superblock.setInode index inode.saved).setBitmap index true)
            (index + 1) slot (by simpa using inside)
          rw [install, show index + (slot + 1) = index + 1 + slot by omega]
          simpa using rest

/-! ## What the loading loop establishes on any file -/

/-- The set bits are exactly those of the slots below `bound`, and their inodes
have the bytes that their sizes promise. -/
def FilledTo (superblock : Superblock) (bound : Nat) : Prop :=
  (∀ index, superblock.inodeBitmap index = true ↔ index < bound) ∧
    ∀ index < bound, (superblock.inodes index).Backed

theorem FilledTo.load {superblock : Superblock} {index : Nat}
    (filled : superblock.FilledTo index) {inode : Inode}
    (backed : inode.Backed) :
    ((superblock.setInode index inode).setBitmap index true).FilledTo
      (index + 1) := by
  constructor
  · intro slot
    by_cases same : slot = index
    · subst slot
      simp [Superblock.setBitmap]
    · simp only [Superblock.setBitmap, Function.update_of_ne same,
        setInode_inodeBitmap]
      rw [filled.1 slot]
      omega
  · intro slot inside
    by_cases same : slot = index
    · subst slot
      simpa [Superblock.setBitmap, setInode] using backed
    · simpa [Superblock.setBitmap, setInode, Function.update_of_ne same] using
        filled.2 slot (by omega)

theorem deserializeFrom_filled (ambient : Ambient) (fuel : Nat)
    {superblock : Superblock} {index : Nat}
    (filled : superblock.FilledTo index) (file : List UInt8) :
    let loaded := deserializeFrom ambient fuel superblock index file
    loaded.superblock.inodeAmount = superblock.inodeAmount ∧
      (loaded.failed = false → loaded.superblock.FilledTo loaded.rounds) := by
  induction fuel generalizing superblock index file with
  | zero => exact ⟨rfl, fun _ => filled⟩
  | succ fuel induction =>
      rw [deserializeFrom]
      dsimp only
      split
      · exact ⟨rfl, fun _ => filled⟩
      · generalize Inode.decode _ = inode
        cases allocated : calloc ambient inode.size.toInt with
        | none => exact ⟨rfl, fun ok => by cases ok⟩
        | some buffer =>
            have granted : 0 ≤ inode.size.toInt ∧
                buffer = zeros inode.size.toInt.toNat := by
              unfold calloc at allocated
              split at allocated
              · rename_i possible
                exact ⟨possible.1, (Option.some.inj allocated).symm⟩
              · cases allocated
            obtain ⟨nonnegative, rfl⟩ := granted
            have backed : Inode.Backed
                { inode with
                  content :=
                    overwrite (zeros inode.size.toInt.toNat) 0
                      ((file.drop inodeBytes).take inode.size.toInt.toNat) } := by
              refine ⟨nonnegative, ?_⟩
              simp only [length_overwrite, length_zeros]
              omega
            exact induction (filled.load backed) _

/-- On an image of records the loop loads at most one slot for each of them, and
all of them only if every buffer was granted. -/
theorem deserializeFrom_rounds (ambient : Ambient)
    (records : List (UInt64 × Inode)) (fuel : Nat) (superblock : Superblock)
    (index : Nat)
    (ok : (deserializeFrom ambient fuel superblock index
      (writeRecords records)).failed = false) :
    let rounds := (deserializeFrom ambient fuel superblock index
      (writeRecords records)).rounds
    rounds ≤ index + records.length ∧
      (rounds = index + records.length → ∀ record ∈ records,
        (calloc ambient record.2.size.toInt).isSome = true) := by
  induction records generalizing fuel superblock index with
  | nil =>
      rw [writeRecords, deserializeFrom_nil]
      exact ⟨Nat.le_refl _, fun _ record member => by cases member⟩
  | cons record records induction =>
      obtain ⟨pointer, inode⟩ := record
      cases fuel with
      | zero =>
          simp only [deserializeFrom, List.length_cons]
          exact ⟨by omega, fun impossible => by omega⟩
      | succ fuel =>
          by_cases backed : inode.Backed
          · have dataBack :
                (inode.content.take inode.size.toInt.toNat ++
                    writeRecords records).drop inode.size.toInt.toNat =
                  writeRecords records :=
              List.drop_left' backed.length_take
            rw [writeRecords, if_pos backed, Inode.record, List.append_assoc,
              deserializeFrom_encode, dataBack] at ok ⊢
            cases allocated : calloc ambient inode.size.toInt with
            | none => rw [allocated] at ok; cases ok
            | some buffer =>
                rw [allocated] at ok
                have tail := induction _ _ _ ok
                simp only [List.length_cons] at tail ⊢
                refine ⟨by omega, ?_⟩
                intro all record member
                rcases List.mem_cons.mp member with rfl | later
                · simp [allocated]
                · exact tail.2 (by omega) record later
          · have image :
                writeRecords ((pointer, inode) :: records) =
                  inode.encode pointer ++ [] := by
              simp [writeRecords, backed]
            rw [image, deserializeFrom_encode] at ok ⊢
            cases allocated : calloc ambient inode.size.toInt with
            | none => rw [allocated] at ok; cases ok
            | some buffer =>
                simp only [List.drop_nil, deserializeFrom_nil, List.length_cons]
                refine ⟨by omega, ?_⟩
                intro all record member
                have single : records = [] :=
                  List.eq_nil_of_length_eq_zero (by omega)
                subst single
                rcases List.mem_singleton.mp member with rfl
                simp [allocated]

/-- The header that `serialize` writes is the one `deserialize` reads. -/
theorem deserialize_serialize (superblock : Superblock) (ambient : Ambient)
    (pointers : Nat → UInt64) :
    Superblock.empty.deserialize ambient (superblock.serialize pointers) =
      let loaded :=
        deserializeFrom ambient superblock.inodeAmount.toInt.toNat
          { Superblock.empty with inodeAmount := superblock.inodeAmount } 0
          (writeRecords
            (superblock.recordsFrom pointers
              superblock.inodeAmount.toInt.toNat 0))
      if loaded.failed then
        { loaded with
          superblock := { loaded.superblock with inodeAmount := 0 } }
      else
        loaded := by
  rw [serialize, serializeFrom_eq]
  generalize writeRecords _ = records
  have width : (toBytes 4 superblock.inodeAmount.toUInt32.toNat).length = 4 :=
    length_toBytes 4 _
  have front :
      (toBytes 4 superblock.inodeAmount.toUInt32.toNat ++ records).take 4 =
        toBytes 4 superblock.inodeAmount.toUInt32.toNat :=
    List.take_left' width
  have back :
      (toBytes 4 superblock.inodeAmount.toUInt32.toNat ++ records).drop 4 =
        records :=
    List.drop_left' width
  have amount :
      (UInt32.ofNat (ofBytes
        (toBytes 4 superblock.inodeAmount.toUInt32.toNat))).toInt32 =
        superblock.inodeAmount := by
    have small : superblock.inodeAmount.toUInt32.toNat % 256 ^ 4 =
        superblock.inodeAmount.toUInt32.toNat :=
      Nat.mod_eq_of_lt superblock.inodeAmount.toUInt32.toNat_lt
    rw [ofBytes_toBytes, small, UInt32.ofNat_toNat]
    rfl
  have whole : (toBytes 4 0).drop 4 = [] := rfl
  unfold deserialize
  simp only [front, back, width, whole, List.append_nil, amount]

/-! ## When the round trip succeeds -/

theorem length_recordsFrom_le (superblock : Superblock)
    (pointers : Nat → UInt64) (fuel : Nat) :
    (superblock.recordsFrom pointers fuel 0).length ≤ fuel := by
  rw [recordsFrom, List.length_map]
  exact (List.length_filter_le _ _).trans List.length_range'.le

theorem filter_lt_range (bound length : Nat) :
    (List.range length).filter (fun index => decide (index < bound)) =
      List.range (min bound length) := by
  induction length with
  | zero => simp
  | succ length induction =>
      rw [List.range_succ, List.filter_append, induction]
      by_cases inside : length < bound
      · have keeps : min bound length = length := by omega
        have grows : min bound (length + 1) = length + 1 := by omega
        rw [keeps, grows, List.range_succ]
        simp [inside]
      · have stops : min bound (length + 1) = min bound length := by omega
        rw [stops]
        simp [inside]

/-- The live slots of a table that is filled from the front. -/
theorem live_of_front {superblock : Superblock} {bound : Nat}
    (front : ∀ index, superblock.inodeBitmap index = true ↔ index < bound) :
    superblock.live = List.range (min bound inodesAmount) := by
  have bits : superblock.inodeBitmap = fun index => decide (index < bound) := by
    funext index
    rw [Bool.eq_iff_iff, front index, decide_eq_true_iff]
  rw [live, bits, filter_lt_range]

theorem Compact.live_eq {superblock : Superblock}
    (compact : superblock.Compact) :
    superblock.live = List.range superblock.inodeAmount.toInt.toNat := by
  obtain ⟨nonnegative, inTable, front⟩ := compact
  have front' : ∀ index, superblock.inodeBitmap index = true ↔
      index < superblock.inodeAmount.toInt.toNat := by
    intro index
    rw [front index]
    omega
  rw [live_of_front front', Nat.min_eq_left (by omega)]

theorem Compact.recordsFrom_eq {superblock : Superblock}
    (compact : superblock.Compact) (pointers : Nat → UInt64) :
    superblock.recordsFrom pointers superblock.inodeAmount.toInt.toNat 0 =
      (List.range superblock.inodeAmount.toInt.toNat).map fun slot =>
        (pointers slot, superblock.inodes slot) := by
  rw [recordsFrom, ← List.range_eq_range', List.filter_eq_self.mpr]
  intro index member
  have inside := List.mem_range.mp member
  have nonnegative := compact.1
  exact (compact.2.2 index).mpr (by omega)

/-- A compact table whose inodes can be stored is loaded as it was saved. -/
theorem Compact.roundTrips {superblock : Superblock}
    (compact : superblock.Compact) {ambient : Ambient}
    (storable : superblock.Storable ambient) (pointers : Nat → UInt64) :
    superblock.RoundTrips ambient pointers := by
  have nonnegative := compact.1
  have front := compact.2.2
  have saved : ∀ record ∈ superblock.recordsFrom pointers
      superblock.inodeAmount.toInt.toNat 0,
      record.2.Backed ∧ (calloc ambient record.2.size.toInt).isSome = true := by
    intro record member
    rw [compact.recordsFrom_eq pointers] at member
    obtain ⟨slot, inside, rfl⟩ := List.mem_map.mp member
    have live := (front slot).mpr (by have := List.mem_range.mp inside; omega)
    exact storable slot live
  have loaded := deserializeFrom_writeRecords
    (fun record member => (saved record member).1)
    (fun record member => (saved record member).2)
    (length_recordsFrom_le superblock pointers _)
    { Superblock.empty with inodeAmount := superblock.inodeAmount } 0
  have inodes :
      (superblock.recordsFrom pointers
          superblock.inodeAmount.toInt.toNat 0).map Prod.snd =
        (List.range superblock.inodeAmount.toInt.toNat).map
          superblock.inodes := by
    rw [compact.recordsFrom_eq pointers, List.map_map]
    rfl
  unfold RoundTrips
  rw [deserialize_serialize]
  simp only [loaded, inodes, Bool.false_eq_true, if_false]
  generalize result : install _ 0 _ = next
  have bitmap : next.inodeBitmap = superblock.inodeBitmap := by
    funext slot
    rw [← result, install_inodeBitmap, Bool.eq_iff_iff, front slot]
    simp only [Superblock.empty, List.length_map, List.length_range,
      Bool.false_or, Bool.and_eq_true, decide_eq_true_eq]
    omega
  have slots : ∀ slot, superblock.inodeBitmap slot = true →
      next.inodes slot = (superblock.inodes slot).saved := by
    intro slot live
    have inside := (front slot).mp live
    have read := install_inodes
      { Superblock.empty with inodeAmount := superblock.inodeAmount } 0
      ((List.range superblock.inodeAmount.toInt.toNat).map superblock.inodes)
      slot (by rw [List.length_map, List.length_range]; omega)
    rw [result] at read
    simpa using read
  have amount : next.inodeAmount = superblock.inodeAmount := by
    rw [← result, install_inodeAmount]
  have live : next.live = superblock.live := by rw [Superblock.live, bitmap]; rfl
  have liveAt : next.liveAt = superblock.liveAt := by
    funext path slot
    simp only [Superblock.liveAt, bitmap]
    by_cases bit : superblock.inodeBitmap slot = true
    · rw [slots slot bit]
      rfl
    · simp [bit]
  refine ⟨?_, ?_, ?_⟩
  · apply List.Perm.of_eq
    rw [entries, entries, live]
    apply List.map_congr_left
    intro slot member
    rw [slots slot (mem_live.mp member).2, Inode.view_saved]
    rfl
  · intro path
    unfold lookup searchInode
    rw [liveAt]
    cases found : (List.range inodesAmount).find? (superblock.liveAt path) with
    | none => rfl
    | some slot =>
        have isLive := List.find?_some found
        simp only [Superblock.liveAt, Bool.and_eq_true] at isLive
        simp only [Option.map_some]
        rw [slots slot isLive.1, Inode.view_saved]
  · rw [amount, live, compact.live_eq, List.length_range]
    omega

theorem bits_of_recordsFrom {superblock : Superblock}
    {pointers : Nat → UInt64} {fuel : Nat}
    (full : (superblock.recordsFrom pointers fuel 0).length = fuel)
    {index : Nat} (inside : index < fuel) :
    superblock.inodeBitmap index = true := by
  rw [recordsFrom, List.length_map, ← List.range_eq_range'] at full
  have all : ∀ slot ∈ List.range fuel, superblock.inodeBitmap slot = true :=
    List.length_filter_eq_length_iff.mp (by rw [full, List.length_range])
  exact all index (List.mem_range.mpr inside)

theorem recordsFrom_of_live_nil {superblock : Superblock}
    (inTable : superblock.BitsInTable) (empty : superblock.live = [])
    (pointers : Nat → UInt64) (fuel : Nat) :
    superblock.recordsFrom pointers fuel 0 = [] := by
  have dead : ∀ slot, ¬ superblock.inodeBitmap slot = true := by
    intro slot bit
    have member := mem_live.mpr ⟨inTable slot bit, bit⟩
    rw [empty] at member
    cases member
  rw [recordsFrom, List.filter_eq_nil_iff.mpr (fun slot _ => dead slot)]
  rfl

theorem length_entries (superblock : Superblock) :
    superblock.entries.length = superblock.live.length :=
  List.length_map _

/-- When the loading loop visits as many slots as there are live inodes, and
these are as many as `inode_amount` says, the live inodes lie in front. -/
theorem compact_of_length {superblock : Superblock} {pointers : Nat → UInt64}
    (inTable : superblock.BitsInTable)
    (nonnegative : 0 ≤ superblock.inodeAmount.toInt)
    (counted : superblock.live.length = superblock.inodeAmount.toInt.toNat)
    (full : (superblock.recordsFrom pointers
        superblock.inodeAmount.toInt.toNat 0).length =
      superblock.inodeAmount.toInt.toNat) :
    superblock.Compact := by
  have front : ∀ index < superblock.inodeAmount.toInt.toNat,
      superblock.inodeBitmap index = true :=
    fun index inside => bits_of_recordsFrom full inside
  have subset :
      List.range superblock.inodeAmount.toInt.toNat ⊆ superblock.live := by
    intro index member
    have bit := front index (List.mem_range.mp member)
    exact mem_live.mpr ⟨inTable index bit, bit⟩
  have same := (List.subperm_of_subset List.nodup_range subset).perm_of_length_le
    (by rw [List.length_range, counted])
  have small : superblock.inodeAmount.toInt.toNat ≤ inodesAmount := by
    rw [← counted]
    exact (List.length_filter_le _ _).trans List.length_range.le
  refine ⟨nonnegative, by omega, ?_⟩
  intro index
  constructor
  · intro bit
    have member := same.mem_iff.mpr (mem_live.mpr ⟨inTable index bit, bit⟩)
    have inside := List.mem_range.mp member
    omega
  · intro inside
    exact front index (by omega)

/-- A round trip leaves no room for a hole: the loop reads at most as many
records as there are set bits below `inode_amount`. -/
theorem RoundTrips.compact_storable {superblock : Superblock}
    {ambient : Ambient} {pointers : Nat → UInt64}
    (roundTrips : superblock.RoundTrips ambient pointers)
    (inTable : superblock.BitsInTable) :
    superblock.Compact ∧ superblock.Storable ambient := by
  obtain ⟨samePaths, -, counted⟩ := roundTrips
  rw [deserialize_serialize] at samePaths counted
  have emptyFilled :
      ({ Superblock.empty with inodeAmount := superblock.inodeAmount } :
        Superblock).FilledTo 0 :=
    ⟨fun index => by simp [Superblock.empty], fun index inside => by omega⟩
  have filled := deserializeFrom_filled
    ambient superblock.inodeAmount.toInt.toNat emptyFilled
    (writeRecords
      (superblock.recordsFrom pointers superblock.inodeAmount.toInt.toNat 0))
  have rounds := deserializeFrom_rounds ambient
    (superblock.recordsFrom pointers superblock.inodeAmount.toInt.toNat 0)
    superblock.inodeAmount.toInt.toNat
    { Superblock.empty with inodeAmount := superblock.inodeAmount } 0
  have few := length_recordsFrom_le superblock pointers
    superblock.inodeAmount.toInt.toNat
  generalize result : deserializeFrom ambient _ _ _ _ = loaded at *
  dsimp only at samePaths counted filled rounds
  by_cases failed : loaded.failed = true
  · -- The error path resets the counter, so nothing may have been live.
    simp only [failed, if_true] at samePaths counted
    have lengths := samePaths.length_eq
    rw [length_entries, length_entries] at lengths
    have zero : (0 : Int32).toInt = 0 := rfl
    rw [zero] at counted
    have empty : superblock.live = [] :=
      List.eq_nil_of_length_eq_zero (by omega)
    rw [recordsFrom_of_live_nil inTable empty pointers _, writeRecords,
      deserializeFrom_nil] at result
    rw [← result] at failed
    cases failed
  · have ended : loaded.failed = false := by simpa using failed
    simp only [ended, Bool.false_eq_true, if_false] at samePaths counted
    have filledAll := filled.2 ended
    have amount := filled.1
    have read := rounds ended
    have lengths := samePaths.length_eq
    rw [length_entries, length_entries] at lengths
    have loadedLive := live_of_front filledAll.1
    have loadedCount := congrArg List.length loadedLive
    rw [List.length_range] at loadedCount
    rw [amount] at counted
    have full : (superblock.recordsFrom pointers
        superblock.inodeAmount.toInt.toNat 0).length =
          superblock.inodeAmount.toInt.toNat := by omega
    have compact := compact_of_length inTable (by omega) (by omega) full
    refine ⟨compact, ?_⟩
    intro index bit
    have inside := (compact.2.2 index).mp bit
    have recorded : (pointers index, superblock.inodes index) ∈
        superblock.recordsFrom pointers
          superblock.inodeAmount.toInt.toNat 0 := by
      rw [compact.recordsFrom_eq pointers]
      exact List.mem_map.mpr ⟨index, List.mem_range.mpr (by omega), rfl⟩
    have granted := read.2 (by omega)
      (pointers index, superblock.inodes index) recorded
    refine ⟨?_, granted⟩
    have entry : ((superblock.inodes index).path.text,
        (superblock.inodes index).view) ∈ superblock.entries :=
      List.mem_map.mpr
        ⟨index, mem_live.mpr ⟨inTable index bit, bit⟩, rfl⟩
    obtain ⟨slot, slotLive, sameEntry⟩ :=
      List.mem_map.mp (samePaths.mem_iff.mpr entry)
    have loadedBacked := filledAll.2 slot
      ((filledAll.1 slot).mp (mem_live.mp slotLive).2)
    exact Inode.backed_of_view loadedBacked (congrArg Prod.snd sameEntry)

end Superblock

namespace Superblock

theorem fresh_inodeBitmap {ambient : Ambient}
    (granted : ambient.grants initialContentLength = true) (index : Nat) :
    (Superblock.fresh ambient).inodeBitmap index = true ↔ index = 0 := by
  rw [fresh_eq granted, addInode_inodeBitmap]
  simp [Superblock.empty]

/-- Whether a superblock can be saved is seen in its table. -/
theorem storable_of_all {superblock : Superblock} {ambient : Ambient}
    (inTable : superblock.BitsInTable)
    (counts : 0 ≤ superblock.inodeAmount.toInt ∧
      superblock.inodeAmount.toInt ≤ inodesAmount)
    (all : ∀ index < inodesAmount,
      (superblock.inodeBitmap index = true ↔
        (index : Int) < superblock.inodeAmount.toInt) ∧
      (superblock.inodeBitmap index = true →
        (superblock.inodes index).Backed ∧
          (calloc ambient (superblock.inodes index).size.toInt).isSome = true)) :
    superblock.Compact ∧ superblock.Storable ambient := by
  refine ⟨⟨counts.1, counts.2, fun index => ?_⟩, fun index bit =>
    (all index (inTable index bit)).2 bit⟩
  constructor
  · intro bit
    exact (all index (inTable index bit)).1.mp bit
  · intro below
    exact (all index (by omega)).1.mpr below

end Superblock

/-- Saving and loading a reachable superblock gives it back exactly when its
table has no hole and its inodes can be stored. -/
theorem roundTrips_iff {mounted loading : Ambient} {superblock : Superblock}
    (reachable : (session mounted).Reachable Machine.Unrestricted superblock)
    (pointers : Nat → UInt64) :
    superblock.RoundTrips loading pointers ↔
      superblock.Compact ∧ superblock.Storable loading := by
  constructor
  · intro roundTrips
    exact roundTrips.compact_storable
      (Superblock.bitsInTable_of_reachable reachable)
  · rintro ⟨compact, storable⟩
    exact compact.roundTrips storable pointers

/-- `/b` stands where `/a` has been removed, in front of `/d/c`. -/
def reusedCalls : List Call :=
  [.create ⟨[slash, 97], by decide, by decide⟩ 420,
    .mkdir ⟨[slash, 100], by decide, by decide⟩ 493,
    .unlink ⟨[slash, 97], by decide, by decide⟩,
    .create ⟨[slash, 98], by decide, by decide⟩ 420,
    .write ⟨[slash, 98], by decide, by decide⟩ [104, 105] 0,
    .create ⟨[slash, 100, slash, 99], by decide, by decide⟩ 384,
    .write ⟨[slash, 100, slash, 99], by decide, by decide⟩ [0, 255, 0] 1]

/-- Files with contents survive, and the directory that has one of them. -/
theorem roundTrips_reused :
    (Superblock.calls .generous reusedCalls).RoundTrips .generous
      (fun _ => 0) := by
  have reachable : (session .generous).Reachable Machine.Unrestricted
      (Superblock.calls .generous reusedCalls) :=
    Superblock.reachable_calls (fun _ _ => True) (fun _ _ _ => trivial)
      (by simp only [reusedCalls, Machine.Along, and_self])
  exact (roundTrips_iff reachable _).mpr
    (Superblock.storable_of_all (Superblock.bitsInTable_of_reachable reachable)
      (by decide +kernel) (by decide +kernel))

/-- With `/a` removed in front of `/b` the image misses `/b`. -/
theorem not_roundTrips_after_unlink :
    (session .generous).Reachable Machine.Unrestricted
        (Superblock.calls .generous
          [.create ⟨[slash, 97], by decide, by decide⟩ 420,
            .create ⟨[slash, 98], by decide, by decide⟩ 420,
            .unlink ⟨[slash, 97], by decide, by decide⟩]) ∧
      ¬ (Superblock.calls .generous
          [.create ⟨[slash, 97], by decide, by decide⟩ 420,
            .create ⟨[slash, 98], by decide, by decide⟩ 420,
            .unlink ⟨[slash, 97], by decide, by decide⟩]).RoundTrips
        .generous (fun _ => 0) := by
  have reachable : (session .generous).Reachable Machine.Unrestricted
      (Superblock.calls .generous
        [.create ⟨[slash, 97], by decide, by decide⟩ 420,
          .create ⟨[slash, 98], by decide, by decide⟩ 420,
          .unlink ⟨[slash, 97], by decide, by decide⟩]) :=
    Superblock.reachable_calls (fun _ _ => True) (fun _ _ _ => trivial)
      ⟨trivial, trivial, trivial, trivial⟩
  refine ⟨reachable, ?_⟩
  generalize state : Superblock.calls .generous _ = superblock at reachable ⊢
  have last : superblock.inodeBitmap 2 = true ∧
      superblock.inodeAmount.toInt = 2 := by
    subst state
    decide +kernel
  intro roundTrips
  have compact := (roundTrips.compact_storable
    (Superblock.bitsInTable_of_reachable reachable)).1
  have inside := (compact.2.2 2).mp last.1
  omega

end FeaturesOS.FileSystem

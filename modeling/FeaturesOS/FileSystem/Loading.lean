import FeaturesOS.FileSystem.Persistence

/-!
# Loading any file

What `deserialize` makes of a file that need not be an image.  The counter of the
file is believed: the loop runs until it is reached, the file ends or an
allocation fails, and only the first of these leaves a sound superblock, unless
the very first allocation fails.
-/

namespace FeaturesOS.FileSystem

open CString LittleEndian

/-- The `inode_t` that is read from the front of a file into a zeroed slot. -/
def firstInode (file : List UInt8) : Inode :=
  Inode.decode (file.take inodeBytes ++
    (Inode.zero.encode 0).drop (file.take inodeBytes).length)

/-- What follows the first inode and its content. -/
def behindFirst (file : List UInt8) : List UInt8 :=
  (file.drop inodeBytes).drop (firstInode file).size.toInt.toNat

/-- The file has an inode in front, and its content can be allocated. -/
def FirstLoads (ambient : Ambient) (file : List UInt8) : Prop :=
  file ≠ [] ∧ (calloc ambient (firstInode file).size.toInt).isSome = true

instance (ambient : Ambient) (file : List UInt8) :
    Decidable (FirstLoads ambient file) :=
  inferInstanceAs (Decidable (_ ∧ _))

/-- The file has an inode in front whose content cannot be allocated. -/
def FirstFails (ambient : Ambient) (file : List UInt8) : Prop :=
  file ≠ [] ∧ calloc ambient (firstInode file).size.toInt = none

/-- The file holds at least `count` inodes, and their contents can be
allocated. -/
def HoldsInodes (ambient : Ambient) : Nat → List UInt8 → Prop
  | 0, _ => True
  | count + 1, file =>
      FirstLoads ambient file ∧ HoldsInodes ambient count (behindFirst file)

/-- The counter in front of a file; a short file leaves its other bytes zero. -/
def amountOf (file : List UInt8) : Int32 :=
  (UInt32.ofNat (ofBytes (file.take 4 ++
    (toBytes 4 0).drop (file.take 4).length))).toInt32

namespace Loaded

/-- The slot `index` has been written by a `read`. -/
def Accessed (loaded : Loaded) (index : Nat) : Prop :=
  index < loaded.rounds ∨ loaded.failed = true ∧ index = loaded.rounds

/-- The buffer of the slot `index` has been freed again. -/
def Freed (loaded : Loaded) (index : Nat) : Prop :=
  loaded.failed = true ∧ index < loaded.rounds

/-- No slot outside of the table has been touched, the live inodes have buffers
of their sizes, and the counter counts them. -/
structure Sound (loaded : Loaded) : Prop where
  inside : ∀ index, loaded.Accessed index → index < inodesAmount
  buffers : ∀ index, loaded.superblock.inodeBitmap index = true →
    ¬ loaded.Freed index ∧
      ((loaded.superblock.inodes index).content.length : Int) =
        (loaded.superblock.inodes index).size.toInt
  counted : loaded.superblock.inodeAmount.toInt =
    loaded.superblock.live.length

end Loaded

variable {ambient : Ambient} {superblock : Superblock} {file : List UInt8}
variable {fuel index : Nat}

/-! ## The loop -/

/-- What the loop does to the slots from `index` on. -/
structure FillsFrom (superblock : Superblock) (index : Nat)
    (loaded : Loaded) : Prop where
  ordered : index ≤ loaded.rounds
  amount : loaded.superblock.inodeAmount = superblock.inodeAmount
  bits : ∀ i, loaded.superblock.inodeBitmap i = true ↔
    superblock.inodeBitmap i = true ∨ index ≤ i ∧ i < loaded.rounds
  before : ∀ i, i < index →
    loaded.superblock.inodes i = superblock.inodes i
  buffers : ∀ i, index ≤ i → i < loaded.rounds →
    ((loaded.superblock.inodes i).content.length : Int) =
      (loaded.superblock.inodes i).size.toInt

theorem length_of_calloc {length : Int} {block : List UInt8}
    (allocated : calloc ambient length = some block) :
    (block.length : Int) = length := by
  unfold calloc at allocated
  split at allocated
  · rename_i possible
    cases allocated
    rw [length_zeros]
    exact Int.toNat_of_nonneg possible.1
  · cases allocated

/-- A loop that ends in the round of the slot `index`. -/
theorem FillsFrom.stop {loaded : Loaded} (rounds : loaded.rounds = index)
    (amount : loaded.superblock.inodeAmount = superblock.inodeAmount)
    (bitmap : loaded.superblock.inodeBitmap = superblock.inodeBitmap)
    (before : ∀ i, i < index →
      loaded.superblock.inodes i = superblock.inodes i) :
    FillsFrom superblock index loaded where
  ordered := by omega
  amount := amount
  bits := by
    intro i
    rw [bitmap, rounds]
    constructor
    · exact Or.inl
    · rintro (bit | ⟨behind, inside⟩)
      · exact bit
      · omega
  before := before
  buffers := by
    intro i behind inside
    omega

/-- A round that fills the slot `index`. -/
theorem FillsFrom.round {loaded : Loaded} {inode : Inode}
    (length : (inode.content.length : Int) = inode.size.toInt)
    (rest : FillsFrom
      ((superblock.setInode index inode).setBitmap index true) (index + 1)
      loaded) : FillsFrom superblock index loaded where
  ordered := Nat.le_of_succ_le rest.ordered
  amount := rest.amount
  bits := by
    intro i
    have ordered := rest.ordered
    rw [rest.bits]
    by_cases here : i = index
    · subst here
      simp only [Superblock.setBitmap, Function.update_self, true_or, true_iff]
      exact .inr ⟨Nat.le_refl i, ordered⟩
    · simp only [Superblock.setBitmap, Function.update_of_ne here,
        Superblock.setInode]
      constructor
      · rintro (bit | ⟨behind, inside⟩)
        · exact .inl bit
        · exact .inr ⟨by omega, inside⟩
      · rintro (bit | ⟨behind, inside⟩)
        · exact .inl bit
        · exact .inr ⟨by omega, inside⟩
  before := by
    intro i earlier
    rw [rest.before i (by omega)]
    exact Superblock.setInode_inodes_of_ne _ _ (by omega)
  buffers := by
    intro i behind inside
    by_cases here : i = index
    · subst here
      rw [rest.before i (Nat.lt_succ_self i)]
      change (((superblock.setInode i inode).inodes i).content.length : Int) =
        ((superblock.setInode i inode).inodes i).size.toInt
      rw [Superblock.setInode_inodes_self]
      exact length
    · exact rest.buffers i (by omega) inside

theorem deserializeFrom_fills (ambient : Ambient) (fuel : Nat)
    (superblock : Superblock) (index : Nat) (file : List UInt8) :
    FillsFrom superblock index
      (Superblock.deserializeFrom ambient fuel superblock index file) := by
  induction fuel generalizing superblock index file with
  | zero => exact .stop rfl rfl rfl fun _ _ => rfl
  | succ fuel induction =>
      rw [Superblock.deserializeFrom]
      dsimp only
      split
      · exact .stop rfl rfl rfl fun _ _ => rfl
      · split
        · refine .stop rfl rfl rfl ?_
          intro i earlier
          exact Superblock.setInode_inodes_of_ne _ _ (by omega)
        · rename_i buffer allocated
          refine .round ?_ (induction _ _ _)
          rw [length_overwrite]
          exact length_of_calloc allocated

/-- The slots from `index` on are those of an empty superblock. -/
def ZeroFrom (superblock : Superblock) (index : Nat) : Prop :=
  ∀ i, index ≤ i → superblock.inodes i = Inode.zero

theorem ZeroFrom.setInode (zero : ZeroFrom superblock index) (inode : Inode)
    (bit : Bool) :
    ZeroFrom ((superblock.setInode index inode).setBitmap index bit)
      (index + 1) := by
  intro i behind
  have different : i ≠ index := by omega
  change (superblock.setInode index inode).inodes i = _
  rw [Superblock.setInode_inodes_of_ne _ _ different]
  exact zero i (Nat.le_of_succ_le behind)

/-- One round on zeroed slots. -/
theorem deserializeFrom_succ (ambient : Ambient) (fuel : Nat)
    (zero : ZeroFrom superblock index) (file : List UInt8) :
    Superblock.deserializeFrom ambient (fuel + 1) superblock index file =
      if file = [] then
        ⟨superblock, index, false⟩
      else
        match calloc ambient (firstInode file).size.toInt with
        | none => ⟨superblock.setInode index (firstInode file), index, true⟩
        | some buffer =>
            Superblock.deserializeFrom ambient fuel
              ((superblock.setInode index
                { firstInode file with
                  content := overwrite buffer 0
                    ((file.drop inodeBytes).take
                      (firstInode file).size.toInt.toNat) }).setBitmap index
                true)
              (index + 1) (behindFirst file) := by
  have empty : file.take inodeBytes = [] ↔ file = [] := by
    rw [List.take_eq_nil_iff]
    constructor
    · rintro (none | isEmpty)
      · cases none
      · exact isEmpty
    · exact Or.inr
  rw [Superblock.deserializeFrom]
  dsimp only
  rw [zero index (Nat.le_refl index)]
  by_cases isEmpty : file = []
  · rw [if_pos (empty.mpr isEmpty), if_pos isEmpty]
  · rw [if_neg (mt empty.mp isEmpty), if_neg isEmpty]
    rfl

/-- The loop reaches the counter exactly when the file holds that many
inodes. -/
theorem rounds_iff (ambient : Ambient) (fuel : Nat)
    (zero : ZeroFrom superblock index) (file : List UInt8) :
    let loaded :=
      Superblock.deserializeFrom ambient fuel superblock index file
    loaded.rounds ≤ index + fuel ∧
      (loaded.failed = true → loaded.rounds < index + fuel) ∧
      (loaded.rounds = index + fuel ↔ HoldsInodes ambient fuel file) := by
  induction fuel generalizing superblock index file with
  | zero =>
      refine ⟨Nat.le_refl _, ?_, ?_⟩
      · intro failed
        cases failed
      · exact ⟨fun _ => trivial, fun _ => rfl⟩
  | succ fuel induction =>
      dsimp only
      rw [deserializeFrom_succ ambient fuel zero, HoldsInodes]
      unfold FirstLoads
      split
      · rename_i isEmpty
        refine ⟨Nat.le_add_right _ _, ?_, ?_⟩
        · intro failed
          cases failed
        · constructor
          · intro same
            dsimp only at same
            omega
          · rintro ⟨⟨notEmpty, -⟩, -⟩
            exact absurd isEmpty notEmpty
      · rename_i notEmpty
        cases allocated : calloc ambient (firstInode file).size.toInt with
        | none =>
            refine ⟨Nat.le_add_right _ _, ?_, ?_⟩
            · intro failed
              dsimp only
              omega
            · constructor
              · intro same
                dsimp only at same
                omega
              · rintro ⟨⟨-, allocates⟩, -⟩
                cases allocates
        | some buffer =>
            dsimp only
            generalize ({ firstInode file with
              content := overwrite buffer 0
                ((file.drop inodeBytes).take
                  (firstInode file).size.toInt.toNat) } : Inode) = inode
            obtain ⟨below, short, exactly⟩ :=
              induction (zero.setInode inode true) (behindFirst file)
            refine ⟨by omega, ?_, ?_⟩
            · intro failed
              have shorter := short failed
              omega
            · rw [← exactly]
              constructor
              · intro same
                exact ⟨⟨notEmpty, rfl⟩, by omega⟩
              · rintro ⟨-, same⟩
                omega

/-- The loop fails in its first round. -/
theorem failed_first_iff (ambient : Ambient) (fuel : Nat)
    (zero : ZeroFrom superblock index) (file : List UInt8) :
    let loaded :=
      Superblock.deserializeFrom ambient fuel superblock index file
    loaded.failed = true ∧ loaded.rounds = index ↔
      fuel ≠ 0 ∧ FirstFails ambient file := by
  unfold FirstFails
  cases fuel with
  | zero =>
      constructor
      · rintro ⟨failed, -⟩
        cases failed
      · rintro ⟨nonzero, -⟩
        exact absurd rfl nonzero
  | succ fuel =>
      dsimp only
      rw [deserializeFrom_succ ambient fuel zero]
      split
      · rename_i isEmpty
        constructor
        · rintro ⟨failed, -⟩
          cases failed
        · rintro ⟨-, notEmpty, -⟩
          exact absurd isEmpty notEmpty
      · rename_i notEmpty
        cases allocated : calloc ambient (firstInode file).size.toInt with
        | none =>
            exact ⟨fun _ => ⟨Nat.succ_ne_zero fuel, notEmpty, rfl⟩,
              fun _ => ⟨rfl, rfl⟩⟩
        | some buffer =>
            dsimp only
            constructor
            · rintro ⟨-, same⟩
              generalize ({ firstInode file with
                content := overwrite buffer 0
                  ((file.drop inodeBytes).take
                    (firstInode file).size.toInt.toNat) } : Inode) = inode
                at same
              have ordered := (deserializeFrom_fills ambient fuel
                ((superblock.setInode index inode).setBitmap index true)
                (index + 1) (behindFirst file)).ordered
              omega
            · rintro ⟨-, -, none⟩
              cases none

/-! ## Loading into an empty superblock -/

/-- The file is one that is loaded soundly: its counter counts inodes that it
holds and that the table has room for, or its first inode cannot be loaded. -/
def LoadsSoundly (ambient : Ambient) (file : List UInt8) : Prop :=
  (0 ≤ (amountOf file).toInt ∧ (amountOf file).toInt ≤ inodesAmount ∧
      HoldsInodes ambient (amountOf file).toInt.toNat (file.drop 4)) ∨
    (0 < (amountOf file).toInt ∧ FirstFails ambient (file.drop 4))

theorem zeroFrom_empty (amount : Int32) :
    ZeroFrom { Superblock.empty with inodeAmount := amount } 0 :=
  fun _ _ => rfl

/-- The loop of `deserialize` on an empty superblock. -/
def loadLoop (ambient : Ambient) (file : List UInt8) : Loaded :=
  Superblock.deserializeFrom ambient (amountOf file).toInt.toNat
    { Superblock.empty with inodeAmount := amountOf file } 0 (file.drop 4)

theorem deserialize_empty (ambient : Ambient) (file : List UInt8) :
    Superblock.empty.deserialize ambient file =
      if (loadLoop ambient file).failed then
        { loadLoop ambient file with
          superblock :=
            { (loadLoop ambient file).superblock with inodeAmount := 0 } }
      else
        loadLoop ambient file :=
  rfl

/-- The bits that the loop sets in an empty superblock. -/
theorem loadLoop_bits (ambient : Ambient) (file : List UInt8) (index : Nat) :
    (loadLoop ambient file).superblock.inodeBitmap index = true ↔
      index < (loadLoop ambient file).rounds := by
  unfold loadLoop
  rw [(deserializeFrom_fills _ _ _ _ _).bits]
  constructor
  · rintro (bit | ⟨-, inside⟩)
    · cases bit
    · exact inside
  · intro inside
    exact .inr ⟨Nat.zero_le index, inside⟩

/-- A loop that does not fail leaves a sound superblock when it has reached the
counter inside of the table. -/
theorem sound_loadLoop_iff (ambient : Ambient) (file : List UInt8)
    (runs : (loadLoop ambient file).failed = false) :
    (loadLoop ambient file).Sound ↔
      0 ≤ (amountOf file).toInt ∧ (amountOf file).toInt ≤ inodesAmount ∧
        HoldsInodes ambient (amountOf file).toInt.toNat (file.drop 4) := by
  have fills : FillsFrom _ 0 (loadLoop ambient file) :=
    deserializeFrom_fills ambient _ _ _ _
  have bits := loadLoop_bits ambient file
  have length := congrArg List.length (Superblock.live_of_front bits)
  rw [List.length_range] at length
  obtain ⟨below, -, exactly⟩ := rounds_iff ambient (amountOf file).toInt.toNat
    (zeroFrom_empty (amountOf file)) (file.drop 4)
  change (loadLoop ambient file).rounds ≤ _ at below
  change (loadLoop ambient file).rounds = _ ↔ _ at exactly
  rw [Nat.zero_add] at below exactly
  have amount : (loadLoop ambient file).superblock.inodeAmount =
      amountOf file := fills.amount
  rw [← exactly]
  constructor
  · intro sound
    have counted := sound.counted
    rw [amount, length] at counted
    have inside : (loadLoop ambient file).rounds ≤ inodesAmount := by
      by_contra beyond
      have accessed : (loadLoop ambient file).Accessed inodesAmount :=
        .inl (by omega)
      exact absurd (sound.inside _ accessed) (Nat.lt_irrefl _)
    omega
  · rintro ⟨nonnegative, inTable, reached⟩
    refine ⟨?_, ?_, ?_⟩
    · rintro index (inside | ⟨fails, -⟩)
      · omega
      · rw [runs] at fails
        cases fails
    · intro index bit
      refine ⟨?_, fills.buffers index (Nat.zero_le _) ((bits index).mp bit)⟩
      rintro ⟨fails, -⟩
      rw [runs] at fails
      cases fails
    · rw [amount, length]
      omega

/-- A loop that fails leaves a sound superblock when it has loaded nothing. -/
theorem sound_failed_iff (ambient : Ambient) (file : List UInt8)
    (fails : (loadLoop ambient file).failed = true) :
    ({ loadLoop ambient file with
        superblock :=
          { (loadLoop ambient file).superblock with inodeAmount := 0 } } :
      Loaded).Sound ↔ (loadLoop ambient file).rounds = 0 := by
  have bits := loadLoop_bits ambient file
  constructor
  · intro sound
    by_contra loads
    have bit : (loadLoop ambient file).superblock.inodeBitmap 0 = true :=
      (bits 0).mpr (by omega)
    have freed : 0 < (loadLoop ambient file).rounds := by omega
    exact (sound.buffers 0 bit).1 ⟨fails, freed⟩
  · intro none
    have length := congrArg List.length (Superblock.live_of_front bits)
    rw [none, List.length_range] at length
    refine ⟨?_, ?_, ?_⟩
    · rintro index (inside | ⟨-, last⟩)
      · dsimp only at inside
        omega
      · dsimp only at last
        rw [last, none]
        exact Nat.zero_lt_succ _
    · intro index bit
      have inside := (bits index).mp bit
      omega
    · change (0 : Int) = (loadLoop ambient file).superblock.live.length
      rw [length]
      rfl

/-- `deserialize` on an empty superblock is sound exactly on these files. -/
theorem sound_iff (ambient : Ambient) (file : List UInt8) :
    (Superblock.empty.deserialize ambient file).Sound ↔
      LoadsSoundly ambient file := by
  have first := failed_first_iff ambient (amountOf file).toInt.toNat
    (zeroFrom_empty (amountOf file)) (file.drop 4)
  obtain ⟨-, short, exactly⟩ := rounds_iff ambient (amountOf file).toInt.toNat
    (zeroFrom_empty (amountOf file)) (file.drop 4)
  change (loadLoop ambient file).failed = true ∧
    (loadLoop ambient file).rounds = 0 ↔ _ at first
  change (loadLoop ambient file).failed = true →
    (loadLoop ambient file).rounds < _ at short
  change (loadLoop ambient file).rounds = _ ↔ _ at exactly
  rw [deserialize_empty]
  unfold LoadsSoundly
  by_cases fails : (loadLoop ambient file).failed = true
  · rw [if_pos fails, sound_failed_iff ambient file fails]
    have shorter := short fails
    constructor
    · intro none
      obtain ⟨positive, firstFails⟩ := first.mp ⟨fails, none⟩
      exact .inr ⟨by omega, firstFails⟩
    · rintro (⟨-, -, holds⟩ | ⟨positive, firstFails⟩)
      · have reached := exactly.mpr holds
        omega
      · exact (first.mpr ⟨by omega, firstFails⟩).2
  · have runs : (loadLoop ambient file).failed = false :=
      Bool.eq_false_iff.mpr fails
    rw [if_neg fails, sound_loadLoop_iff ambient file runs]
    constructor
    · exact Or.inl
    · rintro (loads | ⟨positive, firstFails⟩)
      · exact loads
      · exact absurd (first.mpr ⟨by omega, firstFails⟩).1 fails

/-- The counter is two, and the second inode has the size -1. -/
def damagedFile : List UInt8 :=
  toBytes 4 2 ++ zeros inodeBytes ++
    (zeros 264 ++ toBytes 4 (256 ^ 4 - 1) ++ zeros 44)

/-- The first inode stays live after its buffer has been freed. -/
theorem not_sound_damagedFile :
    ¬ (Superblock.empty.deserialize .generous damagedFile).Sound := by
  have live : (Superblock.empty.deserialize .generous
      damagedFile).superblock.inodeBitmap 0 = true := by
    decide +kernel
  have fails : (Superblock.empty.deserialize .generous
      damagedFile).failed = true := by
    decide +kernel
  have rounds : (Superblock.empty.deserialize .generous
      damagedFile).rounds = 1 := by
    decide +kernel
  intro sound
  refine (sound.buffers 0 live).1 ⟨fails, ?_⟩
  rw [rounds]
  exact Nat.zero_lt_one

end FeaturesOS.FileSystem

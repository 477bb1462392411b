import Mathlib.Tactic.IntervalCases
import FeaturesOS.LittleEndian
import FeaturesOS.Scheduler.Pmap

/-!
# The memory that a program sees

The translation of the processor in user mode, and what loads and stores through
a page directory do to the bytes of the physical memory.  A place is a page with
an offset.
-/

namespace FeaturesOS.Scheduler

/-! ## Bytes of words -/

/-- One byte of a word. -/
def getByte (word : UInt32) (position : Nat) : UInt8 :=
  (word >>> UInt32.ofNat (8 * position)).toUInt8

section Bytes

variable {p q i : Nat}

theorem byteShift_toNat (below : p < 4) :
    ((UInt32.ofNat (8 * p)).toBitVec % 32).toNat = 8 * p := by
  interval_cases p <;> rfl

theorem getLsbD_getByte (word : UInt32) (below : p < 4) (inside : i < 8) :
    (getByte word p).toBitVec.getLsbD i =
      word.toBitVec.getLsbD (8 * p + i) := by
  unfold getByte
  rw [UInt32.toBitVec_toUInt8, UInt32.toBitVec_shiftRight,
    BitVec.getLsbD_setWidth, BitVec.ushiftRight_eq', byteShift_toNat below,
    BitVec.getLsbD_ushiftRight]
  simp [inside]

theorem getLsbD_setByte (word : UInt32) (byte : UInt8) (below : p < 4)
    (inside : i < 32) :
    (PhysMem.setByte word p byte).toBitVec.getLsbD i =
      if 8 * p ≤ i ∧ i < 8 * p + 8 then byte.toBitVec.getLsbD (i - 8 * p)
      else word.toBitVec.getLsbD i := by
  have mask : (255 : UInt32).toBitVec = (BitVec.allOnes 8).setWidth 32 := rfl
  unfold PhysMem.setByte
  simp only [UInt32.toBitVec_or, UInt32.toBitVec_and, UInt32.toBitVec_not,
    UInt32.toBitVec_shiftLeft, BitVec.shiftLeft_eq', byteShift_toNat below,
    BitVec.getLsbD_or, BitVec.getLsbD_and, BitVec.getLsbD_not,
    BitVec.getLsbD_shiftLeft]
  rw [mask, UInt8.toBitVec_toUInt32]
  simp only [BitVec.getLsbD_setWidth, BitVec.getLsbD_allOnes, inside,
    decide_true, Bool.true_and]
  by_cases low : i < 8 * p
  · rw [if_neg (by omega)]
    simp [low]
  · by_cases high : i < 8 * p + 8
    · have byteBit : i - 8 * p < 8 := by omega
      have wordBit : i - 8 * p < 32 := by omega
      rw [if_pos ⟨by omega, high⟩]
      simp [low, byteBit, wordBit]
    · have beyond : ¬ i - 8 * p < 8 := by omega
      rw [if_neg (by omega), BitVec.getLsbD_of_ge byte.toBitVec _ (by omega)]
      simp [low, beyond]

theorem getByte_setByte (word : UInt32) (byte : UInt8) (below : p < 4)
    (below' : q < 4) :
    getByte (PhysMem.setByte word p byte) q =
      if q = p then byte else getByte word q := by
  apply UInt8.toBitVec_inj.mp
  apply BitVec.eq_of_getLsbD_eq
  intro i inside
  rw [getLsbD_getByte _ below' inside, getLsbD_setByte _ _ below (by omega)]
  by_cases same : q = p
  · subst same
    rw [if_pos rfl, if_pos (by omega), Nat.add_sub_cancel_left]
  · rw [if_neg same, if_neg (by omega), getLsbD_getByte _ below' inside]

end Bytes

/-- The word of four bytes in memory order. -/
def wordOf (bytes : List UInt8) : UInt32 :=
  UInt32.ofNat (LittleEndian.ofBytes bytes)

theorem wordOf_wordBytes (word : UInt32) :
    wordOf (PhysMem.wordBytes [word]) = word := by
  apply UInt32.toNat_inj.mp
  have bound := word.toNat_lt
  simp only [wordOf, PhysMem.wordBytes, List.flatMap_cons, List.flatMap_nil,
    List.append_nil, LittleEndian.ofBytes, UInt32.toNat_ofNat',
    UInt32.toNat_toUInt8, UInt32.toNat_shiftRight, UInt32.toNat_ofNat,
    Nat.shiftRight_eq_div_pow, Nat.reducePow, Nat.reduceMod]
  omega

namespace PhysMem

/-! ## Translation -/

/-- A byte of the physical memory: a page and an offset. -/
abbrev Place := Nat × Nat

def byteAt (mem : PhysMem) (place : Place) : UInt8 :=
  getByte (mem.ram place.1 (place.2 / 4)) (place.2 % 4)

def setByteAt (mem : PhysMem) (place : Place) (byte : UInt8) : PhysMem :=
  mem.store ⟨place.1, place.2 / 4⟩
    (setByte (mem.load ⟨place.1, place.2 / 4⟩) (place.2 % 4) byte)

/-- What an access in user mode demands of both levels of the page tables. -/
def userRights (writes : Bool) : UInt32 :=
  if writes then pteP ||| pteU ||| pteW else pteP ||| pteU

/-- The translation of an address in user mode; `none` is a page fault. -/
def translate (mem : PhysMem) (pgdir : Nat) (writes : Bool) (va : UInt32) :
    Option Place :=
  let rights := userRights writes
  let pde := mem.ram pgdir (pdx va)
  let pte := mem.ram (pteFrame pde) (ptx va)
  if pde &&& rights = rights ∧ pte &&& rights = rights then
    some (pteFrame pte, va.toNat % 4096)
  else
    none

/-- A byte that a program loads. -/
def loadByte (mem : PhysMem) (pgdir : Nat) (va : UInt32) : Option UInt8 :=
  (mem.translate pgdir false va).map mem.byteAt

def loadWord (mem : PhysMem) (pgdir : Nat) (va : UInt32) : Option UInt32 := do
  let byte0 ← mem.loadByte pgdir va
  let byte1 ← mem.loadByte pgdir (va + 1)
  let byte2 ← mem.loadByte pgdir (va + 2)
  let byte3 ← mem.loadByte pgdir (va + 3)
  some (wordOf [byte0, byte1, byte2, byte3])

/-- A program may store to the `count` bytes from `va` on. -/
def Writable (mem : PhysMem) (pgdir : Nat) (va : UInt32) (count : Nat) : Prop :=
  ∀ k < count, (mem.translate pgdir true (va + UInt32.ofNat k)).isSome = true

instance (mem : PhysMem) (pgdir : Nat) (va : UInt32) (count : Nat) :
    Decidable (mem.Writable pgdir va count) :=
  inferInstanceAs (Decidable (∀ k < count, _))

/-- A word that a program stores; it faults before it stores a part. -/
def storeWord (mem : PhysMem) (pgdir : Nat) (va word : UInt32) :
    Option PhysMem :=
  if mem.Writable pgdir va 4 then
    storeBytes pgdir mem va (wordBytes [word])
  else
    none

variable {mem next last : PhysMem} {pgdir : Nat} {va : UInt32}
variable {place other : Place} {writes : Bool}

theorem byteAt_setByteAt (mem : PhysMem) (place other : Place) (byte : UInt8) :
    (mem.setByteAt place byte).byteAt other =
      if other = place then byte else mem.byteAt other := by
  have below : place.2 % 4 < 4 := Nat.mod_lt _ (by decide)
  have below' : other.2 % 4 < 4 := Nat.mod_lt _ (by decide)
  unfold byteAt setByteAt store load
  dsimp only
  by_cases page : other.1 = place.1
  · by_cases index : other.2 / 4 = place.2 / 4
    · rw [page, Function.update_self, index, Function.update_self,
        getByte_setByte _ _ below below']
      by_cases position : other.2 % 4 = place.2 % 4
      · have offset : other.2 = place.2 := by omega
        rw [if_pos position, if_pos (Prod.ext page offset)]
      · rw [if_neg position, if_neg]
        rintro rfl
        exact position rfl
    · rw [page, Function.update_self, Function.update_of_ne index, if_neg]
      rintro rfl
      exact index rfl
  · rw [Function.update_of_ne page, if_neg]
    rintro rfl
    exact page rfl

theorem userRights_present (writes : Bool) {entry : UInt32}
    (granted : entry &&& userRights writes = userRights writes) :
    entry &&& pteP ≠ 0 := by
  have part : userRights writes &&& pteP = pteP := by
    cases writes <;> rfl
  rw [← part, ← UInt32.and_assoc, granted, part]
  decide

theorem userRights_mono {entry : UInt32}
    (granted : entry &&& userRights true = userRights true) :
    entry &&& userRights false = userRights false := by
  have part : userRights true &&& userRights false = userRights false := rfl
  rw [← part, ← UInt32.and_assoc, granted, part]

/-- What may be stored may be loaded. -/
theorem translate_of_writes (found : mem.translate pgdir true va = some place) :
    mem.translate pgdir writes va = some place := by
  cases writes with
  | true => exact found
  | false =>
      unfold translate at found ⊢
      dsimp only at found ⊢
      split at found
      · rename_i granted
        rw [if_pos ⟨userRights_mono granted.1, userRights_mono granted.2⟩]
        exact found
      · cases found

theorem translate_offset (found : mem.translate pgdir writes va = some place) :
    place.2 = va.toNat % 4096 := by
  unfold translate at found
  dsimp only at found
  split at found
  · cases found
    rfl
  · cases found

/-! ## Page tables -/

/-- The page holds the directory or one of its tables. -/
def IsTable (mem : PhysMem) (pgdir page : Nat) : Prop :=
  page = pgdir ∨ ∃ i < nptEntries, mem.ram pgdir i &&& pteP ≠ 0 ∧
    page = pteFrame (mem.ram pgdir i)

/-- No program stores to a page table. -/
def TablesApart (mem : PhysMem) (pgdir : Nat) : Prop :=
  ∀ va place, mem.translate pgdir true va = some place →
    ¬ mem.IsTable pgdir place.1

/-- The directory and its tables have not changed. -/
structure SameTables (pgdir : Nat) (mem next : PhysMem) : Prop where
  npages : next.npages = mem.npages
  table : ∀ page, mem.IsTable pgdir page → next.ram page = mem.ram page

theorem pdx_lt (va : UInt32) : pdx va < nptEntries := by
  have bound := va.toNat_lt
  unfold pdx nptEntries
  omega

theorem SameTables.refl (pgdir : Nat) (mem : PhysMem) :
    SameTables pgdir mem mem :=
  ⟨rfl, fun _ _ => rfl⟩

theorem SameTables.isTable (same : SameTables pgdir mem next) {page : Nat} :
    next.IsTable pgdir page ↔ mem.IsTable pgdir page := by
  unfold IsTable
  rw [same.table pgdir (.inl rfl)]

theorem SameTables.symm (same : SameTables pgdir mem next) :
    SameTables pgdir next mem where
  npages := same.npages.symm
  table page isTable := (same.table page (same.isTable.mp isTable)).symm

theorem SameTables.trans (first : SameTables pgdir mem next)
    (second : SameTables pgdir next last) : SameTables pgdir mem last where
  npages := second.npages.trans first.npages
  table page isTable :=
    (second.table page (first.isTable.mpr isTable)).trans
      (first.table page isTable)

theorem SameTables.translate (same : SameTables pgdir mem next) :
    next.translate pgdir writes va = mem.translate pgdir writes va := by
  unfold PhysMem.translate
  rw [same.table pgdir (.inl rfl)]
  dsimp only
  by_cases granted : mem.ram pgdir (pdx va) &&& userRights writes =
      userRights writes
  · have isTable : mem.IsTable pgdir (pteFrame (mem.ram pgdir (pdx va))) :=
      .inr ⟨pdx va, pdx_lt va, userRights_present writes granted, rfl⟩
    rw [same.table _ isTable]
  · rw [if_neg (fun both => granted both.1), if_neg (fun both => granted both.1)]

theorem SameTables.tablesApart (same : SameTables pgdir mem next)
    (apart : mem.TablesApart pgdir) : next.TablesApart pgdir := by
  intro va place found isTable
  rw [same.translate] at found
  exact apart va place found (same.isTable.mp isTable)

theorem sameTables_setByteAt (notTable : ¬ mem.IsTable pgdir place.1)
    (byte : UInt8) : SameTables pgdir mem (mem.setByteAt place byte) := by
  refine ⟨rfl, fun page isTable => ?_⟩
  have different : page ≠ place.1 := by
    rintro rfl
    exact notTable isTable
  exact Function.update_of_ne different _ _

/-! ## Storing bytes -/

/-- `next` is the memory after `bytes` have been stored from `va` on. -/
structure Wrote (pgdir : Nat) (va : UInt32) (bytes : List UInt8)
    (mem next : PhysMem) : Prop where
  tables : SameTables pgdir mem next
  stored : ∀ k (below : k < bytes.length) place,
    mem.translate pgdir true (va + UInt32.ofNat k) = some place →
      next.byteAt place = bytes[k]
  others : ∀ place, (∀ k < bytes.length,
    mem.translate pgdir true (va + UInt32.ofNat k) ≠ some place) →
      next.byteAt place = mem.byteAt place

theorem storeByte_eq (byte : UInt8)
    (found : mem.translate pgdir true va = some place) :
    mem.storeByte pgdir va byte = some (mem.setByteAt place byte) := by
  unfold translate at found
  dsimp only at found
  split at found
  · rename_i granted
    cases found
    have word : va.toNat % 4096 % 4 = va.toNat % 4 :=
      Nat.mod_mod_of_dvd _ (by decide)
    have writable : mem.ram (pteFrame (mem.ram pgdir (pdx va))) (ptx va) &&&
        pteW ≠ 0 := by
      have part : userRights true &&& pteW = pteW := rfl
      rw [← part, ← UInt32.and_assoc, granted.2, part]
      decide
    unfold storeByte setByteAt
    dsimp only
    rw [if_pos ⟨userRights_present true granted.1,
      userRights_present true granted.2, writable⟩, word]
  · cases found

/-- Addresses close to each other have different places. -/
theorem translate_ne {first second : UInt32} {writes' : Bool}
    (different : first.toNat % 4096 ≠ second.toNat % 4096)
    (found : mem.translate pgdir writes first = some place) :
    mem.translate pgdir writes' second ≠ some place := by
  intro same
  have left := translate_offset found
  have right := translate_offset same
  exact different (left.symm.trans right)

theorem add_ofNat_mod (va : UInt32) (k : Nat) :
    (va + UInt32.ofNat k).toNat % 4096 = (va.toNat + k) % 4096 := by
  rw [UInt32.toNat_add, UInt32.toNat_ofNat']
  omega

theorem add_ofNat_succ (va : UInt32) (k : Nat) :
    va + UInt32.ofNat (k + 1) = va + 1 + UInt32.ofNat k := by
  apply UInt32.toNat_inj.mp
  simp only [UInt32.toNat_add, UInt32.toNat_ofNat', UInt32.toNat_ofNat]
  omega

theorem storeBytes_wrote {bytes : List UInt8} (apart : mem.TablesApart pgdir)
    (writable : mem.Writable pgdir va bytes.length)
    (short : bytes.length ≤ 4096) :
    ∃ next, storeBytes pgdir mem va bytes = some next ∧
      Wrote pgdir va bytes mem next := by
  induction bytes generalizing mem va with
  | nil =>
      refine ⟨mem, rfl, .refl pgdir mem, ?_, fun _ _ => rfl⟩
      intro k below
      exact absurd below (Nat.not_lt_zero k)
  | cons byte bytes induction =>
      rw [List.length_cons] at writable short
      have zero : va + UInt32.ofNat 0 = va := UInt32.add_zero va
      obtain ⟨place, found⟩ := Option.isSome_iff_exists.mp
        (writable 0 (Nat.succ_pos _))
      rw [zero] at found
      have notTable := apart va place found
      have same := sameTables_setByteAt notTable byte
      have rest : (mem.setByteAt place byte).Writable pgdir (va + 1)
          bytes.length := by
        intro k below
        rw [same.translate, ← add_ofNat_succ]
        exact writable (k + 1) (by omega)
      obtain ⟨next, stored, wrote⟩ :=
        induction (same.tablesApart apart) rest (by omega)
      -- The other bytes are at other offsets of their pages.
      have apartFirst : ∀ k < bytes.length,
          mem.translate pgdir true (va + UInt32.ofNat (k + 1)) ≠ some place := by
        intro k below
        refine translate_ne ?_ found
        rw [add_ofNat_mod]
        omega
      refine ⟨next, ?_, same.trans wrote.tables, ?_, ?_⟩
      · unfold storeBytes
        rw [storeByte_eq byte found]
        exact stored
      · intro k below there foundThere
        cases k with
        | zero =>
            rw [zero, found] at foundThere
            cases foundThere
            rw [wrote.others place, byteAt_setByteAt, if_pos rfl]
            · rfl
            · intro k below
              rw [same.translate, ← add_ofNat_succ]
              exact apartFirst k below
        | succ k =>
            have inside : k < bytes.length := Nat.lt_of_succ_lt_succ below
            rw [add_ofNat_succ, ← same.translate] at foundThere
            exact wrote.stored k inside there foundThere
      · intro there outside
        have different : there ≠ place := by
          rintro rfl
          refine outside 0 (Nat.succ_pos _) ?_
          rw [zero, found]
        rw [wrote.others there, byteAt_setByteAt, if_neg different]
        intro k below
        rw [same.translate, ← add_ofNat_succ]
        exact outside (k + 1) (Nat.succ_lt_succ below)

/-! ## Loading -/

/-- A program finds `bytes` from `va` on. -/
def Holds (mem : PhysMem) (pgdir : Nat) (va : UInt32) (bytes : List UInt8) :
    Prop :=
  ∀ k (below : k < bytes.length),
    mem.loadByte pgdir (va + UInt32.ofNat k) = some bytes[k]

theorem Wrote.loadByte_same {bytes : List UInt8} {there : UInt32}
    (wrote : Wrote pgdir va bytes mem next)
    (disjoint : ∀ k < bytes.length, ∀ place,
      mem.translate pgdir false there = some place →
        mem.translate pgdir true (va + UInt32.ofNat k) ≠ some place) :
    next.loadByte pgdir there = mem.loadByte pgdir there := by
  unfold loadByte
  rw [wrote.tables.translate]
  cases found : mem.translate pgdir false there with
  | none => rfl
  | some place =>
      rw [Option.map_some, Option.map_some,
        wrote.others place fun k below => disjoint k below place found]

theorem Wrote.holds {bytes : List UInt8}
    (wrote : Wrote pgdir va bytes mem next)
    (writable : mem.Writable pgdir va bytes.length) :
    next.Holds pgdir va bytes := by
  intro k below
  obtain ⟨place, found⟩ := Option.isSome_iff_exists.mp (writable k below)
  unfold loadByte
  rw [wrote.tables.translate, translate_of_writes found, Option.map_some,
    wrote.stored k below place found]

theorem length_wordBytes (words : List UInt32) :
    (wordBytes words).length = 4 * words.length := by
  induction words with
  | nil => rfl
  | cons word words induction =>
      change (_ :: _ :: _ :: _ :: wordBytes words).length = _
      simp only [List.length_cons, induction]
      omega

theorem loadWord_of_holds_one {word : UInt32}
    (holds : mem.Holds pgdir va (wordBytes [word])) :
    mem.loadWord pgdir va = some word := by
  have four : (wordBytes [word]).length = 4 := rfl
  have byte0 := holds 0 (by omega)
  have byte1 := holds 1 (by omega)
  have byte2 := holds 2 (by omega)
  have byte3 := holds 3 (by omega)
  have zero : va + UInt32.ofNat 0 = va := UInt32.add_zero va
  rw [zero] at byte0
  have word' := wordOf_wordBytes word
  unfold loadWord
  rw [byte0, show va + 1 = va + UInt32.ofNat 1 from rfl, byte1,
    show va + 2 = va + UInt32.ofNat 2 from rfl, byte2,
    show va + 3 = va + UInt32.ofNat 3 from rfl, byte3]
  exact congrArg some word'

theorem Holds.front {front back : List UInt8}
    (holds : mem.Holds pgdir va (front ++ back)) :
    mem.Holds pgdir va front := by
  intro k below
  have inside : k < (front ++ back).length := by
    rw [List.length_append]
    omega
  rw [holds k inside, List.getElem_append_left below]

theorem Holds.tail {word : UInt32} {words : List UInt32}
    (holds : mem.Holds pgdir va (wordBytes (word :: words))) :
    mem.Holds pgdir (va + 4) (wordBytes words) := by
  intro k below
  have length := length_wordBytes (word :: words)
  have rest := length_wordBytes words
  rw [List.length_cons] at length
  have there := holds (k + 4) (by omega)
  have address : va + UInt32.ofNat (k + 4) = va + 4 + UInt32.ofNat k := by
    rw [UInt32.ofNat_add, UInt32.add_comm (UInt32.ofNat k), UInt32.add_assoc]
    rfl
  rw [address] at there
  rw [there]
  rfl

theorem loadWord_of_holds {words : List UInt32}
    (holds : mem.Holds pgdir va (wordBytes words)) (i : Nat)
    (below : i < words.length) :
    mem.loadWord pgdir (va + UInt32.ofNat (4 * i)) = some words[i] := by
  induction words generalizing va i with
  | nil => exact absurd below (Nat.not_lt_zero i)
  | cons word words induction =>
      cases i with
      | zero =>
          have first : mem.Holds pgdir va
              (wordBytes [word] ++ wordBytes words) := holds
          rw [show va + UInt32.ofNat (4 * 0) = va from UInt32.add_zero va]
          exact loadWord_of_holds_one first.front
      | succ i =>
          have there :=
            induction holds.tail i (Nat.lt_of_succ_lt_succ below)
          have address : va + UInt32.ofNat (4 * (i + 1)) =
              va + 4 + UInt32.ofNat (4 * i) := by
            rw [Nat.mul_succ, UInt32.ofNat_add,
              UInt32.add_comm (UInt32.ofNat (4 * i)), UInt32.add_assoc]
            rfl
          rw [address, there]
          rfl

/-! ## Words -/

theorem storeWord_wrote (word : UInt32) (apart : mem.TablesApart pgdir)
    (writable : mem.Writable pgdir va 4) :
    ∃ next, mem.storeWord pgdir va word = some next ∧
      Wrote pgdir va (wordBytes [word]) mem next := by
  unfold storeWord
  have short : (wordBytes [word]).length ≤ 4096 :=
    Nat.le_of_ble_eq_true rfl
  rw [if_pos writable]
  exact storeBytes_wrote apart writable short

theorem Wrote.loadWord {word : UInt32}
    (wrote : Wrote pgdir va (wordBytes [word]) mem next)
    (writable : mem.Writable pgdir va 4) :
    next.loadWord pgdir va = some word :=
  loadWord_of_holds_one (wrote.holds writable)

/-- No byte of the `count` bytes from `there` on is one of the four from `va`
on. -/
def Disjoint (mem : PhysMem) (pgdir : Nat) (va there : UInt32) (count : Nat) :
    Prop :=
  ∀ k < 4, ∀ j < count, ∀ place,
    mem.translate pgdir false (there + UInt32.ofNat j) = some place →
      mem.translate pgdir true (va + UInt32.ofNat k) ≠ some place

/-- Two pieces of one page do not overlap. -/
theorem disjoint_of_offsets {there : UInt32} {count : Nat}
    (apart : ∀ k < 4, ∀ j < count,
      (there.toNat + j) % 4096 ≠ (va.toNat + k) % 4096) :
    mem.Disjoint pgdir va there count := by
  intro k below j inside place found
  refine translate_ne ?_ found
  rw [add_ofNat_mod, add_ofNat_mod]
  exact apart k below j inside

theorem Wrote.holds_same {word : UInt32} {bytes : List UInt8} {there : UInt32}
    (wrote : Wrote pgdir va (wordBytes [word]) mem next)
    (disjoint : mem.Disjoint pgdir va there bytes.length)
    (holds : mem.Holds pgdir there bytes) : next.Holds pgdir there bytes := by
  intro k below
  rw [wrote.loadByte_same]
  · exact holds k below
  · intro j inside place found
    exact disjoint j inside k below place found

end PhysMem

end FeaturesOS.Scheduler

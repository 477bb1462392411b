import Mathlib.Algebra.Group.Int.Defs
import Mathlib.Algebra.GroupWithZero.Nat
import Mathlib.Data.Int.Basic
import Mathlib.Order.Basic

/-!
# The stabs of the kernel

`stab_binsearch` of `kern/kdebug.c`, which looks for the stab of a type that
contains an address, among stabs of other types.  The table is a function of the
position, since the search may leave its range on the left.
-/

namespace FeaturesOS.Scheduler

/-- `struct Stab` without the fields that the search does not read. -/
structure Stab where
  nType : UInt8
  nValue : UInt32

variable (stabs : Int → Stab) (type : UInt8)

/-- `for (; m >= l && stabs[m].n_type != type; m--)`. -/
def searchBack (l m : Int) : Int :=
  if l ≤ m ∧ (stabs m).nType ≠ type then searchBack l (m - 1) else m
termination_by (m - l + 1).toNat

/-- The locals of `stab_binsearch`, and the two positions that it returns. -/
structure StabSearch where
  l : Int
  r : Int
  anyMatches : Bool
  addr : UInt32
  regionLeft : Int
  regionRight : Int

namespace StabSearch

/-- The body of the loop `while (l <= r)`. -/
def next (search : StabSearch) : StabSearch :=
  let trueM := (search.l + search.r).tdiv 2
  let m := searchBack stabs type search.l trueM
  if m < search.l then
    { search with l := trueM + 1 }
  else if (stabs m).nValue < search.addr then
    { search with anyMatches := true, regionLeft := m, l := trueM + 1 }
  else if search.addr < (stabs m).nValue then
    { search with anyMatches := true, regionRight := m - 1, r := m - 1 }
  else
    { search with
      anyMatches := true, regionLeft := m, l := m, addr := search.addr + 1 }

/-- How long the loop can still run: an exact match leaves the range as it is once
at most. -/
def measure (search : StabSearch) : Nat :=
  2 * (search.r - search.l + 1).toNat +
    if (stabs search.l).nValue = search.addr then 1 else 0

end StabSearch

variable {stabs type}

theorem searchBack_le (l m : Int) : searchBack stabs type l m ≤ m := by
  fun_induction searchBack stabs type l m with
  | case1 m _ induction => omega
  | case2 m _ => exact Int.le_refl m

theorem le_searchBack {l m : Int} (le : l ≤ m + 1) :
    l ≤ searchBack stabs type l m + 1 := by
  fun_induction searchBack stabs type l m with
  | case1 m both induction => exact induction (by omega)
  | case2 => exact le

/-- The loop stops at the last stab of the type. -/
theorem searchBack_type {l m : Int} (inside : l ≤ searchBack stabs type l m) :
    (stabs (searchBack stabs type l m)).nType = type := by
  fun_induction searchBack stabs type l m with
  | case1 m _ induction => exact induction inside
  | case2 m stops =>
      by_contra other
      exact stops ⟨inside, other⟩

theorem searchBack_skips {l m : Int} :
    ∀ i, searchBack stabs type l m < i → i ≤ m → (stabs i).nType ≠ type := by
  fun_induction searchBack stabs type l m with
  | case1 m both induction =>
      intro i above le
      by_cases last : i = m
      · rw [last]
        exact both.2
      · exact induction i above (by omega)
  | case2 m _ =>
      intro i above le
      omega

/-- The middle lies in the range. -/
theorem middle_bounds {l r : Int} (le : l ≤ r) :
    l ≤ (l + r).tdiv 2 ∧ (l + r).tdiv 2 ≤ r := by
  rcases Int.le_total 0 (l + r) with nonneg | neg
  · rw [Int.tdiv_eq_ediv_of_nonneg nonneg]
    omega
  · have isNeg : l + r = -(-(l + r)) := by omega
    rw [isNeg, Int.neg_tdiv, Int.tdiv_eq_ediv_of_nonneg (by omega)]
    omega

theorem addr_ne_succ (addr : UInt32) : addr ≠ addr + 1 := by
  intro same
  have values := congrArg UInt32.toNat same
  rw [UInt32.toNat_add, show (1 : UInt32).toNat = 1 from rfl] at values
  have small := addr.toNat_lt
  omega

variable (stabs type) in
/-- `m` is the last stab of the type up to `trueM`, both inside the range. -/
structure StabSearch.Found (search : StabSearch) (m trueM : Int) : Prop where
  low : search.l ≤ m
  le : m ≤ trueM
  high : trueM ≤ search.r
  isType : (stabs m).nType = type
  last : ∀ i, m < i → i ≤ trueM → (stabs i).nType ≠ type

variable (stabs type) in
/-- What the body of the loop can do. -/
inductive StabSearch.Moves (search : StabSearch) : StabSearch → Prop where
  | skips (trueM : Int) : search.l ≤ trueM → trueM ≤ search.r →
      (∀ i, search.l ≤ i → i ≤ trueM → (stabs i).nType ≠ type) →
      Moves search { search with l := trueM + 1 }
  | goesRight (m trueM : Int) : search.Found stabs type m trueM →
      (stabs m).nValue < search.addr →
      Moves search
        { search with anyMatches := true, regionLeft := m, l := trueM + 1 }
  | goesLeft (m trueM : Int) : search.Found stabs type m trueM →
      search.addr < (stabs m).nValue →
      Moves search
        { search with anyMatches := true, regionRight := m - 1, r := m - 1 }
  | hits (m trueM : Int) : search.Found stabs type m trueM →
      (stabs m).nValue = search.addr →
      Moves search
        { search with
          anyMatches := true, regionLeft := m, l := m, addr := search.addr + 1 }

namespace StabSearch

theorem next_moves (search : StabSearch) (le : search.l ≤ search.r) :
    search.Moves stabs type (search.next stabs type) := by
  obtain ⟨low, high⟩ := middle_bounds le
  unfold next
  dsimp only
  generalize (search.l + search.r).tdiv 2 = trueM at low high ⊢
  have below := @searchBack_le stabs type search.l trueM
  have skips := @searchBack_skips stabs type search.l trueM
  split
  · rename_i none
    exact .skips trueM low high fun i above le => skips i (by omega) le
  · rename_i some
    have found : search.Found stabs type (searchBack stabs type search.l trueM)
        trueM := ⟨by omega, below, high, searchBack_type (by omega), skips⟩
    split
    · exact .goesRight _ trueM found ‹_›
    · rename_i notLess
      split
      · exact .goesLeft _ trueM found ‹_›
      · rename_i notGreater
        exact .hits _ trueM found
          (UInt32.le_antisymm (UInt32.not_lt.mp notGreater)
            (UInt32.not_lt.mp notLess))

theorem measure_next (search : StabSearch) (le : search.l ≤ search.r) :
    (search.next stabs type).measure stabs < search.measure stabs := by
  have flag : ∀ (p : Prop) [Decidable p], (if p then 1 else 0) ≤ 1 := by
    intro p _
    split <;> omega
  have moves := @next_moves stabs type search le
  generalize search.next stabs type = after at moves
  unfold measure
  have before := flag ((stabs search.l).nValue = search.addr)
  have behind := flag ((stabs after.l).nValue = after.addr)
  cases moves with
  | skips trueM low high _ =>
      dsimp only at behind ⊢
      omega
  | goesRight m trueM found _ | goesLeft m trueM found _ =>
      obtain ⟨low, le, high, _, _⟩ := found
      dsimp only at behind ⊢
      omega
  | hits m trueM found isAddr =>
      obtain ⟨low, le, high, _, _⟩ := found
      dsimp only at behind ⊢
      rw [isAddr, if_neg (addr_ne_succ _)]
      by_cases first : m = search.l
      · rw [first] at isAddr ⊢
        rw [if_pos isAddr]
        omega
      · omega

end StabSearch

variable (stabs type)

/-- The loop `while (l <= r)`. -/
def stabLoop (search : StabSearch) : StabSearch :=
  if search.l ≤ search.r then stabLoop (search.next stabs type) else search
termination_by search.measure stabs
decreasing_by exact search.measure_next ‹_›

/-- `stab_binsearch`, with the positions that it stores. -/
def stabBinsearch (regionLeft regionRight : Int) (addr : UInt32) : Int × Int :=
  let search := stabLoop stabs type
    ⟨regionLeft, regionRight, false, addr, regionLeft, regionRight⟩
  if search.anyMatches then
    -- `l > *region_left` in the loop
    (searchBack stabs type (search.regionLeft + 1) search.regionRight,
      search.regionRight)
  else
    (search.regionLeft, search.regionLeft - 1)

/-! ## What the search finds -/

variable {stabs type} {lo hi : Int} {addr : UInt32}

variable (stabs type lo hi) in
/-- A stab of the type in the range. -/
structure StabAt (i : Int) : Prop where
  low : lo ≤ i
  high : i ≤ hi
  isType : (stabs i).nType = type

variable (stabs type lo hi) in
/-- "Some stab types are arranged in increasing order by instruction address." -/
def Increasing : Prop :=
  ∀ i j, StabAt stabs type lo hi i → StabAt stabs type lo hi j → i < j →
    (stabs i).nValue < (stabs j).nValue

variable (stabs type lo hi) in
/-- Where a stab is for the address itself, none is for the next address.  The
loop goes on with `addr++` after a match, and would match that one too. -/
def Apart (addr : UInt32) : Prop :=
  ∀ i, StabAt stabs type lo hi i → (stabs i).nValue = addr →
    addr.toNat + 1 < 2 ^ 32 ∧
      ∀ j, StabAt stabs type lo hi j → (stabs j).nValue ≠ addr + 1

variable (stabs type lo hi) in
/-- What the loop knows of the positions that it has left. -/
structure Searched (addr : UInt32) (search : StabSearch) : Prop where
  low : lo ≤ search.l
  high : search.r ≤ hi
  regionRight : search.regionRight = search.r
  left : ∀ i, StabAt stabs type lo hi i → i < search.l → (stabs i).nValue ≤ addr
  right : ∀ i, StabAt stabs type lo hi i → search.r < i →
    addr < (stabs i).nValue
  edge : search.r = hi ∨ StabAt stabs type lo hi (search.r + 1)
  regionLeft : search.regionLeft = lo ∨
    StabAt stabs type lo hi search.regionLeft ∧
      (stabs search.regionLeft).nValue ≤ addr
  none : search.anyMatches = false → search.r = hi ∧ search.regionLeft = lo ∧
    ∀ i, StabAt stabs type lo hi i → search.l ≤ i
  some : search.anyMatches = true → ∃ i, StabAt stabs type lo hi i
  addr : search.addr = addr ∨ search.addr = addr + 1 ∧
    ∃ i, StabAt stabs type lo hi i ∧ (stabs i).nValue = addr

theorem Searched.start :
    Searched stabs type lo hi addr ⟨lo, hi, false, addr, lo, hi⟩ where
  low := Int.le_refl lo
  high := Int.le_refl hi
  regionRight := rfl
  left _ at' below := absurd at'.low (Int.not_le.mpr below)
  right _ at' above := absurd at'.high (Int.not_le.mpr above)
  edge := .inl rfl
  regionLeft := .inl rfl
  none _ := ⟨rfl, rfl, fun _ at' => at'.low⟩
  some := nofun
  addr := .inl rfl

/-- The address that the loop looks for is `addr` or the next one. -/
theorem Searched.bounds {search : StabSearch}
    (searched : Searched stabs type lo hi addr search)
    (apart : Apart stabs type lo hi addr) :
    addr ≤ search.addr ∧ ∀ value, value < search.addr → value ≤ addr := by
  rcases searched.addr with same | ⟨same, i, stab, isAddr⟩
  · rw [same]
    exact ⟨UInt32.le_refl addr, fun _ => UInt32.le_of_lt⟩
  · have next : (addr + 1).toNat = addr.toNat + 1 := by
      rw [UInt32.toNat_add, show (1 : UInt32).toNat = 1 from rfl,
        Nat.mod_eq_of_lt (apart i stab isAddr).1]
    rw [same, UInt32.le_iff_toNat_le, next]
    refine ⟨Nat.le_succ _, fun value below => ?_⟩
    rw [UInt32.lt_iff_toNat_lt, next] at below
    rw [UInt32.le_iff_toNat_le]
    exact Nat.le_of_lt_succ below

theorem StabSearch.Found.at {search : StabSearch} {m trueM : Int}
    (found : search.Found stabs type m trueM)
    (searched : Searched stabs type lo hi addr search) :
    StabAt stabs type lo hi m :=
  ⟨Int.le_trans searched.low found.low,
    Int.le_trans found.le (Int.le_trans found.high searched.high), found.isType⟩

/-- Up to the stab that was found, the stabs have smaller addresses. -/
theorem StabSearch.Found.le_of_le {search : StabSearch} {m trueM : Int}
    (found : search.Found stabs type m trueM)
    (searched : Searched stabs type lo hi addr search)
    (increasing : Increasing stabs type lo hi) {i : Int}
    (at' : StabAt stabs type lo hi i) (le : i ≤ trueM) :
    (stabs i).nValue ≤ (stabs m).nValue := by
  rcases Int.lt_trichotomy i m with less | same | more
  · exact UInt32.le_of_lt (increasing i m at' (found.at searched) less)
  · rw [same]
    exact UInt32.le_refl _
  · exact absurd at'.isType (found.last i more le)

theorem Searched.moves {search after : StabSearch}
    (searched : Searched stabs type lo hi addr search)
    (increasing : Increasing stabs type lo hi)
    (apart : Apart stabs type lo hi addr)
    (moves : search.Moves stabs type after) :
    Searched stabs type lo hi addr after := by
  obtain ⟨atLeast, atMost⟩ := searched.bounds apart
  cases moves with
  | skips trueM low high skipped =>
      have beyond : ∀ i, StabAt stabs type lo hi i → search.l ≤ i →
          trueM + 1 ≤ i := by
        intro i at' le
        by_contra below
        exact skipped i le (by omega) at'.isType
      exact { searched with
        low := by
          have := searched.low
          change lo ≤ trueM + 1
          omega
        left := by
          intro i at' below
          change i < trueM + 1 at below
          refine searched.left i at' ?_
          by_contra above
          exact absurd (beyond i at' (by omega)) (by omega)
        none := by
          intro nothing
          obtain ⟨isHi, isLo, above⟩ := searched.none nothing
          exact ⟨isHi, isLo, fun i at' => beyond i at' (above i at')⟩ }
  | goesRight m trueM found less =>
      have small := atMost _ less
      exact { searched with
        low := by
          have := (found.at searched).low
          have := found.le
          change lo ≤ trueM + 1
          omega
        left := fun i at' below => UInt32.le_trans
          (found.le_of_le searched increasing at' (Int.lt_add_one_iff.mp below))
          small
        regionLeft := .inr ⟨found.at searched, small⟩
        none := nofun
        some := fun _ => ⟨m, found.at searched⟩ }
  | goesLeft m trueM found greater =>
      have large := UInt32.lt_of_le_of_lt atLeast greater
      have at' := found.at searched
      exact { searched with
        high := by
          change m - 1 ≤ hi
          have := at'.high
          omega
        regionRight := rfl
        right := by
          intro i at'' above
          change m - 1 < i at above
          by_cases first : i = m
          · rw [first]
            exact large
          · exact UInt32.lt_trans large
              (increasing m i at' at'' (by omega))
        edge := .inr (by
          change StabAt stabs type lo hi (m - 1 + 1)
          rwa [Int.sub_add_cancel])
        none := nofun
        some := fun _ => ⟨m, at'⟩ }
  | hits m trueM found isAddr =>
      have at' := found.at searched
      have same : search.addr = addr := by
        rcases searched.addr with same | ⟨next, i, atI, isI⟩
        · exact same
        · exact absurd (isAddr.trans next) ((apart i atI isI).2 m at')
      rw [same] at isAddr
      exact { searched with
        low := at'.low
        left := fun i at'' below => by
          rw [← isAddr]
          exact UInt32.le_of_lt (increasing i m at'' at' below)
        regionLeft := .inr ⟨at', isAddr ▸ UInt32.le_refl _⟩
        none := nofun
        some := fun _ => ⟨m, at'⟩
        addr := .inr ⟨by rw [same], m, at', isAddr⟩ }

theorem Searched.loop {search : StabSearch}
    (searched : Searched stabs type lo hi addr search)
    (increasing : Increasing stabs type lo hi)
    (apart : Apart stabs type lo hi addr) :
    Searched stabs type lo hi addr (stabLoop stabs type search) ∧
      (stabLoop stabs type search).r < (stabLoop stabs type search).l := by
  fun_induction stabLoop stabs type search with
  | case1 search le induction =>
      exact induction
        (searched.moves increasing apart (search.next_moves le))
  | case2 search crossed => exact ⟨searched, Int.not_le.mp crossed⟩

variable (stabs type lo hi addr) in
/-- The range that `stab_binsearch` stores begins with the last stab for an
address up to `addr` and ends in front of the next one. -/
structure Contains (region : Int × Int) : Prop where
  stab : StabAt stabs type lo hi region.1
  value : (stabs region.1).nValue ≤ addr
  le : region.1 ≤ region.2
  high : region.2 ≤ hi
  later : ∀ i, StabAt stabs type lo hi i → region.1 < i →
    region.2 < i ∧ addr < (stabs i).nValue
  edge : region.2 = hi ∨ StabAt stabs type lo hi (region.2 + 1)

theorem Searched.contains {search : StabSearch}
    (searched : Searched stabs type lo hi addr search)
    (crossed : search.r < search.l) {k : Int}
    (stab : StabAt stabs type lo hi k) (value : (stabs k).nValue ≤ addr) :
    search.anyMatches = true ∧ Contains stabs type lo hi addr
      (searchBack stabs type (search.regionLeft + 1) search.regionRight,
        search.regionRight) := by
  have inside : ∀ i, StabAt stabs type lo hi i → (stabs i).nValue ≤ addr →
      i ≤ search.r := by
    intro i at' small
    by_contra above
    exact UInt32.not_lt.mpr small (searched.right i at' (by omega))
  have before := inside k stab value
  have matched : search.anyMatches = true := by
    by_contra nothing
    obtain ⟨_, _, above⟩ := searched.none (Bool.eq_false_iff.mpr nothing)
    have := above k stab
    omega
  refine ⟨matched, ?_⟩
  rw [searched.regionRight]
  have isLow := stab.low
  have atMost : search.regionLeft ≤ search.r := by
    rcases searched.regionLeft with isLo | ⟨at', small⟩
    · omega
    · exact inside _ at' small
  have low : lo ≤ search.regionLeft := by
    rcases searched.regionLeft with isLo | ⟨at', _⟩
    · omega
    · exact at'.low
  have le := @searchBack_le stabs type (search.regionLeft + 1) search.r
  have ge := @le_searchBack stabs type (search.regionLeft + 1) search.r (by omega)
  have skips := @searchBack_skips stabs type (search.regionLeft + 1) search.r
  have isType : (stabs (searchBack stabs type (search.regionLeft + 1)
      search.r)).nType = type := by
    by_cases first : search.regionLeft + 1 ≤
        searchBack stabs type (search.regionLeft + 1) search.r
    · exact searchBack_type first
    · have same : searchBack stabs type (search.regionLeft + 1) search.r =
          search.regionLeft := by omega
      rw [same] at skips ⊢
      rcases searched.regionLeft with isLo | ⟨at', _⟩
      · have isK : search.regionLeft = k := by
          by_contra different
          exact skips k (by omega) before stab.isType
        rw [isK]
        exact stab.isType
      · exact at'.isType
  generalize searchBack stabs type (search.regionLeft + 1) search.r = m at *
  have at' : StabAt stabs type lo hi m :=
    ⟨by omega, Int.le_trans le searched.high, isType⟩
  have later : ∀ i, StabAt stabs type lo hi i → m < i → search.r < i := by
    intro i at'' above
    by_contra below
    exact skips i above (by omega) at''.isType
  exact {
    stab := at'
    value := searched.left m at' (by omega)
    le := le
    high := searched.high
    later := fun i at'' above => ⟨later i at'' above,
      searched.right i at'' (later i at'' above)⟩
    edge := searched.edge }

/-- Where every stab is for a later address, the range ends in front of the
first one. -/
theorem Searched.misses {search : StabSearch}
    (searched : Searched stabs type lo hi addr search)
    (crossed : search.r < search.l)
    (later : ∀ i, StabAt stabs type lo hi i → addr < (stabs i).nValue) :
    search.regionLeft = lo ∧ (∀ i, StabAt stabs type lo hi i → search.r < i) ∧
      (search.anyMatches = true → StabAt stabs type lo hi (search.r + 1) ∧
        searchBack stabs type (lo + 1) search.r = min lo search.r) := by
  have isLo : search.regionLeft = lo := by
    rcases searched.regionLeft with isLo | ⟨at', small⟩
    · exact isLo
    · exact absurd (later _ at') (UInt32.not_lt.mpr small)
  have above : ∀ i, StabAt stabs type lo hi i → search.r < i := by
    intro i at'
    by_contra below
    exact UInt32.not_lt.mpr (searched.left i at' (by omega)) (later i at')
  refine ⟨isLo, above, fun matched => ?_⟩
  obtain ⟨i, at'⟩ := searched.some matched
  have next : StabAt stabs type lo hi (search.r + 1) := by
    rcases searched.edge with isHi | next
    · have := above i at'
      have := at'.high
      omega
    · exact next
  refine ⟨next, ?_⟩
  have low := next.low
  have le := @searchBack_le stabs type (lo + 1) search.r
  by_cases empty : search.r < lo
  · rw [searchBack, if_neg (by omega)]
    omega
  · have ge := @le_searchBack stabs type (lo + 1) search.r (by omega)
    have last : ¬ lo + 1 ≤ searchBack stabs type (lo + 1) search.r := by
      intro inside
      have at'' : StabAt stabs type lo hi
          (searchBack stabs type (lo + 1) search.r) :=
        ⟨by omega, Int.le_trans le searched.high, searchBack_type inside⟩
      have := above _ at''
      omega
    omega

/-- What `stab_binsearch` finds among stabs in increasing order. -/
theorem stabBinsearch_contains (increasing : Increasing stabs type lo hi)
    (apart : Apart stabs type lo hi addr) :
    ((∃ i, StabAt stabs type lo hi i ∧ (stabs i).nValue ≤ addr) →
      Contains stabs type lo hi addr (stabBinsearch stabs type lo hi addr)) ∧
    ((∀ i, ¬ StabAt stabs type lo hi i) →
      stabBinsearch stabs type lo hi addr = (lo, lo - 1)) ∧
    ∀ first, StabAt stabs type lo hi first →
      (∀ i, StabAt stabs type lo hi i →
        first ≤ i ∧ addr < (stabs i).nValue) →
      stabBinsearch stabs type lo hi addr = (min lo (first - 1), first - 1) := by
  obtain ⟨searched, crossed⟩ :=
    (@Searched.start stabs type lo hi addr).loop increasing apart
  unfold stabBinsearch
  dsimp only
  generalize stabLoop stabs type ⟨lo, hi, false, addr, lo, hi⟩ = search at *
  refine ⟨?_, fun nothing => ?_, fun first stab later => ?_⟩
  · rintro ⟨k, stab, value⟩
    obtain ⟨matched, contains⟩ := searched.contains crossed stab value
    rw [if_pos matched]
    exact contains
  · have unmatched : search.anyMatches = false := by
      by_contra matched
      obtain ⟨i, at'⟩ := searched.some (Bool.not_eq_false _ ▸ matched)
      exact nothing i at'
    obtain ⟨isLo, _⟩ := searched.misses crossed fun i at' => absurd at' (nothing i)
    rw [unmatched, if_neg Bool.false_ne_true, isLo]
  · obtain ⟨isLo, above, matches'⟩ :=
      searched.misses crossed fun i at' => (later i at').2
    have matched : search.anyMatches = true := by
      by_contra unmatched
      obtain ⟨isHi, _, _⟩ := searched.none (Bool.eq_false_iff.mpr unmatched)
      have := above first stab
      have := stab.high
      omega
    obtain ⟨next, isMin⟩ := matches' matched
    have isFirst : search.r = first - 1 := by
      have := (later _ next).1
      have := above first stab
      omega
    rw [if_pos matched, isLo, searched.regionRight, isMin, isFirst]

/-- Stabs of two types in turn, one for every sixteenth address. -/
def alternatingStabs (i : Int) : Stab where
  nType := if i % 2 = 0 then 0x64 else 0x24
  nValue := UInt32.ofNat (16 * i.toNat)

theorem alternatingStabs_value {i : Int} (low : 0 ≤ i) (high : i ≤ 4) :
    (alternatingStabs i).nValue.toNat = 16 * i.toNat :=
  UInt32.toNat_ofNat_of_lt' (by change 16 * i.toNat < 2 ^ 32; omega)

theorem stabBinsearch_alternating :
    let region := stabBinsearch alternatingStabs 0x64 0 4 32
    Contains alternatingStabs 0x64 0 4 32 region := by
  refine (stabBinsearch_contains ?_ ?_).1
    ⟨0, ⟨by decide, by decide, rfl⟩, by decide⟩
  · intro i j first second less
    rw [UInt32.lt_iff_toNat_lt, alternatingStabs_value first.low first.high,
      alternatingStabs_value second.low second.high]
    have := first.low
    omega
  · refine fun _ _ _ => ⟨by decide, fun j second next => ?_⟩
    have value := alternatingStabs_value second.low second.high
    rw [next, show (32 + 1 : UInt32).toNat = 33 from rfl] at value
    omega

end FeaturesOS.Scheduler

import FeaturesOS.Scheduler.BootMap

/-!
# Large pages and small pages

`boot_map_region` maps the same addresses to the same addresses with the same
permissions, with large pages and without them.
-/

namespace FeaturesOS.Scheduler

namespace PhysMem

variable {start mem next : PhysMem} {free : List Nat} {d : Nat} {va : UInt32}
variable {v p m k n q : Nat} {perm : UInt32}

/-- The result of a mapping: where the addresses of the pages lead, and which
entries of the directory stay. -/
structure Translates (mem next : PhysMem) (pgdir : Nat) (va size pa perm : UInt32) :
    Prop where
  address : ∀ offset : UInt32, offset < size → offset % 4096 = 0 →
    next.checkVa2pa pgdir (va + offset) = some (pa + offset)
  access : ∀ offset : UInt32, offset < size → offset % 4096 = 0 →
    next.access pgdir (va + offset) = some
      { pa := pa + offset
        user := perm &&& pteU ≠ 0
        write := perm &&& pteW ≠ 0 }
  outside : ∀ index, ¬ Covers va size index →
    next.ram pgdir index = mem.ram pgdir index

/-- Two mappings agree about a region, and neither changes an entry outside of
it. -/
structure Agree (mem large plain : PhysMem) (pgdir : Nat) (va size : UInt32) :
    Prop where
  address : ∀ offset : UInt32, offset < size → offset % 4096 = 0 →
    large.checkVa2pa pgdir (va + offset) = plain.checkVa2pa pgdir (va + offset)
  access : ∀ offset : UInt32, offset < size → offset % 4096 = 0 →
    large.access pgdir (va + offset) = plain.access pgdir (va + offset)
  present : ∀ offset : UInt32, offset < size → offset % 4096 = 0 →
    plain.access pgdir (va + offset) ≠ none
  outside : ∀ index, ¬ Covers va size index →
    large.ram pgdir index = mem.ram pgdir index ∧
      plain.ram pgdir index = mem.ram pgdir index

/-! ## The loop over the large pages -/

/-- The first `m` entries of the region are large pages. -/
structure Enlarged (start mem : PhysMem) (d v p : Nat) (perm : UInt32)
    (m : Nat) : Prop where
  ram : ∀ i, mem.ram d i =
    if v / 1024 ≤ i ∧ i < v / 1024 + m then
      page2pa (p + (i * 1024 - v)) ||| (perm ||| pteP ||| ptePs)
    else start.ram d i
  supplied : ∀ free, start.FreePages free → mem.FreePages free

theorem lpgOff_page2pa (addressable : p < 2 ^ 20) :
    lpgOff (page2pa p) = 0 ↔ p % 1024 = 0 := by
  have isRest : (lpgOff (page2pa p)).toNat = p * 4096 % 2 ^ 22 := by
    unfold lpgOff
    rw [UInt32.toNat_and, page2pa_toNat addressable]
    exact Nat.and_two_pow_sub_one_eq_mod _ 22
  rw [← UInt32.toNat_inj, isRest]
  change p * 4096 % 2 ^ 22 = 0 ↔ _
  omega

theorem lpgSize_le (addressable : n < 2 ^ 20) :
    page2pa n ≥ lpgSize ↔ 1024 ≤ n := by
  rw [ge_iff_le, UInt32.le_iff_toNat_le, page2pa_toNat addressable]
  change 4194304 ≤ _ ↔ _
  omega

/-- A round of the loop. -/
theorem Enlarged.step (enlarged : Enlarged start mem d v p perm m)
    (aligned : v % 1024 = 0) (inside : v + 1024 * m < 2 ^ 20) :
    Enlarged start (mem.store ⟨d, pdx (page2pa (v + 1024 * m))⟩
      (page2pa (p + 1024 * m) ||| perm ||| pteP ||| ptePs)) d v p perm
      (m + 1) := by
  have isPdx : pdx (page2pa (v + 1024 * m)) = v / 1024 + m := by
    rw [pdx_page2pa inside]
    omega
  refine ⟨?_, fun free supplied => (enlarged.supplied free supplied).store _ _⟩
  intro i
  rw [isPdx]
  by_cases isHere : i = v / 1024 + m
  · subst isHere
    have offset : (v / 1024 + m) * 1024 - v = 1024 * m := by omega
    rw [ram_store_self, if_pos (by omega), offset, UInt32.or_assoc,
      UInt32.or_assoc, UInt32.or_assoc]
  · have sameRange : (v / 1024 ≤ i ∧ i < v / 1024 + (m + 1)) ↔
        (v / 1024 ≤ i ∧ i < v / 1024 + m) := by omega
    rw [ram_store_index isHere, enlarged.ram, if_congr sameRange rfl rfl]

/-- The rounds of the loop, when both addresses are aligned.  The induction is on
the rounds, with `k` pages left. -/
theorem Enlarged.run {rounds : Nat} (enlarged : Enlarged start mem d v p perm m)
    (aligned : v % 1024 = 0) (alignedPa : p % 1024 = 0)
    (inside : v + n ≤ 2 ^ 20) (target : p + n ≤ 2 ^ 20) (small : n < 2 ^ 20)
    (isLeft : 1024 * m + k = n) (enough : k / 1024 ≤ rounds) :
    ∃ last, mapLarge d perm rounds
        ⟨mem, page2pa (v + 1024 * m), page2pa k, page2pa (p + 1024 * m)⟩ =
      ⟨last, page2pa (v + 1024 * (n / 1024)), page2pa (n - 1024 * (n / 1024)),
        page2pa (p + 1024 * (n / 1024))⟩ ∧
      Enlarged start last d v p perm (n / 1024) := by
  induction rounds generalizing mem m k with
  | zero =>
      have isAll : m = n / 1024 := by omega
      have isRest : k = n - 1024 * (n / 1024) := by omega
      subst isAll
      rw [← isRest]
      exact ⟨mem, rfl, enlarged⟩
  | succ rounds induction =>
      rw [mapLarge]
      dsimp only
      by_cases more : 1024 ≤ k
      · have sizes : page2pa k - lpgSize = page2pa (k - 1024) := by
          have split := page2pa_add (k - 1024) 1024
          rw [Nat.sub_add_cancel more] at split
          rw [← split]
          exact UInt32.add_sub_cancel _ _
        have moves : ∀ page, page2pa (page + 1024 * m) + lpgSize =
            page2pa (page + 1024 * (m + 1)) := by
          intro page
          rw [Nat.mul_succ, ← Nat.add_assoc]
          exact page2pa_add (page + 1024 * m) 1024
        have fits : lpgOff (page2pa (v + 1024 * m)) = 0 ∧
            page2pa k ≥ lpgSize ∧ lpgOff (page2pa (p + 1024 * m)) = 0 := by
          rw [lpgOff_page2pa (by omega), lpgSize_le (by omega),
            lpgOff_page2pa (by omega)]
          omega
        rw [if_pos fits, sizes, moves, moves]
        exact induction (enlarged.step aligned (by omega)) (by omega) (by omega)
      · have isAll : m = n / 1024 := by omega
        have isRest : k = n - 1024 * (n / 1024) := by omega
        have done : ¬ (lpgOff (page2pa (v + 1024 * m)) = 0 ∧
            page2pa k ≥ lpgSize ∧ lpgOff (page2pa (p + 1024 * m)) = 0) := by
          rw [lpgSize_le (by omega)]
          exact fun fits => more fits.2.1
        rw [if_neg done]
        subst isAll
        rw [← isRest]
        exact ⟨mem, rfl, enlarged⟩

/-- What the large pages take from a region. -/
theorem mapLarge_maps (mem : PhysMem) (d : Nat) (perm : UInt32)
    (inside : v + n ≤ 2 ^ 20) (target : p + n ≤ 2 ^ 20) (small : n < 2 ^ 20) :
    ∃ m last, mapLarge d perm ((page2pa n).toNat / 2 ^ 22)
        ⟨mem, page2pa v, page2pa n, page2pa p⟩ =
      ⟨last, page2pa (v + 1024 * m), page2pa (n - 1024 * m),
        page2pa (p + 1024 * m)⟩ ∧
      Enlarged mem last d v p perm m ∧ 1024 * m ≤ n ∧
      (0 < m → v % 1024 = 0 ∧ p % 1024 = 0) := by
  have initially : Enlarged mem mem d v p perm 0 :=
    ⟨fun i => (if_neg (by omega)).symm, fun _ supplied => supplied⟩
  have isRounds : (page2pa n).toNat / 2 ^ 22 = n / 1024 := by
    rw [page2pa_toNat small]
    omega
  rw [isRounds]
  by_cases aligned : v % 1024 = 0 ∧ p % 1024 = 0
  · obtain ⟨last, maps, enlarged⟩ := initially.run aligned.1 aligned.2 inside
      target small (Nat.zero_add n) (Nat.le_refl (n / 1024))
    exact ⟨n / 1024, last, maps, enlarged, by omega, fun _ => aligned⟩
  · refine ⟨0, mem, ?_, initially, Nat.zero_le _, fun no => absurd no (by omega)⟩
    cases rounds : n / 1024 with
    | zero => rfl
    | succ rest =>
        rw [mapLarge]
        dsimp only
        refine if_neg fun fits => aligned ?_
        exact ⟨(lpgOff_page2pa (by omega)).mp fits.1,
          (lpgOff_page2pa (by omega)).mp fits.2.2⟩

/-! ## Reading a large page -/

theorem largeFlags (perm : UInt32) :
    (perm ||| pteP ||| ptePs) &&& pteP ≠ 0 ∧
      (perm ||| pteP ||| ptePs) &&& ptePs ≠ 0 := by
  constructor
  · rw [or_and]
    intro zero
    exact or_pteP_present perm (UInt32.or_eq_zero_iff.mp zero).1
  · rw [or_and]
    intro zero
    exact absurd (UInt32.or_eq_zero_iff.mp zero).2 (by decide)

section Entries

variable (isPde : mem.ram d (pdx va) =
  page2pa q ||| (perm ||| pteP ||| ptePs)) (target : q < 2 ^ 20)
  (alignedPa : q % 1024 = 0) (low : perm.toNat < 4096)

include isPde target alignedPa low

theorem pdx_large : pdx (mem.ram d (pdx va)) = q / 1024 ∧
    (mem.ram d (pdx va)).toNat / 2 ^ 13 % 2 ^ 9 = 0 := by
  have lowFlags : (perm ||| pteP ||| ptePs).toNat < 4096 := by
    rw [UInt32.toNat_or]
    exact @Nat.or_lt_two_pow _ _ 12 (or_pteP_lt low) (by decide)
  unfold pdx at isPde ⊢
  rw [isPde, page2pa_or target lowFlags]
  omega

/-- `check_va2pa` through a large page. -/
theorem checkVa2pa_of_large (aligned : va &&& 0xFFF = 0) :
    mem.checkVa2pa d va = some (page2pa (q + ptx va)) := by
  obtain ⟨present, isLarge⟩ := largeFlags perm
  have position : q / 1024 * 2 ^ 22 + ptx va * 2 ^ 12 =
      (q + ptx va) * 4096 := by omega
  have isAddress : pgAddr (q / 1024) (ptx va) = page2pa (q + ptx va) :=
    congrArg UInt32.ofNat position
  have isPdx := (pdx_large isPde target alignedPa low).1
  unfold checkVa2pa
  dsimp only
  rw [isPdx, isPde, page2pa_or_and (by decide), if_neg present,
    page2pa_or_and (by decide), if_pos isLarge, aligned, UInt32.or_zero,
    isAddress]

/-- The flags of the page are in the entry of the directory. -/
theorem access_of_large (aligned : va.toNat % 2 ^ 12 = 0) :
    mem.access d va = some
      { pa := page2pa (q + ptx va)
        user := perm &&& pteU ≠ 0
        write := perm &&& pteW ≠ 0 } := by
  obtain ⟨present, isLarge⟩ := largeFlags perm
  have position : q / 1024 * 2 ^ 22 + va.toNat % 2 ^ 22 =
      (q + ptx va) * 4096 := by
    unfold ptx
    omega
  have flag : ∀ mask : UInt32, pteP &&& mask = 0 → ptePs &&& mask = 0 →
      (perm ||| pteP ||| ptePs) &&& mask = perm &&& mask := by
    intro mask notPresent notLarge
    rw [or_and, or_and, notPresent, notLarge, UInt32.or_zero, UInt32.or_zero]
  obtain ⟨isPdx, noHigh⟩ := pdx_large isPde target alignedPa low
  unfold access
  dsimp only
  rw [isPdx, noHigh, position, isPde, page2pa_or_and (by decide),
    if_neg present, page2pa_or_and (by decide), if_pos isLarge,
    if_neg (not_not.mpr rfl), page2pa_or_and (by decide),
    page2pa_or_and (by decide), flag pteU rfl rfl, flag pteW rfl rfl]
  rfl

end Entries

/-! ## Both loops -/

/-- The result of both loops on page numbers. -/
structure Mapping (mem next : PhysMem) (d v n p : Nat) (perm : UInt32) :
    Prop where
  read : ∀ k < n, next.checkVa2pa d (page2pa (v + k)) = some (page2pa (p + k)) ∧
    next.access d (page2pa (v + k)) = some
      { pa := page2pa (p + k)
        user := perm &&& pteU ≠ 0
        write := perm &&& pteW ≠ 0 }
  outside : ∀ i, ¬ Under v n i → next.ram d i = mem.ram d i

/-- A page below one of the large pages. -/
theorem Enlarged.read (enlarged : Enlarged start mem d v p perm m)
    (same : ∀ i, i < v / 1024 + m → next.ram d i = mem.ram d i)
    (aligned : v % 1024 = 0) (alignedPa : p % 1024 = 0)
    (inside : v + 1024 * m ≤ 2 ^ 20) (target : p + 1024 * m ≤ 2 ^ 20)
    (low : perm.toNat < 4096) (below : k < 1024 * m) :
    next.checkVa2pa d (page2pa (v + k)) = some (page2pa (p + k)) ∧
      next.access d (page2pa (v + k)) = some
        { pa := page2pa (p + k)
          user := perm &&& pteU ≠ 0
          write := perm &&& pteW ≠ 0 } := by
  have isPdx : pdx (page2pa (v + k)) = (v + k) / 1024 := pdx_page2pa (by omega)
  have isPtx : ptx (page2pa (v + k)) = (v + k) % 1024 := ptx_page2pa (by omega)
  have isPde : next.ram d (pdx (page2pa (v + k))) =
      page2pa (p + ((v + k) / 1024 * 1024 - v)) |||
        (perm ||| pteP ||| ptePs) := by
    rw [isPdx, same _ (by omega), enlarged.ram, if_pos (by omega)]
  have address : p + ((v + k) / 1024 * 1024 - v) + ptx (page2pa (v + k)) =
      p + k := by
    rw [isPtx]
    omega
  have noOffset : page2pa (v + k) &&& 0xFFF = 0 := page2pa_and (by decide)
  have aligned' : (page2pa (v + k)).toNat % 2 ^ 12 = 0 := by
    rw [page2pa_toNat (by omega)]
    omega
  rw [← address]
  constructor
  · exact checkVa2pa_of_large isPde (by omega) (by omega) low noOffset
  · exact access_of_large isPde (by omega) (by omega) low aligned'

/-- The loop over the pages behind the one over the large pages. -/
theorem Enlarged.rest {last : PhysMem} (enlarged : Enlarged mem last d v p perm m)
    (taken : 1024 * m ≤ n) (aligned : 0 < m → v % 1024 = 0 ∧ p % 1024 = 0)
    (supplied : mem.FreePages free) (dirBusy : d ∉ free)
    (inside : v + n ≤ 2 ^ 20) (target : p + n ≤ 2 ^ 20) (small : n < 2 ^ 20)
    (low : perm.toNat < 4096) (empty : ∀ i, Under v n i → mem.ram d i = 0)
    (enough : tableCount v n ≤ free.length) :
    ∃ next, mapPages d (page2pa (v + 1024 * m)) (page2pa (n - 1024 * m))
        (page2pa (p + 1024 * m)) perm (2 ^ 20 + 1) last 0 = some next ∧
      Mapping mem next d v n p perm := by
  have noneLarge : ∀ i, Under (v + 1024 * m) (n - 1024 * m) i →
      Under v n i ∧ ¬ (v / 1024 ≤ i ∧ i < v / 1024 + m) := by
    intro i isUnder
    unfold Under at isUnder ⊢
    omega
  have initially : Mapped last last free (fun _ => 0) d (v + 1024 * m)
      (p + 1024 * m) perm 0 := by
    have nothing : Under (v + 1024 * m) 0 = fun _ => False := by
      funext i
      exact propext ⟨fun no => Nat.lt_irrefl 0 no.1, False.elim⟩
    refine ⟨?_, fun i no => absurd no.1 (Nat.lt_irrefl 0)⟩
    rw [nothing]
    exact tables_initial (enlarged.supplied free supplied) dirBusy _
  have fewer : tableCount (v + 1024 * m) (n - 1024 * m) ≤ free.length := by
    refine Nat.le_trans ?_ enough
    unfold tableCount
    split
    · exact Nat.zero_le _
    · rw [if_neg (by omega)]
      omega
  have stillEmpty : ∀ i, Under (v + 1024 * m) (n - 1024 * m) i →
      last.ram d i = 0 := by
    intro i isUnder
    obtain ⟨isOld, notLarge⟩ := noneLarge i isUnder
    rw [enlarged.ram, if_neg notLarge]
    exact empty i isOld
  have enoughRounds : n - 1024 * m < 2 ^ 20 + 1 := by omega
  obtain ⟨next, free', table, maps, mapped⟩ := initially.run (Nat.zero_add _)
    enoughRounds (by omega) (by omega) stillEmpty fewer
  refine ⟨next, maps, ?_, ?_⟩
  · intro k below
    by_cases isLarge : k < 1024 * m
    · obtain ⟨alignedVa, alignedPa⟩ := aligned (by omega)
      refine enlarged.read ?_ alignedVa alignedPa (by omega) (by omega) low isLarge
      intro i before
      exact mapped.tables.others i fun isUnder =>
        (noneLarge i isUnder).2 (by unfold Under at isUnder; omega)
    · have behind : k - 1024 * m < n - 1024 * m := by omega
      have read := mapped.read behind (by omega) (by omega) low
      have position : ∀ page, page + 1024 * m + (k - 1024 * m) = page + k := by
        omega
      rwa [position, position] at read
  · intro i isOutside
    have notUnder : ¬ Under (v + 1024 * m) (n - 1024 * m) i :=
      fun isUnder => isOutside (noneLarge i isUnder).1
    have notLarge : ¬ (v / 1024 ≤ i ∧ i < v / 1024 + m) := by
      intro isLarge
      refine isOutside ?_
      unfold Under
      omega
    rw [mapped.tables.others i notUnder, enlarged.ram, if_neg notLarge]

/-- `boot_map_region` on page numbers. -/
theorem bootMapRegion_pages (tp1Pse : Bool) (supplied : mem.FreePages free)
    (dirBusy : d ∉ free) (inside : v + n ≤ 2 ^ 20) (target : p + n ≤ 2 ^ 20)
    (small : n < 2 ^ 20) (low : perm.toNat < 4096)
    (empty : ∀ i, Under v n i → mem.ram d i = 0)
    (enough : tableCount v n ≤ free.length) :
    ∃ next, mem.bootMapRegion tp1Pse d (page2pa v) (page2pa n) (page2pa p) perm =
        some next ∧
      Mapping mem next d v n p perm := by
  cases tp1Pse with
  | false =>
      have initially : Enlarged mem mem d v p perm 0 :=
        ⟨fun i => (if_neg (by omega)).symm, fun _ supplied => supplied⟩
      exact initially.rest (Nat.zero_le n) (fun no => absurd no (by omega))
        supplied dirBusy inside target small low empty enough
  | true =>
      obtain ⟨m, last, maps, enlarged, taken, aligned⟩ :=
        mapLarge_maps mem d perm inside target small
      unfold bootMapRegion
      dsimp only
      rw [if_pos rfl, maps]
      exact enlarged.rest taken aligned supplied dirBusy inside target small low
        empty enough

/-! ## Regions -/

section Addresses

variable {size pa : UInt32}

theorem exists_page2pa (aligned : va % 4096 = 0) :
    ∃ page < 2 ^ 20, va = page2pa page := by
  have rest := congrArg UInt32.toNat aligned
  rw [UInt32.toNat_mod] at rest
  change va.toNat % 4096 = 0 at rest
  have bound := va.toNat_lt
  have small : va.toNat / 4096 < 2 ^ 20 := by omega
  refine ⟨va.toNat / 4096, small, UInt32.toNat_inj.mp ?_⟩
  rw [page2pa_toNat small]
  omega

theorem covers_page2pa (inside : v < 2 ^ 20) (small : n < 2 ^ 20) (index : Nat) :
    Covers (page2pa v) (page2pa n) index ↔ Under v n index := by
  unfold Covers Under
  rw [page2pa_toNat inside, page2pa_toNat small]
  constructor
  · rintro ⟨offset, below, rfl⟩
    omega
  · rintro ⟨positive, before, behind⟩
    refine ⟨index * 2 ^ 22 - v * 4096, by omega, by omega⟩

theorem tablesFor_page2pa (inside : v < 2 ^ 20) (small : n < 2 ^ 20) :
    tablesFor (page2pa v) (page2pa n) = tableCount v n := by
  have isZero : page2pa n = 0 ↔ n = 0 := by
    rw [← UInt32.toNat_inj, page2pa_toNat small]
    change n * 4096 = 0 ↔ _
    omega
  unfold tablesFor tableCount
  rw [if_congr isZero rfl rfl, page2pa_toNat inside, page2pa_toNat small]
  split
  · rfl
  · omega

/-- `boot_map_region` maps the pages of its region, compiled either way. -/
theorem bootMapRegion_maps (tp1Pse : Bool) (supplied : mem.FreePages free)
    (dirBusy : d ∉ free) (aligned : va % 4096 = 0) (alignedSize : size % 4096 = 0)
    (alignedPa : pa % 4096 = 0) (inside : va.toNat + size.toNat ≤ 2 ^ 32)
    (target : pa.toNat + size.toNat ≤ 2 ^ 32) (low : perm.toNat < 4096)
    (empty : ∀ index, Covers va size index → mem.ram d index = 0)
    (enough : tablesFor va size ≤ free.length) :
    ∃ next, mem.bootMapRegion tp1Pse d va size pa perm = some next ∧
      Translates mem next d va size pa perm := by
  obtain ⟨v, vSmall, rfl⟩ := exists_page2pa aligned
  obtain ⟨n, nSmall, rfl⟩ := exists_page2pa alignedSize
  obtain ⟨p, pSmall, rfl⟩ := exists_page2pa alignedPa
  rw [page2pa_toNat vSmall, page2pa_toNat nSmall] at inside
  rw [page2pa_toNat pSmall, page2pa_toNat nSmall] at target
  rw [tablesFor_page2pa vSmall nSmall] at enough
  have covers := covers_page2pa vSmall nSmall
  obtain ⟨next, maps, mapping⟩ := bootMapRegion_pages tp1Pse supplied dirBusy
    (show v + n ≤ 2 ^ 20 by omega) (show p + n ≤ 2 ^ 20 by omega) nSmall low
    (fun i isUnder => empty i ((covers i).mpr isUnder)) enough
  have read : ∀ offset : UInt32, offset < page2pa n → offset % 4096 = 0 →
      ∃ k < n, page2pa v + offset = page2pa (v + k) ∧
        page2pa p + offset = page2pa (p + k) := by
    intro offset below isPage
    obtain ⟨k, kSmall, rfl⟩ := exists_page2pa isPage
    rw [UInt32.lt_iff_toNat_lt, page2pa_toNat kSmall, page2pa_toNat nSmall]
      at below
    exact ⟨k, by omega, page2pa_add v k, page2pa_add p k⟩
  refine ⟨next, maps, ?_, ?_, ?_⟩
  · intro offset below isPage
    obtain ⟨k, isBelow, isVa, isPa⟩ := read offset below isPage
    rw [isVa, isPa]
    exact (mapping.read k isBelow).1
  · intro offset below isPage
    obtain ⟨k, isBelow, isVa, isPa⟩ := read offset below isPage
    rw [isVa, isPa]
    exact (mapping.read k isBelow).2
  · intro index outside
    exact mapping.outside index fun isUnder => outside ((covers index).mpr isUnder)

/-- Compiled with `TP1_PSE` or without it, `boot_map_region` gives the same
translations. -/
theorem bootMapRegion_agrees (supplied : mem.FreePages free) (dirBusy : d ∉ free)
    (aligned : va % 4096 = 0) (alignedSize : size % 4096 = 0)
    (alignedPa : pa % 4096 = 0) (inside : va.toNat + size.toNat ≤ 2 ^ 32)
    (target : pa.toNat + size.toNat ≤ 2 ^ 32) (low : perm.toNat < 4096)
    (empty : ∀ index, Covers va size index → mem.ram d index = 0)
    (enough : tablesFor va size ≤ free.length) :
    ∃ large plain, mem.bootMapRegion true d va size pa perm = some large ∧
      mem.bootMapRegion false d va size pa perm = some plain ∧
      Agree mem large plain d va size := by
  obtain ⟨large, mapsLarge, isLarge⟩ := bootMapRegion_maps true supplied dirBusy
    aligned alignedSize alignedPa inside target low empty enough
  obtain ⟨plain, mapsPlain, isPlain⟩ := bootMapRegion_maps false supplied dirBusy
    aligned alignedSize alignedPa inside target low empty enough
  refine ⟨large, plain, mapsLarge, mapsPlain, ?_, ?_, ?_, ?_⟩
  · intro offset below isPage
    rw [isLarge.address offset below isPage, isPlain.address offset below isPage]
  · intro offset below isPage
    rw [isLarge.access offset below isPage, isPlain.access offset below isPage]
  · intro offset below isPage
    rw [isPlain.access offset below isPage]
    exact Option.some_ne_none _
  · intro index outside
    exact ⟨isLarge.outside index outside, isPlain.outside index outside⟩

end Addresses

/-- A memory of 16 pages, where the pages 1 and 2 are free. -/
def smallMemory : PhysMem :=
  { npages := 16
    pages := fun page => ⟨if page = 1 then some 2 else none, 0⟩
    pageFreeList := some 1
    ram := fun _ _ => 0 }

/-- Five megabytes from the beginning of the kernel on. -/
theorem bootMapRegion_agrees_five : ∃ large plain,
    smallMemory.bootMapRegion true 0 0xF0000000 0x500000 0 pteW = some large ∧
      smallMemory.bootMapRegion false 0 0xF0000000 0x500000 0 pteW =
        some plain ∧
      Agree smallMemory large plain 0 0xF0000000 0x500000 := by
  have supplied : smallMemory.FreePages [1, 2] :=
    ⟨⟨rfl, rfl, rfl⟩, by decide, by decide, by decide⟩
  exact bootMapRegion_agrees supplied (by decide) (by decide) (by decide)
    (by decide) (by decide) (by decide) (by decide) (fun _ _ => rfl) (by decide)

end PhysMem

end FeaturesOS.Scheduler

import FeaturesOS.Scheduler.Bystanders
import FeaturesOS.Scheduler.Multiprocessor
import FeaturesOS.Scheduler.PageMaps
import FeaturesOS.Scheduler.UserMemory

/-!
# Checks of user memory

When `user_mem_check`, which computes the end of the range in 32 bits, is right,
and what `sys_cputs` reads after it.
-/

namespace FeaturesOS.Scheduler

open Entry

/-! ## Rounding -/

theorem roundDown_toNat (va : UInt32) :
    (roundDown va).toNat = va.toNat / 4096 * 4096 := by
  have remainder : (va % 4096).toNat = va.toNat % 4096 := UInt32.toNat_mod va 4096
  unfold roundDown
  rw [UInt32.toNat_sub_of_le, remainder]
  · omega
  · rw [UInt32.le_iff_toNat_le, remainder]
    exact Nat.mod_le _ _

theorem roundUp_toNat (va : UInt32) :
    (roundUp va).toNat = (va.toNat + 4095) % 2 ^ 32 / 4096 * 4096 := by
  unfold roundUp
  rw [roundDown_toNat, UInt32.toNat_add]
  rfl

theorem utop_toNat : utop.toNat = 4005560320 := by decide

namespace PhysMem

variable {mem : PhysMem} {pgdir : Nat} {va va' len perm : UInt32} {pages : Nat}

/-- The entry of the address has all bits of `perm | PTE_P`. -/
def Grants (mem : PhysMem) (pgdir : Nat) (perm va : UInt32) : Prop :=
  ∃ pte, mem.tableEntry pgdir va = some (mem, some pte) ∧
    mem.load pte &&& (perm ||| pteP) = perm ||| pteP

/-- Addresses of one page have one entry. -/
theorem Grants.of_page (grants : mem.Grants pgdir perm va)
    (same : va.toNat / 4096 = va'.toNat / 4096) : mem.Grants pgdir perm va' := by
  have isTable : pdx va = pdx va' := by
    unfold pdx
    omega
  have isEntry : ptx va = ptx va' := by
    unfold ptx
    omega
  obtain ⟨pte, found, bits⟩ := grants
  refine ⟨pte, ?_, bits⟩
  rw [← found]
  unfold tableEntry
  rw [isTable, isEntry]

/-- What grants more grants less. -/
theorem Grants.mono {more : UInt32} (grants : mem.Grants pgdir more va)
    (fewer : (more ||| pteP) &&& (perm ||| pteP) = perm ||| pteP) :
    mem.Grants pgdir perm va := by
  obtain ⟨pte, found, bits⟩ := grants
  refine ⟨pte, found, ?_⟩
  rw [← fewer, ← UInt32.and_assoc, bits]

/-! ## The loop -/

theorem userMemCheckFrom_iff :
    mem.userMemCheckFrom pgdir perm pages va = some true ↔
      ∀ i < pages, mem.Grants pgdir perm (va + UInt32.ofNat (i * 4096)) := by
  induction pages generalizing va with
  | zero =>
      constructor
      · exact fun _ i below => absurd below (Nat.not_lt_zero i)
      · exact fun _ => rfl
  | succ pages induction =>
      have first : va + UInt32.ofNat (0 * 4096) = va := UInt32.add_zero va
      have later : ∀ i, va + 4096 + UInt32.ofNat (i * 4096) =
          va + UInt32.ofNat ((i + 1) * 4096) := by
        intro i
        rw [Nat.succ_mul, UInt32.ofNat_add, UInt32.add_assoc,
          UInt32.add_comm 4096]
        rfl
      unfold userMemCheckFrom
      rw [pgdirWalk_keep]
      cases found : mem.tableEntry pgdir va with
      | none =>
          constructor
          · intro impossible
            cases impossible
          · intro grants
            obtain ⟨pte, isEntry, _⟩ := grants 0 (by omega)
            rw [first, found] at isEntry
            cases isEntry
      | some walked =>
          obtain ⟨next, entry⟩ := walked
          have same := tableEntry_same found
          subst same
          cases entry with
          | none =>
              constructor
              · intro impossible
                cases impossible
              · intro grants
                obtain ⟨pte, isEntry, _⟩ := grants 0 (by omega)
                rw [first, found] at isEntry
                cases isEntry
          | some pte =>
              dsimp only [Option.bind_eq_bind, Option.bind_some]
              by_cases bits : next.load pte &&& (perm ||| pteP) = perm ||| pteP
              · rw [if_neg (not_not_intro bits), induction]
                constructor
                · intro rest i below
                  cases i with
                  | zero =>
                      rw [first]
                      exact ⟨pte, found, bits⟩
                  | succ i =>
                      rw [← later]
                      exact rest i (by omega)
                · intro grants i below
                  rw [later]
                  exact grants (i + 1) (by omega)
              · rw [if_pos bits]
                constructor
                · intro impossible
                  cases impossible
                · intro grants
                  obtain ⟨pte', isEntry, isBits⟩ := grants 0 (by omega)
                  rw [first, found] at isEntry
                  cases isEntry
                  exact absurd isBits bits

/-- The pages that `user_mem_check` looks at. -/
theorem userMemCheck_iff :
    mem.userMemCheck pgdir va len perm = some true ↔
      roundUp (va + len) ≤ utop ∧
        ∀ i < ((roundUp (va + len)).toNat - (roundDown va).toNat) / 4096,
          mem.Grants pgdir perm (roundDown va + UInt32.ofNat (i * 4096)) := by
  unfold userMemCheck
  dsimp only
  by_cases fits : roundUp (va + len) > utop
  · rw [if_pos fits]
    constructor
    · intro impossible
      cases impossible
    · intro both
      exact absurd fits (UInt32.not_lt.mpr both.1)
  · rw [if_neg fits]
    exact userMemCheckFrom_iff.trans
      ⟨fun grants => ⟨UInt32.not_lt.mp fits, grants⟩, fun both => both.2⟩

/-! ## When the check is right -/

/-- `user_mem_check` only accepts ranges below `UTOP` whose pages all have the
bits. -/
def ChecksRange (mem : PhysMem) (pgdir : Nat) (va len perm : UInt32) : Prop :=
  mem.userMemCheck pgdir va len perm = some true → ∀ k < len.toNat,
    va.toNat + k < utop.toNat ∧ mem.Grants pgdir perm (va + UInt32.ofNat k)

/-- The end of the range wraps around to an address below `UTOP`, and the pages
up to it, of which there is one at most, have the bits. -/
structure Evades (mem : PhysMem) (pgdir : Nat) (va len perm : UInt32) : Prop where
  wraps : 2 ^ 32 ≤ va.toNat + len.toNat + 4095
  below : roundUp (va + len) ≤ utop
  granted : roundUp (va + len) ≤ roundDown va ∨ mem.Grants pgdir perm va

theorem Evades.accepted (evades : mem.Evades pgdir va len perm) :
    mem.userMemCheck pgdir va len perm = some true := by
  rw [userMemCheck_iff]
  refine ⟨evades.below, ?_⟩
  intro i inside
  have len32 := len.toNat_lt
  have va32 := va.toNat_lt
  have wraps := evades.wraps
  have isHigh := roundUp_toNat (va + len)
  have isLow := roundDown_toNat va
  rw [UInt32.toNat_add] at isHigh
  rcases evades.granted with beneath | granted
  · rw [UInt32.le_iff_toNat_le] at beneath
    omega
  · have first : i = 0 := by omega
    subst first
    apply granted.of_page
    rw [show roundDown va + UInt32.ofNat (0 * 4096) = roundDown va from
      UInt32.add_zero _, isLow]
    omega

/-- A page of a range that does not wrap around. -/
theorem page_toNat {i : Nat} (fits : va.toNat / 4096 * 4096 + i * 4096 < 2 ^ 32) :
    (roundDown va + UInt32.ofNat (i * 4096)).toNat =
      va.toNat / 4096 * 4096 + i * 4096 := by
  rw [UInt32.toNat_add, roundDown_toNat, UInt32.toNat_ofNat']
  omega

/-- A range that does not wrap around is checked page by page. -/
theorem checksRange_of_fits
    (fits : va.toNat + len.toNat + 4095 < 2 ^ 32) :
    mem.ChecksRange pgdir va len perm := by
  intro accepted k inside
  obtain ⟨below, granted⟩ := userMemCheck_iff.mp accepted
  rw [UInt32.le_iff_toNat_le, utop_toNat] at below
  have isHigh := roundUp_toNat (va + len)
  have isLow := roundDown_toNat va
  rw [UInt32.toNat_add] at isHigh
  have address : (va + UInt32.ofNat k).toNat = va.toNat + k := by
    rw [UInt32.toNat_add, UInt32.toNat_ofNat']
    omega
  constructor
  · rw [utop_toNat]
    omega
  · have here := granted ((va.toNat + k) / 4096 - va.toNat / 4096) (by omega)
    apply here.of_page
    rw [address, page_toNat (by omega)]
    omega

/-- The check is right exactly when the end of the range does not evade it. -/
theorem checksRange_iff (some : len ≠ 0) :
    mem.ChecksRange pgdir va len perm ↔ ¬ mem.Evades pgdir va len perm := by
  have positive : 0 < len.toNat := by
    apply Nat.pos_of_ne_zero
    intro zero
    exact some (UInt32.toNat_inj.mp zero)
  constructor
  · intro checks evades
    have last := (checks evades.accepted (len.toNat - 1) (by omega)).1
    have wraps := evades.wraps
    rw [utop_toNat] at last
    omega
  · intro caught
    by_cases fits : va.toNat + len.toNat + 4095 < 2 ^ 32
    · exact checksRange_of_fits fits
    · intro accepted
      obtain ⟨below, granted⟩ := userMemCheck_iff.mp accepted
      refine absurd ⟨by omega, below, ?_⟩ caught
      by_cases beneath : roundUp (va + len) ≤ roundDown va
      · exact .inl beneath
      · right
        rw [UInt32.le_iff_toNat_le] at beneath
        have isHigh := roundUp_toNat (va + len)
        have isLow := roundDown_toNat va
        have here := granted 0 (by omega)
        apply here.of_page
        rw [show roundDown va + UInt32.ofNat (0 * 4096) = roundDown va from
          UInt32.add_zero _, isLow]
        omega

/-- A range of user addresses whose pages have the bits is accepted. -/
theorem userMemCheck_of_range (some : len ≠ 0)
    (range : ∀ k < len.toNat, va.toNat + k < utop.toNat ∧
      mem.Grants pgdir perm (va + UInt32.ofNat k)) :
    mem.userMemCheck pgdir va len perm = Option.some true := by
  have positive : 0 < len.toNat := by
    apply Nat.pos_of_ne_zero
    intro zero
    exact some (UInt32.toNat_inj.mp zero)
  have last := (range (len.toNat - 1) (by omega)).1
  rw [utop_toNat] at last
  have isHigh := roundUp_toNat (va + len)
  have isLow := roundDown_toNat va
  rw [UInt32.toNat_add] at isHigh
  rw [userMemCheck_iff]
  constructor
  · rw [UInt32.le_iff_toNat_le, utop_toNat]
    omega
  · intro i inside
    have within : va.toNat / 4096 * 4096 + i * 4096 < 2 ^ 32 := by omega
    have here := (range (va.toNat / 4096 * 4096 + i * 4096 - va.toNat)
      (by omega)).2
    apply here.of_page
    rw [page_toNat within, UInt32.toNat_add, UInt32.toNat_ofNat']
    omega

end PhysMem

/-! ## What `sys_cputs` reads -/

/-- The character that the kernel reads at a user address. -/
def PhysMem.charAt (mem : PhysMem) (pgdir : Nat) (va : UInt32) : UInt8 :=
  mem.byteAt (pteFrame (mem.ram (pteFrame (mem.ram pgdir (pdx va))) (ptx va)),
    va.toNat % 4096)

/-- The addresses that the loop of `vprintfmt` for `%s` reads: the character is
read before the precision is tested, and a negative precision is none. -/
inductive PrintReads (char : UInt32 → UInt8) : UInt32 → Int → UInt32 → Prop where
  | here (p : UInt32) (precision : Int) : PrintReads char p precision p
  | next {p va : UInt32} {precision : Int} : char p ≠ 0 →
      precision < 0 ∨ 0 ≤ precision - 1 →
      PrintReads char (p + 1)
        (if precision < 0 then precision else precision - 1) va →
      PrintReads char p precision va

theorem next_address (p : UInt32) (i : Nat) :
    p + 1 + UInt32.ofNat i = p + UInt32.ofNat (i + 1) := by
  rw [UInt32.add_assoc, UInt32.ofNat_add, UInt32.add_comm 1]
  rfl

/-- What the loop reads: up to a terminator, and one character more than the
precision allows to print. -/
theorem printReads_iff {char : UInt32 → UInt8} {p va : UInt32}
    {precision : Int} :
    PrintReads char p precision va ↔
      ∃ i : Nat, va = p + UInt32.ofNat i ∧
        (∀ k < i, char (p + UInt32.ofNat k) ≠ 0) ∧
        (0 ≤ precision → i ≤ precision) := by
  constructor
  · intro reads
    induction reads with
    | here p precision =>
        exact ⟨0, (UInt32.add_zero p).symm,
          fun k below => absurd below (Nat.not_lt_zero k), id⟩
    | @next p va precision nonzero more _ induction =>
        obtain ⟨i, rfl, unterminated, within⟩ := induction
        refine ⟨i + 1, next_address p i, ?_, fun positive => ?_⟩
        · intro k below
          cases k with
          | zero =>
              rw [show p + UInt32.ofNat 0 = p from UInt32.add_zero p]
              exact nonzero
          | succ k =>
              rw [← next_address]
              exact unterminated k (Nat.lt_of_succ_lt_succ below)
        · rw [if_neg (by omega)] at within
          have fewer := within (by omega)
          omega
  · rintro ⟨i, rfl, unterminated, within⟩
    induction i generalizing p precision with
    | zero =>
        rw [show p + UInt32.ofNat 0 = p from UInt32.add_zero p]
        exact .here p precision
    | succ i induction =>
        have first := unterminated 0 (Nat.succ_pos i)
        rw [show p + UInt32.ofNat 0 = p from UInt32.add_zero p] at first
        refine .next first (by omega) ?_
        rw [← next_address]
        apply induction
        · intro k below
          rw [next_address]
          exact unterminated (k + 1) (Nat.succ_lt_succ below)
        · intro positive
          by_cases unlimited : precision < 0
          · rw [if_pos unlimited] at positive
            omega
          · rw [if_neg unlimited]
            omega

variable {build : Build} {kernel : Kernel} {cpu current pgdir : Nat}
variable {s len va : UInt32}

/-- The flags that `sys_cputs` asks for. -/
def cputsPerm : UInt32 := pteP ||| pteW ||| pteU ||| pteU

/-- When `sys_cputs` prints a string, it reads only what the program could
read. -/
def Kernel.PrintsReadable (kernel : Kernel) (build : Build) (cpu pgdir : Nat)
    (s len : UInt32) : Prop :=
  ∀ next, sysCputs build cpu s len kernel = .returns () next → s ≠ 0 →
    ∀ va, PrintReads (next.mem.charAt pgdir) s len.toInt32.toInt va →
      next.mem.Grants pgdir pteU va

/-- No terminator stands in front of `s + i`. -/
def PhysMem.Unterminated (mem : PhysMem) (pgdir : Nat) (s : UInt32) (i : Nat) :
    Prop :=
  ∀ k < i, mem.charAt pgdir (s + UInt32.ofNat k) ≠ 0

/-- The string leads out of what the program can read.  The end of the range
evades the check, and an unreadable address comes before any terminator; or the
check has seen the whole range, which has no terminator, and the address behind it
is unreadable.  From 2^31 on, `len` is a negative precision and no limit. -/
inductive PhysMem.PrintsPast (mem : PhysMem) (pgdir : Nat) (s len : UInt32) :
    Prop where
  | evades {i : Nat} : s ≠ 0 → mem.Evades pgdir s len cputsPerm →
      mem.Unterminated pgdir s i → (len < 2147483648 → i ≤ len.toNat) →
      ¬ mem.Grants pgdir pteU (s + UInt32.ofNat i) → PrintsPast mem pgdir s len
  | unterminated {i : Nat} : s ≠ 0 →
      (∀ k < len.toNat, s.toNat + k < utop.toNat ∧
        mem.Grants pgdir cputsPerm (s + UInt32.ofNat k)) →
      mem.Unterminated pgdir s i → len.toNat ≤ i →
      (len < 2147483648 → i = len.toNat) →
      ¬ mem.Grants pgdir pteU (s + UInt32.ofNat i) → PrintsPast mem pgdir s len

/-- The precision is `len` unless that is negative as an `int`. -/
theorem precision_iff (len : UInt32) (i : Nat) :
    (0 ≤ len.toInt32.toInt → (i : Int) ≤ len.toInt32.toInt) ↔
      (len < 2147483648 → i ≤ len.toNat) := by
  have bound := len.toNat_lt
  have value : len.toInt32.toInt = if 2 * len.toNat < 4294967296 then
      (len.toNat : Int) else len.toNat - 4294967296 :=
    BitVec.toInt_eq_toNat_cond len.toBitVec
  have isShort : len < 2147483648 ↔ len.toNat < 2147483648 :=
    UInt32.lt_iff_toNat_lt
  rw [isShort, value]
  by_cases short : len.toNat < 2147483648
  · rw [if_pos (by omega)]
    exact ⟨fun within _ => Int.ofNat_le.mp (within (Int.natCast_nonneg _)),
      fun within _ => Int.ofNat_le.mpr (within short)⟩
  · rw [if_neg (by omega)]
    constructor
    · exact fun _ isShort => absurd isShort short
    · intro _ positive
      omega

theorem blindToScheduling_unit :
    BlindToScheduling (fun _ : Kernel => ()) where
  queues := ⟨fun _ _ => rfl, fun _ _ _ => rfl⟩
  curenv _ _ _ := rfl
  runs _ _ := rfl
  status _ _ _ := rfl
  counted _ _ := rfl
  dispatched _ _ _ := rfl

/-- The current environment does not survive its destruction. -/
theorem triple_envDestroy_current :
    Triple (fun kernel => kernel.cpus cpu = some current)
      (envDestroy build cpu current) (fun _ _ => False) (fun _ => True) := by
  refine .bind_read fun status => .bind_read fun curenv => ?_
  refine .strengthen (fun _ => curenv = some current ∧ True)
    (fun kernel holds => ⟨holds.2.symm.trans holds.1.1, trivial⟩) ?_
  refine .assuming fun isCurrent => ?_
  rw [if_neg fun both => both.2 isCurrent]
  have frees : Triple (fun _ => True) (envFree current) (fun _ _ => True)
      (fun _ => True) := by
    constructor
    intro kernel _
    cases envFree current kernel <;> trivial
  refine frees.bind fun _ => ?_
  rw [if_pos isCurrent]
  refine .bind_modify (fun _ => True) (fun _ _ => trivial) ?_
  exact triple_schedYield_blind blindToScheduling_unit fun _ => True

theorem sysCputs_run (isCurrent : kernel.cpus cpu = some current) :
    sysCputs build cpu s len kernel =
      match kernel.userMemCheck current s len cputsPerm with
      | none => .stops
      | some true => .returns () kernel
      | some false => envDestroy build cpu current kernel := by
  unfold sysCputs theCurenv userMemAssert
  rw [bind_assoc, read_bind_run, isCurrent]
  dsimp only
  rw [bind_run, pure_run]
  dsimp only
  rw [read_bind_run]
  change (match kernel.userMemCheck current s len cputsPerm with
    | none => Entry.stop
    | some true => Pure.pure ()
    | some false => envDestroy build cpu current : KernelM Unit) kernel = _
  match kernel.userMemCheck current s len cputsPerm with
  | none => rfl
  | some true => rfl
  | some false => rfl

/-- `sys_cputs` gets to print when the check accepts the string. -/
theorem sysCputs_returns_iff (isCurrent : kernel.cpus cpu = some current)
    (isDir : (kernel.envs current).envPgdir = some pgdir) {next : Kernel} :
    sysCputs build cpu s len kernel = .returns () next ↔
      next = kernel ∧
        kernel.mem.userMemCheck pgdir s len cputsPerm = some true := by
  have checks : kernel.userMemCheck current s len cputsPerm =
      kernel.mem.userMemCheck pgdir s len cputsPerm := by
    unfold Kernel.userMemCheck
    rw [isDir, Option.bind_some]
  rw [sysCputs_run isCurrent, checks]
  generalize kernel.mem.userMemCheck pgdir s len cputsPerm = checked
  match checked with
  | none =>
      constructor
      · intro impossible
        cases impossible
      · intro both
        cases both.2
  | some true =>
      constructor
      · intro same
        cases same
        exact ⟨rfl, rfl⟩
      · rintro ⟨rfl, _⟩
        rfl
  | some false =>
      constructor
      · intro returns
        have run := (@triple_envDestroy_current build cpu current).run kernel
          isCurrent
        dsimp only at returns
        rw [returns] at run
        exact run.elim
      · intro both
        cases both.2

/-- Every address of an accepted string that the loop reads can be read by the
program, or the string leads out of what it can read. -/
theorem printsReadable_iff (isCurrent : kernel.cpus cpu = some current)
    (isDir : (kernel.envs current).envPgdir = some pgdir) (some : len ≠ 0) :
    kernel.PrintsReadable build cpu pgdir s len ↔
      ¬ kernel.mem.PrintsPast pgdir s len := by
  constructor
  · intro readable past
    cases past with
    | @evades i isString evades unterminated within unreadable =>
        apply unreadable
        refine readable kernel ?_ isString _ (printReads_iff.mpr
          ⟨i, rfl, unterminated, (precision_iff len i).mpr within⟩)
        exact (sysCputs_returns_iff isCurrent isDir).mpr ⟨rfl, evades.accepted⟩
    | @unterminated i isString range unterminated _ isEnd unreadable =>
        apply unreadable
        refine readable kernel ?_ isString _ (printReads_iff.mpr
          ⟨i, rfl, unterminated, (precision_iff len i).mpr
            fun short => (isEnd short).le⟩)
        exact (sysCputs_returns_iff isCurrent isDir).mpr
          ⟨rfl, PhysMem.userMemCheck_of_range some range⟩
  · intro within next returns isString va reads
    obtain ⟨rfl, accepted⟩ := (sysCputs_returns_iff isCurrent isDir).mp returns
    obtain ⟨i, rfl, unterminated, isLast⟩ := printReads_iff.mp reads
    have isLast := (precision_iff len i).mp isLast
    by_contra unreadable
    apply within
    by_cases evades : next.mem.Evades pgdir s len cputsPerm
    · exact .evades isString evades unterminated isLast unreadable
    · have range := (PhysMem.checksRange_iff some).mpr evades accepted
      have behind : len.toNat ≤ i := by
        by_contra inside
        exact unreadable ((range i (by omega)).2.mono (by decide))
      exact .unterminated isString range unterminated behind
        (fun short => Nat.le_antisymm (isLast short) behind) unreadable

/-- `user_mem_check` is right, and `sys_cputs` only reads what the program could
read, unless the end of the range evades the check, or a string without a
terminator ends before an address that the program cannot read. -/
theorem userMemCheck_right_iff (build : Build)
    (isCurrent : kernel.cpus cpu = some current)
    (isDir : (kernel.envs current).envPgdir = some pgdir)
    (va len perm : UInt32) (some : len ≠ 0) :
    (kernel.mem.ChecksRange pgdir va len perm ↔
      ¬ kernel.mem.Evades pgdir va len perm) ∧
    (kernel.PrintsReadable build cpu pgdir va len ↔
      ¬ kernel.mem.PrintsPast pgdir va len) :=
  ⟨PhysMem.checksRange_iff some, printsReadable_iff isCurrent isDir some⟩

theorem userMemCheck_awake :
    let kernel := (TrapEvent.wake 0).after .roundRobin oneEnv
    (kernel.mem.ChecksRange 2 0xEEBFD000 8 pteU ↔
      ¬ kernel.mem.Evades 2 0xEEBFD000 8 pteU) ∧
    (kernel.PrintsReadable .roundRobin 0 2 0xEEBFD000 8 ↔
      ¬ kernel.mem.PrintsPast 2 0xEEBFD000 8) :=
  @userMemCheck_right_iff _ 0 0 2 .roundRobin (by decide +kernel)
    (by decide +kernel) _ _ _ (by decide)

theorem PhysMem.not_grants {mem : PhysMem} {perm : UInt32}
    (noTable : mem.ram pgdir (pdx va) = 0) : ¬ mem.Grants pgdir perm va := by
  rintro ⟨pte, found, _⟩
  unfold tableEntry at found
  dsimp only at found
  rw [if_pos noTable] at found
  cases found

/-- The last page of the address space passes as a range without pages, and
`sys_cputs` reads it. -/
theorem not_userMemCheck_right :
    (¬ ∀ (kernel : Kernel) (cpu current pgdir : Nat) (va len perm : UInt32),
      (smp .roundRobin).Reachable Machine.Unrestricted kernel →
      kernel.cpus cpu = some current →
      (kernel.envs current).envPgdir = some pgdir → len ≠ 0 →
      kernel.mem.ChecksRange pgdir va len perm) ∧
    ¬ ∀ (kernel : Kernel) (cpu current pgdir : Nat) (va len : UInt32),
      (smp .roundRobin).Reachable Machine.Unrestricted kernel →
      kernel.cpus cpu = some current →
      (kernel.envs current).envPgdir = some pgdir → len ≠ 0 →
      kernel.PrintsReadable .roundRobin cpu pgdir va len := by
  have goes : (TrapEvent.wake 0).Goes .roundRobin oneEnv := by decide +kernel
  have reachable : (smp .roundRobin).Reachable Machine.Unrestricted
      ((TrapEvent.wake 0).after .roundRobin oneEnv) :=
    boot_reachable trivial goes.step
  have evades : ∀ perm, ((TrapEvent.wake 0).after .roundRobin
      oneEnv).mem.Evades 2 0xFFFFF000 1 perm := fun _ =>
    ⟨by decide, by decide, .inl (by decide)⟩
  have current : ((TrapEvent.wake 0).after .roundRobin oneEnv).cpus 0 =
      some 0 := by
    decide +kernel
  have isDir : (((TrapEvent.wake 0).after .roundRobin oneEnv).envs 0).envPgdir =
      some 2 := by
    decide +kernel
  constructor
  · intro checks
    have right := checks _ 0 0 2 0xFFFFF000 1 pteU reachable current isDir
      (by decide)
    exact (PhysMem.checksRange_iff (by decide)).mp right (evades pteU)
  · intro readable
    have right := readable _ 0 0 2 0xFFFFF000 1 reachable current isDir
      (by decide)
    apply (printsReadable_iff current isDir (by decide)).mp right
    exact .evades (by decide) (evades cputsPerm)
      (fun k below => absurd below (Nat.not_lt_zero k)) (fun _ => Nat.zero_le _)
      (PhysMem.not_grants (by decide +kernel))

end FeaturesOS.Scheduler

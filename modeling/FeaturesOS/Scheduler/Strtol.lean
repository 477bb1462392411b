import FeaturesOS.Scheduler.EnvIds
import FeaturesOS.Scheduler.Printf

/-!
# Reading numbers

`strtol` of `lib/string.c`, and that it reads back what `vprintfmt` prints for a
number, whatever the width.  A `long` has 32 bits and wraps around, which `strtol`
does not detect.
-/

namespace FeaturesOS.Scheduler

/-- The value of a digit or a letter. -/
def digitOf (ch : UInt8) : Option Nat :=
  if '0'.toUInt8 ≤ ch ∧ ch ≤ '9'.toUInt8 then
    some (ch.toNat - '0'.toNat)
  else if 'a'.toUInt8 ≤ ch ∧ ch ≤ 'z'.toUInt8 then
    some (ch.toNat - 'a'.toNat + 10)
  else if 'A'.toUInt8 ≤ ch ∧ ch ≤ 'Z'.toUInt8 then
    some (ch.toNat - 'A'.toNat + 10)
  else
    none

/-- The loop of `strtol` over the digits, and what it leaves. -/
def strtolDigits (base : Nat) (val : Int32) :
    List UInt8 → Int32 × List UInt8
  | [] => (val, [])
  | ch :: s =>
      match digitOf ch with
      | none => (val, ch :: s)
      | some dig =>
          if base ≤ dig then
            (val, ch :: s)
          else
            strtolDigits base (val * Int32.ofNat base + Int32.ofNat dig) s

/-- The sign in front of a number. -/
def strtolSign : List UInt8 → Bool × List UInt8
  | [] => (false, [])
  | ch :: s =>
      if ch = '+'.toUInt8 then (false, s)
      else if ch = '-'.toUInt8 then (true, s)
      else (false, ch :: s)

/-- The prefix that chooses the base. -/
def strtolBase (base : Nat) (s : List UInt8) : Nat × List UInt8 :=
  if (base = 0 ∨ base = 16) ∧ s.headD 0 = '0'.toUInt8 ∧
      s.tail.headD 0 = 'x'.toUInt8 then
    (16, s.drop 2)
  else if base = 0 ∧ s.headD 0 = '0'.toUInt8 then (8, s.drop 1)
  else if base = 0 then (10, s)
  else (base, s)

def isBlank (ch : UInt8) : Bool := ch == ' '.toUInt8 || ch == '\t'.toUInt8

/-- `strtol`, with what `*endptr` points to. -/
def strtol (s : List UInt8) (base : Nat) : Int32 × List UInt8 :=
  let signed := strtolSign (s.dropWhile isBlank)
  let based := strtolBase base signed.2
  let read := strtolDigits based.1 0 based.2
  (if signed.1 then -read.1 else read.1, read.2)

/-! ## Digits -/

/-- A digit as `printnum` prints it. -/
def digitChar (digit : Nat) : UInt8 := (bytesOf "0123456789abcdef").getD digit 0

/-- What `printnum` prints without padding. -/
def numeral (base num : Nat) : List UInt8 :=
  if base ≤ num ∧ 1 < base then
    numeral base (num / base) ++ [digitChar (num % base)]
  else
    [digitChar (num % base)]
termination_by num
decreasing_by exact Nat.div_lt_self (by omega) (by omega)

theorem digitOf_digitChar {digit : Nat} (small : digit < 16) :
    digitOf (digitChar digit) = some digit := by
  revert small
  revert digit
  decide

theorem iterate_emit (ch : Int) (count : Nat) (out : List Int) :
    (fun out => out ++ [ch])^[count] out = out ++ List.replicate count ch := by
  induction count generalizing out with
  | zero => exact (List.append_nil out).symm
  | succ count induction =>
      rw [Function.iterate_succ_apply, induction, List.append_assoc]
      rfl

theorem printnum_emits (num base : Nat) (width padc : Int) (out : List Int) :
    printnum (fun ch out => out ++ [ch]) num base width padc out =
      out ++ (List.replicate (width - (numeral base num).length).toNat padc ++
        (numeral base num).map signedChar) := by
  induction num using Nat.strongRecOn generalizing width with
  | _ num induction =>
      rw [printnum, numeral]
      split
      · rename_i large
        rw [induction _ (Nat.div_lt_self (by omega) large.2), List.length_append,
          List.map_append, List.length_singleton]
        have sameWidth : width - 1 - (numeral base (num / base)).length =
            width - ((numeral base (num / base)).length + 1 : Nat) := by omega
        rw [sameWidth, List.append_assoc, List.append_assoc]
        rfl
      · rw [iterate_emit, List.append_assoc]
        rfl

theorem strtolDigits_cons {base digit : Nat} (small : digit < 16)
    (isDigit : digit < base) (val : Int32) (rest : List UInt8) :
    strtolDigits base val (digitChar digit :: rest) =
      strtolDigits base (val * Int32.ofNat base + Int32.ofNat digit) rest := by
  rw [strtolDigits, digitOf_digitChar small]
  exact if_neg (Nat.not_le.mpr isDigit)

/-- The loop reads a numeral. -/
theorem strtolDigits_numeral {base : Nat} (small : base ≤ 16) (large : 1 < base)
    (num : Nat) (rest : List UInt8) :
    strtolDigits base 0 (numeral base num ++ rest) =
      strtolDigits base (Int32.ofNat num) rest := by
  have last : num % base < base := Nat.mod_lt num (by omega)
  induction num using Nat.strongRecOn generalizing rest with
  | _ num induction =>
      rw [numeral]
      split
      · rw [List.append_assoc, induction _ (Nat.div_lt_self (by omega) large) _
          (Nat.mod_lt _ (by omega)), List.singleton_append,
          strtolDigits_cons (by omega) last, ← Int32.ofNat_mul, ← Int32.ofNat_add,
          Nat.div_add_mod']
      · have one : num % base = num := Nat.mod_eq_of_lt (by omega)
        rw [List.singleton_append, strtolDigits_cons (by omega) last, one,
          Int32.zero_mul, Int32.zero_add]

theorem strtolDigits_zeros {base : Nat} (large : 1 < base) (count : Nat)
    (rest : List UInt8) :
    strtolDigits base 0 (List.replicate count '0'.toUInt8 ++ rest) =
      strtolDigits base 0 rest := by
  induction count with
  | zero => rfl
  | succ count induction =>
      rw [List.replicate_succ, List.cons_append,
        show '0'.toUInt8 = digitChar 0 from rfl,
        strtolDigits_cons (by decide) (by omega), Int32.zero_mul]
      exact induction

/-- The loop stops in front of what is no digit. -/
theorem strtolDigits_stop {base : Nat} (val : Int32) {rest : List UInt8}
    (stops : ∀ ch ∈ rest.head?, digitOf ch = none) :
    strtolDigits base val rest = (val, rest) := by
  cases rest with
  | nil => rfl
  | cons ch rest => rw [strtolDigits, stops ch rfl]

/-! ## Numbers as `vprintfmt` prints them -/

/-- A conversion of 32-bit numbers. -/
inductive Conversion where
  | d
  | u
  | o
  | x

namespace Conversion

def ch : Conversion → UInt8
  | .d => 'd'.toUInt8
  | .u => 'u'.toUInt8
  | .o => 'o'.toUInt8
  | .x => 'x'.toUInt8

def base : Conversion → Base
  | .d | .u => .decimal
  | .o => .octal
  | .x => .hex

/-- The conversion prints a sign. -/
def negative (conversion : Conversion) (value : UInt32) : Bool :=
  match conversion with
  | .d => value.toInt32 < 0
  | _ => false

/-- The number that `printnum` prints. -/
def magnitude (conversion : Conversion) (value : UInt32) : Nat :=
  if conversion.negative value then (-value.toInt32.toInt).toNat else value.toNat

end Conversion

/-- The arguments of a conversion with a width. -/
def widthAndValue (width value : UInt32) : VaList :=
  fun i => if i = 0 then width else value

theorem reswitch_zeros (conversion : Conversion) (ap : VaList) :
    (reswitch .fresh ap ['%'.toUInt8] (bytesOf "0*" ++ [conversion.ch])) =
      ({ Escape.fresh with padc := '0'.toUInt8, width := ap.int.1 }, ap.int.2,
        ⟨(bytesOf "%0*").reverse, [conversion.ch]⟩) := by
  have isBytes : bytesOf "0*" ++ [conversion.ch] =
      ['0'.toUInt8, '*'.toUInt8, conversion.ch] := rfl
  rw [isBytes, reswitch, if_neg (by decide), if_pos rfl, reswitch,
    if_neg (by decide), if_neg (by decide), if_neg (by decide), if_pos rfl]
  cases conversion <;>
    · rw [reswitch, if_neg (by decide), if_neg (by decide), if_neg (by decide),
        if_neg (by decide), if_neg (by decide), if_neg (by decide),
        if_neg (by decide)]
      rfl

theorem toNat_of_nonneg {num : Int64} (nonneg : 0 ≤ num.toInt) :
    num.toUInt64.toNat = num.toInt.toNat := by
  have isInt := BitVec.toInt_eq_toNat_cond num.toBitVec
  change 0 ≤ num.toBitVec.toInt at nonneg
  change num.toBitVec.toNat = num.toBitVec.toInt.toNat
  have below := num.toBitVec.isLt
  split at isInt <;> omega

/-- A number as the `unsigned long long` that `printnum` gets. -/
theorem magnitude_int (value : UInt32) :
    (value.toInt32.toInt64.toUInt64.toInt64 < 0 ↔ value.toInt32 < 0) ∧
      (value.toInt32 < 0 → (-value.toInt32.toInt64.toUInt64).toNat =
        (-value.toInt32.toInt).toNat) ∧
      (¬ value.toInt32 < 0 →
        value.toInt32.toInt64.toUInt64.toNat = value.toNat) := by
  have isInt : value.toInt32.toInt64.toInt = value.toInt32.toInt :=
    Int32.toInt_toInt64 _
  have cond := toInt_toInt32 value
  have small := value.toNat_lt
  have isNegative : value.toInt32 < 0 ↔ value.toInt32.toInt < 0 :=
    Int32.lt_iff_toInt_lt
  refine ⟨?_, fun below => ?_, fun above => ?_⟩
  · rw [Int64.lt_iff_toInt_lt, isNegative]
    change value.toInt32.toInt64.toInt < 0 ↔ _
    rw [isInt]
  · rw [isNegative] at below
    have negated : (-value.toInt32.toInt64).toInt = -value.toInt32.toInt := by
      rw [Int64.toInt_neg, isInt]
      split at cond <;>
        exact Int.bmod_eq_of_le (by omega) (by omega)
    have swapped : -value.toInt32.toInt64.toUInt64 =
        (-value.toInt32.toInt64).toUInt64 := rfl
    rw [swapped, toNat_of_nonneg (by omega), negated]
  · rw [isNegative] at above
    rw [toNat_of_nonneg (by omega), isInt]
    split at cond <;> omega

variable {State : Type} {text : UInt32 → List UInt8}

theorem convert_number {printfmt :
      (UInt32 → List UInt8) → List UInt8 → VaList → State → State}
    {putch : Int → State → State} {putdat : State} {escape : Escape}
    (short : escape.lflag = 0) (conversion : Conversion) (ap : VaList) :
    convert text putch printfmt escape ap conversion.ch putdat =
      some (ap.word.2, printnum putch (conversion.magnitude ap.word.1)
        conversion.base.value escape.width escape.padc.toNat
        (if conversion.negative ap.word.1 then putch '-'.toNat putdat
          else putdat)) := by
  have isUint : getuint ap escape.lflag = (ap.word.1.toUInt64, ap.word.2) := by
    rw [short]
    rfl
  have isInt : getint ap escape.lflag =
      (ap.word.1.toInt32.toInt64.toUInt64, ap.word.2) := by
    rw [short]
    rfl
  have unsigned : ap.word.1.toUInt64.toNat = ap.word.1.toNat :=
    UInt32.toNat_toUInt64 _
  unfold convert
  cases conversion with
  | d =>
      obtain ⟨isNegative, negative, positive⟩ := magnitude_int ap.word.1
      rw [if_neg (by decide), if_neg (by decide), if_neg (by decide),
        if_pos (by decide), isInt]
      dsimp only
      unfold printSigned printNumber Conversion.magnitude Conversion.negative
      by_cases below : ap.word.1.toInt32 < 0
      · simp only [isNegative.mpr below, below, negative below, if_true,
          decide_true]
        rfl
      · simp only [mt isNegative.mp below, below, positive below, if_false,
          decide_false, Bool.false_eq_true]
        rfl
  | u =>
      rw [if_neg (by decide), if_neg (by decide), if_neg (by decide),
        if_neg (by decide), if_pos (by decide), isUint]
      dsimp only
      rw [printNumber, unsigned]
      rfl
  | o =>
      rw [if_neg (by decide), if_neg (by decide), if_neg (by decide),
        if_neg (by decide), if_neg (by decide), if_pos (by decide), isUint]
      dsimp only
      rw [printNumber, unsigned]
      rfl
  | x =>
      rw [if_neg (by decide), if_neg (by decide), if_neg (by decide),
        if_neg (by decide), if_neg (by decide), if_neg (by decide),
        if_neg (by decide), if_pos (by decide), isUint]
      dsimp only
      rw [printNumber, unsigned]
      rfl

/-- A conversion prints its sign and its padded number. -/
theorem emitted_zeros (text : UInt32 → List UInt8) (conversion : Conversion)
    (width value : UInt32) :
    (emitted text (bytesOf "%0*" ++ [conversion.ch])
        (widthAndValue width value)).map byteOf =
      let digits := numeral conversion.base.value (conversion.magnitude value)
      (if conversion.negative value then ['-'.toUInt8] else []) ++
        (List.replicate (width.toInt32.toInt - digits.length).toNat '0'.toUInt8 ++
          digits) := by
  have isFmt : bytesOf "%0*" ++ [conversion.ch] =
      '%'.toUInt8 :: (bytesOf "0*" ++ [conversion.ch]) := rfl
  unfold emitted vprintfmt
  rw [isFmt, formatWith, if_pos rfl]
  dsimp only
  rw [reswitch_zeros]
  dsimp only
  rw [List.headD_cons, convert_number rfl]
  dsimp only
  rw [List.tail_cons, formatWith, printnum_emits, List.map_append,
    List.map_append, List.map_replicate, List.map_map]
  have sameDigits : ∀ digits : List UInt8,
      digits.map (byteOf ∘ signedChar) = digits := fun digits =>
    (List.map_congr_left fun byte _ => byteOf_signedChar byte).trans
      (List.map_id digits)
  rw [sameDigits]
  change (if conversion.negative value = true then _ else _ : List Int).map byteOf
    ++ _ = _
  split <;> rfl

/-! ## Reading them back -/

/-- Nothing but digits, and at least one. -/
def AllDigits (body : List UInt8) : Prop :=
  body ≠ [] ∧ ∀ ch ∈ body, ∃ digit < 16, ch = digitChar digit

theorem allDigits_numeral {base : Nat} (small : base ≤ 16) (large : 1 < base)
    (num : Nat) : AllDigits (numeral base num) := by
  have last : ∀ num, num % base < 16 := fun num =>
    (Nat.mod_lt num (by omega)).trans_le small
  induction num using Nat.strongRecOn with
  | _ num induction =>
      rw [numeral]
      split
      · refine ⟨by simp, fun ch member => ?_⟩
        rcases List.mem_append.mp member with front | isLast
        · exact (induction _ (Nat.div_lt_self (by omega) large)).2 ch front
        · exact ⟨_, last num, List.mem_singleton.mp isLast⟩
      · refine ⟨by simp, fun ch member => ?_⟩
        exact ⟨_, last num, List.mem_singleton.mp member⟩

theorem AllDigits.zeros {body : List UInt8} (digits : AllDigits body)
    (count : Nat) : AllDigits (List.replicate count '0'.toUInt8 ++ body) := by
  refine ⟨fun empty => digits.1 (List.append_eq_nil_iff.mp empty).2,
    fun ch member => ?_⟩
  rcases List.mem_append.mp member with zero | inside
  · exact ⟨0, by decide, List.eq_of_mem_replicate zero⟩
  · exact digits.2 ch inside

theorem digitChar_plain {digit : Nat} (small : digit < 16) :
    digitChar digit ∉ [' '.toUInt8, '\t'.toUInt8, '+'.toUInt8, '-'.toUInt8,
      'x'.toUInt8] := by
  revert small
  revert digit
  decide

/-- Behind one digit there is no `x`. -/
theorem AllDigits.no_prefix {body rest : List UInt8} (digits : AllDigits body)
    (stops : ∀ ch ∈ rest.head?, digitOf ch = none) :
    (body ++ rest).tail.headD 0 ≠ 'x'.toUInt8 := by
  obtain ⟨nonempty, digits⟩ := digits
  match body with
  | [] => exact absurd rfl nonempty
  | [_] =>
      cases rest with
      | nil => exact (by decide : (0 : UInt8) ≠ 'x'.toUInt8)
      | cons ch rest =>
          intro isX
          have none := stops ch rfl
          rw [show ch = 'x'.toUInt8 from isX] at none
          exact absurd none (by decide)
  | _ :: second :: _ =>
      obtain ⟨digit, small, rfl⟩ := digits second (by simp)
      intro isX
      exact digitChar_plain small
        ((show digitChar digit = 'x'.toUInt8 from isX) ▸ by simp)

/-- `strtol` on a sign and digits. -/
theorem strtol_digits {base : Nat} {body rest : List UInt8} (negative : Bool)
    (given : base ≠ 0) (digits : AllDigits body)
    (stops : ∀ ch ∈ rest.head?, digitOf ch = none) :
    strtol ((if negative then ['-'.toUInt8] else []) ++ body ++ rest) base =
      let read := strtolDigits base 0 (body ++ rest)
      (if negative then -read.1 else read.1, read.2) := by
  have isBase : strtolBase base (body ++ rest) = (base, body ++ rest) := by
    unfold strtolBase
    rw [if_neg fun all => digits.no_prefix stops all.2.2,
      if_neg fun both => given both.1, if_neg given]
  obtain ⟨nonempty, digits⟩ := digits
  cases negative with
  | true =>
      unfold strtol
      rw [show (if true = true then ['-'.toUInt8] else []) ++ body ++ rest =
        '-'.toUInt8 :: (body ++ rest) from rfl,
        List.dropWhile_cons_of_neg (by decide)]
      dsimp only
      rw [show strtolSign ('-'.toUInt8 :: (body ++ rest)) = (true, body ++ rest)
        from rfl]
      dsimp only
      rw [isBase]
  | false =>
      match body with
      | [] => exact absurd rfl nonempty
      | ch :: body =>
          obtain ⟨digit, small, rfl⟩ := digits ch List.mem_cons_self
          have plain := digitChar_plain small
          simp only [List.mem_cons, not_or] at plain
          obtain ⟨notSpace, notTab, notPlus, notMinus, _⟩ := plain
          have notBlank : ¬ isBlank (digitChar digit) = true := by
            rw [isBlank, Bool.or_eq_true, beq_iff_eq, beq_iff_eq]
            exact fun blank => blank.elim notSpace notTab
          unfold strtol
          rw [show (if false = true then ['-'.toUInt8] else []) ++
              (digitChar digit :: body) ++ rest =
            digitChar digit :: (body ++ rest) from rfl,
            List.dropWhile_cons_of_neg notBlank]
          dsimp only
          rw [strtolSign, if_neg notPlus, if_neg notMinus]
          dsimp only
          rw [← List.cons_append, isBase]

/-- `strtol` reads back every number that a conversion prints with leading zeros,
and stops behind it. -/
theorem strtol_emitted (text : UInt32 → List UInt8) (conversion : Conversion)
    (width value : UInt32) {rest : List UInt8}
    (stops : ∀ ch ∈ rest.head?, digitOf ch = none) :
    strtol ((emitted text (bytesOf "%0*" ++ [conversion.ch])
        (widthAndValue width value)).map byteOf ++ rest) conversion.base.value =
      (value.toInt32, rest) := by
  have large := conversion.base.one_lt_value
  have small : conversion.base.value ≤ 16 := by
    cases conversion <;> decide
  have digits := (allDigits_numeral small large
    (conversion.magnitude value)).zeros (width.toInt32.toInt - (numeral conversion.base.value
      (conversion.magnitude value)).length).toNat
  rw [emitted_zeros]
  dsimp only
  rw [strtol_digits _ (by omega) digits stops, List.append_assoc,
    strtolDigits_zeros large, strtolDigits_numeral small large,
    strtolDigits_stop _ stops]
  dsimp only
  unfold Conversion.magnitude
  cases negative : conversion.negative value with
  | false =>
      rw [if_neg Bool.false_ne_true, if_neg Bool.false_ne_true,
        ← UInt32.toInt32_ofNat', UInt32.ofNat_toNat]
  | true =>
      have below : value.toInt32.toInt < 0 := by
        cases conversion with
        | d => exact Int32.lt_iff_toInt_lt.mp (of_decide_eq_true negative)
        | u | o | x => cases negative
      rw [if_pos rfl, if_pos rfl]
      have read : -Int32.ofNat (-value.toInt32.toInt).toNat = value.toInt32 := by
        rw [← Int32.ofInt_eq_ofNat, Int.toNat_of_nonneg (by omega),
          ← Int32.ofInt_neg, neg_neg, Int32.ofInt_toInt]
      rw [read]

theorem strtol_emitted_negative :
    strtol ((emitted (fun _ => []) (bytesOf "%0*d")
        (widthAndValue 8 4294967254)).map byteOf ++ bytesOf " env") 10 =
      (-42, bytesOf " env") :=
  strtol_emitted (fun _ => []) .d 8 4294967254 (by rintro _ ⟨rfl⟩; rfl)

end FeaturesOS.Scheduler

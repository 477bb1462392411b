import Mathlib.Algebra.Group.Int.Defs
import Mathlib.Algebra.GroupWithZero.Nat
import Mathlib.Data.List.Basic
import Mathlib.Logic.Function.Iterate

/-!
# Formatted output

`vprintfmt` of `lib/printfmt.c`, which the kernel and the environments share.  A
format is the list of its bytes without the NUL, and `text` gives the bytes that
stand at an address.  The variable arguments are the words of the stack, and the
strings among them do not lie where `putch` stores.  Overflow of a signed `int`,
which C leaves open, does not occur here: an `int` that is computed is an integer.
-/

namespace FeaturesOS.Scheduler

/-- A string literal. -/
def bytesOf (literal : String) : List UInt8 := literal.toList.map Char.toUInt8

/-- `va_list`: the words of the stack, from the next argument on. -/
abbrev VaList := Nat → UInt32

namespace VaList

/-- `va_arg` of a type with 32 bits, and what it leaves. -/
def word (ap : VaList) : UInt32 × VaList := (ap 0, fun i => ap (i + 1))

/-- `va_arg(ap, int)`. -/
def int (ap : VaList) : Int × VaList := (ap.word.1.toInt32.toInt, ap.word.2)

/-- `va_arg(ap, unsigned long long)`. -/
def longLong (ap : VaList) : UInt64 × VaList :=
  (ap.word.1.toUInt64 ||| ap.word.2.word.1.toUInt64 <<< 32, ap.word.2.word.2)

end VaList

def getuint (ap : VaList) (lflag : Nat) : UInt64 × VaList :=
  if 2 ≤ lflag then ap.longLong else (ap.word.1.toUInt64, ap.word.2)

def getint (ap : VaList) (lflag : Nat) : UInt64 × VaList :=
  if 2 ≤ lflag then
    ap.longLong
  else
    (ap.word.1.toInt32.toInt64.toUInt64, ap.word.2)

/-- The `base` of a conversion. -/
inductive Base where
  | octal
  | decimal
  | hex
deriving DecidableEq

def Base.value : Base → Nat
  | .octal => 8
  | .decimal => 10
  | .hex => 16

theorem Base.one_lt_value (base : Base) : 1 < base.value := by
  cases base <;> decide

/-- What a byte is as a `char`. -/
def signedChar (byte : UInt8) : Int := byte.toInt8.toInt

/-- An element of `error_string`. -/
def errorString : Nat → Option String
  | 1 => some "unspecified error"
  | 2 => some "bad environment"
  | 3 => some "invalid parameter"
  | 4 => some "out of memory"
  | 5 => some "out of environments"
  | 6 => some "segmentation fault"
  | 7 => some "env is not recving"
  | 8 => some "unexpected end of file"
  | _ => none

def maxError : Nat := 9

/-- `strnlen` on the bytes that stand at `s`. -/
def strnlen : List UInt8 → Nat → Nat
  | _, 0 => 0
  | [], _ => 0
  | byte :: s, size + 1 => if byte = 0 then 0 else strnlen s size + 1

/-! ## The escapes -/

/-- The locals of `vprintfmt` that a `%` sets. -/
structure Escape where
  padc : UInt8
  width : Int
  precision : Int
  lflag : Nat
  altflag : Bool

namespace Escape

def fresh : Escape where
  padc := ' '.toUInt8
  width := -1
  precision := -1
  lflag := 0
  altflag := false

/-- The label `process_precision`. -/
def processPrecision (escape : Escape) (precision : Int) : Escape :=
  if escape.width < 0 then
    { escape with width := precision, precision := -1 }
  else
    { escape with precision := precision }

end Escape

def isDigit (ch : UInt8) : Bool := '0'.toUInt8 ≤ ch && ch ≤ '9'.toUInt8

/-- A position in the format: what stands in front of `fmt`, the last byte first,
and what stands there. -/
structure Position where
  before : List UInt8
  fmt : List UInt8

/-- The loop that reads a field width, when `fmt` is behind a digit. -/
def readField (precision : Int) (before : List UInt8) :
    List UInt8 → Int × Position
  | [] => (precision, ⟨before, []⟩)
  | ch :: fmt =>
      if isDigit ch then
        readField (precision * 10 + ch.toNat - '0'.toNat) (ch :: before) fmt
      else
        (precision, ⟨before, ch :: fmt⟩)

theorem length_readField (precision : Int) (before fmt : List UInt8) :
    (readField precision before fmt).2.fmt.length ≤ fmt.length := by
  induction fmt generalizing precision before with
  | nil => exact Nat.le_refl _
  | cons ch fmt induction =>
      unfold readField
      split
      · exact Nat.le_succ_of_le (induction _ _)
      · exact Nat.le_refl _

/-- The label `reswitch`, as long as it comes back: the position of the byte that
does not. -/
def reswitch (escape : Escape) (ap : VaList) (before : List UInt8) :
    List UInt8 → Escape × VaList × Position
  | [] => (escape, ap, ⟨before, []⟩)
  | ch :: fmt =>
      if ch = '-'.toUInt8 then
        reswitch { escape with padc := '-'.toUInt8 } ap (ch :: before) fmt
      else if ch = '0'.toUInt8 then
        reswitch { escape with padc := '0'.toUInt8 } ap (ch :: before) fmt
      else if isDigit ch then
        let field := readField (ch.toNat - '0'.toNat) (ch :: before) fmt
        reswitch (escape.processPrecision field.1) ap field.2.before field.2.fmt
      else if ch = '*'.toUInt8 then
        reswitch (escape.processPrecision ap.int.1) ap.int.2 (ch :: before) fmt
      else if ch = '.'.toUInt8 then
        reswitch
          (if escape.width < 0 then { escape with width := 0 } else escape)
          ap (ch :: before) fmt
      else if ch = '#'.toUInt8 then
        reswitch { escape with altflag := true } ap (ch :: before) fmt
      else if ch = 'l'.toUInt8 then
        reswitch { escape with lflag := escape.lflag + 1 } ap (ch :: before) fmt
      else
        (escape, ap, ⟨before, ch :: fmt⟩)
termination_by fmt => fmt.length
decreasing_by
  all_goals simp only [List.length_cons]
  all_goals have := length_readField (ch.toNat - '0'.toNat) (ch :: before) fmt
  all_goals omega

/-- `for (fmt--; fmt[-1] != '%'; fmt--)`, when `fmt` is behind the byte. -/
def rewind : List UInt8 → List UInt8 → List UInt8
  | [], fmt => fmt
  | ch :: before, fmt =>
      if ch = '%'.toUInt8 then fmt else rewind before (ch :: fmt)

/-! ## Printing -/

section Printing

variable {State : Type} (text : UInt32 → List UInt8)
variable (putch : Int → State → State)

def printnum (num base : Nat) (width padc : Int) (putdat : State) : State :=
  putch (signedChar ((bytesOf "0123456789abcdef").getD (num % base) 0))
    (if h : base ≤ num ∧ 1 < base then
      printnum (num / base) base (width - 1) padc putdat
    else
      -- `while (--width > 0)`
      (putch padc)^[(width - 1).toNat] putdat)
termination_by num
decreasing_by exact Nat.div_lt_self (by omega) h.2

/-- The loop of `%s`, with the `width` that is left. -/
def printChars (altflag : Bool) : List UInt8 → Int → Int → State → Int × State
  | [], _, width, putdat => (width, putdat)
  | byte :: s, precision, width, putdat =>
      let ch := signedChar byte
      if ch ≠ 0 ∧ (precision < 0 ∨ 0 ≤ precision - 1) then
        printChars altflag s
          (if precision < 0 then precision else precision - 1) (width - 1)
          (putch
            (if altflag = true ∧ (ch < ' '.toNat ∨ '~'.toNat < ch) then
              '?'.toNat
            else
              ch)
            putdat)
      else
        (width, putdat)

/-- The padding in front of a `%s`, with the `width` that is left. -/
def padString (escape : Escape) (p : List UInt8) (putdat : State) :
    Int × State :=
  if 0 < escape.width ∧ escape.padc ≠ '-'.toUInt8 then
    let width := escape.width - strnlen p (escape.precision % 2 ^ 32).toNat
    (if 0 < width then 0 else width,
      (putch escape.padc.toNat)^[width.toNat] putdat)
  else
    (escape.width, putdat)

/-- The case `'s'` of `vprintfmt`. -/
def printString (escape : Escape) (p : List UInt8) (putdat : State) : State :=
  let padded := padString putch escape p putdat
  let printed := printChars putch escape.altflag p escape.precision padded.1
    padded.2
  (putch ' '.toNat)^[printed.1.toNat] printed.2

/-- The label `number`. -/
def printNumber (escape : Escape) (num : UInt64) (base : Base)
    (putdat : State) : State :=
  printnum putch num.toNat base.value escape.width escape.padc.toNat putdat

/-- The case `'d'` of `vprintfmt`. -/
def printSigned (escape : Escape) (num : UInt64) (putdat : State) : State :=
  if num.toInt64 < 0 then
    printNumber putch escape (-num) .decimal (putch '-'.toNat putdat)
  else
    printNumber putch escape num .decimal putdat

/-- The case `'e'` of `vprintfmt`. -/
def printError
    (printfmt : (UInt32 → List UInt8) → List UInt8 → VaList → State → State)
    (argument : Int) (putdat : State) : State :=
  let err := if argument < 0 then -argument else argument
  match if err ≥ maxError then none else errorString err.toNat with
  | none =>
      printfmt text (bytesOf "error %d") (fun _ => UInt32.ofInt err) putdat
  | some p => printfmt (fun _ => bytesOf p) (bytesOf "%s") (fun _ => 1) putdat

/-- The cases of `vprintfmt` that do not come back to `reswitch`, where `printfmt`
prints an error. -/
def convert
    (printfmt : (UInt32 → List UInt8) → List UInt8 → VaList → State → State)
    (escape : Escape) (ap : VaList) (ch : UInt8) (putdat : State) :
    Option (VaList × State) :=
  if ch = 'c'.toUInt8 then
    some (ap.int.2, putch ap.int.1 putdat)
  else if ch = 'e'.toUInt8 then
    some (ap.int.2, printError text printfmt ap.int.1 putdat)
  else if ch = 's'.toUInt8 then
    let p := if ap.word.1 = 0 then bytesOf "(null)" else text ap.word.1
    some (ap.word.2, printString putch escape p putdat)
  else if ch = 'd'.toUInt8 then
    let num := getint ap escape.lflag
    some (num.2, printSigned putch escape num.1 putdat)
  else if ch = 'u'.toUInt8 then
    let num := getuint ap escape.lflag
    some (num.2, printNumber putch escape num.1 .decimal putdat)
  else if ch = 'o'.toUInt8 then
    let num := getuint ap escape.lflag
    some (num.2, printNumber putch escape num.1 .octal putdat)
  else if ch = 'p'.toUInt8 then
    some (ap.word.2, printNumber putch escape ap.word.1.toUInt64 .hex
      (putch 'x'.toNat (putch '0'.toNat putdat)))
  else if ch = 'x'.toUInt8 then
    let num := getuint ap escape.lflag
    some (num.2, printNumber putch escape num.1 .hex putdat)
  else if ch = '%'.toUInt8 then
    some (ap, putch ch.toNat putdat)
  else
    none

/-- `rewind` goes back to the `%` of the escape. -/
theorem rewind_eq {before escape : List UInt8} (fmt : List UInt8)
    (plain : ∀ ch ∈ escape, ch ≠ '%'.toUInt8) :
    rewind (escape ++ '%'.toUInt8 :: before) fmt = escape.reverse ++ fmt := by
  induction escape generalizing fmt with
  | nil => exact if_pos rfl
  | cons ch escape induction =>
      obtain ⟨isPlain, plain⟩ := List.forall_mem_cons.mp plain
      rw [List.cons_append, rewind, if_neg isPlain, induction _ plain,
        List.reverse_cons, List.append_assoc]
      rfl

/-- From `fmt` behind `before`, one comes to `position` over bytes that are no
`%`. -/
def Position.Behind (position : Position) (before fmt : List UInt8) : Prop :=
  ∃ flags : List UInt8, (∀ ch ∈ flags, ch ≠ '%'.toUInt8) ∧
    position.before = flags ++ before ∧ fmt = flags.reverse ++ position.fmt

theorem Position.Behind.refl (before fmt : List UInt8) :
    Position.Behind ⟨before, fmt⟩ before fmt :=
  ⟨[], nofun, rfl, rfl⟩

theorem Position.Behind.trans {position middle : Position}
    {before fmt : List UInt8}
    (far : position.Behind middle.before middle.fmt)
    (near : middle.Behind before fmt) : position.Behind before fmt := by
  obtain ⟨flags, plain, isBefore, isFmt⟩ := far
  obtain ⟨flags', plain', isBefore', isFmt'⟩ := near
  refine ⟨flags ++ flags', ?_, ?_, ?_⟩
  · intro ch member
    exact (List.mem_append.mp member).elim (plain ch) (plain' ch)
  · rw [isBefore, isBefore', List.append_assoc]
  · rw [isFmt', isFmt, List.reverse_append, List.append_assoc]

theorem Position.Behind.cons {position : Position} {before fmt : List UInt8}
    {ch : UInt8} (behind : position.Behind (ch :: before) fmt)
    (plain : ch ≠ '%'.toUInt8) : position.Behind before (ch :: fmt) := by
  refine @behind.trans _ ⟨ch :: before, fmt⟩ _ _ ⟨[ch], ?_, rfl, rfl⟩
  intro other member
  rwa [List.mem_singleton.mp member]

theorem not_percent_of_isDigit {ch : UInt8} (digit : isDigit ch = true) :
    ch ≠ '%'.toUInt8 := by
  rintro rfl
  exact absurd digit (by decide)

theorem behind_readField (precision : Int) (before fmt : List UInt8) :
    (readField precision before fmt).2.Behind before fmt := by
  induction fmt generalizing precision before with
  | nil => exact .refl before []
  | cons ch fmt induction =>
      unfold readField
      split
      · rename_i digit
        exact (induction _ _).cons (not_percent_of_isDigit digit)
      · exact .refl before (ch :: fmt)

theorem behind_reswitch (escape : Escape) (ap : VaList)
    (before fmt : List UInt8) :
    (reswitch escape ap before fmt).2.2.Behind before fmt := by
  fun_induction reswitch escape ap before fmt with
  | case1 => exact .refl _ _
  | case4 _ _ _ _ _ _ _ digit field induction =>
      exact (induction.trans (behind_readField _ _ _)).cons
        (not_percent_of_isDigit digit)
  | case9 => exact .refl _ _
  | _ =>
      rename_i induction
      exact induction.cons (by decide)

/-- How many escapes a format can still have. -/
def percents (fmt : List UInt8) : Nat := fmt.count '%'.toUInt8

theorem percents_reswitch (escape : Escape) (ap : VaList)
    (before fmt : List UInt8) :
    percents (reswitch escape ap before fmt).2.2.fmt ≤ percents fmt := by
  obtain ⟨flags, _, _, isFmt⟩ := behind_reswitch escape ap before fmt
  unfold percents
  conv => rhs; rw [isFmt]
  exact (List.sublist_append_right _ _).count_le _

theorem percents_tail (fmt : List UInt8) : percents fmt.tail ≤ percents fmt :=
  (List.tail_sublist fmt).count_le _

theorem percents_lt {ch : UInt8} {fmt rest : List UInt8}
    (isPercent : ch = '%'.toUInt8) (le : percents rest ≤ percents fmt) :
    percents rest < percents (ch :: fmt) := by
  unfold percents at *
  rw [isPercent, List.count_cons_self]
  omega

theorem percents_cons {ch : UInt8} {fmt : List UInt8}
    (plain : ¬ ch = '%'.toUInt8) : percents (ch :: fmt) = percents fmt :=
  List.count_cons_of_ne plain

/-- An unknown escape is printed as it stands. -/
theorem rewind_reswitch (escape : Escape) (ap : VaList) (fmt : List UInt8) :
    let position := (reswitch escape ap ['%'.toUInt8] fmt).2.2
    rewind position.before position.fmt = fmt := by
  obtain ⟨flags, plain, isBefore, isFmt⟩ :=
    behind_reswitch escape ap ['%'.toUInt8] fmt
  intro position
  rw [isBefore, rewind_eq _ plain, ← isFmt]

/-- `vprintfmt`, where `printfmt` prints an error. -/
def formatWith
    (printfmt : (UInt32 → List UInt8) → List UInt8 → VaList → State → State) :
    List UInt8 → VaList → State → State
  | [], _, putdat => putdat
  | ch :: fmt, ap, putdat =>
      if ch = '%'.toUInt8 then
        let found := reswitch .fresh ap [ch] fmt
        match convert text putch printfmt found.1 found.2.1
            (found.2.2.fmt.headD 0) putdat with
        | some (ap, putdat) =>
            formatWith printfmt found.2.2.fmt.tail ap putdat
        | none =>
            formatWith printfmt (rewind found.2.2.before found.2.2.fmt)
              found.2.1 (putch '%'.toNat putdat)
      else
        formatWith printfmt fmt ap (putch ch.toNat putdat)
termination_by fmt => (percents fmt, fmt.length)
decreasing_by
  · refine Prod.Lex.left _ _ (percents_lt ‹ch = '%'.toUInt8› ?_)
    exact Nat.le_trans (percents_tail _) (percents_reswitch _ _ _ _)
  · refine Prod.Lex.left _ _ (percents_lt ‹ch = '%'.toUInt8› ?_)
    rw [‹ch = '%'.toUInt8›]
    exact Nat.le_of_eq (congrArg percents (rewind_reswitch _ _ _))
  · rw [percents_cons ‹¬ch = '%'.toUInt8›]
    exact Prod.Lex.right _ (Nat.lt_succ_self _)

/-- The errors are printed with formats that have no `%e`. -/
def vprintfmt (fmt : List UInt8) (ap : VaList) (putdat : State) : State :=
  formatWith text putch
    (fun text => formatWith text putch fun _ _ _ putdat => putdat) fmt ap putdat

end Printing

/-! ## Two ways to print -/

section Related

variable {State State' : Type} {Related : State → State' → Prop}
variable {putch : Int → State → State} {putch' : Int → State' → State'}

/-- Printing one character keeps the relation. -/
def KeepsRelated (Related : State → State' → Prop) (putch : Int → State → State)
    (putch' : Int → State' → State') : Prop :=
  ∀ ch putdat putdat', Related putdat putdat' →
    Related (putch ch putdat) (putch' ch putdat')

variable {putdat : State} {putdat' : State'}

theorem related_iterate (keeps : KeepsRelated Related putch putch') (ch : Int)
    (count : Nat) (related : Related putdat putdat') :
    Related ((putch ch)^[count] putdat) ((putch' ch)^[count] putdat') := by
  induction count generalizing putdat putdat' with
  | zero => exact related
  | succ count induction => exact induction (keeps ch _ _ related)

theorem related_printnum (keeps : KeepsRelated Related putch putch')
    (num base : Nat) (width padc : Int) (related : Related putdat putdat') :
    Related (printnum putch num base width padc putdat)
      (printnum putch' num base width padc putdat') := by
  induction num using Nat.strongRecOn generalizing width with
  | _ num induction =>
      unfold printnum
      refine keeps _ _ _ ?_
      split
      · rename_i large
        exact induction _ (Nat.div_lt_self (by omega) large.2) _
      · exact related_iterate keeps _ _ related

theorem related_printChars (keeps : KeepsRelated Related putch putch')
    (altflag : Bool) (s : List UInt8) (precision width : Int)
    (related : Related putdat putdat') :
    (printChars putch altflag s precision width putdat).1 =
        (printChars putch' altflag s precision width putdat').1 ∧
      Related (printChars putch altflag s precision width putdat).2
        (printChars putch' altflag s precision width putdat').2 := by
  induction s generalizing precision width putdat putdat' with
  | nil => exact ⟨rfl, related⟩
  | cons byte s induction =>
      unfold printChars
      dsimp only
      split
      · exact induction _ _ (keeps _ _ _ related)
      · exact ⟨rfl, related⟩

theorem related_padString (keeps : KeepsRelated Related putch putch')
    (escape : Escape) (p : List UInt8) (related : Related putdat putdat') :
    (padString putch escape p putdat).1 = (padString putch' escape p putdat').1 ∧
      Related (padString putch escape p putdat).2
        (padString putch' escape p putdat').2 := by
  unfold padString
  split
  · exact ⟨rfl, related_iterate keeps _ _ related⟩
  · exact ⟨rfl, related⟩

theorem related_printString (keeps : KeepsRelated Related putch putch')
    (escape : Escape) (p : List UInt8) (related : Related putdat putdat') :
    Related (printString putch escape p putdat)
      (printString putch' escape p putdat') := by
  unfold printString
  dsimp only
  obtain ⟨left, padded⟩ := related_padString keeps escape p related
  rw [left]
  obtain ⟨width, printed⟩ := related_printChars keeps escape.altflag p
    escape.precision (padString putch' escape p putdat').1
    padded
  rw [width]
  exact related_iterate keeps _ _ printed

/-- The same arguments are left, and related states. -/
def RelatedResult (Related : State → State' → Prop) :
    Option (VaList × State) → Option (VaList × State') → Prop
  | none, none => True
  | some result, some result' =>
      result.1 = result'.1 ∧ Related result.2 result'.2
  | _, _ => False

variable {text : UInt32 → List UInt8}
variable {printfmt : (UInt32 → List UInt8) → List UInt8 → VaList → State → State}
variable {printfmt' :
  (UInt32 → List UInt8) → List UInt8 → VaList → State' → State'}

/-- Printing an error keeps the relation. -/
def KeepsErrors (Related : State → State' → Prop)
    (printfmt :
      (UInt32 → List UInt8) → List UInt8 → VaList → State → State)
    (printfmt' :
      (UInt32 → List UInt8) → List UInt8 → VaList → State' → State') : Prop :=
  ∀ text fmt ap putdat putdat', Related putdat putdat' →
    Related (printfmt text fmt ap putdat) (printfmt' text fmt ap putdat')

theorem related_printNumber (keeps : KeepsRelated Related putch putch')
    (escape : Escape) (num : UInt64) (base : Base)
    (related : Related putdat putdat') :
    Related (printNumber putch escape num base putdat)
      (printNumber putch' escape num base putdat') :=
  related_printnum keeps _ _ _ _ related

theorem related_printSigned (keeps : KeepsRelated Related putch putch')
    (escape : Escape) (num : UInt64) (related : Related putdat putdat') :
    Related (printSigned putch escape num putdat)
      (printSigned putch' escape num putdat') := by
  unfold printSigned
  split
  · exact related_printNumber keeps _ _ _ (keeps _ _ _ related)
  · exact related_printNumber keeps _ _ _ related

theorem related_printError (keeps : KeepsErrors Related printfmt printfmt')
    (argument : Int) (related : Related putdat putdat') :
    Related (printError text printfmt argument putdat)
      (printError text printfmt' argument putdat') := by
  unfold printError
  dsimp only
  split
  · exact keeps _ _ _ _ _ related
  · exact keeps _ _ _ _ _ related

theorem related_convert (text : UInt32 → List UInt8)
    (keeps : KeepsRelated Related putch putch')
    (keepsErrors : KeepsErrors Related printfmt printfmt')
    (escape : Escape) (ap : VaList) (ch : UInt8)
    (related : Related putdat putdat') :
    RelatedResult Related (convert text putch printfmt escape ap ch putdat)
      (convert text putch' printfmt' escape ap ch putdat') := by
  unfold convert
  split_ifs
  · exact ⟨rfl, keeps _ _ _ related⟩
  · exact ⟨rfl, related_printError keepsErrors _ related⟩
  · exact ⟨rfl, related_printString keeps _ _ related⟩
  · exact ⟨rfl, related_printString keeps _ _ related⟩
  · exact ⟨rfl, related_printSigned keeps _ _ related⟩
  · exact ⟨rfl, related_printNumber keeps _ _ _ related⟩
  · exact ⟨rfl, related_printNumber keeps _ _ _ related⟩
  · exact ⟨rfl, related_printNumber keeps _ _ _
      (keeps _ _ _ (keeps _ _ _ related))⟩
  · exact ⟨rfl, related_printNumber keeps _ _ _ related⟩
  · exact ⟨rfl, keeps _ _ _ related⟩
  · trivial

theorem related_formatWith (keeps : KeepsRelated Related putch putch')
    (keepsErrors : KeepsErrors Related printfmt printfmt')
    (fmt : List UInt8) (ap : VaList) (related : Related putdat putdat') :
    Related (formatWith text putch printfmt fmt ap putdat)
      (formatWith text putch' printfmt' fmt ap putdat') := by
  fun_induction formatWith text putch printfmt fmt ap putdat
    generalizing putdat' with
  | case1 ap putdat =>
      rw [formatWith]
      exact related
  | case2 fmt ap putdat ap' after found converted =>
      rename_i induction
      have results := related_convert text keeps keepsErrors found.1
        found.2.1 (found.2.2.fmt.headD 0) related
      rw [converted] at results
      rw [formatWith, if_pos rfl]
      dsimp only
      split
      · rename_i converted'
        rw [converted'] at results
        obtain ⟨rfl, related'⟩ := results
        exact induction related'
      · rename_i unknown
        rw [unknown] at results
        exact results.elim
  | case3 fmt ap putdat found unknown =>
      rename_i induction
      have results := related_convert text keeps keepsErrors found.1
        found.2.1 (found.2.2.fmt.headD 0) related
      rw [unknown] at results
      rw [formatWith, if_pos rfl]
      dsimp only
      split
      · rename_i converted'
        rw [converted'] at results
        exact results.elim
      · exact induction (keeps _ _ _ related)
  | case4 ch fmt ap putdat plain induction =>
      rw [formatWith, if_neg plain]
      exact induction (keeps _ _ _ related)

/-- A format prints in both ways the same characters. -/
theorem related_vprintfmt (keeps : KeepsRelated Related putch putch')
    (fmt : List UInt8) (ap : VaList) (related : Related putdat putdat') :
    Related (vprintfmt text putch fmt ap putdat)
      (vprintfmt text putch' fmt ap putdat') := by
  refine related_formatWith keeps ?_ fmt ap related
  intro text fmt ap putdat putdat' related
  exact related_formatWith keeps (fun _ _ _ _ _ => id) fmt ap related

end Related

end FeaturesOS.Scheduler

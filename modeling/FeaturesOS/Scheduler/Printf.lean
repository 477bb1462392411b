import FeaturesOS.CString
import FeaturesOS.Scheduler.Layout
import FeaturesOS.Scheduler.Printfmt

/-!
# Where formatted output goes

`cprintf` of the kernel prints every character by itself, `cprintf` of an
environment sends full buffers to `sys_cputs`, which is a `cprintf` of the kernel,
and `vsnprintf` stores into memory as much as fits.  All three show the characters
that the format prints.
-/

namespace FeaturesOS.Scheduler

variable (text : UInt32 → List UInt8)

/-- The characters that a format prints. -/
def emitted (fmt : List UInt8) (ap : VaList) : List Int :=
  vprintfmt text (fun ch out => out ++ [ch]) fmt ap []

/-- The byte that is stored for a character. -/
def byteOf (ch : Int) : UInt8 := UInt8.ofInt ch

/-! ## The kernel -/

namespace Kern

/-- `putch` of `kern/printf.c`: the console and `*cnt`. -/
def putch (ch : Int) (state : List Int × Nat) : List Int × Nat :=
  (state.1 ++ [ch], state.2 + 1)

def vcprintf (fmt : List UInt8) (ap : VaList) (console : List Int) :
    List Int × Nat :=
  vprintfmt text putch fmt ap (console, 0)

/-- `sys_cputs` with the bytes that stand at `s`. -/
def sysCputs (s : UInt32) (bytes : List UInt8) (len : UInt32)
    (console : List Int) : List Int :=
  (vcprintf (fun _ => bytes) (bytesOf "%.*s") (fun i => if i = 0 then len else s)
    console).1

end Kern

/-! ## An environment -/

namespace Lib

/-- `struct printbuf`, and the console. -/
structure Printbuf where
  idx : Nat
  cnt : Nat
  buf : List UInt8
  console : List Int

/-- `putch` of `lib/printf.c`; `s` is the address of `b->buf`. -/
def putch (s : UInt32) (ch : Int) (b : Printbuf) : Printbuf :=
  let b := { b with buf := b.buf.set b.idx (byteOf ch), idx := b.idx + 1 }
  let b :=
    if b.idx = 256 - 1 then
      { b with
        console := Kern.sysCputs s b.buf (UInt32.ofNat b.idx) b.console
        idx := 0 }
    else
      b
  { b with cnt := b.cnt + 1 }

/-- `vcprintf` of `lib/printf.c`; `buf` is what stands on the stack before. -/
def vcprintf (s : UInt32) (buf : List UInt8) (fmt : List UInt8) (ap : VaList)
    (console : List Int) : List Int × Nat :=
  let b := vprintfmt text (putch s) fmt ap ⟨0, 0, buf, console⟩
  (Kern.sysCputs s b.buf (UInt32.ofNat b.idx) b.console, b.cnt)

end Lib

/-! ## Memory -/

/-- `struct sprintbuf`, and the memory. -/
structure Sprintbuf where
  buf : Nat
  ebuf : Nat
  cnt : Nat
  memory : Nat → UInt8

def sprintputch (ch : Int) (b : Sprintbuf) : Sprintbuf :=
  let b := { b with cnt := b.cnt + 1 }
  if b.buf < b.ebuf then
    { b with
      memory := Function.update b.memory b.buf (byteOf ch)
      buf := b.buf + 1 }
  else
    b

def vsnprintf (buf : Nat) (n : Int) (fmt : List UInt8) (ap : VaList)
    (memory : Nat → UInt8) : Int × (Nat → UInt8) :=
  if buf = 0 ∨ n < 1 then
    (-eInval, memory)
  else
    let b := vprintfmt text sprintputch fmt ap
      ⟨buf, (buf + n - 1).toNat, 0, memory⟩
    (b.cnt, Function.update b.memory b.buf 0)

variable {text} {State : Type} {fmt : List UInt8} {ap : VaList}

/-- What holds at the start, and still after every character, holds in the end. -/
theorem emitted_induction {putch : Int → State → State} {putdat : State}
    (Holds : List Int → State → Prop) (start : Holds [] putdat)
    (step : ∀ ch out putdat, Holds out putdat →
      Holds (out ++ [ch]) (putch ch putdat)) :
    Holds (emitted text fmt ap) (vprintfmt text putch fmt ap putdat) :=
  related_vprintfmt (fun ch out putdat holds => step ch out putdat holds) fmt ap
    start

theorem kern_vcprintf (console : List Int) :
    Kern.vcprintf text fmt ap console =
      (console ++ emitted text fmt ap, (emitted text fmt ap).length) := by
  refine emitted_induction (fun out state =>
    state = (console ++ out, out.length)) (by simp) ?_
  rintro ch out _ rfl
  simp [Kern.putch]

/-! ## `sys_cputs` -/

theorem reswitch_precision (ap : VaList) :
    reswitch .fresh ap ['%'.toUInt8] (bytesOf ".*s") =
      ({ Escape.fresh with width := 0, precision := ap.int.1 }, ap.int.2,
        ⟨(bytesOf "%.*").reverse, bytesOf "s"⟩) := by
  have isBytes : bytesOf ".*s" = ['.'.toUInt8, '*'.toUInt8, 's'.toUInt8] := rfl
  rw [isBytes, reswitch, if_neg (by decide), if_neg (by decide),
    if_neg (by decide), if_neg (by decide), if_pos rfl, reswitch,
    if_neg (by decide), if_neg (by decide), if_neg (by decide), if_pos rfl,
    reswitch, if_neg (by decide), if_neg (by decide), if_neg (by decide),
    if_neg (by decide), if_neg (by decide), if_neg (by decide),
    if_neg (by decide)]
  rfl

theorem convert_string {printfmt :
      (UInt32 → List UInt8) → List UInt8 → VaList → State → State}
    {putch : Int → State → State} {putdat : State} (escape : Escape)
    (ap : VaList) :
    convert text putch printfmt escape ap 's'.toUInt8 putdat =
      some (ap.word.2, printString putch escape
        (if ap.word.1 = 0 then bytesOf "(null)" else text ap.word.1) putdat) := by
  rw [convert, if_neg (by decide), if_neg (by decide), if_pos rfl]

theorem vprintfmt_precision (putch : Int → State → State) (putdat : State) :
    vprintfmt text putch (bytesOf "%.*s") ap putdat =
      printString putch
        { Escape.fresh with width := 0, precision := ap.int.1 }
        (if ap.int.2.word.1 = 0 then bytesOf "(null)" else text ap.int.2.word.1)
        putdat := by
  have isBytes : bytesOf "%.*s" = '%'.toUInt8 :: bytesOf ".*s" := rfl
  rw [vprintfmt, isBytes, formatWith, if_pos rfl]
  dsimp only
  rw [reswitch_precision]
  dsimp only
  rw [show (bytesOf "s").headD 0 = 's'.toUInt8 from rfl, convert_string]
  dsimp only
  rw [show (bytesOf "s").tail = [] from rfl, formatWith]

theorem signedChar_zero : signedChar 0 = 0 := rfl

theorem signedChar_ne_zero {byte : UInt8} (nonzero : byte ≠ 0) :
    signedChar byte ≠ 0 := by
  intro zero
  apply nonzero
  have bits : byte.toInt8 = 0 := Int8.toInt_inj.mp zero
  rw [← UInt8.toUInt8_toInt8 byte, bits]
  rfl

/-- The loop of `%.*s` with a precision of its own. -/
theorem printChars_console (bytes : List UInt8) (len : Nat) (width : Int)
    (console : List Int) (count : Nat) (spent : width ≤ 0) :
    (printChars Kern.putch false bytes len width (console, count)).1 ≤ 0 ∧
      (printChars Kern.putch false bytes len width (console, count)).2.1 =
        console ++ (CString.text (bytes.take len)).map signedChar := by
  induction bytes generalizing len width console count with
  | nil => exact ⟨spent, by simp [printChars, CString.text]⟩
  | cons byte bytes induction =>
      unfold printChars
      dsimp only
      by_cases zero : byte = 0
      · rw [zero, signedChar_zero, if_neg (fun both => both.1 rfl)]
        refine ⟨spent, ?_⟩
        cases len <;> simp [CString.text]
      cases len with
      | zero =>
          rw [if_neg (by simp)]
          exact ⟨spent, by simp [CString.text]⟩
      | succ len =>
          have nonzero := signedChar_ne_zero zero
          rw [if_pos ⟨nonzero, by omega⟩, if_neg (by omega), if_neg (by simp)]
          obtain ⟨left, shown⟩ := induction len (width - 1)
            (console ++ [signedChar byte]) (count + 1) (by omega)
          have before : ((len + 1 : Nat) : Int) - 1 = len := by omega
          rw [before]
          refine ⟨left, shown.trans ?_⟩
          simp [CString.text, zero]

/-- `sys_cputs` shows the bytes in front of the first NUL. -/
theorem sysCputs_eq {s len : UInt32} (bytes : List UInt8) (console : List Int)
    (present : s ≠ 0) (short : len.toNat < 2 ^ 31) :
    Kern.sysCputs s bytes len console =
      console ++ (CString.text (bytes.take len.toNat)).map signedChar := by
  have isLen : len.toInt32.toInt = len.toNat :=
    BitVec.toInt_eq_toNat_of_lt (by change 2 * len.toNat < 2 ^ 32; omega)
  unfold Kern.sysCputs Kern.vcprintf
  rw [vprintfmt_precision]
  simp only [VaList.int, VaList.word, Nat.add_eq_zero_iff, one_ne_zero, and_false,
    if_true, if_false, isLen, present]
  unfold printString padString
  rw [if_neg (by simp)]
  dsimp only
  obtain ⟨spent, shown⟩ := printChars_console bytes len.toNat 0 console 0 le_rfl
  rw [show Escape.fresh.altflag = false from rfl, Int.toNat_of_nonpos spent]
  exact shown

/-! ## Two kinds of `cprintf` -/

def NulFree (out : List Int) : Prop := ∀ ch ∈ out, byteOf ch ≠ 0

theorem byteOf_signedChar (byte : UInt8) : byteOf (signedChar byte) = byte := by
  have isSigned : signedChar byte = (byte.toNat : Int).bmod 256 :=
    BitVec.toInt_eq_toNat_bmod _
  have low : (signedChar byte % 2 ^ 8).toNat = byte.toNat := by
    rw [isSigned, show (2 : Int) ^ 8 = (256 : Nat) from rfl, Int.bmod_emod]
    have below := byte.toNat_lt
    omega
  rw [byteOf, UInt8.ofInt, low, UInt8.ofNat_toNat]

/-- What the console shows of characters that were sent in pieces. -/
structure Displays (sent shown : List Int) : Prop where
  whole : NulFree sent → shown = sent.map (fun ch => signedChar (byteOf ch))
  cut : ¬ NulFree sent → shown.length < sent.length

theorem Displays.nil : Displays [] [] :=
  ⟨fun _ => rfl, fun cut => absurd nofun cut⟩

theorem Displays.of_text (piece : List Int) :
    Displays piece ((CString.text (piece.map byteOf)).map signedChar) := by
  induction piece with
  | nil => exact .nil
  | cons ch piece induction =>
      by_cases zero : byteOf ch = 0
      · refine ⟨fun free => absurd zero (free ch List.mem_cons_self), fun _ => ?_⟩
        simp [CString.text, zero]
      · have isText : (CString.text ((ch :: piece).map byteOf)).map signedChar =
            signedChar (byteOf ch) ::
              (CString.text (piece.map byteOf)).map signedChar := by
          simp [CString.text, zero]
        rw [isText]
        refine ⟨fun free => ?_, fun cut => ?_⟩
        · rw [induction.whole fun other member =>
            free other (List.mem_cons_of_mem _ member)]
          rfl
        · have cut' : ¬ NulFree piece := fun free =>
            cut (List.forall_mem_cons.mpr ⟨zero, free⟩)
          exact Nat.succ_lt_succ (induction.cut cut')

theorem Displays.length_le {sent shown : List Int}
    (displays : Displays sent shown) : shown.length ≤ sent.length := by
  by_cases free : NulFree sent
  · rw [displays.whole free, List.length_map]
  · exact (displays.cut free).le

theorem Displays.append {sent shown sent' shown' : List Int}
    (first : Displays sent shown) (second : Displays sent' shown') :
    Displays (sent ++ sent') (shown ++ shown') := by
  refine ⟨fun free => ?_, fun cut => ?_⟩
  · obtain ⟨free, free'⟩ := List.forall_mem_append.mp free
    rw [first.whole free, second.whole free', List.map_append]
  · have short := first.length_le
    have short' := second.length_le
    rw [List.length_append, List.length_append]
    by_cases free : NulFree sent
    · have cut' : ¬ NulFree sent' := fun free' =>
        cut (List.forall_mem_append.mpr ⟨free, free'⟩)
      have := second.cut cut'
      omega
    · have := first.cut free
      omega

/-- The buffer holds what `sys_cputs` has not shown yet. -/
structure Lib.Printbuf.Holds (console out : List Int) (b : Printbuf) : Prop where
  cnt : b.cnt = out.length
  size : b.buf.length = 256
  short : b.idx < 255
  split : ∃ sent pending shown, out = sent ++ pending ∧
    b.buf.take b.idx = pending.map byteOf ∧ b.idx = pending.length ∧
    b.console = console ++ shown ∧ Displays sent shown

theorem take_set_succ {buf : List UInt8} {idx : Nat} (inside : idx < buf.length)
    (byte : UInt8) :
    (buf.set idx byte).take (idx + 1) = buf.take idx ++ [byte] := by
  rw [List.take_succ_eq_append_getElem (by simpa using inside),
    List.getElem_set_self, List.take_set_of_le (Nat.le_refl idx)]

theorem Lib.Printbuf.Holds.putch {console out : List Int} {b : Printbuf}
    (holds : b.Holds console out) {s : UInt32} (present : s ≠ 0) (ch : Int) :
    (Lib.putch s ch b).Holds console (out ++ [ch]) := by
  obtain ⟨sent, pending, shown, isOut, isBuf, isIdx, isConsole, displays⟩ :=
    holds.split
  have inside : b.idx < b.buf.length := by
    rw [holds.size]
    exact holds.short.trans (by decide)
  have stored : (b.buf.set b.idx (byteOf ch)).take (b.idx + 1) =
      (pending ++ [ch]).map byteOf := by
    rw [take_set_succ inside, isBuf, List.map_append]
    rfl
  have size : (b.buf.set b.idx (byteOf ch)).length = 256 := by
    rw [List.length_set, holds.size]
  have isOut' : out ++ [ch] = sent ++ (pending ++ [ch]) := by
    rw [isOut, List.append_assoc]
  have isCnt : b.cnt + 1 = (out ++ [ch]).length := by
    rw [holds.cnt, List.length_append]
    rfl
  unfold Lib.putch
  dsimp only
  by_cases full : b.idx + 1 = 256 - 1
  · rw [if_pos full]
    refine ⟨isCnt, size, Nat.zero_lt_succ 254, sent ++ (pending ++ [ch]), [],
      shown ++ (CString.text ((pending ++ [ch]).map byteOf)).map signedChar,
      by rw [isOut', List.append_nil], rfl, rfl, ?_,
      displays.append (.of_text _)⟩
    change Kern.sysCputs s _ _ b.console = _
    have isLen : (UInt32.ofNat (b.idx + 1)).toNat = b.idx + 1 := by
      rw [full]
      rfl
    rw [sysCputs_eq _ _ present (by rw [isLen, full]; decide), isLen, stored,
      isConsole, List.append_assoc]
  · rw [if_neg full]
    have short : b.idx + 1 < 255 := by
      have := holds.short
      omega
    exact ⟨isCnt, size, short, sent, pending ++ [ch], shown, isOut', stored,
      by rw [List.length_append, ← isIdx]; rfl, isConsole, displays⟩

/-- What `cprintf` of an environment shows.-/
theorem lib_vcprintf {s : UInt32} {buf : List UInt8} (present : s ≠ 0)
    (size : buf.length = 256) (console : List Int) :
    ∃ shown, Displays (emitted text fmt ap) shown ∧
      Lib.vcprintf text s buf fmt ap console =
        (console ++ shown, (emitted text fmt ap).length) := by
  have holds : (vprintfmt text (Lib.putch s) fmt ap
      ⟨0, 0, buf, console⟩).Holds console (emitted text fmt ap) := by
    refine emitted_induction (fun out b => Lib.Printbuf.Holds console out b) ?_
      fun ch out b holds => holds.putch present ch
    exact ⟨rfl, size, Nat.zero_lt_succ 254, [], [], [], rfl, rfl, rfl,
      (List.append_nil _).symm, .nil⟩
  obtain ⟨sent, pending, shown, isOut, isBuf, isIdx, isConsole, displays⟩ :=
    holds.split
  refine ⟨_, isOut ▸ displays.append (.of_text pending), ?_⟩
  unfold Lib.vcprintf
  dsimp only
  rw [holds.cnt]
  generalize vprintfmt text (Lib.putch s) fmt ap ⟨0, 0, buf, console⟩ = b at *
  have short := holds.short
  have isLen : (UInt32.ofNat b.idx).toNat = b.idx :=
    UInt32.toNat_ofNat_of_lt' (by change b.idx < 2 ^ 32; omega)
  rw [sysCputs_eq _ _ present (by omega), isLen, isBuf, isConsole,
    List.append_assoc]

/-- Both kinds of `cprintf` count the same characters, and show the same ones
exactly when the format prints no NUL. -/
theorem vcprintf_agree {s : UInt32} {buf : List UInt8} (present : s ≠ 0)
    (size : buf.length = 256) (console : List Int) :
    (Lib.vcprintf text s buf fmt ap console).2 =
        (Kern.vcprintf text fmt ap console).2 ∧
      ((Lib.vcprintf text s buf fmt ap console).1.map byteOf =
          (Kern.vcprintf text fmt ap console).1.map byteOf ↔
        NulFree (emitted text fmt ap)) := by
  obtain ⟨shown, displays, outcome⟩ :=
    @lib_vcprintf text fmt ap s buf present size console
  rw [outcome, kern_vcprintf]
  refine ⟨rfl, ?_⟩
  rw [List.map_append, List.map_append, List.append_cancel_left_eq]
  constructor
  · intro same
    by_contra cut
    have short := displays.cut cut
    have lengths := congrArg List.length same
    rw [List.length_map, List.length_map] at lengths
    omega
  · intro free
    rw [displays.whole free, List.map_map]
    exact List.map_congr_left fun ch _ => byteOf_signedChar _

theorem vcprintf_agree_char :
    let console : List Int := []
    let lib := Lib.vcprintf (fun _ => []) 1 (CString.zeros 256) (bytesOf "%c!")
      (fun _ => 65) console
    let kern := Kern.vcprintf (fun _ => []) (bytesOf "%c!") (fun _ => 65) console
    lib.2 = kern.2 ∧ (lib.1.map byteOf = kern.1.map byteOf ↔
      NulFree (emitted (fun _ => []) (bytesOf "%c!") fun _ => 65)) :=
  vcprintf_agree (by decide) (CString.length_zeros 256) []

/-! ## `vsnprintf` -/

/-- The memory `after` has `bytes` from `buf` on, and is `before` elsewhere. -/
def WrittenAt (buf : Nat) (bytes : List UInt8) (before after : Nat → UInt8) :
    Prop :=
  (∀ i (inside : i < bytes.length), after (buf + i) = bytes[i]) ∧
    ∀ address, address < buf ∨ buf + bytes.length ≤ address →
      after address = before address

theorem WrittenAt.snoc {buf : Nat} {bytes : List UInt8}
    {before after : Nat → UInt8} (written : WrittenAt buf bytes before after)
    (byte : UInt8) :
    WrittenAt buf (bytes ++ [byte]) before
      (Function.update after (buf + bytes.length) byte) := by
  refine ⟨fun i inside => ?_, fun address outside => ?_⟩
  · by_cases last : i = bytes.length
    · subst last
      rw [Function.update_self, List.getElem_append_right (Nat.le_refl _)]
      simp
    · have earlier : i < bytes.length := by
        rw [List.length_append, List.length_singleton] at inside
        omega
      rw [Function.update_of_ne (by omega), written.1 i earlier,
        List.getElem_append_left earlier]
  · rw [List.length_append, List.length_singleton] at outside
    rw [Function.update_of_ne (by omega)]
    exact written.2 address (by omega)

/-- The buffer holds the characters that fit into `room` bytes. -/
structure Sprintbuf.Holds (start room : Nat) (memory : Nat → UInt8)
    (out : List Int) (b : Sprintbuf) : Prop where
  cnt : b.cnt = out.length
  ebuf : b.ebuf = start + room
  buf : b.buf = start + ((out.map byteOf).take room).length
  written : WrittenAt start ((out.map byteOf).take room) memory b.memory

theorem Sprintbuf.Holds.sprintputch {start room : Nat} {memory : Nat → UInt8}
    {out : List Int} {b : Sprintbuf} (holds : b.Holds start room memory out)
    (ch : Int) :
    (sprintputch ch b).Holds start room memory (out ++ [ch]) := by
  have isCnt : b.cnt + 1 = (out ++ [ch]).length := by
    rw [holds.cnt, List.length_append]
    rfl
  have isBuf := holds.buf
  rw [List.length_take, List.length_map] at isBuf
  have isEbuf := holds.ebuf
  unfold FeaturesOS.Scheduler.sprintputch
  dsimp only
  split
  · have fits : out.length < room := by omega
    have whole : ((out ++ [ch]).map byteOf).take room =
        (out.map byteOf).take room ++ [byteOf ch] := by
      rw [List.map_append, List.take_of_length_le (by simp; omega),
        List.take_of_length_le (by simp; omega)]
      rfl
    refine ⟨isCnt, isEbuf, ?_, ?_⟩
    · change b.buf + 1 = _
      rw [whole, List.length_append, holds.buf]
      rfl
    · change WrittenAt _ _ _ (Function.update b.memory b.buf (byteOf ch))
      rw [whole, holds.buf]
      exact holds.written.snoc (byteOf ch)
  · have full : room ≤ (out.map byteOf).length := by
      rw [List.length_map]
      omega
    have same : ((out ++ [ch]).map byteOf).take room =
        (out.map byteOf).take room := by
      rw [List.map_append, List.take_append_of_le_length full]
    refine ⟨isCnt, isEbuf, ?_, ?_⟩
    · rw [same]
      exact holds.buf
    · rw [same]
      exact holds.written

/-- In a buffer with room, `vsnprintf` stores the characters that fit, in front of
a NUL, and nothing else. -/
theorem vsnprintf_room {buf : Nat} {n : Int} (memory : Nat → UInt8)
    (present : buf ≠ 0) (room : 1 ≤ n) :
    (vsnprintf text buf n fmt ap memory).1 = (emitted text fmt ap).length ∧
      WrittenAt buf
        (((emitted text fmt ap).map byteOf).take (n.toNat - 1) ++ [0]) memory
        (vsnprintf text buf n fmt ap memory).2 := by
  have isEbuf : (buf + n - 1).toNat = buf + (n.toNat - 1) := by omega
  have holds : (vprintfmt text sprintputch fmt ap
      ⟨buf, (buf + n - 1).toNat, 0, memory⟩).Holds buf (n.toNat - 1) memory
        (emitted text fmt ap) := by
    refine emitted_induction
      (fun out b => Sprintbuf.Holds buf (n.toNat - 1) memory out b) ?_
      fun ch out b holds => holds.sprintputch ch
    refine ⟨rfl, isEbuf, ?_, ?_, fun _ _ => rfl⟩
    · rw [List.map_nil, List.take_nil]
      rfl
    · rw [List.map_nil, List.take_nil]
      exact nofun
  unfold vsnprintf
  rw [if_neg (by omega)]
  dsimp only
  rw [holds.cnt, holds.buf]
  exact ⟨rfl, holds.written.snoc 0⟩

/-- `vsnprintf` returns how many characters the format prints and stores those that
fit in front of a NUL; without a buffer it returns an error and stores nothing. -/
theorem vsnprintf_writes (buf : Nat) (n : Int) (fmt : List UInt8) (ap : VaList)
    (memory : Nat → UInt8) :
    (buf = 0 ∨ n < 1 → vsnprintf text buf n fmt ap memory = (-eInval, memory)) ∧
      (buf ≠ 0 → 1 ≤ n →
        (vsnprintf text buf n fmt ap memory).1 = (emitted text fmt ap).length ∧
          WrittenAt buf
            (((emitted text fmt ap).map byteOf).take (n.toNat - 1) ++ [0]) memory
            (vsnprintf text buf n fmt ap memory).2) :=
  ⟨fun refused => if_pos refused,
    fun present room => vsnprintf_room memory present room⟩

/-- `snprintf` of `user/forktree.c`, with and without a buffer. -/
theorem vsnprintf_writes_branch :
    let fmt := bytesOf "%s%c"
    let ap : VaList := fun i => if i = 0 then 1 else 48
    let text : UInt32 → List UInt8 := fun _ => bytesOf "01"
    vsnprintf text 0 4 fmt ap (fun _ => 0) = (-eInval, fun _ => 0) ∧
      (vsnprintf text 4096 4 fmt ap fun _ => 0).1 =
        (emitted text fmt ap).length ∧
      WrittenAt 4096 (((emitted text fmt ap).map byteOf).take 3 ++ [0])
        (fun _ => 0) (vsnprintf text 4096 4 fmt ap fun _ => 0).2 :=
  ⟨(vsnprintf_writes 0 4 _ _ _).1 (.inl rfl),
    (vsnprintf_writes 4096 4 _ _ _).2 (by decide) (by decide)⟩

end FeaturesOS.Scheduler

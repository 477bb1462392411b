import FeaturesOS.Copying

/-!
# Moving and filling memory

`memmove` and `memset` of `lib/string.c`, with the string instructions that they
are compiled to and with the plain loops.  Blocks do not wrap around at the end of
the address space.
-/

namespace FeaturesOS.Scheduler

open Copying

/-- `rep movsb` and `rep movsl`, with `std` and with `cld`. -/
def repMovs (width : Nat) (std : Bool) (ecx edi esi : Nat)
    (memory : Nat → UInt8) : Nat → UInt8 :=
  copyPieces width (if std then (· - width) else (· + width)) ecx edi esi memory

/-- `rep stosb` and `rep stosl` with `cld`. -/
def repStos (width : Nat) (eax : UInt32) (ecx edi : Nat)
    (memory : Nat → UInt8) : Nat → UInt8 :=
  fillPieces width (fun i => (eax >>> UInt32.ofNat (8 * i)).toUInt8) ecx edi
    memory

/-- `memmove` with `ASM`. -/
def memmove (dst src n : Nat) (memory : Nat → UInt8) : Nat → UInt8 :=
  if src < dst ∧ dst < src + n then
    let s := src + n
    let d := dst + n
    if s % 4 = 0 ∧ d % 4 = 0 ∧ n % 4 = 0 then
      repMovs 4 true (n / 4) (d - 4) (s - 4) memory
    else
      repMovs 1 true n (d - 1) (s - 1) memory
  else
    if src % 4 = 0 ∧ dst % 4 = 0 ∧ n % 4 = 0 then
      repMovs 4 false (n / 4) dst src memory
    else
      repMovs 1 false n dst src memory

/-- `while (n-- > 0) *--d = *--s`. -/
def moveBackward : Nat → Nat → Nat → (Nat → UInt8) → Nat → UInt8
  | 0, _, _, memory => memory
  | n + 1, d, s, memory =>
      moveBackward n (d - 1) (s - 1)
        (Function.update memory (d - 1) (memory (s - 1)))

/-- `while (n-- > 0) *d++ = *s++`. -/
def moveForward : Nat → Nat → Nat → (Nat → UInt8) → Nat → UInt8
  | 0, _, _, memory => memory
  | n + 1, d, s, memory =>
      moveForward n (d + 1) (s + 1) (Function.update memory d (memory s))

/-- `memmove` without `ASM`. -/
def memmoveLoop (dst src n : Nat) (memory : Nat → UInt8) : Nat → UInt8 :=
  if src < dst ∧ dst < src + n then
    moveBackward n (dst + n) (src + n) memory
  else
    moveForward n dst src memory

/-- `memset` with `ASM`. -/
def memset (v : Nat) (c : UInt32) (n : Nat) (memory : Nat → UInt8) :
    Nat → UInt8 :=
  if n = 0 then
    memory
  else if v % 4 = 0 ∧ n % 4 = 0 then
    let c := c &&& 0xff
    let c := c <<< 24 ||| c <<< 16 ||| c <<< 8 ||| c
    repStos 4 c (n / 4) v memory
  else
    repStos 1 c n v memory

/-- `while (--m >= 0) *p++ = c`. -/
def setForward (c : UInt32) : Nat → Nat → (Nat → UInt8) → Nat → UInt8
  | 0, _, memory => memory
  | m + 1, p, memory =>
      setForward c m (p + 1) (Function.update memory p c.toUInt8)

/-- `memset` without `ASM`, where the number of bytes is an `int`. -/
def memsetLoop (v : Nat) (c : UInt32) (n : UInt32) (memory : Nat → UInt8) :
    Nat → UInt8 :=
  setForward c n.toInt32.toInt.toNat v memory

variable {memory : Nat → UInt8}

theorem update_eq_copy (target source : Nat) :
    Function.update memory target (memory source) =
      copy memory target source 1 := by
  funext address
  unfold copy
  by_cases same : address = target
  · rw [same, Function.update_self, if_pos (by omega), Nat.sub_self,
      Nat.add_zero]
  · rw [Function.update_of_ne same, if_neg (by omega)]

theorem moveForward_eq (n d s : Nat) :
    moveForward n d s memory = copyPieces 1 (· + 1) n d s memory := by
  induction n generalizing d s memory with
  | zero => rfl
  | succ n induction => rw [moveForward, update_eq_copy, induction, copyPieces]

theorem moveBackward_eq (n d s : Nat) :
    moveBackward n (d + n) (s + n) memory =
      copyPieces 1 (· - 1) n (d + n - 1) (s + n - 1) memory := by
  induction n generalizing memory with
  | zero => rfl
  | succ n induction =>
      rw [moveBackward, update_eq_copy, copyPieces]
      exact induction

/-- `memmove` copies the block as a whole, also where source and target overlap,
with `ASM` and without. -/
theorem memmove_moves (dst src n : Nat) (memory : Nat → UInt8) :
    memmove dst src n memory = copy memory dst src n ∧
      memmoveLoop dst src n memory = copy memory dst src n := by
  unfold memmove memmoveLoop repMovs
  by_cases overlaps : src < dst ∧ dst < src + n
  · have behind : src ≤ dst := Nat.le_of_lt overlaps.1
    have bytes := @copyPieces_down _ memory dst src 1 n behind
    rw [Nat.one_mul] at bytes
    rw [if_pos overlaps, if_pos overlaps, moveBackward_eq, bytes]
    refine ⟨?_, rfl⟩
    dsimp only
    split
    · rename_i aligned
      have words := @copyPieces_down _ memory dst src 4 (n / 4) behind
      rwa [Nat.mul_div_cancel' (Nat.dvd_of_mod_eq_zero aligned.2.2)] at words
    · exact bytes
  · have apart : dst ≤ src ∨ src + n ≤ dst := by omega
    have bytes := @copyPieces_up _ memory dst src 1 n (by omega)
    rw [Nat.one_mul] at bytes
    rw [if_neg overlaps, if_neg overlaps, moveForward_eq, bytes]
    refine ⟨?_, rfl⟩
    split
    · rename_i aligned
      have whole := Nat.mul_div_cancel' (Nat.dvd_of_mod_eq_zero aligned.2.2)
      have words := @copyPieces_up _ memory dst src 4 (n / 4) (by omega)
      rwa [whole] at words
    · exact bytes

/-- The four bytes of the word that `memset` stores are the same. -/
theorem word_bytes (c : UInt32) {i : Nat} (small : i < 4) :
    let low := c &&& 0xff
    ((low <<< 24 ||| low <<< 16 ||| low <<< 8 ||| low) >>>
      UInt32.ofNat (8 * i)).toUInt8 = c.toUInt8 := by
  have allBytes : ∀ (byte : Fin 256) (i : Fin 4),
      let low := UInt32.ofNat byte.val
      ((low <<< 24 ||| low <<< 16 ||| low <<< 8 ||| low) >>>
        UInt32.ofNat (8 * i.val)).toUInt8 = UInt8.ofNat byte.val := by
    decide +kernel
  have isLow : c &&& 0xff = UInt32.ofNat (c.toNat % 256) := by
    apply UInt32.toNat_inj.mp
    rw [UInt32.toNat_and, UInt32.toNat_ofNat_of_lt' (by
      change c.toNat % 256 < 2 ^ 32
      omega)]
    exact Nat.and_two_pow_sub_one_eq_mod c.toNat 8
  have isByte : c.toUInt8 = UInt8.ofNat (c.toNat % 256) := by
    apply UInt8.toNat_inj.mp
    rw [UInt32.toNat_toUInt8, UInt8.toNat_ofNat_of_lt' (by
      change c.toNat % 256 < 256
      omega)]
  intro low
  rw [show low = UInt32.ofNat (c.toNat % 256) from isLow, isByte]
  exact allBytes ⟨c.toNat % 256, by omega⟩ ⟨i, small⟩

theorem update_eq_fill (p : Nat) (byte : UInt8) :
    Function.update memory p byte = fill memory p 1 fun _ => byte := by
  funext address
  unfold fill
  by_cases same : address = p
  · rw [same, Function.update_self, if_pos (by omega)]
  · rw [Function.update_of_ne same, if_neg (by omega)]

theorem setForward_eq (c : UInt32) (m p : Nat) :
    setForward c m p memory = fill memory p m fun _ => c.toUInt8 := by
  have pieces : setForward c m p memory =
      fillPieces 1 (fun _ => c.toUInt8) m p memory := by
    induction m generalizing p memory with
    | zero => rfl
    | succ m induction =>
        rw [setForward, induction, update_eq_fill, fillPieces]
  rw [pieces, fillPieces_eq fun _ _ => rfl, Nat.one_mul]

theorem memset_eq (v : Nat) (c : UInt32) (n : Nat) :
    memset v c n memory = fill memory v n fun _ => c.toUInt8 := by
  unfold memset repStos
  split
  · rename_i empty
    rw [empty, fill_zero]
  · split
    · rename_i aligned
      dsimp only
      rw [fillPieces_eq fun i small => word_bytes c small,
        Nat.mul_div_cancel' (Nat.dvd_of_mod_eq_zero aligned.2)]
    · have oneByte : ∀ i < 1,
          (c >>> UInt32.ofNat (8 * i)).toUInt8 = c.toUInt8 := by
        intro i small
        obtain rfl : i = 0 := by omega
        rfl
      rw [fillPieces_eq oneByte, Nat.one_mul]

/-- `memset` fills the block with the low byte, whatever the alignment, and so does
the plain loop as long as its `int` can count the bytes. -/
theorem memset_fills (v : Nat) (c n : UInt32) (memory : Nat → UInt8) :
    memset v c n.toNat memory = fill memory v n.toNat (fun _ => c.toUInt8) ∧
      (n.toNat < 2 ^ 31 →
        memsetLoop v c n memory = memset v c n.toNat memory) := by
  refine ⟨memset_eq v c n.toNat, fun small => ?_⟩
  have isInt : n.toInt32.toInt = n.toNat :=
    BitVec.toInt_eq_toNat_of_lt (by change 2 * n.toNat < 2 ^ 32; omega)
  rw [memsetLoop, setForward_eq, memset_eq, isInt, Int.toNat_natCast]

end FeaturesOS.Scheduler

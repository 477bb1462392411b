import FeaturesOS.FileSystem.Superblock

/-!
# Directory contents

The text that a directory keeps: its entries, each followed by a newline, then
a NUL.  `add_dentry_to_content` and the rebuilding loop of `remove_inode` act on
this text as appending an entry and as filtering the list of entries.

`add_dentry_to_content` makes room for the entry but not for its NUL.  An entry
that fills the recorded size exactly leaves a buffer without terminator.
-/

namespace FeaturesOS.FileSystem

open CString

/-- A name that can be stored as a directory entry. -/
structure IsEntry (name : List UInt8) : Prop where
  nonempty : name ≠ []
  noNewline : newline ∉ name
  nulFree : 0 ∉ name

/-- A name that `get_next_entry` reads in one go; it may be empty. -/
structure IsLine (name : List UInt8) : Prop where
  noNewline : newline ∉ name
  nulFree : 0 ∉ name

theorem IsEntry.isLine {name : List UInt8} (isEntry : IsEntry name) :
    IsLine name :=
  ⟨isEntry.noNewline, isEntry.nulFree⟩

/-- The text of a directory. -/
def encodeEntries (names : List (List UInt8)) : List UInt8 :=
  names.flatMap (· ++ [newline])

@[simp] theorem encodeEntries_nil : encodeEntries [] = [] := rfl

@[simp] theorem encodeEntries_cons (name : List UInt8)
    (names : List (List UInt8)) :
    encodeEntries (name :: names) =
      name ++ newline :: encodeEntries names := by
  simp [encodeEntries]

theorem encodeEntries_append (before after : List (List UInt8)) :
    encodeEntries (before ++ after) =
      encodeEntries before ++ encodeEntries after :=
  List.flatMap_append

theorem length_encodeEntries_le {names : List (List UInt8)} {bound : Nat}
    (short : ∀ name ∈ names, name.length ≤ bound) :
    (encodeEntries names).length ≤ names.length * (bound + 1) := by
  induction names with
  | nil => simp
  | cons name names induction =>
      have head := short name List.mem_cons_self
      have tail := induction
        (fun other member => short other (List.mem_cons_of_mem _ member))
      simp only [encodeEntries_cons, List.length_append, List.length_cons]
      calc name.length + ((encodeEntries names).length + 1)
          ≤ bound + (names.length * (bound + 1) + 1) := by omega
        _ = (names.length + 1) * (bound + 1) := by ring

theorem length_le_encodeEntries (names : List (List UInt8)) :
    names.length ≤ (encodeEntries names).length := by
  induction names with
  | nil => simp
  | cons name names induction =>
      simp only [encodeEntries_cons, List.length_append, List.length_cons]
      omega

/-! ## Reading entries -/

/-- One call of `get_next_entry` in front of a complete entry. -/
theorem getNextEntry_of_drop {content name rest : List UInt8} {offset : Nat}
    (isLine : IsLine name)
    (here : content.drop offset = name ++ newline :: rest) :
    getNextEntry content offset = some (name, offset + name.length + 1) := by
  have stops : (name ++ newline :: rest).takeWhile
      (fun byte => byte != newline && byte != 0) = name := by
    rw [List.takeWhile_append_of_pos]
    · simp
    · intro byte member
      have notNewline : byte ≠ newline := by
        rintro rfl
        exact isLine.noNewline member
      have notNul : byte ≠ 0 := by
        rintro rfl
        exact isLine.nulFree member
      simp [notNewline, notNul]
  have here' : name = [] → content.getD offset 0 = newline := by
    rintro rfl
    rw [List.getD_eq_getElem?_getD, ← Nat.add_zero offset,
      ← List.getElem?_drop, here]
    rfl
  unfold getNextEntry
  simp only [here, stops]
  rw [if_neg]
  rintro ⟨empty, zero⟩
  rw [here' empty] at zero
  cases zero

theorem entriesFrom_of_drop {content : List UInt8}
    {names : List (List UInt8)} (named : ∀ name ∈ names, IsLine name)
    {contentLength fuel offset : Nat} {rest : List UInt8}
    (enough : names.length ≤ fuel)
    (ends : offset + (encodeEntries names).length = contentLength)
    (here : content.drop offset = encodeEntries names ++ rest) :
    entriesFrom content contentLength fuel offset = names := by
  induction names generalizing fuel offset with
  | nil =>
      have atEnd : ¬ offset < contentLength := by simp at ends; omega
      cases fuel with
      | zero => rfl
      | succ fuel => rw [entriesFrom, if_neg atEnd]
  | cons name names induction =>
      obtain ⟨fuel, rfl⟩ : ∃ smaller, fuel = smaller + 1 :=
        ⟨fuel - 1, by simp only [List.length_cons] at enough; omega⟩
      simp only [encodeEntries_cons, List.length_append, List.length_cons,
        List.append_assoc, List.cons_append] at ends here
      have inside : offset < contentLength := by omega
      have next := getNextEntry_of_drop (named name List.mem_cons_self) here
      have dropped : content.drop (offset + name.length + 1) =
          encodeEntries names ++ rest := by
        rw [Nat.add_assoc, ← List.drop_drop, here, ← List.drop_drop,
          List.drop_left, List.drop_one, List.tail_cons]
      rw [entriesFrom, if_pos inside, next]
      dsimp only
      rw [induction
        (fun other member => named other (List.mem_cons_of_mem _ member))
        (by simpa using enough) (by omega) dropped]

/-- Repeated `get_next_entry` reads the entries back. -/
theorem directoryEntries_eq {content : List UInt8}
    {names : List (List UInt8)} (named : ∀ name ∈ names, IsLine name)
    (holds : text content = encodeEntries names) :
    directoryEntries content = names := by
  have isPrefix : text content <+: content := List.takeWhile_prefix _
  obtain ⟨rest, split⟩ := isPrefix
  have long : names.length ≤ strlen content := by
    unfold strlen
    rw [holds]
    exact length_le_encodeEntries names
  have here : content.drop 0 = encodeEntries names ++ rest := by
    rw [List.drop_zero, ← holds, split]
  have ends : 0 + (encodeEntries names).length = strlen content := by
    rw [Nat.zero_add, ← holds]
    rfl
  exact entriesFrom_of_drop named long ends here

/-! ## Adding an entry -/

/-- A directory buffer: its recorded size counts its bytes and its text ends
inside them.  A new directory records the size zero. -/
structure DirectoryBuffer (content : List UInt8) (size : Int32) : Prop where
  terminated : Terminated content
  sized : size.toInt = content.length ∨
    size.toInt = 0 ∧ content = zeros initialContentLength

theorem text_zeros (length : Nat) : text (zeros length) = [] := by
  cases length with
  | zero => rfl
  | succ length => simp [zeros, List.replicate_succ, text]

theorem terminated_zeros {length : Nat} (positive : 0 < length) :
    Terminated (zeros length) :=
  List.mem_replicate.mpr ⟨Nat.ne_of_gt positive, rfl⟩

/-- The buffer of a new directory. -/
theorem directoryBuffer_new : DirectoryBuffer (zeros initialContentLength) 0 :=
  ⟨terminated_zeros (by decide), Or.inr ⟨rfl, rfl⟩⟩

/-- Appending an entry to a text that leaves room for the entry and its NUL. -/
theorem strcpy_entry {content name : List UInt8} (nameNulFree : 0 ∉ name)
    (room : strlen content + name.length + 1 < content.length) :
    text (strcpy content (strlen content) (name ++ [newline])) =
        text content ++ (name ++ [newline]) ∧
      Terminated (strcpy content (strlen content) (name ++ [newline])) := by
  have fits : strlen content + (name ++ [newline]).length < content.length := by
    simp only [List.length_append, List.length_cons, List.length_nil]
    omega
  have nulFree : 0 ∉ text content ++ (name ++ [newline]) := by
    intro member
    rcases List.mem_append.mp member with old | new
    · exact text_nulFree content old
    · rcases List.mem_append.mp new with inName | last
      · exact nameNulFree inName
      · exact absurd (List.mem_singleton.mp last) (by decide)
  rw [strcpy_at_end fits]
  exact ⟨text_append_nul _ nulFree, by simp [Terminated]⟩

/-- With room for the entry and its NUL the buffer is not enlarged. -/
theorem addDentryToContent_of_room {ambient : Ambient}
    {content name : List UInt8} {size : Int32}
    (sized : size.toInt = content.length)
    (room : strlen content + name.length + 1 < content.length) :
    addDentryToContent ambient content size name =
      (strcpy content (strlen content) (name ++ [newline]), size) := by
  have entryLength : (name ++ [newline]).length = name.length + 1 := by simp
  unfold addDentryToContent
  dsimp only
  rw [entryLength, if_neg (by omega)]

/-- Appending an entry to a buffer that has been enlarged for it. -/
theorem strcpy_entry_resize {content name : List UInt8} {size grown : Int32}
    (buffer : DirectoryBuffer content size) (nulFree : 0 ∉ name)
    (full : (strlen content + (name.length + 1 : Nat) : Int) > size.toInt)
    (isGrown : grown.toInt =
      size.toInt + (name.length + 1 : Nat) + initialContentLength)
    (fresh : Nat → UInt8) :
    let extended := strcpy (resize content grown.toInt.toNat fresh)
      (strlen content) (name ++ [newline])
    DirectoryBuffer extended grown ∧
      text extended = text content ++ (name ++ [newline]) := by
  have inside := strlen_lt_length buffer.terminated
  have textShort : (strlen content : Int) <
      size.toInt + initialContentLength := by
    rcases buffer.sized with exact | ⟨zero, new⟩
    · omega
    · rw [new, length_zeros] at inside
      rw [new]
      omega
  have grows : content.length ≤ grown.toInt.toNat := by
    rcases buffer.sized with exact | ⟨zero, new⟩
    · omega
    · rw [new, length_zeros]
      omega
  have sameText :
      text (resize content grown.toInt.toNat fresh) = text content :=
    text_resize buffer.terminated grows
  have sameLength :
      strlen (resize content grown.toInt.toNat fresh) = strlen content :=
    congrArg List.length sameText
  have room : strlen (resize content grown.toInt.toNat fresh) +
      name.length + 1 < (resize content grown.toInt.toNat fresh).length := by
    rw [sameLength, length_resize]
    omega
  have appended := strcpy_entry nulFree room
  rw [sameLength, sameText] at appended
  refine ⟨⟨appended.2, Or.inl ?_⟩, appended.1⟩
  simp only [length_strcpy, length_resize]
  omega

/-- Appending an entry to a buffer with room for it. -/
theorem strcpy_entry_inside {content name : List UInt8} {size : Int32}
    (buffer : DirectoryBuffer content size) (nulFree : 0 ∉ name)
    (fits : ¬ (strlen content + (name.length + 1 : Nat) : Int) > size.toInt)
    (inexact : (strlen content + name.length + 1 : Int) ≠ size.toInt) :
    let extended := strcpy content (strlen content) (name ++ [newline])
    DirectoryBuffer extended size ∧
      text extended = text content ++ (name ++ [newline]) := by
  have exactSize : size.toInt = content.length := by
    rcases buffer.sized with exact | ⟨zero, -⟩
    · exact exact
    · omega
  have room : strlen content + name.length + 1 < content.length := by omega
  have appended := strcpy_entry nulFree room
  exact ⟨⟨appended.2, Or.inl (by rw [length_strcpy, exactSize])⟩,
    appended.1⟩

theorem DirectoryBuffer.nonnegative {content : List UInt8} {size : Int32}
    (buffer : DirectoryBuffer content size) : 0 ≤ size.toInt := by
  rcases buffer.sized with exact | zero
  · omega
  · omega

/-- `add_dentry_to_content` appends the entry, unless the entry fills the
recorded size exactly. -/
theorem addDentryToContent_spec {ambient : Ambient} {content name : List UInt8}
    {size : Int32} (buffer : DirectoryBuffer content size)
    (nulFree : 0 ∉ name) (grants : ∀ length, ambient.grants length = true)
    (inexact : (strlen content + name.length + 1 : Int) ≠ size.toInt)
    (short : strlen content + name.length < 2 ^ 24) :
    let extended := addDentryToContent ambient content size name
    DirectoryBuffer extended.1 extended.2 ∧
      text extended.1 = text content ++ (name ++ [newline]) := by
  have entryLength : (name ++ [newline]).length = name.length + 1 := by simp
  have nonnegative := buffer.nonnegative
  unfold addDentryToContent
  dsimp only
  rw [entryLength]
  split
  · rename_i full
    have newSize : (Int32.ofInt (size.toInt + (name.length + 1 : Nat) +
        initialContentLength)).toInt =
          size.toInt + (name.length + 1 : Nat) + initialContentLength := by
      apply Int32.toInt_ofInt_of_le
      · omega
      · simp only [initialContentLength]
        omega
    generalize Int32.ofInt _ = grown at newSize
    have granted : realloc ambient content grown.toInt =
        some (resize content grown.toInt.toNat ambient.fresh) := by
      unfold realloc
      rw [if_pos ⟨by omega, grants _⟩]
    rw [granted]
    exact strcpy_entry_resize buffer nulFree full newSize ambient.fresh
  · rename_i fits
    exact strcpy_entry_inside buffer nulFree fits inexact

/-- An `int` size that wraps around is negative. -/
theorem toInt_grown {size : Int32} {length : Nat} (nonnegative : 0 ≤ size.toInt)
    (short : length < 2 ^ 16) :
    (Int32.ofInt (size.toInt + length + initialContentLength)).toInt =
        size.toInt + length + initialContentLength ∨
      (Int32.ofInt (size.toInt + length + initialContentLength)).toInt < 0 := by
  have bound := Int32.toInt_lt size
  have initial : (initialContentLength : Int) = 1024 := rfl
  rw [initial]
  by_cases small : size.toInt + length + 1024 < 2 ^ 31
  · exact .inl (Int32.toInt_ofInt_of_le (by omega) small)
  · right
    have modulus : (Int32.size : Int) = 2 ^ 32 := rfl
    have wraps : ¬ size.toInt + length + 1024 < ((2 : Int) ^ 32 + 1) / 2 := by
      omega
    rw [Int32.toInt_ofInt, Int.bmod, modulus,
      Int.emod_eq_of_lt (by omega) (by omega), if_neg wraps]
    omega

/-- Without guarantees about the allocator the directory may stay as it is. -/
theorem addDentryToContent_cases (ambient : Ambient)
    {content name : List UInt8} {size : Int32}
    (buffer : DirectoryBuffer content size) (nulFree : 0 ∉ name)
    (inexact : (strlen content + name.length + 1 : Int) ≠ size.toInt)
    (short : name.length < 2 ^ 8) :
    let extended := addDentryToContent ambient content size name
    extended = (content, size) ∨
      DirectoryBuffer extended.1 extended.2 ∧
        text extended.1 = text content ++ (name ++ [newline]) := by
  have entryLength : (name ++ [newline]).length = name.length + 1 := by simp
  unfold addDentryToContent
  dsimp only
  rw [entryLength]
  split
  · rename_i full
    have newSize := toInt_grown buffer.nonnegative
      (show name.length + 1 < 2 ^ 16 by omega)
    generalize Int32.ofInt _ = grown at newSize
    unfold realloc
    by_cases possible : 0 < grown.toInt ∧
        ambient.grants grown.toInt.toNat = true
    · rw [if_pos possible]
      exact .inr (strcpy_entry_resize buffer nulFree full
        (newSize.resolve_right (by omega)) ambient.fresh)
    · rw [if_neg possible]
      exact .inl rfl
  · rename_i fits
    exact .inr (strcpy_entry_inside buffer nulFree fits inexact)

/-! ## Removing an entry -/

/-- The rebuilding loop of `remove_inode` from a point on, in a buffer that has
room for what is left of the old text. -/
theorem foldl_keepEntry (ambient : Ambient) (removed : List UInt8)
    {names : List (List UInt8)} (named : ∀ name ∈ names, IsLine name)
    {content : List UInt8} {size : Int32} (terminated : Terminated content)
    (sized : size.toInt = content.length)
    (room : strlen content + (encodeEntries names).length < content.length) :
    let rebuilt := names.foldl (keepEntry ambient removed) (content, size)
    DirectoryBuffer rebuilt.1 rebuilt.2 ∧
      text rebuilt.1 =
        text content ++ encodeEntries (names.filter (· ≠ removed)) := by
  induction names generalizing content with
  | nil => exact ⟨⟨terminated, Or.inl sized⟩, by simp⟩
  | cons name names induction =>
      have isLine := named name List.mem_cons_self
      have others : ∀ other ∈ names, IsLine other :=
        fun other member => named other (List.mem_cons_of_mem _ member)
      simp only [encodeEntries_cons, List.length_append, List.length_cons]
        at room
      rw [List.foldl_cons, keepEntry, List.filter_cons]
      by_cases same : name = removed
      · rw [if_pos same, if_neg (by simpa using same)]
        exact induction others terminated sized (by omega)
      · have here : strlen content + name.length + 1 < content.length := by
          omega
        have appended := strcpy_entry isLine.nulFree here
        have textLength := congrArg List.length appended.1
        simp only [List.length_append, List.length_cons, List.length_nil]
          at textLength
        have tail := induction others appended.2
          (by rw [length_strcpy]; exact sized)
          (by rw [length_strcpy]; unfold strlen at *; omega)
        rw [if_neg same, if_pos (by simpa using same),
          addDentryToContent_of_room sized here]
        refine ⟨tail.1, ?_⟩
        rw [tail.2, appended.1, encodeEntries_cons]
        simp

/-- The rebuilt directory keeps the other entries in their order. -/
theorem rebuild_of_sized (ambient : Ambient) (removed : List UInt8)
    {content : List UInt8} {size : Int32} {names : List (List UInt8)}
    (terminated : Terminated content) (exactSize : size.toInt = content.length)
    (named : ∀ name ∈ names, IsLine name)
    (holds : text content = encodeEntries names) :
    let rebuilt := names.foldl (keepEntry ambient removed)
      (zeros size.toInt.toNat, size)
    DirectoryBuffer rebuilt.1 rebuilt.2 ∧
      text rebuilt.1 = encodeEntries (names.filter (· ≠ removed)) := by
  have textLength : strlen content = (encodeEntries names).length :=
    congrArg List.length holds
  have inside := strlen_lt_length terminated
  have empty : strlen (zeros size.toInt.toNat) = 0 := by
    rw [strlen, text_zeros]
    rfl
  have sized : size.toInt = (zeros size.toInt.toNat).length := by
    rw [length_zeros]
    omega
  have room : strlen (zeros size.toInt.toNat) + (encodeEntries names).length <
      (zeros size.toInt.toNat).length := by
    omega
  have rebuilt :=
    foldl_keepEntry ambient removed named (terminated_zeros (by omega)) sized room
  rwa [text_zeros, List.nil_append] at rebuilt

/-- A directory with an entry records the length of its buffer. -/
theorem rebuild_spec (ambient : Ambient) (removed : List UInt8)
    {content : List UInt8} {size : Int32} {names : List (List UInt8)}
    (buffer : DirectoryBuffer content size)
    (named : ∀ name ∈ names, IsLine name)
    (holds : text content = encodeEntries names) (nonempty : names ≠ []) :
    let rebuilt := names.foldl (keepEntry ambient removed)
      (zeros size.toInt.toNat, size)
    DirectoryBuffer rebuilt.1 rebuilt.2 ∧
      text rebuilt.1 = encodeEntries (names.filter (· ≠ removed)) := by
  have textLength : strlen content = (encodeEntries names).length :=
    congrArg List.length holds
  have positive : 0 < names.length := List.length_pos_iff.mpr nonempty
  have long := length_le_encodeEntries names
  have exactSize : size.toInt = content.length := by
    rcases buffer.sized with exact | ⟨-, new⟩
    · exact exact
    · have none : strlen content = 0 := by
        rw [new, strlen, text_zeros]
        rfl
      omega
  exact rebuild_of_sized ambient removed buffer.terminated exactSize named holds

end FeaturesOS.FileSystem

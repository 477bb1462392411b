import FeaturesOS.Shell.Pipeline

/-!
# Commands in the background

`parse_cmd` looks at the first `&` of a segment only, and at the byte in front
of it.
-/

namespace FeaturesOS.Shell

open CString

variable {globals : Globals} {front : UInt8} {before segment after : List UInt8}

/-- A `&` that is not behind a `>`. -/
def BackgroundAt (segment : List UInt8) (i : Nat) : Prop :=
  segment[i]? = some backChar ∧ (i = 0 ∨ segment[i - 1]? ≠ some greater)

instance (segment : List UInt8) (i : Nat) : Decidable (BackgroundAt segment i) :=
  inferInstanceAs (Decidable (_ ∧ _))

/-- The first `&` that is not behind a `>`. -/
def FirstBackground (segment : List UInt8) (i : Nat) : Prop :=
  BackgroundAt segment i ∧ ∀ j < i, ¬ BackgroundAt segment j

/-- The position that `parse_cmd` reads through `buf_cmd[idx - UNO]`. -/
def lookBehind (buf : List UInt8) (p : Nat) : Option Int :=
  let bufCmd := text (buf.drop p)
  if bufCmd.length = 0 then none
  else
    let idx := blockContains bufCmd backChar
    if idx ≥ 0 then some (p + idx - 1) else none

/-- `parse_cmd` runs the text in front of the first background symbol in the
background, or all of it, and reads nothing in front of the segment, which stands
behind `before` in its buffer. -/
structure DetectsBackground (globals : Globals) (front : UInt8)
    (before segment after : List UInt8) : Prop where
  isBack : (∃ scmd c, (parseCmd globals front
      (before ++ (segment ++ 0 :: after)) before.length).2 = .back scmd c) ↔
    ∃ i, BackgroundAt segment i
  runs : ∀ i, FirstBackground segment i → (parseCmd globals front
      (before ++ (segment ++ 0 :: after)) before.length).2 =
    backCmdCreate (parseExec globals (segment.take i))
  inside : ∀ position, lookBehind (before ++ (segment ++ 0 :: after))
      before.length = some position → before.length ≤ position

/-- The segment does not start with a `&`, and when the first one is behind a
`>`, all of them are. -/
structure PlainBackground (segment : List UInt8) : Prop where
  start : segment.head? ≠ some backChar
  behind : (segment.takeWhile (· != backChar)).getLast? = some greater →
    ∀ i, ¬ BackgroundAt segment i

theorem not_backgroundAt (absent : backChar ∉ segment) (i : Nat) :
    ¬ BackgroundAt segment i :=
  fun isBack => absent (List.mem_of_getElem? isBack.1)

/-- A background symbol does not stand in front of the first `&`. -/
theorem BackgroundAt.le {start back : List UInt8} (absent : backChar ∉ start)
    {i : Nat} (isBack : BackgroundAt (start ++ backChar :: back) i) :
    start.length ≤ i := by
  by_contra early
  have here := isBack.1
  rw [List.getElem?_append_left (Nat.lt_of_not_le early)] at here
  exact absent (List.mem_of_getElem? here)

theorem lookBehind_inside (before after : List UInt8) (nulFree : 0 ∉ segment) :
    lookBehind (before ++ (segment ++ 0 :: after)) before.length =
      if backChar ∈ segment then
        some (before.length +
          ((segment.takeWhile (· != backChar)).length : Int) - 1)
      else none := by
  have here : text ((before ++ (segment ++ 0 :: after)).drop before.length) =
      segment := by
    rw [List.drop_left, text_append_nul _ nulFree]
  unfold lookBehind
  rw [here]
  dsimp only
  by_cases inside : backChar ∈ segment
  · obtain ⟨start, back, rfl, absent⟩ := List.eq_append_cons_of_mem inside
    rw [if_pos inside, takeWhile_ne absent, blockContains_append absent,
      if_neg (by simp), if_pos (Int.natCast_nonneg _)]
  · rw [if_neg inside, blockContains_of_not_mem inside]
    simp

/-- The first `&` with something in front of it, as the parser sees it. -/
theorem segmentCmd_back (globals : Globals) (previous : UInt8)
    {start back : List UInt8} (absent : backChar ∉ start) (nonempty : start ≠ []) :
    segmentCmd globals previous (start ++ backChar :: back) =
      if start.getLast? ≠ some greater then
        backCmdCreate (parseExec globals start)
      else .exec (parseExec globals (start ++ backChar :: back)) := by
  have last : start.getLastD previous ≠ greater ↔
      start.getLast? ≠ some greater := by
    rw [List.getLastD_eq_getLast?, List.getLast?_eq_some_getLast nonempty]
    simp
  unfold segmentCmd
  rw [if_neg (by simp), takeWhile_ne absent]
  refine if_congr ?_ rfl rfl
  rw [last]
  exact and_iff_right (by simp)

/-- The first `&` is a background symbol unless a `>` precedes it. -/
theorem backgroundAt_length {start back : List UInt8} (nonempty : start ≠ []) :
    BackgroundAt (start ++ backChar :: back) start.length ↔
      start.getLast? ≠ some greater := by
  have positive := List.length_pos_iff.mpr nonempty
  unfold BackgroundAt
  rw [List.getElem?_append_right (Nat.le_refl _), Nat.sub_self,
    List.getElem?_append_left (by omega), ← List.getLast?_eq_getElem?]
  simp [nonempty]

/-- The tree of a segment does not depend on its surroundings, up to the byte in
front of it. -/
theorem parseCmd_tree (globals : Globals) (front : UInt8)
    (before after : List UInt8) (nulFree : 0 ∉ segment) :
    (parseCmd globals front (before ++ (segment ++ 0 :: after))
        before.length).2 =
      segmentCmd globals (before.getLastD front) segment := by
  obtain ⟨changed, -, parsed⟩ :=
    parseCmd_inside globals front before nulFree after
  exact congrArg Prod.snd parsed

/-- Without a `&` there is nothing to detect. -/
theorem detectsBackground_of_absent (globals : Globals) (front : UInt8)
    (before after : List UInt8) (nulFree : 0 ∉ segment)
    (absent : backChar ∉ segment) :
    DetectsBackground globals front before segment after := by
  have none := not_backgroundAt absent
  constructor
  · rw [parseCmd_tree globals front before after nulFree]
    refine iff_of_false ?_ fun ⟨i, isBack⟩ => none i isBack
    rintro ⟨scmd, c, isBack⟩
    unfold segmentCmd at isBack
    split at isBack
    · cases isBack
    · rw [if_neg fun both => absent both.1] at isBack
      cases isBack
  · exact fun i first => absurd first.1 (none i)
  · intro position looks
    rw [lookBehind_inside before after nulFree, if_neg absent] at looks
    cases looks

/-- Behind a first `&` with something in front of it the segment is searched no
further. -/
theorem detectsBackground_back_iff (globals : Globals) (front : UInt8)
    (before after : List UInt8) {start back : List UInt8}
    (nulFree : 0 ∉ start ++ backChar :: back) (absent : backChar ∉ start)
    (nonempty : start ≠ []) :
    DetectsBackground globals front before (start ++ backChar :: back) after ↔
      (start.getLast? = some greater →
        ∀ i, ¬ BackgroundAt (start ++ backChar :: back) i) := by
  have tree := parseCmd_tree globals front before after nulFree
  have first : BackgroundAt (start ++ backChar :: back) start.length ↔
      start.getLast? ≠ some greater := backgroundAt_length nonempty
  rw [segmentCmd_back globals _ absent nonempty] at tree
  constructor
  · intro detects redirected i isBack
    obtain ⟨scmd, c, same⟩ := detects.isBack.mpr ⟨i, isBack⟩
    rw [tree, if_neg fun different => different redirected] at same
    cases same
  · intro behind
    constructor
    · rw [tree]
      by_cases redirected : start.getLast? = some greater
      · rw [if_neg fun different => different redirected]
        refine iff_of_false ?_ fun ⟨i, isBack⟩ => behind redirected i isBack
        rintro ⟨scmd, c, isBack⟩
        cases isBack
      · rw [if_pos redirected]
        exact iff_of_true ⟨_, _, rfl⟩ ⟨_, first.mpr redirected⟩
    · rintro i ⟨isBack, earlier⟩
      have redirected : start.getLast? ≠ some greater :=
        fun redirected => behind redirected i isBack
      have isLength : i = start.length := by
        refine Nat.le_antisymm ?_ (isBack.le absent)
        by_contra later
        exact earlier _ (Nat.lt_of_not_le later) (first.mpr redirected)
      rw [tree, if_pos redirected, isLength, List.take_left]
    · intro position looks
      rw [lookBehind_inside before after nulFree, if_pos (by simp),
        takeWhile_ne absent] at looks
      have positive := List.length_pos_iff.mpr nonempty
      have here := Option.some.inj looks
      omega

/-- The background is detected exactly in plain segments. -/
theorem detectsBackground_iff (globals : Globals) (front : UInt8)
    (before after : List UInt8) (nulFree : 0 ∉ segment) :
    DetectsBackground globals front before segment after ↔
      PlainBackground segment := by
  by_cases inside : backChar ∈ segment
  · obtain ⟨start, back, rfl, absent⟩ := List.eq_append_cons_of_mem inside
    by_cases empty : start = []
    · subst empty
      refine iff_of_false ?_ fun plain => plain.start rfl
      intro detects
      have looks := lookBehind_inside before after nulFree
      rw [if_pos inside, takeWhile_ne absent] at looks
      have reads := detects.inside _ looks
      rw [List.length_nil] at reads
      omega
    · rw [detectsBackground_back_iff globals front before after nulFree absent
        empty]
      have start : (start ++ backChar :: back).head? ≠ some backChar := by
        obtain ⟨byte, others, rfl⟩ := List.exists_cons_of_ne_nil empty
        intro isBack
        rw [← Option.some.inj isBack] at absent
        exact absent List.mem_cons_self
      constructor
      · intro behind
        refine ⟨start, ?_⟩
        rw [takeWhile_ne absent]
        exact behind
      · intro plain
        have behind := plain.behind
        rwa [takeWhile_ne absent] at behind
  · refine iff_of_true
      (detectsBackground_of_absent globals front before after nulFree inside) ?_
    constructor
    · exact fun isBack => inside (List.mem_of_head? isBack)
    · exact fun _ => not_backgroundAt inside

/-- The segment `a&`. -/
theorem detectsBackground_simple :
    DetectsBackground ⟨0, fun _ => none⟩ 0 [] [97, 38] [] :=
  (detectsBackground_iff _ _ _ _ (by decide)).mpr
    ⟨by decide, fun redirected => absurd redirected (by decide)⟩

/-- In `a 2>&1 &` the background symbol becomes an argument. -/
theorem not_detectsBackground_second :
    ¬ ∀ (globals : Globals) (front : UInt8) (before segment after : List UInt8),
      0 ∉ segment → pipeChar ∉ segment →
      DetectsBackground globals front before segment after := by
  intro all
  have detects := all ⟨0, fun _ => none⟩ 0 []
    ([97, 32, 50, 62] ++ backChar :: [49, 32, 38]) [] (by decide) (by decide)
  have behind := (detectsBackground_back_iff _ _ _ _ (by decide) (by decide)
    (by decide)).mp detects rfl 7
  exact behind (by decide)

end FeaturesOS.Shell

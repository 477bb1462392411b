import FeaturesOS.Shell.Parsing

/-!
# Lines as pipelines

A line stands for the commands between its separators, nested to the right.
`parse_line` builds that tree as long as no segment between two separators is
blank: behind such a segment it takes the rest of the line for one command.
-/

namespace FeaturesOS.Shell

open CString

/-! ## What a line stands for -/

/-- The segments of a line; those behind a separator lose their leading
spaces. -/
def segments (line : List UInt8) : List (List UInt8) :=
  match line.splitOn pipeChar with
  | [] => []
  | first :: rest =>
      first :: rest.map fun segment => segment.dropWhile (· == space)

/-- `parse_cmd` on a buffer that holds one segment. -/
def parseSegment (globals : Globals) (front : UInt8) (segment : List UInt8) :
    Cmd :=
  (parseCmd globals front (segment ++ [0]) 0).2

/-- Commands nested to the right; an empty one at the end is dropped. -/
def pipelineOf : List Cmd → Cmd
  | [] => .null
  | leaf :: leaves => pipeCmdCreate leaf (pipelineOf leaves)

/-- The tree that a line stands for.  A NUL or a space precedes each segment
but the first one. -/
def pipeline (globals : Globals) (front : UInt8) (line : List UInt8) : Cmd :=
  match segments line with
  | [] => .null
  | first :: rest =>
      pipelineOf
        (parseSegment globals front first ::
          rest.map (parseSegment globals 0))

/-- The texts of the simple commands, from left to right. -/
def Cmd.leafTexts : Cmd → List (List UInt8)
  | .null => []
  | .exec c => [c.scmd]
  | .back scmd _ => [scmd]
  | .pipe leftcmd rightcmd => leftcmd.leafTexts ++ rightcmd.leafTexts

/-- No segment between two separators is blank. -/
def NoBlankMiddle (line : List UInt8) : Prop :=
  [] ∉ (segments line).tail.dropLast

instance (line : List UInt8) : Decidable (NoBlankMiddle line) :=
  inferInstanceAs (Decidable (_ ∉ _))

/-- The tree is the one that the line stands for, and every separator has been
taken for one. -/
structure ParsesPipeline (globals : Globals) (front : UInt8)
    (line : List UInt8) (tree : Cmd) : Prop where
  isPipeline : tree = pipeline globals front line
  separated : ∀ text ∈ tree.leafTexts, pipeChar ∉ text

/-! ## Buffers -/

theorem set_length {Value : Type*} (before : List Value) (old new : Value)
    (after : List Value) :
    (before ++ old :: after).set before.length new = before ++ new :: after := by
  rw [List.set_append_right _ _ (Nat.le_refl _), Nat.sub_self, List.set_cons_zero]

theorem takeWhile_stop {Value : Type*} {test : Value → Bool}
    {before : List Value} (passes : ∀ value ∈ before, test value = true)
    {stop : Value} (fails : test stop = false) (after : List Value) :
    (before ++ stop :: after).takeWhile test = before := by
  rw [List.takeWhile_append_of_pos passes,
    List.takeWhile_cons_of_neg (by simp [fails]), List.append_nil]

theorem takeWhile_ne {stop : UInt8} {before : List UInt8}
    (absent : stop ∉ before) (after : List UInt8) :
    (before ++ stop :: after).takeWhile (· != stop) = before := by
  refine takeWhile_stop ?_ (by simp) after
  intro byte member
  simpa using fun same : byte = stop => absent (same ▸ member)

/-- The loop of `split_line` stops at a separator and at a NUL. -/
theorem takeWhile_split {first : List UInt8} {stop : UInt8}
    (stops : stop = pipeChar ∨ stop = 0) (absent : pipeChar ∉ first)
    (nulFree : 0 ∉ first) (after : List UInt8) :
    (first ++ stop :: after).takeWhile
      (fun byte => byte != pipeChar && byte != 0) = first := by
  refine takeWhile_stop ?_ ?_ after
  · intro byte member
    have notPipe : byte ≠ pipeChar := fun same => absent (same ▸ member)
    have notNul : byte ≠ 0 := fun same => nulFree (same ▸ member)
    simp [notPipe, notNul]
  · rcases stops with rfl | rfl <;> rfl

theorem blockContains_of_not_mem {block : List UInt8} {c : UInt8}
    (absent : c ∉ block) : blockContains block c = -1 := by
  have none : block.findIdx? (· == c) = none := by
    rw [List.findIdx?_eq_none_iff]
    intro byte member
    simpa using fun same : byte = c => absent (same ▸ member)
  rw [blockContains, none]

theorem blockContains_append {before : List UInt8} {c : UInt8}
    (absent : c ∉ before) (after : List UInt8) :
    blockContains (before ++ c :: after) c = before.length := by
  have found : (before ++ c :: after).findIdx? (· == c) =
      some before.length := by
    rw [List.findIdx?_eq_some_iff_getElem]
    refine ⟨by simp, by simp, ?_⟩
    intro j below
    rw [List.getElem_append_left below]
    simpa using fun same : before[j] = c =>
      absent (same ▸ List.getElem_mem below)
  rw [blockContains, found]

/-! ## One command -/

theorem parseToken_scmd (globals : Globals) (c : Execcmd) (tok : List UInt8) :
    (parseToken globals c tok).scmd = c.scmd := by
  unfold parseToken parseRedirFlow parseEnvironVar
  dsimp only
  split
  · rename_i redirected found
    split at found
    · split at found
      · rw [← Option.some.inj found]
      · split at found
        · split at found <;> rw [← Option.some.inj found]
        · rw [← Option.some.inj found]
    · split at found
      · rw [← Option.some.inj found]
      · cases found
  · split
    · rename_i assigned found
      split at found
      · rw [← Option.some.inj found]
      · cases found
    · split <;> rfl

theorem parseExec_scmd (globals : Globals) (bufCmd : List UInt8) :
    (parseExec globals bufCmd).scmd = bufCmd := by
  have loop : ∀ fuel c rest,
      (parseExecFrom globals fuel c rest).scmd = c.scmd := by
    intro fuel
    induction fuel with
    | zero => intro c rest; rfl
    | succ fuel induction =>
        intro c rest
        rw [parseExecFrom]
        split
        · rfl
        · exact (induction _ _).trans (parseToken_scmd globals c _)
  exact loop _ _ _

/-- What `parse_cmd` makes of a segment, when the byte in front of it is
`before`. -/
def segmentCmd (globals : Globals) (before : UInt8) (segment : List UInt8) :
    Cmd :=
  if segment = [] then
    .null
  else if backChar ∈ segment ∧
      (segment.takeWhile (· != backChar)).getLastD before ≠ greater then
    backCmdCreate
      (parseExec globals (segment.takeWhile (· != backChar)))
  else
    .exec (parseExec globals segment)

theorem byteBefore_inside (front : UInt8) (before start after : List UInt8) :
    byteBefore front (before ++ (start ++ after))
        (before.length + start.length) =
      start.getLastD
        (byteBefore front (before ++ (start ++ after)) before.length) := by
  rcases List.eq_nil_or_concat start with rfl | ⟨init, last, rfl⟩
  · rfl
  · rw [List.concat_eq_append, List.getLastD_concat]
    unfold byteBefore
    rw [if_neg (by simp)]
    have position : before.length + (init ++ [last]).length - 1 =
        before.length + init.length := by
      simp
    rw [position, List.append_assoc, List.getD_eq_getElem?_getD,
      List.getElem?_append_right (by omega)]
    simp

theorem byteBefore_append (front : UInt8) (before after : List UInt8) :
    byteBefore front (before ++ after) before.length = before.getLastD front := by
  have inside := byteBefore_inside front [] before after
  rwa [List.length_nil, Nat.zero_add, List.nil_append] at inside

/-- `parse_cmd` on a segment inside a buffer.  It changes nothing outside of the
segment. -/
theorem parseCmd_inside (globals : Globals) (front : UInt8)
    (before : List UInt8) {segment : List UInt8} (nulFree : 0 ∉ segment)
    (after : List UInt8) :
    ∃ changed, changed.length = segment.length ∧
      parseCmd globals front (before ++ (segment ++ 0 :: after))
          before.length =
        (before ++ (changed ++ 0 :: after),
          segmentCmd globals (before.getLastD front) segment) := by
  rw [← byteBefore_append front before (segment ++ 0 :: after)]
  have here : text ((before ++ (segment ++ 0 :: after)).drop before.length) =
      segment := by
    rw [List.drop_left, text_append_nul _ nulFree]
  unfold parseCmd segmentCmd
  rw [here]
  dsimp only
  by_cases empty : segment = []
  · rw [if_pos (by rw [empty]; rfl), if_pos empty]
    exact ⟨segment, rfl, rfl⟩
  rw [if_neg (by simpa using empty), if_neg empty]
  by_cases isBack : backChar ∈ segment
  · obtain ⟨start, back, rfl, first⟩ := List.eq_append_cons_of_mem isBack
    have stops := takeWhile_ne first
    have startFree : 0 ∉ start := fun member =>
      nulFree (List.mem_append_left _ member)
    have previous := byteBefore_inside front before start
      (backChar :: (back ++ 0 :: after))
    rw [blockContains_append first, stops]
    simp only [List.append_assoc, List.cons_append, Int.toNat_natCast, isBack,
      true_and, previous]
    by_cases alone : start.getLastD (byteBefore front
        (before ++ (start ++ backChar :: (back ++ 0 :: after))) before.length) =
          greater
    · rw [if_neg (fun taken => taken.2 alone), if_neg (fun taken => taken alone)]
      exact ⟨start ++ backChar :: back, by simp, by simp⟩
    · rw [if_pos ⟨Int.natCast_nonneg _, alone⟩, if_pos alone]
      refine ⟨start ++ 0 :: back, by simp, ?_⟩
      unfold parseBack
      rw [List.drop_left, stops, ← List.length_append, ← List.append_assoc]
      dsimp only
      rw [set_length, List.append_assoc, List.drop_left,
        text_append_nul _ startFree]
      simp
  · rw [blockContains_of_not_mem isBack,
      if_neg (fun taken => absurd taken.1 (by decide)),
      if_neg (fun taken => isBack taken.1)]
    exact ⟨segment, rfl, rfl⟩

theorem parseSegment_eq (globals : Globals) (front : UInt8)
    {segment : List UInt8} (nulFree : 0 ∉ segment) :
    parseSegment globals front segment = segmentCmd globals front segment := by
  obtain ⟨changed, -, parsed⟩ := parseCmd_inside globals front [] nulFree []
  exact congrArg Prod.snd parsed

/-- Behind a NUL or a space the byte in front of a segment does not matter. -/
theorem segmentCmd_inside (globals : Globals) {before : UInt8}
    (ordinary : before ≠ greater) (segment : List UInt8) :
    segmentCmd globals before segment = segmentCmd globals 0 segment := by
  unfold segmentCmd
  generalize segment.takeWhile (· != backChar) = start
  have nul : (0 : UInt8) ≠ greater := by decide
  rcases List.eq_nil_or_concat start with rfl | ⟨init, last, rfl⟩
  · simp [ordinary, nul]
  · simp

theorem segmentCmd_leafTexts (globals : Globals) (before : UInt8)
    (segment : List UInt8) :
    ∀ leaf ∈ (segmentCmd globals before segment).leafTexts,
      leaf <+: segment := by
  unfold segmentCmd
  split
  · simp [Cmd.leafTexts]
  · split
    · simp [backCmdCreate, Cmd.leafTexts, parseExec_scmd, List.takeWhile_prefix]
    · simp [Cmd.leafTexts, parseExec_scmd]

/-- A command that starts with a separator keeps it. -/
theorem segmentCmd_separator (globals : Globals) (before : UInt8)
    (segment : List UInt8) :
    ∃ leaf ∈ (segmentCmd globals before (pipeChar :: segment)).leafTexts,
      pipeChar ∈ leaf := by
  unfold segmentCmd
  rw [if_neg (by simp)]
  split
  · refine ⟨_, List.mem_singleton_self _, ?_⟩
    rw [parseExec_scmd, List.takeWhile_cons_of_pos (by decide)]
    exact List.mem_cons_self
  · refine ⟨_, List.mem_singleton_self _, ?_⟩
    rw [parseExec_scmd]
    exact List.mem_cons_self

/-! ## The segments of a line -/

theorem splitOn_append_of_not_mem {before : List UInt8}
    (absent : pipeChar ∉ before) (after : List UInt8) :
    (before ++ after).splitOn pipeChar =
      (after.splitOn pipeChar).modifyHead (before ++ ·) := by
  induction before with
  | nil =>
      rw [List.nil_append]
      cases after.splitOn pipeChar <;> rfl
  | cons byte before induction =>
      have different : byte ≠ pipeChar := fun same =>
        absent (same ▸ List.mem_cons_self)
      rw [List.cons_append, List.splitOn_cons_eq_if_modifyHead,
        if_neg (by simpa using different),
        induction fun member => absent (List.mem_cons_of_mem _ member)]
      cases after.splitOn pipeChar <;> rfl

theorem segments_of_not_mem {line : List UInt8} (absent : pipeChar ∉ line) :
    segments line = [line] := by
  rw [segments, List.splitOn_eq_singleton absent]
  rfl

/-- The first segment, and the segments behind the separator and its spaces. -/
theorem segments_append {first rest spaces : List UInt8}
    (absent : pipeChar ∉ first) (blank : ∀ byte ∈ spaces, byte = space)
    (start : rest.head? ≠ some space) :
    segments (first ++ pipeChar :: (spaces ++ rest)) =
      first :: segments rest := by
  have noPipe : pipeChar ∉ spaces := fun member =>
    absurd (blank _ member) (by decide)
  have parts : (first ++ pipeChar :: (spaces ++ rest)).splitOn pipeChar =
      first :: (rest.splitOn pipeChar).modifyHead (spaces ++ ·) := by
    rw [List.splitOn_append_cons_self_of_not_mem absent,
      splitOn_append_of_not_mem noPipe]
  rw [segments, parts]
  unfold segments
  cases split : rest.splitOn pipeChar with
  | nil => exact absurd split (List.splitOn_ne_nil _ _)
  | cons head tail =>
      have stripped : (spaces ++ head).dropWhile (· == space) = head := by
        have headStart : head.head? ≠ some space := by
          intro isSpace
          cases rest with
          | nil =>
              rw [List.splitOn_nil] at split
              cases split
              cases isSpace
          | cons byte rest =>
              rw [List.splitOn_cons_eq_if_modifyHead] at split
              split at split
              · cases split
                cases isSpace
              · cases parts : rest.splitOn pipeChar with
                | nil => exact List.splitOn_ne_nil _ _ parts
                | cons next others =>
                    rw [parts] at split
                    cases split
                    exact start isSpace
        rw [List.dropWhile_append_of_pos (by simpa using blank)]
        cases head with
        | nil => rfl
        | cons byte head =>
            rw [List.dropWhile_cons_of_neg]
            simpa using headStart
      rw [List.modifyHead_cons]
      dsimp only
      rw [List.map_cons, stripped]

theorem pipeline_of_not_mem (globals : Globals) (front : UInt8)
    {line : List UInt8} (absent : pipeChar ∉ line) :
    pipeline globals front line = parseSegment globals front line := by
  rw [pipeline, segments_of_not_mem absent]
  rfl

theorem pipeline_append (globals : Globals) (front : UInt8)
    {first rest spaces : List UInt8} (absent : pipeChar ∉ first)
    (blank : ∀ byte ∈ spaces, byte = space)
    (start : rest.head? ≠ some space) :
    pipeline globals front (first ++ pipeChar :: (spaces ++ rest)) =
      pipeCmdCreate (parseSegment globals front first)
        (pipeline globals 0 rest) := by
  rw [pipeline, segments_append absent blank start]
  unfold pipeline
  cases segments rest <;> rfl

theorem segments_ne_nil (line : List UInt8) : segments line ≠ [] := by
  unfold segments
  cases split : line.splitOn pipeChar with
  | nil => exact absurd split (List.splitOn_ne_nil _ _)
  | cons head tail => exact List.cons_ne_nil _ _

/-! ## The run of `parse_line` -/

/-- `split_line` stores a NUL and skips the spaces behind it. -/
theorem splitLine_inside (before : List UInt8)
    {first spaces rest : List UInt8} {stop : UInt8}
    (stops : stop = pipeChar ∨ stop = 0) (absent : pipeChar ∉ first)
    (nulFree : 0 ∉ first) (blank : ∀ byte ∈ spaces, byte = space)
    (start : rest.head? ≠ some space) :
    splitLine (before ++ (first ++ stop :: (spaces ++ rest))) before.length
        pipeChar =
      (before ++ (first ++ 0 :: (spaces ++ rest)),
        before.length + first.length + 1 + spaces.length) := by
  have scan := takeWhile_split stops absent nulFree (spaces ++ rest)
  have skip : (spaces ++ rest).takeWhile (· == space) = spaces := by
    rw [List.takeWhile_append_of_pos (by simpa using blank)]
    cases rest with
    | nil => simp
    | cons byte rest =>
        rw [List.takeWhile_cons_of_neg (by simpa using start), List.append_nil]
  have cut : (before ++ (first ++ stop :: (spaces ++ rest))).set
      (before.length + first.length) 0 =
        before ++ (first ++ 0 :: (spaces ++ rest)) := by
    rw [← List.length_append, ← List.append_assoc, set_length,
      List.append_assoc]
  have behind : (before ++ (first ++ 0 :: (spaces ++ rest))).drop
      (before.length + first.length + 1) = spaces ++ rest := by
    have whole : before ++ (first ++ 0 :: (spaces ++ rest)) =
        (before ++ first ++ [0]) ++ (spaces ++ rest) := by simp
    rw [whole, List.drop_left' (by simp [Nat.add_assoc])]
  unfold splitLine
  rw [List.drop_left, scan]
  dsimp only
  rw [cut, behind, skip]

/-- On an empty rest `parse_line` and `parse_cmd` do nothing. -/
theorem parseCmd_empty (globals : Globals) (front : UInt8) {buf : List UInt8}
    {p : Nat} (empty : text (buf.drop p) = []) :
    parseCmd globals front buf p = (buf, .null) := by
  unfold parseCmd
  rw [empty]
  rfl

theorem pipeCmdCreate_null (left : Cmd) : pipeCmdCreate left .null = left :=
  if_pos rfl

/-- The last call: without a separator the right command is empty. -/
theorem parseLineFrom_last (globals : Globals) (front : UInt8) (fuel : Nat)
    (before : List UInt8) {line : List UInt8} (after : List UInt8)
    (nulFree : 0 ∉ line) (absent : pipeChar ∉ line) :
    (parseLineFrom globals front (fuel + 1)
      (before ++ (line ++ 0 :: 0 :: after)) before.length).2 =
        parseSegment globals (before.getLastD front) line := by
  have split := splitLine_inside before (.inr rfl) absent nulFree
    (List.forall_mem_nil _)
    (show (0 :: after).head? ≠ some space by simp [space])
  obtain ⟨changed, sameLength, parsed⟩ :=
    parseCmd_inside globals front before nulFree (0 :: after)
  have behind : text ((before ++ (changed ++ 0 :: 0 :: after)).drop
      (before.length + line.length + 1)) = [] := by
    have whole : before ++ (changed ++ 0 :: 0 :: after) =
        (before ++ changed ++ [0]) ++ (0 :: after) := by simp
    rw [whole, List.drop_left' (by simp [sameLength, Nat.add_assoc])]
    rfl
  rw [List.nil_append] at split
  rw [parseLineFrom, split]
  dsimp only
  rw [parsed]
  dsimp only
  rw [List.length_nil, Nat.add_zero, behind, if_neg (by decide),
    parseCmd_empty globals front behind, pipeCmdCreate_null,
    parseSegment_eq globals _ nulFree]

/-- The first half of a call: the buffer is cut behind the first command, and the
rest behind the spaces is found. -/
theorem splitLine_parseCmd (globals : Globals) (front : UInt8)
    (before : List UInt8) {first spaces rest : List UInt8} {stop : UInt8}
    (after : List UInt8) (stops : stop = pipeChar ∨ stop = 0)
    (nulFree : 0 ∉ first) (absent : pipeChar ∉ first)
    (blank : ∀ byte ∈ spaces, byte = space) (start : rest.head? ≠ some space) :
    ∃ prior, prior.getLastD front ≠ greater ∧
      prior.length = before.length + first.length + 1 + spaces.length ∧
      splitLine
          (before ++ (first ++ stop :: (spaces ++ (rest ++ 0 :: after))))
          before.length pipeChar =
        (before ++ (first ++ 0 :: (spaces ++ (rest ++ 0 :: after))),
          prior.length) ∧
      parseCmd globals front
          (before ++ (first ++ 0 :: (spaces ++ (rest ++ 0 :: after))))
          before.length =
        (prior ++ (rest ++ 0 :: after),
          segmentCmd globals (before.getLastD front) first) := by
  have startBehind : (rest ++ 0 :: after).head? ≠ some space := by
    cases rest with
    | nil => simp [space]
    | cons byte rest => exact start
  have split := splitLine_inside before stops absent nulFree blank
    startBehind
  obtain ⟨changed, sameLength, parsed⟩ := parseCmd_inside globals front before
    nulFree (spaces ++ (rest ++ 0 :: after))
  obtain ⟨prior, isPrior⟩ : ∃ prior, prior = before ++ (changed ++ 0 :: spaces) :=
    ⟨_, rfl⟩
  have whole : before ++ (changed ++ 0 :: (spaces ++ (rest ++ 0 :: after))) =
      prior ++ (rest ++ 0 :: after) := by
    simp [isPrior]
  have position : prior.length =
      before.length + first.length + 1 + spaces.length := by
    rw [isPrior]
    simp only [List.length_append, List.length_cons, sameLength]
    omega
  have ordinary : prior.getLastD front ≠ greater := by
    rw [isPrior]
    rcases List.eq_nil_or_concat spaces with rfl | ⟨init, last, rfl⟩
    · simp [greater]
    · have regroup : before ++ (changed ++ 0 :: init.concat last) =
          (before ++ (changed ++ 0 :: init)) ++ [last] := by simp
      rw [regroup, List.getLastD_concat, blank last (by simp)]
      decide
  rw [← position] at split
  rw [whole] at parsed
  exact ⟨prior, ordinary, position, split, parsed⟩

/-- A call that stops with a rest behind it: the left command, and what becomes of
the rest behind the spaces. -/
theorem parseLineFrom_split (globals : Globals) (front : UInt8) (fuel : Nat)
    (before : List UInt8) {first spaces rest : List UInt8} {stop : UInt8}
    (after : List UInt8) (stops : stop = pipeChar ∨ stop = 0)
    (nulFree : 0 ∉ first) (absent : pipeChar ∉ first)
    (restFree : 0 ∉ rest) (blank : ∀ byte ∈ spaces, byte = space)
    (start : rest.head? ≠ some space) :
    ∃ prior, prior.getLastD front ≠ greater ∧
      (parseLineFrom globals front (fuel + 1)
        (before ++ (first ++ stop :: (spaces ++ (rest ++ 0 :: after))))
        before.length).2 =
          pipeCmdCreate (parseSegment globals (before.getLastD front) first)
            (if blockContains rest pipeChar > 0 then
              (parseLineFrom globals front fuel
                (prior ++ (rest ++ 0 :: after)) prior.length).2
            else
              parseSegment globals 0 rest) := by
  obtain ⟨prior, ordinary, -, split, parsed⟩ := splitLine_parseCmd globals front
    before after stops nulFree absent blank start
  have here : text ((prior ++ (rest ++ 0 :: after)).drop prior.length) =
      rest := by
    rw [List.drop_left, text_append_nul _ restFree]
  obtain ⟨others, -, parsedRest⟩ :=
    parseCmd_inside globals front prior restFree after
  refine ⟨prior, ordinary, ?_⟩
  rw [parseLineFrom, split]
  dsimp only
  rw [parsed]
  dsimp only
  rw [here, parsedRest, segmentCmd_inside globals ordinary,
    parseSegment_eq globals _ nulFree, parseSegment_eq globals _ restFree]
  split <;> rfl

theorem leadingSpaces (line : List UInt8) :
    ∃ spaces rest, line = spaces ++ rest ∧
      (∀ byte ∈ spaces, byte = space) ∧ rest.head? ≠ some space := by
  refine ⟨line.takeWhile (· == space), line.dropWhile (· == space),
    List.takeWhile_append_dropWhile.symm, ?_, ?_⟩
  · intro byte member
    simpa using List.mem_takeWhile_imp member
  · intro isSpace
    have stopped := List.head?_dropWhile_not (· == space) line
    rw [isSpace] at stopped
    simp at stopped

theorem leafTexts_pipeCmdCreate (left : Cmd) {right : Cmd} {leaf : List UInt8}
    (member : leaf ∈ right.leafTexts) :
    leaf ∈ (pipeCmdCreate left right).leafTexts := by
  unfold pipeCmdCreate
  split
  · rename_i isNull
    rw [isNull] at member
    cases member
  · exact List.mem_append_right _ member

theorem pipeCmdCreate_rest {good : Prop} (left : Cmd) {right expected : Cmd}
    (rest : (good → right = expected) ∧
      (¬ good → ∃ leaf ∈ right.leafTexts, pipeChar ∈ leaf)) :
    (good → pipeCmdCreate left right = pipeCmdCreate left expected) ∧
      (¬ good → ∃ leaf ∈ (pipeCmdCreate left right).leafTexts,
        pipeChar ∈ leaf) := by
  refine ⟨fun isGood => by rw [rest.1 isGood], fun bad => ?_⟩
  obtain ⟨leaf, member, separator⟩ := rest.2 bad
  exact ⟨leaf, leafTexts_pipeCmdCreate left member, separator⟩

/-- The right command behind a separator, given what the next call makes of
it. -/
theorem rest_spec (globals : Globals) {before : UInt8}
    {rest : List UInt8} {next : Cmd} (nulFree : 0 ∉ rest)
    (ordinary : before ≠ greater)
    (called : (NoBlankMiddle rest → next = pipeline globals before rest) ∧
      (¬ NoBlankMiddle rest → ∃ leaf ∈ next.leafTexts, pipeChar ∈ leaf)) :
    let right := if blockContains rest pipeChar > 0 then next
      else parseSegment globals 0 rest
    ([] ∉ (segments rest).dropLast → right = pipeline globals 0 rest) ∧
      (¬ [] ∉ (segments rest).dropLast →
        ∃ leaf ∈ right.leafTexts, pipeChar ∈ leaf) := by
  dsimp only
  by_cases isLast : pipeChar ∉ rest
  · rw [blockContains_of_not_mem isLast, if_neg (by decide),
      segments_of_not_mem isLast, pipeline_of_not_mem globals _ isLast]
    exact ⟨fun _ => rfl, fun bad => absurd List.not_mem_nil bad⟩
  obtain ⟨first, others, rfl, absent⟩ :=
    List.eq_append_cons_of_mem (not_not.mp isLast)
  obtain ⟨spaces, others, rfl, blank, start⟩ := leadingSpaces others
  have nonempty := segments_ne_nil others
  rw [blockContains_append absent, segments_append absent blank start,
    List.dropLast_cons_of_ne_nil nonempty]
  cases first with
  | nil =>
      rw [if_neg (by simp), parseSegment_eq globals _ nulFree]
      exact ⟨fun good => absurd List.mem_cons_self good,
        fun _ => segmentCmd_separator globals 0 _⟩
  | cons byte first =>
      have middle : NoBlankMiddle
          (byte :: first ++ pipeChar :: (spaces ++ others)) ↔
            [] ∉ (byte :: first) :: (segments others).dropLast := by
        unfold NoBlankMiddle
        rw [segments_append absent blank start]
        simp
      have firstFree : 0 ∉ byte :: first := fun member =>
        nulFree (List.mem_append_left _ member)
      have same : pipeline globals before
          (byte :: first ++ pipeChar :: (spaces ++ others)) =
            pipeline globals 0
              (byte :: first ++ pipeChar :: (spaces ++ others)) := by
        rw [pipeline_append globals _ absent blank start,
          pipeline_append globals _ absent blank start,
          parseSegment_eq globals _ firstFree,
          parseSegment_eq globals _ firstFree,
          segmentCmd_inside globals ordinary]
      rw [if_pos (by simp), ← middle, ← same]
      exact called

/-- What a call of `parse_line` makes of the rest of the line.  The induction is
on the calls that are left. -/
theorem parseLineFrom_spec (globals : Globals) (front : UInt8) {fuel : Nat}
    (before : List UInt8) {line : List UInt8} (after : List UInt8)
    (nulFree : 0 ∉ line) (enough : line.length < fuel) :
    let tree := (parseLineFrom globals front fuel
      (before ++ (line ++ 0 :: 0 :: after)) before.length).2
    (NoBlankMiddle line →
      tree = pipeline globals (before.getLastD front) line) ∧
    (¬ NoBlankMiddle line → ∃ leaf ∈ tree.leafTexts, pipeChar ∈ leaf) := by
  induction fuel generalizing before line with
  | zero => exact absurd enough (Nat.not_lt_zero _)
  | succ fuel induction =>
      by_cases isLast : pipeChar ∉ line
      · dsimp only
        rw [parseLineFrom_last globals front fuel before after nulFree isLast,
          pipeline_of_not_mem globals _ isLast]
        refine ⟨fun _ => rfl, fun blankMiddle => absurd ?_ blankMiddle⟩
        unfold NoBlankMiddle
        rw [segments_of_not_mem isLast]
        exact List.not_mem_nil
      · obtain ⟨first, others, rfl, absent⟩ :=
          List.eq_append_cons_of_mem (not_not.mp isLast)
        obtain ⟨spaces, rest, rfl, blank, start⟩ := leadingSpaces others
        have firstFree : 0 ∉ first := fun member =>
          nulFree (List.mem_append_left _ member)
        have restFree : 0 ∉ rest := fun member =>
          nulFree (List.mem_append_right _ (List.mem_cons_of_mem _
            (List.mem_append_right _ member)))
        have shorter : rest.length < fuel := by
          simp only [List.length_append, List.length_cons] at enough
          omega
        obtain ⟨prior, ordinary, split⟩ := parseLineFrom_split globals front
          fuel before (0 :: after) (.inl rfl) firstFree absent restFree blank
          start
        have middle : NoBlankMiddle
            (first ++ pipeChar :: (spaces ++ rest)) ↔
              [] ∉ (segments rest).dropLast := by
          unfold NoBlankMiddle
          rw [segments_append absent blank start, List.tail_cons]
        have sameBuffer : before ++ (first ++ pipeChar :: (spaces ++ rest) ++
            0 :: 0 :: after) = before ++ (first ++ pipeChar ::
              (spaces ++ (rest ++ 0 :: 0 :: after))) := by simp
        dsimp only
        rw [sameBuffer, split, pipeline_append globals _ absent blank start,
          middle]
        refine pipeCmdCreate_rest _ ?_
        exact rest_spec globals restFree ordinary
          (induction prior restFree shorter)

/-! ## Lines -/

theorem leafTexts_parseSegment (globals : Globals) (front : UInt8)
    {segment : List UInt8} (nulFree : 0 ∉ segment)
    (absent : pipeChar ∉ segment) :
    ∀ leaf ∈ (parseSegment globals front segment).leafTexts,
      pipeChar ∉ leaf := by
  intro leaf member
  rw [parseSegment_eq globals _ nulFree] at member
  have isPrefix := segmentCmd_leafTexts globals front segment leaf member
  exact fun inside => absent (isPrefix.subset inside)

theorem leafTexts_pipeline (globals : Globals) (front : UInt8)
    {line : List UInt8} (nulFree : 0 ∉ line) :
    ∀ leaf ∈ (pipeline globals front line).leafTexts, pipeChar ∉ leaf := by
  induction length : line.length using Nat.strongRecOn generalizing line front with
  | ind bound induction =>
      by_cases isLast : pipeChar ∉ line
      · rw [pipeline_of_not_mem globals _ isLast]
        exact leafTexts_parseSegment globals front nulFree isLast
      · obtain ⟨first, others, rfl, absent⟩ :=
          List.eq_append_cons_of_mem (not_not.mp isLast)
        obtain ⟨spaces, rest, rfl, blank, start⟩ := leadingSpaces others
        have firstFree : 0 ∉ first := fun member =>
          nulFree (List.mem_append_left _ member)
        have restFree : 0 ∉ rest := fun member =>
          nulFree (List.mem_append_right _ (List.mem_cons_of_mem _
            (List.mem_append_right _ member)))
        have left := leafTexts_parseSegment globals front firstFree absent
        have right := induction rest.length
          (by simp only [List.length_append, List.length_cons] at length; omega)
          0 restFree rfl
        intro leaf member
        rw [pipeline_append globals _ absent blank start] at member
        unfold pipeCmdCreate at member
        split at member
        · exact left leaf member
        · exact (List.mem_append.mp member).elim (left leaf) (right leaf)

/-- The buffer in which `read_line` leaves a line that fits. -/
theorem readLine_eq {line : List UInt8} (input : List UInt8)
    (oneLine : endLine ∉ line) (short : line.length ≤ buflen - 2) :
    readLine (line ++ endLine :: input) =
      some (line ++ 0 :: 0 :: zeros (buflen - 2 - line.length)) := by
  have taken := takeWhile_ne oneLine input
  have fits : 0 + (line ++ [0]).length ≤ (zeros buflen).length := by
    simp only [length_zeros, List.length_append, List.length_cons,
      List.length_nil]
    unfold buflen at *
    omega
  have behind : (zeros buflen).drop (0 + (line ++ [0]).length) =
      0 :: zeros (buflen - 2 - line.length) := by
    unfold zeros
    rw [List.drop_replicate, ← List.replicate_succ]
    congr 1
    simp only [List.length_append, List.length_cons, List.length_nil]
    unfold buflen at *
    omega
  unfold readLine
  rw [if_pos (by simp), taken, overwrite_of_fits fits, behind]
  simp

/-- `parse_line` builds the pipeline that a line stands for exactly when no
segment between two separators is blank. -/
theorem parsesPipeline_iff (globals : Globals) (front : UInt8)
    {line : List UInt8} (input : List UInt8) (oneLine : endLine ∉ line)
    (nulFree : 0 ∉ line) (short : line.length ≤ buflen - 2) :
    ∃ buf, readLine (line ++ endLine :: input) = some buf ∧
      (ParsesPipeline globals front line (parseLine globals front buf) ↔
        NoBlankMiddle line) := by
  refine ⟨_, readLine_eq input oneLine short, ?_⟩
  obtain ⟨good, bad⟩ := parseLineFrom_spec globals front
    [] (zeros (buflen - 2 - line.length)) nulFree
    (show line.length <
      (line ++ 0 :: 0 :: zeros (buflen - 2 - line.length)).length by
        simp only [List.length_append, List.length_cons]
        omega)
  constructor
  · rintro ⟨-, separated⟩
    by_contra blankMiddle
    obtain ⟨leaf, member, separator⟩ := bad blankMiddle
    exact separated leaf member separator
  · intro noBlank
    have isPipeline : parseLine globals front _ = pipeline globals front line :=
      good noBlank
    refine ⟨isPipeline, ?_⟩
    rw [isPipeline]
    exact leafTexts_pipeline globals front nulFree

/-- The line `ls|wc`. -/
theorem parsesPipeline_two :
    ∃ buf, readLine ([108, 115, 124, 119, 99] ++ endLine :: []) = some buf ∧
      (ParsesPipeline ⟨0, fun _ => none⟩ 0 [108, 115, 124, 119, 99]
          (parseLine ⟨0, fun _ => none⟩ 0 buf) ↔
        NoBlankMiddle [108, 115, 124, 119, 99]) :=
  parsesPipeline_iff _ _ _ (by decide) (by decide) (by decide)

/-- The line `a||b` gives the commands `a` and `|b`. -/
theorem not_parsesPipeline_blank :
    ∃ buf, readLine ([97, 124, 124, 98] ++ endLine :: []) = some buf ∧
      ¬ ParsesPipeline ⟨0, fun _ => none⟩ 0 [97, 124, 124, 98]
          (parseLine ⟨0, fun _ => none⟩ 0 buf) := by
  refine ⟨_, rfl, ?_⟩
  rintro ⟨-, separated⟩
  exact separated [124, 98] (by decide +kernel) (by decide)

end FeaturesOS.Shell

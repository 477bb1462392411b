import FeaturesOS.Shell.Words

/-!
# The commands of a line

The texts that `parse_line` cuts any line into, also one with NULs, and when each
of them is a command that can be run.
-/

namespace FeaturesOS.Shell

open CString

variable {globals : Globals} {front : UInt8}

/-! ## The texts of a line -/

/-- The texts behind a separator.  A separator at the beginning is not one: the
rest stays together. -/
def followingTexts : Nat → List UInt8 → List (List UInt8)
  | 0, _ => []
  | fuel + 1, right =>
      if blockContains right pipeChar > 0 then
        let first := right.takeWhile (· != pipeChar)
        first :: followingTexts fuel
          ((right.drop (first.length + 1)).dropWhile (· == space))
      else if right = [] then
        []
      else
        [right]

/-- A byte at which `split_line` goes on. -/
def inText (byte : UInt8) : Bool := byte != pipeChar && byte != 0

/-- The texts that `parse_line` takes for commands.  A NUL separates like a `|`,
when there is no other separator in front of it. -/
def commandTexts (line : List UInt8) : List (List UInt8) :=
  let first := line.takeWhile inText
  let right :=
    text ((line.drop (first.length + 1)).dropWhile (· == space))
  first :: followingTexts right.length right

/-- The tree of some texts; the byte `front` precedes the first one. -/
def treeOf (globals : Globals) (front : UInt8) : List (List UInt8) → Cmd
  | [] => .null
  | first :: rest =>
      pipelineOf
        (segmentCmd globals front first :: rest.map (segmentCmd globals 0))

/-! ## The texts of a call -/

/-- A text in front of a separator, and the rest without its leading spaces. -/
theorem followingTexts_append {first spaces rest : List UInt8}
    (fuel : Nat) (nonempty : first ≠ []) (absent : pipeChar ∉ first)
    (blank : ∀ byte ∈ spaces, byte = space) (start : rest.head? ≠ some space) :
    followingTexts (fuel + 1) (first ++ pipeChar :: (spaces ++ rest)) =
      first :: followingTexts fuel rest := by
  have positive := List.length_pos_iff.mpr nonempty
  have stops := takeWhile_ne absent (spaces ++ rest)
  have behind : (first ++ pipeChar :: (spaces ++ rest)).drop
      (first.length + 1) = spaces ++ rest := by
    have whole : first ++ pipeChar :: (spaces ++ rest) =
        (first ++ [pipeChar]) ++ (spaces ++ rest) := by simp
    rw [whole, List.drop_left' (by simp)]
  have stripped : (spaces ++ rest).dropWhile (· == space) = rest := by
    rw [List.dropWhile_append_of_pos (by simpa using blank)]
    cases rest with
    | nil => rfl
    | cons byte rest =>
        rw [List.dropWhile_cons_of_neg]
        simpa using start
  rw [followingTexts, blockContains_append absent, if_pos (by omega)]
  dsimp only
  rw [stops, behind, stripped]

/-- A text that is not cut any further. -/
theorem followingTexts_last {right : List UInt8} (fuel : Nat)
    (whole : ¬ blockContains right pipeChar > 0) (nonempty : right ≠ []) :
    followingTexts (fuel + 1) right = [right] := by
  rw [followingTexts, if_neg whole, if_neg nonempty]

/-- A text with a separator that is not at its beginning. -/
theorem cutText {right : List UInt8} (cut : blockContains right pipeChar > 0) :
    ∃ first spaces rest, right = first ++ pipeChar :: (spaces ++ rest) ∧
      first ≠ [] ∧ pipeChar ∉ first ∧ (∀ byte ∈ spaces, byte = space) ∧
      rest.head? ≠ some space := by
  have inside : pipeChar ∈ right := by
    rw [← blockContains_nonneg]
    omega
  obtain ⟨first, others, rfl, absent⟩ := List.eq_append_cons_of_mem inside
  obtain ⟨spaces, rest, rfl, blank, start⟩ := leadingSpaces others
  refine ⟨first, spaces, rest, rfl, ?_, absent, blank, start⟩
  rintro rfl
  rw [blockContains_append absent] at cut
  exact absurd cut (by simp)

/-- What a call makes of the text behind a separator.  The induction is on the
length of the text. -/
theorem parseLineFrom_following (globals : Globals) (front : UInt8)
    {calls fuel : Nat} (prior : List UInt8) {right : List UInt8}
    (after : List UInt8) (nulFree : 0 ∉ right)
    (ordinary : prior.getLastD front ≠ greater) (enough : right.length ≤ calls)
    (enough' : right.length ≤ fuel) :
    (if blockContains right pipeChar > 0 then
      (parseLineFrom globals front calls
        (prior ++ (right ++ 0 :: after)) prior.length).2
    else
      parseSegment globals 0 right) =
        pipelineOf ((followingTexts fuel right).map (segmentCmd globals 0)) := by
  induction fuel generalizing calls prior right with
  | zero =>
      rw [List.length_eq_zero_iff.mp (Nat.le_zero.mp enough')]
      rfl
  | succ fuel induction =>
      by_cases cut : blockContains right pipeChar > 0
      · obtain ⟨first, spaces, rest, rfl, nonempty, absent, blank, start⟩ :=
          cutText cut
        have firstFree : 0 ∉ first := fun member =>
          nulFree (List.mem_append_left _ member)
        have restFree : 0 ∉ rest := fun member =>
          nulFree (List.mem_append_right _ (List.mem_cons_of_mem _
            (List.mem_append_right _ member)))
        simp only [List.length_append, List.length_cons] at enough enough'
        cases calls with
        | zero => omega
        | succ calls =>
            obtain ⟨next, nextOrdinary, split⟩ := parseLineFrom_split globals
              front calls prior after (.inl rfl) firstFree absent restFree blank
              start
            have sameBuffer : prior ++ (first ++ pipeChar :: (spaces ++ rest) ++
                0 :: after) = prior ++ (first ++ pipeChar ::
                  (spaces ++ (rest ++ 0 :: after))) := by simp
            rw [if_pos cut, sameBuffer, split,
              induction next restFree nextOrdinary (by omega) (by omega),
              followingTexts_append fuel nonempty absent blank start,
              parseSegment_eq globals _ firstFree,
              segmentCmd_inside globals ordinary]
            rfl
      · rw [if_neg cut, parseSegment_eq globals _ nulFree]
        by_cases empty : right = []
        · rw [empty]
          rfl
        · rw [followingTexts_last fuel cut empty]
          exact (pipeCmdCreate_null _).symm

/-- The stop that ends the first text. -/
theorem firstStop {memory : List UInt8}
    (stopped : memory.takeWhile inText ≠ memory) :
    ∃ stop others, memory = memory.takeWhile inText ++ stop :: others ∧
      (stop = pipeChar ∨ stop = 0) := by
  have whole : memory.takeWhile inText ++ memory.dropWhile inText = memory :=
    List.takeWhile_append_dropWhile
  have isStop := List.head?_dropWhile_not inText memory
  cases rest : memory.dropWhile inText with
  | nil =>
      rw [rest, List.append_nil] at whole
      exact absurd whole stopped
  | cons stop others =>
      rw [rest] at whole isStop
      refine ⟨stop, others, whole.symm, ?_⟩
      by_contra neither
      rw [not_or] at neither
      simp [inText, neither.1, neither.2] at isStop

theorem not_mem_takeWhile_inText (memory : List UInt8) :
    pipeChar ∉ memory.takeWhile inText ∧ 0 ∉ memory.takeWhile inText := by
  constructor <;>
    exact fun member => absurd (List.mem_takeWhile_imp member) (by decide)

/-- The spaces behind a stop, and the text behind them. -/
theorem behindStop {others : List UInt8} (terminated : Terminated others) :
    ∃ after, others = others.takeWhile (· == space) ++
        (text (others.dropWhile (· == space)) ++ 0 :: after) ∧
      (∀ byte ∈ others.takeWhile (· == space), byte = space) ∧
      (text (others.dropWhile (· == space))).head? ≠ some space := by
  have blank : ∀ byte ∈ others.takeWhile (· == space), byte = space := by
    intro byte member
    simpa using List.mem_takeWhile_imp member
  have whole : others.takeWhile (· == space) ++ others.dropWhile (· == space) =
      others := List.takeWhile_append_dropWhile
  have terminatedRest : Terminated (others.dropWhile (· == space)) := by
    unfold Terminated at terminated
    rw [← whole] at terminated
    refine (List.mem_append.mp terminated).resolve_left fun member => ?_
    exact absurd (blank 0 member) (by decide)
  have stopped := List.head?_dropWhile_not (· == space) others
  obtain ⟨after, isRest⟩ := eq_text_append_of_terminated terminatedRest
  refine ⟨after, ?_, blank, ?_⟩
  · rw [← isRest, whole]
  · intro isSpace
    rw [isRest, List.head?_append, isSpace] at stopped
    simp at stopped

/-- What `parse_line` makes of any memory with a NUL behind the first stop. -/
theorem parseLineFrom_texts (globals : Globals) (front : UInt8) {calls : Nat}
    {memory : List UInt8}
    (terminated : 0 ∈ memory.drop ((memory.takeWhile inText).length + 1))
    (enough : memory.length ≤ calls) :
    (parseLineFrom globals front calls memory 0).2 =
      treeOf globals front (commandTexts memory) := by
  have stopped : memory.takeWhile inText ≠ memory := by
    intro same
    rw [same, List.drop_of_length_le (Nat.le_succ memory.length)] at terminated
    cases terminated
  obtain ⟨stop, others, whole, stops⟩ := firstStop stopped
  obtain ⟨absent, firstFree⟩ := not_mem_takeWhile_inText memory
  unfold commandTexts
  generalize memory.takeWhile inText = first at *
  have isBehind : memory.drop (first.length + 1) = others := by
    have regroup : memory = (first ++ [stop]) ++ others := by
      rw [whole]
      simp
    rw [regroup, List.drop_left' (by simp)]
  rw [isBehind] at terminated
  dsimp only
  rw [isBehind]
  obtain ⟨after, regroup, blank, start⟩ := behindStop terminated
  have length := congrArg List.length whole
  rw [regroup] at length
  simp only [List.length_append, List.length_cons] at length
  cases calls with
  | zero => omega
  | succ calls =>
      obtain ⟨prior, ordinary, split⟩ := parseLineFrom_split globals front calls
        [] after stops firstFree absent (text_nulFree _) blank start
      have following := parseLineFrom_following globals front prior after
        (text_nulFree (others.dropWhile (· == space))) ordinary
        (show _ ≤ calls by omega) (Nat.le_refl _)
      rw [following, List.nil_append, ← regroup, ← whole,
        parseSegment_eq globals _ firstFree] at split
      exact split

/-! ## The texts of a line in its buffer -/

theorem takeWhile_append_stop {Value : Type*} {test : Value → Bool}
    {stop : Value} (fails : test stop = false) (line after : List Value) :
    (line ++ stop :: after).takeWhile test = line.takeWhile test := by
  induction line with
  | nil => exact List.takeWhile_cons_of_neg (by simp [fails])
  | cons value line induction =>
      rw [List.cons_append, List.takeWhile_cons, List.takeWhile_cons, induction]

theorem text_dropWhile_append (line after : List UInt8) :
    text ((line ++ 0 :: after).dropWhile (· == space)) =
      text (line.dropWhile (· == space)) := by
  induction line with
  | nil => rfl
  | cons byte line induction =>
      rw [List.cons_append, List.dropWhile_cons, List.dropWhile_cons]
      split
      · exact induction
      · exact takeWhile_append_stop (by decide) (byte :: line) after

/-- What follows a line in its buffer does not matter. -/
theorem commandTexts_buffer (line after : List UInt8) :
    commandTexts (line ++ 0 :: 0 :: after) = commandTexts line := by
  have first : (line ++ 0 :: 0 :: after).takeWhile inText =
      line.takeWhile inText := takeWhile_append_stop (by decide) line _
  have right : text (((line ++ 0 :: 0 :: after).drop
      ((line.takeWhile inText).length + 1)).dropWhile (· == space)) =
        text ((line.drop ((line.takeWhile inText).length + 1)).dropWhile
          (· == space)) := by
    have atMost : (line.takeWhile inText).length ≤ line.length :=
      (List.takeWhile_prefix _).length_le
    by_cases inside : (line.takeWhile inText).length < line.length
    · rw [List.drop_append_of_le_length inside]
      exact text_dropWhile_append _ _
    · have whole : line.length = (line.takeWhile inText).length := by omega
      rw [← whole, List.drop_of_length_le (Nat.le_succ line.length),
        List.drop_append, List.drop_of_length_le (Nat.le_succ line.length),
        Nat.add_sub_cancel_left]
      rfl
  unfold commandTexts
  dsimp only
  rw [first, right]

/-- The tree of a line that fits in the buffer. -/
theorem parseLine_texts (globals : Globals) (front : UInt8)
    (line after : List UInt8) :
    parseLine globals front (line ++ 0 :: 0 :: after) =
      treeOf globals front (commandTexts line) := by
  have first : (line ++ 0 :: 0 :: after).takeWhile inText =
      line.takeWhile inText := takeWhile_append_stop (by decide) line _
  have atMost : (line.takeWhile inText).length ≤ line.length :=
    (List.takeWhile_prefix _).length_le
  rw [← commandTexts_buffer line after]
  refine parseLineFrom_texts globals front ?_ (Nat.le_refl _)
  rw [first]
  have second : (line ++ 0 :: 0 :: after).drop (line.length + 1) =
      0 :: after := by
    have regroup : line ++ 0 :: 0 :: after = (line ++ [0]) ++ 0 :: after := by
      simp
    rw [regroup, List.drop_left' (by simp)]
  have behind : 0 ∈ (line ++ 0 :: 0 :: after).drop (line.length + 1) := by
    rw [second]
    exact List.mem_cons_self
  exact (List.drop_sublist_drop_left _ (Nat.succ_le_succ atMost)).subset behind

/-! ## Commands that can be run -/

/-- The command has a program name, and its arguments end with a NULL inside of
`argv`. -/
def Execcmd.Runnable (c : Execcmd) : Prop :=
  1 ≤ c.argv.length ∧ c.argv.length < maxargs

instance (c : Execcmd) : Decidable c.Runnable :=
  inferInstanceAs (Decidable (_ ∧ _))

/-- No node of the tree is NULL, and every simple command can be run. -/
def Cmd.Runnable : Cmd → Prop
  | .null => False
  | .exec c => c.Runnable
  | .back _ c => c.Runnable
  | .pipe leftcmd rightcmd => leftcmd.Runnable ∧ rightcmd.Runnable

/-- The parser makes an argument of the word. -/
def IsArgument (globals : Globals) (word : List UInt8) : Prop :=
  less ∉ word ∧ greater ∉ word ∧
    ¬ (equals ∈ word ∧ keyOf word ≠ [] ∧ dash ∉ word) ∧
    globals.valueOf word ≠ []

instance (globals : Globals) : DecidablePred (IsArgument globals) := fun _ =>
  inferInstanceAs (Decidable (_ ∧ _ ∧ _ ∧ _))

/-- The words of a command that become its arguments. -/
def arguments (globals : Globals) (command : List UInt8) : List (List UInt8) :=
  (words command).filter (IsArgument globals)

/-- The text of a command without its background symbol. -/
def runText (previous : UInt8) (command : List UInt8) : List UInt8 :=
  if backChar ∈ command ∧
      (command.takeWhile (· != backChar)).getLastD previous ≠ greater then
    command.takeWhile (· != backChar)
  else command

/-- At least one and fewer than `MAXARGS` words become arguments. -/
def Runs (globals : Globals) (previous : UInt8) (command : List UInt8) : Prop :=
  1 ≤ (arguments globals (runText previous command)).length ∧
    (arguments globals (runText previous command)).length < maxargs

instance (globals : Globals) (previous : UInt8) (command : List UInt8) :
    Decidable (Runs globals previous command) :=
  inferInstanceAs (Decidable (_ ∧ _))

/-- Every text runs; `front` precedes the first one. -/
def RunsAll (globals : Globals) (front : UInt8) : List (List UInt8) → Prop
  | [] => False
  | first :: rest => Runs globals front first ∧ ∀ command ∈ rest,
      Runs globals 0 command

instance (globals : Globals) (front : UInt8) :
    DecidablePred (RunsAll globals front)
  | [] => isFalse id
  | first :: rest =>
      inferInstanceAs (Decidable (Runs globals front first ∧
        ∀ command ∈ rest, Runs globals 0 command))

theorem parseToken_argv (globals : Globals) (c : Execcmd) (word : List UInt8) :
    (parseToken globals c word).argv =
      if IsArgument globals word then c.argv ++ [globals.valueOf word]
      else c.argv := by
  by_cases special : less ∈ word ∨ greater ∈ word
  · obtain ⟨taken, parsed, -, sameArgv, -⟩ := parseRedirFlow_some c special
    rw [if_neg fun isArgument => special.elim isArgument.1 isArgument.2.1]
    unfold parseToken
    rw [parsed]
    exact sameArgv
  · obtain ⟨noLess, noGreater⟩ := not_or.mp special
    rw [parseToken_of_none noLess noGreater]
    by_cases assigns : equals ∈ word ∧ keyOf word ≠ [] ∧ dash ∉ word
    · rw [if_pos assigns, if_neg fun isArgument => isArgument.2.2.1 assigns]
    · rw [if_neg assigns]
      by_cases empty : globals.valueOf word = []
      · rw [if_pos empty, if_neg fun isArgument => isArgument.2.2.2 empty]
      · rw [if_neg empty, if_pos ⟨noLess, noGreater, assigns, empty⟩]

theorem parseExec_argv (globals : Globals) (command : List UInt8) :
    (parseExec globals command).argv =
      (arguments globals command).map globals.valueOf :=
  parseExec_collects (parseToken_argv globals) command

theorem runnable_parseExec (globals : Globals) (command : List UInt8) :
    (parseExec globals command).Runnable ↔
      1 ≤ (arguments globals command).length ∧
        (arguments globals command).length < maxargs := by
  unfold Execcmd.Runnable
  rw [parseExec_argv, List.length_map]

theorem runnable_segmentCmd (globals : Globals) (previous : UInt8)
    (command : List UInt8) :
    (segmentCmd globals previous command).Runnable ↔
      Runs globals previous command := by
  unfold segmentCmd Runs runText
  by_cases empty : command = []
  · rw [if_pos empty, empty]
    exact iff_of_false id fun runs => absurd runs.1 (by simp [arguments, words])
  · rw [if_neg empty]
    split
    · exact runnable_parseExec globals _
    · exact runnable_parseExec globals _

theorem segmentCmd_ne_null (globals : Globals) (previous : UInt8)
    {command : List UInt8} (nonempty : command ≠ []) :
    segmentCmd globals previous command ≠ .null := by
  unfold segmentCmd
  rw [if_neg nonempty]
  split
  · exact Cmd.noConfusion
  · exact Cmd.noConfusion

theorem pipelineOf_ne_null {leaf : Cmd} (leaves : List Cmd)
    (notNull : leaf ≠ .null) : pipelineOf (leaf :: leaves) ≠ .null := by
  rw [pipelineOf]
  unfold pipeCmdCreate
  split
  · exact notNull
  · exact Cmd.noConfusion

/-- Only the first command of a pipeline can be NULL. -/
theorem runnable_pipelineOf {leaf : Cmd} {leaves : List Cmd}
    (notNull : ∀ other ∈ leaves, other ≠ .null) :
    (pipelineOf (leaf :: leaves)).Runnable ↔
      leaf.Runnable ∧ ∀ other ∈ leaves, other.Runnable := by
  induction leaves generalizing leaf with
  | nil =>
      rw [pipelineOf, pipelineOf, pipeCmdCreate_null]
      simp
  | cons next leaves induction =>
      obtain ⟨first, others⟩ := List.forall_mem_cons.mp notNull
      have rest := pipelineOf_ne_null leaves first
      rw [pipelineOf]
      unfold pipeCmdCreate
      rw [if_neg rest, List.forall_mem_cons, ← induction others]
      rfl

theorem followingTexts_ne_nil {fuel : Nat} {right command : List UInt8}
    (member : command ∈ followingTexts fuel right) : command ≠ [] := by
  induction fuel generalizing right with
  | zero => cases member
  | succ fuel induction =>
      rw [followingTexts] at member
      split at member
      · rename_i cut
        rcases List.mem_cons.mp member with rfl | later
        · cases right with
          | nil => exact absurd cut (by decide)
          | cons byte right =>
              have ordinary : byte ≠ pipeChar := by
                rintro rfl
                have here : blockContains (pipeChar :: right) pipeChar = 0 :=
                  blockContains_append List.not_mem_nil right
                rw [here] at cut
                exact absurd cut (by decide)
              rw [List.takeWhile_cons_of_pos (by simpa using ordinary)]
              exact List.cons_ne_nil _ _
        · exact induction later
      · split at member
        · cases member
        · rename_i nonempty
          rw [List.mem_singleton.mp member]
          exact nonempty

theorem runnable_treeOf (globals : Globals) (front : UInt8)
    (line : List UInt8) :
    (treeOf globals front (commandTexts line)).Runnable ↔
      RunsAll globals front (commandTexts line) := by
  unfold commandTexts treeOf RunsAll
  dsimp only
  rw [runnable_pipelineOf, runnable_segmentCmd, List.forall_mem_map]
  · refine and_congr Iff.rfl (forall₂_congr fun command _ => ?_)
    exact runnable_segmentCmd globals 0 command
  · intro other member
    obtain ⟨command, isFollowing, rfl⟩ := List.mem_map.mp member
    exact segmentCmd_ne_null globals 0 (followingTexts_ne_nil isFollowing)

/-- A line gives a tree that can be run exactly when each of its texts is a
command with a program name and no more arguments than `argv` holds. -/
theorem runnable_iff (globals : Globals) (front : UInt8) {line : List UInt8}
    (input : List UInt8) (oneLine : endLine ∉ line)
    (short : line.length ≤ buflen - 2) :
    ∃ buf, readLine (line ++ endLine :: input) = some buf ∧
      ((parseLine globals front buf).Runnable ↔
        RunsAll globals front (commandTexts line)) := by
  refine ⟨_, readLine_eq input oneLine short, ?_⟩
  rw [parseLine_texts]
  exact runnable_treeOf globals front line

/-- The lines that no built-in of `run_cmd` takes; `home` is the variable `HOME`
and `chdir` says which directories can be entered. -/
structure ReachesParser (home : Option (List UInt8)) (chdir : List UInt8 → Bool)
    (line : List UInt8) : Prop where
  nonempty : text line ≠ []
  history : text line ≠ [104, 105, 115, 116, 111, 114, 121]
  cdHome : text line = [99, 100] → ∀ dir, home = some dir → chdir dir = false
  cdDir : ∀ dir, text line = [99, 100, 32] ++ dir → chdir dir = false
  exit : text line ≠ [101, 120, 105, 116]
  pwd : text line ≠ [112, 119, 100]

/-- The line `ls|wc`. -/
theorem runnable_two :
    ∃ buf, readLine ([108, 115, 124, 119, 99] ++ endLine :: []) = some buf ∧
      ((parseLine noVariables 0 buf).Runnable ↔
        RunsAll noVariables 0 (commandTexts [108, 115, 124, 119, 99])) :=
  runnable_iff _ _ _ (by decide) (by decide)

/-- The left command of the line `|ls` is NULL. -/
theorem not_runnable_left :
    ¬ ∀ (globals : Globals) (front : UInt8) (home : Option (List UInt8))
      (chdir : List UInt8 → Bool) (line : List UInt8), endLine ∉ line →
      line.length ≤ buflen - 2 → ReachesParser home chdir line →
      ∃ buf, readLine (line ++ endLine :: []) = some buf ∧
        (parseLine globals front buf).Runnable := by
  intro all
  have reaches : ReachesParser none (fun _ => false) [124, 108, 115] := by
    constructor
    · decide
    · decide
    · decide
    · intro dir same
      rfl
    · decide
    · decide
  obtain ⟨buf, read, runnable⟩ := all noVariables 0 none (fun _ => false)
    [124, 108, 115] (by decide) (by decide) reaches
  rw [readLine_eq [] (by decide) (by decide)] at read
  rw [← Option.some.inj read, parseLine_texts, runnable_treeOf] at runnable
  revert runnable
  decide +kernel

end FeaturesOS.Shell

import FeaturesOS.Shell.Commands

/-!
# The buffers of the shell

Where the code between `read_line` and `parse_exec` stores: the line buffer, the
copies of a command, its tokens, and the arrays of `struct execcmd`.  None of the
loops checks a bound.
-/

namespace FeaturesOS.Shell

open CString

variable {globals : Globals} {front : UInt8}

/-! ## Stores -/

/-- One element that is stored: of `buffer`, of an `scmd`, of a token, of a token
that `realloc` has made `length` bytes long, of `argv`, of `eargv`, or of a file
name. -/
inductive Store where
  | buffer (i : Nat)
  | scmd (i : Nat)
  | token (i : Nat)
  | resized (length i : Nat)
  | argv (i : Nat)
  | eargv (i : Nat)
  | fileName (i : Nat)
deriving DecidableEq

/-- The element exists. -/
def Store.Inside : Store → Prop
  | .buffer i => i < buflen
  | .scmd i => i < buflen
  | .token i => i < argsize
  | .resized length i => i < length
  | .argv i => i < maxargs
  | .eargv i => i < maxargs
  | .fileName i => i < fnamesize

/-- `strcpy` into a field. -/
def strcpyStores (field : Nat → Store) (source : List UInt8) : List Store :=
  (List.range (source.length + 1)).map field

/-- `read_line`. -/
def readLineStores (input : List UInt8) : List Store :=
  let line := input.takeWhile (· != endLine)
  (List.range line.length).map .buffer ++
    if endLine ∈ input then [.buffer line.length] else []

/-- `split_line`. -/
def splitLineStores (buf : List UInt8) (p : Nat) (splitter : UInt8) :
    List Store :=
  [.buffer (p + ((buf.drop p).takeWhile fun byte =>
    byte != splitter && byte != 0).length)]

/-- `exec_cmd_create`. -/
def execCmdCreateStores (bufCmd : List UInt8) : List Store :=
  strcpyStores .scmd bufCmd

/-- `back_cmd_create`. -/
def backCmdCreateStores (c : Execcmd) : List Store := strcpyStores .scmd c.scmd

/-- `get_token`. -/
def getTokenStores (rest : List UInt8) : List Store :=
  (List.range (getToken rest).length).map .token

/-- `parse_redir_flow`. -/
def parseRedirFlowStores (c : Execcmd) (arg : List UInt8) : List Store :=
  let outIdx := blockContains arg greater
  if outIdx ≥ 0 then
    if outIdx = 0 then
      strcpyStores .fileName (arg.drop 1)
    else if outIdx = 1 then
      if arg.drop 2 = [backChar, 49] then
        strcpyStores .fileName c.outFile
      else
        strcpyStores .fileName (arg.drop 2)
    else
      []
  else if blockContains arg less ≥ 0 then
    strcpyStores .fileName (arg.drop 1)
  else
    []

/-- `parse_environ_var`. -/
def parseEnvironVarStores (c : Execcmd) (arg : List UInt8) : List Store :=
  if blockContains arg equals > 0 ∧ blockContains arg dash < 0 then
    [.eargv c.eargv.length]
  else
    []

/-- `expand_environ_var`. -/
def expandEnvironVarStores (globals : Globals) (arg : List UInt8) : List Store :=
  if arg.head? ≠ some dollar then
    []
  else if arg = [dollar, 63] then
    strcpyStores .token (decimal globals.status.toInt)
  else
    match globals.getenv (arg.drop 1) with
    | none => [.token 0]
    | some value =>
        if value.length > arg.length then
          strcpyStores (.resized (value.length + 1)) value
        else
          strcpyStores .token value

/-- One round of the loop of `parse_exec`. -/
def parseTokenStores (globals : Globals) (c : Execcmd) (tok : List UInt8) :
    List Store :=
  match parseRedirFlow c tok with
  | some _ => parseRedirFlowStores c tok
  | none =>
      match parseEnvironVar c tok with
      | some _ => parseEnvironVarStores c tok
      | none =>
          let arg := expandEnvironVar globals tok
          expandEnvironVarStores globals tok ++
            if arg.length > 0 then [.argv c.argv.length] else []

/-- The loop of `parse_exec` and the NULL behind the arguments. -/
def parseExecFromStores (globals : Globals) :
    Nat → Execcmd → List UInt8 → List Store
  | 0, c, _ => [.argv c.argv.length]
  | fuel + 1, c, rest =>
      if rest = [] then
        [.argv c.argv.length]
      else
        let tok := getToken rest
        getTokenStores rest ++ parseTokenStores globals c tok ++
          parseExecFromStores globals fuel (parseToken globals c tok)
            (rest.drop (tok.length + 1))

/-- `parse_exec`. -/
def parseExecStores (globals : Globals) (bufCmd : List UInt8) : List Store :=
  execCmdCreateStores bufCmd ++
    parseExecFromStores globals bufCmd.length (execCmdCreate bufCmd) bufCmd

/-- `parse_back` at position `p`. -/
def parseBackStores (globals : Globals) (buf : List UInt8) (p : Nat) :
    List Store :=
  let i := p + ((buf.drop p).takeWhile (· != backChar)).length
  let cut := buf.set i 0
  .buffer i :: (parseExecStores globals (text (cut.drop p)) ++
    backCmdCreateStores (parseExec globals (text (cut.drop p))))

/-- `parse_cmd` at position `p`. -/
def parseCmdStores (globals : Globals) (front : UInt8) (buf : List UInt8)
    (p : Nat) : List Store :=
  let bufCmd := text (buf.drop p)
  if bufCmd.length = 0 then
    []
  else
    let idx := blockContains bufCmd backChar
    if idx ≥ 0 ∧ byteBefore front buf (p + idx.toNat) ≠ greater then
      parseBackStores globals buf p
    else
      parseExecStores globals bufCmd

/-- `parse_line` at position `p`. -/
def parseLineFromStores (globals : Globals) (front : UInt8) :
    Nat → List UInt8 → Nat → List Store
  | 0, _, _ => []
  | fuel + 1, buf, p =>
      let (cut, right) := splitLine buf p pipeChar
      let (next, _) := parseCmd globals front cut p
      splitLineStores buf p pipeChar ++ parseCmdStores globals front cut p ++
        if blockContains (text (next.drop right)) pipeChar > 0 then
          parseLineFromStores globals front fuel next right
        else
          parseCmdStores globals front next right

/-- What a line stores that `read_line` reads and `parse_line` parses; the memory
`behind` follows the buffer. -/
def lineStores (globals : Globals) (front : UInt8) (behind input : List UInt8) :
    List Store :=
  readLineStores input ++
    match readLine input with
    | none => []
    | some buf =>
        parseLineFromStores globals front (buf ++ behind).length (buf ++ behind) 0

/-! ## One command -/

theorem inside_strcpyStores {field : Nat → Store} {size : Nat}
    (bound : ∀ i, (field i).Inside ↔ i < size) (source : List UInt8) :
    (∀ store ∈ strcpyStores field source, store.Inside) ↔
      source.length < size := by
  unfold strcpyStores
  rw [List.forall_mem_map]
  constructor
  · intro inside
    exact (bound _).mp (inside source.length (by simp))
  · intro short i member
    rw [List.mem_range] at member
    exact (bound i).mpr (by omega)

/-- The parser makes an assignment of the word. -/
def TakenAsAssignment (word : List UInt8) : Prop :=
  less ∉ word ∧ greater ∉ word ∧ equals ∈ word ∧ keyOf word ≠ [] ∧ dash ∉ word

instance : DecidablePred TakenAsAssignment := fun _ =>
  inferInstanceAs (Decidable (_ ∧ _ ∧ _ ∧ _ ∧ _))

/-- The words of a command that become assignments. -/
def assignments (command : List UInt8) : List (List UInt8) :=
  (words command).filter TakenAsAssignment

section Rounds

variable {c : Execcmd} {word : List UInt8}

theorem parseToken_eargv (globals : Globals) (c : Execcmd) (word : List UInt8) :
    (parseToken globals c word).eargv =
      if TakenAsAssignment word then c.eargv ++ [word] else c.eargv := by
  by_cases special : less ∈ word ∨ greater ∈ word
  · obtain ⟨taken, parsed, -, -, sameEargv, -⟩ := parseRedirFlow_some c special
    rw [if_neg fun assigns => special.elim assigns.1 assigns.2.1]
    unfold parseToken
    rw [parsed]
    exact sameEargv
  · obtain ⟨noLess, noGreater⟩ := not_or.mp special
    rw [parseToken_of_none noLess noGreater]
    by_cases assigns : equals ∈ word ∧ keyOf word ≠ [] ∧ dash ∉ word
    · rw [if_pos assigns, if_pos ⟨noLess, noGreater, assigns⟩]
    · have notTaken : ¬ TakenAsAssignment word :=
        fun taken => assigns taken.2.2
      rw [if_neg assigns, if_neg notTaken]
      split <;> rfl

theorem inside_fileName (i : Nat) :
    (Store.fileName i).Inside ↔ i < fnamesize := Iff.rfl

/-- A redirection stores inside of the file names. -/
theorem inside_parseRedirFlow (fits : c.NamesFit) (short : word.length < argsize) :
    ∀ store ∈ parseRedirFlowStores c word, store.Inside := by
  have copied : ∀ count, ∀ store ∈ strcpyStores .fileName (word.drop count),
      store.Inside := by
    intro count
    rw [inside_strcpyStores inside_fileName, List.length_drop]
    exact Nat.lt_of_le_of_lt (Nat.sub_le _ _) short
  unfold parseRedirFlowStores
  dsimp only
  split
  · split
    · exact copied 1
    · split
      · split
        · exact (inside_strcpyStores inside_fileName _).mpr fits.outFile
        · exact copied 2
      · exact List.forall_mem_nil _
  · split
    · exact copied 1
    · exact List.forall_mem_nil _

/-- A value is stored in a token that it fits in. -/
theorem inside_expandEnvironVar (globals : Globals)
    (short : word.length < argsize) :
    ∀ store ∈ expandEnvironVarStores globals word, store.Inside := by
  have token : ∀ i, (Store.token i).Inside ↔ i < argsize := fun _ => Iff.rfl
  unfold expandEnvironVarStores
  split
  · exact List.forall_mem_nil _
  · split
    · have small := length_decimal globals.status
      rw [inside_strcpyStores token]
      unfold argsize
      omega
    · split
      · rw [List.forall_mem_singleton]
        exact Nat.lt_of_le_of_lt (Nat.zero_le _) short
      · rename_i value _
        split
        · exact (inside_strcpyStores (fun _ => Iff.rfl) value).mpr
            (Nat.lt_succ_self _)
        · rw [inside_strcpyStores token]
          omega

/-- One round stays inside when the arrays have room for what it adds. -/
theorem inside_parseToken (globals : Globals) (fits : c.NamesFit)
    (short : word.length < argsize) :
    (∀ store ∈ parseTokenStores globals c word, store.Inside) ↔
      (IsArgument globals word → c.argv.length < maxargs) ∧
        (TakenAsAssignment word → c.eargv.length < maxargs) := by
  by_cases special : less ∈ word ∨ greater ∈ word
  · obtain ⟨taken, parsed, -⟩ := parseRedirFlow_some c special
    unfold parseTokenStores
    rw [parsed]
    refine iff_of_true (inside_parseRedirFlow fits short) ⟨?_, ?_⟩
    · exact fun isArgument =>
        absurd special (not_or.mpr ⟨isArgument.1, isArgument.2.1⟩)
    · exact fun assigns =>
        absurd special (not_or.mpr ⟨assigns.1, assigns.2.1⟩)
  · obtain ⟨noLess, noGreater⟩ := not_or.mp special
    unfold parseTokenStores
    rw [parseRedirFlow_none noLess noGreater, parseEnvironVar_eq]
    dsimp only
    by_cases assigns : equals ∈ word ∧ keyOf word ≠ [] ∧ dash ∉ word
    · have stored : parseEnvironVarStores c word = [.eargv c.eargv.length] :=
        if_pos ((assigns_iff word).mpr assigns)
      rw [if_pos assigns]
      dsimp only
      rw [stored, List.forall_mem_singleton]
      constructor
      · intro inside
        exact ⟨fun isArgument => absurd assigns isArgument.2.2.1,
          fun _ => inside⟩
      · exact fun room => room.2 ⟨noLess, noGreater, assigns⟩
    · have notTaken : ¬ TakenAsAssignment word :=
        fun taken => assigns taken.2.2
      rw [if_neg assigns]
      dsimp only
      rw [List.forall_mem_append, expandEnvironVar_eq]
      by_cases empty : globals.valueOf word = []
      · have notArgument : ¬ IsArgument globals word :=
          fun isArgument => isArgument.2.2.2 empty
        rw [if_neg (by simp [empty])]
        exact iff_of_true ⟨inside_expandEnvironVar globals short,
            List.forall_mem_nil _⟩
          ⟨fun isArgument => absurd isArgument notArgument,
            fun taken => absurd taken notTaken⟩
      · rw [if_pos (List.length_pos_iff.mpr empty), List.forall_mem_singleton]
        constructor
        · intro inside
          exact ⟨fun _ => inside.2, fun taken => absurd taken notTaken⟩
        · intro room
          exact ⟨inside_expandEnvironVar globals short,
            room.1 ⟨noLess, noGreater, assigns, empty⟩⟩

theorem namesFit_parseToken (globals : Globals) (fits : c.NamesFit)
    (short : word.length < argsize) :
    (parseToken globals c word).NamesFit := by
  have dropped : ∀ count, (word.drop count).length < fnamesize := by
    intro count
    rw [List.length_drop]
    exact Nat.lt_of_le_of_lt (Nat.sub_le _ _) short
  unfold parseToken parseRedirFlow
  dsimp only
  split
  · rename_i redirected found
    split at found
    · split at found
      · cases found
        exact ⟨fits.inFile, dropped 1, fits.errFile⟩
      · split at found
        · split at found <;> cases found
          · exact ⟨fits.inFile, fits.outFile, fits.outFile⟩
          · exact ⟨fits.inFile, fits.outFile, dropped 2⟩
        · cases found
          exact ⟨fits.inFile, fits.outFile, fits.errFile⟩
    · split at found
      · cases found
        exact ⟨dropped 1, fits.outFile, fits.errFile⟩
      · cases found
  · unfold parseEnvironVar
    split
    · rename_i assigned found
      split at found
      · cases found
        exact ⟨fits.inFile, fits.outFile, fits.errFile⟩
      · cases found
    · split
      · exact ⟨fits.inFile, fits.outFile, fits.errFile⟩
      · exact fits

theorem arguments_step (globals : Globals) {rest : List UInt8}
    (more : rest ≠ []) :
    (arguments globals rest).length =
      (if IsArgument globals (getToken rest) then 1 else 0) +
        (arguments globals
          (rest.drop ((getToken rest).length + 1))).length := by
  have empty : ¬ IsArgument globals [] := fun isArgument =>
    isArgument.2.2.2 rfl
  unfold arguments
  rw [words_step more, List.filter_append, List.length_append]
  congr 1
  by_cases nothing : getToken rest = []
  · rw [if_pos nothing, nothing, if_neg empty]
    rfl
  · rw [if_neg nothing]
    by_cases isArgument : IsArgument globals (getToken rest)
    · simp [isArgument]
    · simp [isArgument]

theorem assignments_step {rest : List UInt8} (more : rest ≠ []) :
    (assignments rest).length =
      (if TakenAsAssignment (getToken rest) then 1 else 0) +
        (assignments (rest.drop ((getToken rest).length + 1))).length := by
  have empty : ¬ TakenAsAssignment [] := fun taken => by
    cases taken.2.2.1
  unfold assignments
  rw [words_step more, List.filter_append, List.length_append]
  congr 1
  by_cases nothing : getToken rest = []
  · rw [if_pos nothing, nothing, if_neg empty]
    rfl
  · rw [if_neg nothing]
    by_cases taken : TakenAsAssignment (getToken rest)
    · simp [taken]
    · simp [taken]

/-- The NULL behind the arguments. -/
theorem inside_last (globals : Globals) (room : c.eargv.length ≤ maxargs) :
    (∀ store ∈ [Store.argv c.argv.length], store.Inside) ↔
      c.argv.length + (arguments globals []).length < maxargs ∧
        c.eargv.length + (assignments []).length ≤ maxargs := by
  rw [List.forall_mem_singleton]
  exact ⟨fun inside => ⟨inside, room⟩, fun both => both.1⟩

theorem parseToken_lengths (globals : Globals) (c : Execcmd)
    (word : List UInt8) :
    (parseToken globals c word).argv.length =
        c.argv.length + (if IsArgument globals word then 1 else 0) ∧
      (parseToken globals c word).eargv.length =
        c.eargv.length + (if TakenAsAssignment word then 1 else 0) := by
  rw [parseToken_argv, parseToken_eargv]
  constructor
  · split
    · rw [List.length_append, List.length_singleton]
    · rfl
  · split
    · rw [List.length_append, List.length_singleton]
    · rfl

/-- The loop stays inside when the arrays have room for all that is left.  The
induction is on the rounds. -/
theorem inside_parseExecFrom (globals : Globals) {fuel : Nat}
    {rest : List UInt8} (fits : c.NamesFit) (room : c.eargv.length ≤ maxargs)
    (enough : rest.length ≤ fuel) (short : rest.length < argsize) :
    (∀ store ∈ parseExecFromStores globals fuel c rest, store.Inside) ↔
      c.argv.length + (arguments globals rest).length < maxargs ∧
        c.eargv.length + (assignments rest).length ≤ maxargs := by
  induction fuel generalizing c rest with
  | zero =>
      rw [List.length_eq_zero_iff.mp (Nat.le_zero.mp enough)]
      exact inside_last globals room
  | succ fuel induction =>
      rw [parseExecFromStores]
      by_cases done : rest = []
      · rw [if_pos done, done]
        exact inside_last globals room
      have tokenShort : (getToken rest).length < argsize :=
        Nat.lt_of_le_of_lt (List.takeWhile_prefix _).length_le short
      have shorter := drop_token_lt done
      have tokenInside : ∀ store ∈ getTokenStores rest, store.Inside := by
        unfold getTokenStores
        rw [List.forall_mem_map]
        intro i member
        rw [List.mem_range] at member
        exact Nat.lt_trans member tokenShort
      rw [if_neg done]
      dsimp only
      rw [List.forall_mem_append, List.forall_mem_append,
        inside_parseToken globals fits tokenShort, arguments_step globals done,
        assignments_step done]
      obtain ⟨argv, eargv⟩ := parseToken_lengths globals c (getToken rest)
      by_cases next : (parseToken globals c (getToken rest)).eargv.length ≤
          maxargs
      · rw [induction (namesFit_parseToken globals fits tokenShort) next
          (by omega) (by omega), argv, eargv]
        rw [eargv] at next
        constructor
        · rintro ⟨-, argvRoom, eargvRoom⟩
          omega
        · rintro ⟨argvRoom, eargvRoom⟩
          refine ⟨⟨tokenInside, ?_, ?_⟩, by omega, by omega⟩
          · intro isArgument
            rw [if_pos isArgument] at argvRoom
            omega
          · intro taken
            rw [if_pos taken] at eargvRoom
            omega
      · rw [eargv] at next
        constructor
        · rintro ⟨⟨-, -, eargvRoom⟩, -⟩
          split at next
          · rename_i taken
            have below := eargvRoom taken
            omega
          · omega
        · rintro ⟨-, eargvRoom⟩
          omega

end Rounds

theorem inside_scmd (i : Nat) : (Store.scmd i).Inside ↔ i < buflen := Iff.rfl

/-- The copy of the command, `argv` with its NULL, and `eargv` have room. -/
def CommandFits (globals : Globals) (command : List UInt8) : Prop :=
  command.length < buflen ∧ (arguments globals command).length < maxargs ∧
    (assignments command).length ≤ maxargs

instance (globals : Globals) (command : List UInt8) :
    Decidable (CommandFits globals command) :=
  inferInstanceAs (Decidable (_ ∧ _ ∧ _))

/-- A command that is no longer than its copy only has to fit in the arrays. -/
theorem inside_parseExec (globals : Globals) (command : List UInt8) :
    (∀ store ∈ parseExecStores globals command, store.Inside) ↔
      CommandFits globals command := by
  unfold CommandFits parseExecStores execCmdCreateStores
  rw [List.forall_mem_append, inside_strcpyStores inside_scmd]
  refine and_congr_right fun short => ?_
  have positive : 0 < fnamesize := by decide
  have loop := inside_parseExecFrom globals
    (show (execCmdCreate command).NamesFit from ⟨positive, positive, positive⟩)
    (Nat.zero_le _) (Nat.le_refl command.length) short
  rw [loop]
  change 0 + _ < _ ∧ 0 + _ ≤ _ ↔ _
  rw [Nat.zero_add, Nat.zero_add]

/-- What a command in a buffer stores; `parse_back` also cuts the buffer. -/
theorem parseCmdStores_inside (globals : Globals) (front : UInt8)
    (before : List UInt8) {segment : List UInt8} (nulFree : 0 ∉ segment)
    (after : List UInt8) :
    parseCmdStores globals front (before ++ (segment ++ 0 :: after))
        before.length =
      if segment = [] then []
      else if backChar ∈ segment ∧
          (segment.takeWhile (· != backChar)).getLastD
            (before.getLastD front) ≠ greater then
        .buffer (before.length + (segment.takeWhile (· != backChar)).length) ::
          (parseExecStores globals (segment.takeWhile (· != backChar)) ++
            backCmdCreateStores
              (parseExec globals (segment.takeWhile (· != backChar))))
      else parseExecStores globals segment := by
  rw [← byteBefore_append front before (segment ++ 0 :: after)]
  have here : text ((before ++ (segment ++ 0 :: after)).drop before.length) =
      segment := by
    rw [List.drop_left, text_append_nul _ nulFree]
  unfold parseCmdStores
  rw [here]
  dsimp only
  by_cases empty : segment = []
  · rw [if_pos empty, if_pos (by rw [empty]; rfl)]
  rw [if_neg empty, if_neg (by simpa using empty)]
  by_cases isBack : backChar ∈ segment
  · obtain ⟨start, back, rfl, absent⟩ := List.eq_append_cons_of_mem isBack
    have stops := takeWhile_ne absent
    have startFree : 0 ∉ start := fun member =>
      nulFree (List.mem_append_left _ member)
    have previous := byteBefore_inside front before start
      (backChar :: (back ++ 0 :: after))
    have cut : text (((before ++ (start ++ backChar :: (back ++ 0 :: after))).set
        (before.length + start.length) 0).drop before.length) = start := by
      rw [← List.length_append, ← List.append_assoc, set_length,
        List.append_assoc, List.drop_left, text_append_nul _ startFree]
    rw [blockContains_append absent, stops]
    simp only [List.append_assoc, List.cons_append, Int.toNat_natCast, isBack,
      true_and, previous]
    refine if_congr (and_iff_right (Int.natCast_nonneg _)) ?_ rfl
    unfold parseBackStores
    rw [List.drop_left, stops]
    dsimp only
    rw [cut]
  · rw [blockContains_of_not_mem isBack,
      if_neg (fun taken => absurd taken.1 (by decide)),
      if_neg (fun taken => isBack taken.1)]

/-- The arrays have room for the words of a command. -/
def TextFits (globals : Globals) (previous : UInt8) (command : List UInt8) :
    Prop :=
  (arguments globals (runText previous command)).length < maxargs ∧
    (assignments (runText previous command)).length ≤ maxargs

instance (globals : Globals) (previous : UInt8) (command : List UInt8) :
    Decidable (TextFits globals previous command) :=
  inferInstanceAs (Decidable (_ ∧ _))

/-- A command stays inside when its text does, and the cut in front of its
background symbol. -/
theorem inside_parseCmd (globals : Globals) (front : UInt8)
    (before : List UInt8) {segment : List UInt8} (nulFree : 0 ∉ segment)
    (after : List UInt8) :
    (∀ store ∈ parseCmdStores globals front (before ++ (segment ++ 0 :: after))
        before.length, store.Inside) ↔
      (runText (before.getLastD front) segment ≠ segment →
        before.length + (runText (before.getLastD front) segment).length <
          buflen) ∧
      (runText (before.getLastD front) segment).length < buflen ∧
      TextFits globals (before.getLastD front) segment := by
  rw [parseCmdStores_inside globals front before nulFree after]
  unfold TextFits runText
  by_cases empty : segment = []
  · subst empty
    simp [arguments, assignments, words, buflen, maxargs]
  · rw [if_neg empty]
    by_cases isBack : backChar ∈ segment ∧
        (segment.takeWhile (· != backChar)).getLastD
          (before.getLastD front) ≠ greater
    · have shorter : segment.takeWhile (· != backChar) ≠ segment := by
        intro same
        rw [List.takeWhile_eq_self_iff] at same
        exact absurd (same backChar isBack.1) (by decide)
      rw [if_pos isBack, if_pos isBack, List.forall_mem_cons,
        List.forall_mem_append, inside_parseExec]
      unfold backCmdCreateStores
      rw [inside_strcpyStores inside_scmd, parseExec_scmd]
      constructor
      · rintro ⟨cut, text, -⟩
        exact ⟨fun _ => cut, text⟩
      · rintro ⟨cut, text⟩
        exact ⟨cut shorter, text, text.1⟩
    · rw [if_neg isBack, if_neg isBack, inside_parseExec]
      exact ⟨fun text => ⟨fun different => absurd rfl different, text⟩,
        fun both => both.2⟩

/-! ## One line -/

/-- A call stores a NUL at its stop, what its first command stores, and what the
rest does. -/
theorem parseLineFromStores_split (globals : Globals) (front : UInt8)
    (fuel : Nat) (before : List UInt8) {first spaces rest : List UInt8}
    {stop : UInt8} (after : List UInt8) (stops : stop = pipeChar ∨ stop = 0)
    (nulFree : 0 ∉ first) (absent : pipeChar ∉ first)
    (restFree : 0 ∉ rest) (blank : ∀ byte ∈ spaces, byte = space)
    (start : rest.head? ≠ some space) :
    ∃ prior, prior.getLastD front ≠ greater ∧
      prior.length = before.length + first.length + 1 + spaces.length ∧
      parseLineFromStores globals front (fuel + 1)
          (before ++ (first ++ stop :: (spaces ++ (rest ++ 0 :: after))))
          before.length =
        .buffer (before.length + first.length) ::
          (parseCmdStores globals front
            (before ++ (first ++ 0 :: (spaces ++ (rest ++ 0 :: after))))
            before.length ++
          if blockContains rest pipeChar > 0 then
            parseLineFromStores globals front fuel
              (prior ++ (rest ++ 0 :: after)) prior.length
          else
            parseCmdStores globals front (prior ++ (rest ++ 0 :: after))
              prior.length) := by
  obtain ⟨prior, ordinary, position, split, parsed⟩ := splitLine_parseCmd globals
    front before after stops nulFree absent blank start
  have here : text ((prior ++ (rest ++ 0 :: after)).drop prior.length) =
      rest := by
    rw [List.drop_left, text_append_nul _ restFree]
  have scan := takeWhile_split stops absent nulFree
    (spaces ++ (rest ++ 0 :: after))
  refine ⟨prior, ordinary, position, ?_⟩
  rw [parseLineFromStores, split]
  dsimp only
  rw [parsed]
  dsimp only
  unfold splitLineStores
  rw [here, List.drop_left, scan]
  rfl

theorem length_runText_le (previous : UInt8) (command : List UInt8) :
    (runText previous command).length ≤ command.length := by
  unfold runText
  split
  · exact (List.takeWhile_prefix _).length_le
  · exact Nat.le_refl _

theorem textFits_nil (globals : Globals) (previous : UInt8) :
    TextFits globals previous [] := by
  unfold TextFits runText arguments assignments
  simp [words, maxargs]

/-- Behind a NUL or a space the byte in front of a command does not matter. -/
theorem runText_ordinary {before : UInt8} (ordinary : before ≠ greater)
    (command : List UInt8) : runText before command = runText 0 command := by
  unfold runText
  generalize command.takeWhile (· != backChar) = start
  have nul : (0 : UInt8) ≠ greater := by decide
  rcases List.eq_nil_or_concat start with rfl | ⟨init, last, rfl⟩
  · simp [ordinary, nul]
  · simp

theorem textFits_ordinary {before : UInt8} (ordinary : before ≠ greater)
    (command : List UInt8) :
    TextFits globals before command ↔ TextFits globals 0 command := by
  unfold TextFits
  rw [runText_ordinary ordinary]

/-- A command inside of the buffer only has to fit in the arrays. -/
theorem inside_parseCmd_short (globals : Globals) (front : UInt8)
    (before : List UInt8) {segment : List UInt8} (nulFree : 0 ∉ segment)
    (after : List UInt8) (short : before.length + segment.length < buflen) :
    (∀ store ∈ parseCmdStores globals front (before ++ (segment ++ 0 :: after))
        before.length, store.Inside) ↔
      TextFits globals (before.getLastD front) segment := by
  have atMost := length_runText_le (before.getLastD front) segment
  rw [inside_parseCmd globals front before nulFree after]
  constructor
  · exact fun inside => inside.2.2
  · exact fun fits => ⟨fun _ => by omega, by omega, fits⟩

/-- The texts behind a separator, as long as they are inside of the buffer.  The
induction is on the length of the text. -/
theorem inside_following (globals : Globals) (front : UInt8)
    {calls fuel : Nat} (prior : List UInt8) {right : List UInt8}
    (after : List UInt8) (nulFree : 0 ∉ right)
    (ordinary : prior.getLastD front ≠ greater) (enough : right.length ≤ calls)
    (enough' : right.length ≤ fuel)
    (short : prior.length + right.length < buflen) :
    (∀ store ∈ (if blockContains right pipeChar > 0 then
        parseLineFromStores globals front calls
          (prior ++ (right ++ 0 :: after)) prior.length
      else
        parseCmdStores globals front (prior ++ (right ++ 0 :: after))
          prior.length), store.Inside) ↔
      ∀ command ∈ followingTexts fuel right, TextFits globals 0 command := by
  have nothing := textFits_nil globals 0
  induction fuel generalizing calls prior right with
  | zero =>
      obtain rfl := List.length_eq_zero_iff.mp (Nat.le_zero.mp enough')
      rw [if_neg (by decide), inside_parseCmd_short globals front prior nulFree
        after short, textFits_ordinary ordinary]
      exact iff_of_true nothing (List.forall_mem_nil _)
  | succ fuel induction =>
      by_cases cut : blockContains right pipeChar > 0
      · obtain ⟨first, spaces, rest, rfl, nonempty, absent, blank, start⟩ :=
          cutText cut
        have firstFree : 0 ∉ first := fun member =>
          nulFree (List.mem_append_left _ member)
        have restFree : 0 ∉ rest := fun member =>
          nulFree (List.mem_append_right _ (List.mem_cons_of_mem _
            (List.mem_append_right _ member)))
        simp only [List.length_append, List.length_cons] at enough enough' short
        cases calls with
        | zero => omega
        | succ calls =>
            obtain ⟨next, nextOrdinary, position, split⟩ :=
              parseLineFromStores_split globals front calls prior after
                (.inl rfl) firstFree absent restFree blank start
            have sameBuffer : prior ++ (first ++ pipeChar :: (spaces ++ rest) ++
                0 :: after) = prior ++ (first ++ pipeChar ::
                  (spaces ++ (rest ++ 0 :: after))) := by simp
            have here : (Store.buffer (prior.length + first.length)).Inside :=
              show _ < buflen by omega
            have later := induction next restFree nextOrdinary
              (show rest.length ≤ calls by omega) (by omega) (by omega)
            rw [if_pos cut, sameBuffer, split,
              followingTexts_append fuel nonempty absent blank start,
              List.forall_mem_cons, List.forall_mem_append, List.forall_mem_cons,
              inside_parseCmd_short globals front prior firstFree _ (by omega),
              textFits_ordinary ordinary]
            exact (and_iff_right here).trans (and_congr_right fun _ => later)
      · rw [if_neg cut, inside_parseCmd_short globals front prior nulFree after
          short, textFits_ordinary ordinary]
        by_cases empty : right = []
        · rw [empty]
          exact iff_of_true nothing (List.forall_mem_nil _)
        · rw [followingTexts_last fuel cut empty, List.forall_mem_singleton]

/-- A text behind the buffer that is not cut. -/
structure HarmlessBehind (globals : Globals) (right : List UInt8) : Prop where
  uncut : ¬ blockContains right pipeChar > 0
  foreground : runText 0 right = right
  short : right.length < buflen
  fits : TextFits globals 0 right

theorem inside_behind (globals : Globals) (front : UInt8) {calls : Nat}
    (prior : List UInt8) {right : List UInt8} (after : List UInt8)
    (nulFree : 0 ∉ right) (ordinary : prior.getLastD front ≠ greater)
    (enough : right.length ≤ calls) (outside : buflen ≤ prior.length) :
    (∀ store ∈ (if blockContains right pipeChar > 0 then
        parseLineFromStores globals front calls
          (prior ++ (right ++ 0 :: after)) prior.length
      else
        parseCmdStores globals front (prior ++ (right ++ 0 :: after))
          prior.length), store.Inside) ↔
      HarmlessBehind globals right := by
  by_cases cut : blockContains right pipeChar > 0
  · refine iff_of_false ?_ fun harmless => harmless.uncut cut
    obtain ⟨first, spaces, rest, rfl, -, absent, blank, start⟩ := cutText cut
    have firstFree : 0 ∉ first := fun member =>
      nulFree (List.mem_append_left _ member)
    have restFree : 0 ∉ rest := fun member =>
      nulFree (List.mem_append_right _ (List.mem_cons_of_mem _
        (List.mem_append_right _ member)))
    simp only [List.length_append, List.length_cons] at enough
    cases calls with
    | zero => omega
    | succ calls =>
        obtain ⟨next, -, -, split⟩ := parseLineFromStores_split globals front
          calls prior after (.inl rfl) firstFree absent restFree blank start
        have sameBuffer : prior ++ (first ++ pipeChar :: (spaces ++ rest) ++
            0 :: after) = prior ++ (first ++ pipeChar ::
              (spaces ++ (rest ++ 0 :: after))) := by simp
        rw [if_pos cut, sameBuffer, split, List.forall_mem_cons]
        rintro ⟨here, -⟩
        have below : prior.length + first.length < buflen := here
        omega
  · rw [if_neg cut, inside_parseCmd globals front prior nulFree after,
      textFits_ordinary ordinary, runText_ordinary ordinary]
    constructor
    · rintro ⟨position, short, fits⟩
      have foreground : runText 0 right = right := by
        by_contra background
        have below := position background
        omega
      rw [foreground] at short
      exact ⟨cut, foreground, short, fits⟩
    · intro harmless
      refine ⟨fun background => absurd harmless.foreground background, ?_,
        harmless.fits⟩
      rw [harmless.foreground]
      exact harmless.short

/-- The first call, for any memory with a NUL behind the first stop. -/
theorem parseLineStores_memory (globals : Globals) (front : UInt8) (calls : Nat)
    {first others : List UInt8} {stop : UInt8}
    (stops : stop = pipeChar ∨ stop = 0) (absent : pipeChar ∉ first)
    (nulFree : 0 ∉ first) (terminated : Terminated others)
    (short : first.length < buflen) :
    ∃ prior after, prior.getLastD front ≠ greater ∧
      prior.length =
        first.length + 1 + (others.takeWhile (· == space)).length ∧
      ((∀ store ∈ parseLineFromStores globals front (calls + 1)
          (first ++ stop :: others) 0, store.Inside) ↔
        TextFits globals front first ∧
        ∀ store ∈ (if blockContains (text (others.dropWhile (· == space)))
            pipeChar > 0 then
          parseLineFromStores globals front calls
            (prior ++ (text (others.dropWhile (· == space)) ++ 0 :: after))
            prior.length
        else
          parseCmdStores globals front
            (prior ++ (text (others.dropWhile (· == space)) ++ 0 :: after))
            prior.length), store.Inside) := by
  obtain ⟨after, regroup, blank, start⟩ := behindStop terminated
  obtain ⟨prior, ordinary, position, split⟩ := parseLineFromStores_split globals
    front calls [] after stops nulFree absent (text_nulFree _) blank start
  refine ⟨prior, after, ordinary, ?_, ?_⟩
  · rw [position, List.length_nil, Nat.zero_add]
  · rw [List.nil_append, ← regroup, List.length_nil, Nat.zero_add] at split
    have firstInside := inside_parseCmd_short globals front [] nulFree
      (others.takeWhile (· == space) ++
        (text (others.dropWhile (· == space)) ++ 0 :: after))
      (by rwa [List.length_nil, Nat.zero_add])
    rw [List.length_nil, List.nil_append, ← regroup] at firstInside
    have here : (Store.buffer first.length).Inside := short
    rw [split, List.forall_mem_cons, List.forall_mem_append]
    exact (and_iff_right here).trans (and_congr firstInside Iff.rfl)

/-! ## Lines -/

/-- The arrays have room for every text; `front` precedes the first one. -/
def AllFit (globals : Globals) (front : UInt8) : List (List UInt8) → Prop
  | [] => True
  | first :: rest => TextFits globals front first ∧ ∀ command ∈ rest,
      TextFits globals 0 command

instance (globals : Globals) (front : UInt8) :
    DecidablePred (AllFit globals front)
  | [] => isTrue trivial
  | first :: rest =>
      inferInstanceAs (Decidable (TextFits globals front first ∧
        ∀ command ∈ rest, TextFits globals 0 command))

/-- The line is shorter than the buffer, and the arrays have room for its
commands.  A line of one command that fills the buffer is also followed by
harmless memory. -/
structure FitsLine (globals : Globals) (front : UInt8)
    (behind line : List UInt8) : Prop where
  short : line.length < buflen
  fits : AllFit globals front (commandTexts line)
  behind : line.length = buflen - 1 → line.takeWhile inText = line →
    HarmlessBehind globals (text (behind.dropWhile (· == space)))

/-- An unfinished line at the end of the input is only read. -/
def FitsInput (globals : Globals) (front : UInt8) (behind input : List UInt8) :
    Prop :=
  if endLine ∈ input then
    FitsLine globals front behind (input.takeWhile (· != endLine))
  else
    input.length ≤ buflen

theorem readLine_of_short {input : List UInt8} (ended : endLine ∈ input)
    (short : (input.takeWhile (· != endLine)).length < buflen) :
    readLine input = some (input.takeWhile (· != endLine) ++
      0 :: zeros (buflen - 1 - (input.takeWhile (· != endLine)).length)) := by
  generalize isLine : input.takeWhile (· != endLine) = line at *
  have fits : 0 + (line ++ [0]).length ≤ (zeros buflen).length := by
    simp only [length_zeros, List.length_append, List.length_cons,
      List.length_nil]
    omega
  have behind : (zeros buflen).drop (0 + (line ++ [0]).length) =
      zeros (buflen - 1 - line.length) := by
    unfold zeros
    rw [List.drop_replicate]
    congr 1
    simp only [List.length_append, List.length_cons, List.length_nil]
    omega
  unfold readLine
  rw [if_pos ended, isLine, overwrite_of_fits fits, behind]
  simp

/-- A line with a stop: all that is parsed is in the buffer. -/
theorem inside_stopped (globals : Globals) (front : UInt8) {calls : Nat}
    {line tail : List UInt8} (stopped : line.takeWhile inText ≠ line)
    (enough : line.length ≤ calls) (short : line.length < buflen) :
    (∀ store ∈ parseLineFromStores globals front (calls + 1)
        (line ++ 0 :: tail) 0, store.Inside) ↔
      AllFit globals front (commandTexts line) := by
  obtain ⟨stop, others, whole, stops⟩ := firstStop stopped
  obtain ⟨absent, firstFree⟩ := not_mem_takeWhile_inText line
  unfold commandTexts AllFit
  generalize line.takeWhile inText = first at *
  have isBehind : line.drop (first.length + 1) = others := by
    have regroup : line = (first ++ [stop]) ++ others := by
      rw [whole]
      simp
    rw [regroup, List.drop_left' (by simp)]
  have length := congrArg List.length whole
  rw [List.length_append, List.length_cons] at length
  have buffer : line ++ 0 :: tail = first ++ stop :: (others ++ 0 :: tail) := by
    rw [whole]
    simp
  have spaces : (others ++ 0 :: tail).takeWhile (· == space) =
      others.takeWhile (· == space) :=
    takeWhile_append_stop (by decide) others tail
  have parts := congrArg List.length
    (show others.takeWhile (· == space) ++ others.dropWhile (· == space) =
      others from List.takeWhile_append_dropWhile)
  have atMost : (text (others.dropWhile (· == space))).length ≤
      (others.dropWhile (· == space)).length :=
    strlen_le_length _
  rw [List.length_append] at parts
  obtain ⟨prior, after, ordinary, position, stores⟩ := parseLineStores_memory
    globals front calls stops absent firstFree
    (show Terminated (others ++ 0 :: tail) by simp [Terminated])
    (by omega)
  dsimp only
  rw [isBehind, buffer, stores]
  rw [spaces] at position
  rw [text_dropWhile_append]
  exact and_congr_right fun _ => inside_following globals front prior after
    (text_nulFree _) ordinary (by omega) (Nat.le_refl _) (by omega)

/-- Without a stop the line is one command. -/
theorem commandTexts_single {line : List UInt8}
    (single : line.takeWhile inText = line) : commandTexts line = [line] := by
  have nothing : line.drop (line.length + 1) = [] :=
    List.drop_of_length_le (Nat.le_succ _)
  unfold commandTexts
  dsimp only
  rw [single, nothing]
  rfl

/-- A line without a stop: the memory behind its terminator is parsed, too. -/
theorem inside_single (globals : Globals) (front : UInt8) {calls : Nat}
    {line tail : List UInt8} (single : line.takeWhile inText = line)
    (terminated : Terminated tail) (enough : tail.length ≤ calls)
    (short : line.length < buflen)
    (padded : line.length ≠ buflen - 1 → tail.head? = some 0) :
    (∀ store ∈ parseLineFromStores globals front (calls + 1)
        (line ++ 0 :: tail) 0, store.Inside) ↔
      AllFit globals front (commandTexts line) ∧
        (line.length = buflen - 1 →
          HarmlessBehind globals (text (tail.dropWhile (· == space)))) := by
  obtain ⟨absent, firstFree⟩ := not_mem_takeWhile_inText line
  rw [single] at absent firstFree
  obtain ⟨prior, after, ordinary, position, stores⟩ := parseLineStores_memory
    globals front calls (.inr rfl) absent firstFree terminated short
  have atMost : (text (tail.dropWhile (· == space))).length ≤ tail.length :=
    Nat.le_trans (strlen_le_length _) (List.dropWhile_suffix _).length_le
  rw [commandTexts_single single, stores]
  unfold AllFit
  by_cases full : line.length = buflen - 1
  · rw [inside_behind globals front prior after (text_nulFree _) ordinary
      (by omega) (by omega)]
    constructor
    · rintro ⟨fits, harmless⟩
      exact ⟨⟨fits, List.forall_mem_nil _⟩, fun _ => harmless⟩
    · rintro ⟨⟨fits, -⟩, harmless⟩
      exact ⟨fits, harmless full⟩
  · obtain ⟨rest, rfl⟩ := List.head?_eq_some_iff.mp (padded full)
    have inside := inside_following globals front prior after
      (text_nulFree ((0 :: rest).dropWhile (· == space))) ordinary
      (show _ ≤ calls by omega) (Nat.le_refl _) (by
        rw [position]
        change line.length + 1 + 0 + 0 < buflen
        omega)
    rw [inside]
    constructor
    · rintro ⟨fits, -⟩
      exact ⟨⟨fits, List.forall_mem_nil _⟩, fun isFull => absurd isFull full⟩
    · rintro ⟨⟨fits, -⟩, -⟩
      exact ⟨fits, List.forall_mem_nil _⟩

theorem inside_readLine (input : List UInt8) :
    (∀ store ∈ readLineStores input, store.Inside) ↔
      if endLine ∈ input then
        (input.takeWhile (· != endLine)).length < buflen
      else input.length ≤ buflen := by
  have read : ∀ count, (∀ store ∈ (List.range count).map Store.buffer,
      store.Inside) ↔ count ≤ buflen := by
    intro count
    rw [List.forall_mem_map]
    constructor
    · intro inside
      by_contra longer
      have last : buflen < buflen :=
        inside buflen (List.mem_range.mpr (Nat.lt_of_not_le longer))
      exact absurd last (Nat.lt_irrefl _)
    · intro short i member
      exact Nat.lt_of_lt_of_le (List.mem_range.mp member) short
  unfold readLineStores
  dsimp only
  rw [List.forall_mem_append, read]
  by_cases ended : endLine ∈ input
  · rw [if_pos ended, if_pos ended, List.forall_mem_singleton]
    exact and_iff_right_of_imp Nat.le_of_lt
  · have whole : input.takeWhile (· != endLine) = input := by
      rw [List.takeWhile_eq_self_iff]
      intro byte member
      simpa using fun same : byte = endLine => ended (same ▸ member)
    rw [if_neg ended, if_neg ended, whole]
    exact and_iff_left (List.forall_mem_nil _)

/-- A line that is shorter than the buffer, with what follows it there. -/
theorem inside_line (globals : Globals) (front : UInt8)
    {behind line : List UInt8} (terminated : Terminated behind)
    (short : line.length < buflen) :
    (∀ store ∈ parseLineFromStores globals front
        ((line ++ 0 :: zeros (buflen - 1 - line.length)) ++ behind).length
        ((line ++ 0 :: zeros (buflen - 1 - line.length)) ++ behind) 0,
        store.Inside) ↔
      AllFit globals front (commandTexts line) ∧
        (line.length = buflen - 1 → line.takeWhile inText = line →
          HarmlessBehind globals (text (behind.dropWhile (· == space)))) := by
  have regroup : (line ++ 0 :: zeros (buflen - 1 - line.length)) ++ behind =
      line ++ 0 :: (zeros (buflen - 1 - line.length) ++ behind) := by simp
  have length : (line ++ 0 ::
      (zeros (buflen - 1 - line.length) ++ behind)).length =
        (line.length + (zeros (buflen - 1 - line.length) ++ behind).length) +
          1 := by
    rw [List.length_append, List.length_cons]
    rfl
  rw [regroup, length]
  by_cases single : line.takeWhile inText = line
  · have ends : Terminated (zeros (buflen - 1 - line.length) ++ behind) :=
      List.mem_append_right _ terminated
    have padded : line.length ≠ buflen - 1 →
        (zeros (buflen - 1 - line.length) ++ behind).head? = some 0 := by
      intro notFull
      obtain ⟨count, isCount⟩ : ∃ count, buflen - 1 - line.length = count + 1 :=
        ⟨buflen - 1 - line.length - 1, by omega⟩
      rw [isCount]
      rfl
    rw [inside_single globals front single ends (by omega) short padded]
    refine and_congr_right fun _ => ?_
    constructor
    · intro harmless full _
      have tail := harmless full
      rwa [full, Nat.sub_self] at tail
    · intro harmless full
      have tail := harmless full single
      rwa [full, Nat.sub_self]
  · rw [inside_stopped globals front single (Nat.le_add_right _ _) short]
    exact (and_iff_left fun _ whole => absurd whole single).symm

/-- No store leaves its buffer exactly when the line and the words of its commands
fit. -/
theorem staysInside_iff (globals : Globals) (front : UInt8)
    {behind : List UInt8} (input : List UInt8) (terminated : Terminated behind) :
    (∀ store ∈ lineStores globals front behind input, store.Inside) ↔
      FitsInput globals front behind input := by
  unfold lineStores FitsInput
  rw [List.forall_mem_append, inside_readLine]
  by_cases ended : endLine ∈ input
  · rw [if_pos ended, if_pos ended]
    constructor
    · rintro ⟨short, parsed⟩
      rw [readLine_of_short ended short] at parsed
      obtain ⟨fits, harmless⟩ :=
        (inside_line globals front terminated short).mp parsed
      exact ⟨short, fits, harmless⟩
    · rintro ⟨short, fits, harmless⟩
      rw [readLine_of_short ended short]
      exact ⟨short, (inside_line globals front terminated short).mpr
        ⟨fits, harmless⟩⟩
  · have nothing : readLine input = none := if_neg ended
    rw [if_neg ended, if_neg ended, nothing]
    exact and_iff_left (List.forall_mem_nil _)

/-- The input `ls` with its end of line. -/
theorem staysInside_ls :
    FitsInput noVariables 0 [0] [108, 115, 10] ∧
      ∀ store ∈ lineStores noVariables 0 [0] [108, 115, 10], store.Inside := by
  have fits : FitsInput noVariables 0 [0] [108, 115, 10] := by
    unfold FitsInput
    rw [if_pos (by decide)]
    exact ⟨by decide, by decide +kernel, fun full => absurd full (by decide)⟩
  exact ⟨fits, (staysInside_iff noVariables 0 _ (by decide)).mpr fits⟩

/-- A line of `BUFLEN` bytes is longer than the buffer. -/
theorem not_staysInside_long :
    ¬ ∀ (globals : Globals) (front : UInt8) (behind input : List UInt8),
      Terminated behind →
      ∀ store ∈ lineStores globals front behind input, store.Inside := by
  intro all
  obtain ⟨read, -⟩ := List.forall_mem_append.mp
    (all noVariables 0 [0] (List.replicate 1024 97 ++ [endLine]) (by decide))
  have taken : (List.replicate 1024 97 ++ [endLine]).takeWhile
      (· != endLine) = List.replicate 1024 97 := by
    refine takeWhile_stop ?_ (by decide) []
    intro byte member
    rw [List.eq_of_mem_replicate member]
    decide
  have ended : endLine ∈ List.replicate 1024 97 ++ [endLine] :=
    List.mem_append_right _ (List.mem_singleton_self _)
  rw [inside_readLine, if_pos ended, taken, List.length_replicate] at read
  exact absurd read (by decide)

end FeaturesOS.Shell

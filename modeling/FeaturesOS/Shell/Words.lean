import FeaturesOS.Shell.Pipeline
import Mathlib.Data.List.Basic

/-!
# The words of a command

`parse_exec` is one pass over the words between the spaces.  Each word has its
place: a redirection, the temporary environment, or the arguments.
-/

namespace FeaturesOS.Shell

open CString

variable {globals : Globals} {c : Execcmd} {word file : List UInt8}

/-- The texts between runs of spaces. -/
def words (segment : List UInt8) : List (List UInt8) :=
  (segment.splitOn space).filter fun word => !word.isEmpty

/-! ## One pass -/

theorem words_of_not_mem (absent : space ∉ word) (nonempty : word ≠ []) :
    words word = [word] := by
  unfold words
  rw [List.splitOn_eq_singleton absent]
  simp [nonempty]

/-- The first word, which is empty when the text starts with a space. -/
theorem words_append (absent : space ∉ word) (rest : List UInt8) :
    words (word ++ space :: rest) =
      if word = [] then words rest else word :: words rest := by
  unfold words
  rw [List.splitOn_append_cons_self_of_not_mem absent, List.filter_cons]
  cases word with
  | nil => rfl
  | cons byte word => rfl

theorem parseToken_nil (globals : Globals) (c : Execcmd) :
    parseToken globals c [] = c := by
  unfold parseToken parseRedirFlow parseEnvironVar expandEnvironVar
  simp [blockContains]

/-- The token at the beginning, which is empty when the text starts with a
space, and the words behind it. -/
theorem words_step {rest : List UInt8} (more : rest ≠ []) :
    words rest = (if getToken rest = [] then [] else [getToken rest]) ++
      words (rest.drop ((getToken rest).length + 1)) := by
  by_cases inside : space ∈ rest
  · obtain ⟨tok, others, rfl, absent⟩ := List.eq_append_cons_of_mem inside
    have isToken : getToken (tok ++ space :: others) = tok :=
      takeWhile_ne absent others
    have behind : (tok ++ space :: others).drop (tok.length + 1) = others := by
      rw [List.drop_append, List.drop_of_length_le (by omega)]
      simp
    rw [isToken, behind, words_append absent]
    split <;> rfl
  · have isToken : getToken rest = rest := by
      unfold getToken
      rw [List.takeWhile_eq_self_iff]
      intro byte member
      simpa using fun same : byte = space => inside (same ▸ member)
    have behind : rest.drop (rest.length + 1) = [] :=
      List.drop_of_length_le (Nat.le_succ _)
    rw [isToken, behind, words_of_not_mem inside more, if_neg more]
    rfl

theorem drop_token_lt {rest : List UInt8} (more : rest ≠ []) :
    (rest.drop ((getToken rest).length + 1)).length < rest.length := by
  have positive := List.length_pos_iff.mpr more
  rw [List.length_drop]
  omega

/-- The loop takes one word after the other. -/
theorem parseExecFrom_eq (globals : Globals) {fuel : Nat} (c : Execcmd)
    {rest : List UInt8} (enough : rest.length ≤ fuel) :
    parseExecFrom globals fuel c rest =
      (words rest).foldl (parseToken globals) c := by
  induction fuel generalizing c rest with
  | zero =>
      rw [List.length_eq_zero_iff.mp (Nat.le_zero.mp enough)]
      rfl
  | succ fuel induction =>
      rw [parseExecFrom]
      by_cases done : rest = []
      · rw [if_pos done, done]
        rfl
      have shorter := drop_token_lt done
      rw [if_neg done]
      dsimp only
      rw [induction _ (by omega), words_step done]
      by_cases empty : getToken rest = []
      · rw [if_pos empty, empty, parseToken_nil]
        rfl
      · rw [if_neg empty]
        rfl

theorem parseExec_eq (globals : Globals) (segment : List UInt8) :
    parseExec globals segment =
      (words segment).foldl (parseToken globals) (execCmdCreate segment) :=
  parseExecFrom_eq globals _ (Nat.le_refl _)

/-- What one word after the other adds to a list of the command. -/
theorem parseExec_collects {view : Execcmd → List (List UInt8)}
    {chosen : List UInt8 → Prop} [DecidablePred chosen]
    {value : List UInt8 → List UInt8}
    (adds : ∀ c word, view (parseToken globals c word) =
      if chosen word then view c ++ [value word] else view c)
    (segment : List UInt8) :
    view (parseExec globals segment) = view (execCmdCreate segment) ++
      ((words segment).filter chosen).map value := by
  rw [parseExec_eq]
  generalize execCmdCreate segment = c
  induction words segment generalizing c with
  | nil => simp
  | cons word entries induction =>
      rw [List.foldl_cons, induction, adds, List.filter_cons]
      by_cases isChosen : chosen word
      · rw [if_pos isChosen, if_pos (by simpa using isChosen), List.map_cons,
          List.append_assoc, List.singleton_append]
      · rw [if_neg isChosen, if_neg (by simpa using isChosen)]

/-! ## Redirections -/

/-- `'2'`. -/
def two : UInt8 := 50

/-- What a redirection word asks for. -/
inductive Redirection where
  | input (file : List UInt8)
  | output (file : List UInt8)
  | error (file : List UInt8)
  | errorToOutput
deriving DecidableEq

/-- `<f`, `>f`, `2>f` and `2>&1`. -/
def Redirection.token : Redirection → List UInt8
  | .input file => less :: file
  | .output file => greater :: file
  | .error file => two :: greater :: file
  | .errorToOutput => [two, greater, backChar, 49]

/-- What a word asks for, when it is a redirection. -/
def redirectionOf (word : List UInt8) : Option Redirection :=
  if word = Redirection.errorToOutput.token then
    some .errorToOutput
  else
    match word with
    | [] => none
    | first :: file =>
        if first = less ∧ file ≠ [] then
          some (.input file)
        else if first = greater ∧ file ≠ [] then
          some (.output file)
        else if first = two ∧ file.head? = some greater ∧ file.tail ≠ [] then
          some (.error file.tail)
        else
          none

/-- The redirection takes effect in the command. -/
def Execcmd.redirect (c : Execcmd) : Redirection → Execcmd
  | .input file => { c with inFile := file, type := .redir }
  | .output file => { c with outFile := file, type := .redir }
  | .error file => { c with errFile := file, type := .redir }
  | .errorToOutput => { c with errFile := c.outFile, type := .redir }

theorem word_of_redirectionOf {redirection : Redirection}
    (asks : redirectionOf word = some redirection) :
    word = redirection.token := by
  unfold redirectionOf at asks
  split at asks
  · rename_i same
    rw [← Option.some.inj asks]
    exact same
  · split at asks
    · cases asks
    · split at asks
      · rename_i isInput
        rw [← Option.some.inj asks, isInput.1]
        rfl
      · split at asks
        · rename_i isOutput
          rw [← Option.some.inj asks, isOutput.1]
          rfl
        · split at asks
          · rename_i isError
            obtain ⟨isTwo, isGreater, -⟩ := isError
            obtain ⟨file, rfl⟩ := List.head?_eq_some_iff.mp isGreater
            rw [← Option.some.inj asks, isTwo]
            rfl
          · cases asks

/-! ## The recognisers -/

theorem blockContains_nonneg (block : List UInt8) (byte : UInt8) :
    blockContains block byte ≥ 0 ↔ byte ∈ block := by
  by_cases inside : byte ∈ block
  · obtain ⟨before, after, rfl, absent⟩ := List.eq_append_cons_of_mem inside
    rw [blockContains_append absent]
    simp
  · rw [blockContains_of_not_mem inside]
    exact iff_of_false (by decide) inside

/-- A word without `<` and `>` passes. -/
theorem parseRedirFlow_none (noLess : less ∉ word) (noGreater : greater ∉ word) :
    parseRedirFlow c word = none := by
  unfold parseRedirFlow
  dsimp only
  rw [if_neg (by rwa [blockContains_nonneg]),
    if_neg (by rwa [blockContains_nonneg])]

/-- Any other word is taken for a redirection. -/
theorem parseRedirFlow_some (c : Execcmd) (special : less ∈ word ∨ greater ∈ word) :
    ∃ taken, parseRedirFlow c word = some taken ∧ taken.type = .redir ∧
      taken.argv = c.argv ∧ taken.eargv = c.eargv ∧
      (greater ∈ word → taken.inFile = c.inFile) := by
  unfold parseRedirFlow
  dsimp only
  by_cases output : greater ∈ word
  · rw [if_pos (by rwa [blockContains_nonneg])]
    split
    · exact ⟨_, rfl, rfl, rfl, rfl, fun _ => rfl⟩
    · split
      · split <;> exact ⟨_, rfl, rfl, rfl, rfl, fun _ => rfl⟩
      · exact ⟨_, rfl, rfl, rfl, rfl, fun _ => rfl⟩
  · have input : less ∈ word := special.resolve_right output
    rw [if_neg (by rwa [blockContains_nonneg]),
      if_pos (by rwa [blockContains_nonneg])]
    exact ⟨_, rfl, rfl, rfl, rfl, fun inside => absurd inside output⟩

theorem parseRedirFlow_input (noGreater : greater ∉ file) :
    parseRedirFlow c (less :: file) = some (c.redirect (.input file)) := by
  have absent : greater ∉ less :: file := by
    simpa [less, greater] using noGreater
  unfold parseRedirFlow
  dsimp only
  rw [if_neg (by rwa [blockContains_nonneg]),
    if_pos (by rw [blockContains_nonneg]; exact List.mem_cons_self)]
  rfl

theorem parseRedirFlow_output :
    parseRedirFlow c (greater :: file) = some (c.redirect (.output file)) := by
  have here : blockContains (greater :: file) greater = 0 :=
    blockContains_append List.not_mem_nil file
  unfold parseRedirFlow
  dsimp only
  rw [here, if_pos (by decide), if_pos rfl]
  rfl

theorem parseRedirFlow_error :
    parseRedirFlow c (two :: greater :: file) =
      if file = [backChar, 49] then some (c.redirect .errorToOutput)
      else some (c.redirect (.error file)) := by
  have absent : greater ∉ [two] := by decide
  have here : blockContains (two :: greater :: file) greater = 1 :=
    blockContains_append absent file
  unfold parseRedirFlow
  dsimp only
  rw [here, if_pos (by decide), if_neg (by decide), if_pos rfl]
  rfl

/-- The text in front of the first `=`. -/
def keyOf (word : List UInt8) : List UInt8 := word.takeWhile (· != equals)

/-- `KEY=VALUE`, where a `-` in `KEY` means that it is an argument of the
program. -/
def IsAssignment (word : List UInt8) : Prop :=
  equals ∈ word ∧ keyOf word ≠ [] ∧ dash ∉ keyOf word

instance : DecidablePred IsAssignment := fun _ =>
  inferInstanceAs (Decidable (_ ∧ _ ∧ _))

theorem keyOf_append (key value : List UInt8) (absent : equals ∉ key) :
    keyOf (key ++ equals :: value) = key :=
  takeWhile_ne absent value

/-- The parser looks for the `-` in the whole word. -/
theorem assigns_iff (word : List UInt8) :
    blockContains word equals > 0 ∧ blockContains word dash < 0 ↔
      equals ∈ word ∧ keyOf word ≠ [] ∧ dash ∉ word := by
  have noDash : blockContains word dash < 0 ↔ dash ∉ word := by
    rw [← blockContains_nonneg, not_le]
  have hasKey : blockContains word equals > 0 ↔
      equals ∈ word ∧ keyOf word ≠ [] := by
    by_cases inside : equals ∈ word
    · obtain ⟨key, value, rfl, absent⟩ := List.eq_append_cons_of_mem inside
      rw [blockContains_append absent, keyOf_append key value absent]
      simp [List.length_pos_iff]
    · rw [blockContains_of_not_mem inside]
      exact iff_of_false (by decide) fun both => inside both.1
  rw [noDash, hasKey, and_assoc]

theorem parseEnvironVar_eq (c : Execcmd) (word : List UInt8) :
    parseEnvironVar c word =
      if equals ∈ word ∧ keyOf word ≠ [] ∧ dash ∉ word then
        some { c with eargv := c.eargv ++ [word] }
      else none := by
  unfold parseEnvironVar
  exact if_congr (assigns_iff word) rfl rfl

/-! ## Places -/

/-- What an argument stands for: the value of a variable, or itself. -/
def Globals.valueOf (globals : Globals) : List UInt8 → List UInt8
  | [] => []
  | first :: name =>
      if first ≠ dollar then first :: name
      else if name = [63] then decimal globals.status.toInt
      else (globals.getenv name).getD []

theorem expandEnvironVar_eq (globals : Globals) (arg : List UInt8) :
    expandEnvironVar globals arg = globals.valueOf arg := by
  unfold expandEnvironVar Globals.valueOf
  cases arg with
  | nil => rfl
  | cons first name =>
      rw [List.head?_cons]
      by_cases isVariable : first = dollar
      · simp [isVariable]
      · simp [isVariable]

/-- The place of a word in the command: a redirection, an assignment, or an
argument that is left out when it stands for nothing. -/
def place (globals : Globals) (c : Execcmd) (word : List UInt8) : Execcmd :=
  match redirectionOf word with
  | some redirection => c.redirect redirection
  | none =>
      if IsAssignment word then
        { c with eargv := c.eargv ++ [word] }
      else if globals.valueOf word = [] then
        c
      else
        { c with argv := c.argv ++ [globals.valueOf word] }

/-- A word with `<` or `>` is a redirection, only a file behind `>` has another
`>` in it, and the value of an assignment has no `-`. -/
structure PlainWord (word : List UInt8) : Prop where
  redirection : less ∈ word ∨ greater ∈ word →
    redirectionOf word ≠ none ∧ (word.head? = some less → greater ∉ word)
  assignment : less ∉ word → greater ∉ word → IsAssignment word → dash ∉ word

instance : DecidablePred PlainWord := fun word =>
  decidable_of_iff
    ((less ∈ word ∨ greater ∈ word →
        redirectionOf word ≠ none ∧
          (word.head? = some less → greater ∉ word)) ∧
      (less ∉ word → greater ∉ word → IsAssignment word → dash ∉ word))
    ⟨fun plain => ⟨plain.1, plain.2⟩,
      fun plain => ⟨plain.redirection, plain.assignment⟩⟩

theorem parseToken_of_redirection {redirection : Redirection}
    (asks : redirectionOf word = some redirection)
    (single : word.head? = some less → greater ∉ word) :
    parseToken globals c word = c.redirect redirection := by
  have isWord := word_of_redirectionOf asks
  have parsed : parseRedirFlow c word = some (c.redirect redirection) := by
    cases redirection with
    | input file =>
        rw [isWord] at single ⊢
        exact parseRedirFlow_input fun inside =>
          single rfl (List.mem_cons_of_mem _ inside)
    | output file =>
        rw [isWord]
        exact parseRedirFlow_output
    | error file =>
        have named : file ≠ [backChar, 49] := by
          rintro rfl
          rw [isWord] at asks
          cases asks
        rw [isWord]
        exact parseRedirFlow_error.trans (if_neg named)
    | errorToOutput =>
        rw [isWord]
        exact parseRedirFlow_error.trans (if_pos rfl)
  unfold parseToken
  rw [parsed]

/-- A word that passes the first recogniser. -/
theorem parseToken_of_none (noLess : less ∉ word) (noGreater : greater ∉ word) :
    parseToken globals c word =
      if equals ∈ word ∧ keyOf word ≠ [] ∧ dash ∉ word then
        { c with eargv := c.eargv ++ [word] }
      else if globals.valueOf word = [] then
        c
      else
        { c with argv := c.argv ++ [globals.valueOf word] } := by
  unfold parseToken
  rw [parseRedirFlow_none noLess noGreater, parseEnvironVar_eq,
    expandEnvironVar_eq]
  dsimp only
  by_cases assigns : equals ∈ word ∧ keyOf word ≠ [] ∧ dash ∉ word
  · rw [if_pos assigns, if_pos assigns]
  · rw [if_neg assigns, if_neg assigns]
    dsimp only
    by_cases empty : globals.valueOf word = []
    · rw [if_pos empty, empty]
      rfl
    · rw [if_neg empty, if_pos (List.length_pos_iff.mpr empty)]

/-- Without `<` and `>` a word is no redirection. -/
theorem redirectionOf_none (noLess : less ∉ word) (noGreater : greater ∉ word) :
    redirectionOf word = none := by
  cases asks : redirectionOf word with
  | none => rfl
  | some redirection =>
      have isWord := word_of_redirectionOf asks
      rw [isWord] at noLess noGreater
      cases redirection with
      | input file => exact absurd List.mem_cons_self noLess
      | output file => exact absurd List.mem_cons_self noGreater
      | error file =>
          exact absurd (List.mem_cons_of_mem _ List.mem_cons_self) noGreater
      | errorToOutput =>
          exact absurd (List.mem_cons_of_mem _ List.mem_cons_self) noGreater

/-- A word gets to its place, whatever came before it, exactly when it is
plain. -/
theorem parseToken_eq_place_iff :
    (∀ c, parseToken globals c word = place globals c word) ↔
      PlainWord word := by
  constructor
  · intro placed
    have fresh := placed (execCmdCreate [])
    unfold place at fresh
    constructor
    · intro special
      obtain ⟨taken, parsed, isRedir, -, -, sameInput⟩ :=
        parseRedirFlow_some (execCmdCreate []) special
      have isTaken : parseToken globals (execCmdCreate []) word = taken := by
        unfold parseToken
        rw [parsed]
      rw [isTaken] at fresh
      constructor
      · intro notOne
        rw [notOne] at fresh
        have sameType := congrArg Execcmd.type fresh
        rw [isRedir] at sameType
        dsimp only at sameType
        split at sameType
        · cases sameType
        · split at sameType <;> cases sameType
      · intro first inside
        obtain ⟨file, rfl⟩ := List.head?_eq_some_iff.mp first
        have named : greater ∈ file := by
          simpa [less, greater] using inside
        have asks : redirectionOf (less :: file) = some (.input file) := by
          unfold redirectionOf
          rw [if_neg (by simp [Redirection.token, two, less])]
          exact if_pos ⟨rfl, List.ne_nil_of_mem named⟩
        rw [asks] at fresh
        have sameFile := congrArg Execcmd.inFile fresh
        rw [sameInput inside] at sameFile
        exact List.ne_nil_of_mem named sameFile.symm
    · intro noLess noGreater assigns inside
      rw [redirectionOf_none noLess noGreater,
        parseToken_of_none noLess noGreater,
        if_neg (fun taken => taken.2.2 inside)] at fresh
      dsimp only at fresh
      rw [if_pos assigns] at fresh
      have sameWords := congrArg Execcmd.eargv fresh
      split at sameWords <;> cases sameWords
  · intro plain c
    unfold place
    by_cases special : less ∈ word ∨ greater ∈ word
    · obtain ⟨isRedirection, single⟩ := plain.redirection special
      cases asks : redirectionOf word with
      | none => exact absurd asks isRedirection
      | some redirection => exact parseToken_of_redirection asks single
    · obtain ⟨noLess, noGreater⟩ := not_or.mp special
      rw [redirectionOf_none noLess noGreater,
        parseToken_of_none noLess noGreater]
      dsimp only
      by_cases assigns : IsAssignment word
      · rw [if_pos assigns, if_pos ⟨assigns.1, assigns.2.1,
          plain.assignment noLess noGreater assigns⟩]
      · rw [if_neg assigns, if_neg]
        rintro ⟨hasEquals, hasKey, noDash⟩
        refine assigns ⟨hasEquals, hasKey, fun inside => noDash ?_⟩
        exact (List.takeWhile_prefix _).subset inside

/-! ## No word is lost -/

def argsize : Nat := 1024
def fnamesize : Nat := 1024

/-- The length of the block in which `expand_environ_var` leaves a word. -/
def tokenBlock (globals : Globals) (arg : List UInt8) : Nat :=
  if arg.head? ≠ some dollar then argsize
  else if arg = [dollar, 63] then argsize
  else
    match globals.getenv (arg.drop 1) with
    | none => argsize
    | some value =>
        if value.length > arg.length then value.length + 1 else argsize

/-- The names of the files fit in their fields. -/
structure Execcmd.NamesFit (c : Execcmd) : Prop where
  inFile : c.inFile.length < fnamesize
  outFile : c.outFile.length < fnamesize
  errFile : c.errFile.length < fnamesize

/-- Every word gets to its place and fits there. -/
structure KeepsWords (globals : Globals) (segment : List UInt8) : Prop where
  placed : ∀ word ∈ words segment, ∀ c,
    parseToken globals c word = place globals c word
  result : parseExec globals segment =
    (words segment).foldl (place globals) (execCmdCreate segment)
  counts : (parseExec globals segment).Fits
  tokens : ∀ word ∈ words segment, word.length < argsize ∧
    (expandEnvironVar globals word).length < tokenBlock globals word
  names : (parseExec globals segment).NamesFit

/-- A number of the type `int` has at most ten digits and a sign. -/
theorem length_decimal (status : Int32) :
    (decimal status.toInt).length ≤ 11 := by
  have low := status.le_toInt
  have high := status.toInt_lt
  have digits : ∀ n : Nat, n < 10 ^ 10 → (toString n).length ≤ 10 :=
    fun n below => Nat.length_repr_le_iff (by decide) |>.mpr below
  unfold decimal
  rw [List.length_map, String.length_toList]
  cases value : status.toInt with
  | ofNat n =>
      rw [value] at high
      have small : (n : Int) < 2147483648 := high
      have short := digits n (by omega)
      exact Nat.le_succ_of_le short
  | negSucc n =>
      rw [value] at low
      have short := digits (n + 1) (by omega)
      have signed : toString (Int.negSucc n) = "-" ++ toString (n + 1) := rfl
      have sign : "-".length = 1 := rfl
      rw [signed, String.length_append, sign]
      omega

/-- A value that is longer than the word gets a block of its own. -/
theorem expandEnvironVar_fits (globals : Globals) (short : word.length < argsize) :
    (expandEnvironVar globals word).length < tokenBlock globals word := by
  unfold expandEnvironVar tokenBlock
  by_cases variable' : word.head? ≠ some dollar
  · rw [if_pos variable', if_pos variable']
    exact short
  rw [if_neg variable', if_neg variable']
  by_cases isStatus : word = [dollar, 63]
  · rw [if_pos isStatus, if_pos isStatus]
    have small := length_decimal globals.status
    unfold argsize
    omega
  rw [if_neg isStatus, if_neg isStatus]
  cases globals.getenv (word.drop 1) with
  | none => exact Nat.lt_of_le_of_lt (Nat.zero_le _) short
  | some value =>
      dsimp only
      rw [Option.getD_some]
      split <;> omega

theorem namesFit_redirect {redirection : Redirection} (fits : c.NamesFit)
    (short : redirection.token.length < argsize) :
    (c.redirect redirection).NamesFit := by
  unfold argsize Redirection.token at short
  cases redirection with
  | input file =>
      rw [List.length_cons] at short
      have named : file.length < fnamesize := Nat.lt_of_succ_lt short
      exact ⟨named, fits.outFile, fits.errFile⟩
  | output file =>
      rw [List.length_cons] at short
      have named : file.length < fnamesize := Nat.lt_of_succ_lt short
      exact ⟨fits.inFile, named, fits.errFile⟩
  | error file =>
      rw [List.length_cons, List.length_cons] at short
      have named : file.length < fnamesize :=
        Nat.lt_of_succ_lt (Nat.lt_of_succ_lt short)
      exact ⟨fits.inFile, fits.outFile, named⟩
  | errorToOutput => exact ⟨fits.inFile, fits.outFile, fits.outFile⟩

theorem namesFit_place (fits : c.NamesFit) (short : word.length < argsize) :
    (place globals c word).NamesFit := by
  unfold place
  cases asks : redirectionOf word with
  | some redirection =>
      rw [word_of_redirectionOf asks] at short
      exact namesFit_redirect fits short
  | none =>
      dsimp only
      split
      · exact ⟨fits.inFile, fits.outFile, fits.errFile⟩
      · split
        · exact fits
        · exact ⟨fits.inFile, fits.outFile, fits.errFile⟩

theorem namesFit_foldl {entries : List (List UInt8)} (fits : c.NamesFit)
    (short : ∀ word ∈ entries, word.length < argsize) :
    (entries.foldl (place globals) c).NamesFit := by
  induction entries generalizing c with
  | nil => exact fits
  | cons word entries induction =>
      obtain ⟨first, others⟩ := List.forall_mem_cons.mp short
      exact induction (namesFit_place fits first) others

/-- No word of a command is lost exactly when all of them are plain and none is
longer than its block. -/
theorem keepsWords_iff {segment : List UInt8}
    (room : ((words segment).foldl (place globals)
      (execCmdCreate segment)).Fits) :
    KeepsWords globals segment ↔
      ∀ word ∈ words segment, PlainWord word ∧ word.length < argsize := by
  constructor
  · intro keeps word member
    exact ⟨parseToken_eq_place_iff.mp (keeps.placed word member),
      (keeps.tokens word member).1⟩
  · intro plain
    have placed : ∀ word ∈ words segment, ∀ c,
        parseToken globals c word = place globals c word :=
      fun word member => parseToken_eq_place_iff.mpr (plain word member).1
    have result : parseExec globals segment =
        (words segment).foldl (place globals) (execCmdCreate segment) := by
      rw [parseExec_eq]
      exact List.foldl_ext _ _ _ fun c word member => placed word member c
    constructor
    · exact placed
    · exact result
    · rw [result]
      exact room
    · intro word member
      have short := (plain word member).2
      exact ⟨short, expandEnvironVar_fits globals short⟩
    · rw [result]
      refine namesFit_foldl ?_ fun word member => (plain word member).2
      have positive : 0 < fnamesize := by decide
      exact ⟨positive, positive, positive⟩

/-- Surroundings without variables. -/
def noVariables : Globals := ⟨0, fun _ => none⟩

/-- The command `A=1 ls >f`. -/
theorem keepsWords_ls : KeepsWords noVariables
    [65, 61, 49, 32, 108, 115, 32, 62, 102] := by
  refine (keepsWords_iff ?_).mpr (by decide +kernel)
  exact ⟨by decide +kernel, by decide +kernel⟩

/-- The second word of `a ab>c` gets lost. -/
theorem not_keepsWords_inside :
    ¬ ∀ (globals : Globals) (segment : List UInt8),
      ((words segment).foldl (place globals) (execCmdCreate segment)).Fits →
      KeepsWords globals segment := by
  intro all
  have keeps := all noVariables [97, 32, 97, 98, 62, 99]
    ⟨by decide +kernel, by decide +kernel⟩
  have plain : PlainWord [97, 98, 62, 99] := parseToken_eq_place_iff.mp
    (keeps.placed [97, 98, 62, 99] (by decide +kernel))
  revert plain
  decide +kernel

end FeaturesOS.Shell

import FeaturesOS.Shell.Background
import FeaturesOS.Shell.Buffers
import FeaturesOS.Shell.Plumbing
import Mathlib.Data.List.Induction

/-!
# Redirections from left to right

The parser keeps three names of files for the redirections of a command, and
`exec_cmd` opens what they name.  The meaning of the words goes through them in
order instead, and the names lose some of it.
-/

namespace FeaturesOS.Shell

open CString

variable {redirection : Redirection} {redirections : List Redirection}
variable {c : Execcmd} {fds : Fds} {file : List UInt8}

/-! ## The meaning -/

/-- What the standard descriptors refer to. -/
@[ext] structure Targets where
  stdin : File
  stdout : File
  stderr : File
deriving DecidableEq

variable {own : Targets}

/-- A redirection with the descriptors as they are when its turn comes. -/
def Targets.apply (targets : Targets) : Redirection → Targets
  | .input file => { targets with stdin := .opened file }
  | .output file => { targets with stdout := .opened file }
  | .error file => { targets with stderr := .opened file }
  | .errorToOutput => { targets with stderr := targets.stdout }

/-- The redirections from left to right. -/
def Targets.after (own : Targets) (redirections : List Redirection) : Targets :=
  redirections.foldl Targets.apply own

structure Fds.RefersTo (fds : Fds) (targets : Targets) : Prop where
  stdin : fds.get 0 = some targets.stdin
  stdout : fds.get 1 = some targets.stdout
  stderr : fds.get 2 = some targets.stderr

/-- The redirections among the words of a command. -/
def redirectionsOf (segment : List UInt8) : List Redirection :=
  (words segment).filterMap redirectionOf

def Redirection.isOutput : Redirection → Bool
  | .output _ => true
  | _ => false

def Redirection.isError : Redirection → Bool
  | .error _ | .errorToOutput => true
  | _ => false

/-- The file has a name. -/
def Redirection.Named : Redirection → Prop
  | .input file | .output file | .error file => file ≠ []
  | .errorToOutput => True

/-! ## What the names mean -/

/-- The name of a file, if there is one. -/
def openedOr (name : List UInt8) (other : File) : File :=
  if name = [] then other else .opened name

/-- What `exec_cmd` makes of the names. -/
def Execcmd.targets (c : Execcmd) (own : Targets) : Targets :=
  match c.type with
  | .exec => own
  | .redir =>
      let stdout := openedOr c.outFile own.stdout
      { stdin := openedOr c.inFile own.stdin
        stdout := stdout
        stderr := if c.errFile = c.outFile then stdout
          else openedOr c.errFile own.stderr }

/-- What the parser makes of the redirections. -/
def namesOf (redirections : List Redirection) : Execcmd :=
  redirections.foldl Execcmd.redirect (execCmdCreate [])

/-- The output or the error is redirected when anything is.  When `2>&1` is the
last redirection of the error and the output is redirected behind it, it is also
redirected in front of it. -/
structure KeepsError (redirections : List Redirection) : Prop where
  named : redirections ≠ [] →
    ∃ redirection ∈ redirections, redirection.isOutput ∨ redirection.isError
  joined : ∀ earlier later, redirections = earlier ++ .errorToOutput :: later →
    (∀ redirection ∈ later, ¬ redirection.isError) →
    (∃ redirection ∈ later, redirection.isOutput) →
    ∃ redirection ∈ earlier, redirection.isOutput

theorem namesOf_append (earlier later : List Redirection) :
    namesOf (earlier ++ later) = later.foldl Execcmd.redirect (namesOf earlier) :=
  List.foldl_append

theorem after_append (own : Targets) (earlier later : List Redirection) :
    own.after (earlier ++ later) = (own.after earlier).after later :=
  List.foldl_append

theorem redirect_type (c : Execcmd) (redirection : Redirection) :
    (c.redirect redirection).type = .redir := by
  cases redirection <;> rfl

theorem namesOf_type (nonempty : redirections ≠ []) :
    (namesOf redirections).type = .redir := by
  rcases List.eq_nil_or_concat redirections with rfl | ⟨earlier, last, rfl⟩
  · exact absurd rfl nonempty
  · rw [List.concat_eq_append, namesOf_append]
    exact redirect_type _ _

/-- The input and the output go to the files that were named last.  The induction
takes the redirections from the left. -/
theorem after_flows (own : Targets) (named : ∀ redirection ∈ redirections,
    redirection.Named) :
    (own.after redirections).stdin =
        openedOr (namesOf redirections).inFile own.stdin ∧
      (own.after redirections).stdout =
        openedOr (namesOf redirections).outFile own.stdout := by
  induction redirections using List.reverseRecOn with
  | nil => exact ⟨rfl, rfl⟩
  | append_singleton earlier last induction =>
      rw [List.forall_mem_append, List.forall_mem_singleton] at named
      obtain ⟨sameInput, sameOutput⟩ := induction named.1
      have isNamed := named.2
      rw [after_append, namesOf_append]
      cases last with
      | input file => exact ⟨(if_neg isNamed).symm, sameOutput⟩
      | output file => exact ⟨sameInput, (if_neg isNamed).symm⟩
      | error file => exact ⟨sameInput, sameOutput⟩
      | errorToOutput => exact ⟨sameInput, sameOutput⟩

/-- The output has a name when one of the redirections gives it one. -/
theorem outFile_namesOf (named : ∀ redirection ∈ redirections,
    redirection.Named) :
    (namesOf redirections).outFile ≠ [] ↔
      ∃ redirection ∈ redirections, redirection.isOutput := by
  induction redirections using List.reverseRecOn with
  | nil => simp [namesOf, execCmdCreate]
  | append_singleton earlier last induction =>
      rw [List.forall_mem_append, List.forall_mem_singleton] at named
      have before := induction named.1
      have isNamed := named.2
      rw [namesOf_append]
      cases last with
      | input file =>
          simpa [Redirection.isOutput, Execcmd.redirect] using before
      | output file =>
          exact iff_of_true isNamed ⟨.output file, by simp, rfl⟩
      | error file =>
          simpa [Redirection.isOutput, Execcmd.redirect] using before
      | errorToOutput =>
          simpa [Redirection.isOutput, Execcmd.redirect] using before

/-- Without a redirection of the error nothing happens to it. -/
theorem foldl_noError (c : Execcmd) (targets : Targets)
    (noError : ∀ redirection ∈ redirections, ¬ redirection.isError) :
    (redirections.foldl Execcmd.redirect c).errFile = c.errFile ∧
      (targets.after redirections).stderr = targets.stderr := by
  induction redirections generalizing c targets with
  | nil => exact ⟨rfl, rfl⟩
  | cons first later induction =>
      obtain ⟨notError, others⟩ := List.forall_mem_cons.mp noError
      obtain ⟨sameName, sameTarget⟩ :=
        induction (c.redirect first) (targets.apply first) others
      have unchanged : (c.redirect first).errFile = c.errFile ∧
          (targets.apply first).stderr = targets.stderr := by
        cases first with
        | input file => exact ⟨rfl, rfl⟩
        | output file => exact ⟨rfl, rfl⟩
        | error file => exact absurd rfl notError
        | errorToOutput => exact absurd rfl notError
      exact ⟨sameName.trans unchanged.1, sameTarget.trans unchanged.2⟩

/-- The error is not redirected, or there is a last redirection of it. -/
theorem lastError (redirections : List Redirection) :
    (∀ redirection ∈ redirections, ¬ redirection.isError) ∨
      ∃ earlier last later, redirections = earlier ++ last :: later ∧
        last.isError ∧ ∀ redirection ∈ later, ¬ redirection.isError := by
  induction redirections with
  | nil => exact .inl (List.forall_mem_nil _)
  | cons first rest induction =>
      rcases induction with none' | ⟨earlier, last, later, rfl, isError, none'⟩
      · by_cases isError : first.isError
        · exact .inr ⟨[], first, rest, rfl, isError, none'⟩
        · exact .inl (List.forall_mem_cons.mpr ⟨isError, none'⟩)
      · exact .inr ⟨first :: earlier, last, later, rfl, isError, none'⟩

/-- The last redirection of the error is in one place only. -/
theorem lastError_unique {earlier earlier' later later' : List Redirection}
    {last last' : Redirection}
    (same : earlier ++ last :: later = earlier' ++ last' :: later')
    (isError : last.isError) (isError' : last'.isError)
    (noError : ∀ redirection ∈ later, ¬ redirection.isError)
    (noError' : ∀ redirection ∈ later', ¬ redirection.isError) :
    earlier = earlier' ∧ last = last' ∧ later = later' := by
  rcases List.append_eq_append_iff.mp same with
    ⟨between, rfl, rest⟩ | ⟨between, rfl, rest⟩
  · cases between with
    | nil =>
        obtain ⟨sameLast, sameLater⟩ := List.cons.inj rest
        exact ⟨(List.append_nil _).symm, sameLast, sameLater⟩
    | cons first between =>
        have inside : last' ∈ later := by
          rw [(List.cons.inj rest).2]
          simp
        exact absurd isError' (noError last' inside)
  · cases between with
    | nil =>
        obtain ⟨sameLast, sameLater⟩ := List.cons.inj rest
        exact ⟨List.append_nil _, sameLast.symm, sameLater.symm⟩
    | cons first between =>
        have inside : last ∈ later' := by
          rw [(List.cons.inj rest).2]
          simp
        exact absurd isError (noError' last inside)

/-- Only the error can go wrong. -/
theorem targets_eq_iff (own : Targets) (nonempty : redirections ≠ [])
    (named : ∀ redirection ∈ redirections, redirection.Named) :
    (namesOf redirections).targets own = own.after redirections ↔
      (if (namesOf redirections).errFile = (namesOf redirections).outFile then
          openedOr (namesOf redirections).outFile own.stdout
        else openedOr (namesOf redirections).errFile own.stderr) =
      (own.after redirections).stderr := by
  obtain ⟨sameInput, sameOutput⟩ := after_flows own named
  unfold Execcmd.targets
  rw [namesOf_type nonempty]
  constructor
  · intro same
    exact congrArg Targets.stderr same
  · intro same
    exact Targets.ext sameInput.symm sameOutput.symm same

/-- The error is not redirected. -/
theorem targets_eq_of_noError (own : Targets) (nonempty : redirections ≠ [])
    (named : ∀ redirection ∈ redirections, redirection.Named)
    (noError : ∀ redirection ∈ redirections, ¬ redirection.isError) :
    (namesOf redirections).targets own = own.after redirections ↔
      own.stdout = own.stderr ∨ KeepsError redirections := by
  obtain ⟨noName, unchanged⟩ :=
    foldl_noError (execCmdCreate []) own noError
  have empty : (namesOf redirections).errFile = [] := noName
  rw [targets_eq_iff own nonempty named, unchanged, empty]
  by_cases output : (namesOf redirections).outFile = []
  · have notKept : ¬ KeepsError redirections := by
      intro kept
      obtain ⟨redirection, member, isOutput | isError⟩ := kept.named nonempty
      · exact (outFile_namesOf named).mpr ⟨_, member, isOutput⟩ output
      · exact noError _ member isError
    rw [output, if_pos rfl, or_iff_left notKept]
    rfl
  · have kept : KeepsError redirections := by
      obtain ⟨redirection, member, isOutput⟩ := (outFile_namesOf named).mp output
      refine ⟨fun _ => ⟨redirection, member, .inl isOutput⟩, ?_⟩
      rintro earlier later rfl
      exact absurd rfl (noError .errorToOutput (by simp))
    rw [if_neg (Ne.symm output)]
    exact iff_of_true rfl (.inr kept)

/-- The error has the name of a file, which the output may have as well. -/
theorem stderr_of_named (own : Targets) (outFile : List UInt8)
    (named : file ≠ []) :
    (if file = outFile then openedOr outFile own.stdout
      else openedOr file own.stderr) = .opened file := by
  by_cases same : file = outFile
  · rw [if_pos same, ← same]
    exact if_neg named
  · rw [if_neg same]
    exact if_neg named

/-- The error has gone to the output, which had the name `joined` then and has
the name `outFile` in the end. -/
theorem stderr_of_joined (own : Targets) {joined outFile : List UInt8}
    {behind : Prop} (output : outFile ≠ [] ↔ joined ≠ [] ∨ behind) :
    (if joined = outFile then openedOr outFile own.stdout
        else openedOr joined own.stderr) = openedOr joined own.stdout ↔
      own.stdout = own.stderr ∨ (behind → joined ≠ []) := by
  by_cases named : joined = []
  · subst named
    by_cases later : outFile = []
    · have notBehind : ¬ behind := fun isBehind => output.mpr (.inr isBehind) later
      rw [if_pos later.symm, later]
      exact iff_of_true rfl (.inr fun isBehind => absurd isBehind notBehind)
    · have isBehind : behind := (output.mp later).resolve_left fun no => no rfl
      have noWay : ¬ (behind → ([] : List UInt8) ≠ []) := fun way =>
        way isBehind rfl
      rw [if_neg (Ne.symm later), or_iff_left noWay]
      exact eq_comm
  · refine iff_of_true ?_ (.inr fun _ => named)
    exact (stderr_of_named own outFile named).trans (if_neg named).symm

/-- The names and the words agree about the error exactly under these
conditions, unless it makes no difference. -/
theorem targets_eq_after_iff (own : Targets)
    (named : ∀ redirection ∈ redirections, redirection.Named) :
    (namesOf redirections).targets own = own.after redirections ↔
      own.stdout = own.stderr ∨ KeepsError redirections := by
  by_cases nonempty : redirections = []
  · subst nonempty
    exact iff_of_true rfl (.inr ⟨fun more => absurd rfl more, by simp⟩)
  rcases lastError redirections with
    noError | ⟨earlier, last, later, rfl, isError, noError⟩
  · exact targets_eq_of_noError own nonempty named noError
  obtain ⟨namedEarlier, namedLast, -⟩ :
      (∀ redirection ∈ earlier, redirection.Named) ∧ last.Named ∧
        ∀ redirection ∈ later, redirection.Named := by
    rwa [List.forall_mem_append, List.forall_mem_cons] at named
  obtain ⟨sameName, sameTarget⟩ :=
    foldl_noError ((namesOf earlier).redirect last)
      ((own.after earlier).apply last) noError
  have name : (namesOf (earlier ++ last :: later)).errFile =
      ((namesOf earlier).redirect last).errFile := by
    rw [namesOf_append]
    exact sameName
  have target : (own.after (earlier ++ last :: later)).stderr =
      ((own.after earlier).apply last).stderr := by
    rw [after_append]
    exact sameTarget
  have isNamed : ∃ redirection ∈ earlier ++ last :: later,
      redirection.isOutput ∨ redirection.isError :=
    ⟨last, by simp, .inr isError⟩
  rw [targets_eq_iff own nonempty named, name, target]
  cases last with
  | input file => cases isError
  | output file => cases isError
  | error file =>
      have kept : KeepsError (earlier ++ .error file :: later) := by
        refine ⟨fun _ => isNamed, ?_⟩
        intro earlier' later' same noError' _
        cases (lastError_unique same isError rfl noError noError').2.1
      refine iff_of_true ?_ (.inr kept)
      exact stderr_of_named own _ namedLast
  | errorToOutput =>
      have output := outFile_namesOf named
      have sameOutput := (after_flows own namedEarlier).2
      have sides : (∃ redirection ∈ earlier ++ .errorToOutput :: later,
            redirection.isOutput) ↔
          (∃ redirection ∈ earlier, redirection.isOutput) ∨
            ∃ redirection ∈ later, redirection.isOutput := by
        simp [or_and_right, exists_or, Redirection.isOutput]
      have kept : KeepsError (earlier ++ .errorToOutput :: later) ↔
          ((∃ redirection ∈ later, redirection.isOutput) →
            ∃ redirection ∈ earlier, redirection.isOutput) := by
        refine ⟨fun kept => kept.joined _ _ rfl noError, ?_⟩
        refine fun before => ⟨fun _ => isNamed, ?_⟩
        intro earlier' later' same noError' behind
        obtain ⟨rfl, -, rfl⟩ :=
          lastError_unique same isError rfl noError noError'
        exact before behind
      rw [sides, ← outFile_namesOf namedEarlier] at output
      rw [← outFile_namesOf namedEarlier] at kept
      change (if (namesOf earlier).outFile = _ then _ else _) =
        (own.after earlier).stdout ↔ _
      rw [sameOutput, kept]
      exact stderr_of_joined own output

/-! ## The parser -/

/-- The names without the words of the command. -/
def Execcmd.names (c : Execcmd) : Execcmd :=
  { c with scmd := [], argv := [], eargv := [] }

/-- The file has a name that no redirection is in. -/
def Redirection.Plain : Redirection → Prop
  | .input file | .output file | .error file =>
      less ∉ file ∧ greater ∉ file ∧ backChar ∉ file
  | .errorToOutput => True

instance : DecidablePred Redirection.Plain
  | .input _ | .output _ | .error _ => inferInstanceAs (Decidable (_ ∧ _ ∧ _))
  | .errorToOutput => inferInstanceAs (Decidable True)

/-- A command that is not empty, where `<`, `>` and `&` only stand in
redirections. -/
structure SimpleCommand (segment : List UInt8) : Prop where
  nonempty : segment ≠ []
  nulFree : 0 ∉ segment
  redirections : ∀ word ∈ words segment,
    less ∈ word ∨ greater ∈ word ∨ backChar ∈ word →
    ∃ redirection ∈ redirectionOf word, redirection.Plain

theorem redirectionOf_named {word : List UInt8}
    (asks : redirectionOf word = some redirection) : redirection.Named := by
  unfold redirectionOf at asks
  split at asks
  · cases asks
    trivial
  · split at asks
    · cases asks
    · split at asks
      · rename_i isInput
        cases asks
        exact isInput.2
      · split at asks
        · rename_i isOutput
          cases asks
          exact isOutput.2
        · split at asks
          · rename_i isError
            cases asks
            exact isError.2.2
          · cases asks

theorem named_redirectionsOf (segment : List UInt8) :
    ∀ redirection ∈ redirectionsOf segment, redirection.Named := by
  intro redirection member
  obtain ⟨word, -, asks⟩ := List.mem_filterMap.mp member
  exact redirectionOf_named asks

theorem names_redirect (c : Execcmd) (redirection : Redirection) :
    (c.redirect redirection).names = c.names.redirect redirection := by
  cases redirection <;> rfl

/-- One word changes the names only when it is a redirection. -/
theorem names_parseToken (globals : Globals) (c : Execcmd) {word : List UInt8}
    (simple : less ∈ word ∨ greater ∈ word ∨ backChar ∈ word →
      ∃ redirection ∈ redirectionOf word, redirection.Plain) :
    (parseToken globals c word).names =
      (redirectionOf word).elim c.names c.names.redirect := by
  by_cases special : less ∈ word ∨ greater ∈ word
  · obtain ⟨redirection, asks, plain⟩ := simple (by tauto)
    have single : word.head? = some less → greater ∉ word := by
      rw [word_of_redirectionOf asks]
      cases redirection with
      | input file =>
          intro _
          simpa [Redirection.token, less, greater] using plain.2.1
      | output file => simp [Redirection.token, less, greater]
      | error file => simp [Redirection.token, less, two]
      | errorToOutput => exact fun first => absurd first (by decide)
    rw [parseToken_of_redirection asks single, names_redirect, asks]
    rfl
  · obtain ⟨noLess, noGreater⟩ := not_or.mp special
    rw [redirectionOf_none noLess noGreater,
      parseToken_of_none noLess noGreater]
    split
    · rfl
    · split <;> rfl

/-- The names that the parser keeps. -/
theorem names_parseExec (globals : Globals) {segment : List UInt8}
    (simple : SimpleCommand segment) :
    (parseExec globals segment).names = namesOf (redirectionsOf segment) := by
  have loop : ∀ (entries : List (List UInt8)) (c : Execcmd),
      (∀ word ∈ entries, less ∈ word ∨ greater ∈ word ∨ backChar ∈ word →
        ∃ redirection ∈ redirectionOf word, redirection.Plain) →
      (entries.foldl (parseToken globals) c).names =
        (entries.filterMap redirectionOf).foldl Execcmd.redirect c.names := by
    intro entries
    induction entries with
    | nil => intro c _; rfl
    | cons word entries induction =>
        intro c plain
        obtain ⟨first, others⟩ := List.forall_mem_cons.mp plain
        rw [List.foldl_cons, induction _ others,
          names_parseToken globals c first]
        cases asks : redirectionOf word with
        | none => rw [List.filterMap_cons_none asks, Option.elim_none]
        | some redirection =>
            rw [List.filterMap_cons_some asks, List.foldl_cons,
              Option.elim_some]
  rw [parseExec_eq, loop _ _ simple.redirections]
  rfl

theorem targets_parseExec (globals : Globals) {segment : List UInt8}
    (simple : SimpleCommand segment) (own : Targets) :
    (parseExec globals segment).targets own =
      (namesOf (redirectionsOf segment)).targets own := by
  rw [← names_parseExec globals simple]
  rfl

/-- A byte of a command that is not a space is in one of its words.  The
induction takes the words in front of it away. -/
theorem words_around (start back : List UInt8) {byte : UInt8}
    (visible : byte ≠ space) :
    ∃ before after, before <:+ start ∧
      before ++ byte :: after ∈ words (start ++ byte :: back) := by
  induction length : start.length using Nat.strongRecOn generalizing start with
  | ind count induction =>
      subst length
      by_cases inside : space ∈ start
      · obtain ⟨first, others, rfl, absent⟩ :=
          List.eq_append_cons_of_mem inside
        obtain ⟨before, after, suffix, member⟩ :=
          induction others.length (by simp; omega) others rfl
        refine ⟨before, after, ?_, ?_⟩
        · exact suffix.trans ((List.suffix_cons _ _).trans
            (List.suffix_append _ _))
        · rw [List.append_assoc, List.cons_append, words_append absent]
          split
          · exact member
          · exact List.mem_cons_of_mem _ member
      · have notMem : ∀ after, space ∉ after →
            space ∉ start ++ byte :: after := by
          intro after absent
          simp [inside, absent, visible.symm]
        by_cases more : space ∈ back
        · obtain ⟨after, rest, rfl, absent⟩ := List.eq_append_cons_of_mem more
          refine ⟨start, after, List.suffix_rfl, ?_⟩
          have regroup : start ++ byte :: (after ++ space :: rest) =
              (start ++ byte :: after) ++ space :: rest := by simp
          rw [regroup, words_append (notMem after absent), if_neg (by simp)]
          exact List.mem_cons_self
        · refine ⟨start, back, List.suffix_rfl, ?_⟩
          rw [words_of_not_mem (notMem back more) (by simp)]
          exact List.mem_singleton_self _

/-- A word with a `&` is `2>&1`. -/
theorem SimpleCommand.word_of_back {segment before after : List UInt8}
    (simple : SimpleCommand segment) (absent : backChar ∉ before)
    (member : before ++ backChar :: after ∈ words segment) :
    before = [two, greater] := by
  obtain ⟨redirection, asks, plain⟩ :=
    simple.redirections _ member (.inr (.inr (by simp)))
  have isWord := word_of_redirectionOf asks
  have inside : backChar ∈ redirection.token := by
    rw [← isWord]
    simp
  cases redirection with
  | input file =>
      have inFile : backChar ∈ file := by
        simpa [Redirection.token, backChar, less] using inside
      exact absurd inFile plain.2.2
  | output file =>
      have inFile : backChar ∈ file := by
        simpa [Redirection.token, backChar, greater] using inside
      exact absurd inFile plain.2.2
  | error file =>
      have inFile : backChar ∈ file := by
        simpa [Redirection.token, backChar, greater, two] using inside
      exact absurd inFile plain.2.2
  | errorToOutput =>
      have front := takeWhile_ne absent after
      rw [isWord] at front
      exact front.symm

/-- The first `&` of a simple command stands behind a `>`. -/
theorem segmentCmd_simple (globals : Globals) (previous : UInt8)
    {segment : List UInt8} (simple : SimpleCommand segment) :
    segmentCmd globals previous segment =
      .exec (parseExec globals segment) := by
  unfold segmentCmd
  rw [if_neg simple.nonempty]
  refine if_neg ?_
  rintro ⟨isBack, notBehind⟩
  obtain ⟨start, back, rfl, absent⟩ := List.eq_append_cons_of_mem isBack
  obtain ⟨before, after, suffix, member⟩ :=
    words_around start back (show backChar ≠ space by decide)
  have isStart := simple.word_of_back
    (fun inside => absent (suffix.subset inside)) member
  obtain ⟨front, rfl⟩ := suffix
  rw [takeWhile_ne absent, isStart] at notBehind
  exact notBehind (by simp)

/-! ## The executor -/

/-- A process that is alone; its own name is the empty one. -/
def execIn (process : Process) : Machine Processes ProcessEvent where
  Initial processes := processes = Processes.set (fun _ => none) [] process
  Step processes event after := event.step processes = some after

/-- The process is about to call `execvp`. -/
def Process.AtExecvp (process : Process) : Prop :=
  process.life = .running ∧
    ∃ c : Execcmd, process.point = .enter (.exec c) ∧ c.type = .exec

/-- The child of `run_cmd` with the descriptors that its shell has. -/
def Process.child (cmd : Cmd) (group : Pid) (fds : Fds) : Process :=
  { Process.initial cmd group with fds := fds }

/-- `execvp` is reached, and whenever it is, the redirections have happened from
left to right.  Nothing is stored behind the arrays of the words, where the names
of the files stand. -/
structure RedirectsInOrder (globals : Globals) (front : UInt8)
    (before segment after : List UInt8) (group : Pid) (fds : Fds)
    (own : Targets) : Prop where
  stays : ∀ store ∈ parseExecStores globals segment, store.Inside
  reached : ∃ processes process, (execIn (Process.child
      (parseCmd globals front (before ++ (segment ++ 0 :: after))
        before.length).2 group fds)).Reachable Machine.Unrestricted processes ∧
    processes [] = some process ∧ process.AtExecvp
  refers : ∀ processes process, (execIn (Process.child
      (parseCmd globals front (before ++ (segment ++ 0 :: after))
        before.length).2 group fds)).Reachable Machine.Unrestricted processes →
    processes [] = some process → process.AtExecvp →
    process.fds.RefersTo (own.after (redirectionsOf segment))

/-- Where a process is in `exec_cmd` and what its descriptors refer to there. -/
inductive Redirecting (c : Execcmd) (own : Targets) : Point → Targets → Prop where
  | enter : Redirecting c own (.enter (.exec c)) own
  | stdin (isRedir : c.type = .redir) :
      Redirecting c own (.redirectStdin c) own
  | stdout (isRedir : c.type = .redir) :
      Redirecting c own (.redirectStdout c)
        { own with stdin := (c.targets own).stdin }
  | stderr (isRedir : c.type = .redir) :
      Redirecting c own (.redirectStderr c)
        { c.targets own with stderr := own.stderr }
  | redirected (isRedir : c.type = .redir) :
      Redirecting c own (.enter (.exec { c with type := .exec }))
        (c.targets own)
  | program (started : Execcmd) :
      Redirecting c own (.program started) (c.targets own)

/-- A process that still runs is somewhere in there. -/
def Process.Redirects (process : Process) (c : Execcmd) (own : Targets) : Prop :=
  process.life = .running →
    ∃ targets, Redirecting c own process.point targets ∧
      process.fds.RefersTo targets

def AllRedirect (c : Execcmd) (own : Targets) (processes : Processes) : Prop :=
  ∀ pid process, processes pid = some process → process.Redirects c own

theorem Fds.RefersTo.unique {targets targets' : Targets}
    (refers : fds.RefersTo targets) (refers' : fds.RefersTo targets') :
    targets = targets' :=
  Targets.ext
    (Option.some.inj (refers.stdin.symm.trans refers'.stdin))
    (Option.some.inj (refers.stdout.symm.trans refers'.stdout))
    (Option.some.inj (refers.stderr.symm.trans refers'.stderr))

/-- The standard descriptors are open. -/
theorem Fds.RefersTo.isOpen {targets : Targets} (refers : fds.RefersTo targets)
    {fd : Nat} (standard : fd < 3) : fds.get fd ≠ none := by
  match fd, standard with
  | 0, _ => simp [refers.stdin]
  | 1, _ => simp [refers.stdout]
  | 2, _ => simp [refers.stderr]

/-- `redirect_fd` changes its target only: the file is opened above the standard
descriptors. -/
theorem get_redirect {process : Process} {targets : Targets}
    (refers : process.fds.RefersTo targets) (name : List UInt8) {target : Nat}
    {other : File} (isOther : process.fds.get target = some other)
    (standard : target < 3) {fd : Nat} (below : fd < 3) :
    (process.redirect name target).fds.get fd =
      Function.update process.fds.get target (some (openedOr name other)) fd := by
  unfold Process.redirect openedOr
  by_cases empty : name = []
  · rw [if_pos empty, if_pos empty, ← isOther, Function.update_eq_self]
  · rw [if_neg empty, if_neg empty]
    obtain ⟨notOpen, added⟩ := Fds.get_add (.opened name) process.fds
    have above : ∀ low < 3, low ≠ (process.fds.add (.opened name)).2 := by
      rintro low isLow rfl
      exact refers.isOpen isLow notOpen
    have isOpened : (process.fds.add (.opened name)).1.get
        (process.fds.add (.opened name)).2 = some (.opened name) := by
      rw [added, Function.update_self]
    dsimp only
    rw [Fds.get_close, Function.update_of_ne (above fd below),
      Fds.get_dup2 _ target isOpened, added]
    by_cases same : fd = target
    · subst same
      rw [Function.update_self, Function.update_self]
    · rw [Function.update_of_ne same, Function.update_of_ne (above fd below),
        Function.update_of_ne same]

section Calls

variable {process : Process} {targets : Targets}

theorem refersTo_redirectStdin (refers : process.fds.RefersTo targets)
    (name : List UInt8) :
    (process.redirect name 0).fds.RefersTo
      { targets with stdin := openedOr name targets.stdin } where
  stdin := get_redirect refers name refers.stdin (by decide) (by decide)
  stdout := (get_redirect refers name refers.stdin (by decide) (by decide)).trans
    refers.stdout
  stderr := (get_redirect refers name refers.stdin (by decide) (by decide)).trans
    refers.stderr

theorem refersTo_redirectStdout (refers : process.fds.RefersTo targets)
    (name : List UInt8) :
    (process.redirect name 1).fds.RefersTo
      { targets with stdout := openedOr name targets.stdout } where
  stdin := (get_redirect refers name refers.stdout (by decide) (by decide)).trans
    refers.stdin
  stdout := get_redirect refers name refers.stdout (by decide) (by decide)
  stderr := (get_redirect refers name refers.stdout (by decide) (by decide)).trans
    refers.stderr

theorem refersTo_redirectStderr (refers : process.fds.RefersTo targets)
    (name : List UInt8) :
    (process.redirect name 2).fds.RefersTo
      { targets with stderr := openedOr name targets.stderr } where
  stdin := (get_redirect refers name refers.stderr (by decide) (by decide)).trans
    refers.stdin
  stdout := (get_redirect refers name refers.stderr (by decide) (by decide)).trans
    refers.stdout
  stderr := get_redirect refers name refers.stderr (by decide) (by decide)

/-- `dup2` from the output to the error. -/
theorem refersTo_dup2 (refers : fds.RefersTo targets) :
    (fds.dup2 1 2).RefersTo { targets with stderr := targets.stdout } := by
  have table := Fds.get_dup2 fds 2 refers.stdout
  constructor
  · rw [table]
    exact refers.stdin
  · rw [table]
    exact refers.stdout
  · rw [table]
    rfl

theorem targets_exec (isExec : c.type = .exec) (own : Targets) :
    c.targets own = own := by
  unfold Execcmd.targets
  rw [isExec]

/-- The third call of a command with redirections. -/
theorem refersTo_redirectLast (isRedir : c.type = .redir)
    (refers : process.fds.RefersTo { c.targets own with stderr := own.stderr }) :
    (if c.errFile = c.outFile then process.fds.dup2 1 2
      else (process.redirect c.errFile 2).fds).RefersTo (c.targets own) := by
  have stderr : (c.targets own).stderr =
      if c.errFile = c.outFile then (c.targets own).stdout
        else openedOr c.errFile own.stderr := by
    unfold Execcmd.targets
    rw [isRedir]
  by_cases same : c.errFile = c.outFile
  · rw [if_pos same] at stderr ⊢
    have whole : ({ c.targets own with stderr := (c.targets own).stdout } :
        Targets) = c.targets own := Targets.ext rfl rfl stderr.symm
    have moved := refersTo_dup2 refers
    exact (congrArg (Fds.RefersTo _) whole).mp moved
  · rw [if_neg same] at stderr ⊢
    have moved := refersTo_redirectStderr refers c.errFile
    dsimp only at moved
    rwa [← stderr] at moved

/-- Every call on the way keeps the descriptors where they should be, and none
of them forks. -/
theorem Process.Redirects.advance {pid : Pid} {next : Process}
    {forked : Option Process} (redirects : process.Redirects c own)
    (running : process.life = .running)
    (advances : process.advance pid = some (next, forked)) :
    forked = none ∧ next.Redirects c own := by
  obtain ⟨targets, redirecting, refers⟩ := redirects running
  unfold Process.advance at advances
  generalize isPoint : process.point = point at redirecting advances
  cases redirecting with
  | enter =>
      cases isType : c.type with
      | exec =>
          dsimp only at advances
          rw [isType] at advances
          cases advances
          refine ⟨rfl, fun _ => ⟨own, ?_, refers⟩⟩
          have program : Redirecting c own (.program c) (c.targets own) :=
            .program c
          rwa [targets_exec isType] at program
      | redir =>
          dsimp only at advances
          rw [isType] at advances
          cases advances
          exact ⟨rfl, fun _ => ⟨own, .stdin isType, refers⟩⟩
  | stdin isRedir =>
      cases advances
      refine ⟨rfl, fun _ => ⟨_, .stdout isRedir, ?_⟩⟩
      have moved := refersTo_redirectStdin refers c.inFile
      unfold Execcmd.targets
      rwa [isRedir]
  | stdout isRedir =>
      cases advances
      refine ⟨rfl, fun _ => ⟨_, .stderr isRedir, ?_⟩⟩
      have moved := refersTo_redirectStdout refers c.outFile
      unfold Execcmd.targets at moved ⊢
      rw [isRedir] at moved ⊢
      exact moved
  | stderr isRedir =>
      cases advances
      refine ⟨rfl, fun _ => ⟨_, .redirected isRedir, ?_⟩⟩
      have last := refersTo_redirectLast isRedir refers
      by_cases same : c.errFile = c.outFile
      · rw [if_pos same] at last ⊢
        exact last
      · rw [if_neg same] at last ⊢
        exact last
  | redirected isRedir =>
      cases advances
      exact ⟨rfl, fun _ => ⟨_, .program _, refers⟩⟩
  | program started => cases advances

theorem AllRedirect.set {processes : Processes} {pid : Pid}
    (all : AllRedirect c own processes) (redirects : process.Redirects c own) :
    AllRedirect c own (processes.set pid process) := by
  intro other found isFound
  rcases set_cases isFound with ⟨rfl, rfl⟩ | isFound
  · exact redirects
  · exact all other found isFound

/-- Every step keeps all processes where they should be. -/
theorem allRedirect_step {processes after : Processes} {event : ProcessEvent}
    (all : AllRedirect c own processes)
    (step : ProcessStep processes event after) : AllRedirect c own after := by
  have noWait : ∀ {pid process next}, processes pid = some process →
      process.Busy → process.waited = some next → False := by
    intro pid process next found busy returns
    obtain ⟨targets, redirecting, -⟩ := all _ _ found busy.1
    rcases waited_cases returns with ⟨atWait, -⟩ | ⟨atWait, -⟩
    · rw [atWait] at redirecting
      cases redirecting
    · rw [atWait] at redirecting
      cases redirecting
  cases step with
  | advance found busy advances =>
      exact all.set ((all _ _ found).advance busy.1 advances).2
  | fork found busy advances =>
      cases ((all _ _ found).advance busy.1 advances).1
  | fails found busy mayFail => exact all.set fun running => nomatch running
  | ends found busy isProgram => exact all.set fun running => nomatch running
  | waits found busy returns zombie => exact (noWait found busy returns).elim
  | waitsForNone found busy returns childless =>
      exact (noWait found busy returns).elim
  | signal found busy handles =>
      have redirecting := all _ _ found
      exact all.set redirecting
  | handler found handling zombie => exact all.set fun running => nomatch running
  | handled found handling noZombie =>
      have redirecting := all _ _ found
      exact all.set redirecting

/-- A run from one process keeps it where it should be. -/
theorem redirects_of_reachable {start : Process}
    (redirects : start.Redirects c own) {processes : Processes}
    (reachable : (execIn start).Reachable Machine.Unrestricted processes) :
    AllRedirect c own processes := by
  refine reachable.invariant ?_ ?_
  · rintro _ rfl
    exact AllRedirect.set (fun _ _ nothing => nomatch nothing) redirects
  · intro state event next all _ step
    exact allRedirect_step all (ProcessEvent.processStep step)

/-- Some run leads to this process. -/
def Arrives (start process : Process) : Prop :=
  ∃ processes, (execIn start).Reachable Machine.Unrestricted processes ∧
    processes [] = some process

theorem Arrives.advance {start process next : Process}
    (arrives : Arrives start process) (busy : process.Busy)
    (advances : process.advance [] = some (next, none)) :
    Arrives start next := by
  obtain ⟨processes, reachable, found⟩ := arrives
  have steps : (ProcessEvent.advance []).step processes =
      some (processes.set [] next) := by
    rw [ProcessEvent.step_of_busy found busy rfl]
    dsimp only [ProcessEvent.apply]
    rw [advances]
  exact ⟨_, reachable.step trivial steps, set_self⟩

theorem busy_redirect (busy : process.Busy) (name : List UInt8) (target : Nat)
    (point : Point) : ((process.redirect name target).goto point).Busy := by
  unfold Process.redirect
  split
  · exact busy
  · exact busy

/-- `execvp` is reached after at most four calls. -/
theorem arrives_atExecvp (busy : process.Busy)
    (enters : process.point = .enter (.exec c)) :
    ∃ last, Arrives process last ∧ last.AtExecvp := by
  have here : Arrives process process :=
    ⟨_, .initial rfl, set_self⟩
  cases isType : c.type with
  | exec => exact ⟨process, here, busy.1, c, enters, isType⟩
  | redir =>
      have isFirst : process.advance [] =
          some (process.goto (.redirectStdin c), none) := by
        unfold Process.advance
        rw [enters]
        dsimp only
        rw [isType]
      have first := here.advance busy isFirst
      have busyFirst : (process.goto (.redirectStdin c)).Busy := busy
      have second := first.advance busyFirst rfl
      have busySecond := busy_redirect busyFirst c.inFile 0 (.redirectStdout c)
      have third := second.advance busySecond rfl
      have busyThird := busy_redirect busySecond c.outFile 1 (.redirectStderr c)
      have last := third.advance busyThird rfl
      refine ⟨_, last, ?_, { c with type := .exec }, rfl, rfl⟩
      split
      · exact busyThird.1
      · exact (busy_redirect busyThird c.errFile 2 (.redirectStderr c)).1

/-- What the descriptors are when `execvp` is reached. -/
theorem Process.Redirects.atExecvp (redirects : process.Redirects c own)
    (atExecvp : process.AtExecvp) : process.fds.RefersTo (c.targets own) := by
  obtain ⟨running, called, isPoint, isExec⟩ := atExecvp
  obtain ⟨targets, redirecting, refers⟩ := redirects running
  rw [isPoint] at redirecting
  cases redirecting with
  | enter => rwa [targets_exec isExec]
  | redirected isRedir => exact refers

end Calls

/-! ## The command -/

section Command

variable {globals : Globals} {front : UInt8} {before segment after : List UInt8}
variable {group : Pid}

theorem parseCmd_simple (globals : Globals) (front : UInt8)
    (before after : List UInt8) (simple : SimpleCommand segment) :
    (parseCmd globals front (before ++ (segment ++ 0 :: after))
      before.length).2 = .exec (parseExec globals segment) := by
  rw [parseCmd_tree globals front before after simple.nulFree]
  exact segmentCmd_simple globals _ simple

/-- Whenever `execvp` is reached, the names have been followed. -/
theorem refersTo_targets (simple : SimpleCommand segment)
    (refers : fds.RefersTo own) {processes : Processes} {process : Process}
    (reachable : (execIn (Process.child (parseCmd globals front
        (before ++ (segment ++ 0 :: after)) before.length).2 group
        fds)).Reachable Machine.Unrestricted processes)
    (found : processes [] = some process) (atExecvp : process.AtExecvp) :
    process.fds.RefersTo ((namesOf (redirectionsOf segment)).targets own) := by
  rw [parseCmd_simple globals front before after simple] at reachable
  rw [← targets_parseExec globals simple]
  have start : (Process.child (.exec (parseExec globals segment)) group
      fds).Redirects (parseExec globals segment) own :=
    fun _ => ⟨own, .enter, refers⟩
  exact (redirects_of_reachable start reachable _ _ found).atExecvp atExecvp

theorem RedirectsInOrder.targets_eq (simple : SimpleCommand segment)
    (refers : fds.RefersTo own)
    (inOrder : RedirectsInOrder globals front before segment after group fds
      own) :
    (namesOf (redirectionsOf segment)).targets own =
      own.after (redirectionsOf segment) := by
  obtain ⟨processes, process, reachable, found, atExecvp⟩ := inOrder.reached
  have followed := refersTo_targets simple refers reachable found atExecvp
  exact followed.unique (inOrder.refers _ _ reachable found atExecvp)

end Command

end FeaturesOS.Shell

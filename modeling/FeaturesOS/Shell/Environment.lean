import FeaturesOS.Shell.Buffers
import Mathlib.Logic.Function.Basic

/-!
# Temporary variables

What the assignments of a command do to the environment of the program that it
starts.  The parser classifies the words, and `set_environ_vars` cuts them apart
again.
-/

namespace FeaturesOS.Shell

open CString

variable {globals : Globals} {word key value segment : List UInt8}

/-- The variables with their values. -/
abbrev Environ := List UInt8 → Option (List UInt8)

/-- `setenv` with `OVERWRITE_ENV`, which refuses some names. -/
def setenv (environ : Environ) (key value : List UInt8) : Environ :=
  if key = [] ∨ equals ∈ key then environ
  else Function.update environ key (some value)

/-- `get_environ_key`. -/
def getEnvironKey (arg : List UInt8) : List UInt8 :=
  arg.takeWhile (· != equals)

/-- `get_environ_value`. -/
def getEnvironValue (arg : List UInt8) (idx : Nat) : List UInt8 :=
  arg.drop (idx + 1)

/-- One round of the loop of `set_environ_vars`. -/
def setEnvironVar (environ : Environ) (arg : List UInt8) : Environ :=
  let idx := blockContains arg equals
  if idx = -1 then environ
  else setenv environ (getEnvironKey arg) (getEnvironValue arg idx.toNat)

/-- `set_environ_vars`. -/
def setEnvironVars (environ : Environ) (eargv : List (List UInt8)) : Environ :=
  eargv.foldl setEnvironVar environ

/-! ## What the words mean -/

/-- The word is `K=V`, and nothing in it is taken for a redirection. -/
structure IsPair (word key value : List UInt8) : Prop where
  isWord : word = key ++ equals :: value
  nonempty : key ≠ []
  single : equals ∉ key
  noLess : less ∉ word
  noGreater : greater ∉ word

/-- The value that a word `K=V` gives to the variable `key`, unless `K` has a
`-`. -/
def assigns (key word : List UInt8) : Option (List UInt8) :=
  if less ∉ word ∧ greater ∉ word ∧ IsAssignment word ∧ keyOf word = key then
    some (word.drop (key.length + 1))
  else none

/-- The words `K=V` without a `-` in `K` are the assignments of the command, and
for every variable the last one counts.  Nothing is stored behind the arrays that
hold them. -/
structure AssignsTemporarily (globals : Globals) (environ : Environ)
    (segment : List UInt8) : Prop where
  stays : ∀ store ∈ parseExecStores globals segment, store.Inside
  classified : ∀ word ∈ words segment, ∀ key value, IsPair word key value →
    (word ∈ (parseExec globals segment).eargv ↔ dash ∉ key)
  environment : ∀ key,
    setEnvironVars environ (parseExec globals segment).eargv key =
      ((words segment).reverse.findSome? (assigns key)).or (environ key)

/-- No value of an assignment has a `-`. -/
def PlainValues (segment : List UInt8) : Prop :=
  ∀ word ∈ words segment, ∀ key value, IsPair word key value →
    dash ∉ key → dash ∉ value

/-! ## One assignment -/

theorem IsPair.keyOf_eq (pair : IsPair word key value) : keyOf word = key := by
  rw [pair.isWord]
  exact keyOf_append key value pair.single

/-- Every assignment is a pair. -/
theorem isPair_of_isAssignment (noLess : less ∉ word) (noGreater : greater ∉ word)
    (isAssignment : IsAssignment word) :
    IsPair word (keyOf word) (word.drop ((keyOf word).length + 1)) := by
  obtain ⟨hasEquals, nonempty, -⟩ := isAssignment
  obtain ⟨key, value, rfl, absent⟩ := List.eq_append_cons_of_mem hasEquals
  rw [keyOf_append key value absent] at nonempty ⊢
  have behind : (key ++ equals :: value).drop (key.length + 1) = value := by
    have regroup : key ++ equals :: value = (key ++ [equals]) ++ value := by simp
    rw [regroup, List.drop_left' (by simp)]
  rw [behind]
  exact ⟨rfl, nonempty, absent, noLess, noGreater⟩

/-- The executor cuts a pair where the parser has seen its key end. -/
theorem setEnvironVar_eq (environ : Environ) (pair : IsPair word key value) :
    setEnvironVar environ word = Function.update environ key (some value) := by
  have absent := pair.single
  have index : blockContains word equals = key.length := by
    rw [pair.isWord]
    exact blockContains_append absent value
  have isValue : getEnvironValue word key.length = value := by
    have regroup : word = (key ++ [equals]) ++ value := by
      rw [pair.isWord]
      simp
    unfold getEnvironValue
    rw [regroup, List.drop_left' (by simp)]
  have isKey : getEnvironKey word = key := pair.keyOf_eq
  unfold setEnvironVar
  dsimp only
  rw [index, if_neg (by omega), isKey, Int.toNat_natCast, isValue]
  unfold setenv
  exact if_neg (not_or.mpr ⟨pair.nonempty, absent⟩)

theorem TakenAsAssignment.isAssignment (taken : TakenAsAssignment word) :
    IsAssignment word := by
  obtain ⟨-, -, hasEquals, hasKey, noDash⟩ := taken
  refine ⟨hasEquals, hasKey, fun inside => noDash ?_⟩
  exact (List.takeWhile_prefix _).subset inside

theorem IsPair.dash_mem (pair : IsPair word key value) :
    dash ∈ word ↔ dash ∈ key ∨ dash ∈ value := by
  have different : dash ≠ equals := by decide
  rw [pair.isWord]
  simp [different]

/-- The parser takes the pair when there is no `-` on either side. -/
theorem IsPair.taken (pair : IsPair word key value) (noDash : dash ∉ key)
    (plain : dash ∉ value) : TakenAsAssignment word := by
  have hasEquals : equals ∈ word := by
    rw [pair.isWord]
    simp
  have hasKey : keyOf word ≠ [] := by
    rw [pair.keyOf_eq]
    exact pair.nonempty
  refine ⟨pair.noLess, pair.noGreater, hasEquals, hasKey, fun inside => ?_⟩
  exact (pair.dash_mem.mp inside).elim noDash plain

/-! ## All assignments -/

theorem parseExec_eargv (globals : Globals) (segment : List UInt8) :
    (parseExec globals segment).eargv = assignments segment :=
  (parseExec_collects (parseToken_eargv globals) segment).trans (List.map_id _)

theorem assigns_of_pair (pair : IsPair word key value) (plain : dash ∉ key)
    (other : List UInt8) :
    assigns other word = if key = other then some value else none := by
  have isKey := pair.keyOf_eq
  have isAssignment : IsAssignment word := by
    refine ⟨?_, ?_, ?_⟩
    · rw [pair.isWord]
      simp
    · rw [isKey]
      exact pair.nonempty
    · rwa [isKey]
  unfold assigns
  by_cases same : key = other
  · have behind : word.drop (other.length + 1) = value := by
      have regroup : word = (key ++ [equals]) ++ value := by
        rw [pair.isWord]
        simp
      rw [regroup, List.drop_left' (by simp [same])]
    rw [if_pos ⟨pair.noLess, pair.noGreater, isAssignment, isKey.trans same⟩,
      if_pos same, behind]
  · rw [if_neg same, if_neg]
    rintro ⟨-, -, -, isOther⟩
    exact same (isKey.symm.trans isOther)

/-- The rounds of `set_environ_vars`: the last assignment counts.  The induction
is on the words. -/
theorem setEnvironVars_eq (environ : Environ) {entries : List (List UInt8)}
    (plain : ∀ word ∈ entries, ∀ key value, IsPair word key value →
      dash ∉ key → dash ∉ value) (key : List UInt8) :
    setEnvironVars environ (entries.filter TakenAsAssignment) key =
      (entries.reverse.findSome? (assigns key)).or (environ key) := by
  induction entries generalizing environ with
  | nil => rfl
  | cons word entries induction =>
      obtain ⟨first, others⟩ := List.forall_mem_cons.mp plain
      rw [List.reverse_cons, List.findSome?_append, List.filter_cons,
        Option.or_assoc, List.findSome?_singleton]
      by_cases taken : TakenAsAssignment word
      · have isAssignment := taken.isAssignment
        have pair := isPair_of_isAssignment taken.1 taken.2.1 isAssignment
        have sets := assigns_of_pair pair isAssignment.2.2 key
        rw [if_pos (by simpa using taken)]
        calc
          setEnvironVars environ (word :: entries.filter TakenAsAssignment) key =
              setEnvironVars (setEnvironVar environ word)
                (entries.filter TakenAsAssignment) key := rfl
          _ = (entries.reverse.findSome? (assigns key)).or
                (setEnvironVar environ word key) := induction _ others
          _ = (entries.reverse.findSome? (assigns key)).or
                ((assigns key word).or (environ key)) := by
            rw [setEnvironVar_eq environ pair, sets, Function.update_apply]
            by_cases same : keyOf word = key
            · rw [if_pos same.symm, if_pos same, Option.some_or]
            · rw [if_neg (Ne.symm same), if_neg same, Option.none_or]
      · have nothing : assigns key word = none := by
          refine if_neg ?_
          rintro ⟨noLess, noGreater, isAssignment, -⟩
          have pair := isPair_of_isAssignment noLess noGreater isAssignment
          refine taken (pair.taken isAssignment.2.2 ?_)
          exact first _ _ pair isAssignment.2.2
        rw [if_neg (by simpa using taken), nothing, Option.none_or]
        exact induction environ others

/-- An assignment with a `-` in its value is not taken. -/
theorem AssignsTemporarily.plainValues {environ : Environ}
    (temporary : AssignsTemporarily globals environ segment) :
    PlainValues segment := by
  intro word member key value pair noDash inside
  have taken := (temporary.classified word member key value pair).mpr noDash
  rw [parseExec_eargv] at taken
  have isTaken : TakenAsAssignment word :=
    of_decide_eq_true (List.mem_filter.mp taken).2
  exact isTaken.2.2.2.2 (pair.dash_mem.mpr (Or.inr inside))

/-- The variables are set as the words say exactly when no value has a `-` and
the words fit in the arrays. -/
theorem assignsTemporarily_iff (globals : Globals) (environ : Environ)
    (segment : List UInt8) :
    AssignsTemporarily globals environ segment ↔
      PlainValues segment ∧ CommandFits globals segment := by
  constructor
  · intro temporary
    exact ⟨temporary.plainValues,
      (inside_parseExec globals segment).mp temporary.stays⟩
  · rintro ⟨plain, fits⟩
    constructor
    · exact (inside_parseExec globals segment).mpr fits
    · intro word member key value pair
      rw [parseExec_eargv]
      constructor
      · intro assigned inside
        have taken : TakenAsAssignment word :=
          of_decide_eq_true (List.mem_filter.mp assigned).2
        exact taken.2.2.2.2 (pair.dash_mem.mpr (Or.inl inside))
      · intro noDash
        have taken := pair.taken noDash (plain word member key value pair noDash)
        exact List.mem_filter.mpr ⟨member, decide_eq_true taken⟩
    · intro key
      rw [parseExec_eargv]
      exact setEnvironVars_eq environ plain key

/-- The command `A=1 A=2 env`. -/
theorem assignsTemporarily_twice :
    AssignsTemporarily noVariables (fun _ => none)
      [65, 61, 49, 32, 65, 61, 50, 32, 101, 110, 118] := by
  refine (assignsTemporarily_iff _ _ _).mpr ⟨?_, by decide +kernel⟩
  intro word member key value pair _ inside
  have noDash : ∀ word ∈ words [65, 61, 49, 32, 65, 61, 50, 32, 101, 110, 118],
      dash ∉ word := by decide
  exact noDash word member (pair.dash_mem.mpr (Or.inr inside))

/-- The word `A=b-c` becomes an argument. -/
theorem not_assignsTemporarily_dash :
    ¬ ∀ (globals : Globals) (environ : Environ) (segment : List UInt8),
      AssignsTemporarily globals environ segment := by
  intro all
  have pair : IsPair [65, 61, 98, 45, 99] [65] [98, 45, 99] :=
    ⟨by decide, by decide, by decide, by decide, by decide⟩
  have temporary := all noVariables (fun _ => none)
    [65, 61, 98, 45, 99, 32, 101, 110, 118]
  have plain := temporary.plainValues _ (by decide) _ _ pair (by decide)
  exact plain (by decide)

end FeaturesOS.Shell

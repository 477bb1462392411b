import Mathlib.Logic.Relation
import FeaturesOS.Machine

/-!
# Programs among the steps of others

A `Routine` performs actions one at a time and goes on with what each of them
returns.  Between two of its actions others may change the state.  `Ensures` is
the logic of such a program: an assertion in front of an action has to be stable
under what the others are permitted to do there.
-/

namespace FeaturesOS

inductive Routine (Action : Type) (Value : Action → Type) (Result : Type) where
  | done (result : Result)
  | perform (action : Action)
      (next : Value action → Routine Action Value Result)

namespace Routine

variable {Action : Type} {Value : Action → Type} {Result Next : Type}

/-- The action that the program performs next. -/
def pending : Routine Action Value Result → Option Action
  | .done _ => none
  | .perform action _ => some action

def bind (program : Routine Action Value Result)
    (rest : Result → Routine Action Value Next) : Routine Action Value Next :=
  match program with
  | .done result => rest result
  | .perform action next => .perform action fun value => (next value).bind rest

instance : Monad (Routine Action Value) where
  pure := .done
  bind := bind

/-- Perform one action and return its value. -/
def request (action : Action) : Routine Action Value (Value action) :=
  .perform action .done

theorem request_bind (action : Action)
    (rest : Value action → Routine Action Value Next) :
    request action >>= rest = .perform action rest :=
  rfl

end Routine

/-- What the actions of a program do to a state, and what the others do. -/
structure Interleaving (State Action : Type) (Value : Action → Type)
    (Event : Type) where
  Performs (action : Action) : State → Value action → State → Prop
  Interferes : State → Event → State → Prop

namespace Interleaving

variable {State Action Event Result Next : Type} {Value : Action → Type}

/-- An action of the program, or a step of the others. -/
inductive Step (system : Interleaving State Action Value Event) :
    Routine Action Value Result × State → Option Event →
      Routine Action Value Result × State → Prop where
  | performs {action : Action} {value : Value action} {state after : State}
      {next : Value action → Routine Action Value Result} :
      system.Performs action state value after →
      Step system (.perform action next, state) none (next value, after)
  | interferes {program : Routine Action Value Result} {event : Event}
      {state after : State} :
      system.Interferes state event after →
      Step system (program, state) (some event) (program, after)

/-- The program and the others, from the given states on. -/
def machine (system : Interleaving State Action Value Event)
    (initial : Routine Action Value Result × State → Prop) :
    Machine (Routine Action Value Result × State) (Option Event) :=
  ⟨initial, system.Step⟩

/-- A side condition on the steps knows the action that comes next. -/
def Permitted (permits : Option Action → State → Option Event → Prop)
    (state : Routine Action Value Result × State) (event : Option Event) :
    Prop :=
  permits state.1.pending state.2 event

section Logic

variable (system : Interleaving State Action Value Event)
variable (permits : Option Action → State → Option Event → Prop)

/-- One permitted step of the others. -/
def Disturbs (pending : Option Action) (state next : State) : Prop :=
  ∃ event, permits pending state (some event) ∧
    system.Interferes state event next

/-- The others keep the assertion. -/
def Stable (pending : Option Action) (assertion : State → Prop) : Prop :=
  ∀ state next, assertion state → system.Disturbs permits pending state next →
    assertion next

/-- Whatever the others do in between, the program ends as `post` says. -/
def Ensures (post : Result → State → Prop) :
    Routine Action Value Result → State → Prop
  | .done result => post result
  | .perform action next => fun state => ∀ later value after,
      Relation.ReflTransGen (system.Disturbs permits (some action)) state
        later →
      permits (some action) later none →
      system.Performs action later value after →
      Ensures post (next value) after

variable {system permits} {post : Result → State → Prop} {state : State}
variable {pending : Option Action} {assertion : State → Prop}

theorem Stable.later (stable : system.Stable permits pending assertion)
    (now : assertion state) {later : State}
    (disturbed : Relation.ReflTransGen (system.Disturbs permits pending) state
      later) : assertion later := by
  induction disturbed with
  | refl => exact now
  | tail _ disturbs induction => exact stable _ _ induction disturbs

/-- The rule for an action: the assertion in front of it is stable. -/
theorem Ensures.perform {action : Action}
    {next : Value action → Routine Action Value Result}
    (stable : system.Stable permits (some action) assertion)
    (now : assertion state)
    (goes : ∀ later value after, assertion later →
      permits (some action) later none →
      system.Performs action later value after →
      system.Ensures permits post (next value) after) :
    system.Ensures permits post (.perform action next) state := by
  intro later value after disturbed permitted performs
  exact goes later value after (stable.later now disturbed) permitted performs

theorem Ensures.bind {program : Routine Action Value Result}
    {rest : Result → Routine Action Value Next}
    {post : Next → State → Prop}
    (ensures : system.Ensures permits
      (fun result => system.Ensures permits post (rest result)) program state) :
    system.Ensures permits post (program >>= rest) state := by
  induction program generalizing state with
  | done result => exact ensures
  | perform action next induction =>
      intro later value after disturbed permitted performs
      exact induction value (ensures later value after disturbed permitted
        performs)

theorem Ensures.weaken {stronger : Result → State → Prop}
    {program : Routine Action Value Result}
    (ensures : system.Ensures permits stronger program state)
    (weakens : ∀ result state, stronger result state → post result state) :
    system.Ensures permits post program state := by
  induction program generalizing state with
  | done result => exact weakens _ _ ensures
  | perform action next induction =>
      intro later value after disturbed permitted performs
      exact induction value (ensures later value after disturbed permitted
        performs)

/-- What a program ensures holds of all its runs, also after its end if the
others keep it. -/
theorem Ensures.run {initial : Routine Action Value Result × State → Prop}
    {first last : Routine Action Value Result × State}
    {events : List (Option Event)}
    (ensures : system.Ensures permits post first.1 first.2)
    (stable : ∀ result, system.Stable permits none (post result))
    (run : (system.machine initial).Run (Permitted permits) first events last) :
    system.Ensures permits post last.1 last.2 := by
  refine @Machine.Run.preserves _ _ _ _
    (fun state => system.Ensures permits post state.1 state.2) ?_ _ _ _ run
    ensures
  intro state event next holds permitted step
  cases step with
  | performs performs => exact holds _ _ _ .refl permitted performs
  | @interferes program event state after interferes =>
      cases program with
      | done result =>
          exact stable result _ _ holds ⟨event, permitted, interferes⟩
      | perform action rest =>
          intro later value final disturbed
          exact holds later value final
            (.head ⟨event, permitted, interferes⟩ disturbed)

end Logic

/-! ## Single runs -/

section Executes

variable (system : Interleaving State Action Value Event)
variable (permits : Option Action → State → Option Event → Prop)

/-- A permitted run of a program to its end. -/
inductive Executes :
    Routine Action Value Result → State → Result → State → Prop where
  | done (result : Result) (state : State) :
      Executes (.done result) state result state
  | perform {action : Action} {value : Value action} {state after last : State}
      {next : Value action → Routine Action Value Result} {result : Result} :
      permits (some action) state none →
      system.Performs action state value after →
      Executes (next value) after result last →
      Executes (.perform action next) state result last
  | disturb {action : Action} {event : Event} {state after last : State}
      {next : Value action → Routine Action Value Result} {result : Result} :
      permits (some action) state (some event) →
      system.Interferes state event after →
      Executes (.perform action next) after result last →
      Executes (.perform action next) state result last

variable {system permits} {state middle last : State}

theorem Executes.bind {program : Routine Action Value Result}
    {rest : Result → Routine Action Value Next} {result : Result}
    {final : Next}
    (executes : system.Executes permits program state result middle)
    (continues : system.Executes permits (rest result) middle final last) :
    system.Executes permits (program >>= rest) state final last := by
  induction executes with
  | done => exact continues
  | perform permitted performs _ induction =>
      exact .perform permitted performs (induction continues)
  | disturb permitted interferes _ induction =>
      exact .disturb permitted interferes (induction continues)

/-- What a program ensures holds where a run of it ends. -/
theorem Executes.ensures {post : Result → State → Prop}
    {program : Routine Action Value Result} {result : Result}
    (executes : system.Executes permits program state result last)
    (ensures : system.Ensures permits post program state) :
    post result last := by
  induction executes with
  | done => exact ensures
  | perform permitted performs _ induction =>
      exact induction (ensures _ _ _ .refl permitted performs)
  | @disturb action event state after last next result permitted interferes _
      induction =>
      refine induction fun later value final disturbed => ?_
      exact ensures later value final
        (.head ⟨event, permitted, interferes⟩ disturbed)

theorem Executes.run {initial : Routine Action Value Result × State → Prop}
    {program : Routine Action Value Result} {result : Result}
    (executes : system.Executes permits program state result last) :
    ∃ events, (system.machine initial).Run (Permitted permits)
      (program, state) events (.done result, last) := by
  induction executes with
  | done => exact ⟨[], .nil _⟩
  | @perform action value state after last next result permitted performs _
      induction =>
      obtain ⟨events, run⟩ := induction
      have first : (system.machine initial).Run (Permitted permits)
          (.perform action next, state) [none] (next value, after) :=
        (Machine.Run.nil _).snoc permitted (.performs performs)
      exact ⟨_, first.append run⟩
  | @disturb action event state after last next result permitted interferes _
      induction =>
      obtain ⟨events, run⟩ := induction
      have first : (system.machine initial).Run (Permitted permits)
          (.perform action next, state) [some event]
          (.perform action next, after) :=
        (Machine.Run.nil _).snoc permitted (.interferes interferes)
      exact ⟨_, first.append run⟩

end Executes

end Interleaving

end FeaturesOS

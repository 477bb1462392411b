import Mathlib.Init

/-!
# Labelled machines and their runs

A `Machine` is a set of initial states and a labelled step relation.  A run
records its events in the order in which they happened.  The `allowed`
predicate of a run restricts the steps that it may take: a safety theorem about
all runs uses `Unrestricted`, and a theorem that needs a side condition on every
step names that condition there.
-/

namespace FeaturesOS

universe u v

structure Machine (State : Type u) (Event : Type v) where
  Initial : State → Prop
  Step : State → Event → State → Prop

namespace Machine

variable {State : Type u} {Event : Type v}

/-- The side condition that every step satisfies. -/
def Unrestricted : State → Event → Prop := fun _ _ => True

/-- A finite run.  The last event stands at the end of the list, so that an
induction on a run peels off its last step. -/
inductive Run (machine : Machine State Event)
    (allowed : State → Event → Prop) : State → List Event → State → Prop where
  | nil (state : State) : Run machine allowed state [] state
  | snoc {first middle last : State} {events : List Event} {event : Event} :
      Run machine allowed first events middle →
      allowed middle event →
      machine.Step middle event last →
      Run machine allowed first (events ++ [event]) last

/-- Some allowed run leads from an initial state to `state`. -/
def Reachable (machine : Machine State Event)
    (allowed : State → Event → Prop) (state : State) : Prop :=
  ∃ first events, machine.Initial first ∧
    machine.Run allowed first events state

variable {machine : Machine State Event}
variable {allowed : State → Event → Prop}

/-- A property that every allowed step preserves holds at the end of a run. -/
theorem Run.preserves {invariant : State → Prop}
    (preserved : ∀ state event next, invariant state → allowed state event →
      machine.Step state event next → invariant next)
    {first last : State} {events : List Event}
    (run : machine.Run allowed first events last)
    (initially : invariant first) : invariant last := by
  induction run with
  | nil => exact initially
  | snoc _ permitted step induction =>
      exact preserved _ _ _ induction permitted step

/-- The invariant rule: what holds initially and is preserved by every allowed
step holds in every reachable state. -/
theorem Reachable.invariant {invariant : State → Prop}
    (initially : ∀ state, machine.Initial state → invariant state)
    (preserved : ∀ state event next, invariant state → allowed state event →
      machine.Step state event next → invariant next)
    {state : State} (reachable : machine.Reachable allowed state) :
    invariant state := by
  obtain ⟨first, events, initial, run⟩ := reachable
  exact run.preserves preserved (initially first initial)

theorem Reachable.initial {state : State}
    (initial : machine.Initial state) : machine.Reachable allowed state :=
  ⟨state, [], initial, .nil state⟩

theorem Reachable.step {state next : State} {event : Event}
    (reachable : machine.Reachable allowed state)
    (permitted : allowed state event)
    (step : machine.Step state event next) :
    machine.Reachable allowed next := by
  obtain ⟨first, events, initial, run⟩ := reachable
  exact ⟨first, events ++ [event], initial, run.snoc permitted step⟩

/-- Weakening the side condition keeps a run. -/
theorem Run.weaken {weaker : State → Event → Prop}
    (weakens : ∀ state event, allowed state event → weaker state event)
    {first last : State} {events : List Event}
    (run : machine.Run allowed first events last) :
    machine.Run weaker first events last := by
  induction run with
  | nil => exact .nil _
  | snoc _ permitted step induction =>
      exact induction.snoc (weakens _ _ permitted) step

theorem Reachable.weaken {weaker : State → Event → Prop}
    (weakens : ∀ state event, allowed state event → weaker state event)
    {state : State} (reachable : machine.Reachable allowed state) :
    machine.Reachable weaker state := by
  obtain ⟨first, events, initial, run⟩ := reachable
  exact ⟨first, events, initial, run.weaken weakens⟩

theorem Run.append {first middle last : State} {before after : List Event}
    (run : machine.Run allowed first before middle)
    (rest : machine.Run allowed middle after last) :
    machine.Run allowed first (before ++ after) last := by
  induction rest with
  | nil => simpa using run
  | snoc _ permitted step induction =>
      rw [← List.append_assoc]
      exact induction.snoc permitted step

theorem Reachable.run {state next : State} {events : List Event}
    (reachable : machine.Reachable allowed state)
    (run : machine.Run allowed state events next) :
    machine.Reachable allowed next := by
  obtain ⟨first, before, initial, prior⟩ := reachable
  exact ⟨first, before ++ events, initial, prior.append run⟩

/-! ## Machines whose steps compute a function -/

section Computed

variable {Input : Type*}

/-- Every input of a list passes `check` in the state that it meets. -/
def Along (check : State → Input → Prop) (next : State → Input → State) :
    State → List Input → Prop
  | _, [] => True
  | state, input :: inputs =>
      check state input ∧ Along check next (next state input) inputs

instance decidableAlong (check : State → Input → Prop)
    [∀ state, DecidablePred (check state)] (next : State → Input → State)
    (state : State) (inputs : List Input) :
    Decidable (Along check next state inputs) :=
  match inputs with
  | [] => .isTrue trivial
  | input :: inputs =>
      have := decidableAlong check next (next state input) inputs
      inferInstanceAs (Decidable (_ ∧ _))

/-- A machine whose steps compute `next` runs through the inputs that pass the
check. -/
theorem run_of_along {check : State → Input → Prop}
    {next : State → Input → State} {event : Input → Event}
    (computes : ∀ state input, check state input →
      machine.Step state (event input) (next state input))
    (permits : ∀ state input, check state input → allowed state (event input))
    {first : State} {inputs : List Input}
    (along : Along check next first inputs) :
    machine.Run allowed first (inputs.map event)
      (inputs.foldl next first) := by
  induction inputs generalizing first with
  | nil => exact .nil first
  | cons input inputs induction =>
      have head : machine.Run allowed first [event input] (next first input) :=
        (Run.nil first).snoc (permits _ _ along.1) (computes _ _ along.1)
      exact head.append (induction along.2)

/-- A machine whose steps compute a partial function runs through the events for
which it is defined. -/
theorem run_of_foldlM {step : State → Event → Option State}
    (computes : ∀ state event next, step state event = some next →
      machine.Step state event next)
    (permits : ∀ state event, allowed state event)
    {first last : State} {events : List Event}
    (runs : events.foldlM step first = some last) :
    machine.Run allowed first events last := by
  induction events generalizing first with
  | nil =>
      cases runs
      exact .nil _
  | cons event events induction =>
      rw [List.foldlM_cons] at runs
      obtain ⟨middle, stepped, rest⟩ := Option.bind_eq_some_iff.mp runs
      have head : machine.Run allowed first [event] middle :=
        (Run.nil first).snoc (permits _ _) (computes _ _ _ stepped)
      exact head.append (induction rest)

end Computed

end Machine

end FeaturesOS

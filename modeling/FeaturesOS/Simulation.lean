import FeaturesOS.Machine
import Mathlib.Logic.Relation

/-!
# Simulations between machines

A machine is simulated by a more abstract one when each of its steps is a step of
the abstract machine or is not seen there.  What holds in all reachable states of
the abstract machine then holds, through the relation, of the other one.
-/

namespace FeaturesOS

namespace Machine

variable {Low High LowEvent HighEvent : Type*}

/-- `high` does what `low` does, where the steps that `high` does not see leave
the related state as it is or lead to another initial one. -/
structure Simulates (low : Machine Low LowEvent) (high : Machine High HighEvent)
    (allowed : Low → LowEvent → Prop) (permitted : High → HighEvent → Prop)
    (related : Low → High → Prop) : Prop where
  initial : ∀ state, low.Initial state →
    ∃ abstract, high.Initial abstract ∧ related state abstract
  step : ∀ state event next abstract, related state abstract →
    allowed state event → low.Step state event next →
    related next abstract ∨
    (∃ other, high.Initial other ∧ related next other) ∨
    ∃ seen after, permitted abstract seen ∧
      high.Step abstract seen after ∧ related next after

variable {low : Machine Low LowEvent} {high : Machine High HighEvent}
variable {allowed : Low → LowEvent → Prop}
variable {permitted : High → HighEvent → Prop}
variable {related : Low → High → Prop}

/-- Every reachable state is related to a reachable one. -/
theorem Simulates.reachable
    (simulates : low.Simulates high allowed permitted related) {state : Low}
    (reachable : low.Reachable allowed state) :
    ∃ abstract, high.Reachable permitted abstract ∧ related state abstract := by
  refine @Reachable.invariant _ _ low allowed (fun state =>
    ∃ abstract, high.Reachable permitted abstract ∧ related state abstract)
    ?_ ?_ state reachable
  · intro state initial
    obtain ⟨abstract, starts, isRelated⟩ := simulates.initial state initial
    exact ⟨abstract, .initial starts, isRelated⟩
  · rintro state event next ⟨abstract, reached, isRelated⟩ permits step
    rcases simulates.step state event next abstract isRelated permits step with
      unseen | ⟨other, starts, isRelated'⟩ |
      ⟨seen, after, allows, goes, isRelated'⟩
    · exact ⟨abstract, reached, unseen⟩
    · exact ⟨other, .initial starts, isRelated'⟩
    · exact ⟨after, reached.step allows goes, isRelated'⟩

/-- `high` takes part in the events of `low`. -/
structure Refines {Event : Type*} (low : Machine Low Event)
    (high : Machine High Event) (allowed : Low → Event → Prop)
    (related : Low → High → Prop) : Prop where
  initial : ∀ state, low.Initial state →
    ∃ abstract, high.Initial abstract ∧ related state abstract
  step : ∀ state event next abstract, related state abstract →
    allowed state event → low.Step state event next →
    ∃ after, high.Step abstract event after ∧ related next after

/-- Every run of `low` has the events of a run of `high`. -/
theorem Refines.run {Event : Type*} {low : Machine Low Event}
    {high : Machine High Event} {allowed : Low → Event → Prop}
    (refines : low.Refines high allowed related) {first last : Low}
    {events : List Event} (initial : low.Initial first)
    (run : low.Run allowed first events last) :
    ∃ start final, high.Initial start ∧
      high.Run Unrestricted start events final ∧ related last final := by
  obtain ⟨start, starts, isRelated⟩ := refines.initial first initial
  refine ⟨start, ?_⟩
  induction run with
  | nil => exact ⟨start, starts, .nil start, isRelated⟩
  | snoc _ permitted step induction =>
      obtain ⟨middle, _, before, isRelated'⟩ := induction
      obtain ⟨after, goes, isRelated''⟩ :=
        refines.step _ _ _ _ isRelated' permitted step
      exact ⟨after, starts, before.snoc trivial goes, isRelated''⟩

end Machine

/-- Pieces of code that change a shared state step by step, with a local state
of their own. -/
structure Sections (Shared Event : Type*) where
  Local : Type
  start : Event → Local
  Step : Local × Shared → Local × Shared → Prop
  Ends : Local → Prop

namespace Sections

variable {Shared Event : Type*} (sections : Sections Shared Event)
variable {event : Event} {initial shared next : Shared}
variable {here there : sections.Local}

/-- Alone, the piece for `event` comes from `initial` to this point. -/
def Within (event : Event) (initial : Shared) (here : sections.Local)
    (shared : Shared) : Prop :=
  Relation.ReflTransGen sections.Step (sections.start event, initial)
    (here, shared)

/-- A piece that ends alone has the effect of one step. -/
def Realizes (effect : Event → Shared → Shared → Prop) : Prop :=
  ∀ event initial here final, sections.Within event initial here final →
    sections.Ends here → effect event initial final

theorem Within.start (event : Event) (initial : Shared) :
    sections.Within event initial (sections.start event) initial :=
  .refl

variable {sections}

theorem Within.step (within : sections.Within event initial here shared)
    (step : sections.Step (here, shared) (there, next)) :
    sections.Within event initial there next :=
  within.tail step

end Sections

end FeaturesOS

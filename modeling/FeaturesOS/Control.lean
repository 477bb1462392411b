import Mathlib.Init

/-!
# Computations that need not return

A call of a kernel function returns a value, leaves through a context switch or
stops in a panic.  `Entry` is the state monad of such calls.  A `Triple` says
what holds when a call returns and what holds when it leaves; nothing is said
about a call that stops.
-/

namespace FeaturesOS

universe u v

inductive Outcome (State : Type u) (Result : Type v) where
  | returns (result : Result) (state : State)
  | leaves (state : State)
  | stops

/-- The state in which a call has left. -/
def Outcome.leftState {State : Type u} {Result : Type v} :
    Outcome State Result → Option State
  | .leaves state => some state
  | .returns _ _ | .stops => none

/-- The state in which a call has returned or left. -/
def Outcome.finalState {State : Type u} {Result : Type v} :
    Outcome State Result → Option State
  | .returns _ state | .leaves state => some state
  | .stops => none

/-- The result of a call that has returned. -/
def Outcome.value {State : Type u} {Result : Type v} :
    Outcome State Result → Option Result
  | .returns result _ => some result
  | .leaves _ | .stops => none

/-- A call that reads and changes a state. -/
def Entry (State : Type u) (Result : Type v) : Type (max u v) :=
  State → Outcome State Result

namespace Entry

variable {State : Type u} {Result Next : Type v}

def ret (result : Result) : Entry State Result := fun state =>
  .returns result state

def bind (entry : Entry State Result) (next : Result → Entry State Next) :
    Entry State Next := fun state =>
  match entry state with
  | .returns result state => next result state
  | .leaves state => .leaves state
  | .stops => .stops

instance : Monad (Entry State) where
  pure := ret
  bind := bind

/-- Read something of the state. -/
def read (view : State → Result) : Entry State Result := fun state =>
  .returns (view state) state

/-- Change the state. -/
def modify (change : State → State) : Entry State PUnit := fun state =>
  .returns ⟨⟩ (change state)

/-- Leave through a context switch. -/
def leave : Entry State Result := fun state => .leaves state

/-- A panic. -/
def stop : Entry State Result := fun _ => .stops

theorem pure_run (result : Result) (state : State) :
    (pure result : Entry State Result) state = .returns result state :=
  rfl

theorem bind_run (entry : Entry State Result)
    (next : Result → Entry State Next) (state : State) :
    (entry >>= next) state =
      match entry state with
      | .returns result state => next result state
      | .leaves state => .leaves state
      | .stops => .stops :=
  rfl

theorem read_bind_run (view : State → Result)
    (next : Result → Entry State Next) (state : State) :
    (read view >>= next) state = next (view state) state :=
  rfl

theorem modify_bind_run (change : State → State)
    (next : PUnit → Entry State Next) (state : State) :
    (modify change >>= next) state = next ⟨⟩ (change state) :=
  rfl

theorem bind_assoc {Last : Type v} (entry : Entry State Result)
    (first : Result → Entry State Next) (second : Next → Entry State Last) :
    (entry >>= first) >>= second =
      entry >>= fun result => first result >>= second := by
  funext state
  rw [bind_run, bind_run, bind_run]
  cases entry state with
  | returns result middle => rfl
  | leaves final => rfl
  | stops => rfl

/-- The state behind a call that does not stop. -/
def after (entry : Entry State Result) (state : State) : State :=
  (entry state).finalState.getD state

theorem returns_after {entry : Entry State Result} {state : State}
    {result : Result} (value : (entry state).value = some result) :
    entry state = .returns result (entry.after state) := by
  unfold after
  cases outcome : entry state with
  | returns result' state' =>
      rw [outcome] at value
      cases value
      rfl
  | leaves state' =>
      rw [outcome] at value
      cases value
  | stops =>
      rw [outcome] at value
      cases value

/-- Started in `before`, the call returns in `returned` and leaves in `left`. -/
structure Triple (before : State → Prop) (entry : Entry State Result)
    (returned : Result → State → Prop) (left : State → Prop) : Prop where
  run : ∀ state, before state →
    match entry state with
    | .returns result state => returned result state
    | .leaves state => left state
    | .stops => True

namespace Triple

variable {before : State → Prop} {entry : Entry State Result}
variable {returned : Result → State → Prop} {left : State → Prop}

theorem pure {result : Result}
    (holds : ∀ state, before state → returned result state) :
    Triple before (Pure.pure result) returned left :=
  ⟨holds⟩

theorem read {view : State → Result}
    (holds : ∀ state, before state → returned (view state) state) :
    Triple before (Entry.read view) returned left :=
  ⟨holds⟩

theorem modify {change : State → State}
    {returned : PUnit → State → Prop}
    (holds : ∀ state, before state → returned ⟨⟩ (change state)) :
    Triple before (Entry.modify change) returned left :=
  ⟨holds⟩

theorem leave (holds : ∀ state, before state → left state) :
    Triple before (Entry.leave : Entry State Result) returned left :=
  ⟨holds⟩

theorem stop :
    Triple before (Entry.stop : Entry State Result) returned left :=
  ⟨fun _ _ => trivial⟩

theorem bind {middle : Result → State → Prop}
    {next : Result → Entry State Next} {returned : Next → State → Prop}
    (first : Triple before entry middle left)
    (rest : ∀ result, Triple (middle result) (next result) returned left) :
    Triple before (entry >>= next) returned left := by
  constructor
  intro state initially
  have half := first.run state initially
  rw [bind_run]
  cases result : entry state with
  | returns value middle =>
      rw [result] at half
      exact (rest value).run middle half
  | leaves final =>
      rw [result] at half
      exact half
  | stops => trivial

/-- A branch on what is read keeps the equation with the state. -/
theorem bind_read {view : State → Result} {next : Result → Entry State Next}
    {returned : Next → State → Prop}
    (rest : ∀ result,
      Triple (fun state => before state ∧ view state = result) (next result)
        returned left) :
    Triple before (Entry.read view >>= next) returned left :=
  ⟨fun state initially => (rest (view state)).run state ⟨initially, rfl⟩⟩

theorem bind_modify (middle : State → Prop) {change : State → State}
    {next : PUnit → Entry State Next} {returned : Next → State → Prop}
    (first : ∀ state, before state → middle (change state))
    (rest : Triple middle (next ⟨⟩) returned left) :
    Triple before (Entry.modify change >>= next) returned left :=
  ⟨fun state initially => rest.run (change state) (first state initially)⟩

theorem weaken {stronger : State → Prop}
    {returnedStronger : Result → State → Prop} {leftStronger : State → Prop}
    (triple : Triple stronger entry returnedStronger leftStronger)
    (initially : ∀ state, before state → stronger state)
    (returns : ∀ result state, returnedStronger result state →
      returned result state)
    (leaves : ∀ state, leftStronger state → left state) :
    Triple before entry returned left := by
  constructor
  intro state holds
  have run := triple.run state (initially state holds)
  cases result : entry state with
  | returns value final =>
      rw [result] at run
      exact returns value final run
  | leaves final =>
      rw [result] at run
      exact leaves final run
  | stops => trivial

/-- Two facts about one call. -/
theorem and {before' : State → Prop} {returned' : Result → State → Prop}
    {left' : State → Prop} (first : Triple before entry returned left)
    (second : Triple before' entry returned' left') :
    Triple (fun state => before state ∧ before' state) entry
      (fun result state => returned result state ∧ returned' result state)
      (fun state => left state ∧ left' state) := by
  constructor
  rintro state ⟨holds, holds'⟩
  have one := first.run state holds
  have two := second.run state holds'
  cases outcome : entry state with
  | returns result final =>
      rw [outcome] at one two
      exact ⟨one, two⟩
  | leaves final =>
      rw [outcome] at one two
      exact ⟨one, two⟩
  | stops => trivial

/-- From one known state on, what is read is known. -/
theorem at_read {state : State} {view : State → Result}
    {next : Result → Entry State Next} {returned : Next → State → Prop}
    (rest : Triple (· = state) (next (view state)) returned left) :
    Triple (· = state) (Entry.read view >>= next) returned left := by
  constructor
  rintro _ rfl
  exact rest.run _ rfl

theorem at_modify {state : State} {change : State → State}
    {next : PUnit → Entry State Next} {returned : Next → State → Prop}
    (rest : Triple (· = change state) (next ⟨⟩) returned left) :
    Triple (· = state) (Entry.modify change >>= next) returned left := by
  constructor
  rintro _ rfl
  exact rest.run _ rfl

/-- A fact that does not depend on the state. -/
theorem assuming {fact : Prop}
    (rest : fact → Triple before entry returned left) :
    Triple (fun state => fact ∧ before state) entry returned left :=
  ⟨fun state initially => (rest initially.1).run state initially.2⟩

theorem ite {condition : Prop} [Decidable condition]
    {other : Entry State Result}
    (holds : condition → Triple before entry returned left)
    (fails : ¬ condition → Triple before other returned left) :
    Triple before (if condition then entry else other) returned left := by
  split
  · exact holds ‹_›
  · exact fails ‹_›

/-- Where the call ends, whether it returns or leaves. -/
theorem final {invariant : State → Prop}
    (triple : Triple before entry (fun _ => invariant) invariant)
    {state next : State} (initially : before state)
    (ends : (entry state).finalState = some next) : invariant next := by
  have run := triple.run state initially
  cases outcome : entry state with
  | returns result final =>
      rw [outcome] at run ends
      cases ends
      exact run
  | leaves final =>
      rw [outcome] at run ends
      cases ends
      exact run
  | stops =>
      rw [outcome] at ends
      cases ends

/-- What holds of a call that is known to return. -/
theorem of_returns (triple : Triple before entry returned left)
    {state next : State} {result : Result} (initially : before state)
    (returns : entry state = .returns result next) : returned result next := by
  have run := triple.run state initially
  rwa [returns] at run

/-- Start from a consequence of what holds before. -/
theorem strengthen (stronger : State → Prop)
    (initially : ∀ state, before state → stronger state)
    (triple : Triple stronger entry returned left) :
    Triple before entry returned left :=
  triple.weaken initially (fun _ _ => id) (fun _ => id)

end Triple

/-! ## Frames -/

/-- The call only returns, and what `view` shows of the state stays. -/
structure Frame {View : Type*} (view : State → View)
    (entry : Entry State Result) : Prop where
  run : ∀ state,
    match entry state with
    | .returns _ after => view after = view state
    | .leaves _ => False
    | .stops => True

namespace Frame

variable {View : Type*} {view : State → View} {entry : Entry State Result}

theorem pure {result : Result} :
    Frame view (Pure.pure result : Entry State Result) :=
  ⟨fun _ => rfl⟩

theorem read {look : State → Result} : Frame view (Entry.read look) :=
  ⟨fun _ => rfl⟩

theorem stop : Frame view (Entry.stop : Entry State Result) :=
  ⟨fun _ => trivial⟩

theorem modify {change : State → State}
    (keeps : ∀ state, view (change state) = view state) :
    Frame view (Entry.modify change) :=
  ⟨keeps⟩

theorem bind {next : Result → Entry State Next} (first : Frame view entry)
    (rest : ∀ result, Frame view (next result)) :
    Frame view (entry >>= next) := by
  constructor
  intro state
  have half := first.run state
  rw [bind_run]
  cases result : entry state with
  | returns value middle =>
      rw [result] at half
      have tail := (rest value).run middle
      dsimp only at half ⊢
      cases final : next value middle with
      | returns last after =>
          rw [final] at tail
          exact tail.trans half
      | leaves after =>
          rw [final] at tail
          exact tail
      | stops => trivial
  | leaves final =>
      rw [result] at half
      exact half
  | stops => trivial

/-- Whatever holds of the view holds after the call. -/
theorem triple (frame : Frame view entry) (property : View → Prop)
    {left : State → Prop} :
    Triple (fun state => property (view state)) entry
      (fun _ state => property (view state)) left := by
  constructor
  intro state initially
  have same := frame.run state
  cases result : entry state with
  | returns value after =>
      rw [result] at same
      dsimp only at same ⊢
      rwa [same]
  | leaves after =>
      rw [result] at same
      exact same.elim
  | stops => trivial

end Frame

end Entry

end FeaturesOS

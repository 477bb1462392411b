import FeaturesOS.Machine
import FeaturesOS.Sieve

/-!
# The chain of prime filters

`user/primes.c`: an environment feeds all numbers into a chain of environments, of
which each prints the first number that it gets and filters its multiples out.
The environments take their steps in any order.  `ipc_send` gets through when the
target is blocked in `ipc_recv`, and tries again otherwise; a `fork` may fail,
and the environment then panics.  A number is an integer that does not overflow.
-/

namespace FeaturesOS.Scheduler

/-- Where an environment is in `umain` or `primeproc`. -/
inductive PrimesPoint where
  /-- `id = fork()` in `umain` -/
  | start
  /-- `ipc_send(id, i, 0, 0)` in `umain` -/
  | feed (id i : Nat)
  /-- `p = ipc_recv(&envid, 0, 0)` -/
  | top
  /-- `cprintf` -/
  | print (p : Nat)
  /-- `id = fork()` -/
  | fork (p : Nat)
  /-- `i = ipc_recv(&envid, 0, 0)` -/
  | recv (p id : Nat)
  /-- `if (i % p)` -/
  | test (p id i : Nat)
  /-- `ipc_send(id, i, 0, 0)` -/
  | send (p id i : Nat)
  | panics

namespace PrimesPoint

/-- Behind an `ipc_recv` that gets `value`; `none` where there is none. -/
def received (value : Nat) : PrimesPoint → Option PrimesPoint
  | top => some (print value)
  | recv p id => some (test p id value)
  | _ => none

end PrimesPoint

structure PrimesState where
  /-- how many environments there are -/
  count : Nat
  point : Nat → PrimesPoint
  /-- the numbers that have been printed -/
  printed : List Nat

namespace PrimesState

def goTo (state : PrimesState) (e : Nat) (point : PrimesPoint) : PrimesState :=
  { state with point := Function.update state.point e point }

/-- `fork` in the environment `e`: the child goes to `top`, and the parent to
`parent` with the id of the child. -/
def forks (state : PrimesState) (e : Nat) (parent : Nat → PrimesPoint) :
    PrimesState :=
  { (state.goTo e (parent state.count)).goTo state.count .top with
    count := state.count + 1 }

end PrimesState

open PrimesPoint

/-- A step of the environment `e`. -/
inductive PrimesStep (e : Nat) : PrimesState → PrimesState → Prop where
  | starts {state : PrimesState} :
      e < state.count → state.point e = .start →
      PrimesStep e state (state.forks e fun id => .feed id 2)
  | startFails {state : PrimesState} :
      e < state.count → state.point e = .start →
      PrimesStep e state (state.goTo e .panics)
  | feeds {state : PrimesState} {id i : Nat} {point : PrimesPoint} :
      e < state.count → state.point e = .feed id i →
      (state.point id).received i = some point →
      PrimesStep e state
        ((state.goTo e (.feed id (i + 1))).goTo id point)
  | prints {state : PrimesState} {p : Nat} :
      e < state.count → state.point e = .print p →
      PrimesStep e state
        { state.goTo e (.fork p) with printed := state.printed ++ [p] }
  | forks {state : PrimesState} {p : Nat} :
      e < state.count → state.point e = .fork p →
      PrimesStep e state (state.forks e fun id => .recv p id)
  | forkFails {state : PrimesState} {p : Nat} :
      e < state.count → state.point e = .fork p →
      PrimesStep e state (state.goTo e .panics)
  | drops {state : PrimesState} {p id i : Nat} :
      e < state.count → state.point e = .test p id i → i % p = 0 →
      PrimesStep e state (state.goTo e (.recv p id))
  | passes {state : PrimesState} {p id i : Nat} :
      e < state.count → state.point e = .test p id i → i % p ≠ 0 →
      PrimesStep e state (state.goTo e (.send p id i))
  | sends {state : PrimesState} {p id i : Nat} {point : PrimesPoint} :
      e < state.count → state.point e = .send p id i →
      (state.point id).received i = some point →
      PrimesStep e state ((state.goTo e (.recv p id)).goTo id point)

/-- `primes`, started as the only environment. -/
def primes : Machine PrimesState Nat where
  Initial state := state.count = 1 ∧ state.point 0 = .start ∧ state.printed = []
  Step state e next := PrimesStep e state next

/-! ## What the chain has done -/

open Sieve

/-- The environment `k + 1` is the filter of the `k`-th prime: `own` is how many
numbers it has got, and `next` how many its right neighbour has got. -/
def PrimesPoint.Filters (k count printed own next : Nat) :
    PrimesPoint → Prop
  | top => count = k + 2 ∧ printed = k ∧ own = 0
  | print p => count = k + 2 ∧ printed = k ∧ own = 1 ∧ p = prime k
  | fork p => count = k + 2 ∧ printed = k + 1 ∧ own = 1 ∧ p = prime k
  | panics => count = k + 2 ∧ printed = k + 1
  | recv p id =>
      k + 2 < count ∧ p = prime k ∧ id = k + 2 ∧ 1 ≤ own ∧
        next = passed (k + 1) (value k (own - 1) + 1)
  | test p id i =>
      k + 2 < count ∧ p = prime k ∧ id = k + 2 ∧ 2 ≤ own ∧
        i = value k (own - 1) ∧ next = passed (k + 1) i
  | send p id i =>
      k + 2 < count ∧ p = prime k ∧ id = k + 2 ∧ 2 ≤ own ∧
        i = value k (own - 1) ∧ next = passed (k + 1) i ∧ ¬ p ∣ i
  | start | feed _ _ => False

/-- `umain`; `first` is how many numbers the first filter has got. -/
def PrimesPoint.Feeds (count printed first : Nat) : PrimesPoint → Prop
  | start | panics => count = 1 ∧ printed = 0
  | feed id i => 2 ≤ count ∧ id = 1 ∧ 2 ≤ i ∧ first = passed 0 i
  | _ => False

/-- `got e` is how many numbers the environment `e` has got. -/
structure PrimesState.Sieves (got : Nat → Nat) (state : PrimesState) : Prop where
  root : (state.point 0).Feeds state.count state.printed.length (got 1)
  filters : ∀ k, k + 1 < state.count →
    (state.point (k + 1)).Filters k state.count state.printed.length
      (got (k + 1)) (got (k + 2))
  printed : state.printed = (List.range state.printed.length).map prime

variable {state after : PrimesState} {got : Nat → Nat} {e k : Nat}

/-- The next number of its stream reaches a filter. -/
theorem PrimesPoint.Filters.gets {count printed own next i : Nat}
    {point point' : PrimesPoint}
    (filters : point.Filters k count printed own next)
    (received : point.received i = some point') (isNext : i = value k own) :
    point'.Filters k count printed (own + 1) next := by
  cases point with
  | top =>
      cases received
      obtain ⟨isLast, isPrinted, rfl⟩ := filters
      exact ⟨isLast, isPrinted, rfl, isNext.trans (value_zero k)⟩
  | recv p id =>
      cases received
      obtain ⟨inside, isPrime, isId, some, passes⟩ := filters
      refine ⟨inside, isPrime, isId, by omega, isNext, ?_⟩
      have between := passed_between k (own - 1)
      rw [Nat.sub_add_cancel some] at between
      rw [passes, ← between, isNext]
  | start | feed _ _ | print _ | fork _ | test _ _ _ | send _ _ _ | panics =>
      cases received

/-- An environment that is in `umain` is the first one. -/
theorem PrimesState.Sieves.root_at (sieves : state.Sieves got)
    {point : PrimesPoint} (inside : e < state.count)
    (here : state.point e = point)
    (isRoot : ∀ k count printed own next,
      ¬ point.Filters k count printed own next) :
    e = 0 ∧ point.Feeds state.count state.printed.length (got 1) := by
  cases e with
  | zero => exact ⟨rfl, here ▸ sieves.root⟩
  | succ k => exact absurd (here ▸ sieves.filters k inside) (isRoot _ _ _ _ _)

/-- An environment that is in `primeproc` is a filter. -/
theorem PrimesState.Sieves.filter_at (sieves : state.Sieves got)
    {point : PrimesPoint} (inside : e < state.count)
    (here : state.point e = point)
    (isFilter : ∀ count printed first, ¬ point.Feeds count printed first) :
    ∃ k, e = k + 1 ∧ point.Filters k state.count state.printed.length
      (got (k + 1)) (got (k + 2)) := by
  cases e with
  | zero => exact absurd (here ▸ sieves.root) (isFilter _ _ _)
  | succ k => exact ⟨k, rfl, here ▸ sieves.filters k inside⟩

/-- The generator does not see what happens at the end of the chain. -/
theorem PrimesPoint.Feeds.grows {count count' printed printed' first : Nat}
    {point : PrimesPoint} (feeds : point.Feeds count printed first)
    (some : 2 ≤ count) (more : count ≤ count') :
    point.Feeds count' printed' first := by
  cases point with
  | start | panics =>
      have := feeds.1
      omega
  | feed id i =>
      obtain ⟨_, rest⟩ := feeds
      exact ⟨by omega, rest⟩
  | top | print _ | fork _ | recv _ _ | test _ _ _ | send _ _ _ => exact feeds

/-- A filter with a right neighbour does not see what happens behind it. -/
theorem PrimesPoint.Filters.grows {count count' printed printed' own next : Nat}
    {point : PrimesPoint} (filters : point.Filters k count printed own next)
    (notLast : k + 2 < count) (more : count ≤ count') :
    point.Filters k count' printed' own next := by
  cases point with
  | top | print p | fork p | panics =>
      obtain ⟨isLast, _⟩ := filters
      omega
  | recv p id | test p id i | send p id i =>
      obtain ⟨inside, rest⟩ := filters
      exact ⟨by omega, rest⟩
  | start | feed _ _ => exact filters

/-- A filter takes a step of its own. -/
theorem PrimesState.Sieves.moves (sieves : state.Sieves got)
    {there : PrimesPoint}
    (filters : there.Filters k state.count state.printed.length (got (k + 1))
      (got (k + 2))) :
    (state.goTo (k + 1) there).Sieves got := by
  refine ⟨sieves.root, fun j below => ?_, sieves.printed⟩
  change (Function.update state.point (k + 1) there (j + 1)).Filters _ _ _ _ _
  by_cases same : j = k
  · rw [same, Function.update_self]
    exact filters
  · rw [Function.update_of_ne (by omega)]
    exact sieves.filters j below

theorem PrimesState.Sieves.starts (sieves : state.Sieves got)
    (isOne : state.count = 1) (none : state.printed.length = 0) :
    (state.forks 0 fun id => .feed id 2).Sieves fun _ => 0 := by
  refine ⟨?_, fun k below => ?_, sieves.printed⟩
  · change (Function.update (Function.update state.point 0 (.feed state.count 2))
      state.count top 0).Feeds (state.count + 1) state.printed.length 0
    rw [Function.update_of_ne (by omega), Function.update_self]
    exact ⟨by omega, isOne, le_rfl, passed_zero_two.symm⟩
  · change k + 1 < state.count + 1 at below
    obtain rfl : k = 0 := by omega
    change (Function.update (Function.update state.point 0 (.feed state.count 2))
      state.count top 1).Filters 0 (state.count + 1) state.printed.length 0 0
    rw [isOne, Function.update_self]
    exact ⟨rfl, none, rfl⟩

theorem PrimesState.Sieves.startFails (sieves : state.Sieves got)
    (isOne : state.count = 1) (none : state.printed.length = 0) :
    (state.goTo 0 .panics).Sieves got := by
  refine ⟨?_, fun k below => ?_, sieves.printed⟩
  · change (Function.update state.point 0 .panics 0).Feeds _ _ _
    rw [Function.update_self]
    exact ⟨isOne, none⟩
  · change k + 1 < state.count at below
    omega

/-- The generator sends the next number to the first filter. -/
theorem PrimesState.Sieves.feeds (sieves : state.Sieves got) {i : Nat}
    {point : PrimesPoint}
    (feeds : (feed 1 i).Feeds state.count state.printed.length (got 1))
    (received : (state.point 1).received i = some point) :
    ((state.goTo 0 (.feed 1 (i + 1))).goTo 1 point).Sieves
      (Function.update got 1 (got 1 + 1)) := by
  obtain ⟨two, _, large, isFirst⟩ := feeds
  have survives := survives_zero.mpr large
  have gets := (sieves.filters 0 two).gets received
    (by rw [isFirst, value_passed survives])
  refine ⟨?_, fun k below => ?_, sieves.printed⟩
  · change (Function.update (Function.update state.point 0 (.feed 1 (i + 1))) 1
      point 0).Feeds state.count state.printed.length
        (Function.update got 1 (got 1 + 1) 1)
    rw [Function.update_self, Function.update_of_ne (by omega),
      Function.update_self]
    exact ⟨two, rfl, by omega, by rw [isFirst, passed_succ survives]⟩
  · change (Function.update (Function.update state.point 0 (.feed 1 (i + 1))) 1
      point (k + 1)).Filters k state.count state.printed.length _ _
    cases k with
    | zero =>
        rw [Function.update_self, Function.update_self,
          Function.update_of_ne (by omega)]
        exact gets
    | succ k =>
        rw [Function.update_of_ne (by omega), Function.update_of_ne (by omega),
          Function.update_of_ne (by omega), Function.update_of_ne (by omega)]
        exact sieves.filters (k + 1) below

/-- The last filter prints its prime. -/
theorem PrimesState.Sieves.prints (sieves : state.Sieves got)
    (isLast : state.count = k + 2) (isPrinted : state.printed.length = k)
    (one : got (k + 1) = 1) :
    ({ state.goTo (k + 1) (.fork (prime k)) with
        printed := state.printed ++ [prime k] } : PrimesState).Sieves got := by
  have isLength : (state.printed ++ [prime k]).length = k + 1 := by
    rw [List.length_append, isPrinted]
    rfl
  refine ⟨?_, fun j below => ?_, ?_⟩
  · change (Function.update state.point (k + 1) (.fork (prime k)) 0).Feeds
      state.count (state.printed ++ [prime k]).length _
    rw [Function.update_of_ne (by omega)]
    exact sieves.root.grows (by omega) le_rfl
  · change j + 1 < state.count at below
    change (Function.update state.point (k + 1) (.fork (prime k)) (j + 1)).Filters
      j state.count (state.printed ++ [prime k]).length _ _
    by_cases same : j = k
    · rw [same, Function.update_self, isLength]
      exact ⟨isLast, rfl, one, rfl⟩
    · rw [Function.update_of_ne (by omega)]
      exact (sieves.filters j below).grows (by omega) le_rfl
  · change state.printed ++ [prime k] = _
    rw [isLength, List.range_succ, List.map_append, ← isPrinted, ← sieves.printed]
    rfl

/-- The last filter forks the next one. -/
theorem PrimesState.Sieves.forks (sieves : state.Sieves got)
    (isLast : state.count = k + 2) (isPrinted : state.printed.length = k + 1)
    (one : got (k + 1) = 1) :
    (state.forks (k + 1) fun id => .recv (prime k) id).Sieves
      (Function.update got (k + 2) 0) := by
  refine ⟨?_, fun j below => ?_, sieves.printed⟩
  · change (Function.update (Function.update state.point (k + 1)
      (.recv (prime k) state.count)) state.count top 0).Feeds (state.count + 1)
        state.printed.length _
    rw [Function.update_of_ne (by omega), Function.update_of_ne (by omega),
      Function.update_of_ne (by omega)]
    exact sieves.root.grows (by omega) (by omega)
  · change j + 1 < state.count + 1 at below
    change (Function.update (Function.update state.point (k + 1)
      (.recv (prime k) state.count)) state.count top (j + 1)).Filters j
        (state.count + 1) state.printed.length _ _
    rcases Nat.lt_trichotomy j k with less | same | more
    · rw [Function.update_of_ne (by omega), Function.update_of_ne (by omega),
        Function.update_of_ne (by omega), Function.update_of_ne (by omega)]
      exact (sieves.filters j (by omega)).grows (by omega) (by omega)
    · rw [same, Function.update_of_ne (by omega), Function.update_self,
        Function.update_of_ne (by omega), Function.update_self, one]
      exact ⟨by omega, rfl, isLast, le_rfl, (passed_first k).symm⟩
    · obtain rfl : j = k + 1 := by omega
      rw [isLast, Function.update_self, Function.update_self]
      exact ⟨rfl, isPrinted, rfl⟩

/-- A filter sends a number that its prime does not divide to the next one. -/
theorem PrimesState.Sieves.sends (sieves : state.Sieves got) {i : Nat}
    {point : PrimesPoint}
    (filters : (send (prime k) (k + 2) i).Filters k state.count
      state.printed.length (got (k + 1)) (got (k + 2)))
    (received : (state.point (k + 2)).received i = some point) :
    ((state.goTo (k + 1) (.recv (prime k) (k + 2))).goTo (k + 2) point).Sieves
      (Function.update got (k + 2) (got (k + 2) + 1)) := by
  obtain ⟨below, _, _, some, isValue, isPassed, remains⟩ := filters
  have survives : Survives (k + 1) i :=
    survives_succ.mpr ⟨isValue ▸ survives_value k _, remains⟩
  have gets := (sieves.filters (k + 1) below).gets received
    (by rw [isPassed, value_passed survives])
  refine ⟨?_, fun j within => ?_, sieves.printed⟩
  · change (Function.update (Function.update state.point (k + 1)
      (.recv (prime k) (k + 2))) (k + 2) point 0).Feeds state.count
        state.printed.length _
    rw [Function.update_of_ne (by omega), Function.update_of_ne (by omega),
      Function.update_of_ne (by omega)]
    exact sieves.root
  · change (Function.update (Function.update state.point (k + 1)
      (.recv (prime k) (k + 2))) (k + 2) point (j + 1)).Filters j
        state.count state.printed.length _ _
    by_cases isNext : j = k + 1
    · rw [isNext, Function.update_self, Function.update_self,
        Function.update_of_ne (by omega)]
      exact gets
    · rw [Function.update_comm (by omega)]
      by_cases same : j = k
      · rw [same, Function.update_self, Function.update_of_ne (by omega),
          Function.update_self]
        exact ⟨below, rfl, rfl, by omega,
          by rw [isPassed, ← isValue, passed_succ survives]⟩
      · rw [Function.update_of_ne (by omega), Function.update_of_ne (by omega),
          Function.update_of_ne (by omega), Function.update_of_ne (by omega)]
        exact sieves.filters j within

theorem PrimesStep.sieves (step : PrimesStep e state after)
    (sieves : state.Sieves got) : ∃ got, after.Sieves got := by
  cases step with
  | starts inside here =>
      obtain ⟨rfl, isOne, none⟩ :=
        sieves.root_at inside here fun _ _ _ _ _ => False.elim
      exact ⟨_, sieves.starts isOne none⟩
  | startFails inside here =>
      obtain ⟨rfl, isOne, none⟩ :=
        sieves.root_at inside here fun _ _ _ _ _ => False.elim
      exact ⟨_, sieves.startFails isOne none⟩
  | @feeds id i point inside here received =>
      obtain ⟨rfl, feeds⟩ :=
        sieves.root_at inside here fun _ _ _ _ _ => False.elim
      obtain rfl : id = 1 := feeds.2.1
      exact ⟨_, sieves.feeds feeds received⟩
  | @prints p inside here =>
      obtain ⟨k, rfl, isLast, isPrinted, one, rfl⟩ :=
        sieves.filter_at inside here fun _ _ _ => False.elim
      exact ⟨_, sieves.prints isLast isPrinted one⟩
  | @forks p inside here =>
      obtain ⟨k, rfl, isLast, isPrinted, one, rfl⟩ :=
        sieves.filter_at inside here fun _ _ _ => False.elim
      exact ⟨_, sieves.forks isLast isPrinted one⟩
  | @forkFails p inside here =>
      obtain ⟨k, rfl, isLast, isPrinted, _⟩ :=
        sieves.filter_at inside here fun _ _ _ => False.elim
      exact ⟨got, sieves.moves ⟨isLast, isPrinted⟩⟩
  | @drops p id i inside here divides =>
      obtain ⟨k, rfl, below, rfl, isId, some, isValue, isPassed⟩ :=
        sieves.filter_at inside here fun _ _ _ => False.elim
      refine ⟨got, sieves.moves ⟨below, rfl, isId, by omega, ?_⟩⟩
      rw [isPassed, ← isValue, passed_succ_of_not]
      exact fun survives =>
        (survives_succ.mp survives).2 (Nat.dvd_of_mod_eq_zero divides)
  | @passes p id i inside here remains =>
      obtain ⟨k, rfl, below, rfl, isId, some, isValue, isPassed⟩ :=
        sieves.filter_at inside here fun _ _ _ => False.elim
      exact ⟨got, sieves.moves ⟨below, rfl, isId, some, isValue, isPassed,
        fun divides => remains (Nat.mod_eq_zero_of_dvd divides)⟩⟩
  | @sends p id i point inside here received =>
      obtain ⟨k, rfl, filters⟩ :=
        sieves.filter_at inside here fun _ _ _ => False.elim
      obtain rfl : p = prime k := filters.2.1
      obtain rfl : id = k + 2 := filters.2.2.1
      exact ⟨_, sieves.sends filters received⟩

theorem primes_sieves (reachable : primes.Reachable Machine.Unrestricted state) :
    ∃ got, state.Sieves got := by
  refine @Machine.Reachable.invariant _ _ _ _
    (fun state => ∃ got, state.Sieves got) ?_ ?_ _ reachable
  · rintro state ⟨isOne, isStart, isEmpty⟩
    refine ⟨fun _ => 0, ?_, fun k below => by omega, ?_⟩
    · rw [isStart]
      exact ⟨isOne, by rw [isEmpty]; rfl⟩
    · rw [isEmpty]
      rfl
  · rintro state e next ⟨got, sieves⟩ _ step
    exact step.sieves sieves

/-- Where somebody sends to the filter `k + 1`, an environment takes a step: the
filter gets the number, or goes on towards its `ipc_recv`, or sends itself to the
filter behind it. -/
theorem PrimesState.Sieves.moving (sieves : state.Sieves got)
    (alive : ∀ e < state.count, state.point e ≠ .panics) {i : Nat} (k : Nat)
    (inside : k + 1 < state.count)
    (sends : ∀ point, (state.point (k + 1)).received i = some point →
      ∃ e after, PrimesStep e state after) :
    ∃ e after, PrimesStep e state after := by
  have filters := sieves.filters k inside
  cases here : state.point (k + 1) with
  | top | recv p id => exact sends _ (by rw [here]; rfl)
  | print p => exact ⟨_, _, .prints inside here⟩
  | fork p => exact ⟨_, _, .forks inside here⟩
  | test p id j =>
      by_cases divides : j % p = 0
      · exact ⟨_, _, .drops inside here divides⟩
      · exact ⟨_, _, .passes inside here divides⟩
  | send p id j =>
      rw [here] at filters
      obtain ⟨below, _, rfl, _⟩ := filters
      exact sieves.moving alive (k + 1) below fun point received =>
        ⟨_, _, .sends inside here received⟩
  | panics => exact absurd here (alive _ inside)
  | start | feed _ _ =>
      rw [here] at filters
      exact filters.elim
termination_by state.count - k

/-- Where no environment panics, one can take a step. -/
theorem PrimesState.Sieves.proceeds (sieves : state.Sieves got)
    (alive : ∀ e < state.count, state.point e ≠ .panics) :
    ∃ e after, PrimesStep e state after := by
  have root := sieves.root
  cases here : state.point 0 with
  | start =>
      rw [here] at root
      have := root.1
      exact ⟨0, _, .starts (by omega) here⟩
  | feed id i =>
      rw [here] at root
      obtain ⟨two, rfl, _⟩ := root
      exact sieves.moving alive 0 two fun point received =>
        ⟨0, _, .feeds (by omega) here received⟩
  | panics =>
      rw [here] at root
      have := root.1
      exact absurd here (alive 0 (by omega))
  | top | print _ | fork _ | recv _ _ | test _ _ _ | send _ _ _ =>
      rw [here] at root
      exact root.elim

/-- There is one environment for each number that has been printed, the generator,
and at most one that has still to print. -/
theorem PrimesState.Sieves.count_bounds (sieves : state.Sieves got) :
    state.printed.length < state.count ∧
      state.count ≤ state.printed.length + 2 := by
  have root := sieves.root
  obtain one | two : state.count ≤ 1 ∨ 2 ≤ state.count := by omega
  · cases here : state.point 0 with
    | start | panics =>
        rw [here] at root
        have := root.1
        have := root.2
        omega
    | feed id i =>
        rw [here] at root
        have := root.1
        omega
    | top | print _ | fork _ | recv _ _ | test _ _ _ | send _ _ _ =>
        rw [here] at root
        exact root.elim
  · obtain ⟨k, isLast⟩ : ∃ k, state.count = k + 2 :=
      ⟨_, (Nat.sub_add_cancel two).symm⟩
    have filters := sieves.filters k (by omega)
    cases here : state.point (k + 1) with
    | top | print p | fork p =>
        rw [here] at filters
        have := filters.2.1
        omega
    | panics =>
        rw [here] at filters
        have := filters.2
        omega
    | recv p id | test p id j | send p id j =>
        rw [here] at filters
        have := filters.1
        omega
    | start | feed _ _ =>
        rw [here] at filters
        exact filters.elim

/-- In whatever order the environments take their steps, the numbers that have been
printed are the primes in order, with an environment for each, and the chain comes
to a halt only where an environment panics. -/
theorem primes_prints (reachable : primes.Reachable Machine.Unrestricted state) :
    state.printed = (List.range state.printed.length).map prime ∧
      state.printed.length < state.count ∧
      state.count ≤ state.printed.length + 2 ∧
      ((∀ e < state.count, state.point e ≠ .panics) →
        ∃ e after, primes.Step state e after) := by
  obtain ⟨got, sieves⟩ := primes_sieves reachable
  exact ⟨sieves.printed, sieves.count_bounds.1, sieves.count_bounds.2,
    sieves.proceeds⟩

theorem primes_prints_two : ∃ state, state.printed = [2] ∧
    (state.printed = (List.range state.printed.length).map prime ∧
      state.printed.length < state.count ∧
      state.count ≤ state.printed.length + 2 ∧
      ((∀ e < state.count, state.point e ≠ .panics) →
        ∃ e after, primes.Step state e after)) := by
  let initial : PrimesState := ⟨1, fun _ => .start, []⟩
  have started : primes.Reachable Machine.Unrestricted initial :=
    .initial ⟨rfl, rfl, rfl⟩
  have forked := started.step trivial
    (show primes.Step _ 0 _ from .starts (by decide) rfl)
  have fed := forked.step trivial
    (show primes.Step _ 0 _ from .feeds (by decide) rfl rfl)
  have printed := fed.step trivial
    (show primes.Step _ 1 _ from .prints (by decide) rfl)
  exact ⟨_, rfl, primes_prints printed⟩

end FeaturesOS.Scheduler

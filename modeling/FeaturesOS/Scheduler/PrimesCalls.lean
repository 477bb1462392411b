import FeaturesOS.Scheduler.Primes
import FeaturesOS.Scheduler.Rendezvous
import FeaturesOS.Simulation

/-!
# The system calls of the prime filters

`ipc_recv` and `ipc_send` take several steps: a receiver blocks in `sys_ipc_recv`,
`sys_ipc_try_send` fails until it finds the receiver blocked, and the receiver reads
the number once it runs again.  With these calls the chain of filters goes through
the states in which each number is handed over at once.
-/

namespace FeaturesOS.Scheduler

open Entry PrimesPoint

/-! ## The calls in the kernel -/

/-- `env_ipc_recving` and `env_ipc_value`. -/
structure Letter where
  recving : Bool
  value : UInt32

def lettersOf (mail : Nat → Mail) (e : Nat) : Letter :=
  { recving := (mail e).recving, value := (mail e).value }

/-- `sys_ipc_recv` of the environment `e`. -/
def asked (letters : Nat → Letter) (e : Nat) : Nat → Letter :=
  Function.update letters e { letters e with recving := true }

/-- `sys_ipc_try_send` of a word to the environment `e`. -/
def handedOver (letters : Nat → Letter) (e : Nat) (value : UInt32) :
    Nat → Letter :=
  Function.update letters e { recving := false, value := value }

section Traps

variable {build : Build} {cpu c : Nat} {kernel next : Kernel}
variable {frame : Trapframe} {surroundings : Surroundings} {faultVa : UInt32}

theorem lettersOf_update (mail : Nat → Mail) (e : Nat) (changed : Mail) :
    lettersOf (Function.update mail e changed) =
      Function.update (lettersOf mail) e
        { recving := changed.recving, value := changed.value } := by
  funext f
  unfold lettersOf
  by_cases same : f = e
  · subst same
    simp only [Function.update_self]
  · simp only [Function.update_of_ne same]

/-- The answer of a call and the saved registers are no part of a letter. -/
theorem lettersOf_eax (mail : Nat → Mail) (c : Nat) (eax : UInt32) :
    lettersOf (Function.update mail c { mail c with eax := eax }) =
      lettersOf mail := by
  rw [lettersOf_update]
  exact Function.update_eq_self c (lettersOf mail)

theorem lettersOf_answered (mail : Nat → Mail) (c : Nat) (answer : Option Int) :
    lettersOf (answered c mail answer) = lettersOf mail := by
  cases answer with
  | none => rfl
  | some r => exact lettersOf_eax mail c _

theorem lettersOf_saveFrame (kernel : Kernel) (c : Nat) (frame : Trapframe) :
    lettersOf (kernel.saveFrame c frame).mail = lettersOf kernel.mail := by
  rw [mail_saveFrame]
  exact lettersOf_eax kernel.mail c _

/-- What a trap of `c` does to the letters: `sys_ipc_recv` asks for one,
`sys_ipc_try_send` of a word hands one over to an environment that asks and fails
otherwise, and everything else leaves them alone. -/
structure LettersAfter (kernel next : Kernel) (cpu c : Nat) (frame : Trapframe) :
    Prop where
  receives : frame.Calls 12 →
    lettersOf next.mail = asked (lettersOf kernel.mail) c
  sends : frame.Calls 11 → ∀ dst,
    kernel.Finds cpu frame.tfRegs.regEdx false dst →
    (kernel.mail dst).recving = true → utop ≤ frame.tfRegs.regEbx →
      lettersOf next.mail =
          handedOver (lettersOf kernel.mail) dst frame.tfRegs.regEcx ∧
        (next.mail c).eax = 0
  fails : frame.Calls 11 → ∀ dst,
    kernel.Finds cpu frame.tfRegs.regEdx false dst →
    (kernel.mail dst).recving = false →
      lettersOf next.mail = lettersOf kernel.mail ∧
        (next.mail c).eax = (Int32.ofInt (-eIpcNotRecv)).toUInt32
  others : ¬ frame.Calls 11 → ¬ frame.Calls 12 →
    lettersOf next.mail = lettersOf kernel.mail

theorem not_calls_both (sends : frame.Calls 11) : ¬ frame.Calls 12 :=
  fun receives => absurd (sends.2.symm.trans receives.2) (by decide)

theorem lettersAfter_of_leftTrap
    (left : LeftTrap (kernel.saveFrame c frame) cpu c frame next) :
    LettersAfter kernel next cpu c frame := by
  obtain ⟨answer, mail, census, exchange, left⟩ := left
  have letters : lettersOf next.mail = lettersOf mail := by
    rw [left.holds]
    exact lettersOf_answered mail c answer
  have saved := lettersOf_saveFrame kernel c frame
  cases exchange with
  | quiet notSends notReceives =>
      exact
        { receives := fun receives => absurd receives notReceives
          sends := fun sends => absurd sends notSends
          fails := fun sends => absurd sends notSends
          others := fun _ _ => letters.trans saved }
  | blocks receives | refuses receives =>
      have notSends : ¬ frame.Calls 11 := fun sends =>
        not_calls_both sends receives
      rw [lettersOf_update] at letters
      exact
        { receives := fun _ => by
            rw [letters, saved]
            exact congrArg (fun here : Letter =>
              Function.update (lettersOf kernel.mail) c
                { here with recving := true }) (congrFun saved c)
          sends := fun sends => absurd sends notSends
          fails := fun sends => absurd sends notSends
          others := fun _ notReceives => absurd receives notReceives }
  | @fails r sends failed answers =>
      have answers := answers.of_saveFrame
      have code : (next.mail c).eax = (Int32.ofInt r).toUInt32 :=
        eax_of_left left
      exact
        { receives := fun receives => absurd receives (not_calls_both sends)
          sends := fun _ dst finds receives isWord =>
            absurd (answers.word dst finds receives isWord) failed
          fails := fun _ dst finds deaf => by
            rw [code, answers.deaf dst finds deaf]
            exact ⟨letters.trans saved, rfl⟩
          others := fun notSends => absurd sends notSends }
  | @delivers dst sends finds receives answers =>
      have finds := finds_saveFrame.mp finds
      have receives := recving_saveFrame.symm.trans receives
      have success : (next.mail c).eax = 0 := eax_of_left left
      rw [lettersOf_update] at letters
      exact
        { receives := fun receives => absurd receives (not_calls_both sends)
          sends := fun _ other found _ _ => by
            rw [letters, saved, found.unique finds]
            exact ⟨rfl, success⟩
          fails := fun _ other found deaf => by
            rw [← found.unique finds] at deaf
            cases deaf.symm.trans receives
          others := fun notSends => absurd sends notSends }

/-- The letters after a trap that neither creates nor destroys an environment. -/
theorem lettersAfter_trap (current : kernel.cpus cpu = some c)
    (alive : (kernel.envs c).envStatus ≠ .dying) (peaceful : frame.Peaceful)
    (leaves : trap build surroundings cpu frame faultVa kernel = .leaves next) :
    LettersAfter kernel next cpu c frame := by
  have traps : Triple (· = kernel)
      (trap build surroundings cpu frame faultVa) (fun _ _ => False) _ :=
    triple_trap_exchange current alive peaceful
  have left := traps.run kernel rfl
  rw [leaves] at left
  exact lettersAfter_of_leftTrap left

end Traps

/-! ## The chain with its calls -/

/-- The environment is about to call `ipc_recv`. -/
def PrimesPoint.receives : PrimesPoint → Bool
  | top | recv _ _ => true
  | _ => false

/-- The target and the number of an `ipc_send`, and what comes behind it. -/
def PrimesPoint.sending : PrimesPoint → Option (Nat × Nat × PrimesPoint)
  | feed id i => some (id, i, feed id (i + 1))
  | send p id i => some (id, i, recv p id)
  | _ => none

structure PrimesCalls where
  chain : PrimesState
  letters : Nat → Letter
  /-- whether the environment is in `sys_ipc_recv` -/
  inside : Nat → Bool

/-- A step of the environment `e`, which makes one system call at a time; the calls
change the letters as `LettersAfter` says.  An environment that has asked runs again
once it has been handed a letter. -/
inductive PrimesCallStep (e : Nat) : PrimesCalls → PrimesCalls → Prop where
  | asks {state : PrimesCalls} :
      e < state.chain.count → (state.chain.point e).receives = true →
      state.inside e = false →
      PrimesCallStep e state
        { state with
          letters := asked state.letters e
          inside := Function.update state.inside e true }
  | reads {state : PrimesCalls} {point : PrimesPoint} :
      state.inside e = true → (state.letters e).recving = false →
      (state.chain.point e).received (state.letters e).value.toNat = some point →
      PrimesCallStep e state
        { state with
          chain := state.chain.goTo e point
          inside := Function.update state.inside e false }
  | delivers {state : PrimesCalls} {id i : Nat} {point : PrimesPoint} :
      e < state.chain.count →
      (state.chain.point e).sending = some (id, i, point) →
      (state.letters id).recving = true →
      PrimesCallStep e state
        { state with
          chain := state.chain.goTo e point
          letters := handedOver state.letters id (UInt32.ofNat i) }
  | yields {state : PrimesCalls} {id i : Nat} {point : PrimesPoint} :
      (state.chain.point e).sending = some (id, i, point) →
      (state.letters id).recving = false →
      PrimesCallStep e state state
  | runs {state : PrimesCalls} {after : PrimesState} :
      (state.chain.point e).sending = none →
      PrimesStep e state.chain after →
      PrimesCallStep e state { state with chain := after }

/-- `primes` with its system calls. -/
def primesCalls : Machine PrimesCalls Nat where
  Initial state := primes.Initial state.chain ∧
    ∀ e, (state.letters e).recving = false ∧ state.inside e = false
  Step state e next := PrimesCallStep e state next

/-- The number that the environment sends is an `int`. -/
def PrimesCalls.SendsInt (state : PrimesCalls) (e : Nat) : Prop :=
  ∀ id i point, (state.chain.point e).sending = some (id, i, point) →
    i < 2147483648

/-- The point of an environment once it has read the number in its letter. -/
def PrimesPoint.seen (point : PrimesPoint) (inside : Bool) (letter : Letter) :
    PrimesPoint :=
  if inside = true ∧ letter.recving = false then
    (point.received letter.value.toNat).getD point
  else point

namespace PrimesCalls

/-- The chain as it is once every number that stands in a letter has been read. -/
def view (state : PrimesCalls) : PrimesState :=
  { state.chain with
    point := fun e =>
      (state.chain.point e).seen (state.inside e) (state.letters e) }

/-- Who is in `sys_ipc_recv` has called it from `ipc_recv`, and nobody else has
asked for a letter. -/
structure Waits (state : PrimesCalls) : Prop where
  receives : ∀ e, state.inside e = true →
    e < state.chain.count ∧ (state.chain.point e).receives = true
  asks : ∀ e, (state.letters e).recving = true → state.inside e = true

variable {state : PrimesCalls} {e id i : Nat} {point : PrimesPoint}

theorem view_point_of_outside (outside : state.inside e = false) :
    state.view.point e = state.chain.point e := by
  refine if_neg fun served => ?_
  cases outside.symm.trans served.1

theorem view_point_of_asking (asking : (state.letters e).recving = true) :
    state.view.point e = state.chain.point e := by
  refine if_neg fun served => ?_
  cases asking.symm.trans served.2

/-- Who has been handed a letter counts as having read it. -/
theorem view_point_of_served (inside : state.inside e = true)
    (served : (state.letters e).recving = false)
    (received : (state.chain.point e).received (state.letters e).value.toNat =
      some point) : state.view.point e = point := by
  have same : state.view.point e =
      ((state.chain.point e).received (state.letters e).value.toNat).getD
        (state.chain.point e) :=
    if_pos ⟨inside, served⟩
  rw [same, received]
  rfl

/-- A view that differs at most in its points. -/
theorem view_eq {abstract : PrimesState}
    (count : state.chain.count = abstract.count)
    (printed : state.chain.printed = abstract.printed)
    (points : ∀ e, state.view.point e = abstract.point e) :
    state.view = abstract := by
  cases abstract
  cases count
  cases printed
  exact congrArg (PrimesState.mk _ · _) (funext points)

/-- What `e` does outside of `sys_ipc_recv` is seen. -/
theorem view_goTo (outside : state.inside e = false) (point : PrimesPoint) :
    ({ state with chain := state.chain.goTo e point } : PrimesCalls).view =
      state.view.goTo e point := by
  refine view_eq rfl rfl fun f => ?_
  by_cases same : f = e
  · subst same
    refine Eq.trans (view_point_of_outside outside) ?_
    simp [PrimesState.goTo]
  · simp [view, PrimesState.goTo, Function.update_of_ne same]

theorem view_forks (outside : state.inside e = false)
    (fresh : state.inside state.chain.count = false)
    (parent : Nat → PrimesPoint) :
    ({ state with chain := state.chain.forks e parent } : PrimesCalls).view =
      state.view.forks e parent := by
  have moved := view_goTo outside (parent state.chain.count)
  have born := @view_goTo
    { state with chain := state.chain.goTo e (parent state.chain.count) }
    state.chain.count fresh .top
  rw [moved] at born
  exact congrArg (fun chain : PrimesState =>
    { chain with count := state.chain.count + 1 }) born

end PrimesCalls

/-! ## The rendezvous -/

variable {state next : PrimesCalls} {e id i : Nat} {point point' : PrimesPoint}

theorem PrimesPoint.received_of_receives (receives : point.receives = true)
    (value : Nat) : ∃ after, point.received value = some after := by
  cases point with
  | top => exact ⟨_, rfl⟩
  | recv p id => exact ⟨_, rfl⟩
  | start | feed _ _ | print _ | fork _ | test _ _ _ | send _ _ _ | panics =>
      cases receives

theorem PrimesPoint.not_receives_of_sending {sent : Nat × Nat × PrimesPoint}
    (sends : point.sending = some sent) : point.receives = false := by
  cases point with
  | feed id i | send p id i => rfl
  | start | top | print _ | fork _ | recv _ _ | test _ _ _ | panics =>
      cases sends

namespace PrimesCalls.Waits

theorem outside (waits : state.Waits)
    (elsewhere : (state.chain.point e).receives = false) :
    state.inside e = false := by
  cases inside : state.inside e with
  | false => rfl
  | true => cases elsewhere.symm.trans (waits.receives e inside).2

theorem fresh (waits : state.Waits) : state.inside state.chain.count = false := by
  cases inside : state.inside state.chain.count with
  | false => rfl
  | true => exact absurd (waits.receives _ inside).1 (Nat.lt_irrefl _)

/-- A step of `e` outside of `sys_ipc_recv` that creates no environment. -/
theorem goTo (waits : state.Waits) (outside : state.inside e = false)
    (point : PrimesPoint) :
    ({ state with chain := state.chain.goTo e point } : PrimesCalls).Waits := by
  refine ⟨fun f inside => ?_, waits.asks⟩
  obtain ⟨below, receives⟩ := waits.receives f inside
  have other : f ≠ e := by
    rintro rfl
    cases outside.symm.trans inside
  refine ⟨below, ?_⟩
  change (Function.update state.chain.point e point f).receives = true
  rw [Function.update_of_ne other]
  exact receives

theorem forks (waits : state.Waits) (outside : state.inside e = false)
    (parent : Nat → PrimesPoint) :
    ({ state with chain := state.chain.forks e parent } : PrimesCalls).Waits := by
  have moved := waits.goTo outside (parent state.chain.count)
  have born := moved.goTo waits.fresh .top
  exact ⟨fun f inside => ⟨Nat.lt_succ_of_lt (born.receives f inside).1,
    (born.receives f inside).2⟩, born.asks⟩

theorem asked (waits : state.Waits) (below : e < state.chain.count)
    (receives : (state.chain.point e).receives = true) :
    ({ state with
      letters := asked state.letters e
      inside := Function.update state.inside e true } : PrimesCalls).Waits := by
  constructor
  · intro f inside
    change Function.update state.inside e true f = true at inside
    by_cases same : f = e
    · subst same
      exact ⟨below, receives⟩
    · refine waits.receives f ?_
      rwa [Function.update_of_ne same] at inside
  · intro f asking
    change Function.update state.inside e true f = true
    by_cases same : f = e
    · rw [same, Function.update_self]
    · rw [Function.update_of_ne same]
      apply waits.asks
      change (Function.update state.letters e _ f).recving = true at asking
      rwa [Function.update_of_ne same] at asking

theorem read (waits : state.Waits) (served : (state.letters e).recving = false)
    (point : PrimesPoint) :
    ({ state with
      chain := state.chain.goTo e point
      inside := Function.update state.inside e false } : PrimesCalls).Waits := by
  constructor
  · intro f inside
    change Function.update state.inside e false f = true at inside
    by_cases same : f = e
    · rw [same, Function.update_self] at inside
      cases inside
    · rw [Function.update_of_ne same] at inside
      obtain ⟨below, receives⟩ := waits.receives f inside
      refine ⟨below, ?_⟩
      change (Function.update state.chain.point e point f).receives = true
      rwa [Function.update_of_ne same]
  · intro f asking
    change Function.update state.inside e false f = true
    by_cases same : f = e
    · rw [same] at asking
      cases asking.symm.trans served
    · rw [Function.update_of_ne same]
      exact waits.asks f asking

theorem handedOver (waits : state.Waits) (id : Nat) (value : UInt32) :
    ({ state with letters := handedOver state.letters id value } :
      PrimesCalls).Waits := by
  refine ⟨waits.receives, fun f asking => waits.asks f ?_⟩
  by_cases same : f = id
  · rw [same] at asking
    change (Function.update state.letters id _ id).recving = true at asking
    rw [Function.update_self] at asking
    cases asking
  · change (Function.update state.letters id _ f).recving = true at asking
    rwa [Function.update_of_ne same] at asking

end PrimesCalls.Waits

namespace PrimesCalls

/-- A call of `sys_ipc_recv` is not seen. -/
theorem view_asked (outside : state.inside e = false) :
    ({ state with
      letters := asked state.letters e
      inside := Function.update state.inside e true } : PrimesCalls).view =
      state.view := by
  refine view_eq rfl rfl fun f => ?_
  by_cases same : f = e
  · subst same
    rw [view_point_of_outside outside]
    apply view_point_of_asking
    change (Function.update state.letters f _ f).recving = true
    rw [Function.update_self]
  · simp [view, asked, Function.update_of_ne same]

/-- What a receiver reads has been seen before. -/
theorem view_read (inside : state.inside e = true)
    (served : (state.letters e).recving = false)
    (received : (state.chain.point e).received (state.letters e).value.toNat =
      some point) :
    ({ state with
      chain := state.chain.goTo e point
      inside := Function.update state.inside e false } : PrimesCalls).view =
      state.view := by
  refine view_eq rfl rfl fun f => ?_
  by_cases same : f = e
  · subst same
    rw [view_point_of_served inside served received]
    have outside : Function.update state.inside f false f = false :=
      Function.update_self f false state.inside
    refine Eq.trans (view_point_of_outside outside) ?_
    exact Function.update_self f point state.chain.point
  · simp [view, PrimesState.goTo, Function.update_of_ne same]

/-- A number that is handed over is seen at once. -/
theorem view_handedOver (asking : (state.letters id).recving = true)
    (inside : state.inside id = true) (isInt : i < 2147483648)
    (received : (state.chain.point id).received i = some point) :
    ({ state with letters := handedOver state.letters id (UInt32.ofNat i) } :
      PrimesCalls).view = state.view.goTo id point := by
  have number : (UInt32.ofNat i).toNat = i :=
    UInt32.toNat_ofNat_of_lt' (Nat.lt_trans isInt (by decide))
  refine view_eq rfl rfl fun f => ?_
  change _ = Function.update state.view.point id point f
  by_cases same : f = id
  · subst same
    rw [Function.update_self]
    refine view_point_of_served inside ?_ ?_
    · simp [handedOver]
    · simp only [handedOver, Function.update_self, number]
      exact received
  · rw [Function.update_of_ne same]
    simp [view, handedOver, Function.update_of_ne same]

end PrimesCalls

theorem PrimesStep.of_sending {chain : PrimesState}
    (below : e < chain.count)
    (sends : (chain.point e).sending = some (id, i, point))
    (receives : (chain.point id).received i = some point') :
    PrimesStep e chain ((chain.goTo e point).goTo id point') := by
  cases here : chain.point e with
  | feed target number =>
      rw [here] at sends
      cases sends
      exact .feeds below here receives
  | send p target number =>
      rw [here] at sends
      cases sends
      exact .sends below here receives
  | start | top | print _ | fork _ | recv _ _ | test _ _ _ | panics =>
      rw [here] at sends
      cases sends

/-- Who is at no `ipc_recv` is seen where it is. -/
theorem PrimesCalls.Waits.elsewhere (waits : state.Waits)
    (here : state.chain.point e = point) (notReceives : point.receives = false) :
    state.inside e = false ∧ state.view.point e = point := by
  have outside := waits.outside (here ▸ notReceives)
  exact ⟨outside, (PrimesCalls.view_point_of_outside outside).trans here⟩

/-- The steps that send nothing are those of the rendezvous. -/
theorem PrimesCalls.Waits.runs (waits : state.Waits)
    (quiet : (state.chain.point e).sending = none) {after : PrimesState}
    (step : PrimesStep e state.chain after) :
    ({ state with chain := after } : PrimesCalls).Waits ∧
      PrimesStep e state.view ({ state with chain := after } : PrimesCalls).view := by
  cases step with
  | starts below here =>
      obtain ⟨outside, seen⟩ := waits.elsewhere here rfl
      rw [PrimesCalls.view_forks outside waits.fresh]
      exact ⟨waits.forks outside _, .starts below seen⟩
  | startFails below here =>
      obtain ⟨outside, seen⟩ := waits.elsewhere here rfl
      rw [PrimesCalls.view_goTo outside]
      exact ⟨waits.goTo outside _, .startFails below seen⟩
  | feeds below here => rw [here] at quiet; cases quiet
  | @prints p below here =>
      obtain ⟨outside, seen⟩ := waits.elsewhere here rfl
      have printed : ({ state with
          chain := { state.chain.goTo e (.fork p) with
            printed := state.chain.printed ++ [p] } } : PrimesCalls).view =
          { state.view.goTo e (.fork p) with
            printed := state.view.printed ++ [p] } :=
        congrArg (fun chain : PrimesState =>
          { chain with printed := state.chain.printed ++ [p] })
          (PrimesCalls.view_goTo outside (.fork p))
      rw [printed]
      exact ⟨⟨(waits.goTo outside (.fork p)).receives, waits.asks⟩,
        .prints below seen⟩
  | forks below here =>
      obtain ⟨outside, seen⟩ := waits.elsewhere here rfl
      rw [PrimesCalls.view_forks outside waits.fresh]
      exact ⟨waits.forks outside _, .forks below seen⟩
  | forkFails below here =>
      obtain ⟨outside, seen⟩ := waits.elsewhere here rfl
      rw [PrimesCalls.view_goTo outside]
      exact ⟨waits.goTo outside _, .forkFails below seen⟩
  | drops below here divides =>
      obtain ⟨outside, seen⟩ := waits.elsewhere here rfl
      rw [PrimesCalls.view_goTo outside]
      exact ⟨waits.goTo outside _, .drops below seen divides⟩
  | passes below here remains =>
      obtain ⟨outside, seen⟩ := waits.elsewhere here rfl
      rw [PrimesCalls.view_goTo outside]
      exact ⟨waits.goTo outside _, .passes below seen remains⟩
  | sends below here => rw [here] at quiet; cases quiet

/-- Handing a number over is the step of the rendezvous; every other system call is
not seen. -/
theorem simulates_primes :
    primesCalls.Simulates primes PrimesCalls.SendsInt Machine.Unrestricted
      (fun state abstract => state.Waits ∧ state.view = abstract) := by
  constructor
  · rintro state ⟨initial, quiet⟩
    have outside : ∀ e, state.inside e = false := fun e => (quiet e).2
    have same : state.view = state.chain :=
      PrimesCalls.view_eq rfl rfl fun e =>
        PrimesCalls.view_point_of_outside (outside e)
    refine ⟨state.chain, initial, ⟨fun e inside => ?_, fun e asking => ?_⟩, same⟩
    · cases (outside e).symm.trans inside
    · cases (quiet e).1.symm.trans asking
  · rintro state e next _ ⟨waits, rfl⟩ sendsInt step
    cases step with
    | asks below receives outside =>
        exact .inl ⟨waits.asked below receives, PrimesCalls.view_asked outside⟩
    | reads inside served received =>
        exact .inl ⟨waits.read served _,
          PrimesCalls.view_read inside served received⟩
    | yields sends deaf => exact .inl ⟨waits, rfl⟩
    | runs quiet step =>
        obtain ⟨waits', step'⟩ := waits.runs quiet step
        exact .inr (.inr ⟨e, _, trivial, step', waits', rfl⟩)
    | @delivers id i point below sends asking =>
        have outside := waits.outside (PrimesPoint.not_receives_of_sending sends)
        have inside := waits.asks id asking
        obtain ⟨point', received⟩ := PrimesPoint.received_of_receives
          (waits.receives id inside).2 i
        have other : id ≠ e := by
          rintro rfl
          cases outside.symm.trans inside
        have moved := waits.goTo outside point
        have isInt := sendsInt id i point sends
        have sameReceived : ((state.chain.goTo e point).point id).received i =
            some point' := by
          change (Function.update state.chain.point e point id).received i = _
          rw [Function.update_of_ne other]
          exact received
        have seen : ({ state with
            chain := state.chain.goTo e point
            letters := handedOver state.letters id (UInt32.ofNat i) } :
              PrimesCalls).view = (state.view.goTo e point).goTo id point' := by
          rw [← PrimesCalls.view_goTo outside]
          exact @PrimesCalls.view_handedOver
            { state with chain := state.chain.goTo e point } id i point' asking
            inside isInt sameReceived
        have sends' : (state.view.point e).sending = some (id, i, point) := by
          rw [PrimesCalls.view_point_of_outside outside]
          exact sends
        have received' : (state.view.point id).received i = some point' := by
          rw [PrimesCalls.view_point_of_asking asking]
          exact received
        exact .inr (.inr ⟨e, _, trivial, .of_sending below sends' received',
          moved.handedOver id _, seen⟩)

/-- With its system calls the chain prints the primes, as long as no number
overflows an `int`. -/
theorem primesCalls_printed
    (reachable : primesCalls.Reachable PrimesCalls.SendsInt state) :
    state.chain.printed =
        (List.range state.chain.printed.length).map Sieve.prime ∧
      state.chain.printed.length < state.chain.count ∧
      state.chain.count ≤ state.chain.printed.length + 2 := by
  obtain ⟨_, reached, -, rfl⟩ := simulates_primes.reachable reachable
  obtain ⟨got, sieves⟩ := primes_sieves reached
  exact ⟨sieves.printed, sieves.count_bounds⟩

end FeaturesOS.Scheduler

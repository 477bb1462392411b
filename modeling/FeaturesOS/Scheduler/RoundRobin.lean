import FeaturesOS.Scheduler.Orderly

/-!
# Overtaking in the round robin

While an environment stays runnable, every environment that `sched_yield`
dispatches on one processor stands closer to it in the round than the one before.
This needs that the search goes on behind the environment that ran last: where
that one has been destroyed the search starts at `envs[0]` again.
-/

namespace FeaturesOS.Scheduler

open Entry

variable {e : Nat} {census next : Census} {deed : Deed}

/-- The number of environments that a round from `start` on tries before `e`. -/
def turno (start e : Nat) : Nat := (e + nenv - start % nenv) % nenv

/-! ## The round -/

theorem turno_lt (start e : Nat) : turno start e < nenv :=
  Nat.mod_lt _ (by decide)

theorem ronda_turno {start : Nat} (inTable : e < nenv) :
    (start + turno start e) % nenv = e := by
  unfold turno
  unfold nenv at inTable ⊢
  omega

/-- The first number that a search finds. -/
theorem first_of_find {size found : Nat} {place : Nat → Nat} {may : Nat → Bool}
    (finds : ((List.range size).map place).find? may = some found) :
    ∃ i, i < size ∧ found = place i ∧ ∀ j, j < i → may (place j) = false := by
  rw [List.find?_map] at finds
  obtain ⟨i, first, rfl⟩ := Option.map_eq_some_iff.mp finds
  obtain ⟨-, member, before⟩ := List.find?_range_eq_some.mp first
  refine ⟨i, List.mem_range.mp member, rfl, fun j earlier => ?_⟩
  simpa using before j earlier

/-- The round finds an environment before every other one that it may find, and
then that one stands closer. -/
theorem turno_of_find {start found : Nat} {may : Nat → Bool}
    (finds : (Kernel.rondaDesde start).find? may = some found)
    (inTable : e < nenv) (isOne : may e = true) (different : e ≠ found) :
    found < nenv ∧ turno (found + 1) e < turno start e := by
  unfold Kernel.rondaDesde at finds
  obtain ⟨i, small, rfl, before⟩ := first_of_find finds
  have here : (start + turno start e) % nenv = e := ronda_turno inTable
  have bound := turno_lt start e
  have notAfter : ¬ turno start e < i := by
    intro earlier
    have passed := before (turno start e) earlier
    rw [here, isOne] at passed
    cases passed
  have notSame : turno start e ≠ i := by
    intro same
    apply different
    rw [← same, here]
  refine ⟨Nat.mod_lt _ (by decide), ?_⟩
  unfold turno at *
  unfold nenv at *
  omega

/-! ## One processor -/

namespace Census

/-- Only the processor 0 runs an environment, and its status says so. -/
structure Solo (census : Census) : Prop where
  others : ∀ cpu, cpu ≠ 0 → census.roster.current cpu = none
  own : ∀ c, census.roster.current 0 = some c →
    census.roster.status c = .running

/-- The environment that a processor takes is running. -/
theorem Leaves.own {build : Build} {cpu c : Nat}
    (left : census.Leaves build cpu next)
    (current : next.roster.current cpu = some c) :
    next.roster.status c = .running := by
  have dispatched : ∀ (roster : Roster) (f : Nat),
      (roster.dispatch cpu f).current cpu = some c →
      (roster.dispatch cpu f).status c = .running := by
    intro roster f isCurrent
    rw [Roster.dispatch_current, Function.update_self] at isCurrent
    rw [Roster.dispatch_status, if_pos (Option.some.inj isCurrent).symm]
  cases left with
  | resumes _ _ => exact dispatched _ _ current
  | picks _ _ _ => exact dispatched _ _ current
  | stays _ _ _ _ => exact dispatched _ _ current
  | halts _ _ => simp [onRoster, Roster.setCurrent] at current

/-- A deed keeps the current environment, or it ends it. -/
theorem current_afterDeed {cpu : Nat} (fits : census.Fits cpu deed) :
    (census.afterDeed cpu deed).roster.current cpu = census.roster.current cpu ∨
      ∃ c, deed = .exit c ∧ census.roster.current cpu = some c ∧
        (census.afterDeed cpu deed).roster.current cpu = none := by
  cases deed with
  | exit c =>
      exact .inr ⟨c, rfl, fits.1, Function.update_self ..⟩
  | nothing => exact .inl rfl
  | setStatus e status => exact .inl rfl
  | mark e => exact .inl rfl
  | release e => exact .inl rfl
  | create e status => exact .inl rfl

theorem siguiente_ne_none {cpu : Nat} (inTable : e < nenv)
    (runnable : census.roster.status e = .runnable) :
    census.siguiente cpu ≠ none := by
  intro nothing
  unfold siguiente at nothing
  have member : e ∈ Kernel.rondaDesde (census.indexInicial cpu) := by
    unfold Kernel.rondaDesde
    refine List.mem_map.mpr
      ⟨turno (census.indexInicial cpu) e, ?_, ronda_turno inTable⟩
    exact List.mem_range.mpr (turno_lt _ e)
  have passed := List.find?_eq_none.mp nothing e member
  exact passed (decide_eq_true runnable)

/-- While `e` stays runnable, the processor goes on with its environment, or
`sched_yield` picks another one than `e`. -/
theorem goesOn_or_picks (solo : census.Solo) (fits : census.Fits 0 deed)
    (left : (census.afterDeed 0 deed).Leaves .roundRobin 0 next)
    (inTable : e < nenv) (before : census.roster.status e = .runnable)
    (after : next.roster.status e = .runnable) :
    next.yields = (census.afterDeed 0 deed).yields ∧
        next.roster.current 0 = census.roster.current 0 ∨
      ∃ f, (census.afterDeed 0 deed).siguiente 0 = some f ∧
        (census.afterDeed 0 deed).roster.status e = .runnable ∧ e ≠ f ∧
        next.yields = (census.afterDeed 0 deed).yields + 1 ∧
        next.roster.current 0 = some f := by
  have keeps := current_afterDeed fits
  generalize census.afterDeed 0 deed = middle at left keeps
  have notOwn : middle.roster.current 0 ≠ some e := by
    intro current
    rcases keeps with same | ⟨c, -, -, gone⟩
    · rw [same] at current
      rw [solo.own e current] at before
      cases before
    · rw [gone] at current
      cases current
  have dispatched : ∀ f, (middle.roster.dispatch 0 f).status e = .runnable →
      e ≠ f ∧ middle.roster.status e = .runnable := by
    intro f runnable
    rw [Roster.dispatch_status] at runnable
    split at runnable
    · cases runnable
    · rename_i different
      rw [if_neg fun both => notOwn both.1] at runnable
      exact ⟨different, runnable⟩
  cases left with
  | @resumes f current _ =>
      left
      refine ⟨rfl, ?_⟩
      change (middle.roster.dispatch 0 f).current 0 = _
      rw [Roster.dispatch_current, Function.update_self]
      rcases keeps with same | ⟨c, -, -, gone⟩
      · rw [← same, current]
      · rw [gone] at current
        cases current
  | @picks f runnable _ first =>
      right
      obtain ⟨different, still⟩ := dispatched f after
      refine ⟨f, first rfl, still, different, rfl, ?_⟩
      change (middle.roster.dispatch 0 f).current 0 = _
      rw [Roster.dispatch_current, Function.update_self]
  | @stays f _ _ _ last =>
      obtain ⟨-, still⟩ := dispatched f after
      exact absurd (last rfl) (siguiente_ne_none inTable still)
  | halts _ last =>
      exact absurd (last rfl) (siguiente_ne_none inTable after)

/-- Only a new environment gets a new identifier. -/
theorem envId_afterDeed {cpu c : Nat} (orderly : census.Orderly)
    (fits : census.Fits cpu deed) (hasPgdir : census.roster.hasPgdir c = true) :
    (census.afterDeed cpu deed).envId c = census.envId c := by
  cases deed with
  | create f status =>
      have different : c ≠ f := by
        rintro rfl
        rw [(orderly.head fits.1).1] at hasPgdir
        cases hasPgdir
      simp [afterDeed, different]
  | nothing => rfl
  | setStatus e status => rfl
  | mark e => rfl
  | release e => rfl
  | exit e => rfl

end Census

/-! ## Events -/

/-- The trap happens on the processor 0, and where it destroys the environment
that traps, a search from `envs[0]` on finds what the search behind that
environment finds. -/
def TrapEvent.KeepsPlace (kernel : Kernel) (event : TrapEvent) : Prop :=
  event.cpu = 0 ∧ ∀ c, event.Asks kernel (.exit c) → kernel.cpus 0 = some c →
    (Kernel.rondaDesde 0).find? (fun f => decide (kernel.Runnable f)) =
      kernel.siguienteEnRonda 0

/-- The environment that `sched_yield` has dispatched on the processor 0. -/
def Kernel.dispatched (kernel next : Kernel) : Option Nat :=
  if next.runsDelSched = kernel.runsDelSched then none else next.cpus 0

/-- What is picked after the environment `c` is found behind it. -/
theorem found_behind {kernel : Kernel} {event : TrapEvent} {c f : Nat}
    (orderly : kernel.census.Orderly) (solo : kernel.census.Solo)
    (asks : event.Asks kernel deed) (fits : kernel.census.Fits 0 deed)
    (place : event.KeepsPlace kernel) (current : kernel.cpus 0 = some c)
    (before : kernel.Runnable e)
    (still : (kernel.census.afterDeed 0 deed).roster.status e = .runnable)
    (picks : (kernel.census.afterDeed 0 deed).siguiente 0 = some f) :
    ∃ may, (Kernel.rondaDesde (c + 1)).find? may = some f ∧ may e = true := by
  have running : kernel.census.roster.status c = .running := solo.own c current
  have hasPgdir := orderly.mapped c (.inl running)
  have slot : envx ((kernel.envs c).envId) = c := orderly.slots c hasPgdir
  rcases Census.current_afterDeed fits with same | ⟨own, rfl, isOwn, gone⟩
  · refine ⟨fun g => decide
      ((kernel.census.afterDeed 0 deed).roster.status g = .runnable), ?_,
      decide_eq_true still⟩
    have start : (kernel.census.afterDeed 0 deed).indexInicial 0 = c + 1 := by
      unfold Census.indexInicial
      rw [same, show kernel.census.roster.current 0 = some c from current]
      dsimp only
      rw [Census.envId_afterDeed orderly fits hasPgdir]
      exact congrArg (· + 1) slot
    rw [← start]
    exact picks
  · have sameEnv : own = c := Option.some.inj (isOwn.symm.trans current)
    subst own
    refine ⟨fun f => decide (kernel.Runnable f), ?_, decide_eq_true before⟩
    have start : kernel.siguienteEnRonda 0 =
        (Kernel.rondaDesde (c + 1)).find?
          fun f => decide (kernel.Runnable f) := by
      unfold Kernel.siguienteEnRonda
      rw [current]
      dsimp only
      rw [slot]
    -- Neither the running nor the freed environment may be found.
    have sameMay : (fun g => decide
        ((kernel.census.afterDeed 0 (.exit c)).roster.status g = .runnable)) =
          fun g => decide (kernel.Runnable g) := by
      funext g
      by_cases own : g = c
      · subst g
        have notRunnable : ¬ kernel.Runnable c := by
          intro runnable
          rw [show kernel.census.roster.status c = .runnable from runnable]
            at running
          cases running
        simp [Census.afterDeed, Census.onRoster, Roster.release,
          Roster.setCurrent, notRunnable]
      · have unchanged :
            (kernel.census.afterDeed 0 (.exit c)).roster.status g =
              kernel.census.roster.status g := by
          simp [Census.afterDeed, Census.onRoster, Roster.release,
            Roster.setCurrent, own]
        rw [unchanged]
        rfl
    unfold Census.siguiente Census.indexInicial at picks
    rw [gone, sameMay] at picks
    rw [← start, ← place.2 c asks current]
    exact picks

/-- The environments dispatched so far stand no closer to `e` than the current
one. -/
structure Ordered (e : Nat) (picked : List Nat) (kernel : Kernel) : Prop where
  nodup : picked.Nodup
  order : picked = [] ∨ ∃ c, kernel.cpus 0 = some c ∧
    ∀ d ∈ picked, turno (c + 1) e ≤ turno (d + 1) e

variable {picked : List Nat} {kernel after : Kernel} {event : TrapEvent}

theorem Ordered.pick {c f : Nat} (ordered : Ordered e picked kernel)
    (current : kernel.cpus 0 = some c) (closer : turno (f + 1) e < turno (c + 1) e)
    (dispatched : after.cpus 0 = some f) : Ordered e (picked ++ [f]) after := by
  have further : ∀ d ∈ picked, turno (c + 1) e ≤ turno (d + 1) e := by
    rcases ordered.order with rfl | ⟨here, isHere, further⟩
    · intro d member
      cases member
    · have same : here = c := Option.some.inj (isHere.symm.trans current)
      rwa [same] at further
  have fresh : f ∉ picked := by
    intro member
    have far := further f member
    omega
  constructor
  · refine List.nodup_append.mpr ⟨ordered.nodup, List.nodup_singleton f, ?_⟩
    intro d member g isF same
    rw [List.mem_singleton.mp isF] at same
    exact fresh (same ▸ member)
  · refine .inr ⟨f, dispatched, ?_⟩
    intro d member
    rcases List.mem_append.mp member with old | isF
    · have far := further d old
      omega
    · cases List.mem_singleton.mp isF
      exact Nat.le_refl _

theorem ordered_of_step (orderly : kernel.census.Orderly)
    (solo : kernel.census.Solo) (place : event.KeepsPlace kernel)
    (step : (smp .roundRobin).Step kernel event after) (inTable : e < nenv)
    (before : kernel.Runnable e) (still : after.Runnable e)
    (ordered : Ordered e picked kernel) :
    Ordered e (picked ++ (kernel.dispatched after).toList) after := by
  obtain ⟨deed, asks, fits, left⟩ := deed_of_entry step.2
  rw [place.1] at fits left
  have yields : (kernel.census.afterDeed 0 deed).yields = kernel.runsDelSched := by
    cases deed <;> rfl
  rcases Census.goesOn_or_picks solo fits left inTable before still with
    ⟨noYield, sameCurrent⟩ | ⟨f, picks, runnable, different, yield, dispatched⟩
  · have none : kernel.dispatched after = none := by
      unfold Kernel.dispatched
      exact if_pos (noYield.trans yields)
    rw [none, Option.toList_none, List.append_nil]
    refine ⟨ordered.nodup, ?_⟩
    rcases ordered.order with empty | ⟨c, current, further⟩
    · exact .inl empty
    · exact .inr ⟨c, sameCurrent.trans current, further⟩
  · have counted : after.runsDelSched ≠ kernel.runsDelSched := by
      rw [show after.runsDelSched = _ from yield, yields]
      intro same
      simp at same
    have isPicked : kernel.dispatched after = some f := by
      unfold Kernel.dispatched
      rw [if_neg counted]
      exact dispatched
    rw [isPicked, Option.toList_some]
    cases current : kernel.cpus 0 with
    | some c =>
        obtain ⟨may, finds, isOne⟩ := found_behind orderly solo asks fits place
          current before runnable picks
        obtain ⟨-, closer⟩ := turno_of_find finds inTable isOne different
        exact ordered.pick current closer dispatched
    | none =>
        have empty : picked = [] := by
          rcases ordered.order with empty | ⟨c, isCurrent, -⟩
          · exact empty
          · rw [current] at isCurrent
            cases isCurrent
        subst empty
        refine ⟨List.nodup_singleton f, .inr ⟨f, dispatched, ?_⟩⟩
        intro d isF
        cases List.mem_singleton.mp isF
        exact Nat.le_refl _

theorem solo_of_boot (boot : kernel.Boot) : kernel.census.Solo := by
  have nobody : ∀ cpu, kernel.census.roster.current cpu = none :=
    Idle.current (idle_of_boot boot : Idle False kernel)
  refine ⟨fun cpu _ => nobody cpu, fun c current => ?_⟩
  rw [nobody] at current
  cases current

theorem solo_of_step {build : Build} (solo : kernel.census.Solo)
    (first : event.cpu = 0) (step : (smp build).Step kernel event after) :
    after.census.Solo := by
  constructor
  · intro cpu other
    have same := current_of_step step (first ▸ other)
    exact same.trans (solo.others cpu other)
  · intro c current
    obtain ⟨deed, -, -, left⟩ := deed_of_entry step.2
    rw [first] at left
    exact left.own current

/-! ## Runs -/

/-- In a run on one processor `e` is runnable from some moment on until `kernel`,
and `sched_yield` has dispatched `picked`. -/
inductive Lingers (allowed : Kernel → TrapEvent → Prop) (e : Nat) :
    List Nat → Kernel → Prop where
  | start {kernel : Kernel} :
      (smp .roundRobin).Reachable allowed kernel →
      e < nenv →
      kernel.Runnable e →
      Lingers allowed e [] kernel
  | step {picked : List Nat} {kernel next : Kernel} {event : TrapEvent} :
      Lingers allowed e picked kernel →
      allowed kernel event →
      (smp .roundRobin).Step kernel event next →
      next.Runnable e →
      Lingers allowed e (picked ++ (kernel.dispatched next).toList) next

theorem ordered_of_lingers
    (lingers : Lingers (fun kernel event => event.KeepsPlace kernel) e picked
      kernel) :
    e < nenv ∧ kernel.Runnable e ∧ kernel.census.Orderly ∧ kernel.census.Solo ∧
      Ordered e picked kernel := by
  induction lingers with
  | @start kernel reachable inTable runnable =>
      have solo : kernel.census.Solo :=
        reachable.invariant (fun _ boot => solo_of_boot boot)
          fun _ _ _ solo place step => solo_of_step solo place.1 step
      exact ⟨inTable, runnable, orderly_of_reachable reachable, solo,
        List.nodup_nil, .inl rfl⟩
  | step _ place step still induction =>
      obtain ⟨inTable, runnable, orderly, solo, ordered⟩ := induction
      exact ⟨inTable, still, orderly_of_step orderly step,
        solo_of_step solo place.1 step,
        ordered_of_step orderly solo place step inTable runnable still ordered⟩

/-- While an environment stays runnable, no other one is dispatched twice. -/
theorem dispatched_nodup_of_lingers
    (lingers : Lingers (fun kernel event => event.KeepsPlace kernel) e picked
      kernel) : picked.Nodup :=
  (ordered_of_lingers lingers).2.2.2.2.nodup

/-! ## Runs on concrete inputs -/

/-- The environments that `sched_yield` dispatches along some events. -/
def dispatchedAlong : Kernel → List TrapEvent → List Nat
  | _, [] => []
  | kernel, event :: events =>
      (kernel.dispatched (event.after .roundRobin kernel)).toList ++
        dispatchedAlong (event.after .roundRobin kernel) events

theorem lingers_along {allowed check : Kernel → TrapEvent → Prop}
    (permits : ∀ kernel event, check kernel event → allowed kernel event)
    {events : List TrapEvent} (lingers : Lingers allowed e picked kernel)
    (along : Machine.Along
      (fun kernel event => check kernel event ∧
        event.Goes .roundRobin kernel ∧
        (event.after .roundRobin kernel).Runnable e)
      (TrapEvent.after .roundRobin) kernel events) :
    Lingers allowed e (picked ++ dispatchedAlong kernel events)
      (events.foldl (TrapEvent.after .roundRobin) kernel) := by
  induction events generalizing picked kernel with
  | nil => simpa [dispatchedAlong] using lingers
  | cons event events induction =>
      obtain ⟨⟨checked, goes, runnable⟩, rest⟩ := along
      have permitted := permits kernel event checked
      have longer := induction (lingers.step permitted goes.step runnable) rest
      rwa [List.append_assoc] at longer

/-- `oneEnv` creates three children and makes them runnable. -/
def threeChildren : List TrapEvent :=
  [.wake 0, .call 0 7 0 0 0 0 0, .call 0 7 0 0 0 0 0, .call 0 7 0 0 0 0 0,
    .call 0 8 4097 2 0 0 0, .call 0 8 4098 2 0 0 0, .call 0 8 4099 2 0 0 0]

/-- The third child waits while the first two run and exit, and the parent is
dispatched after each of them. -/
theorem not_dispatched_nodup_after_exits :
    ¬ ∀ e picked kernel,
      Lingers (fun _ event => event.cpu = 0) e picked kernel →
      picked.Nodup := by
  intro nodup
  have goes : Machine.Along
      (fun kernel (event : TrapEvent) =>
        event.cpu = 0 ∧ event.Goes .roundRobin kernel)
      (TrapEvent.after .roundRobin) oneEnv threeChildren := by
    decide +kernel
  have run : (smp .roundRobin).Run (fun _ event => event.cpu = 0) oneEnv
      (threeChildren.map id)
      (threeChildren.foldl (TrapEvent.after .roundRobin) oneEnv) :=
    Machine.run_of_along (fun _ _ check => check.2.step)
      (fun _ _ check => check.1) goes
  have waits : (threeChildren.foldl (TrapEvent.after .roundRobin) oneEnv).Runnable
      3 := by
    decide +kernel
  have along : Machine.Along
      (fun kernel (event : TrapEvent) => event.cpu = 0 ∧
        event.Goes .roundRobin kernel ∧
        (event.after .roundRobin kernel).Runnable 3)
      (TrapEvent.after .roundRobin)
      (threeChildren.foldl (TrapEvent.after .roundRobin) oneEnv)
      [.call 0 10 0 0 0 0 0, .call 0 3 0 0 0 0 0, .call 0 10 0 0 0 0 0,
        .call 0 3 0 0 0 0 0] := by
    decide +kernel
  have twice := nodup _ _ _ (lingers_along (fun _ _ first => first)
    (.start ⟨oneEnv, _, boot_oneEnv, run⟩ (by decide) waits) along)
  exact absurd twice (by decide +kernel)

/-- The trap happens on the processor 0, where both searches find the same. -/
def TrapEvent.FindsSame (kernel : Kernel) (event : TrapEvent) : Prop :=
  event.cpu = 0 ∧
    (Kernel.rondaDesde 0).find? (fun f => decide (kernel.Runnable f)) =
      kernel.siguienteEnRonda 0

instance (kernel : Kernel) : DecidablePred (TrapEvent.FindsSame kernel) :=
  fun _ => inferInstanceAs (Decidable (_ ∧ _))

theorem TrapEvent.FindsSame.keepsPlace (same : event.FindsSame kernel) :
    event.KeepsPlace kernel :=
  ⟨same.1, fun _ _ _ => same.2⟩

/-- The third child waits while the parent exits and its other children run. -/
theorem dispatched_nodup_after_exit :
    let kernel := threeChildren.foldl (TrapEvent.after .roundRobin) oneEnv
    let events : List TrapEvent := [.call 0 3 0 0 0 0 0, .call 0 10 0 0 0 0 0]
    dispatchedAlong kernel events = [1, 2] ∧
      ([] ++ dispatchedAlong kernel events).Nodup := by
  have goes : Machine.Along
      (fun kernel (event : TrapEvent) =>
        event.FindsSame kernel ∧ event.Goes .roundRobin kernel)
      (TrapEvent.after .roundRobin) oneEnv threeChildren := by
    decide +kernel
  have run : (smp .roundRobin).Run (fun kernel event => event.KeepsPlace kernel)
      oneEnv (threeChildren.map id)
      (threeChildren.foldl (TrapEvent.after .roundRobin) oneEnv) :=
    Machine.run_of_along (fun _ _ check => check.2.step)
      (fun _ _ check => check.1.keepsPlace) goes
  have waits : (threeChildren.foldl (TrapEvent.after .roundRobin) oneEnv).Runnable
      3 := by
    decide +kernel
  have along : Machine.Along
      (fun kernel (event : TrapEvent) => event.FindsSame kernel ∧
        event.Goes .roundRobin kernel ∧
        (event.after .roundRobin kernel).Runnable 3)
      (TrapEvent.after .roundRobin)
      (threeChildren.foldl (TrapEvent.after .roundRobin) oneEnv)
      [.call 0 3 0 0 0 0 0, .call 0 10 0 0 0 0 0] := by
    decide +kernel
  exact ⟨by decide +kernel, dispatched_nodup_of_lingers
    (lingers_along (fun _ _ same => same.keepsPlace)
      (.start ⟨oneEnv, _, boot_oneEnv, run⟩ (by decide) waits) along)⟩

end FeaturesOS.Scheduler

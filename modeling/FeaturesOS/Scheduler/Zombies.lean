import FeaturesOS.Scheduler.Orderly

/-!
# Dying environments

`env_destroy` marks an environment that another processor runs, and that
processor frees it when it traps.  In between no trap may write the status of the
marked environment or free it, which `envid2env` does not prevent.
-/

namespace FeaturesOS.Scheduler

open Entry

variable {build : Build} {cpu owner e : Nat} {census next : Census} {deed : Deed}

/-- `owner` runs `e`, and no other processor does. -/
def Roster.RunsOn (roster : Roster) (e owner : Nat) : Prop :=
  ∀ cpu, roster.current cpu = some e ↔ cpu = owner

/-- The deed neither writes the status of a dying environment nor frees it for
another processor, and it marks no environment that two processors run. -/
def Deed.Spares (roster : Roster) : Deed → Prop
  | .nothing | .exit _ | .create _ _ => True
  | .setStatus e _ | .release e => roster.status e ≠ .dying
  | .mark e => ∀ first second, roster.current first = some e →
      roster.current second = some e → first = second

/-- Whatever the event may do spares the dying environments. -/
def TrapEvent.SparesDying (kernel : Kernel) (event : TrapEvent) : Prop :=
  ∀ deed, event.Asks kernel deed → kernel.census.Fits event.cpu deed →
    deed.Spares kernel.roster

/-! ## What an event asks for -/

/-- The trap of a dying environment asks for nothing but its end. -/
theorem asks_of_dying {kernel : Kernel} {event : TrapEvent}
    (possible : event.possible kernel) (asks : event.Asks kernel deed)
    (current : kernel.roster.current event.cpu = some e)
    (dying : kernel.roster.status e = .dying) : deed = .exit e := by
  cases event with
  | user cpu surroundings frame faultVa =>
      obtain ⟨here, isHere, asks⟩ := asks
      have same : here = e := Option.some.inj (isHere.symm.trans current)
      subst here
      rwa [if_pos (show (kernel.envs e).envStatus = .dying from dying)] at asks
  | wake cpu =>
      have idle : kernel.roster.current cpu = none := possible
      rw [show TrapEvent.cpu (.wake cpu) = cpu from rfl, idle] at current
      cases current

theorem saveFrame_roster (kernel : Kernel) (current : Nat) (frame : Trapframe) :
    (kernel.saveFrame current frame).roster = kernel.roster :=
  kernel.roster_updateEnv_same current (fun _ => rfl) (fun _ => rfl)
    fun _ => rfl

/-- A status is written to the own environment or to one that lives. -/
theorem live_of_asks {kernel : Kernel} {event : TrapEvent} {status : EnvStatus}
    (asks : event.Asks kernel (.setStatus e status)) :
    kernel.roster.current event.cpu = some e ∨
      kernel.roster.status e ≠ .free := by
  cases event with
  | user cpu surroundings frame faultVa =>
      obtain ⟨here, isHere, asks⟩ := asks
      have found : ∀ {envid : UInt32} {checkperm : Bool},
          (kernel.saveFrame here frame).Finds cpu envid checkperm e →
          kernel.roster.current cpu = some e ∨
            kernel.roster.status e ≠ .free := by
        intro envid checkperm finds
        rw [← saveFrame_roster kernel here frame]
        exact finds.current_or_live
      split at asks
      · cases asks
      · unfold Kernel.AsksAtTrap at asks
        split at asks
        · unfold Kernel.Asks Kernel.WritesStatus at asks
          dsimp only at asks
          split at asks
          · exact found asks.1
          · exact found asks.1
          · rw [asks.1]
            exact .inl isHere
          · exact asks.elim
        · rcases asks with impossible | ⟨-, impossible⟩ <;> cases impossible
  | wake cpu => cases asks

/-! ## The dying environments -/

namespace Census

/-- Every dying environment runs on one processor. -/
def Marked (census : Census) : Prop :=
  ∀ e, census.roster.status e = .dying → ∃ owner, census.roster.RunsOn e owner

/-- Every dying environment runs on one processor, and `cpu` is another one. -/
def MarkedFrom (census : Census) (cpu : Nat) : Prop :=
  ∀ e, census.roster.status e = .dying →
    ∃ owner, owner ≠ cpu ∧ census.roster.RunsOn e owner

theorem Marked.afterDeed (marked : census.Marked) (orderly : census.Orderly)
    (fits : census.Fits cpu deed) (spares : deed.Spares census.roster)
    (ends : ∀ e, census.roster.current cpu = some e →
      census.roster.status e = .dying → deed = .exit e) :
    (census.afterDeed cpu deed).MarkedFrom cpu := by
  -- What stays dying keeps its processor unless that one ends it.
  have keeps : ∀ f, deed ≠ .exit f → census.roster.status f = .dying →
      ∃ owner, owner ≠ cpu ∧ census.roster.RunsOn f owner := by
    intro f goesOn dying
    obtain ⟨owner, runs⟩ := marked f dying
    refine ⟨owner, ?_, runs⟩
    rintro rfl
    exact goesOn (ends f ((runs owner).mpr rfl) dying)
  intro f dying
  cases deed with
  | nothing => exact keeps f (by simp) dying
  | setStatus e status =>
      have different : f ≠ e := by
        rintro rfl
        rcases fits with rfl | rfl <;>
          simp [Census.afterDeed, onRoster, Roster.setStatus] at dying
      refine keeps f (by simp) ?_
      simpa [Census.afterDeed, onRoster, Roster.setStatus, different]
        using dying
  | mark e =>
      by_cases same : f = e
      · subst f
        obtain ⟨owner, current⟩ := orderly.located e fits.1
        refine ⟨owner, ?_, ?_⟩
        · rintro rfl
          exact fits.2 current
        · intro other
          constructor
          · intro runs
            exact spares other owner runs current
          · rintro rfl
            exact current
      · refine keeps f (by simp) ?_
        simpa [Census.afterDeed, onRoster, Roster.setStatus, same] using dying
  | release e =>
      have different : f ≠ e := by
        rintro rfl
        simp [Census.afterDeed, onRoster, Roster.release] at dying
      refine keeps f (by simp) ?_
      simpa [Census.afterDeed, onRoster, Roster.release, different] using dying
  | exit e =>
      have different : f ≠ e := by
        rintro rfl
        simp [Census.afterDeed, onRoster, Roster.release, Roster.setCurrent]
          at dying
      have still : census.roster.status f = .dying := by
        simpa [Census.afterDeed, onRoster, Roster.release, Roster.setCurrent,
          different] using dying
      obtain ⟨owner, other, runs⟩ := keeps f (by
        rintro equal
        cases equal
        exact different rfl) still
      refine ⟨owner, other, ?_⟩
      intro here
      by_cases isCpu : here = cpu
      · subst here
        simp [Census.afterDeed, onRoster, Roster.setCurrent, Ne.symm other]
      · have unchanged := runs here
        simpa [Census.afterDeed, onRoster, Roster.setCurrent, Roster.release,
          isCpu] using unchanged
  | create e status =>
      have different : f ≠ e := by
        rintro rfl
        rcases fits.2 with rfl | rfl <;>
          simp [Census.afterDeed, Roster.allocate] at dying
      refine keeps f (by simp) ?_
      simpa [Census.afterDeed, Roster.allocate, Roster.addPgdir, different]
        using dying

theorem MarkedFrom.dispatch (marked : census.MarkedFrom cpu) :
    (census.onRoster (·.dispatch cpu e)).Marked := by
  intro f dying
  change (census.roster.dispatch cpu e).status f = .dying at dying
  rw [Roster.dispatch_status] at dying
  split at dying
  · cases dying
  · split at dying
    · cases dying
    · rename_i different _
      obtain ⟨owner, other, runs⟩ := marked f dying
      refine ⟨owner, ?_⟩
      intro here
      change (census.roster.dispatch cpu e).current here = some f ↔ _
      rw [Roster.dispatch_current]
      by_cases isCpu : here = cpu
      · subst here
        rw [Function.update_self]
        constructor
        · intro equal
          exact absurd (Option.some.inj equal).symm different
        · intro equal
          exact absurd equal.symm other
      · rw [Function.update_of_ne isCpu]
        exact runs here

theorem MarkedFrom.halt (marked : census.MarkedFrom cpu) :
    (census.onRoster (·.setCurrent cpu none)).Marked := by
  intro f dying
  obtain ⟨owner, other, runs⟩ := marked f dying
  refine ⟨owner, ?_⟩
  intro here
  by_cases isCpu : here = cpu
  · subst here
    simp [onRoster, Roster.setCurrent, Ne.symm other]
  · simpa [onRoster, Roster.setCurrent, isCpu] using runs here

theorem MarkedFrom.leaves (marked : census.MarkedFrom cpu)
    (left : census.Leaves build cpu next) : next.Marked := by
  have counted : census.counted.MarkedFrom cpu := marked
  cases left with
  | resumes _ _ => exact marked.dispatch
  | picks _ _ _ => exact counted.dispatch
  | stays _ _ _ _ => exact counted.dispatch
  | halts _ _ => exact counted.halt

/-! ## One dying environment -/

/-- `e` is dying and runs on `owner`, or it is free and runs nowhere. -/
structure Rests (census : Census) (e : Nat) (owner : Option Nat) : Prop where
  status : census.roster.status e = if owner.isSome then .dying else .free
  current : ∀ cpu, census.roster.current cpu = some e ↔ owner = some cpu

variable {resting : Option Nat}

theorem Rests.idle (rests : census.Rests e resting) :
    census.roster.status e ≠ .running ∧
      census.roster.status e ≠ .runnable := by
  rw [rests.status]
  split <;> decide

/-- What a deed of another processor does to a resting environment. -/
theorem Rests.afterDeed (rests : census.Rests e resting)
    (elsewhere : resting ≠ some cpu) (orderly : census.Orderly)
    (fits : census.Fits cpu deed)
    (unwritten : ∀ status, deed ≠ .setStatus e status)
    (unfreed : deed = .release e → resting = none) :
    (census.afterDeed cpu deed).Rests e resting ∧
        (census.afterDeed cpu deed).envId e = census.envId e ∨
      resting = none ∧ (census.afterDeed cpu deed).envId e ≠ census.envId e := by
  have notHere : census.roster.current cpu ≠ some e := fun current =>
    elsewhere ((rests.current cpu).mp current)
  cases deed with
  | nothing => exact .inl ⟨rests, rfl⟩
  | setStatus f status =>
      have different : e ≠ f := by
        rintro rfl
        exact unwritten status rfl
      refine .inl ⟨⟨?_, rests.current⟩, rfl⟩
      rw [← rests.status]
      simp [Census.afterDeed, onRoster, Roster.setStatus, different]
  | mark f =>
      have different : e ≠ f := by
        rintro rfl
        exact rests.idle.1 fits.1
      refine .inl ⟨⟨?_, rests.current⟩, rfl⟩
      rw [← rests.status]
      simp [Census.afterDeed, onRoster, Roster.setStatus, different]
  | release f =>
      refine .inl ⟨⟨?_, rests.current⟩, rfl⟩
      by_cases same : e = f
      · subst f
        rw [unfreed rfl]
        simp [Census.afterDeed, onRoster, Roster.release]
      · rw [← rests.status]
        simp [Census.afterDeed, onRoster, Roster.release, same]
  | exit f =>
      have different : e ≠ f := by
        rintro rfl
        exact notHere fits.1
      refine .inl ⟨⟨?_, ?_⟩, rfl⟩
      · rw [← rests.status]
        simp [Census.afterDeed, onRoster, Roster.release, Roster.setCurrent,
          different]
      · intro here
        by_cases isCpu : here = cpu
        · subst here
          simp [Census.afterDeed, onRoster, Roster.setCurrent, elsewhere]
        · have unchanged := rests.current here
          simpa [Census.afterDeed, onRoster, Roster.setCurrent, Roster.release,
            isCpu] using unchanged
  | create f status =>
      obtain ⟨noPgdir, inTable⟩ := orderly.head fits.1
      by_cases same : e = f
      · subst f
        right
        constructor
        · cases resting with
          | none => rfl
          | some owner =>
              have mapped := orderly.mapped e (.inr rests.status)
              rw [noPgdir] at mapped
              cases mapped
        · simp only [Census.afterDeed, Function.update_self]
          exact newId_ne inTable _
      · refine .inl ⟨⟨?_, rests.current⟩, ?_⟩
        · rw [← rests.status]
          simp [Census.afterDeed, Roster.allocate, Roster.addPgdir, same]
        · simp [Census.afterDeed, same]

/-- The processor that runs a dying environment frees it. -/
theorem Rests.exit (rests : census.Rests e (some cpu)) :
    (census.afterDeed cpu (.exit e)).Rests e none := by
  constructor
  · simp [Census.afterDeed, onRoster, Roster.release, Roster.setCurrent]
  · intro here
    by_cases isCpu : here = cpu
    · simp [Census.afterDeed, onRoster, Roster.setCurrent, isCpu]
    · have unchanged := rests.current here
      have notOwner : ¬ cpu = here := Ne.symm isCpu
      simpa [Census.afterDeed, onRoster, Roster.setCurrent, Roster.release,
        isCpu, notOwner] using unchanged

theorem Rests.dispatch (rests : census.Rests e resting)
    (elsewhere : resting ≠ some cpu) {f : Nat} (different : e ≠ f) :
    (census.onRoster (·.dispatch cpu f)).Rests e resting := by
  constructor
  · change (census.roster.dispatch cpu f).status e = _
    rw [Roster.dispatch_status, if_neg different,
      if_neg fun both => rests.idle.1 both.2]
    exact rests.status
  · intro here
    change (census.roster.dispatch cpu f).current here = some e ↔ _
    rw [Roster.dispatch_current]
    by_cases isCpu : here = cpu
    · subst here
      rw [Function.update_self]
      constructor
      · intro equal
        exact absurd (Option.some.inj equal).symm different
      · intro equal
        exact absurd equal elsewhere
    · rw [Function.update_of_ne isCpu]
      exact rests.current here

/-- Leaving the kernel changes no identifier. -/
theorem Leaves.envId (left : census.Leaves build cpu next) :
    next.envId = census.envId := by
  cases left <;> rfl

/-- A resting environment is not dispatched. -/
theorem Rests.leaves (rests : census.Rests e resting)
    (elsewhere : resting ≠ some cpu) (left : census.Leaves build cpu next) :
    next.Rests e resting := by
  have counted : census.counted.Rests e resting := ⟨rests.status, rests.current⟩
  have current : ∀ {f : Nat}, census.roster.current cpu = some f → e ≠ f := by
    rintro f isCurrent rfl
    exact elsewhere ((rests.current cpu).mp isCurrent)
  cases left with
  | resumes isCurrent _ =>
      exact rests.dispatch elsewhere (current isCurrent)
  | @picks f runnable _ _ =>
      have different : e ≠ f := by
        rintro rfl
        exact rests.idle.2 runnable
      exact counted.dispatch elsewhere different
  | stays isCurrent _ _ _ =>
      exact counted.dispatch elsewhere (current isCurrent)
  | halts _ _ =>
      refine ⟨counted.status, ?_⟩
      intro here
      by_cases isCpu : here = cpu
      · subst here
        simp [onRoster, Roster.setCurrent, elsewhere]
      · simpa [onRoster, Roster.setCurrent, isCpu, Census.counted]
          using rests.current here

end Census

/-! ## Events -/

/-- What an event that spares the dying does to a resting environment. -/
theorem rests_of_step {kernel next : Kernel} {event : TrapEvent}
    {resting : Option Nat} (orderly : kernel.census.Orderly)
    (rests : kernel.census.Rests e resting) (spares : event.SparesDying kernel)
    (step : (smp build).Step kernel event next) :
    next.census.Rests e (if resting = some event.cpu then none else resting) ∧
        next.census.envId e = kernel.census.envId e ∨
      resting = none ∧ next.census.envId e ≠ kernel.census.envId e := by
  obtain ⟨deed, asks, fits, left⟩ := deed_of_entry step.2
  have spared := spares deed asks fits
  by_cases own : resting = some event.cpu
  · rw [if_pos own]
    subst own
    have current := (rests.current event.cpu).mpr rfl
    have ends := asks_of_dying step.1 asks current rests.status
    subst ends
    have gone := rests.exit.leaves (by simp) left
    exact .inl ⟨gone, congrFun left.envId e⟩
  · rw [if_neg own]
    have unwritten : ∀ status, deed ≠ .setStatus e status := by
      rintro status rfl
      rcases live_of_asks asks with current | lives
      · exact own ((rests.current event.cpu).mp current)
      · cases resting with
        | none => exact lives rests.status
        | some owner => exact spared rests.status
    have unfreed : deed = .release e → resting = none := by
      rintro rfl
      cases resting with
      | none => rfl
      | some owner => exact absurd rests.status spared
    rcases rests.afterDeed own orderly fits unwritten unfreed with
      ⟨still, sameId⟩ | ⟨isFree, newId⟩
    · exact .inl ⟨still.leaves own left,
        (congrFun left.envId e).trans sameId⟩
    · right
      refine ⟨isFree, ?_⟩
      rwa [left.envId]

theorem marked_of_step {kernel next : Kernel} {event : TrapEvent}
    (orderly : kernel.census.Orderly) (marked : kernel.census.Marked)
    (spares : event.SparesDying kernel)
    (step : (smp build).Step kernel event next) : next.census.Marked := by
  obtain ⟨deed, asks, fits, left⟩ := deed_of_entry step.2
  have ends : ∀ e, kernel.census.roster.current event.cpu = some e →
      kernel.census.roster.status e = .dying → deed = .exit e :=
    fun _ current dying => asks_of_dying step.1 asks current dying
  exact (marked.afterDeed orderly fits (spares deed asks fits) ends).leaves left

/-- No environment is dying before the processors run. -/
theorem undying_of_boot {kernel : Kernel} (boot : kernel.Boot) (e : Nat) :
    kernel.census.roster.status e ≠ .dying := by
  have initially : ∀ (mem : PhysMem) (kernPgdir f : Nat),
      (Kernel.initial mem kernPgdir).census.roster.status f ≠ .dying := by
    intro mem kernPgdir f dying
    cases dying
  have creates : ∀ (census : Census) (cpu e : Nat),
      (∀ f, census.roster.status f ≠ .dying) →
      census.roster.freeList = some e →
      ∀ f, (census.afterDeed cpu (.create e .runnable)).roster.status f ≠
        .dying := by
    intro census cpu e lives _ f
    by_cases same : f = e
    · simp [Census.afterDeed, Roster.allocate, same]
    · have still := lives f
      simpa [Census.afterDeed, Roster.allocate, Roster.addPgdir, same]
        using still
  exact census_of_boot initially creates boot e

theorem marked_of_reachable {kernel : Kernel}
    (reachable : (smp build).Reachable
      (fun kernel event => event.SparesDying kernel) kernel) :
    kernel.census.Orderly ∧ kernel.census.Marked := by
  have booted : ∀ kernel : Kernel, kernel.Boot →
      kernel.census.Orderly ∧ kernel.census.Marked := by
    intro kernel boot
    have initially : (smp build).Reachable Machine.Unrestricted kernel :=
      .initial boot
    exact ⟨orderly_of_reachable initially, fun e dying =>
      absurd dying (undying_of_boot boot e)⟩
  refine reachable.invariant booted ?_
  rintro kernel event next ⟨orderly, marked⟩ spares step
  exact ⟨orderly_of_step orderly step, marked_of_step orderly marked spares step⟩

/-! ## Runs -/

/-- `e` is dying and runs on `owner`.  Only a trap of `owner` frees it, and that
trap does nothing else, whatever it was for. -/
structure Kernel.Doomed (build : Build) (kernel : Kernel) (e owner : Nat) :
    Prop where
  rests : kernel.census.Rests e (some owner)
  frees : ∀ event next, event.SparesDying kernel →
    (smp build).Step kernel event next →
    (next.envs e).envId = (kernel.envs e).envId ∧
      (next.envs e).envStatus = if event.cpu = owner then .free else .dying
  deaf : ∀ surroundings frame faultVa,
    trap build surroundings owner frame faultVa kernel =
      (do
        envFree e
        Entry.modify fun kernel => kernel.setCurenv owner none
        schedYield build owner : KernelM Unit) kernel

/-- `e` is free and runs nowhere, and it stays free until it is allocated under a
new identifier. -/
structure Kernel.Gone (build : Build) (kernel : Kernel) (e : Nat) : Prop where
  rests : kernel.census.Rests e none
  stays : ∀ event next, event.SparesDying kernel →
    (smp build).Step kernel event next →
    (next.envs e).envId = (kernel.envs e).envId →
    (next.envs e).envStatus = .free

/-- The trap of a dying environment. -/
theorem trap_of_dying {kernel : Kernel} (current : kernel.cpus owner = some e)
    (dying : (kernel.envs e).envStatus = .dying) (surroundings : Surroundings)
    (frame : Trapframe) (faultVa : UInt32) :
    trap build surroundings owner frame faultVa kernel =
      (do
        envFree e
        Entry.modify fun kernel => kernel.setCurenv owner none
        schedYield build owner : KernelM Unit) kernel := by
  unfold trap theCurenv
  rw [bind_assoc, read_bind_run, current]
  change (if (kernel.envs e).envStatus = .dying then _ else _ : KernelM Unit)
    kernel = _
  rw [if_pos dying]

theorem doomed_or_gone {kernel : Kernel} {resting : Option Nat}
    (orderly : kernel.census.Orderly) (rests : kernel.census.Rests e resting) :
    (∃ owner, kernel.Doomed build e owner) ∨ kernel.Gone build e := by
  cases resting with
  | some owner =>
      refine .inl ⟨owner, rests, ?_, ?_⟩
      · intro event next spares step
        rcases rests_of_step orderly rests spares step with
          ⟨still, sameId⟩ | ⟨impossible, -⟩
        · refine ⟨sameId, ?_⟩
          by_cases own : event.cpu = owner
          · rw [if_pos (congrArg some own.symm)] at still
            rw [if_pos own]
            exact still.status
          · rw [if_neg (fun equal => own (Option.some.inj equal).symm)]
              at still
            rw [if_neg own]
            exact still.status
        · cases impossible
      · exact trap_of_dying ((rests.current owner).mpr rfl) rests.status
  | none =>
      refine .inr ⟨rests, ?_⟩
      intro event next spares step sameId
      rcases rests_of_step orderly rests spares step with
        ⟨still, -⟩ | ⟨-, newId⟩
      · exact still.status
      · exact absurd sameId newId

/-- Once `e` is dying it stays so until the processor that runs it frees it, and
then it stays free, as long as its slot has the same identifier. -/
theorem stays_dead_of_sparesDying (build : Build) {marked last : Kernel}
    {events : List TrapEvent}
    (reachable : (smp build).Reachable
      (fun kernel event => event.SparesDying kernel) marked)
    (dying : (marked.envs e).envStatus = .dying)
    (run : (smp build).Run
      (fun kernel event => event.SparesDying kernel ∧
        (kernel.envs e).envId = (marked.envs e).envId)
      marked events last)
    (sameId : (last.envs e).envId = (marked.envs e).envId) :
    (∃ owner, last.Doomed build e owner) ∨ last.Gone build e := by
  obtain ⟨orderly, isMarked⟩ := marked_of_reachable reachable
  obtain ⟨owner, runs⟩ := isMarked e dying
  have rests : marked.census.Rests e (some owner) := by
    refine ⟨dying, fun cpu => ?_⟩
    rw [runs cpu]
    constructor
    · rintro rfl
      rfl
    · intro equal
      exact (Option.some.inj equal).symm
  -- Along the run the environment rests for as long as its identifier stays.
  have preserved : ∀ (kernel : Kernel) (event : TrapEvent) (next : Kernel),
      (kernel.census.Orderly ∧
        ((kernel.envs e).envId = (marked.envs e).envId →
          ∃ resting, kernel.census.Rests e resting)) →
      event.SparesDying kernel ∧
        (kernel.envs e).envId = (marked.envs e).envId →
      (smp build).Step kernel event next →
      next.census.Orderly ∧
        ((next.envs e).envId = (marked.envs e).envId →
          ∃ resting, next.census.Rests e resting) := by
    rintro kernel event next ⟨orderly, rests⟩ ⟨spares, here⟩ step
    refine ⟨orderly_of_step orderly step, fun isSame => ?_⟩
    obtain ⟨resting, rests⟩ := rests here
    rcases rests_of_step orderly rests spares step with
      ⟨still, -⟩ | ⟨-, newId⟩
    · exact ⟨_, still⟩
    · exact absurd (isSame.trans here.symm) newId
  have along := run.preserves preserved ⟨orderly, fun _ => ⟨some owner, rests⟩⟩
  obtain ⟨resting, rests⟩ := along.2 sameId
  exact doomed_or_gone along.1 rests

/-! ## Runs on concrete inputs -/

theorem sparesDying_wake {kernel : Kernel} (cpu : Nat) :
    (TrapEvent.wake cpu).SparesDying kernel := by
  rintro deed rfl _
  trivial

/-- The only deed of a dying environment spares the others. -/
theorem sparesDying_of_dying (e : Nat) {kernel : Kernel} {event : TrapEvent}
    (possible : event.possible kernel) (current : kernel.cpus event.cpu = some e)
    (dying : (kernel.envs e).envStatus = .dying) : event.SparesDying kernel := by
  intro deed asks _
  rw [asks_of_dying possible asks current dying]
  trivial

/-- What a system call of a running environment must spare. -/
theorem sparesDying_call (e : Nat) {kernel : Kernel}
    {syscallno a1 a2 a3 a4 a5 : UInt32}
    (current : kernel.cpus cpu = some e)
    (lives : (kernel.envs e).envStatus ≠ .dying)
    (spares : ∀ frame deed, (kernel.saveFrame e frame).Asks ⟨0, none⟩ cpu e
      syscallno a1 a2 a3 a4 deed → deed.Spares kernel.roster) :
    (TrapEvent.call cpu syscallno a1 a2 a3 a4 a5).SparesDying kernel := by
  rintro deed ⟨here, isHere, asks⟩ -
  have same : here = e := Option.some.inj (isHere.symm.trans current)
  subst here
  rw [if_neg lives] at asks
  exact spares _ deed asks

/-- The processor 0 destroys the child, which runs on the processor 1. -/
def childDies : List TrapEvent := childRuns ++ [.call 0 3 4097 0 0 0 0]

/-- The parent makes its dying child runnable again. -/
theorem not_stays_dead_after_set_status :
    ¬ ∀ kernel next event e,
      (smp .roundRobin).Reachable Machine.Unrestricted kernel →
      (kernel.envs e).envStatus = .dying →
      (smp .roundRobin).Step kernel event next →
      (next.envs e).envId = (kernel.envs e).envId →
      (next.envs e).envStatus = .dying ∨ (next.envs e).envStatus = .free := by
  intro staysDead
  have goes : Machine.Along (TrapEvent.Goes .roundRobin)
      (TrapEvent.after .roundRobin) oneEnv childDies := by
    decide +kernel
  have wakes : (TrapEvent.call 0 8 4097 2 0 0 0).Goes .roundRobin
      (childDies.foldl (TrapEvent.after .roundRobin) oneEnv) := by
    decide +kernel
  have dead := staysDead _ _ _ 1 (reachable_of_goes goes) (by decide +kernel)
    wakes.step (by decide +kernel)
  exact absurd dead (by decide +kernel)

/-- The machine before the parent destroys its child. -/
theorem reachable_childRuns :
    (smp .roundRobin).Reachable (fun kernel event => event.SparesDying kernel)
      (childRuns.foldl (TrapEvent.after .roundRobin) oneEnv) := by
  have first : (TrapEvent.wake 0).Goes .roundRobin oneEnv := by decide +kernel
  have second : (TrapEvent.call 0 7 0 0 0 0 0).Goes .roundRobin
      ([TrapEvent.wake 0].foldl (TrapEvent.after .roundRobin) oneEnv) := by
    decide +kernel
  have third : (TrapEvent.call 0 8 4097 2 0 0 0).Goes .roundRobin
      ([TrapEvent.wake 0, .call 0 7 0 0 0 0 0].foldl
        (TrapEvent.after .roundRobin) oneEnv) := by
    decide +kernel
  have last : (TrapEvent.wake 1).Goes .roundRobin
      ([TrapEvent.wake 0, .call 0 7 0 0 0 0 0, .call 0 8 4097 2 0 0 0].foldl
        (TrapEvent.after .roundRobin) oneEnv) := by
    decide +kernel
  refine (((Machine.Reachable.initial boot_oneEnv).step (sparesDying_wake 0)
    first.step).step ?_ second.step).step ?_ third.step |>.step
      (sparesDying_wake 1) last.step
  · refine sparesDying_call 0 (by decide +kernel) (by decide +kernel) ?_
    intro frame deed asks
    cases deed with
    | create e status => trivial
    | nothing => trivial
    | exit e => trivial
    | setStatus e status => exact asks.elim
    | mark e => exact asks.elim
    | release e => exact asks.elim
  · refine sparesDying_call 0 (by decide +kernel) (by decide +kernel) ?_
    intro frame deed asks
    cases deed with
    | create e status => trivial
    | nothing => trivial
    | exit e => trivial
    | setStatus e status =>
        have slot : e = 1 := slot_of_finds asks.1 (by decide)
        have lives : (([TrapEvent.wake 0, .call 0 7 0 0 0 0 0].foldl
            (TrapEvent.after .roundRobin) oneEnv).envs 1).envStatus ≠
              .dying := by
          decide +kernel
        rw [slot]
        exact lives
    | mark e => exact asks.elim
    | release e => exact asks.elim

theorem stays_dead_after_destroy :
    let marked := childDies.foldl (TrapEvent.after .roundRobin) oneEnv
    let last := (TrapEvent.call 1 2 0 0 0 0 0).after .roundRobin marked
    (∃ owner, last.Doomed .roundRobin 1 owner) ∨ last.Gone .roundRobin 1 := by
  have runs : Machine.Along (TrapEvent.Goes .roundRobin)
      (TrapEvent.after .roundRobin) oneEnv childRuns := by
    decide +kernel
  have destroys : (TrapEvent.call 0 3 4097 0 0 0 0).Goes .roundRobin
      (childRuns.foldl (TrapEvent.after .roundRobin) oneEnv) := by
    decide +kernel
  have traps : (TrapEvent.call 1 2 0 0 0 0 0).Goes .roundRobin
      (childDies.foldl (TrapEvent.after .roundRobin) oneEnv) := by
    decide +kernel
  -- Only the processors 0 and 1 have taken steps.
  have owner : ∀ cpu, (childRuns.foldl (TrapEvent.after .roundRobin) oneEnv).cpus
      cpu = some 1 → cpu = 1 := by
    intro cpu current
    by_contra other
    by_cases isFirst : cpu = 0
    · subst cpu
      exact absurd current (by decide +kernel)
    · have idle := idle_of_goes cpu runs (by
        intro event member
        simp only [childRuns, List.mem_cons, List.not_mem_nil, or_false]
          at member
        rcases member with rfl | rfl | rfl | rfl
        · exact isFirst
        · exact isFirst
        · exact isFirst
        · exact other)
      rw [idle, show oneEnv.cpus cpu = none from
        Idle.current (idle_of_boot boot_oneEnv : Idle False oneEnv) cpu]
        at current
      cases current
  have spares : (TrapEvent.call 0 3 4097 0 0 0 0).SparesDying
      (childRuns.foldl (TrapEvent.after .roundRobin) oneEnv) := by
    refine sparesDying_call 0 (by decide +kernel) (by decide +kernel) ?_
    intro frame deed asks
    cases deed with
    | create e status => trivial
    | nothing => trivial
    | exit e => trivial
    | setStatus e status => exact asks.elim
    | mark e =>
        have slot : e = 1 := slot_of_finds asks (by decide)
        subst e
        intro first second atFirst atSecond
        rw [owner first atFirst, owner second atSecond]
    | release e =>
        have slot : e = 1 := slot_of_finds asks (by decide)
        have lives : ((childRuns.foldl (TrapEvent.after .roundRobin)
            oneEnv).envs 1).envStatus ≠ .dying := by
          decide +kernel
        rw [slot]
        exact lives
  have last : (TrapEvent.call 1 2 0 0 0 0 0).SparesDying
      (childDies.foldl (TrapEvent.after .roundRobin) oneEnv) :=
    sparesDying_of_dying 1 traps.1 (by decide +kernel)
      (by decide +kernel)
  exact stays_dead_of_sparesDying .roundRobin
    (reachable_childRuns.step spares destroys.step) (by decide +kernel)
    ((Machine.Run.nil _).snoc ⟨last, rfl⟩ traps.step) (by decide +kernel)

end FeaturesOS.Scheduler

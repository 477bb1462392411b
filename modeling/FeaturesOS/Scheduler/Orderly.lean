import FeaturesOS.Scheduler.DeedsTrap
import FeaturesOS.Scheduler.EnvIds
import FeaturesOS.Scheduler.Multiprocessor

/-!
# Orderly censuses

What holds of the environments after any traps: a running environment is the
current one of some processor, an environment with a page directory has the
identifier of its slot, and the free list holds environments without one.
-/

namespace FeaturesOS.Scheduler

open Entry

variable {build : Build} {cpu e : Nat}

/-! ## Dispatching -/

namespace Roster

variable {roster : Roster}

theorem soltar_status (f : Nat) :
    (roster.soltar cpu).status f =
      if roster.current cpu = some f ∧ roster.status f = .running then
        .runnable
      else
        roster.status f := by
  unfold soltar
  cases current : roster.current cpu with
  | none => simp
  | some here =>
      dsimp only
      by_cases same : f = here
      · subst f
        by_cases running : roster.status here = .running
        · simp [running, setStatus]
        · simp [running]
      · have other : some here ≠ some f := fun equal =>
          same (Option.some.inj equal).symm
        split
        · simp [setStatus, same, other]
        · simp [other]

theorem dispatch_status (f : Nat) :
    (roster.dispatch cpu e).status f =
      if f = e then .running
      else if roster.current cpu = some f ∧ roster.status f = .running then
        .runnable
      else roster.status f := by
  unfold dispatch
  by_cases same : f = e
  · simp [setStatus, same]
  · rw [if_neg same, ← soltar_status]
    simp [setStatus, setCurrent, same]

theorem soltar_frame :
    (roster.soltar cpu).current = roster.current ∧
      (roster.soltar cpu).hasPgdir = roster.hasPgdir ∧
      (roster.soltar cpu).link = roster.link ∧
      (roster.soltar cpu).freeList = roster.freeList := by
  unfold soltar
  cases roster.current cpu with
  | none => exact ⟨rfl, rfl, rfl, rfl⟩
  | some here =>
      dsimp only
      split <;> exact ⟨rfl, rfl, rfl, rfl⟩

theorem dispatch_current :
    (roster.dispatch cpu e).current =
      Function.update roster.current cpu (some e) := by
  change Function.update (roster.soltar cpu).current cpu (some e) = _
  rw [soltar_frame.1]

theorem dispatch_hasPgdir :
    (roster.dispatch cpu e).hasPgdir = roster.hasPgdir :=
  soltar_frame.2.1

theorem dispatch_link : (roster.dispatch cpu e).link = roster.link :=
  soltar_frame.2.2.1

theorem dispatch_freeList :
    (roster.dispatch cpu e).freeList = roster.freeList :=
  soltar_frame.2.2.2

end Roster

/-! ## The invariant -/

namespace Census

structure Orderly (census : Census) : Prop where
  located : ∀ e, census.roster.status e = .running →
    ∃ cpu, census.roster.current cpu = some e
  mapped : ∀ e,
    census.roster.status e = .running ∨ census.roster.status e = .dying →
    census.roster.hasPgdir e = true
  slots : ∀ e, census.roster.hasPgdir e = true → envx (census.envId e) = e
  freeNodes : ∃ nodes, Linked census.roster.link census.roster.freeList nodes ∧
    nodes.Nodup ∧ ∀ e ∈ nodes, census.roster.hasPgdir e = false ∧ e < nenv

variable {census next : Census}

theorem Orderly.head (orderly : census.Orderly)
    (isHead : census.roster.freeList = some e) :
    census.roster.hasPgdir e = false ∧ e < nenv := by
  obtain ⟨nodes, linked, -, free⟩ := orderly.freeNodes
  rw [isHead] at linked
  obtain ⟨rest, rfl, -⟩ := linked.of_some
  exact free e List.mem_cons_self

theorem Orderly.setStatus (orderly : census.Orderly) {status : EnvStatus}
    (located : status = .running → ∃ cpu, census.roster.current cpu = some e)
    (mapped : status = .running ∨ status = .dying →
      census.roster.hasPgdir e = true) :
    (census.onRoster (·.setStatus e status)).Orderly where
  located f running := by
    by_cases same : f = e
    · subst f
      refine located ?_
      simpa [onRoster, Roster.setStatus] using running
    · refine orderly.located f ?_
      simpa [onRoster, Roster.setStatus, same] using running
  mapped f lives := by
    by_cases same : f = e
    · subst f
      refine mapped ?_
      simpa [onRoster, Roster.setStatus] using lives
    · refine orderly.mapped f ?_
      simpa [onRoster, Roster.setStatus, same] using lives
  slots := orderly.slots
  freeNodes := orderly.freeNodes

theorem Orderly.release (orderly : census.Orderly)
    (hasPgdir : census.roster.hasPgdir e = true) :
    (census.onRoster (·.release e)).Orderly where
  located f running := by
    by_cases same : f = e
    · simp [onRoster, Roster.release, same] at running
    · refine orderly.located f ?_
      simpa [onRoster, Roster.release, same] using running
  mapped f lives := by
    by_cases same : f = e
    · simp [onRoster, Roster.release, same] at lives
    · have still : census.roster.hasPgdir f = true := by
        refine orderly.mapped f ?_
        simpa [onRoster, Roster.release, same] using lives
      simpa [onRoster, Roster.release, same] using still
  slots f hasPgdir := by
    refine orderly.slots f ?_
    by_cases same : f = e
    · simp [onRoster, Roster.release, same] at hasPgdir
    · simpa [onRoster, Roster.release, same] using hasPgdir
  freeNodes := by
    obtain ⟨nodes, linked, nodup, free⟩ := orderly.freeNodes
    have absent : e ∉ nodes := by
      intro member
      rw [(free e member).1] at hasPgdir
      cases hasPgdir
    refine ⟨e :: nodes, linked.push absent,
      List.nodup_cons.mpr ⟨absent, nodup⟩, ?_⟩
    intro f member
    rcases List.mem_cons.mp member with rfl | inRest
    · refine ⟨by simp [onRoster, Roster.release], ?_⟩
      rw [← orderly.slots f hasPgdir]
      exact Nat.mod_lt _ (by decide)
    · have different : f ≠ e := by
        rintro rfl
        exact absent inRest
      simpa [onRoster, Roster.release, different] using free f inRest

theorem Orderly.setCurrent (orderly : census.Orderly)
    (idle : ∀ e, census.roster.current cpu = some e →
      census.roster.status e ≠ .running) :
    (census.onRoster (·.setCurrent cpu none)).Orderly where
  located f running := by
    obtain ⟨here, current⟩ := orderly.located f running
    have other : here ≠ cpu := by
      rintro rfl
      exact idle f current running
    refine ⟨here, ?_⟩
    simpa [onRoster, Roster.setCurrent, other] using current
  mapped := orderly.mapped
  slots := orderly.slots
  freeNodes := orderly.freeNodes

theorem Orderly.create (orderly : census.Orderly) {status : EnvStatus}
    (isHead : census.roster.freeList = some e)
    (quiet : status = .runnable ∨ status = .notRunnable) :
    (census.afterDeed cpu (.create e status)).Orderly where
  located f running := by
    have different : f ≠ e := by
      rintro rfl
      rcases quiet with rfl | rfl <;>
        simp [afterDeed, Roster.allocate] at running
    refine orderly.located f ?_
    simpa [afterDeed, Roster.allocate, Roster.addPgdir, different] using running
  mapped f lives := by
    by_cases same : f = e
    · simp [afterDeed, Roster.allocate, Roster.addPgdir, same]
    · have still : census.roster.hasPgdir f = true := by
        refine orderly.mapped f ?_
        simpa [afterDeed, Roster.allocate, Roster.addPgdir, same] using lives
      simpa [afterDeed, Roster.allocate, Roster.addPgdir, same] using still
  slots f hasPgdir := by
    by_cases same : f = e
    · subst f
      simp only [afterDeed, Function.update_self]
      exact envx_newId _ (orderly.head isHead).2
    · simp only [afterDeed, Function.update_of_ne same]
      refine orderly.slots f ?_
      simpa [afterDeed, Roster.allocate, Roster.addPgdir, same] using hasPgdir
  freeNodes := by
    obtain ⟨nodes, linked, nodup, free⟩ := orderly.freeNodes
    rw [isHead] at linked
    obtain ⟨rest, rfl, tail⟩ := linked.of_some
    refine ⟨rest, tail, (List.nodup_cons.mp nodup).2, ?_⟩
    intro f member
    have different : f ≠ e := by
      rintro rfl
      exact (List.nodup_cons.mp nodup).1 member
    have isFree := free f (List.mem_cons_of_mem _ member)
    simpa [afterDeed, Roster.allocate, Roster.addPgdir, different] using isFree

theorem Orderly.dispatch (orderly : census.Orderly)
    (hasPgdir : census.roster.hasPgdir e = true) :
    (census.onRoster (·.dispatch cpu e)).Orderly where
  located f running := by
    change ∃ here, (census.roster.dispatch cpu e).current here = some f
    rw [Roster.dispatch_current]
    by_cases same : f = e
    · exact ⟨cpu, by rw [same, Function.update_self]⟩
    · change (census.roster.dispatch cpu e).status f = .running at running
      rw [Roster.dispatch_status, if_neg same] at running
      split at running
      · cases running
      · rename_i notHere
        obtain ⟨here, current⟩ := orderly.located f running
        have other : here ≠ cpu := by
          rintro rfl
          exact notHere ⟨current, running⟩
        exact ⟨here, by rw [Function.update_of_ne other, current]⟩
  mapped f lives := by
    change (census.roster.dispatch cpu e).hasPgdir f = true
    rw [Roster.dispatch_hasPgdir]
    by_cases same : f = e
    · rw [same, hasPgdir]
    · refine orderly.mapped f ?_
      change (census.roster.dispatch cpu e).status f = _ ∨
        (census.roster.dispatch cpu e).status f = _ at lives
      rw [Roster.dispatch_status, if_neg same] at lives
      split at lives
      · simp at lives
      · exact lives
  slots f hasPgdir := by
    refine orderly.slots f ?_
    rw [← hasPgdir]
    exact (congrFun Roster.dispatch_hasPgdir f).symm
  freeNodes := by
    change ∃ nodes, Linked (census.roster.dispatch cpu e).link
      (census.roster.dispatch cpu e).freeList nodes ∧ nodes.Nodup ∧
        ∀ f ∈ nodes, (census.roster.dispatch cpu e).hasPgdir f = false ∧ _
    rw [Roster.dispatch_link, Roster.dispatch_freeList,
      Roster.dispatch_hasPgdir]
    exact orderly.freeNodes

theorem Orderly.counted (orderly : census.Orderly) :
    census.counted.Orderly :=
  ⟨orderly.located, orderly.mapped, orderly.slots, orderly.freeNodes⟩

/-! ## Deeds and runs -/

theorem Orderly.afterDeed (orderly : census.Orderly) {deed : Deed}
    (fits : census.Fits cpu deed) : (census.afterDeed cpu deed).Orderly := by
  cases deed with
  | nothing => exact orderly
  | setStatus e status =>
      apply orderly.setStatus
      · rintro rfl
        rcases fits with impossible | impossible <;> cases impossible
      · rintro (rfl | rfl)
        · rcases fits with impossible | impossible <;> cases impossible
        · rcases fits with impossible | impossible <;> cases impossible
  | mark e =>
      apply orderly.setStatus
      · intro impossible
        cases impossible
      · intro _
        exact orderly.mapped e (.inl fits.1)
  | release e => exact orderly.release fits.2.2
  | exit e =>
      have released := orderly.release fits.2
      refine released.setCurrent fun f current => ?_
      have same : f = e := Option.some.inj (current.symm.trans fits.1)
      subst f
      simp [onRoster, Roster.release]
  | create e status => exact orderly.create fits.1 fits.2

theorem Orderly.leaves (orderly : census.Orderly)
    (left : census.Leaves build cpu next) : next.Orderly := by
  cases left with
  | resumes _ hasPgdir => exact orderly.dispatch hasPgdir
  | picks _ hasPgdir _ => exact orderly.counted.dispatch hasPgdir
  | stays _ _ hasPgdir _ => exact orderly.counted.dispatch hasPgdir
  | halts idle _ => exact orderly.counted.setCurrent idle

theorem orderly_initial (mem : PhysMem) (kernPgdir : Nat) :
    (Kernel.initial mem kernPgdir).census.Orderly where
  located _ running := by cases running
  mapped _ lives := by rcases lives with lives | lives <;> cases lives
  slots _ hasPgdir := by cases hasPgdir
  freeNodes := by
    refine ⟨List.range' 0 nenv, Kernel.initial_freeList mem kernPgdir,
      List.nodup_range', ?_⟩
    intro e member
    have bounds := List.mem_range'_1.mp member
    exact ⟨rfl, by omega⟩

end Census

/-- `env_create` takes the head of the free list. -/
theorem triple_envCreate_census {census : Census} (entry : UInt32)
    (segments : List (UInt32 × UInt32)) {left : Kernel → Prop} :
    Triple (Shows census) (envCreate cpu entry segments)
      (fun _ kernel => ∃ e, census.roster.freeList = some e ∧
        Shows (census.afterDeed cpu (.create e .runnable)) kernel)
      left := by
  refine (triple_envAlloc_census 0).bind fun result => ?_
  cases result with
  | error r => exact .stop
  | ok e =>
      have loaded := frame_loadIcode blindToMem_census e entry
        (fun kernel _ => kernel.census_updateEnv_same e (fun _ => rfl)
          (fun _ => rfl) (fun _ => rfl) fun _ => rfl) segments
      refine .strengthen _ (fun _ holds => holds) (.assuming fun isHead => ?_)
      exact (triple_census_of_frame loaded).weaken (fun _ => id)
        (fun _ _ shows => ⟨e, isHead, shows⟩) fun _ => id

/-- What holds of the initial census and of a new environment holds when the
processors enter the scheduler. -/
theorem census_of_boot {invariant : Census → Prop}
    (initially : ∀ mem kernPgdir,
      invariant (Kernel.initial mem kernPgdir).census)
    (creates : ∀ census cpu e, invariant census →
      census.roster.freeList = some e →
      invariant (census.afterDeed cpu (.create e .runnable)))
    {kernel : Kernel} (boot : kernel.Boot) : invariant kernel.census := by
  induction boot with
  | initial booted => exact initially _ _
  | @create kernel next here entry segments boot created induction =>
      have creation : Triple (Shows kernel.census)
          (envCreate here entry segments) _ (fun _ => True) :=
        triple_envCreate_census entry segments
      have run := creation.run kernel rfl
      rw [created] at run
      obtain ⟨e, isHead, shows⟩ := run
      rw [show next.census = _ from shows]
      exact creates kernel.census here e induction isHead

theorem orderly_of_step {kernel next : Kernel} {event : TrapEvent}
    (orderly : kernel.census.Orderly)
    (step : (smp build).Step kernel event next) : next.census.Orderly := by
  obtain ⟨deed, -, fits, left⟩ := deed_of_entry step.2
  exact (orderly.afterDeed fits).leaves left

theorem orderly_of_reachable {allowed : Kernel → TrapEvent → Prop}
    {kernel : Kernel} (reachable : (smp build).Reachable allowed kernel) :
    kernel.census.Orderly := by
  have booted : ∀ kernel : Kernel, kernel.Boot → kernel.census.Orderly :=
    fun _ boot => census_of_boot Census.orderly_initial
      (fun _ _ _ orderly isHead => orderly.create isHead (.inl rfl)) boot
  exact reachable.invariant booted fun _ _ _ orderly _ step =>
    orderly_of_step orderly step

/-! ## The other processors -/

/-- A processor that takes no step runs what it ran. -/
theorem current_of_step {kernel next : Kernel} {event : TrapEvent} {other : Nat}
    (step : (smp build).Step kernel event next) (different : other ≠ event.cpu) :
    next.cpus other = kernel.cpus other := by
  obtain ⟨deed, -, -, left⟩ := deed_of_entry step.2
  have done : (kernel.census.afterDeed event.cpu deed).roster.current other =
      kernel.census.roster.current other := by
    cases deed with
    | exit e => exact Function.update_of_ne different _ _
    | nothing => rfl
    | setStatus e status => rfl
    | mark e => rfl
    | release e => rfl
    | create e status => rfl
  have dispatched : ∀ (roster : Roster) (e : Nat),
      (roster.dispatch event.cpu e).current other = roster.current other := by
    intro roster e
    rw [Roster.dispatch_current, Function.update_of_ne different]
  have gone : next.census.roster.current other =
      (kernel.census.afterDeed event.cpu deed).roster.current other := by
    generalize kernel.census.afterDeed event.cpu deed = middle at left
    generalize next.census = last at left
    cases left with
    | resumes _ _ => exact dispatched _ _
    | picks _ _ _ => exact dispatched _ _
    | stays _ _ _ _ => exact dispatched _ _
    | halts _ _ => exact Function.update_of_ne different _ _
  exact gone.trans done

theorem idle_of_goes (other : Nat) {kernel : Kernel} {events : List TrapEvent}
    (goes : Machine.Along (TrapEvent.Goes build) (TrapEvent.after build) kernel
      events)
    (elsewhere : ∀ event ∈ events, other ≠ event.cpu) :
    (events.foldl (TrapEvent.after build) kernel).cpus other =
      kernel.cpus other := by
  induction events generalizing kernel with
  | nil => rfl
  | cons event events induction =>
      obtain ⟨first, rest⟩ := goes
      rw [List.foldl_cons, induction rest fun event member =>
        elsewhere event (List.mem_cons_of_mem _ member)]
      exact current_of_step first.step (elsewhere event List.mem_cons_self)

end FeaturesOS.Scheduler

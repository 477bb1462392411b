import FeaturesOS.LinkedList
import FeaturesOS.Scheduler.Env

/-!
# Rosters

Which environments exist, which of them may be dispatched and which processor
runs which.  A roster is the part of the kernel state that decides whether an
environment can run twice at once, or run after it has been freed.

While one processor is in the kernel the others execute user code.  `Inside` is
what holds then, and `Settled` is what holds when no processor is in the kernel.
-/

namespace FeaturesOS.Scheduler

structure Roster where
  status : Nat → EnvStatus
  hasPgdir : Nat → Bool
  link : Nat → Option Nat
  freeList : Option Nat
  current : Nat → Option Nat

namespace Roster

def setStatus (roster : Roster) (e : Nat) (status : EnvStatus) : Roster :=
  { roster with status := Function.update roster.status e status }

def setCurrent (roster : Roster) (cpu : Nat) (env : Option Nat) : Roster :=
  { roster with current := Function.update roster.current cpu env }

/-- A new environment leaves the free list. -/
def allocate (roster : Roster) (e : Nat) (status : EnvStatus) : Roster :=
  { roster with
    status := Function.update roster.status e status
    freeList := roster.link e }

/-- A page directory for a new environment. -/
def addPgdir (roster : Roster) (e : Nat) : Roster :=
  { roster with hasPgdir := Function.update roster.hasPgdir e true }

/-- A freed environment goes back to the free list. -/
def release (roster : Roster) (e : Nat) : Roster :=
  { roster with
    status := Function.update roster.status e .free
    hasPgdir := Function.update roster.hasPgdir e false
    link := Function.update roster.link e roster.freeList
    freeList := some e }

/-- `e` is the current environment of a processor other than `cpu`. -/
def RunsElsewhere (roster : Roster) (cpu e : Nat) : Prop :=
  ∃ other, other ≠ cpu ∧ roster.current other = some e

/-- No environment that a processor other than `cpu` runs has been freed. -/
structure Alive (roster : Roster) (cpu : Nat) : Prop where
  held : ∀ other, other ≠ cpu → ∀ e, roster.current other = some e →
    roster.status e ≠ .free
  mapped : ∀ e, roster.status e ≠ .free → roster.hasPgdir e = true
  freeNodes : ∃ nodes, Linked roster.link roster.freeList nodes ∧
    nodes.Nodup ∧ ∀ e ∈ nodes, roster.status e = .free

/-- What holds while `cpu` is in the kernel and the others run `others`.  The
`strict` form includes that what they run has not been freed. -/
structure Inside (roster : Roster) (strict : Prop) (others : Nat → Option Nat)
    (cpu : Nat) : Prop where
  exclusive : ∀ first second e, roster.current first = some e →
    roster.current second = some e → first = second
  held : ∀ other, other ≠ cpu → ∀ e, roster.current other = some e →
    roster.status e ≠ .runnable
  unmoved : ∀ other, other ≠ cpu → roster.current other = others other
  alive : strict → roster.Alive cpu

/-- What holds when `cpu` leaves the kernel. -/
structure Outside (roster : Roster) (strict : Prop) (others : Nat → Option Nat)
    (cpu : Nat) : Prop where
  inside : roster.Inside strict others cpu
  own : ∀ e, roster.current cpu = some e →
    roster.status e ≠ .runnable ∧ (strict → roster.status e ≠ .free)

/-- What holds when every processor is outside of the kernel. -/
def Settled (roster : Roster) (strict : Prop) : Prop :=
  ∀ cpu, roster.Outside strict roster.current cpu

variable {roster : Roster} {strict : Prop} {others : Nat → Option Nat}
variable {cpu e : Nat}

theorem Outside.settled (outside : roster.Outside strict others cpu) :
    roster.Settled strict := by
  have held : ∀ here e, roster.current here = some e →
      roster.status e ≠ .runnable ∧ (strict → roster.status e ≠ .free) := by
    intro here e current
    by_cases same : here = cpu
    · subst here
      exact outside.own e current
    · exact ⟨outside.inside.held here same e current,
        fun isStrict => (outside.inside.alive isStrict).held here same e current⟩
  intro here
  refine ⟨⟨outside.inside.exclusive, ?_, fun _ _ => rfl, ?_⟩, held here⟩
  · intro other _ e current
    exact (held other e current).1
  · intro isStrict
    have alive := outside.inside.alive isStrict
    refine ⟨?_, alive.mapped, alive.freeNodes⟩
    intro other _ e current
    exact (held other e current).2 isStrict

/-- Two settled processors run different environments. -/
theorem Settled.exclusive (settled : roster.Settled strict) {first second : Nat}
    (atFirst : roster.current first = some e)
    (atSecond : roster.current second = some e) : first = second :=
  (settled first).inside.exclusive first second e atFirst atSecond

namespace Inside

/-- The own environment of a processor runs nowhere else. -/
theorem own (inside : roster.Inside strict others cpu)
    (current : roster.current cpu = some e) :
    ¬ roster.RunsElsewhere cpu e := by
  rintro ⟨other, different, elsewhere⟩
  exact different (inside.exclusive other cpu e elsewhere current)

/-- A runnable environment runs nowhere else. -/
theorem of_runnable (inside : roster.Inside strict others cpu)
    (runnable : roster.status e = .runnable) :
    ¬ roster.RunsElsewhere cpu e := by
  rintro ⟨other, different, elsewhere⟩
  exact inside.held other different e elsewhere runnable

theorem setStatus (inside : roster.Inside strict others cpu)
    {status : EnvStatus} (live : strict → roster.status e ≠ .free)
    (lives : status ≠ .free)
    (alone : status = .runnable → ¬ roster.RunsElsewhere cpu e) :
    (roster.setStatus e status).Inside strict others cpu := by
  refine ⟨inside.exclusive, ?_, inside.unmoved, ?_⟩
  · intro other different f current
    by_cases same : f = e
    · subst f
      simp only [Roster.setStatus, Function.update_self]
      exact fun runnable => alone runnable ⟨other, different, current⟩
    · simp only [Roster.setStatus, Function.update_of_ne same]
      exact inside.held other different f current
  · intro isStrict
    have alive := inside.alive isStrict
    obtain ⟨nodes, linked, nodup, free⟩ := alive.freeNodes
    refine ⟨?_, ?_, nodes, linked, nodup, ?_⟩
    · intro other different f current
      by_cases same : f = e
      · simpa [Roster.setStatus, same] using lives
      · simpa [Roster.setStatus, same] using
          alive.held other different f current
    · intro f lives
      by_cases same : f = e
      · subst f
        exact alive.mapped _ (live isStrict)
      · exact alive.mapped f (by simpa [Roster.setStatus, same] using lives)
    · intro f member
      have different : f ≠ e := by
        rintro rfl
        exact live isStrict (free f member)
      simpa [Roster.setStatus, different] using free f member

theorem addPgdir (inside : roster.Inside strict others cpu) :
    (roster.addPgdir e).Inside strict others cpu := by
  refine ⟨inside.exclusive, inside.held, inside.unmoved, ?_⟩
  intro isStrict
  have alive := inside.alive isStrict
  refine ⟨alive.held, ?_, alive.freeNodes⟩
  intro f lives
  by_cases same : f = e
  · subst f
    simp [Roster.addPgdir]
  · simpa [Roster.addPgdir, same] using alive.mapped f lives

/-- A new environment that nobody may dispatch yet. -/
theorem allocate (inside : roster.Inside strict others cpu)
    (head : roster.freeList = some e) (hasPgdir : roster.hasPgdir e = true) :
    (roster.allocate e .notRunnable).Inside strict others cpu := by
  refine ⟨inside.exclusive, ?_, inside.unmoved, ?_⟩
  · intro other different f current
    by_cases same : f = e
    · simp [Roster.allocate, same]
    · simpa [Roster.allocate, same] using inside.held other different f current
  · intro isStrict
    have alive := inside.alive isStrict
    obtain ⟨nodes, linked, nodup, free⟩ := alive.freeNodes
    rw [head] at linked
    obtain ⟨rest, rfl, tail⟩ := linked.of_some
    refine ⟨?_, ?_, rest, tail, (List.nodup_cons.mp nodup).2, ?_⟩
    · intro other different f current
      by_cases same : f = e
      · simp [Roster.allocate, same]
      · simpa [Roster.allocate, same] using
          alive.held other different f current
    · intro f lives
      by_cases same : f = e
      · subst f
        exact hasPgdir
      · exact alive.mapped f (by simpa [Roster.allocate, same] using lives)
    · intro f member
      have distinct : f ≠ e := by
        rintro rfl
        exact (List.nodup_cons.mp nodup).1 member
      simpa [Roster.allocate, distinct] using
        free f (List.mem_cons_of_mem _ member)

theorem release (inside : roster.Inside strict others cpu)
    (live : strict → roster.status e ≠ .free)
    (alone : strict → ¬ roster.RunsElsewhere cpu e) :
    (roster.release e).Inside strict others cpu := by
  refine ⟨inside.exclusive, ?_, inside.unmoved, ?_⟩
  · intro other different f current
    by_cases same : f = e
    · simp [Roster.release, same]
    · simpa [Roster.release, same] using inside.held other different f current
  · intro isStrict
    have alive := inside.alive isStrict
    obtain ⟨nodes, linked, nodup, free⟩ := alive.freeNodes
    have absent : e ∉ nodes := fun member => live isStrict (free e member)
    refine ⟨?_, ?_, e :: nodes, linked.push absent,
      List.nodup_cons.mpr ⟨absent, nodup⟩, ?_⟩
    · intro other different f current
      have distinct : f ≠ e := by
        rintro rfl
        exact alone isStrict ⟨other, different, current⟩
      simpa [Roster.release, distinct] using
        alive.held other different f current
    · intro f lives
      by_cases same : f = e
      · subst f
        simp [Roster.release] at lives
      · simp only [Roster.release, Function.update_of_ne same] at lives ⊢
        exact alive.mapped f lives
    · intro f member
      by_cases same : f = e
      · subst f
        simp [Roster.release]
      · have inRest := (List.mem_cons.mp member).resolve_left same
        simpa [Roster.release, same] using free f inRest

/-- Only the own processor changes what it runs. -/
theorem setCurrent (inside : roster.Inside strict others cpu)
    {env : Option Nat}
    (alone : ∀ e, env = some e → ¬ roster.RunsElsewhere cpu e) :
    (roster.setCurrent cpu env).Inside strict others cpu := by
  refine ⟨?_, ?_, ?_, ?_⟩
  · intro first second f atFirst atSecond
    by_cases firstHere : first = cpu
    · by_cases secondHere : second = cpu
      · rw [firstHere, secondHere]
      · subst first
        simp only [Roster.setCurrent, Function.update_self,
          Function.update_of_ne secondHere] at atFirst atSecond
        exact absurd ⟨second, secondHere, atSecond⟩ (alone f atFirst)
    · by_cases secondHere : second = cpu
      · subst second
        simp only [Roster.setCurrent, Function.update_self,
          Function.update_of_ne firstHere] at atFirst atSecond
        exact absurd ⟨first, firstHere, atFirst⟩ (alone f atSecond)
      · simp only [Roster.setCurrent, Function.update_of_ne firstHere,
          Function.update_of_ne secondHere] at atFirst atSecond
        exact inside.exclusive first second f atFirst atSecond
  · intro other different f current
    simp only [Roster.setCurrent, Function.update_of_ne different] at current
    exact inside.held other different f current
  · intro other different
    simp only [Roster.setCurrent, Function.update_of_ne different]
    exact inside.unmoved other different
  · intro isStrict
    have alive := inside.alive isStrict
    refine ⟨?_, alive.mapped, alive.freeNodes⟩
    intro other different f current
    simp only [Roster.setCurrent, Function.update_of_ne different] at current
    exact alive.held other different f current

/-- A processor that takes an environment which runs nowhere else. -/
theorem dispatch (inside : roster.Inside strict others cpu)
    (live : strict → roster.status e ≠ .free)
    (alone : ¬ roster.RunsElsewhere cpu e) :
    ((roster.setCurrent cpu (some e)).setStatus e .running).Outside strict
      others cpu := by
  have taken : (roster.setCurrent cpu (some e)).Inside strict others cpu :=
    inside.setCurrent (fun f same => by cases same; exact alone)
  refine ⟨taken.setStatus live (by decide)
    (fun runnable => by cases runnable), ?_⟩
  intro f current
  have same : f = e := by
    simpa [Roster.setStatus, Roster.setCurrent] using current.symm
  subst f
  simp [Roster.setStatus]

/-- A processor that runs no environment any more. -/
theorem halt (inside : roster.Inside strict others cpu) :
    (roster.setCurrent cpu none).Outside strict others cpu := by
  refine ⟨inside.setCurrent (fun f same => by cases same), ?_⟩
  intro f current
  simp [Roster.setCurrent] at current

end Inside

end Roster

namespace Kernel

/-- The roster of a kernel state. -/
def roster (kernel : Kernel) : Roster :=
  { status := fun e => (kernel.envs e).envStatus
    hasPgdir := fun e => (kernel.envs e).envPgdir.isSome
    link := fun e => (kernel.envs e).envLink
    freeList := kernel.envFreeList
    current := kernel.cpus }

@[simp] theorem roster_setMem (kernel : Kernel) (mem : PhysMem) :
    (kernel.setMem mem).roster = kernel.roster := rfl

@[simp] theorem roster_setCola (kernel : Kernel) (index : Fin 4)
    (cola : MlfqCola) : (kernel.setCola index cola).roster = kernel.roster :=
  rfl

@[simp] theorem roster_setCurenv (kernel : Kernel) (cpu : Nat)
    (env : Option Nat) :
    (kernel.setCurenv cpu env).roster = kernel.roster.setCurrent cpu env :=
  rfl

/-- An update that touches only the status of an environment. -/
theorem roster_updateEnv_status (kernel : Kernel) (e : Nat)
    {change : Env → Env}
    (pgdir : ∀ env, (change env).envPgdir = env.envPgdir)
    (link : ∀ env, (change env).envLink = env.envLink) :
    (kernel.updateEnv e change).roster =
      kernel.roster.setStatus e (change (kernel.envs e)).envStatus := by
  unfold roster Roster.setStatus updateEnv setEnv
  congr 1 <;> funext f <;> by_cases same : f = e <;>
    simp [same, pgdir, link, Function.update_of_ne]

/-- An update of fields that the roster does not show. -/
theorem roster_updateEnv_same (kernel : Kernel) (e : Nat)
    {change : Env → Env}
    (status : ∀ env, (change env).envStatus = env.envStatus)
    (pgdir : ∀ env, (change env).envPgdir = env.envPgdir)
    (link : ∀ env, (change env).envLink = env.envLink) :
    (kernel.updateEnv e change).roster = kernel.roster := by
  rw [roster_updateEnv_status kernel e pgdir link, status]
  unfold Roster.setStatus
  rw [show (kernel.envs e).envStatus = kernel.roster.status e from rfl,
    Function.update_eq_self]

end Kernel

end FeaturesOS.Scheduler

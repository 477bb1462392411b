import Mathlib.Data.List.Induction
import FeaturesOS.Scheduler.Mail
import FeaturesOS.Scheduler.Orderly

/-!
# The rendezvous of senders and receivers

What each environment has done with messages is recorded beside the kernel state.
A receive call that blocks is followed in the record of its environment by the one
message that it returns with, and by nothing else before.
-/

namespace FeaturesOS.Scheduler

open Entry

/-! ## Records -/

/-- What happens to an environment: its own traps, its calls of `sys_ipc_recv`
that block or return an error, and the messages that it is sent. -/
inductive Record where
  | traps
  | blocks
  | refused
  | delivers (sender value : UInt32)
deriving DecidableEq

/-- Where an environment stands with its messages. -/
inductive Phase where
  | idle
  | blocked
  | served (sender value : UInt32)
  | refused
deriving DecidableEq

def Phase.after (phase : Phase) : Record → Phase
  | .traps =>
      match phase with
      | .served _ _ => .idle
      | _ => phase
  | .blocks => .blocked
  | .refused => .refused
  | .delivers sender value => .served sender value

def phase (history : List Record) : Phase :=
  history.foldl Phase.after .idle

/-- What may happen next to an environment: it only gets a message while it is
blocked, and nothing else then. -/
def Phase.Admits : Phase → Record → Prop
  | .blocked, .delivers _ _ => True
  | .blocked, _ => False
  | _, .delivers _ _ => False
  | _, _ => True

/-- Receive calls that block and messages come in pairs. -/
inductive Paired : List Record → Prop where
  | nil : Paired []
  | snoc {history : List Record} {record : Record} :
      Paired history → (phase history).Admits record →
      Paired (history ++ [record])

theorem phase_snoc (history : List Record) (record : Record) :
    phase (history ++ [record]) = (phase history).after record := by
  unfold phase
  rw [List.foldl_append]
  rfl

namespace Paired

variable {history before after : List Record} {record : Record}

theorem admits (paired : Paired (history ++ [record])) :
    Paired history ∧ (phase history).Admits record := by
  generalize whole : history ++ [record] = all at paired
  cases paired with
  | nil => exact absurd whole (by simp)
  | snoc earlier admits =>
      obtain ⟨rfl, same⟩ := List.append_inj' whole rfl
      cases same
      exact ⟨earlier, admits⟩

theorem initial (paired : Paired (before ++ after)) : Paired before := by
  induction after using List.reverseRecOn with
  | nil => simpa using paired
  | append_singleton rest last induction =>
      rw [← List.append_assoc] at paired
      exact induction paired.admits.1

/-- Only a receive call that has just blocked leaves its environment blocked. -/
theorem blocked_iff (paired : Paired history) :
    phase history = .blocked ↔ ∃ earlier, history = earlier ++ [.blocks] := by
  constructor
  · intro blocked
    cases paired with
    | nil => cases blocked
    | @snoc earlier record _ admits =>
        rw [phase_snoc] at blocked
        cases record with
        | blocks => exact ⟨earlier, rfl⟩
        | traps =>
            cases before : phase earlier with
            | blocked =>
                rw [before] at admits
                exact admits.elim
            | idle | served | refused =>
                rw [before] at blocked
                cases blocked
        | refused => cases blocked
        | delivers => cases blocked
  · rintro ⟨earlier, rfl⟩
    exact phase_snoc earlier .blocks

/-- A message arrives at a receive call that has just blocked. -/
theorem received {sender value : UInt32}
    (paired : Paired (before ++ .delivers sender value :: after)) :
    ∃ earlier, before = earlier ++ [.blocks] := by
  have upTo : Paired ((before ++ [.delivers sender value]) ++ after) := by
    simpa using paired
  obtain ⟨earlier, admits⟩ := upTo.initial.admits
  apply earlier.blocked_iff.mp
  cases stands : phase before with
  | blocked => rfl
  | idle | served | refused =>
      rw [stands] at admits
      exact admits.elim

/-- A receive call that has blocked ends with a message. -/
theorem satisfied (paired : Paired (before ++ .blocks :: record :: after)) :
    ∃ sender value, record = .delivers sender value := by
  have upTo : Paired (((before ++ [.blocks]) ++ [record]) ++ after) := by
    simpa using paired
  obtain ⟨earlier, admits⟩ := upTo.initial.admits
  rw [earlier.blocked_iff.mpr ⟨before, rfl⟩] at admits
  cases record with
  | delivers sender value => exact ⟨sender, value, rfl⟩
  | traps | blocks | refused => exact admits.elim

end Paired

/-! ## The machine with its records -/

abbrev Log := List (Nat × Record)

/-- The records of one environment. -/
def history (e : Nat) (log : Log) : List Record :=
  log.filterMap fun (f, record) => if f = e then some record else none

/-- The message of a call that has returned 0. -/
def deliveries (kernel next : Kernel) (cpu c : Nat) (frame : Trapframe) : Log :=
  match envid2env cpu frame.tfRegs.regEdx false kernel with
  | .ok (some dst) =>
      if frame.Calls 11 ∧ (next.mail c).eax = 0 then
        [(dst, .delivers (kernel.envs c).envId frame.tfRegs.regEcx)]
      else
        []
  | _ => []

def TrapEvent.records (kernel next : Kernel) : TrapEvent → Log
  | .wake _ => []
  | .user cpu _ frame _ =>
      match kernel.cpus cpu with
      | none => []
      | some c =>
          if frame.Calls 12 then
            [(c, if UserPage frame.tfRegs.regEdx then .blocks else .refused)]
          else
            (c, .traps) :: deliveries kernel next cpu c frame

/-- The kernel on several processors, with the records of its environments. -/
def messages (build : Build) : Machine (Kernel × Log) TrapEvent where
  Initial state := state.1.Boot ∧ state.2 = []
  Step state event next :=
    (smp build).Step state.1 event next.1 ∧
      next.2 = state.2 ++ event.records state.1 next.1

/-- Environments only exchange messages, and nobody sends to an environment whose
last receive call has returned an error. -/
def TrapEvent.Regular (state : Kernel × Log) : TrapEvent → Prop
  | .wake _ => True
  | .user cpu _ frame _ =>
      frame.Peaceful ∧
        (frame.Calls 11 → ∀ e,
          state.1.Finds cpu frame.tfRegs.regEdx false e →
          phase (history e state.2) ≠ .refused)

section Histories

variable {e f : Nat} {record : Record}

@[simp] theorem history_nil : history e [] = [] := rfl

theorem history_append (first second : Log) :
    history e (first ++ second) = history e first ++ history e second :=
  List.filterMap_append

theorem history_own (rest : Log) :
    history e ((e, record) :: rest) = record :: history e rest := by
  simp [history]

theorem history_other (other : f ≠ e) (rest : Log) :
    history e ((f, record) :: rest) = history e rest := by
  simp [history, other]

end Histories

/-! ## Standing -/

/-- What the fields of an environment say in each phase. -/
def Phase.Fits (mail : Mail) (parked awake unused : Prop) : Phase → Prop
  | .idle => mail.recving = false ∧ (awake ∨ unused)
  | .blocked => mail.recving = true ∧ parked
  | .served sender value =>
      mail = { recving := false, value := value, sender := sender, eax := 0 } ∧
        awake
  | .refused => mail.recving = true ∧ (awake ∨ unused)

def Standing (kernel : Kernel) (e : Nat) (phase : Phase) : Prop :=
  phase.Fits (kernel.mail e) (kernel.census.Parked e) (kernel.census.Awake e)
    (kernel.census.roster.status e = .free)

/-- What stands so before the processor leaves the kernel. -/
def StandingAt (mail : Nat → Mail) (census : Census) (cpu e : Nat)
    (phase : Phase) : Prop :=
  phase.Fits (mail e) (census.Parking cpu e) (census.Awake e)
    (census.roster.status e = .free)

theorem Phase.Fits.mono {mail : Mail} {phase : Phase}
    {parked parked' awake awake' unused unused' : Prop}
    (fits : phase.Fits mail parked awake unused)
    (parks : parked → parked') (wakes : awake → awake')
    (rests : unused → unused') : phase.Fits mail parked' awake' unused' := by
  cases phase with
  | idle => exact ⟨fits.1, fits.2.imp wakes rests⟩
  | blocked => exact ⟨fits.1, parks fits.2⟩
  | served sender value => exact ⟨fits.1, wakes fits.2⟩
  | refused => exact ⟨fits.1, fits.2.imp wakes rests⟩

/-- A trap of the environment itself only changes its `eax`. -/
theorem Phase.Fits.traps {mail : Mail} {phase : Phase}
    {parked awake unused : Prop} (fits : phase.Fits mail parked awake unused)
    (eax : UInt32) :
    (phase.after .traps).Fits { mail with eax := eax } parked awake unused := by
  cases phase with
  | idle => exact fits
  | blocked => exact fits
  | served sender value =>
      obtain ⟨same, isAwake⟩ := fits
      subst same
      exact ⟨rfl, .inl isAwake⟩
  | refused => exact fits

variable {build : Build} {cpu e c : Nat} {kernel next : Kernel}
variable {mail : Nat → Mail} {census : Census} {stands : Phase}

theorem StandingAt.leaves (standing : StandingAt mail census cpu e stands)
    (left : LeftDesk cpu mail census next) : Standing next e stands := by
  unfold Standing
  rw [left.holds]
  exact standing.mono (left.parks.parked e) (left.parks.awake e)
    (left.parks.unused e)

theorem Standing.at (standing : Standing kernel e stands) (cpu : Nat)
    (mails : mail e = kernel.mail e)
    (status : census.roster.status e = kernel.census.roster.status e)
    (currents : census.roster.current = kernel.census.roster.current) :
    StandingAt mail census cpu e stands := by
  unfold StandingAt
  rw [mails]
  refine standing.mono ?_ ?_ ?_
  · intro parked
    refine ⟨status.trans parked.status, ?_⟩
    intro other _
    rw [currents]
    exact parked.away other
  · intro awake
    unfold Census.Awake
    rw [status]
    exact awake
  · exact status.trans

/-- What runs is not blocked. -/
theorem Standing.current (standing : Standing kernel c stands)
    (current : kernel.cpus cpu = some c) :
    stands ≠ .blocked ∧
      (kernel.census.Awake c ∨ kernel.census.roster.status c = .free) := by
  cases stands with
  | idle => exact ⟨by simp, standing.2⟩
  | blocked => exact absurd current (standing.2.away cpu)
  | served sender value => exact ⟨by simp, .inl standing.2⟩
  | refused => exact ⟨by simp, standing.2⟩

/-- A receiver that nobody has refused is blocked. -/
theorem Standing.receiving (standing : Standing kernel e stands)
    (receives : (kernel.mail e).recving = true) (notRefused : stands ≠ .refused) :
    stands = .blocked := by
  cases stands with
  | idle => cases standing.1.symm.trans receives
  | blocked => rfl
  | served sender value =>
      have deaf : (kernel.mail e).recving = false := by rw [standing.1]
      cases deaf.symm.trans receives
  | refused => exact absurd rfl notRefused

/-! ## The saved registers -/

theorem mail_saveFrame (kernel : Kernel) (c : Nat) (frame : Trapframe) :
    (kernel.saveFrame c frame).mail =
      Function.update kernel.mail c
        { kernel.mail c with eax := frame.tfRegs.regEax } :=
  mail_updateEnv kernel c _

theorem census_saveFrame (kernel : Kernel) (c : Nat) (frame : Trapframe) :
    (kernel.saveFrame c frame).census = kernel.census :=
  kernel.census_updateEnv_same c (fun _ => rfl) (fun _ => rfl) (fun _ => rfl)
    fun _ => rfl

theorem envid2env_saveFrame (kernel : Kernel) (cpu c : Nat) (envid : UInt32)
    (frame : Trapframe) :
    envid2env cpu envid false (kernel.saveFrame c frame) =
      envid2env cpu envid false kernel := by
  have status : ∀ f, ((kernel.saveFrame c frame).envs f).envStatus =
      (kernel.envs f).envStatus := fun f =>
    congrFun (congrArg (·.roster.status) (census_saveFrame kernel c frame)) f
  have envId : ∀ f, ((kernel.saveFrame c frame).envs f).envId =
      (kernel.envs f).envId := fun f =>
    congrFun (congrArg Census.envId (census_saveFrame kernel c frame)) f
  have currents : (kernel.saveFrame c frame).cpus = kernel.cpus := rfl
  unfold envid2env
  simp only [status, envId, currents, Bool.false_eq_true, false_and, if_false]

theorem finds_saveFrame {envid : UInt32} {frame : Trapframe} :
    (kernel.saveFrame c frame).Finds cpu envid false e ↔
      kernel.Finds cpu envid false e := by
  unfold Kernel.Finds
  rw [envid2env_saveFrame]

theorem recving_saveFrame {frame : Trapframe} :
    ((kernel.saveFrame c frame).mail e).recving = (kernel.mail e).recving := by
  rw [mail_saveFrame]
  by_cases same : e = c
  · subst same
    rw [Function.update_self]
  · rw [Function.update_of_ne same]

theorem Kernel.Answers.of_saveFrame {frame : Trapframe} {envid srcva : UInt32}
    {r : Int}
    (answers : (kernel.saveFrame c frame).Answers cpu envid srcva r) :
    kernel.Answers cpu envid srcva r := by
  constructor
  · intro unknown
    exact answers.unknown fun e finds => unknown e (finds_saveFrame.mp finds)
  · intro e finds deaf
    exact answers.deaf e (finds_saveFrame.mpr finds)
      (recving_saveFrame.trans deaf)
  · intro e finds receives
    exact answers.word e (finds_saveFrame.mpr finds)
      (recving_saveFrame.trans receives)
  · intro e finds receives
    exact answers.page e (finds_saveFrame.mpr finds)
      (recving_saveFrame.trans receives)

/-- A call of `sys_ipc_try_send` returns 0 or one of four errors. -/
theorem Kernel.Answers.code {envid srcva : UInt32} {r : Int}
    (answers : kernel.Answers cpu envid srcva r) (failed : r ≠ 0) :
    (Int32.ofInt r).toUInt32 ≠ 0 := by
  have codes : r = -eBadEnv ∨ r = -eIpcNotRecv ∨ PageResult r := by
    by_cases found : ∃ e, kernel.Finds cpu envid false e
    · obtain ⟨e, finds⟩ := found
      cases receives : (kernel.mail e).recving with
      | false => exact .inr (.inl (answers.deaf e finds receives))
      | true => exact .inr (.inr (answers.page e finds receives))
    · exact .inl (answers.unknown fun e finds => found ⟨e, finds⟩)
  rcases codes with rfl | rfl | rfl | rfl | rfl
  · decide
  · decide
  · exact absurd rfl failed
  · decide
  · decide

/-! ## One trap -/

/-- Every environment stands as its records say. -/
structure Correct (state : Kernel × Log) : Prop where
  settled : state.1.roster.Settled False
  paired : ∀ e, Paired (history e state.2)
  stands : ∀ e, Standing state.1 e (phase (history e state.2))

variable {log : Log} {event : TrapEvent}

/-- A regular trap wakes nobody that another processor runs. -/
theorem Correct.harmless (correct : Correct (kernel, log))
    (regular : event.Regular (kernel, log)) : event.Harmless False kernel := by
  cases event with
  | wake cpu => trivial
  | user cpu surroundings frame faultVa =>
      obtain ⟨peaceful, spares⟩ := regular
      intro current isCurrent _ isCall
      have allowed := peaceful.call isCall
      unfold Kernel.Harmless
      split
      · rename_i number
        rw [number] at allowed
        exact absurd (by decide) allowed
      · rename_i number
        rw [number] at allowed
        exact absurd (by decide) allowed
      · rename_i number
        rw [number] at allowed
        exact absurd (by decide) allowed
      · rename_i number
        intro e finds receives _ elsewhere
        have found := finds_saveFrame.mp finds
        have receiving : (kernel.mail e).recving = true :=
          recving_saveFrame.symm.trans receives
        have stands := correct.stands e
        have blocked := stands.receiving receiving
          (spares ⟨isCall, number⟩ e found)
        rw [blocked] at stands
        obtain ⟨other, _, runs⟩ := elsewhere
        exact stands.2.away other runs
      · trivial

/-- One environment after an event. -/
structure Moves (log : Log) (records : Log) (next : Kernel) (e : Nat) :
    Prop where
  paired : Paired (history e (log ++ records))
  stands : Standing next e (phase (history e (log ++ records)))

theorem Moves.unrecorded {records : Log} (paired : Paired (history e log))
    (none : history e records = [])
    (stands : Standing next e (phase (history e log))) :
    Moves log records next e := by
  have same : history e (log ++ records) = history e log := by
    rw [history_append, none, List.append_nil]
  constructor
  · rw [same]
    exact paired
  · rw [same]
    exact stands

theorem Moves.recorded {records : Log} {record : Record}
    (paired : Paired (history e log)) (one : history e records = [record])
    (admits : (phase (history e log)).Admits record)
    (stands : Standing next e ((phase (history e log)).after record)) :
    Moves log records next e := by
  have same : history e (log ++ records) = history e log ++ [record] := by
    rw [history_append, one]
  constructor
  · rw [same]
    exact paired.snoc admits
  · rw [same, phase_snoc]
    exact stands

theorem Phase.admits_of_ne {record : Record} (free : stands ≠ .blocked)
    (own : ∀ sender value, record ≠ .delivers sender value) :
    stands.Admits record := by
  cases stands with
  | blocked => exact absurd rfl free
  | idle | served | refused =>
      cases record with
      | delivers sender value => exact absurd rfl (own sender value)
      | traps | blocks | refused => trivial

section Step

/-- The environments that a trap is not about stand as before. -/
theorem Correct.others (correct : Correct (kernel, log)) {records : Log}
    (left : LeftDesk cpu mail census next)
    (none : history e records = [])
    (mails : mail e = kernel.mail e)
    (status : census.roster.status e = kernel.census.roster.status e)
    (currents : census.roster.current = kernel.census.roster.current) :
    Moves log records next e :=
  .unrecorded (correct.paired e) none
    (((correct.stands e).at cpu mails status currents).leaves left)

/-- A trap without a message. -/
theorem Correct.traps (correct : Correct (kernel, log))
    (current : kernel.cpus cpu = some c) {eax : UInt32}
    (left : LeftDesk cpu
      (Function.update kernel.mail c { kernel.mail c with eax := eax })
      kernel.census next) :
    Moves log [(c, .traps)] next e := by
  by_cases same : e = c
  · subst same
    have stands := correct.stands e
    have free := (stands.current current).1
    apply Moves.recorded (correct.paired e) (history_own [])
    · exact Phase.admits_of_ne free (by simp)
    · have before := stands.at cpu rfl rfl rfl
      have after := before.traps eax
      refine StandingAt.leaves ?_ left
      unfold StandingAt
      rw [Function.update_self]
      exact after
  · exact correct.others left (history_other (Ne.symm same) [])
      (Function.update_of_ne same _ _) rfl rfl

/-- A receive call that blocks. -/
theorem Correct.blocks (correct : Correct (kernel, log))
    (current : kernel.cpus cpu = some c) {own : Mail}
    (receives : own.recving = true)
    (left : LeftDesk cpu (Function.update kernel.mail c own)
      (kernel.census.onRoster (·.setStatus c .notRunnable)) next) :
    Moves log [(c, .blocks)] next e := by
  by_cases same : e = c
  · subst same
    have stands := correct.stands e
    have free := (stands.current current).1
    apply Moves.recorded (correct.paired e) (history_own [])
    · exact Phase.admits_of_ne free (by simp)
    · refine StandingAt.leaves ?_ left
      unfold StandingAt
      rw [Function.update_self]
      refine ⟨receives, Function.update_self _ _ _, ?_⟩
      intro other different elsewhere
      exact different (correct.settled.exclusive elsewhere current)
  · exact correct.others left (history_other (Ne.symm same) [])
      (Function.update_of_ne same _ _) (Function.update_of_ne same _ _) rfl

/-- A receive call that returns an error. -/
theorem Correct.refuses (correct : Correct (kernel, log))
    (current : kernel.cpus cpu = some c) {own : Mail}
    (receives : own.recving = true)
    (left : LeftDesk cpu (Function.update kernel.mail c own) kernel.census
      next) :
    Moves log [(c, .refused)] next e := by
  by_cases same : e = c
  · subst same
    have stands := correct.stands e
    obtain ⟨free, rests⟩ := stands.current current
    apply Moves.recorded (correct.paired e) (history_own [])
    · exact Phase.admits_of_ne free (by simp)
    · refine StandingAt.leaves ?_ left
      unfold StandingAt
      rw [Function.update_self]
      exact ⟨receives, rests⟩
  · exact correct.others left (history_other (Ne.symm same) [])
      (Function.update_of_ne same _ _) rfl rfl

/-- A message to an environment that is blocked. -/
theorem Correct.delivers (correct : Correct (kernel, log))
    (current : kernel.cpus cpu = some c) {dst : Nat} {sender value : UInt32}
    (eax : UInt32) (blocked : phase (history dst log) = .blocked)
    (mails : mail = Function.update (Function.update kernel.mail dst
      { recving := false, value := value, sender := sender, eax := 0 }) c
      { kernel.mail c with eax := eax })
    (left : LeftDesk cpu mail
      (kernel.census.onRoster (·.setStatus dst .runnable)) next) :
    Moves log [(c, .traps), (dst, .delivers sender value)] next e := by
  subst mails
  have different : dst ≠ c := by
    intro same
    subst same
    exact ((correct.stands dst).current current).1 blocked
  by_cases isDst : e = dst
  · subst isDst
    have one : history e [(c, .traps), (e, .delivers sender value)] =
        [.delivers sender value] :=
      (history_other (Ne.symm different) _).trans (history_own [])
    apply Moves.recorded (correct.paired e) one
    · rw [blocked]
      trivial
    · refine StandingAt.leaves ?_ left
      unfold StandingAt
      rw [Function.update_of_ne different, Function.update_self]
      exact ⟨rfl, .inl (Function.update_self _ _ _)⟩
  · have status : (kernel.census.onRoster
        (·.setStatus dst .runnable)).roster.status e =
        kernel.census.roster.status e := Function.update_of_ne isDst _ _
    have toOther : history e [(dst, .delivers sender value)] = [] :=
      history_other (Ne.symm isDst) []
    by_cases isC : e = c
    · subst isC
      have stands := correct.stands e
      have free := (stands.current current).1
      have one : history e [(e, .traps), (dst, .delivers sender value)] =
          [.traps] := by
        rw [history_own, toOther]
      apply Moves.recorded (correct.paired e) one
      · exact Phase.admits_of_ne free (by simp)
      · have before : StandingAt kernel.mail _ cpu e _ :=
          stands.at cpu rfl status rfl
        have after := before.traps eax
        refine StandingAt.leaves ?_ left
        unfold StandingAt
        rw [Function.update_self]
        exact after
    · have none : history e [(c, .traps), (dst, .delivers sender value)] = [] :=
        (history_other (Ne.symm isC) _).trans toOther
      refine correct.others left none ?_ status rfl
      rw [Function.update_of_ne isC, Function.update_of_ne isDst]

variable {frame : Trapframe}

/-- The answer goes to the `eax` of the environment that trapped. -/
theorem answered_saveFrame (answer : Option Int) :
    ∃ eax, answered c (kernel.saveFrame c frame).mail answer =
      Function.update kernel.mail c { kernel.mail c with eax := eax } := by
  rw [mail_saveFrame]
  cases answer with
  | none => exact ⟨frame.tfRegs.regEax, rfl⟩
  | some r =>
      refine ⟨(Int32.ofInt r).toUInt32, ?_⟩
      rw [answered_some, Function.update_self, Function.update_idem]

theorem eax_of_left {r : Int}
    (left : LeftDesk cpu (answered c mail (some r)) census next) :
    (next.mail c).eax = (Int32.ofInt r).toUInt32 := by
  rw [left.holds, answered_some, Function.update_self]

theorem deliveries_of_failed
    (failed : frame.Calls 11 → (next.mail c).eax ≠ 0) :
    deliveries kernel next cpu c frame = [] := by
  unfold deliveries
  split
  · exact if_neg fun both => failed both.1 both.2
  · rfl

theorem deliveries_of_finds {dst : Nat} (sends : frame.Calls 11)
    (finds : kernel.Finds cpu frame.tfRegs.regEdx false dst)
    (success : (next.mail c).eax = 0) :
    deliveries kernel next cpu c frame =
      [(dst, .delivers (kernel.envs c).envId frame.tfRegs.regEcx)] := by
  unfold deliveries
  rw [finds]
  exact if_pos ⟨sends, success⟩

theorem records_user (current : kernel.cpus cpu = some c)
    (surroundings : Surroundings) (frame : Trapframe) (faultVa : UInt32) :
    TrapEvent.records kernel next (.user cpu surroundings frame faultVa) =
      if frame.Calls 12 then
        [(c, if UserPage frame.tfRegs.regEdx then .blocks else .refused)]
      else
        (c, .traps) :: deliveries kernel next cpu c frame := by
  unfold TrapEvent.records
  dsimp only
  rw [current]

theorem Correct.moves (correct : Correct (kernel, log))
    (current : kernel.cpus cpu = some c) {surroundings : Surroundings}
    {faultVa : UInt32}
    (regular : TrapEvent.Regular (kernel, log)
      (.user cpu surroundings frame faultVa))
    (left : LeftTrap (kernel.saveFrame c frame) cpu c frame next) :
    Moves log
      (TrapEvent.records kernel next (.user cpu surroundings frame faultVa))
      next e := by
  rw [records_user current]
  obtain ⟨answer, mail, census, exchange, left⟩ := left
  have sameCensus := census_saveFrame kernel c frame
  have sends_of : frame.Calls 11 → ¬ frame.Calls 12 := by
    intro sends receives
    cases sends.2.symm.trans receives.2
  cases exchange with
  | quiet notSends notReceives =>
      obtain ⟨eax, mails⟩ :
          ∃ eax, answered c (kernel.saveFrame c frame).mail answer = _ :=
        answered_saveFrame answer
      rw [mails, sameCensus] at left
      rw [if_neg notReceives,
        deliveries_of_failed fun sends => absurd sends notSends]
      exact correct.traps current left
  | @fails r sends failed answers =>
      have code := answers.code failed
      rw [← eax_of_left left] at code
      obtain ⟨eax, mails⟩ :
          ∃ eax, answered c (kernel.saveFrame c frame).mail (some r) = _ :=
        answered_saveFrame (some r)
      rw [mails, sameCensus] at left
      rw [if_neg (sends_of sends), deliveries_of_failed fun _ => code]
      exact correct.traps current left
  | blocks receives userPage =>
      rw [if_pos receives, if_pos userPage]
      rw [mail_saveFrame, sameCensus, Function.update_idem,
        Function.update_self] at left
      exact correct.blocks current rfl left
  | refuses receives refused =>
      rw [if_pos receives, if_neg refused]
      rw [mail_saveFrame, sameCensus, answered_some] at left
      simp only [Function.update_idem, Function.update_self] at left
      exact correct.refuses current rfl left
  | @delivers dst sends finds receives answers =>
      have found := finds_saveFrame.mp finds
      have receiving : (kernel.mail dst).recving = true :=
        recving_saveFrame.symm.trans receives
      have blocked := (correct.stands dst).receiving receiving
        (regular.2 sends dst found)
      have success : (next.mail c).eax = 0 := eax_of_left left
      have sender : ((kernel.saveFrame c frame).envs c).envId =
          (kernel.envs c).envId :=
        congrFun (congrArg Census.envId sameCensus) c
      rw [if_neg (sends_of sends), deliveries_of_finds sends found success]
      have different : c ≠ dst := by
        intro same
        subst same
        exact ((correct.stands c).current current).1 blocked
      rw [sameCensus] at left
      refine correct.delivers current 0 blocked ?_ left
      rw [answered_some, mail_saveFrame, sender,
        Function.update_comm different, Function.update_idem,
        Function.update_self]
      rfl

end Step

/-! ## Runs -/

/-- No environment is receiving. -/
def Deaf (kernel : Kernel) : Prop := ∀ f, (kernel.mail f).recving = false

theorem Deaf.updateEnv {change : Env → Env} (deaf : Deaf kernel)
    (own : (change (kernel.envs e)).envIpcRecving = false) :
    Deaf (kernel.updateEnv e change) := by
  intro f
  rw [mail_updateEnv]
  by_cases same : f = e
  · subst same
    rw [Function.update_self]
    exact own
  · rw [Function.update_of_ne same]
    exact deaf f

theorem Deaf.commitEnv (deaf : Deaf kernel) (parentId : UInt32) (e : Nat) :
    Deaf (Scheduler.commitEnv parentId e kernel) := by
  intro f
  by_cases same : f = e
  · subst same
    simp [Scheduler.commitEnv, Kernel.mail, Kernel.updateEnv, Kernel.setEnv,
      Env.mail]
  · have unchanged := deaf f
    simpa [Scheduler.commitEnv, Kernel.mail, Kernel.updateEnv, Kernel.setEnv,
      Env.mail, same] using unchanged

theorem triple_deaf_of_frame {Result : Type} {entry : KernelM Result}
    (frame : Frame Kernel.mail entry) {left : Kernel → Prop} :
    Triple Deaf entry (fun _ => Deaf) left :=
  frame.triple fun mail => ∀ f, (mail f).recving = false

theorem triple_envSetupVm_deaf {left : Kernel → Prop} :
    Triple Deaf (envSetupVm e) (fun _ => Deaf) left := by
  constructor
  intro kernel deaf
  unfold envSetupVm
  match kernel.mem.pageAlloc true with
  | (_, none) => exact deaf
  | (mem, some page) =>
      exact Deaf.updateEnv deaf (deaf e)

theorem triple_envAlloc_deaf (cpu : Nat) (parentId : UInt32)
    {left : Kernel → Prop} :
    Triple Deaf (envAlloc cpu parentId) (fun _ => Deaf) left := by
  unfold envAlloc
  apply Triple.bind_read
  intro head
  cases head with
  | none => exact .pure fun _ holds => holds.1
  | some e =>
      apply Triple.strengthen Deaf fun _ holds => holds.1
      apply triple_envSetupVm_deaf.bind
      intro r
      apply Triple.ite
      · exact fun _ => .pure fun _ deaf => deaf
      · intro _
        refine .bind_modify Deaf ?_ ?_
        · exact fun kernel deaf => deaf.commitEnv parentId e
        · refine .bind_read fun cola => .bind_read fun envId => ?_
          apply Triple.strengthen Deaf fun _ holds => holds.1.1
          have queued : Triple Deaf (schedAgregarEnv envId cola)
              (fun _ => Deaf) left :=
            triple_deaf_of_frame (frame_schedAgregarEnv blindToQueues_mail _ _)
          apply queued.bind
          exact fun _ => .pure fun _ deaf => deaf

theorem deaf_of_boot (boot : kernel.Boot) : Deaf kernel := by
  induction boot with
  | initial booted => exact fun _ => rfl
  | @create kernel next here entry segments boot created induction =>
      have creates : Triple Deaf (envCreate here entry segments)
          (fun _ => Deaf) fun _ => True := by
        apply (triple_envAlloc_deaf here 0).bind
        intro result
        cases result with
        | error r => exact .stop
        | ok e =>
            exact triple_deaf_of_frame (frame_loadIcode blindToMem_mail e entry
              (fun kernel _ => mail_updateEnv_same kernel e fun _ => rfl)
              segments)
      exact creates.of_returns induction created

theorem rests_of_boot (boot : kernel.Boot) (e : Nat) :
    kernel.census.Awake e ∨ kernel.census.roster.status e = .free := by
  have initially : ∀ (mem : PhysMem) (kernPgdir f : Nat),
      (Kernel.initial mem kernPgdir).census.Awake f ∨
        (Kernel.initial mem kernPgdir).census.roster.status f = .free :=
    fun _ _ _ => .inr rfl
  have creates : ∀ (census : Census) (cpu e : Nat),
      (∀ f, census.Awake f ∨ census.roster.status f = .free) →
      census.roster.freeList = some e →
      ∀ f, (census.afterDeed cpu (.create e .runnable)).Awake f ∨
        (census.afterDeed cpu (.create e .runnable)).roster.status f =
          .free := by
    intro census cpu e rests _ f
    by_cases same : f = e
    · subst same
      exact .inl (.inl (Function.update_self _ _ _))
    · have status : (census.afterDeed cpu (.create e .runnable)).roster.status f =
          census.roster.status f := Function.update_of_ne same _ _
      unfold Census.Awake
      rw [status]
      exact rests f
  exact census_of_boot initially creates boot e

theorem correct_of_boot (boot : kernel.Boot) : Correct (kernel, []) where
  settled := (idle_of_boot boot).settled
  paired _ := .nil
  stands e := ⟨deaf_of_boot boot e, rests_of_boot boot e⟩

theorem Correct.leftTrap (correct : Correct (kernel, log))
    (current : kernel.cpus cpu = some c) {surroundings : Surroundings}
    {frame : Trapframe} {faultVa : UInt32} (peaceful : frame.Peaceful)
    (leaves : trap build surroundings cpu frame faultVa kernel = .leaves next) :
    LeftTrap (kernel.saveFrame c frame) cpu c frame next := by
  have alive : (kernel.envs c).envStatus ≠ .dying := by
    intro dying
    have isDying : kernel.census.roster.status c = .dying := dying
    rcases ((correct.stands c).current current).2 with awake | unused
    · rcases awake with runnable | running
      · cases isDying.symm.trans runnable
      · cases isDying.symm.trans running
    · cases isDying.symm.trans unused
  have traps : Triple (· = kernel)
      (trap build surroundings cpu frame faultVa) (fun _ _ => False) _ :=
    triple_trap_exchange current alive peaceful
  have left := traps.run kernel rfl
  rwa [leaves] at left

theorem correct_of_step {state after : Kernel × Log} (correct : Correct state)
    (regular : event.Regular state)
    (step : (messages build).Step state event after) : Correct after := by
  obtain ⟨kernel, log⟩ := state
  obtain ⟨next, log'⟩ := after
  obtain ⟨step, same⟩ := step
  dsimp only at step same
  subst same
  have settled := (outside_of_step correct.settled (correct.harmless regular)
    step).settled
  have moves : ∀ e, Moves log (event.records kernel next) next e := by
    intro e
    cases event with
    | wake cpu =>
        have yields : Triple (Desk kernel.mail kernel.census)
            (schedYield build cpu : KernelM Unit) (fun _ _ => False) _ :=
          triple_schedYield_desk
        have left := yields.run kernel (desk_self _ rfl)
        have leaves : (schedYield build cpu : KernelM Unit) kernel =
            .leaves next := step.2
        rw [leaves] at left
        exact correct.others left rfl rfl rfl rfl
    | user cpu surroundings frame faultVa =>
        obtain ⟨c, current⟩ := Option.ne_none_iff_exists'.mp step.1
        have left := correct.leftTrap current regular.1 step.2
        exact correct.moves current regular left
  exact ⟨settled, fun e => (moves e).paired, fun e => (moves e).stands⟩

theorem correct_of_reachable {state : Kernel × Log}
    (reachable : (messages build).Reachable
      (fun state event => event.Regular state) state) : Correct state := by
  apply reachable.invariant
  · rintro ⟨kernel, log⟩ ⟨boot, empty⟩
    dsimp only at boot empty
    subst empty
    exact correct_of_boot boot
  · exact fun _ _ _ correct regular step => correct_of_step correct regular step

/-! ## Every message is delivered once -/

/-- `e` is blocked in a call of `sys_ipc_recv` that has not been satisfied. -/
structure Kernel.Awaits (kernel : Kernel) (e : Nat) : Prop where
  recving : (kernel.envs e).envIpcRecving = true
  status : (kernel.envs e).envStatus = .notRunnable
  away : ∀ cpu, kernel.cpus cpu ≠ some e

/-- A message comes right after the receive call that it satisfies, and the call
ends with it: it returns 0 and finds the value and the sender in place. -/
structure DeliveredOnce (state : Kernel × Log) : Prop where
  received : ∀ e before sender value after,
    history e state.2 = before ++ .delivers sender value :: after →
      ∃ earlier, before = earlier ++ [.blocks]
  satisfied : ∀ e before record after,
    history e state.2 = before ++ .blocks :: record :: after →
      ∃ sender value, record = .delivers sender value
  waits : ∀ e, state.1.Awaits e ↔
    ∃ earlier, history e state.2 = earlier ++ [.blocks]
  completes : ∀ e earlier sender value,
    history e state.2 = earlier ++ [.delivers sender value] →
      state.1.mail e =
          { recving := false, value := value, sender := sender, eax := 0 } ∧
        ((state.1.envs e).envStatus = .runnable ∨
          (state.1.envs e).envStatus = .running)

/-- What a call of `sys_ipc_try_send` answers. -/
structure SendAnswered (kernel next : Kernel) (cpu : Nat) (frame : Trapframe)
    (answer : UInt32) : Prop where
  success : answer = 0 →
    ∃ e, kernel.Finds cpu frame.tfRegs.regEdx false e ∧ kernel.Awaits e
  word : ∀ e, kernel.Finds cpu frame.tfRegs.regEdx false e → kernel.Awaits e →
    utop ≤ frame.tfRegs.regEbx → answer = 0
  page : ∀ e, kernel.Finds cpu frame.tfRegs.regEdx false e → kernel.Awaits e →
    answer ≠ 0 →
      (answer = (Int32.ofInt (-eInval)).toUInt32 ∨
        answer = (Int32.ofInt (-eNoMem)).toUInt32) ∧ next.Awaits e

/-- What a call of `sys_ipc_recv` by `c` answers. -/
structure ReceiveAnswered (next : Kernel) (c : Nat) (frame : Trapframe)
    (answer : UInt32) : Prop where
  blocks : UserPage frame.tfRegs.regEdx → next.Awaits c
  refuses : ¬ UserPage frame.tfRegs.regEdx →
    answer = (Int32.ofInt (-eInval)).toUInt32

/-- The answers of the two calls. -/
def TrapEvent.Answered (kernel next : Kernel) : TrapEvent → Prop
  | .wake _ => True
  | .user cpu _ frame _ =>
      ∀ c, kernel.cpus cpu = some c →
        (frame.Calls 11 →
          SendAnswered kernel next cpu frame (next.mail c).eax) ∧
        (frame.Calls 12 → ReceiveAnswered next c frame (next.mail c).eax)

theorem Correct.waits_iff (correct : Correct (kernel, log)) (e : Nat) :
    kernel.Awaits e ↔ phase (history e log) = .blocked := by
  have stands := correct.stands e
  constructor
  · intro waits
    cases isPhase : phase (history e log) with
    | blocked => rfl
    | idle =>
        rw [isPhase] at stands
        have deaf : (kernel.envs e).envIpcRecving = false := stands.1
        cases deaf.symm.trans waits.recving
    | served sender value =>
        rw [isPhase] at stands
        rcases stands.2 with runnable | running
        · cases waits.status.symm.trans runnable
        · cases waits.status.symm.trans running
    | refused =>
        rw [isPhase] at stands
        rcases stands.2 with awake | unused
        · rcases awake with runnable | running
          · cases waits.status.symm.trans runnable
          · cases waits.status.symm.trans running
        · cases waits.status.symm.trans unused
  · intro blocked
    rw [blocked] at stands
    exact ⟨stands.1, stands.2.status, stands.2.away⟩

theorem Correct.deliveredOnce {state : Kernel × Log} (correct : Correct state) :
    DeliveredOnce state where
  received e before sender value after same := by
    have paired := correct.paired e
    rw [same] at paired
    exact paired.received
  satisfied e before record after same := by
    have paired := correct.paired e
    rw [same] at paired
    exact paired.satisfied
  waits e := (correct.waits_iff e).trans (correct.paired e).blocked_iff
  completes e earlier sender value same := by
    have stands := correct.stands e
    rw [same, phase_snoc] at stands
    exact stands

theorem Correct.sendAnswered (correct : Correct (kernel, log))
    (current : kernel.cpus cpu = some c) {surroundings : Surroundings}
    {frame : Trapframe} {faultVa : UInt32} (sends : frame.Calls 11)
    (regular : TrapEvent.Regular (kernel, log)
      (.user cpu surroundings frame faultVa))
    (left : LeftTrap (kernel.saveFrame c frame) cpu c frame next)
    (after : Correct (next, log ++
      TrapEvent.records kernel next (.user cpu surroundings frame faultVa))) :
    SendAnswered kernel next cpu frame (next.mail c).eax := by
  have notReceives : ¬ frame.Calls 12 := by
    intro receives
    cases sends.2.symm.trans receives.2
  obtain ⟨answer, mail, census, exchange, left⟩ := left
  cases exchange with
  | quiet notSends => exact absurd sends notSends
  | blocks receives => exact absurd receives notReceives
  | refuses receives => exact absurd receives notReceives
  | @fails r _ failed answers =>
      have answers := answers.of_saveFrame
      have code := answers.code failed
      have isAnswer := eax_of_left left
      rw [← isAnswer] at code
      constructor
      · exact fun success => absurd success code
      · intro e finds waits isWord
        exact absurd (answers.word e finds waits.recving isWord) failed
      · intro e finds waits _
        have notOwn : c ≠ e := by
          intro same
          subst same
          exact waits.away cpu current
        constructor
        · rw [isAnswer]
          rcases answers.page e finds waits.recving with rfl | rfl | rfl
          · exact absurd rfl failed
          · exact .inl rfl
          · exact .inr rfl
        · apply (after.waits_iff e).mpr
          rw [records_user current, if_neg notReceives,
            deliveries_of_failed fun _ => code, history_append,
            history_other notOwn, history_nil, List.append_nil]
          exact (correct.waits_iff e).mp waits
  | @delivers dst _ finds receives answers =>
      have found := finds_saveFrame.mp finds
      have receiving : (kernel.mail dst).recving = true :=
        recving_saveFrame.symm.trans receives
      have blocked := (correct.stands dst).receiving receiving
        (regular.2 sends dst found)
      have success : (next.mail c).eax = 0 := eax_of_left left
      constructor
      · exact fun _ => ⟨dst, found, (correct.waits_iff dst).mpr blocked⟩
      · exact fun _ _ _ _ => success
      · exact fun _ _ _ failed => absurd success failed

theorem receiveAnswered (current : kernel.cpus cpu = some c)
    {surroundings : Surroundings} {frame : Trapframe} {faultVa : UInt32}
    (receives : frame.Calls 12)
    (left : LeftTrap (kernel.saveFrame c frame) cpu c frame next)
    (after : Correct (next, log ++
      TrapEvent.records kernel next (.user cpu surroundings frame faultVa))) :
    ReceiveAnswered next c frame (next.mail c).eax := by
  have notSends : ¬ frame.Calls 11 := by
    intro sends
    cases sends.2.symm.trans receives.2
  constructor
  · intro userPage
    apply (after.waits_iff c).mpr
    rw [records_user current, if_pos receives, if_pos userPage, history_append,
      history_own, history_nil, phase_snoc]
    rfl
  · intro refused
    obtain ⟨answer, mail, census, exchange, left⟩ := left
    cases exchange with
    | quiet _ notReceives => exact absurd receives notReceives
    | blocks _ userPage => exact absurd userPage refused
    | refuses => exact eax_of_left left
    | fails sends => exact absurd sends notSends
    | delivers sends => exact absurd sends notSends

theorem delivered_once (build : Build) {state : Kernel × Log}
    (reachable : (messages build).Reachable
      (fun state event => event.Regular state) state) :
    DeliveredOnce state ∧ ∀ event next, event.Regular state →
      (messages build).Step state event next →
      event.Answered state.1 next.1 := by
  have correct := correct_of_reachable reachable
  refine ⟨correct.deliveredOnce, ?_⟩
  intro event next regular step
  have after := correct_of_step correct regular step
  obtain ⟨kernel, log⟩ := state
  obtain ⟨next, log'⟩ := next
  obtain ⟨step, same⟩ := step
  dsimp only at step same
  subst same
  cases event with
  | wake cpu => trivial
  | user cpu surroundings frame faultVa =>
      intro c current
      have left := correct.leftTrap current regular.1 step.2
      constructor
      · intro sends
        exact correct.sendAnswered current sends regular left after
      · intro receives
        exact receiveAnswered current receives left after

/-! ## Runs on concrete inputs -/

instance (state : Kernel × Log) : DecidablePred (TrapEvent.Regular state)
  | .wake _ => .isTrue trivial
  | .user _ _ _ _ => inferInstanceAs (Decidable (_ ∧ _))

/-- A small machine with two environments. -/
def pairOfEnvs : Kernel :=
  match envCreate 0 0 [] oneEnv with
  | .returns _ kernel => kernel
  | _ => oneEnv

theorem boot_pairOfEnvs : Kernel.Boot pairOfEnvs := by
  unfold pairOfEnvs
  split
  · rename_i created
    exact .create boot_oneEnv created
  · exact boot_oneEnv

/-- The state and its records after a trap that leaves the kernel. -/
def TrapEvent.recorded (state : Kernel × Log) (event : TrapEvent) :
    Kernel × Log :=
  let next := event.after .roundRobin state.1
  (next, state.2 ++ event.records state.1 next)

/-- A possible event that leaves the kernel and is allowed. -/
def TrapEvent.GoesBy (allowed : Kernel × Log → TrapEvent → Prop)
    (state : Kernel × Log) (event : TrapEvent) : Prop :=
  event.Goes .roundRobin state.1 ∧ allowed state event

instance (allowed : Kernel × Log → TrapEvent → Prop)
    [∀ state, DecidablePred (allowed state)] (state : Kernel × Log) :
    DecidablePred (TrapEvent.GoesBy allowed state) :=
  fun _ => inferInstanceAs (Decidable (_ ∧ _))

theorem reachable_of_goesBy {allowed : Kernel × Log → TrapEvent → Prop}
    {events : List TrapEvent}
    (along : Machine.Along (TrapEvent.GoesBy allowed) TrapEvent.recorded
      (pairOfEnvs, []) events) :
    (messages .roundRobin).Reachable allowed
      (events.foldl TrapEvent.recorded (pairOfEnvs, [])) := by
  have computes : ∀ state (event : TrapEvent), event.GoesBy allowed state →
      (messages .roundRobin).Step state (id event) (event.recorded state) :=
    fun _ _ goes => ⟨goes.1.step, rfl⟩
  have run : (messages .roundRobin).Run allowed (pairOfEnvs, [])
      (events.map id) (events.foldl TrapEvent.recorded (pairOfEnvs, [])) :=
    Machine.run_of_along computes (fun _ _ goes => goes.2) along
  exact ⟨(pairOfEnvs, []), _, ⟨boot_pairOfEnvs, rfl⟩, run⟩

/-- Both environments run, and the first one waits for a message. -/
def receiving : List TrapEvent :=
  [.wake 0, .wake 1, .call 0 12 0 0 0 0 0]

/-- Besides, the second environment sends the value 7 to the first one. -/
def received : List TrapEvent :=
  receiving ++ [.call 1 11 4096 7 utop 0 0]

theorem delivered_once_received :
    let state := received.foldl TrapEvent.recorded (pairOfEnvs, [])
    DeliveredOnce state ∧ ∀ event next, event.Regular state →
      (messages .roundRobin).Step state event next →
      event.Answered state.1 next.1 :=
  delivered_once .roundRobin (reachable_of_goesBy (by decide +kernel))

/-- Environments only exchange messages. -/
def TrapEvent.Peaceful : TrapEvent → Prop
  | .wake _ => True
  | .user _ _ frame _ => frame.Peaceful

instance : DecidablePred TrapEvent.Peaceful
  | .wake _ => .isTrue trivial
  | .user _ _ frame _ => inferInstanceAs (Decidable frame.Peaceful)

/-- A call of `sys_ipc_try_send` by `c` to `e`. -/
inductive Sends (state next : Kernel × Log) (c e : Nat) : Prop where
  | call {cpu : Nat} {surroundings : Surroundings} {frame : Trapframe}
      {faultVa : UInt32} :
      (messages .roundRobin).Reachable (fun _ event => event.Peaceful) state →
      (messages .roundRobin).Step state
        (.user cpu surroundings frame faultVa) next →
      state.1.cpus cpu = some c → frame.Calls 11 →
      state.1.Finds cpu frame.tfRegs.regEdx false e → Sends state next c e

/-- The first environment has called `sys_ipc_recv` with an address that is not
aligned. -/
def refusing : List TrapEvent :=
  [.wake 0, .wake 1, .call 0 12 1 0 0 0 0]

/-- After a receive call that has returned an error, a message is accepted; and
a page that is not aligned is not, though the receiver is blocked. -/
theorem not_delivered_once :
    (¬ ∀ state next c e, Sends state next c e →
      (next.1.mail c).eax = 0 → state.1.Awaits e) ∧
    ¬ ∀ state next c e, Sends state next c e → state.1.Awaits e →
      (next.1.mail c).eax = 0 := by
  constructor
  · intro onlyWaiting
    have reachable : (messages .roundRobin).Reachable
        (fun _ event => event.Peaceful)
        (refusing.foldl TrapEvent.recorded (pairOfEnvs, [])) :=
      reachable_of_goesBy (by decide +kernel)
    have goes : (TrapEvent.call 1 11 4096 7 utop 0 0).Goes .roundRobin
        (refusing.foldl TrapEvent.recorded (pairOfEnvs, [])).1 := by
      decide +kernel
    have sends : Sends _ ((TrapEvent.call 1 11 4096 7 utop 0 0).recorded
        (refusing.foldl TrapEvent.recorded (pairOfEnvs, []))) 1 0 :=
      .call reachable ⟨goes.step, rfl⟩ (by decide +kernel) (by decide)
        (by decide +kernel)
    have waits := onlyWaiting _ _ _ _ sends (by decide +kernel)
    exact absurd waits.status (by decide +kernel)
  · intro everyWaiting
    have regular : (messages .roundRobin).Reachable
        (fun state event => event.Regular state)
        (receiving.foldl TrapEvent.recorded (pairOfEnvs, [])) :=
      reachable_of_goesBy (by decide +kernel)
    have reachable : (messages .roundRobin).Reachable
        (fun _ event => event.Peaceful)
        (receiving.foldl TrapEvent.recorded (pairOfEnvs, [])) :=
      reachable_of_goesBy (by decide +kernel)
    have goes : (TrapEvent.call 1 11 4096 7 1 0 0).Goes .roundRobin
        (receiving.foldl TrapEvent.recorded (pairOfEnvs, [])).1 := by
      decide +kernel
    have sends : Sends _ ((TrapEvent.call 1 11 4096 7 1 0 0).recorded
        (receiving.foldl TrapEvent.recorded (pairOfEnvs, []))) 1 0 :=
      .call reachable ⟨goes.step, rfl⟩ (by decide +kernel) (by decide)
        (by decide +kernel)
    have waits := ((correct_of_reachable regular).waits_iff 0).mpr
      (by decide +kernel)
    exact absurd (everyWaiting _ _ _ _ sends waits) (by decide +kernel)

end FeaturesOS.Scheduler

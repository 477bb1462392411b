import FeaturesOS.Shell.Jobs

/-!
# Who reaps a child of the shell

`run_cmd` waits for a command in the foreground, and `sigchld_handler` for all
children of a group.  Its `bg_pgid` is 0 as long as the shell runs, since only the
children set theirs, so the handler takes the children in the group of the shell:
the ones in the foreground, and not those in the background.
-/

namespace FeaturesOS.Shell

variable {shell next : ShellState} {event : ShellEvent} {job : Job} {p : Nat}

/-! ## Steps -/

/-- The steps of the shell, with what each of them needs. -/
inductive ShellStep (shell : ShellState) : ShellEvent → ShellState → Prop
  | command {front : UInt8} {getenv : List UInt8 → Option (List UInt8)}
      {cmd : List UInt8} {next : ShellState} (idle : shell.handling = false)
      (point : shell.point = .prompt)
      (runs : shell.command (parseLine
        { status := shell.status, getenv := getenv } front cmd) = some next) :
      ShellStep shell (.command front getenv cmd) next
  | setpgid {p : Nat} {job : Job} {next : ShellState}
      (found : shell.jobs[p]? = some job)
      (sets : shell.setpgid p job = some next) :
      ShellStep shell (.setpgid p) next
  | ends {p : Nat} {job : Job} {status : WaitStatus}
      (found : shell.jobs[p]? = some job) (running : job.life = .running) :
      ShellStep shell (.ends p status)
        (shell.setJob p { job with life := .zombie status })
  | waitpid {p : Nat} {job : Job} {next : ShellState}
      (idle : shell.handling = false) (point : shell.point = .waiting p)
      (found : shell.jobs[p]? = some job)
      (returns : shell.waitpid p job = some next) :
      ShellStep shell .waitpid next
  | print {p : Nat} {job : Job} (idle : shell.handling = false)
      (point : shell.point = .printing p)
      (found : shell.jobs[p]? = some job) :
      ShellStep shell .print
        { shell with
          status := printStatusInfo job.parsed shell.status
          point := .prompt }
  | signal (idle : shell.handling = false) :
      ShellStep shell .signal { shell with handling := true }
  | reap {p : Nat} {job : Job} {status : WaitStatus}
      (handling : shell.handling = true) (found : shell.jobs[p]? = some job)
      (zombie : job.life = .zombie status) (group : job.pgid = shell.bgPgid) :
      ShellStep shell (.reap p)
        (shell.setJob p { job with life := .reaped status })
  | handled (handling : shell.handling = true)
      (noZombie : ∀ job ∈ shell.jobs, ¬ shell.Matches job) :
      ShellStep shell .handled { shell with handling := false }

/-- What a step can do. -/
theorem shellStep_of_step (steps : shell.step event = some next) :
    ShellStep shell event next := by
  unfold ShellState.step at steps
  cases event with
  | command front getenv cmd =>
      dsimp only at steps
      split at steps
      · cases steps
      · rename_i idle
        dsimp only [ShellState.main] at steps
        split at steps
        · rename_i point
          exact .command (Bool.eq_false_iff.mpr idle) point steps
        · cases steps
  | setpgid p =>
      obtain ⟨job, found, sets⟩ := Option.bind_eq_some_iff.mp steps
      exact .setpgid found sets
  | ends p status =>
      obtain ⟨job, found, ended⟩ := Option.bind_eq_some_iff.mp steps
      split at ended
      · rename_i running
        cases ended
        exact .ends found running
      · cases ended
  | waitpid =>
      dsimp only at steps
      split at steps
      · cases steps
      · rename_i idle
        dsimp only [ShellState.main] at steps
        split at steps
        · rename_i point
          obtain ⟨job, found, returns⟩ := Option.bind_eq_some_iff.mp steps
          exact .waitpid (Bool.eq_false_iff.mpr idle) point found returns
        · cases steps
  | print =>
      dsimp only at steps
      split at steps
      · cases steps
      · rename_i idle
        dsimp only [ShellState.main] at steps
        split at steps
        · rename_i point
          obtain ⟨job, found, rfl⟩ := Option.map_eq_some_iff.mp steps
          exact .print (Bool.eq_false_iff.mpr idle) point found
        · cases steps
  | signal =>
      dsimp only at steps
      split at steps
      · cases steps
      · rename_i idle
        cases steps
        exact .signal (Bool.eq_false_iff.mpr idle)
  | reap p =>
      dsimp only at steps
      split at steps
      · rename_i handling
        obtain ⟨job, found, reaps⟩ := Option.bind_eq_some_iff.mp steps
        split at reaps
        · rename_i zombie
          split at reaps
          · rename_i group
            cases reaps
            exact .reap handling found zombie group
          · cases reaps
        · cases reaps
      · cases steps
  | handled =>
      dsimp only at steps
      split at steps
      · rename_i handling
        dsimp only [ShellState.handler] at steps
        split at steps
        · cases steps
        · rename_i noZombie
          cases steps
          exact .handled handling fun job member matched =>
            noZombie ⟨job, member, matched⟩
      · cases steps

/-! ## Children -/

/-- What a step makes of the child `p`. -/
inductive JobStep (shell : ShellState) (p : Nat) (job : Job) : Job → Prop
  | same : JobStep shell p job job
  | grouped {scmd : List UInt8} {c : Execcmd} {group : Nat}
      (back : job.parsed = .back scmd c) (running : job.life = .running) :
      JobStep shell p job
        { job with bgPgid := some group, pgid := some group }
  | ended {status : WaitStatus} (running : job.life = .running) :
      JobStep shell p job { job with life := .zombie status }
  | waited {status : WaitStatus} (idle : shell.handling = false)
      (point : shell.point = .waiting p) (zombie : job.life = .zombie status) :
      JobStep shell p job { job with life := .reaped status }
  | reaped {status : WaitStatus} (zombie : job.life = .zombie status)
      (group : job.pgid = shell.bgPgid) :
      JobStep shell p job { job with life := .reaped status }

theorem JobStep.parsed {job' : Job} (step : JobStep shell p job job') :
    job'.parsed = job.parsed := by
  cases step with
  | same | grouped | ended | waited | reaped => rfl

/-- A child in the foreground that `run_cmd` has just forked. -/
def Job.forked (shell : ShellState) (parsed : Cmd) : Job :=
  { parsed := parsed
    pgid := none
    bgPgid := shell.bgPgid
    life := .running }

theorem setJob_cases {q : Nat} {replaced found : Job}
    (isFound : shell.jobs[q]? = some job)
    (step : JobStep shell q job replaced)
    (after : (shell.setJob q replaced).jobs[p]? = some found) :
    ∃ before, shell.jobs[p]? = some before ∧ JobStep shell p before found := by
  change (shell.jobs.set q replaced)[p]? = some found at after
  by_cases same : q = p
  · subst same
    have inside := (List.getElem?_eq_some_iff.mp isFound).1
    rw [List.getElem?_set_self inside] at after
    cases after
    exact ⟨job, isFound, step⟩
  · rw [List.getElem?_set_ne same] at after
    exact ⟨found, after, .same⟩

theorem command_cases {parsed : Cmd} (runs : shell.command parsed = some next) :
    next.jobs = shell.jobs ++ [Job.forked shell parsed] ∧
      next.status = shell.status ∧ next.bgPgid = shell.bgPgid ∧
        next.handling = shell.handling ∧
          (next.point = shell.point ∨ next.point = .waiting shell.jobs.length ∧
            ∀ scmd c, parsed ≠ .back scmd c) := by
  unfold ShellState.command at runs
  split at runs
  · cases runs
  · cases runs
    exact ⟨rfl, rfl, rfl, rfl, .inl rfl⟩
  · cases runs
    exact ⟨rfl, rfl, rfl, rfl, .inr ⟨rfl, fun _ _ => Cmd.noConfusion⟩⟩
  · cases runs
    exact ⟨rfl, rfl, rfl, rfl, .inr ⟨rfl, fun _ _ => Cmd.noConfusion⟩⟩

theorem setpgid_cases {q : Nat} (sets : shell.setpgid q job = some next) :
    ∃ replaced, next = shell.setJob q replaced ∧
      JobStep shell q job replaced := by
  unfold ShellState.setpgid at sets
  split at sets
  · rename_i back running
    cases sets
    exact ⟨_, rfl, .grouped back running⟩
  · cases sets

theorem waitpid_cases {q : Nat} (idle : shell.handling = false)
    (point : shell.point = .waiting q)
    (returns : shell.waitpid q job = some next) :
    next.jobs = shell.jobs ∨
      ∃ replaced, next.jobs = (shell.setJob q replaced).jobs ∧
        JobStep shell q job replaced := by
  unfold ShellState.waitpid at returns
  split at returns
  · cases returns
  · rename_i zombie
    cases returns
    exact .inr ⟨_, rfl, .waited idle point zombie⟩
  · cases returns
    exact .inl rfl

/-- Every child is one from before the step or a new one. -/
theorem job_cases (step : ShellStep shell event next)
    (found : next.jobs[p]? = some job) :
    (∃ before, shell.jobs[p]? = some before ∧ JobStep shell p before job) ∨
      ∃ front getenv cmd, event = .command front getenv cmd ∧
        p = shell.jobs.length ∧ job = Job.forked shell (parseLine
          { status := shell.status, getenv := getenv } front cmd) := by
  cases step with
  | command idle point runs =>
      rw [(command_cases runs).1, List.getElem?_append] at found
      split at found
      · exact .inl ⟨job, found, .same⟩
      · rename_i beyond
        obtain ⟨inside, isNew⟩ := List.getElem?_eq_some_iff.mp found
        rw [List.length_singleton] at inside
        refine .inr ⟨_, _, _, rfl, by omega, ?_⟩
        rw [← isNew]
        exact List.getElem_singleton _
  | setpgid isJob sets =>
      obtain ⟨replaced, rfl, step⟩ := setpgid_cases sets
      exact .inl (setJob_cases isJob step found)
  | ends isJob running => exact .inl (setJob_cases isJob (.ended running) found)
  | waitpid idle point isJob returns =>
      rcases waitpid_cases idle point returns with jobs | ⟨replaced, jobs, step⟩
      · rw [jobs] at found
        exact .inl ⟨job, found, .same⟩
      · rw [jobs] at found
        exact .inl (setJob_cases isJob step found)
  | print idle point isJob => exact .inl ⟨job, found, .same⟩
  | signal idle => exact .inl ⟨job, found, .same⟩
  | reap handling isJob zombie group =>
      exact .inl (setJob_cases isJob (.reaped zombie group) found)
  | handled handling noZombie => exact .inl ⟨job, found, .same⟩

theorem length_of_step (step : ShellStep shell event next) :
    shell.jobs.length ≤ next.jobs.length := by
  have length (q : Nat) (job : Job) :
      (shell.setJob q job).jobs.length = shell.jobs.length :=
    List.length_set
  cases step with
  | command idle point runs =>
      rw [(command_cases runs).1, List.length_append]
      exact Nat.le_add_right _ _
  | setpgid isJob sets =>
      obtain ⟨replaced, rfl, -⟩ := setpgid_cases sets
      exact (length _ _).ge
  | ends | reap => exact (length _ _).ge
  | waitpid idle point isJob returns =>
      rcases waitpid_cases idle point returns with jobs | ⟨replaced, jobs, -⟩
      · rw [jobs]
      · rw [jobs]
        exact (length _ _).ge
  | print | signal | handled => exact Nat.le_refl _

/-- No step forgets a child. -/
theorem job_of_before (step : ShellStep shell event next)
    (found : shell.jobs[p]? = some job) :
    ∃ after, next.jobs[p]? = some after ∧ JobStep shell p job after := by
  have inside := (List.getElem?_eq_some_iff.mp found).1
  have longer := length_of_step step
  have isAfter : next.jobs[p]? = some next.jobs[p] :=
    List.getElem?_eq_getElem (by omega)
  rcases job_cases step isAfter with ⟨before, isBefore, moved⟩ | ⟨_, _, _, new⟩
  · rw [found] at isBefore
    cases isBefore
    exact ⟨_, isAfter, moved⟩
  · omega

/-! ## Exit statuses -/

theorem decodeStatus_encode (status : WaitStatus) :
    decodeStatus status.encode = status.value := by
  cases status with
  | exited code =>
      have all : ∀ n : Fin 256, decodeStatus (Int32.ofNat (n.val * 256)) =
          Int32.ofNat n.val := by
        decide +kernel
      exact all ⟨code.toNat, code.toNat_lt⟩
  | signaled signal core isSignal =>
      have all : ∀ (n : Fin 127) (core : Bool), 0 < n.val →
          decodeStatus (Int32.ofNat (n.val + if core then 128 else 0)) =
            -Int32.ofNat n.val := by
        decide +kernel
      have below : signal.toNat < 127 := UInt8.lt_iff_toNat_lt.mp isSignal.2
      exact all ⟨signal.toNat, below⟩ core
        (UInt8.lt_iff_toNat_lt.mp isSignal.1)

/-- A simple command has a text. -/
theorem scmd_of_parseLine {globals : Globals} {front : UInt8} {buf : List UInt8}
    {c : Execcmd} (parsed : parseLine globals front buf = .exec c) :
    c.scmd ≠ [] := by
  have ofParseCmd (cut : List UInt8) (p : Nat)
      (isExec : (parseCmd globals front cut p).2 = .exec c) : c.scmd ≠ [] := by
    rw [parseCmd] at isExec
    split at isExec
    · cases isExec
    · rename_i someText
      dsimp only at isExec
      split at isExec
      · cases isExec
      · cases isExec
        rw [parseExec_scmd]
        exact fun noText => someText (congrArg List.length noText)
  have ofPipe {l r : Cmd} (isExec : pipeCmdCreate l r = .exec c) :
      l = .exec c := by
    unfold pipeCmdCreate at isExec
    split at isExec
    · exact isExec
    · cases isExec
  unfold parseLine at parsed
  generalize buf.length = fuel at parsed
  cases fuel with
  | zero => cases parsed
  | succ fuel => exact ofParseCmd _ _ (ofPipe parsed)

structure Texted (shell : ShellState) : Prop where
  scmd : ∀ (p : Nat) (job : Job) (c : Execcmd), shell.jobs[p]? = some job →
    job.parsed = .exec c → c.scmd ≠ []

theorem texted_of_reachable
    (reachable : shellJobs.Reachable Machine.Unrestricted shell) :
    Texted shell := by
  apply reachable.invariant
  · intro shell initial
    cases initial
    exact ⟨fun p job c found => by cases found⟩
  · intro shell event next texted _ steps
    constructor
    intro p job c found parsed
    rcases job_cases (shellStep_of_step steps) found with
      ⟨before, isBefore, moved⟩ | ⟨_, _, _, _, _, isNew⟩
    · apply texted.scmd p before c isBefore
      rw [← moved.parsed, parsed]
    · apply scmd_of_parseLine
      rw [isNew] at parsed
      exact parsed

theorem printStatusInfo_exec {c : Execcmd} (someText : c.scmd ≠ [])
    (status : Int32) : printStatusInfo (.exec c) status = decodeStatus status :=
  if_neg fun noText => someText (List.length_eq_zero_iff.mp noText)

/-- The shell is between `waitpid` and `print_status_info`. -/
structure Printing (p : Nat) (parsed : Cmd) (status : Int32)
    (shell : ShellState) : Prop where
  point : shell.point = .printing p
  job : ∃ job, shell.jobs[p]? = some job ∧ job.parsed = parsed
  status : shell.status = status

/-- Until `print_status_info`, only the handler and the children go on. -/
theorem Printing.step {parsed : Cmd} {status : Int32}
    (printing : Printing p parsed status shell) (notPrint : event ≠ .print)
    (step : ShellStep shell event next) : Printing p parsed status next := by
  have job : ∃ job, next.jobs[p]? = some job ∧ job.parsed = parsed := by
    obtain ⟨job, found, isParsed⟩ := printing.job
    obtain ⟨after, isAfter, moved⟩ := job_of_before step found
    exact ⟨after, isAfter, moved.parsed.trans isParsed⟩
  cases step with
  | command idle point => cases printing.point.symm.trans point
  | setpgid isJob sets =>
      obtain ⟨replaced, rfl, -⟩ := setpgid_cases sets
      exact ⟨printing.point, job, printing.status⟩
  | waitpid idle point => cases printing.point.symm.trans point
  | print => exact absurd rfl notPrint
  | ends | signal | reap | handled =>
      exact ⟨printing.point, job, printing.status⟩

/-- The return of `waitpid` for a child that has ended. -/
theorem printing_of_waitpid {status : WaitStatus}
    (ended : job.life = .zombie status ∨ job.life = .reaped status)
    (found : shell.jobs[p]? = some job)
    (returns : shell.waitpid p job = some next) :
    Printing p job.parsed
      (if job.life.isZombie then status.encode else shell.status) next := by
  unfold ShellState.waitpid at returns
  rcases ended with zombie | reaped
  · rw [zombie] at returns ⊢
    cases returns
    have inside := (List.getElem?_eq_some_iff.mp found).1
    exact ⟨rfl, ⟨_, List.getElem?_set_self inside, rfl⟩, rfl⟩
  · rw [reaped] at returns ⊢
    cases returns
    exact ⟨rfl, ⟨job, found, rfl⟩, rfl⟩

/-- `run_cmd` on a simple command in the foreground: the shell when its `waitpid`
returns, and after `print_status_info`. -/
structure Reported (p : Nat) (status : WaitStatus) (job : Job)
    (shell printed : ShellState) : Prop where
  reachable : shellJobs.Reachable Machine.Unrestricted shell
  point : shell.point = .waiting p
  found : shell.jobs[p]? = some job
  simple : ∃ c, job.parsed = .exec c
  ended : job.life = .zombie status ∨ job.life = .reaped status
  returns : ∃ waited last events, shellJobs.Step shell .waitpid waited ∧
    shellJobs.Run (fun _ event => event ≠ .print) waited events last ∧
      shellJobs.Step last .print printed

/-- `$?` is right when the child was left to `waitpid`.  When a run of the handler
has taken it, the shell decodes the status that the last command has left. -/
theorem reported_iff {status : WaitStatus} {printed : ShellState}
    (reported : Reported p status job shell printed) :
    printed.status = status.value ↔
      job.life = .zombie status ∨ decodeStatus shell.status = status.value := by
  obtain ⟨c, simple⟩ := reported.simple
  obtain ⟨waited, last, events, waits, run, prints⟩ := reported.returns
  have isWaiting := reported.point
  have isFound := reported.found
  have afterWait : Printing p job.parsed
      (if job.life.isZombie then status.encode else shell.status) waited := by
    cases shellStep_of_step waits with
    | waitpid idle point found returns =>
        cases isWaiting.symm.trans point
        cases isFound.symm.trans found
        exact printing_of_waitpid reported.ended found returns
  have beforePrint : Printing p job.parsed
      (if job.life.isZombie then status.encode else shell.status) last :=
    run.preserves (fun _ _ _ printing notPrint steps =>
      printing.step notPrint (shellStep_of_step steps)) afterWait
  have someText : c.scmd ≠ [] :=
    (texted_of_reachable reported.reachable).scmd p job c isFound simple
  have decoded : printed.status = decodeStatus
      (if job.life.isZombie then status.encode else shell.status) := by
    obtain ⟨isPrinting, ⟨now, isNow, parsed⟩, isStatus⟩ := beforePrint
    cases shellStep_of_step prints with
    | print idle point found =>
        cases isPrinting.symm.trans point
        cases isNow.symm.trans found
        rw [isStatus, parsed, simple, printStatusInfo_exec someText]
  rw [decoded]
  rcases reported.ended with zombie | reaped
  · rw [zombie]
    exact iff_of_true (decodeStatus_encode status) (.inl rfl)
  · rw [reaped]
    exact ⟨.inr, fun holds => holds.resolve_left JobLife.noConfusion⟩

/-- `run_shell` reads a line. -/
def lineEvent (line : List UInt8) : ShellEvent :=
  .command 0 (fun _ => none) (line ++ [0])

/-- The line "false". -/
def falseLine : List UInt8 := [102, 97, 108, 115, 101]

def falseJob : Job :=
  { parsed := .exec
      { type := .exec
        scmd := falseLine
        argv := [falseLine]
        eargv := []
        outFile := []
        inFile := []
        errFile := [] }
    pgid := none
    bgPgid := none
    life := .running }

theorem run_shellJobs {events : List ShellEvent}
    (runs : events.foldlM ShellState.step shell = some next)
    {allowed : ShellState → ShellEvent → Prop}
    (permits : ∀ shell event, allowed shell event) :
    shellJobs.Run allowed shell events next :=
  Machine.run_of_foldlM (fun _ _ _ steps => steps) permits runs

theorem reported_iff_waited :
    ∃ job shell printed,
      Reported 0 (.exited 1) job shell printed ∧
        printed.status = (WaitStatus.exited 1).value := by
  let shell : ShellState :=
    { point := .waiting 0
      status := 0
      bgPgid := none
      handling := false
      jobs := [{ falseJob with life := .zombie (.exited 1) }] }
  have reported : Reported 0 (.exited 1)
      { falseJob with life := .zombie (.exited 1) } shell
      { shell with
        point := .prompt
        status := printStatusInfo falseJob.parsed (WaitStatus.exited 1).encode
        jobs := [{ falseJob with life := .reaped (.exited 1) }] } :=
    { reachable := ⟨.initial, [lineEvent falseLine, .ends 0 (.exited 1)], rfl,
        run_shellJobs rfl fun _ _ => trivial⟩
      point := rfl
      found := rfl
      simple := ⟨_, rfl⟩
      ended := .inl rfl
      returns := ⟨_, _, [], rfl, .nil _, rfl⟩ }
  exact ⟨_, _, _, reported, (reported_iff reported).mpr (.inl rfl)⟩

/-- A handler that runs before `waitpid` takes the child with its status. -/
theorem not_reported_handler :
    ¬ ∀ p status job shell printed, Reported p status job shell printed →
      printed.status = status.value := by
  intro reports
  let shell : ShellState :=
    { point := .waiting 0
      status := 0
      bgPgid := none
      handling := false
      jobs := [{ falseJob with life := .reaped (.exited 1) }] }
  have reported : Reported 0 (.exited 1)
      { falseJob with life := .reaped (.exited 1) } shell
      { shell with
        point := .prompt
        status := printStatusInfo falseJob.parsed 0 } :=
    { reachable := ⟨.initial,
        [lineEvent falseLine, .ends 0 (.exited 1), .signal, .reap 0, .handled],
        rfl, run_shellJobs rfl fun _ _ => trivial⟩
      point := rfl
      found := rfl
      simple := ⟨_, rfl⟩
      ended := .inr rfl
      returns := ⟨_, _, [], rfl, .nil _, rfl⟩ }
  have status := reports 0 (.exited 1) _ shell _ reported
  revert status
  decide

/-! ## Zombies in the background -/

/-- The `bg_pgid` of the shell, whose children set only theirs. -/
structure NoGroup (shell : ShellState) : Prop where
  bgPgid : shell.bgPgid = none

theorem NoGroup.step (noGroup : NoGroup shell)
    (step : ShellStep shell event next) : NoGroup next := by
  constructor
  cases step with
  | command idle point runs =>
      exact (command_cases runs).2.2.1.trans noGroup.bgPgid
  | setpgid isJob sets =>
      obtain ⟨replaced, rfl, -⟩ := setpgid_cases sets
      exact noGroup.bgPgid
  | waitpid idle point isJob returns =>
      unfold ShellState.waitpid at returns
      split at returns
      · cases returns
      · cases returns
        exact noGroup.bgPgid
      · cases returns
        exact noGroup.bgPgid
  | ends | print | signal | reap | handled => exact noGroup.bgPgid

theorem noGroup_of_reachable
    (reachable : shellJobs.Reachable Machine.Unrestricted shell) :
    NoGroup shell := by
  apply reachable.invariant
  · intro shell initial
    cases initial
    exact ⟨rfl⟩
  · intro shell event next noGroup _ steps
    exact noGroup.step (shellStep_of_step steps)

/-- The handler is running, and the child `p` is the zombie that it was at the
beginning or reaped. -/
structure Handling (p : Nat) (job : Job) (status : WaitStatus)
    (shell : ShellState) : Prop where
  handling : shell.handling = true
  noGroup : NoGroup shell
  job : shell.jobs[p]? = some job ∨
    job.pgid = none ∧
      shell.jobs[p]? = some { job with life := .reaped status }

theorem Handling.step {status : WaitStatus} (zombie : job.life = .zombie status)
    (during : Handling p job status shell) (notLast : event ≠ .handled)
    (step : ShellStep shell event next) : Handling p job status next := by
  have jobAfter : next.jobs[p]? = some job ∨
      job.pgid = none ∧
        next.jobs[p]? = some { job with life := .reaped status } := by
    rcases during.job with found | ⟨group, found⟩
    · obtain ⟨after, isAfter, moved⟩ := job_of_before step found
      cases moved with
      | same => exact .inl isAfter
      | grouped _ running => cases zombie.symm.trans running
      | ended running => cases zombie.symm.trans running
      | waited idle => cases during.handling.symm.trans idle
      | reaped isZombie group =>
          cases zombie.symm.trans isZombie
          exact .inr ⟨group.trans during.noGroup.bgPgid, isAfter⟩
    · obtain ⟨after, isAfter, moved⟩ := job_of_before step found
      cases moved with
      | same => exact .inr ⟨group, isAfter⟩
      | grouped _ running => cases running
      | ended running => cases running
      | waited _ _ isZombie => cases isZombie
      | reaped isZombie => cases isZombie
  refine ⟨?_, during.noGroup.step step, jobAfter⟩
  cases step with
  | command idle | waitpid idle | print idle | signal idle =>
      cases during.handling.symm.trans idle
  | setpgid isJob sets =>
      obtain ⟨replaced, rfl, -⟩ := setpgid_cases sets
      exact during.handling
  | ends | reap => exact during.handling
  | handled => exact absurd rfl notLast

/-- A run of the handler. -/
structure HandlerRun (shell after : ShellState) : Prop where
  reachable : shellJobs.Reachable Machine.Unrestricted shell
  runs : ∃ first last events, shellJobs.Step shell .signal first ∧
    shellJobs.Run (fun _ event => event ≠ .handled) first events last ∧
      shellJobs.Step last .handled after

/-- The child `p` of the shell is a zombie, and its command was for the
background. -/
structure BackgroundZombie (p : Nat) (job : Job) (status : WaitStatus)
    (shell : ShellState) : Prop where
  found : shell.jobs[p]? = some job
  background : ∃ scmd c, job.parsed = .back scmd c
  zombie : job.life = .zombie status

/-- Of the children in the background that have ended, a run of the handler reaps
those which never got to `setpgid`. -/
theorem reaped_iff {after : ShellState} {status : WaitStatus}
    (handlerRun : HandlerRun shell after)
    (child : BackgroundZombie p job status shell) :
    (∃ job, after.jobs[p]? = some job ∧ job.life = .reaped status) ↔
      job.pgid = none := by
  obtain ⟨first, last, events, starts, run, stops⟩ := handlerRun.runs
  have noGroup := noGroup_of_reachable handlerRun.reachable
  have zombie := child.zombie
  have atFirst : Handling p job status first := by
    cases shellStep_of_step starts with
    | signal => exact ⟨rfl, ⟨noGroup.bgPgid⟩, .inl child.found⟩
  have atLast : Handling p job status last :=
    run.preserves (fun _ _ _ during notLast steps =>
      during.step zombie notLast (shellStep_of_step steps)) atFirst
  cases shellStep_of_step stops with
  | handled _ noZombie =>
      rcases atLast.job with isZombie | ⟨group, isReaped⟩
      · constructor
        · rintro ⟨now, isNow, reaped⟩
          cases isZombie.symm.trans isNow
          cases zombie.symm.trans reaped
        · intro group
          refine absurd ⟨?_, ?_⟩
            (noZombie job (List.mem_of_getElem? isZombie))
          · rw [zombie]
            rfl
          · rw [group, atLast.noGroup.bgPgid]
      · exact iff_of_true ⟨_, isReaped, rfl⟩ group

theorem sigkill_isSignal : (0 : UInt8) < 9 ∧ (9 : UInt8) < 127 := by decide

def bySigkill : WaitStatus := .signaled 9 false sigkill_isSignal

/-- The line "true &". -/
def backLine : List UInt8 := [116, 114, 117, 101, space, backChar]

/-- The only child of the shell, with its command in the background. -/
def backJob (group : Option Nat) (life : JobLife) : Job :=
  { parsed := parseLine { status := 0, getenv := fun _ => none } 0
      (backLine ++ [0])
    pgid := group
    bgPgid := group
    life := life }

def ShellState.withChild (child : Job) : ShellState :=
  { ShellState.initial with jobs := [child] }

/-- A child that is killed in front of its `setpgid`. -/
theorem reaped_iff_killed :
    ∃ job shell after, HandlerRun shell after ∧
      BackgroundZombie 0 job bySigkill shell ∧
        ∃ job, after.jobs[0]? = some job ∧ job.life = .reaped bySigkill := by
  have handlerRun : HandlerRun (.withChild (backJob none (.zombie bySigkill)))
      (.withChild (backJob none (.reaped bySigkill))) :=
    { reachable := ⟨.initial, [lineEvent backLine, .ends 0 bySigkill], rfl,
        run_shellJobs rfl fun _ _ => trivial⟩
      runs := ⟨_, _, [.reap 0], rfl,
        (Machine.Run.nil _).snoc ShellEvent.noConfusion rfl, rfl⟩ }
  have child : BackgroundZombie 0 (backJob none (.zombie bySigkill))
      bySigkill (.withChild (backJob none (.zombie bySigkill))) :=
    ⟨rfl, ⟨_, _, rfl⟩, rfl⟩
  exact ⟨_, _, _, handlerRun, child, (reaped_iff handlerRun child).mpr rfl⟩

/-- A child that has called `setpgid` stays a zombie. -/
theorem not_reaped_grouped :
    ¬ ∀ p job status shell after, HandlerRun shell after →
      BackgroundZombie p job status shell →
        ∃ job, after.jobs[p]? = some job ∧ job.life = .reaped status := by
  intro reaps
  have handlerRun :
      HandlerRun (.withChild (backJob (some 0) (.zombie (.exited 0))))
        (.withChild (backJob (some 0) (.zombie (.exited 0)))) :=
    { reachable := ⟨.initial,
        [lineEvent backLine, .setpgid 0, .ends 0 (.exited 0)], rfl,
        run_shellJobs rfl fun _ _ => trivial⟩
      runs := ⟨_, _, [], rfl, .nil _, rfl⟩ }
  have child : BackgroundZombie 0 (backJob (some 0) (.zombie (.exited 0)))
      (.exited 0) (.withChild (backJob (some 0) (.zombie (.exited 0)))) :=
    ⟨rfl, ⟨_, _, rfl⟩, rfl⟩
  obtain ⟨job, found, reaped⟩ := reaps _ _ _ _ _ handlerRun child
  cases found
  cases reaped

end FeaturesOS.Shell

import FeaturesOS.Machine
import FeaturesOS.Shell.Pipeline

/-!
# The shell and its children

`run_cmd`, `print_status_info` and `sigchld_handler` in the shell, in any
interleaving with what its children do.  Of a child only the call of `setpgid`
matters and when it ends; it may be killed at any time.  The shell is in a group
of its own, and a child that leaves it is in the group of one of the children.
-/

namespace FeaturesOS.Shell

/-! ## Wait statuses -/

/-- How a process has ended. -/
inductive WaitStatus where
  | exited (code : UInt8)
  | signaled (signal : UInt8) (core : Bool) (isSignal : 0 < signal ∧ signal < 127)
deriving DecidableEq

/-- The `int` that `waitpid` stores. -/
def WaitStatus.encode : WaitStatus → Int32
  | exited code => Int32.ofNat (code.toNat * 256)
  | signaled signal core _ =>
      Int32.ofNat (signal.toNat + if core then 128 else 0)

/-- The exit code, or minus the number of the signal. -/
def WaitStatus.value : WaitStatus → Int32
  | exited code => Int32.ofNat code.toNat
  | signaled signal _ _ => -Int32.ofNat signal.toNat

/-- `WTERMSIG`. -/
def wtermsig (status : Int32) : Int32 := status &&& 0x7F

/-- `WEXITSTATUS`, and `WSTOPSIG`. -/
def wexitstatus (status : Int32) : Int32 := (status &&& 0xFF00) >>> 8

/-- `WIFEXITED`. -/
def wifexited (status : Int32) : Bool := wtermsig status = 0

/-- `WIFSIGNALED`: a shift of a `signed char`. -/
def wifsignaled (status : Int32) : Bool :=
  (wtermsig status + 1).toInt8 >>> 1 > 0

/-- The status that `print_status_info` leaves, if it does not return at once. -/
def decodeStatus (status : Int32) : Int32 :=
  if wifexited status then wexitstatus status
  else if wifsignaled status then -wtermsig status
  else if wtermsig status ≠ 0 then -wexitstatus status
  else status

/-- `print_status_info`, without its output. -/
def printStatusInfo (cmd : Cmd) (status : Int32) : Int32 :=
  match cmd with
  | .exec c => if c.scmd.length = 0 then status else decodeStatus status
  | .back scmd _ => if scmd.length = 0 then status else decodeStatus status
  | .pipe _ _ | .null => status

/-! ## The machine -/

inductive JobLife where
  | running
  | zombie (status : WaitStatus)
  | reaped (status : WaitStatus)
deriving DecidableEq

def JobLife.isZombie : JobLife → Bool
  | zombie _ => true
  | _ => false

/-- A child of the shell, with its copy of `bg_pgid`.  A child is named by its
position; the group `none` is that of the shell, and `none` as `bg_pgid` is 0. -/
structure Job where
  parsed : Cmd
  pgid : Option Nat
  bgPgid : Option Nat
  life : JobLife
deriving DecidableEq

/-- Where the shell is in `run_shell` and `run_cmd`. -/
inductive ShellPoint where
  | prompt
  | waiting (p : Nat)
  | printing (p : Nat)
deriving DecidableEq

structure ShellState where
  point : ShellPoint
  status : Int32
  bgPgid : Option Nat
  handling : Bool
  jobs : List Job

def ShellState.initial : ShellState :=
  { point := .prompt
    status := 0
    bgPgid := none
    handling := false
    jobs := [] }

/-- What happens: a line that is no call of a built-in, `setpgid` in a child, the
end of a child, the return of `waitpid` in `run_cmd`, `print_status_info`, the
delivery of SIGCHLD, and the rounds of the loop of the handler, the last of which
finds no child. -/
inductive ShellEvent where
  | command (front : UInt8) (getenv : List UInt8 → Option (List UInt8))
      (cmd : List UInt8)
  | setpgid (p : Nat)
  | ends (p : Nat) (status : WaitStatus)
  | waitpid
  | print
  | signal
  | reap (p : Nat)
  | handled

namespace ShellState

def setJob (shell : ShellState) (p : Nat) (job : Job) : ShellState :=
  { shell with jobs := shell.jobs.set p job }

/-- `run_cmd` up to `waitpid`.  A line for which `parse_line` returns NULL ends
the shell. -/
def command (shell : ShellState) (parsed : Cmd) : Option ShellState :=
  let forked :=
    { shell with
      jobs := shell.jobs ++
        [{ parsed := parsed
           pgid := none
           bgPgid := shell.bgPgid
           life := .running }] }
  match parsed with
  | .null => none
  | .back _ _ => some forked
  | .exec _ | .pipe _ _ => some { forked with point := .waiting shell.jobs.length }

/-- `exec_cmd` in the child of a command in the background. -/
def setpgid (shell : ShellState) (p : Nat) (job : Job) : Option ShellState :=
  match job.parsed, job.life with
  | .back _ _, .running =>
      let bgPgid := job.bgPgid.getD p
      some (shell.setJob p
        { job with bgPgid := some bgPgid, pgid := some bgPgid })
  | _, _ => none

/-- `waitpid(p, &status, 0)`; for a child that has been reaped it fails. -/
def waitpid (shell : ShellState) (p : Nat) (job : Job) : Option ShellState :=
  match job.life with
  | .running => none
  | .zombie status =>
      some { shell.setJob p { job with life := .reaped status } with
        status := status.encode
        point := .printing p }
  | .reaped _ => some { shell with point := .printing p }

/-- The handler may reap this child. -/
def Matches (shell : ShellState) (job : Job) : Prop :=
  job.life.isZombie = true ∧ job.pgid = shell.bgPgid

instance (shell : ShellState) (job : Job) : Decidable (shell.Matches job) :=
  inferInstanceAs (Decidable (_ ∧ _))

/-- The code of the shell outside of the handler. -/
def main (shell : ShellState) : ShellEvent → Option ShellState
  | .command front getenv cmd =>
      match shell.point with
      | .prompt =>
          shell.command
            (parseLine { status := shell.status, getenv := getenv } front cmd)
      | _ => none
  | .waitpid =>
      match shell.point with
      | .waiting p => (shell.jobs[p]?).bind (shell.waitpid p)
      | _ => none
  | .print =>
      match shell.point with
      | .printing p =>
          (shell.jobs[p]?).map fun job =>
            { shell with
              status := printStatusInfo job.parsed shell.status
              point := .prompt }
      | _ => none
  | .signal => some { shell with handling := true }
  | _ => none

/-- The code of the handler. -/
def handler (shell : ShellState) : ShellEvent → Option ShellState
  | .reap p =>
      (shell.jobs[p]?).bind fun job =>
        match job.life with
        | .zombie status =>
            if job.pgid = shell.bgPgid then
              some (shell.setJob p { job with life := .reaped status })
            else
              none
        | _ => none
  | .handled =>
      if ∃ job ∈ shell.jobs, shell.Matches job then none
      else some { shell with handling := false }
  | _ => none

/-- What the children do. -/
def children (shell : ShellState) : ShellEvent → Option ShellState
  | .setpgid p => (shell.jobs[p]?).bind (shell.setpgid p)
  | .ends p status =>
      (shell.jobs[p]?).bind fun job =>
        match job.life with
        | .running => some (shell.setJob p { job with life := .zombie status })
        | _ => none
  | _ => none

def step (shell : ShellState) (event : ShellEvent) : Option ShellState :=
  match event with
  | .setpgid _ | .ends _ _ => shell.children event
  | .command _ _ _ | .waitpid | .print | .signal =>
      if shell.handling then none else shell.main event
  | .reap _ | .handled => if shell.handling then shell.handler event else none

end ShellState

/-- The shell, from its first prompt on. -/
def shellJobs : Machine ShellState ShellEvent where
  Initial shell := shell = .initial
  Step shell event next := shell.step event = some next

end FeaturesOS.Shell

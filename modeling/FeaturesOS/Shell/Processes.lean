import FeaturesOS.Machine
import FeaturesOS.Shell.Pipeline

/-!
# The processes of a command

`exec_cmd` as it runs in a process that `run_cmd` has forked, one system call at a
time and in any interleaving with the processes that it forks itself.  `pipe`,
`fork`, `dup2` and `setpgid` succeed.  A process that executes the code of the
shell ends only where this code exits, and a program that `execvp` has started may
end at any time.
-/

namespace FeaturesOS.Shell

/-- A process is named by the forks that lead to it; the last one stands
first. -/
abbrev Pid := List Nat

/-- An end of a pipe. -/
inductive PipeEnd where
  | read
  | write
deriving DecidableEq

/-- What a descriptor stands for.  A pipe is named by the process that created it
and the number of pipes that it had created before. -/
inductive File where
  | inherited (fd : Nat)
  | pipe (creator : Pid) (number : Nat) (side : PipeEnd)
  | opened (name : List UInt8)
deriving DecidableEq

/-- The descriptors of a process. -/
abbrev Fds := List (Option File)

namespace Fds

def get (fds : Fds) (fd : Nat) : Option File := fds.getD fd none

/-- The lowest descriptor that is not open is used. -/
def add (file : File) : Fds → Fds × Nat
  | [] => ([some file], 0)
  | none :: fds => (some file :: fds, 0)
  | some first :: fds =>
      let (added, fd) := add file fds
      (some first :: added, fd + 1)

def close (fds : Fds) (fd : Nat) : Fds := fds.set fd none

def put (fds : Fds) (fd : Nat) (file : File) : Fds :=
  (fds ++ List.replicate (fd + 1 - fds.length) none).set fd (some file)

/-- `dup2` of an open descriptor. -/
def dup2 (fds : Fds) (old new : Nat) : Fds :=
  match fds.get old with
  | some file => fds.put new file
  | none => fds

end Fds

/-- Where a process is in `exec_cmd`, with the local variables that it still
uses. -/
inductive Point where
  | enter (cmd : Cmd)
  | setpgid (c : Execcmd)
  | redirectStdin (r : Execcmd)
  | redirectStdout (r : Execcmd)
  | redirectStderr (r : Execcmd)
  | fork1 (leftcmd rightcmd : Cmd) (reads writes : Nat)
  | child1CloseRead (leftcmd rightcmd : Cmd) (reads writes : Nat)
  | child1Dup2 (leftcmd rightcmd : Cmd) (reads writes : Nat)
  | child1CloseWrite (leftcmd rightcmd : Cmd) (reads writes : Nat)
  | closeWrite (rightcmd : Cmd) (reads writes : Nat)
  | fork2 (rightcmd : Cmd) (reads : Nat)
  | child2Dup2 (rightcmd : Cmd) (reads : Nat)
  | child2CloseRead (rightcmd : Cmd) (reads : Nat)
  | closeRead (reads : Nat)
  | wait1
  | wait2
  | leave
  | program (c : Execcmd)
deriving DecidableEq

/-- Where `exec_cmd` was called, when the call is not the last thing that the
caller does. -/
inductive Frame where
  | leftcmd (rightcmd : Cmd) (reads writes : Nat)
  | rightcmd (reads : Nat)
deriving DecidableEq

/-- A process that has ended stays a zombie until its parent has waited for
it. -/
inductive Life where
  | running
  | zombie
  | reaped
deriving DecidableEq

/-- A process; `forks` and `pipes` count what it has created. -/
structure Process where
  point : Point
  frames : List Frame
  fds : Fds
  forks : Nat
  pipes : Nat
  pgid : Pid
  bgPgid : Option Pid
  handling : Bool
  life : Life
deriving DecidableEq

namespace Process

def goto (process : Process) (point : Point) : Process :=
  { process with point := point }

/-- The end of a process closes its descriptors. -/
def exit (process : Process) : Process :=
  { process with life := .zombie, fds := [] }

/-- The copy that `fork` makes. -/
def fork (process : Process) (point : Point) : Process :=
  { process with point := point, forks := 0, pipes := 0 }

/-- `exec_cmd` calls itself. -/
def call (process : Process) (cmd : Cmd) (frame : Frame) : Process :=
  { process with point := .enter cmd, frames := frame :: process.frames }

/-- `exec_cmd` returns; the child of `run_cmd` exits then. -/
def leave (process : Process) : Process :=
  match process.frames with
  | [] => process.exit
  | .leftcmd rightcmd reads writes :: frames =>
      { process with
        point := .closeWrite rightcmd reads writes, frames := frames }
  | .rightcmd reads :: frames =>
      { process with point := .closeRead reads, frames := frames }

/-- `redirect_fd`, unless the file has no name. -/
def redirect (process : Process) (name : List UInt8) (target : Nat) : Process :=
  if name = [] then
    process
  else
    let (fds, fd) := process.fds.add (.opened name)
    { process with fds := (fds.dup2 fd target).close fd }

/-- The next system call of a process, and the child that it forks.  The calls of
`wait` are not among these. -/
def advance (pid : Pid) (process : Process) :
    Option (Process × Option Process) :=
  match process.point with
  | .enter .null => some (process.exit, none)
  | .enter (.exec c) =>
      match c.type with
      | .exec => some (process.goto (.program c), none)
      | .redir => some (process.goto (.redirectStdin c), none)
  | .enter (.back _ c) =>
      some ({ process with
        point := .setpgid c
        bgPgid := some (process.bgPgid.getD pid) }, none)
  | .setpgid c =>
      some ({ process with
        point := .enter (.exec c)
        pgid := process.bgPgid.getD pid }, none)
  | .redirectStdin r =>
      some ((process.redirect r.inFile 0).goto (.redirectStdout r), none)
  | .redirectStdout r =>
      some ((process.redirect r.outFile 1).goto (.redirectStderr r), none)
  | .redirectStderr r =>
      let redirected :=
        if r.errFile = r.outFile then
          { process with fds := process.fds.dup2 1 2 }
        else
          process.redirect r.errFile 2
      some (redirected.goto (.enter (.exec { r with type := .exec })), none)
  | .enter (.pipe leftcmd rightcmd) =>
      let (some1, reads) := process.fds.add (.pipe pid process.pipes .read)
      let (fds, writes) := some1.add (.pipe pid process.pipes .write)
      some ({ process with
        point := .fork1 leftcmd rightcmd reads writes
        fds := fds
        pipes := process.pipes + 1 }, none)
  | .fork1 leftcmd rightcmd reads writes =>
      some ({ process with
          point := .closeWrite rightcmd reads writes
          forks := process.forks + 1 },
        some (process.fork (.child1CloseRead leftcmd rightcmd reads writes)))
  | .child1CloseRead leftcmd rightcmd reads writes =>
      some ({ process with
        point := .child1Dup2 leftcmd rightcmd reads writes
        fds := process.fds.close reads }, none)
  | .child1Dup2 leftcmd rightcmd reads writes =>
      some ({ process with
        point := .child1CloseWrite leftcmd rightcmd reads writes
        fds := process.fds.dup2 writes 1 }, none)
  | .child1CloseWrite leftcmd rightcmd reads writes =>
      let closed := { process with fds := process.fds.close writes }
      some (closed.call leftcmd (.leftcmd rightcmd reads writes), none)
  | .closeWrite rightcmd reads writes =>
      some ({ process with
        point := .fork2 rightcmd reads
        fds := process.fds.close writes }, none)
  | .fork2 rightcmd reads =>
      some ({ process with
          point := .closeRead reads
          forks := process.forks + 1 },
        some (process.fork (.child2Dup2 rightcmd reads)))
  | .child2Dup2 rightcmd reads =>
      some ({ process with
        point := .child2CloseRead rightcmd reads
        fds := process.fds.dup2 reads 0 }, none)
  | .child2CloseRead rightcmd reads =>
      let closed := { process with fds := process.fds.close reads }
      some (closed.call rightcmd (.rightcmd reads), none)
  | .closeRead reads =>
      some ({ process with
        point := .wait1
        fds := process.fds.close reads }, none)
  | .leave => some (process.leave, none)
  | .wait1 | .wait2 | .program _ => none

/-- Where a process is when its `wait` has returned. -/
def waited (process : Process) : Option Process :=
  match process.point with
  | .wait1 => some (process.goto .wait2)
  | .wait2 => some (process.goto .leave)
  | _ => none

/-- The group that `sigchld_handler` waits for. -/
def handled (process : Process) : Pid := process.bgPgid.getD process.pgid

/-- The process executes the code of the shell outside of the handler. -/
def Busy (process : Process) : Prop :=
  process.life = .running ∧ process.handling = false

instance (process : Process) : Decidable process.Busy :=
  inferInstanceAs (Decidable (_ ∧ _))

end Process

/-- All processes that have ever been. -/
abbrev Processes := Pid → Option Process

namespace Processes

def set (processes : Processes) (pid : Pid) (process : Process) : Processes :=
  Function.update processes pid (some process)

/-- A child of `pid` that is a zombie of a group, if `group` names one. -/
def zombieOf (processes : Processes) (pid : Pid) (group : Option Pid)
    (k : Nat) : Option Process := do
  let child ← processes (k :: pid)
  if child.life = .zombie ∧ (∀ target ∈ group, child.pgid = target) then
    some child
  else
    none

/-- The process has a child for which it has not waited. -/
def HasChild (processes : Processes) (pid : Pid) (forks : Nat) : Prop :=
  ∃ k < forks, ∃ child ∈ processes (k :: pid), child.life ≠ .reaped

instance (processes : Processes) (pid : Pid) (forks : Nat) :
    Decidable (processes.HasChild pid forks) :=
  inferInstanceAs (Decidable (∃ k < forks, _))

end Processes

/-- What happens in one process: its next system call, a call of `execvp` or
`open` that fails, the end of its program, the return of `wait`, with the child or
an error, the delivery of SIGCHLD, and a round of the loop in the handler. -/
inductive ProcessEvent where
  | advance (pid : Pid)
  | fails (pid : Pid)
  | ends (pid : Pid)
  | waits (pid : Pid) (child : Option Nat)
  | signal (pid : Pid)
  | handler (pid : Pid) (child : Option Nat)

/-- The call at this point may fail, and the process exits then. -/
def Point.mayFail : Point → Bool
  | .enter (.exec c) => c.type = .exec
  | .redirectStdin r => r.inFile ≠ []
  | .redirectStdout r => r.outFile ≠ []
  | .redirectStderr r => r.errFile ≠ r.outFile ∧ r.errFile ≠ []
  | _ => false

/-- A program has no handler for SIGCHLD any more. -/
def Point.isProgram : Point → Bool
  | .program _ => true
  | _ => false

namespace ProcessEvent

/-- The process in which an event happens. -/
def actor : ProcessEvent → Pid
  | advance pid | fails pid | ends pid | waits pid _ | signal pid
  | handler pid _ => pid

/-- The event happens inside of the handler. -/
def inHandler : ProcessEvent → Bool
  | handler _ _ => true
  | _ => false

/-- What an event makes of the processes, when `process` is the one in which it
happens. -/
def apply (processes : Processes) (process : Process) :
    ProcessEvent → Option Processes
  | advance pid =>
      match process.advance pid with
      | none => none
      | some (next, none) => some (processes.set pid next)
      | some (next, some child) =>
          some ((processes.set pid next).set (process.forks :: pid) child)
  | fails pid =>
      if process.point.mayFail then some (processes.set pid process.exit)
      else none
  | ends pid =>
      if process.point.isProgram then some (processes.set pid process.exit)
      else none
  | waits pid (some k) =>
      match process.waited, processes.zombieOf pid none k with
      | some next, some child =>
          some ((processes.set pid next).set (k :: pid)
            { child with life := .reaped })
      | _, _ => none
  | waits pid none =>
      if processes.HasChild pid process.forks then none
      else process.waited.map (processes.set pid)
  | signal pid =>
      if process.point.isProgram then none
      else some (processes.set pid { process with handling := true })
  | handler pid (some k) =>
      (processes.zombieOf pid (some process.handled) k).map fun child =>
        processes.set (k :: pid) { child with life := .reaped }
  | handler pid none =>
      if ∀ k < process.forks,
          processes.zombieOf pid (some process.handled) k = none then
        some (processes.set pid { process with handling := false })
      else
        none

/-- The step that an event is, if it is possible. -/
def step (processes : Processes) (event : ProcessEvent) : Option Processes :=
  match processes event.actor with
  | none => none
  | some process =>
      if event.inHandler then
        if process.handling then event.apply processes process else none
      else
        if process.Busy then event.apply processes process else none

end ProcessEvent

/-- The child of `run_cmd` with the descriptors that the shell has. -/
def Process.initial (cmd : Cmd) (group : Pid) : Process :=
  { point := .enter cmd
    frames := []
    fds := [some (.inherited 0), some (.inherited 1), some (.inherited 2)]
    forks := 0
    pipes := 0
    pgid := group
    bgPgid := none
    handling := false
    life := .running }

/-- `exec_cmd` in a process that is alone; its own name is the empty one. -/
def execCmd (cmd : Cmd) (group : Pid) : Machine Processes ProcessEvent where
  Initial processes := processes =
    Processes.set (fun _ => none) [] (Process.initial cmd group)
  Step processes event after := event.step processes = some after

variable {processes : Processes} {pid : Pid} {process next child : Process}

/-! ## Calls -/

/-- A point behind both forks. -/
def Point.Behind : Point → Prop
  | .closeRead _ | .wait1 | .wait2 | .leave => True
  | _ => False

theorem waited_cases (returns : process.waited = some next) :
    process.point = .wait1 ∧ next = process.goto .wait2 ∨
      process.point = .wait2 ∧ next = process.goto .leave := by
  unfold Process.waited at returns
  split at returns
  · rename_i atWait
    cases returns
    exact .inl ⟨atWait, rfl⟩
  · rename_i atWait
    cases returns
    exact .inr ⟨atWait, rfl⟩
  · cases returns

theorem forks_of_waited (returns : process.waited = some next) :
    next.forks = process.forks := by
  rcases waited_cases returns with ⟨-, rfl⟩ | ⟨-, rfl⟩
  · rfl
  · rfl

/-- The points behind a call of `wait`. -/
def Point.waited : Point → Bool
  | .wait2 | .leave => true
  | _ => false

/-- A call that forks no process. -/
structure Process.Alone (process next : Process) (forked : Option Process) :
    Prop where
  noChild : forked = none
  forks : next.forks = process.forks
  goes : next = process.exit ∨ next.point.waited = false

/-- A call of `fork`. -/
structure Process.Forks (process next : Process) (forked : Option Process) :
    Prop where
  child : ∃ child, forked = some child ∧ child.forks = 0 ∧
    child.point.waited = false
  forks : next.forks = process.forks + 1
  goes : next.point.waited = false

theorem Process.Alone.of_eq {following : Process} {forked : Option Process}
    (advances : some (following, none) = some (next, forked))
    (forks : following.forks = process.forks)
    (goes : following.point.waited = false) : process.Alone next forked := by
  cases advances
  exact ⟨rfl, forks, .inr goes⟩

theorem Process.forks_redirect (name : List UInt8) (target : Nat) :
    (process.redirect name target).forks = process.forks := by
  unfold Process.redirect
  split
  · rfl
  · rfl

theorem Process.alone_leave {forked : Option Process}
    (advances : some (process.leave, none) = some (next, forked)) :
    process.Alone next forked := by
  unfold Process.leave at advances
  cases frames : process.frames with
  | nil =>
      rw [frames] at advances
      cases advances
      exact ⟨rfl, rfl, .inl rfl⟩
  | cons frame rest =>
      rw [frames] at advances
      cases frame with
      | leftcmd rightcmd reads writes => exact .of_eq advances rfl rfl
      | rightcmd reads => exact .of_eq advances rfl rfl

/-- What a system call does to the numbers of a process. -/
theorem Process.advance_cases {forked : Option Process}
    (advances : process.advance pid = some (next, forked)) :
    process.Alone next forked ∨ process.Forks next forked := by
  unfold Process.advance at advances
  split at advances
  · cases advances
    exact .inl ⟨rfl, rfl, .inl rfl⟩
  · split at advances
    · exact .inl (.of_eq advances rfl rfl)
    · exact .inl (.of_eq advances rfl rfl)
  · exact .inl (.of_eq advances rfl rfl)
  · exact .inl (.of_eq advances rfl rfl)
  · exact .inl (.of_eq advances (process.forks_redirect _ _) rfl)
  · exact .inl (.of_eq advances (process.forks_redirect _ _) rfl)
  · dsimp only at advances
    split at advances
    · exact .inl (.of_eq advances rfl rfl)
    · exact .inl (.of_eq advances (process.forks_redirect _ _) rfl)
  · exact .inl (.of_eq advances rfl rfl)
  · cases advances
    exact .inr ⟨⟨_, rfl, rfl, rfl⟩, rfl, rfl⟩
  · exact .inl (.of_eq advances rfl rfl)
  · exact .inl (.of_eq advances rfl rfl)
  · exact .inl (.of_eq advances rfl rfl)
  · exact .inl (.of_eq advances rfl rfl)
  · cases advances
    exact .inr ⟨⟨_, rfl, rfl, rfl⟩, rfl, rfl⟩
  · exact .inl (.of_eq advances rfl rfl)
  · exact .inl (.of_eq advances rfl rfl)
  · exact .inl (.of_eq advances rfl rfl)
  · exact .inl (Process.alone_leave advances)
  · cases advances
  · cases advances
  · cases advances

/-! ## The table of processes -/

theorem set_of_ne {other : Pid} (different : other ≠ pid) :
    processes.set pid process other = processes other :=
  Function.update_of_ne different _ _

theorem set_self :
    processes.set pid process pid = some process :=
  Function.update_self _ _ _

theorem set_cases {other : Pid}
    (found : processes.set pid next other = some process) :
    other = pid ∧ process = next ∨ processes other = some process := by
  by_cases same : other = pid
  · subst same
    rw [set_self] at found
    cases found
    exact .inl ⟨rfl, rfl⟩
  · rw [set_of_ne same] at found
    exact .inr found

theorem set_child (k : Nat) :
    processes.set pid process (k :: pid) = processes (k :: pid) :=
  set_of_ne (List.cons_ne_self _ _)

theorem zombieOf_some {group : Option Pid} {k : Nat}
    (zombie : processes.zombieOf pid group k = some child) :
    processes (k :: pid) = some child ∧ child.life = .zombie := by
  unfold Processes.zombieOf at zombie
  cases found : processes (k :: pid) with
  | none =>
      rw [found] at zombie
      cases zombie
  | some other =>
      rw [found] at zombie
      change (if _ then some other else none) = some child at zombie
      split at zombie
      · rename_i isZombie
        cases zombie
        exact ⟨rfl, isZombie.1⟩
      · cases zombie

/-! ## Steps -/

/-- The steps of the processes, with what each of them needs. -/
inductive ProcessStep (processes : Processes) : ProcessEvent → Processes → Prop
  | advance {pid : Pid} {process next : Process}
      (found : processes pid = some process) (busy : process.Busy)
      (advances : process.advance pid = some (next, none)) :
      ProcessStep processes (.advance pid) (processes.set pid next)
  | fork {pid : Pid} {process next child : Process}
      (found : processes pid = some process) (busy : process.Busy)
      (advances : process.advance pid = some (next, some child)) :
      ProcessStep processes (.advance pid)
        ((processes.set pid next).set (process.forks :: pid) child)
  | fails {pid : Pid} {process : Process}
      (found : processes pid = some process) (busy : process.Busy)
      (mayFail : process.point.mayFail) :
      ProcessStep processes (.fails pid) (processes.set pid process.exit)
  | ends {pid : Pid} {process : Process}
      (found : processes pid = some process) (busy : process.Busy)
      (isProgram : process.point.isProgram) :
      ProcessStep processes (.ends pid) (processes.set pid process.exit)
  | waits {pid : Pid} {process next child : Process} {k : Nat}
      (found : processes pid = some process) (busy : process.Busy)
      (returns : process.waited = some next)
      (zombie : processes.zombieOf pid none k = some child) :
      ProcessStep processes (.waits pid (some k))
        ((processes.set pid next).set (k :: pid)
          { child with life := .reaped })
  | waitsForNone {pid : Pid} {process next : Process}
      (found : processes pid = some process) (busy : process.Busy)
      (returns : process.waited = some next)
      (childless : ¬ processes.HasChild pid process.forks) :
      ProcessStep processes (.waits pid none) (processes.set pid next)
  | signal {pid : Pid} {process : Process}
      (found : processes pid = some process) (busy : process.Busy)
      (handles : ¬ process.point.isProgram) :
      ProcessStep processes (.signal pid)
        (processes.set pid { process with handling := true })
  | handler {pid : Pid} {process child : Process} {k : Nat}
      (found : processes pid = some process)
      (handling : process.handling = true)
      (zombie : processes.zombieOf pid (some process.handled) k = some child) :
      ProcessStep processes (.handler pid (some k))
        (processes.set (k :: pid) { child with life := .reaped })
  | handled {pid : Pid} {process : Process}
      (found : processes pid = some process)
      (handling : process.handling = true)
      (noZombie : ∀ k < process.forks,
        processes.zombieOf pid (some process.handled) k = none) :
      ProcessStep processes (.handler pid none)
        (processes.set pid { process with handling := false })

namespace ProcessEvent

variable {event : ProcessEvent} {after : Processes}

/-- A step happens in a process, which is in the handler or not. -/
theorem apply_of_step (steps : event.step processes = some after) :
    ∃ process, processes event.actor = some process ∧
      (if event.inHandler then process.handling = true else process.Busy) ∧
        event.apply processes process = some after := by
  unfold step at steps
  cases found : processes event.actor with
  | none =>
      rw [found] at steps
      cases steps
  | some process =>
      rw [found] at steps
      refine ⟨process, rfl, ?_⟩
      dsimp only at steps
      split at steps
      · rename_i inside
        rw [if_pos inside]
        split at steps
        · exact ⟨by assumption, steps⟩
        · cases steps
      · rename_i outside
        rw [if_neg outside]
        split at steps
        · exact ⟨by assumption, steps⟩
        · cases steps

theorem step_of_busy {process : Process}
    (found : processes event.actor = some process) (busy : process.Busy)
    (outside : event.inHandler = false) :
    event.step processes = event.apply processes process := by
  unfold step
  rw [found]
  dsimp only
  rw [outside, if_neg Bool.false_ne_true, if_pos busy]

/-- What a step can do. -/
theorem processStep (steps : event.step processes = some after) :
    ProcessStep processes event after := by
  obtain ⟨process, found, enabled, applies⟩ := apply_of_step steps
  cases event with
  | advance pid =>
      dsimp only [apply] at applies
      split at applies
      · cases applies
      · rename_i advances
        cases applies
        exact .advance found enabled advances
      · rename_i advances
        cases applies
        exact .fork found enabled advances
  | fails pid =>
      dsimp only [apply] at applies
      split at applies
      · rename_i mayFail
        cases applies
        exact .fails found enabled mayFail
      · cases applies
  | ends pid =>
      dsimp only [apply] at applies
      split at applies
      · rename_i isProgram
        cases applies
        exact .ends found enabled isProgram
      · cases applies
  | waits pid child =>
      cases child with
      | none =>
          dsimp only [apply] at applies
          split at applies
          · cases applies
          · rename_i childless
            obtain ⟨next, returns, rfl⟩ := Option.map_eq_some_iff.mp applies
            exact .waitsForNone found enabled returns childless
      | some k =>
          dsimp only [apply] at applies
          split at applies
          · rename_i returns zombie
            cases applies
            exact .waits found enabled returns zombie
          · cases applies
  | signal pid =>
      dsimp only [apply] at applies
      split at applies
      · cases applies
      · rename_i handles
        cases applies
        exact .signal found enabled handles
  | handler pid child =>
      cases child with
      | none =>
          dsimp only [apply] at applies
          split at applies
          · rename_i noZombie
            cases applies
            exact .handled found enabled noZombie
          · cases applies
      | some k =>
          obtain ⟨child, zombie, rfl⟩ := Option.map_eq_some_iff.mp applies
          exact .handler found enabled zombie

end ProcessEvent

/-! ## Parents and children -/

/-- A process has the children that it has forked, and the first one exists. -/
structure Family (processes : Processes) : Prop where
  root : ∃ process, processes [] = some process
  children : ∀ pid k, (∃ child, processes (k :: pid) = some child) ↔
    ∃ parent, processes pid = some parent ∧ k < parent.forks

theorem Family.set (family : Family processes)
    (found : processes pid = some process) (forks : next.forks = process.forks) :
    Family (processes.set pid next) := by
  have same : ∀ other, (∃ child, processes.set pid next other = some child) ↔
      ∃ child, processes other = some child := by
    intro other
    by_cases isPid : other = pid
    · subst isPid
      exact ⟨fun _ => ⟨_, found⟩, fun _ => ⟨_, set_self⟩⟩
    · rw [set_of_ne isPid]
  refine ⟨(same []).mpr family.root, ?_⟩
  intro other k
  rw [same, family.children]
  by_cases isPid : other = pid
  · subst isPid
    rw [set_self, found]
    constructor
    · rintro ⟨parent, ⟨⟩, below⟩
      exact ⟨next, rfl, by omega⟩
    · rintro ⟨parent, ⟨⟩, below⟩
      exact ⟨process, rfl, by omega⟩
  · rw [set_of_ne isPid]

/-- The name of the next child is free. -/
theorem Family.fresh (family : Family processes)
    (found : processes pid = some process) :
    ¬ ∃ other, processes (process.forks :: pid) = some other := by
  rw [family.children]
  rintro ⟨parent, isParent, below⟩
  rw [found] at isParent
  cases isParent
  omega

theorem Family.fork (family : Family processes)
    (found : processes pid = some process)
    (forks : next.forks = process.forks + 1) (childless : child.forks = 0) :
    Family ((processes.set pid next).set (process.forks :: pid) child) := by
  have longer : process.forks :: pid ≠ pid := List.cons_ne_self _ _
  have new := family.fresh found
  have same : ∀ other, other ≠ process.forks :: pid →
      ((∃ found, ((processes.set pid next).set (process.forks :: pid) child)
        other = some found) ↔ ∃ found, processes other = some found) := by
    intro other different
    rw [set_of_ne different]
    by_cases isPid : other = pid
    · subst isPid
      exact ⟨fun _ => ⟨_, found⟩, fun _ => ⟨_, set_self⟩⟩
    · rw [set_of_ne isPid]
  refine ⟨(same [] (List.cons_ne_nil _ _).symm).mpr family.root, ?_⟩
  intro other k
  by_cases isChild : k :: other = process.forks :: pid
  · obtain ⟨rfl, rfl⟩ := List.cons.inj isChild
    rw [set_self, set_of_ne longer.symm, set_self]
    exact ⟨fun _ => ⟨next, rfl, by omega⟩, fun _ => ⟨child, rfl⟩⟩
  · rw [same _ isChild, family.children]
    by_cases isNew : other = process.forks :: pid
    · subst isNew
      rw [set_self]
      constructor
      · rintro ⟨parent, isParent, -⟩
        exact absurd ⟨parent, isParent⟩ new
      · rintro ⟨parent, ⟨⟩, below⟩
        omega
    · rw [set_of_ne isNew]
      by_cases isPid : other = pid
      · subst isPid
        rw [set_self, found]
        have different : k ≠ process.forks := by
          rintro rfl
          exact isChild rfl
        constructor
        · rintro ⟨parent, ⟨⟩, below⟩
          exact ⟨next, rfl, by omega⟩
        · rintro ⟨parent, ⟨⟩, below⟩
          exact ⟨process, rfl, by omega⟩
      · rw [set_of_ne isPid]

/-- Every step keeps the family. -/
theorem family_step {after : Processes} {event : ProcessEvent}
    (family : Family processes) (step : ProcessStep processes event after) :
    Family after := by
  cases step with
  | advance found busy advances =>
      rcases Process.advance_cases advances with alone | forks
      · exact family.set found alone.forks
      · obtain ⟨child, isSome, -⟩ := forks.child
        cases isSome
  | fork found busy advances =>
      rcases Process.advance_cases advances with alone | forks
      · cases alone.noChild
      · obtain ⟨child, isSome, childless, -⟩ := forks.child
        cases isSome
        exact family.fork found forks.forks childless
  | fails found busy mayFail => exact family.set found rfl
  | ends found busy isProgram => exact family.set found rfl
  | waits found busy returns zombie =>
      exact (family.set found (forks_of_waited returns)).set
        ((set_child _).trans (zombieOf_some zombie).1) rfl
  | waitsForNone found busy returns childless =>
      exact family.set found (forks_of_waited returns)
  | signal found busy handles => exact family.set found rfl
  | handler found handling zombie =>
      exact family.set (zombieOf_some zombie).1 rfl
  | handled found handling noZombie => exact family.set found rfl

end FeaturesOS.Shell

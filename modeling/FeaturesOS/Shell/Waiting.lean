import FeaturesOS.Shell.Plumbing

/-!
# The end of a pipeline

Every process of `exec_cmd` that has forked calls `wait` twice, without looking at
the results, and the handler of SIGCHLD that it has inherited may reap its children
before.  Behind both calls it has no child left for which it has not waited, so
the first process of a pipeline outlives all others.
-/

namespace FeaturesOS.Shell

variable {processes after : Processes}
variable {pid : Pid} {process next child : Process} {k : Nat}
variable {event : ProcessEvent}

/-- The parent has waited for a process that has ended. -/
def Reaped (processes : Processes) (pid : Pid) : Prop :=
  ∃ process, processes pid = some process ∧ process.life = .reaped

/-! ## Reaped processes -/

theorem Reaped.set (reaped : Reaped processes pid) {other : Pid}
    (kept : other = pid → next.life = .reaped) :
    Reaped (processes.set other next) pid := by
  by_cases same : pid = other
  · subst same
    exact ⟨next, set_self, kept rfl⟩
  · obtain ⟨process, found, life⟩ := reaped
    exact ⟨process, (set_of_ne same).trans found, life⟩

/-- A process that is not reaped may be replaced. -/
theorem Reaped.set_of_not (reaped : Reaped processes pid) {other : Pid}
    (found : processes other = some process) (notReaped : process.life ≠ .reaped)
    (next : Process) : Reaped (processes.set other next) pid := by
  apply reaped.set
  rintro rfl
  obtain ⟨same, isSame, life⟩ := reaped
  rw [found] at isSame
  cases isSame
  exact absurd life notReaped

theorem Process.Busy.not_reaped (busy : process.Busy) :
    process.life ≠ .reaped := by
  rw [busy.1]
  exact Life.noConfusion

/-- A reaped process stays reaped. -/
theorem Reaped.step (family : Family processes) (reaped : Reaped processes pid)
    (step : ProcessStep processes event after) : Reaped after pid := by
  cases step with
  | advance found busy advances =>
      exact reaped.set_of_not found busy.not_reaped _
  | fork found busy advances =>
      refine (reaped.set_of_not found busy.not_reaped _).set ?_
      rintro rfl
      obtain ⟨process, isSame, -⟩ := reaped
      exact absurd ⟨process, isSame⟩ (family.fresh found)
  | fails found busy mayFail => exact reaped.set_of_not found busy.not_reaped _
  | ends found busy isProgram =>
      exact reaped.set_of_not found busy.not_reaped _
  | waits found busy returns zombie =>
      exact (reaped.set_of_not found busy.not_reaped _).set fun _ => rfl
  | waitsForNone found busy returns childless =>
      exact reaped.set_of_not found busy.not_reaped _
  | signal found busy handles => exact reaped.set_of_not found busy.not_reaped _
  | handler found handling zombie => exact reaped.set fun _ => rfl
  | handled found handling noZombie =>
      apply reaped.set
      rintro rfl
      obtain ⟨process, isSame, life⟩ := reaped
      rw [found] at isSame
      cases isSame
      exact life

/-! ## Both children -/

/-- What a process that has forked twice has achieved with its calls of
`wait`. -/
structure Waits (processes : Processes) (pid : Pid) (process : Process) :
    Prop where
  once : process.point = .wait2 → process.forks = 2 →
    Reaped processes (0 :: pid) ∨ Reaped processes (1 :: pid)
  twice : process.point = .leave → process.forks = 2 →
    Reaped processes (0 :: pid) ∧ Reaped processes (1 :: pid)

def AllWait (processes : Processes) : Prop :=
  ∀ pid process, processes pid = some process → Waits processes pid process

theorem Waits.step (family : Family processes)
    (waits : Waits processes pid process)
    (step : ProcessStep processes event after) : Waits after pid process where
  once := by
    intro atPoint forks
    rcases waits.once atPoint forks with first | second
    · exact .inl (first.step family step)
    · exact .inr (second.step family step)
  twice := by
    intro atPoint forks
    obtain ⟨first, second⟩ := waits.twice atPoint forks
    exact ⟨first.step family step, second.step family step⟩

/-- Only the place of a process counts. -/
theorem Waits.moved (waits : Waits processes pid process)
    (point : next.point = process.point) (forks : next.forks = process.forks) :
    Waits processes pid next where
  once := by
    rw [point, forks]
    exact waits.once
  twice := by
    rw [point, forks]
    exact waits.twice

theorem Waits.of_point (away : process.point.waited = false) :
    Waits processes pid process where
  once := by
    intro atPoint
    rw [atPoint] at away
    cases away
  twice := by
    intro atPoint
    rw [atPoint] at away
    cases away

/-- A process without a child for which it has not waited. -/
theorem reaped_of_childless (family : Family processes)
    (found : processes pid = some process)
    (childless : ¬ processes.HasChild pid process.forks)
    (below : k < process.forks) : Reaped processes (k :: pid) := by
  obtain ⟨child, isChild⟩ := (family.children pid k).mpr ⟨process, found, below⟩
  refine ⟨child, isChild, ?_⟩
  by_contra alive
  exact childless ⟨k, below, child, isChild, alive⟩

/-- A `wait` that reaps a child. -/
theorem Waits.reaps (family : Family processes)
    (waits : Waits processes pid process)
    (found : processes pid = some process)
    (returns : process.waited = some next)
    (zombie : processes.zombieOf pid none k = some child)
    (step : ProcessStep processes event after)
    (reaped : Reaped after (k :: pid)) : Waits after pid next := by
  obtain ⟨isChild, isZombie⟩ := zombieOf_some zombie
  obtain ⟨parent, isParent, below⟩ :=
    (family.children pid k).mp ⟨child, isChild⟩
  rw [found] at isParent
  cases isParent
  have notReaped : ¬ Reaped processes (k :: pid) := by
    rintro ⟨same, isSame, life⟩
    rw [isChild] at isSame
    cases isSame
    rw [isZombie] at life
    cases life
  rcases waited_cases returns with ⟨-, rfl⟩ | ⟨atPoint, rfl⟩
  · constructor
    · intro _ two
      change process.forks = 2 at two
      obtain rfl | rfl : k = 0 ∨ k = 1 := by omega
      · exact .inl reaped
      · exact .inr reaped
    · rintro ⟨⟩
  · constructor
    · rintro ⟨⟩
    · intro _ two
      change process.forks = 2 at two
      obtain rfl | rfl : k = 0 ∨ k = 1 := by omega
      · have second := (waits.once atPoint two).resolve_left notReaped
        exact ⟨reaped, second.step family step⟩
      · have first := (waits.once atPoint two).resolve_right notReaped
        exact ⟨first.step family step, reaped⟩

/-- A `wait` that finds no child. -/
theorem Waits.childless (family : Family processes)
    (found : processes pid = some process)
    (returns : process.waited = some next)
    (childless : ¬ processes.HasChild pid process.forks)
    (step : ProcessStep processes event after) : Waits after pid next := by
  have forks := forks_of_waited returns
  constructor
  · intro _ two
    have first := reaped_of_childless family found childless
      (by omega : 0 < process.forks)
    exact .inl (first.step family step)
  · intro _ two
    have first := reaped_of_childless family found childless
      (by omega : 0 < process.forks)
    have second := reaped_of_childless family found childless
      (by omega : 1 < process.forks)
    exact ⟨first.step family step, second.step family step⟩

theorem allWait_step (family : Family processes) (all : AllWait processes)
    (step : ProcessStep processes event after) : AllWait after := by
  have others : ∀ pid process, processes pid = some process →
      Waits after pid process :=
    fun pid process found => (all pid process found).step family step
  intro other process' isFound
  cases step with
  | advance found busy advances =>
      rcases set_cases isFound with ⟨rfl, rfl⟩ | isFound
      · rcases Process.advance_cases advances with alone | forks
        · rcases alone.goes with rfl | away
          · exact (others _ _ found).moved rfl rfl
          · exact .of_point away
        · exact .of_point forks.goes
      · exact others _ _ isFound
  | fork found busy advances =>
      rcases Process.advance_cases advances with alone | forks
      · cases alone.noChild
      · obtain ⟨child, isSome, -, away⟩ := forks.child
        cases isSome
        rcases set_cases isFound with ⟨rfl, rfl⟩ | isFound
        · exact .of_point away
        · rcases set_cases isFound with ⟨rfl, rfl⟩ | isFound
          · exact .of_point forks.goes
          · exact others _ _ isFound
  | fails found busy mayFail =>
      rcases set_cases isFound with ⟨rfl, rfl⟩ | isFound
      · exact (others _ _ found).moved rfl rfl
      · exact others _ _ isFound
  | ends found busy isProgram =>
      rcases set_cases isFound with ⟨rfl, rfl⟩ | isFound
      · exact (others _ _ found).moved rfl rfl
      · exact others _ _ isFound
  | waits found busy returns zombie =>
      rcases set_cases isFound with ⟨rfl, rfl⟩ | isFound
      · exact (others _ _ (zombieOf_some zombie).1).moved rfl rfl
      · rcases set_cases isFound with ⟨rfl, rfl⟩ | isFound
        · exact (all _ _ found).reaps family found returns zombie
            (.waits found busy returns zombie) ⟨_, set_self, rfl⟩
        · exact others _ _ isFound
  | waitsForNone found busy returns childless =>
      rcases set_cases isFound with ⟨rfl, rfl⟩ | isFound
      · exact .childless family found returns childless
          (.waitsForNone found busy returns childless)
      · exact others _ _ isFound
  | signal found busy handles =>
      rcases set_cases isFound with ⟨rfl, rfl⟩ | isFound
      · exact (others _ _ found).moved rfl rfl
      · exact others _ _ isFound
  | handler found handling zombie =>
      rcases set_cases isFound with ⟨rfl, rfl⟩ | isFound
      · exact (others _ _ (zombieOf_some zombie).1).moved rfl rfl
      · exact others _ _ isFound
  | handled found handling noZombie =>
      rcases set_cases isFound with ⟨rfl, rfl⟩ | isFound
      · exact (others _ _ found).moved rfl rfl
      · exact others _ _ isFound

/-! ## Places -/

variable {cs : List Execcmd} {group : Pid} {i : Nat} {c : Execcmd}

/-- Where a process is that executes the command, with its redirections. -/
inductive Execcmd.RunsAt (c : Execcmd) : Point → Prop
  | enter : c.RunsAt (.enter (.exec c))
  | redirectStdin : c.RunsAt (.redirectStdin c)
  | redirectStdout : c.RunsAt (.redirectStdout c)
  | redirectStderr : c.RunsAt (.redirectStderr c)
  | redirected : c.RunsAt (.enter (.exec { c with type := .exec }))
  | program : c.RunsAt (.program { c with type := .exec })

/-- Which processes are at a point of `exec_cmd`, and how often they have
forked. -/
inductive PlacedAt (cs : List Execcmd) : Pid → Point → Nat → Prop
  | enter {i : Nat} (inside : i < cs.length) :
      PlacedAt cs (rightPid i) (.enter (suffix cs i)) 0
  | last {i : Nat} {c : Execcmd} {point : Point} (command : cs[i]? = some c)
      (last : ¬ i + 1 < cs.length) (runs : c.RunsAt point) :
      PlacedAt cs (rightPid i) point 0
  | fork1 {i reads writes : Nat} {c : Execcmd} (command : cs[i]? = some c)
      (inside : i + 1 < cs.length) :
      PlacedAt cs (rightPid i)
        (.fork1 (.exec c) (suffix cs (i + 1)) reads writes) 0
  | closeWrite {i reads writes : Nat} (inside : i + 1 < cs.length) :
      PlacedAt cs (rightPid i) (.closeWrite (suffix cs (i + 1)) reads writes) 1
  | fork2 {i reads : Nat} (inside : i + 1 < cs.length) :
      PlacedAt cs (rightPid i) (.fork2 (suffix cs (i + 1)) reads) 1
  | waiting {i : Nat} {point : Point} (inside : i + 1 < cs.length)
      (behind : point.Behind) : PlacedAt cs (rightPid i) point 2
  | child2Dup2 {i reads : Nat} (inside : i + 1 < cs.length) :
      PlacedAt cs (rightPid (i + 1)) (.child2Dup2 (suffix cs (i + 1)) reads) 0
  | child2CloseRead {i reads : Nat} (inside : i + 1 < cs.length) :
      PlacedAt cs (rightPid (i + 1))
        (.child2CloseRead (suffix cs (i + 1)) reads) 0
  | child1CloseRead {i reads writes : Nat} {c : Execcmd} {rightcmd : Cmd}
      (command : cs[i]? = some c) (inside : i + 1 < cs.length) :
      PlacedAt cs (leftPid i) (.child1CloseRead (.exec c) rightcmd reads writes)
        0
  | child1Dup2 {i reads writes : Nat} {c : Execcmd} {rightcmd : Cmd}
      (command : cs[i]? = some c) (inside : i + 1 < cs.length) :
      PlacedAt cs (leftPid i) (.child1Dup2 (.exec c) rightcmd reads writes) 0
  | child1CloseWrite {i reads writes : Nat} {c : Execcmd} {rightcmd : Cmd}
      (command : cs[i]? = some c) (inside : i + 1 < cs.length) :
      PlacedAt cs (leftPid i)
        (.child1CloseWrite (.exec c) rightcmd reads writes) 0
  | left {i : Nat} {c : Execcmd} {point : Point} (command : cs[i]? = some c)
      (inside : i + 1 < cs.length) (runs : c.RunsAt point) :
      PlacedAt cs (leftPid i) point 0

/-- What the name of a process says about it. -/
structure Placed (cs : List Execcmd) (pid : Pid) (process : Process) : Prop where
  place : PlacedAt cs pid process.point process.forks
  ended : process.life ≠ .running →
    process.point = .leave ∨ process.point.isProgram ∨ process.point.mayFail
  frames : pid.head? ≠ some 0 → RightFrames process.frames

theorem redirect_eq (process : Process) (name : List UInt8) (target : Nat) :
    ∃ fds, process.redirect name target = { process with fds := fds } := by
  unfold Process.redirect
  split
  · exact ⟨process.fds, rfl⟩
  · exact ⟨_, rfl⟩

/-- A process that executes a command goes on with it. -/
theorem Execcmd.RunsAt.advance {forked : Option Process}
    (runs : c.RunsAt process.point)
    (advances : process.advance pid = some (next, forked)) :
    forked = none ∧ ∃ point fds, c.RunsAt point ∧
      next = { process with point := point, fds := fds } := by
  unfold Process.advance at advances
  generalize process.point = point at runs advances
  cases runs with
  | enter =>
      cases isType : c.type with
      | exec =>
          have same : { c with type := .exec } = c := by rw [← isType]
          dsimp only at advances
          rw [isType] at advances
          cases advances
          exact ⟨rfl, .program c, _, same ▸ .program, rfl⟩
      | redir =>
          dsimp only at advances
          rw [isType] at advances
          cases advances
          exact ⟨rfl, _, _, .redirectStdin, rfl⟩
  | redirectStdin =>
      cases advances
      obtain ⟨fds, same⟩ := redirect_eq process c.inFile 0
      exact ⟨rfl, _, fds, .redirectStdout, by rw [same]; rfl⟩
  | redirectStdout =>
      cases advances
      obtain ⟨fds, same⟩ := redirect_eq process c.outFile 1
      exact ⟨rfl, _, fds, .redirectStderr, by rw [same]; rfl⟩
  | redirectStderr =>
      cases advances
      obtain ⟨fds, same⟩ := redirect_eq process c.errFile 2
      by_cases joined : c.errFile = c.outFile
      · rw [if_pos joined]
        exact ⟨rfl, _, _, .redirected, rfl⟩
      · rw [if_neg joined, same]
        exact ⟨rfl, _, _, .redirected, rfl⟩
  | redirected =>
      cases advances
      exact ⟨rfl, _, _, .program, rfl⟩
  | program => cases advances

namespace Placed

/-- A process that does not end here. -/
theorem of_place (place : PlacedAt cs pid process.point process.forks)
    (running : process.life = .running)
    (frames : pid.head? ≠ some 0 → RightFrames process.frames) :
    Placed cs pid process :=
  ⟨place, fun ended => absurd running ended, frames⟩

/-- What a system call without a fork preserves. -/
theorem alone {forked : Option Process} {childPid : Pid}
    (place : PlacedAt cs pid next.point next.forks)
    (running : next.life = .running)
    (frames : pid.head? ≠ some 0 → RightFrames next.frames)
    (noChild : none = forked) :
    Placed cs pid next ∧ ∀ child ∈ forked, Placed cs childPid child := by
  refine ⟨of_place place running frames, ?_⟩
  intro child isChild
  rw [← noChild] at isChild
  cases isChild

theorem exit (placed : Placed cs pid process)
    (ends : process.point = .leave ∨ process.point.isProgram ∨
      process.point.mayFail) : Placed cs pid process.exit :=
  ⟨placed.place, fun _ => ends, placed.frames⟩

/-- The process executes a command, and goes on with it. -/
theorem runs {forked : Option Process} {childPid : Pid}
    (placed : Placed cs pid process) (running : process.life = .running)
    (runs : c.RunsAt process.point)
    (stays : ∀ point, c.RunsAt point → PlacedAt cs pid point process.forks)
    (advances : process.advance pid = some (next, forked)) :
    Placed cs pid next ∧ ∀ child ∈ forked, Placed cs childPid child := by
  obtain ⟨rfl, point, fds, runs', rfl⟩ := runs.advance advances
  exact alone (stays point runs') running placed.frames rfl

/-- A system call after which the process only stands elsewhere, with other open
files. -/
theorem moves {forked : Option Process} {childPid : Pid} {point : Point}
    {fds : Fds} {forks : Nat} (placed : Placed cs pid process)
    (running : process.life = .running) (sameForks : process.forks = forks)
    (place : PlacedAt cs pid point forks)
    (steps : some ({ process with point := point, fds := fds }, none) =
      some (next, forked)) :
    Placed cs pid next ∧ ∀ child ∈ forked, Placed cs childPid child := by
  cases steps
  exact alone (sameForks ▸ place) running placed.frames rfl

/-- What a system call preserves, in the caller and in the child. -/
theorem advance {forked : Option Process} (placed : Placed cs pid process)
    (busy : process.Busy)
    (advances : process.advance pid = some (next, forked)) :
    Placed cs pid next ∧
      ∀ child ∈ forked, Placed cs (process.forks :: pid) child := by
  have place := placed.place
  have frames := placed.frames
  have running := busy.1
  generalize atPoint : process.point = point at place
  generalize forksIs : process.forks = forks at place ⊢
  have steps := advances
  unfold Process.advance at steps
  rw [atPoint] at steps
  cases place with
  | enter inside =>
      rename_i i
      have command : cs[i]? = some cs[i] := List.getElem?_eq_getElem inside
      by_cases others : i + 1 < cs.length
      · rw [suffix_inside command others] at steps
        simp only [Option.some.injEq, Prod.mk.injEq] at steps
        obtain ⟨rfl, noChild⟩ := steps
        refine alone ?_ running frames noChild
        dsimp only
        rw [forksIs]
        exact .fork1 command others
      · refine placed.runs running (c := cs[i]) ?_ ?_ advances
        · rw [atPoint, suffix_last command others]
          exact .enter
        · rw [forksIs]
          exact fun point runs => .last command others runs
  | last command last runs =>
      refine placed.runs running (atPoint ▸ runs) ?_ advances
      rw [forksIs]
      exact fun point runs => .last command last runs
  | fork1 command inside =>
      simp only [Option.some.injEq, Prod.mk.injEq] at steps
      obtain ⟨rfl, rfl⟩ := steps
      constructor
      · refine of_place ?_ running frames
        dsimp only
        rw [forksIs]
        exact .closeWrite inside
      · rintro child ⟨⟩
        exact of_place (.child1CloseRead command inside) running
          (fun other => absurd rfl other)
  | closeWrite inside =>
      exact placed.moves running forksIs (.fork2 inside) steps
  | fork2 inside =>
      rename_i i reads
      simp only [Option.some.injEq, Prod.mk.injEq] at steps
      obtain ⟨rfl, rfl⟩ := steps
      constructor
      · refine of_place ?_ running frames
        dsimp only
        rw [forksIs]
        exact .waiting inside trivial
      · rintro child ⟨⟩
        exact of_place (.child2Dup2 inside) running
          fun _ => frames (head_rightPid i)
  | waiting inside behind =>
      cases point with
      | closeRead reads =>
          refine placed.moves running forksIs (.waiting inside ?_) steps
          trivial
      | leave =>
          simp only [Option.some.injEq, Prod.mk.injEq] at steps
          obtain ⟨rfl, noChild⟩ := steps
          have right := frames (head_rightPid _)
          unfold Process.leave
          cases stack : process.frames with
          | nil =>
              refine ⟨placed.exit (.inl atPoint), ?_⟩
              rw [← noChild]
              rintro child ⟨⟩
          | cons frame rest =>
              rw [stack] at right
              obtain ⟨reads, rfl⟩ := right frame List.mem_cons_self
              refine alone ?_ running (fun _ => ?_) noChild
              · dsimp only
                rw [forksIs]
                exact .waiting inside trivial
              · exact fun other member =>
                  right other (List.mem_cons_of_mem _ member)
      | wait1 | wait2 => cases steps
      | _ => exact behind.elim
  | child2Dup2 inside =>
      exact placed.moves running forksIs (.child2CloseRead inside) steps
  | child2CloseRead inside =>
      simp only [Option.some.injEq, Prod.mk.injEq] at steps
      obtain ⟨rfl, noChild⟩ := steps
      refine alone ?_ running (fun right frame member => ?_) noChild
      · dsimp only [Process.call]
        rw [forksIs]
        exact .enter inside
      · rcases List.mem_cons.mp member with rfl | before
        · exact ⟨_, rfl⟩
        · exact frames right frame before
  | child1CloseRead command inside =>
      exact placed.moves running forksIs (.child1Dup2 command inside) steps
  | child1Dup2 command inside =>
      exact placed.moves running forksIs (.child1CloseWrite command inside) steps
  | child1CloseWrite command inside =>
      simp only [Option.some.injEq, Prod.mk.injEq] at steps
      obtain ⟨rfl, noChild⟩ := steps
      refine alone ?_ running (fun other => absurd rfl other) noChild
      dsimp only [Process.call]
      rw [forksIs]
      exact .left command inside .enter
  | left command inside runs =>
      refine placed.runs running (atPoint ▸ runs) ?_ advances
      rw [forksIs]
      exact fun point runs => .left command inside runs

/-- The calls of `wait` stay behind both forks. -/
theorem waited (placed : Placed cs pid process) (busy : process.Busy)
    (returns : process.waited = some next) : Placed cs pid next := by
  have behind : process.point.Behind ∧
      ∃ point, point.Behind ∧ next = process.goto point := by
    rcases waited_cases returns with ⟨atPoint, rfl⟩ | ⟨atPoint, rfl⟩
    · exact ⟨by rw [atPoint]; trivial, .wait2, trivial, rfl⟩
    · exact ⟨by rw [atPoint]; trivial, .leave, trivial, rfl⟩
  obtain ⟨here, point, there, rfl⟩ := behind
  have place := placed.place
  refine of_place ?_ busy.1 placed.frames
  dsimp only [Process.goto]
  generalize process.point = before at here place
  generalize process.forks = forks at place ⊢
  cases place with
  | waiting inside _ => exact .waiting inside there
  | last _ _ runs | left _ _ runs => cases runs <;> exact here.elim
  | _ => exact here.elim

theorem keep (placed : Placed cs pid process) (handling : Bool) :
    Placed cs pid { process with handling := handling } :=
  ⟨placed.place, placed.ended, placed.frames⟩

theorem reap (placed : Placed cs pid process) (zombie : process.life = .zombie) :
    Placed cs pid { process with life := .reaped } := by
  have ended : process.life ≠ .running := by
    rw [zombie]
    exact Life.noConfusion
  exact ⟨placed.place, fun _ => placed.ended ended, placed.frames⟩

end Placed

def AllPlaced (cs : List Execcmd) (processes : Processes) : Prop :=
  ∀ pid process, processes pid = some process → Placed cs pid process

theorem AllPlaced.set (all : AllPlaced cs processes)
    (placed : Placed cs pid process) :
    AllPlaced cs (processes.set pid process) := by
  intro other found isFound
  rcases set_cases isFound with ⟨rfl, rfl⟩ | isFound
  · exact placed
  · exact all other found isFound

theorem allPlaced_step (all : AllPlaced cs processes)
    (step : ProcessStep processes event after) : AllPlaced cs after := by
  cases step with
  | advance found busy advances =>
      exact all.set ((all _ _ found).advance busy advances).1
  | fork found busy advances =>
      obtain ⟨caller, forked⟩ := (all _ _ found).advance busy advances
      exact (all.set caller).set (forked _ rfl)
  | fails found busy mayFail =>
      exact all.set ((all _ _ found).exit (.inr (.inr mayFail)))
  | ends found busy isProgram =>
      exact all.set ((all _ _ found).exit (.inr (.inl isProgram)))
  | waits found busy returns zombie =>
      obtain ⟨isChild, isZombie⟩ := zombieOf_some zombie
      exact (all.set ((all _ _ found).waited busy returns)).set
        ((all _ _ isChild).reap isZombie)
  | waitsForNone found busy returns childless =>
      exact all.set ((all _ _ found).waited busy returns)
  | signal found busy handles => exact all.set ((all _ _ found).keep true)
  | handler found handling zombie =>
      obtain ⟨isChild, isZombie⟩ := zombieOf_some zombie
      exact all.set ((all _ _ isChild).reap isZombie)
  | handled found handling noZombie =>
      exact all.set ((all _ _ found).keep false)

/-- A process that has nothing to do for a pipe any more has forked twice. -/
theorem PlacedAt.forks_of_stands {point : Point} {forks : Nat}
    (place : PlacedAt cs (rightPid i) point forks)
    (inside : i + 1 < cs.length) (stands : point.Stands) :
    point.Behind ∧ forks = 2 := by
  generalize isPid : rightPid i = pid at place
  cases place with
  | enter =>
      cases rightPid_inj isPid
      rw [suffix_inside (List.getElem?_eq_getElem (by omega)) inside] at stands
      exact absurd stands (not_stands_pipe _ _)
  | last command last =>
      cases rightPid_inj isPid
      exact absurd inside last
  | waiting _ behind => exact ⟨behind, rfl⟩
  | child1CloseRead | child1Dup2 | child1CloseWrite | left =>
      exact absurd isPid (rightPid_ne_leftPid _ _)
  | fork1 | closeWrite | fork2 | child2Dup2 | child2CloseRead =>
      rcases stands with behind | isProgram | mayFail
      · exact behind.elim
      · cases isProgram
      · cases mayFail

/-- What the process of a command executes when it stands. -/
theorem PlacedAt.command_of_stands {point : Point} {forks : Nat}
    (place : PlacedAt cs (commandPid cs.length i) point forks)
    (command : cs[i]? = some c) (stands : point.Stands) : c.RunsAt point := by
  unfold commandPid at place
  split at place
  · generalize isPid : leftPid i = pid at place
    cases place with
    | enter | last | fork1 | closeWrite | fork2 | waiting | child2Dup2
      | child2CloseRead =>
        exact absurd isPid.symm (rightPid_ne_leftPid _ _)
    | left command' inside runs =>
        cases leftPid_inj isPid
        rw [command] at command'
        cases command'
        exact runs
    | child1CloseRead | child1Dup2 | child1CloseWrite =>
        rcases stands with behind | isProgram | mayFail
        · exact behind.elim
        · cases isProgram
        · cases mayFail
  · rename_i last
    generalize isPid : rightPid i = pid at place
    cases place with
    | enter =>
        cases rightPid_inj isPid
        rw [suffix_last command last]
        exact .enter
    | last command' _ runs =>
        cases rightPid_inj isPid
        rw [command] at command'
        cases command'
        exact runs
    | fork1 _ others | closeWrite others | fork2 others | waiting others =>
        cases rightPid_inj isPid
        exact absurd others last
    | child2Dup2 | child2CloseRead =>
        rcases stands with behind | isProgram | mayFail
        · exact behind.elim
        · cases isProgram
        · cases mayFail
    | child1CloseRead | child1Dup2 | child1CloseWrite | left =>
        exact absurd isPid (rightPid_ne_leftPid _ _)

/-- A process that ends has nothing to do for a pipe any more. -/
theorem Placed.stands (placed : Placed cs pid process)
    (ended : process.life ≠ .running) : process.point.Stands := by
  rcases placed.ended ended with atPoint | isProgram | mayFail
  · exact .inl (by rw [atPoint]; trivial)
  · exact .inr (.inl isProgram)
  · exact .inr (.inr mayFail)

/-! ## Pipelines -/

/-- What holds in every state of a pipeline, with what `wait` has achieved. -/
structure Waiting (cs : List Execcmd) (processes : Processes) : Prop where
  all : AllPlaced cs processes
  family : Family processes
  waits : AllWait processes

theorem waiting_of_reachable (nonempty : cs ≠ [])
    (reachable : (pipelineProcesses cs group).Reachable Machine.Unrestricted
      processes) : Waiting cs processes := by
  refine reachable.invariant ?_ ?_
  · rintro _ rfl
    have place : PlacedAt cs (rightPid 0) (.enter (suffix cs 0)) 0 :=
      .enter (List.length_pos_iff.mpr nonempty)
    refine ⟨?_, family_initial _ rfl, ?_⟩
    · refine AllPlaced.set (fun _ _ isFound => nomatch isFound) ?_
      exact .of_place place rfl fun _ frame member => nomatch member
    · intro pid process found
      rcases set_cases found with ⟨rfl, rfl⟩ | found
      · exact .of_point rfl
      · cases found
  · rintro before event after ⟨all, family, waits⟩ - stepped
    have step := ProcessEvent.processStep stepped
    exact ⟨allPlaced_step all step, family_step family step,
      allWait_step family waits step⟩

/-- A process that has ended behind two calls of `wait` has reaped both of its
children. -/
theorem Placed.reaped (placed : Placed cs (rightPid i) process)
    (waits : Waits processes (rightPid i) process)
    (ended : process.life ≠ .running) (inside : i + 1 < cs.length) :
    Reaped processes (leftPid i) ∧ Reaped processes (rightPid (i + 1)) := by
  obtain ⟨behind, forks⟩ :=
    placed.place.forks_of_stands inside (placed.stands ended)
  rcases placed.ended ended with atPoint | isProgram | mayFail
  · exact waits.twice atPoint forks
  · generalize process.point = point at behind isProgram
    cases point with
    | closeRead | wait1 | wait2 | leave => cases isProgram
    | _ => exact behind.elim
  · generalize process.point = point at behind mayFail
    cases point with
    | closeRead | wait1 | wait2 | leave => cases mayFail
    | _ => exact behind.elim

/-- When the first process of a pipeline has ended, so has the one that runs the
commands from `i` on. -/
theorem rightPid_ended (waiting : Waiting cs processes) {top : Process}
    (found : processes [] = some top) (ended : top.life ≠ .running)
    (inside : i < cs.length) :
    ∃ process, processes (rightPid i) = some process ∧
      process.life ≠ .running := by
  induction i with
  | zero => exact ⟨top, found, ended⟩
  | succ i induction =>
      obtain ⟨process, isProcess, isEnded⟩ := induction (by omega)
      obtain ⟨-, second, isSecond, reaped⟩ := (waiting.all _ _ isProcess).reaped
        (waiting.waits _ _ isProcess) isEnded inside
      refine ⟨second, isSecond, ?_⟩
      rw [reaped]
      exact Life.noConfusion

/-- When the first process of a pipeline has ended, so have the processes of all
its commands, whatever is redirected. -/
theorem commands_ended (several : 2 ≤ cs.length)
    (reachable : (pipelineProcesses cs group).Reachable Machine.Unrestricted
      processes) {top : Process} (found : processes [] = some top)
    (ended : top.life ≠ .running) (i : Nat) (command : cs[i]? = some c) :
    ∃ process, processes (commandPid cs.length i) = some process ∧
      c.RunsAt process.point ∧ process.life ≠ .running := by
  have nonempty : cs ≠ [] := by
    rintro rfl
    cases several
  have waiting := waiting_of_reachable nonempty reachable
  have inside := (List.getElem?_eq_some_iff.mp command).1
  obtain ⟨right, isRight, rightEnded⟩ := rightPid_ended waiting found ended inside
  have commandEnded : ∃ process,
      processes (commandPid cs.length i) = some process ∧
        process.life ≠ .running := by
    unfold commandPid
    split
    · rename_i others
      obtain ⟨⟨left, isLeft, reaped⟩, -⟩ := (waiting.all _ _ isRight).reaped
        (waiting.waits _ _ isRight) rightEnded others
      refine ⟨left, isLeft, ?_⟩
      rw [reaped]
      exact Life.noConfusion
    · exact ⟨right, isRight, rightEnded⟩
  obtain ⟨process, isProcess, processEnded⟩ := commandEnded
  have placed := waiting.all _ _ isProcess
  exact ⟨process, isProcess,
    placed.place.command_of_stands command (placed.stands processEnded),
    processEnded⟩

/-- `cat <f | cat`. -/
def redirectedCommands : List Execcmd :=
  [{ execCmdCreate [99, 97, 116, 32, 60, 102, 32] with
      type := .redir
      argv := [[99, 97, 116]]
      inFile := [102] },
    { execCmdCreate [99, 97, 116] with argv := [[99, 97, 116]] }]

/-- The file of the first command cannot be opened, the handler of SIGCHLD reaps
the process, and the second command ends. -/
def endsBoth : List ProcessEvent :=
  [.advance [], .advance [], .advance [0], .advance [0], .advance [0],
    .advance [0], .fails [0], .signal [], .handler [] (some 0),
    .handler [] none, .advance [], .advance [], .advance [1], .advance [1],
    .advance [1], .ends [1], .advance [], .waits [] (some 1), .waits [] none,
    .advance []]

theorem commands_ended_redirected :
    ∃ processes, endsBoth.foldlM ProcessEvent.step
        (Processes.set (fun _ => none) []
          (Process.initial (pipelineOf (redirectedCommands.map .exec)) [])) =
      some processes ∧
        ∀ i < 2, ∃ process, processes (commandPid 2 i) = some process ∧
          process.life ≠ .running := by
  have runs : (endsBoth.foldlM ProcessEvent.step
      (Processes.set (fun _ => none) []
        (Process.initial (pipelineOf (redirectedCommands.map .exec)) []))).bind
      (fun processes => (processes []).map Process.life) = some .zombie := by
    decide +kernel
  obtain ⟨processes, ran, top⟩ := Option.bind_eq_some_iff.mp runs
  obtain ⟨top, found, zombie⟩ := Option.map_eq_some_iff.mp top
  have reachable : (pipelineProcesses redirectedCommands []).Reachable
      Machine.Unrestricted processes :=
    ⟨_, _, rfl, Machine.run_of_foldlM (fun _ _ _ stepped => stepped)
      (fun _ _ => trivial) ran⟩
  have ended : top.life ≠ .running := by
    rw [zombie]
    exact Life.noConfusion
  refine ⟨processes, ran, fun i below => ?_⟩
  obtain ⟨process, isCommand, -, commandEnded⟩ := commands_ended (by decide)
    reachable found ended i (List.getElem?_eq_getElem below)
  exact ⟨process, isCommand, commandEnded⟩

end FeaturesOS.Shell

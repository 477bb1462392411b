import FeaturesOS.Shell.Processes

/-!
# The descriptors of a pipeline

`exec_cmd` on commands nested to the right.  The process that runs the call for
the command `i` and those behind it is the second child of the one before, so it
is known by its name, and the name and the place in the code of a process
determine its descriptors.
-/

namespace FeaturesOS.Shell

variable {fds : Fds} {file : File} {fd old new : Nat}

/-! ## Descriptor tables as functions -/

namespace Fds

theorem get_set_none (fds : Fds) (fd : Nat) :
    get (fds.set fd none) = Function.update fds.get fd none := by
  funext k
  unfold get
  by_cases same : k = fd
  · subst same
    rw [Function.update_self, List.getD_eq_getElem?_getD, List.getElem?_set]
    by_cases inside : k < fds.length
    · rw [if_pos rfl, if_pos inside]
      rfl
    · rw [if_pos rfl, if_neg inside]
      rfl
  · rw [Function.update_of_ne same, List.getD_eq_getElem?_getD,
      List.getD_eq_getElem?_getD, List.getElem?_set_ne (Ne.symm same)]

theorem get_close (fds : Fds) (fd : Nat) :
    (fds.close fd).get = Function.update fds.get fd none :=
  get_set_none fds fd

theorem get_put (fds : Fds) (fd : Nat) (file : File) :
    (fds.put fd file).get = Function.update fds.get fd (some file) := by
  funext k
  unfold get put
  have room : fd < (fds ++ List.replicate (fd + 1 - fds.length)
      (none : Option File)).length := by
    rw [List.length_append, List.length_replicate]
    omega
  by_cases same : k = fd
  · subst same
    rw [Function.update_self, List.getD_eq_getElem?_getD,
      List.getElem?_set_self room]
    rfl
  · rw [Function.update_of_ne same, List.getD_eq_getElem?_getD,
      List.getD_eq_getElem?_getD, List.getElem?_set_ne (Ne.symm same),
      List.getElem?_append]
    split
    · rfl
    · rename_i beyond
      rw [List.getElem?_replicate, List.getElem?_eq_none (by omega)]
      split
      · rfl
      · rfl

theorem get_dup2 (fds : Fds) (new : Nat) (open' : fds.get old = some file) :
    (fds.dup2 old new).get = Function.update fds.get new (some file) := by
  unfold dup2
  rw [open']
  exact get_put fds new file

/-- A new descriptor was not open, and the others stay as they are. -/
theorem get_add (file : File) (fds : Fds) :
    fds.get (fds.add file).2 = none ∧
      (fds.add file).1.get =
        Function.update fds.get (fds.add file).2 (some file) := by
  induction fds with
  | nil =>
      refine ⟨rfl, funext fun k => ?_⟩
      cases k with
      | zero => rfl
      | succ k => rfl
  | cons first fds induction =>
      cases first with
      | none =>
          refine ⟨rfl, funext fun k => ?_⟩
          cases k with
          | zero => rfl
          | succ k => rfl
      | some other =>
          refine ⟨induction.1, funext fun k => ?_⟩
          cases k with
          | zero => rfl
          | succ k =>
              have rest := congrFun induction.2 k
              unfold get at rest ⊢
              rw [add]
              dsimp only
              rw [List.getD_cons_succ, rest]
              by_cases same : k = (add file fds).2
              · subst same
                rw [Function.update_self, Function.update_self]
              · rw [Function.update_of_ne same, Function.update_of_ne (by omega),
                  List.getD_cons_succ]

end Fds

/-! ## Names -/

/-- The process that calls `exec_cmd` for the commands from `i` on. -/
def rightPid (i : Nat) : Pid := List.replicate i 1

/-- The first child of that process. -/
def leftPid (i : Nat) : Pid := 0 :: rightPid i

/-- The process that executes the command `i` of `count`. -/
def commandPid (count i : Nat) : Pid :=
  if i + 1 < count then leftPid i else rightPid i

/-- An end of the pipe between the commands `i` and `i + 1`. -/
def pipeEnd (i : Nat) (side : PipeEnd) : File := .pipe (rightPid i) 0 side

/-- The standard input of the command `i`. -/
def stdinOf (i : Nat) : File :=
  if i = 0 then .inherited 0 else pipeEnd (i - 1) .read

/-- The standard output of the command `i` of `count`. -/
def stdoutOf (count i : Nat) : File :=
  if i + 1 < count then pipeEnd i .write else .inherited 1

/-- A table in which exactly the descriptors 0, 1 and 2 are open. -/
def standard (input output : File) : Nat → Option File
  | 0 => some input
  | 1 => some output
  | 2 => some (.inherited 2)
  | _ => none

/-- The commands from `i` on, nested to the right. -/
def suffix (cs : List Execcmd) (i : Nat) : Cmd :=
  pipelineOf ((cs.drop i).map .exec)

variable {cs : List Execcmd} {pid : Pid} {process next : Process}
variable {i : Nat} {c : Execcmd}

theorem suffix_last (command : cs[i]? = some c) (last : ¬ i + 1 < cs.length) :
    suffix cs i = .exec c := by
  obtain ⟨inside, here⟩ := List.getElem?_eq_some_iff.mp command
  unfold suffix
  rw [List.drop_eq_getElem_cons inside, List.drop_eq_nil_of_le (by omega), here]
  rfl

theorem suffix_inside (command : cs[i]? = some c)
    (inside : i + 1 < cs.length) :
    suffix cs i = .pipe (.exec c) (suffix cs (i + 1)) := by
  obtain ⟨below, here⟩ := List.getElem?_eq_some_iff.mp command
  have nonempty : suffix cs (i + 1) ≠ .null := by
    unfold suffix
    rw [List.drop_eq_getElem_cons inside, List.map_cons, pipelineOf,
      pipeCmdCreate]
    split
    · exact Cmd.noConfusion
    · exact Cmd.noConfusion
  unfold suffix at nonempty ⊢
  rw [List.drop_eq_getElem_cons below, List.map_cons, pipelineOf, pipeCmdCreate,
    if_neg nonempty, here]

/-! ## What a process has open -/

/-- A process that runs `exec_cmd` for the commands from `i` on, with its own
pipe in the descriptors `reads` and `writes`. -/
def withPipe (i reads writes : Nat) : Nat → Option File :=
  Function.update
    (Function.update (standard (stdinOf i) (.inherited 1)) reads
      (some (pipeEnd i .read)))
    writes (some (pipeEnd i .write))

/-- A table without the write end of any pipe. -/
def ReadsOnly (table : Nat → Option File) : Prop :=
  ∀ fd creator number, table fd ≠ some (.pipe creator number .write)

/-- Which processes are at a point of `exec_cmd`, what they have created, and
what their descriptors are there. -/
inductive WiredAt (cs : List Execcmd) :
    Pid → Point → Nat → Nat → (Nat → Option File) → Prop
  | enter {i : Nat} (inside : i < cs.length) :
      WiredAt cs (rightPid i) (.enter (suffix cs i)) 0 0
        (standard (stdinOf i) (.inherited 1))
  | last {i : Nat} {c : Execcmd} (command : cs[i]? = some c)
      (last : ¬ i + 1 < cs.length) :
      WiredAt cs (rightPid i) (.program c) 0 0
        (standard (stdinOf i) (.inherited 1))
  | fork1 {i reads writes : Nat} {c : Execcmd} (command : cs[i]? = some c)
      (inside : i + 1 < cs.length) (above : 2 < reads) (above' : 2 < writes)
      (different : reads ≠ writes) :
      WiredAt cs (rightPid i)
        (.fork1 (.exec c) (suffix cs (i + 1)) reads writes) 0 1
        (withPipe i reads writes)
  | closeWrite {i reads writes : Nat} (inside : i + 1 < cs.length)
      (above : 2 < reads) (above' : 2 < writes) (different : reads ≠ writes) :
      WiredAt cs (rightPid i) (.closeWrite (suffix cs (i + 1)) reads writes) 1 1
        (withPipe i reads writes)
  | fork2 {i reads : Nat} (inside : i + 1 < cs.length) (above : 2 < reads) :
      WiredAt cs (rightPid i) (.fork2 (suffix cs (i + 1)) reads) 1 1
        (Function.update (standard (stdinOf i) (.inherited 1)) reads
          (some (pipeEnd i .read)))
  | waiting {i : Nat} {point : Point} {table : Nat → Option File}
      (inside : i + 1 < cs.length) (behind : point.Behind)
      (readsOnly : ReadsOnly table) :
      WiredAt cs (rightPid i) point 2 1 table
  | child2Dup2 {i reads : Nat} (inside : i + 1 < cs.length)
      (above : 2 < reads) :
      WiredAt cs (rightPid (i + 1)) (.child2Dup2 (suffix cs (i + 1)) reads) 0 0
        (Function.update (standard (stdinOf i) (.inherited 1)) reads
          (some (pipeEnd i .read)))
  | child2CloseRead {i reads : Nat} (inside : i + 1 < cs.length)
      (above : 2 < reads) :
      WiredAt cs (rightPid (i + 1)) (.child2CloseRead (suffix cs (i + 1)) reads)
        0 0
        (Function.update (standard (stdinOf (i + 1)) (.inherited 1)) reads
          (some (pipeEnd i .read)))
  | child1CloseRead {i reads writes : Nat} {c : Execcmd} {rightcmd : Cmd}
      (command : cs[i]? = some c) (inside : i + 1 < cs.length)
      (above : 2 < reads) (above' : 2 < writes) (different : reads ≠ writes) :
      WiredAt cs (leftPid i) (.child1CloseRead (.exec c) rightcmd reads writes)
        0 0 (withPipe i reads writes)
  | child1Dup2 {i reads writes : Nat} {c : Execcmd} {rightcmd : Cmd}
      (command : cs[i]? = some c) (inside : i + 1 < cs.length)
      (above' : 2 < writes) :
      WiredAt cs (leftPid i) (.child1Dup2 (.exec c) rightcmd reads writes) 0 0
        (Function.update (standard (stdinOf i) (.inherited 1)) writes
          (some (pipeEnd i .write)))
  | child1CloseWrite {i reads writes : Nat} {c : Execcmd} {rightcmd : Cmd}
      (command : cs[i]? = some c) (inside : i + 1 < cs.length)
      (above' : 2 < writes) :
      WiredAt cs (leftPid i) (.child1CloseWrite (.exec c) rightcmd reads writes)
        0 0
        (Function.update (standard (stdinOf i) (pipeEnd i .write)) writes
          (some (pipeEnd i .write)))
  | enterLeft {i : Nat} {c : Execcmd} (command : cs[i]? = some c)
      (inside : i + 1 < cs.length) :
      WiredAt cs (leftPid i) (.enter (.exec c)) 0 0
        (standard (stdinOf i) (pipeEnd i .write))
  | left {i : Nat} {c : Execcmd} (command : cs[i]? = some c)
      (inside : i + 1 < cs.length) :
      WiredAt cs (leftPid i) (.program c) 0 0
        (standard (stdinOf i) (pipeEnd i .write))

/-- The calls of `exec_cmd` in which a process is are those for the right
sides. -/
def RightFrames (frames : List Frame) : Prop :=
  ∀ frame ∈ frames, ∃ reads, frame = .rightcmd reads

/-- What the name of a process says about it. -/
structure Wired (cs : List Execcmd) (pid : Pid) (process : Process) : Prop where
  wired : ∃ table,
    WiredAt cs pid process.point process.forks process.pipes table ∧
      (process.life = .running → process.fds.get = table)
  closed : process.life ≠ .running → process.fds = []
  ended : process.life ≠ .running →
    process.point = .leave ∨ process.point.isProgram ∨ process.point.mayFail
  frames : pid.head? ≠ some 0 → RightFrames process.frames

/-- All commands are executed without redirections. -/
def Simple (cs : List Execcmd) : Prop := ∀ c ∈ cs, c.type = .exec

instance (cs : List Execcmd) : Decidable (Simple cs) :=
  inferInstanceAs (Decidable (∀ c ∈ cs, _))

/-! ### Tables -/

theorem standard_of_above {input output : File} (above : 2 < fd) :
    standard input output fd = none := by
  match fd, above with
  | _ + 3, _ => rfl

theorem above_of_standard {input output : File}
    (closed : standard input output fd = none) : 2 < fd := by
  match fd with
  | 0 | 1 | 2 => cases closed
  | fd + 3 => omega

theorem update_standard {input output : File} (above : 2 < fd) :
    Function.update (standard input output) fd none =
      standard input output := by
  rw [Function.update_eq_self_iff]
  exact (standard_of_above above).symm

theorem close_standard {input output : File} (above : 2 < fd) :
    Function.update (Function.update (standard input output) fd (some file)) fd
        none =
      standard input output := by
  rw [Function.update_idem, update_standard above]

theorem standard_stdin (input output replaced : File) :
    Function.update (standard input output) 0 (some replaced) =
      standard replaced output := by
  funext k
  match k with
  | 0 | 1 | 2 | _ + 3 => rfl

theorem standard_stdout (input output replaced : File) :
    Function.update (standard input output) 1 (some replaced) =
      standard input replaced := by
  funext k
  match k with
  | 0 | 1 | 2 | _ + 3 => rfl

theorem stdinOf_ne (i : Nat) (creator : Pid) (number : Nat) :
    stdinOf i ≠ .pipe creator number .write := by
  unfold stdinOf pipeEnd
  split
  · exact File.noConfusion
  · intro same
    cases same

theorem readsOnly_standard (i : Nat) :
    ReadsOnly (standard (stdinOf i) (.inherited 1)) := by
  intro fd creator number
  match fd with
  | 0 => exact fun same => stdinOf_ne i creator number (Option.some.inj same)
  | 1 | 2 | _ + 3 => exact fun same => by cases same

theorem ReadsOnly.update {table : Nat → Option File}
    (readsOnly : ReadsOnly table) (fd : Nat) {replaced : Option File}
    (notWrite : ∀ creator number,
      replaced ≠ some (.pipe creator number .write)) :
    ReadsOnly (Function.update table fd replaced) := by
  intro k creator number
  by_cases same : k = fd
  · subst same
    rw [Function.update_self]
    exact notWrite creator number
  · rw [Function.update_of_ne same]
    exact readsOnly k creator number

theorem withPipe_closeWrite {reads writes : Nat} (above' : 2 < writes)
    (different : reads ≠ writes) :
    Function.update (withPipe i reads writes) writes none =
      Function.update (standard (stdinOf i) (.inherited 1)) reads
        (some (pipeEnd i .read)) := by
  rw [withPipe, Function.update_idem, Function.update_comm different,
    update_standard above']

theorem withPipe_closeRead {reads writes : Nat} (above : 2 < reads)
    (different : reads ≠ writes) :
    Function.update (withPipe i reads writes) reads none =
      Function.update (standard (stdinOf i) (.inherited 1)) writes
        (some (pipeEnd i .write)) := by
  rw [withPipe, Function.update_comm different, Function.update_idem,
    Function.update_comm different.symm, update_standard above]

/-- The two descriptors of a new pipe. -/
theorem get_pipe {first : File} (table : fds.get =
      standard (stdinOf i) (.inherited 1))
    (isFirst : first = pipeEnd i .read) :
    let reads := (fds.add first).2
    let writes := ((fds.add first).1.add (pipeEnd i .write)).2
    2 < reads ∧ 2 < writes ∧ reads ≠ writes ∧
      ((fds.add first).1.add (pipeEnd i .write)).1.get =
        withPipe i reads writes := by
  subst isFirst
  dsimp only
  obtain ⟨free, added⟩ := Fds.get_add (pipeEnd i .read) fds
  obtain ⟨free', added'⟩ :=
    Fds.get_add (pipeEnd i .write) (fds.add (pipeEnd i .read)).1
  generalize (fds.add (pipeEnd i .read)).2 = reads at *
  generalize ((fds.add (pipeEnd i .read)).1.add (pipeEnd i .write)).2 = writes
    at *
  rw [table] at free
  rw [added, table] at free' added'
  have different : writes ≠ reads := by
    rintro rfl
    rw [Function.update_self] at free'
    cases free'
  rw [Function.update_of_ne different] at free'
  exact ⟨above_of_standard free, above_of_standard free', different.symm,
    added'⟩

/-! ## Steps -/

theorem WiredAt.wired
    (place : WiredAt cs pid process.point process.forks process.pipes
      process.fds.get)
    (running : process.life = .running)
    (frames : pid.head? ≠ some 0 → RightFrames process.frames) :
    Wired cs pid process where
  wired := ⟨_, place, fun _ => rfl⟩
  closed := fun ended => absurd running ended
  ended := fun ended => absurd running ended
  frames := frames

/-- What a system call without a fork preserves. -/
theorem WiredAt.alone {forked : Option Process} {childPid : Pid}
    (place : WiredAt cs pid next.point next.forks next.pipes next.fds.get)
    (running : next.life = .running)
    (frames : pid.head? ≠ some 0 → RightFrames next.frames)
    (noChild : none = forked) :
    Wired cs pid next ∧ ∀ child ∈ forked, Wired cs childPid child := by
  refine ⟨place.wired running frames, ?_⟩
  intro child isChild
  rw [← noChild] at isChild
  cases isChild

theorem Wired.exit (wired : Wired cs pid process)
    (ends : process.point = .leave ∨ process.point.isProgram ∨
      process.point.mayFail) : Wired cs pid process.exit := by
  obtain ⟨table, place, -⟩ := wired.wired
  refine ⟨⟨table, place, ?_⟩, fun _ => rfl, fun _ => ends, wired.frames⟩
  intro running
  cases running

theorem head_rightPid (i : Nat) : (rightPid i).head? ≠ some 0 := by
  cases i with
  | zero => simp [rightPid]
  | succ i => simp [rightPid, List.replicate_succ]

/-- What a system call preserves, in the caller and in the child. -/
theorem Wired.advance {forked : Option Process} (simple : Simple cs)
    (wired : Wired cs pid process) (busy : process.Busy)
    (advances : process.advance pid = some (next, forked)) :
    Wired cs pid next ∧
      ∀ child ∈ forked, Wired cs (process.forks :: pid) child := by
  obtain ⟨table, place, isTable⟩ := wired.wired
  have frames := wired.frames
  obtain ⟨running, -⟩ := busy
  have opens := isTable running
  generalize atPoint : process.point = point at place
  generalize forksIs : process.forks = forks at place ⊢
  generalize pipesIs : process.pipes = pipes at place
  unfold Process.advance at advances
  rw [atPoint] at advances
  cases place with
  | enter inside =>
      rename_i i
      obtain ⟨c, command⟩ : ∃ c, cs[i]? = some c :=
        ⟨cs[i], List.getElem?_eq_getElem inside⟩
      by_cases others : i + 1 < cs.length
      · rw [suffix_inside command others] at advances
        simp only [Option.some.injEq, Prod.mk.injEq] at advances
        obtain ⟨rfl, noChild⟩ := advances
        refine WiredAt.alone ?_ running frames noChild
        have pipe : File.pipe (rightPid i) process.pipes .read =
            pipeEnd i .read := by rw [pipesIs, pipeEnd]
        obtain ⟨above, above', different, table⟩ := get_pipe opens pipe
        rw [pipesIs, pipeEnd] at above' different table
        rw [pipesIs] at above
        dsimp only
        rw [pipesIs, forksIs, table]
        exact .fork1 command others above above' different
      · rw [suffix_last command others] at advances
        have isExec := simple c (List.mem_of_getElem? command)
        simp only [isExec, Option.some.injEq, Prod.mk.injEq] at advances
        obtain ⟨rfl, noChild⟩ := advances
        refine WiredAt.alone ?_ running frames noChild
        dsimp only [Process.goto]
        rw [pipesIs, forksIs, opens]
        exact .last command others
  | last command last => cases advances
  | fork1 command inside above above' different =>
      simp only [Option.some.injEq, Prod.mk.injEq] at advances
      obtain ⟨rfl, rfl⟩ := advances
      constructor
      · refine WiredAt.wired ?_ running frames
        dsimp only
        rw [pipesIs, forksIs, opens]
        exact .closeWrite inside above above' different
      · rintro child ⟨⟩
        refine WiredAt.wired ?_ running (fun other => absurd rfl other)
        dsimp only [Process.fork]
        rw [opens]
        exact .child1CloseRead command inside above above' different
  | closeWrite inside above above' different =>
      simp only [Option.some.injEq, Prod.mk.injEq] at advances
      obtain ⟨rfl, noChild⟩ := advances
      refine WiredAt.alone ?_ running frames noChild
      dsimp only
      rw [pipesIs, forksIs, Fds.get_close, opens,
        withPipe_closeWrite above' different]
      exact .fork2 inside above
  | fork2 inside above =>
      rename_i i reads
      simp only [Option.some.injEq, Prod.mk.injEq] at advances
      obtain ⟨rfl, rfl⟩ := advances
      constructor
      · refine WiredAt.wired ?_ running frames
        dsimp only
        rw [pipesIs, forksIs, opens]
        refine .waiting inside trivial ?_
        apply (readsOnly_standard i).update
        intro creator number same
        cases same
      · rintro child ⟨⟩
        refine WiredAt.wired ?_ running ?_
        · dsimp only [Process.fork]
          rw [opens]
          exact .child2Dup2 inside above
        · intro _
          exact frames (head_rightPid i)
  | waiting inside behind readsOnly =>
      cases point with
      | closeRead reads =>
          simp only [Option.some.injEq, Prod.mk.injEq] at advances
          obtain ⟨rfl, noChild⟩ := advances
          refine WiredAt.alone ?_ running frames noChild
          dsimp only
          rw [pipesIs, forksIs, Fds.get_close, opens]
          refine .waiting inside trivial ?_
          apply readsOnly.update
          intro creator number same
          cases same
      | leave =>
          simp only [Option.some.injEq, Prod.mk.injEq] at advances
          obtain ⟨rfl, noChild⟩ := advances
          have right := frames (head_rightPid _)
          unfold Process.leave
          cases stack : process.frames with
          | nil =>
              refine ⟨wired.exit (.inl atPoint), ?_⟩
              rw [← noChild]
              rintro child ⟨⟩
          | cons frame rest =>
              rw [stack] at right
              obtain ⟨reads, rfl⟩ := right frame List.mem_cons_self
              refine WiredAt.alone ?_ running (fun _ => ?_) noChild
              · dsimp only
                rw [pipesIs, forksIs, opens]
                exact .waiting inside trivial readsOnly
              · exact fun other member =>
                  right other (List.mem_cons_of_mem _ member)
      | wait1 | wait2 => cases advances
      | _ => exact behind.elim
  | child2Dup2 inside above =>
      rename_i i fd
      simp only [Option.some.injEq, Prod.mk.injEq] at advances
      obtain ⟨rfl, noChild⟩ := advances
      refine WiredAt.alone ?_ running frames noChild
      have reads : process.fds.get fd = some (pipeEnd i .read) := by
        rw [opens, Function.update_self]
      dsimp only
      rw [pipesIs, forksIs, Fds.get_dup2 _ _ reads, opens,
        Function.update_comm (by omega), standard_stdin]
      exact .child2CloseRead inside above
  | child2CloseRead inside above =>
      simp only [Option.some.injEq, Prod.mk.injEq] at advances
      obtain ⟨rfl, noChild⟩ := advances
      refine WiredAt.alone ?_ running ?_ noChild
      · dsimp only [Process.call]
        rw [pipesIs, forksIs, Fds.get_close, opens, close_standard above]
        exact .enter inside
      · intro right frame member
        rcases List.mem_cons.mp member with rfl | before
        · exact ⟨_, rfl⟩
        · exact frames right frame before
  | child1CloseRead command inside above above' different =>
      simp only [Option.some.injEq, Prod.mk.injEq] at advances
      obtain ⟨rfl, noChild⟩ := advances
      refine WiredAt.alone ?_ running frames noChild
      dsimp only
      rw [pipesIs, forksIs, Fds.get_close, opens,
        withPipe_closeRead above different]
      exact .child1Dup2 command inside above'
  | child1Dup2 command inside above' =>
      rename_i i _ fd _ _
      simp only [Option.some.injEq, Prod.mk.injEq] at advances
      obtain ⟨rfl, noChild⟩ := advances
      refine WiredAt.alone ?_ running frames noChild
      have writes : process.fds.get fd = some (pipeEnd i .write) := by
        rw [opens, Function.update_self]
      dsimp only
      rw [pipesIs, forksIs, Fds.get_dup2 _ _ writes, opens,
        Function.update_comm (by omega), standard_stdout]
      exact .child1CloseWrite command inside above'
  | child1CloseWrite command inside above' =>
      simp only [Option.some.injEq, Prod.mk.injEq] at advances
      obtain ⟨rfl, noChild⟩ := advances
      refine WiredAt.alone ?_ running (fun other => absurd rfl other) noChild
      dsimp only [Process.call]
      rw [pipesIs, forksIs, Fds.get_close, opens, close_standard above']
      exact .enterLeft command inside
  | enterLeft command inside =>
      have isExec := simple _ (List.mem_of_getElem? command)
      simp only [isExec, Option.some.injEq, Prod.mk.injEq] at advances
      obtain ⟨rfl, noChild⟩ := advances
      refine WiredAt.alone ?_ running frames noChild
      dsimp only [Process.goto]
      rw [pipesIs, forksIs, opens]
      exact .left command inside
  | left command inside => cases advances

/-- Only a process that has forked twice is behind both forks. -/
theorem WiredAt.of_behind {point : Point} {forks pipes : Nat}
    {table : Nat → Option File}
    (place : WiredAt cs pid point forks pipes table) (behind : point.Behind) :
    ∃ i, i + 1 < cs.length ∧ pid = rightPid i ∧ forks = 2 ∧ pipes = 1 ∧
      ReadsOnly table := by
  cases place with
  | waiting inside _ readsOnly => exact ⟨_, inside, rfl, rfl, rfl, readsOnly⟩
  | _ => exact behind.elim

theorem Wired.behind (wired : Wired cs pid process) (busy : process.Busy)
    (behind : process.point.Behind) {point : Point} (behind' : point.Behind) :
    Wired cs pid (process.goto point) := by
  obtain ⟨table, place, isTable⟩ := wired.wired
  obtain ⟨i, inside, rfl, forks, pipes, readsOnly⟩ := place.of_behind behind
  refine ⟨⟨table, ?_, isTable⟩, wired.closed,
    fun ended => absurd busy.1 ended, wired.frames⟩
  dsimp only [Process.goto]
  rw [forks, pipes]
  exact .waiting inside behind' readsOnly

theorem Wired.waited (wired : Wired cs pid process) (busy : process.Busy)
    (returns : process.waited = some next) : Wired cs pid next := by
  rcases waited_cases returns with ⟨atPoint, rfl⟩ | ⟨atPoint, rfl⟩
  · exact wired.behind busy (by rw [atPoint]; trivial) trivial
  · exact wired.behind busy (by rw [atPoint]; trivial) trivial

/-- The other steps leave the place and the descriptors. -/
theorem Wired.keep (wired : Wired cs pid process) (handling : Bool) :
    Wired cs pid { process with handling := handling } :=
  ⟨wired.wired, wired.closed, wired.ended, wired.frames⟩

theorem Wired.reap (wired : Wired cs pid process)
    (zombie : process.life = .zombie) :
    Wired cs pid { process with life := .reaped } := by
  obtain ⟨table, place, -⟩ := wired.wired
  have ended : process.life ≠ .running := by
    rw [zombie]
    exact Life.noConfusion
  refine ⟨⟨table, place, ?_⟩, fun _ => wired.closed ended,
    fun _ => wired.ended ended, wired.frames⟩
  intro running
  cases running

/-- Every process is wired. -/
def AllWired (cs : List Execcmd) (processes : Processes) : Prop :=
  ∀ pid process, processes pid = some process → Wired cs pid process

theorem AllWired.set {processes : Processes} (all : AllWired cs processes)
    (wired : Wired cs pid process) : AllWired cs (processes.set pid process) := by
  intro other found isFound
  rcases set_cases isFound with ⟨rfl, rfl⟩ | isFound
  · exact wired
  · exact all other found isFound

theorem allWired_step {processes after : Processes} {event : ProcessEvent}
    (simple : Simple cs) (all : AllWired cs processes)
    (step : ProcessStep processes event after) : AllWired cs after := by
  cases step with
  | advance found busy advances =>
      exact all.set ((all _ _ found).advance simple busy advances).1
  | fork found busy advances =>
      obtain ⟨caller, forked⟩ := (all _ _ found).advance simple busy advances
      exact (all.set caller).set (forked _ rfl)
  | fails found busy mayFail =>
      exact all.set ((all _ _ found).exit (.inr (.inr mayFail)))
  | ends found busy isProgram =>
      exact all.set ((all _ _ found).exit (.inr (.inl isProgram)))
  | waits found busy returns zombie =>
      obtain ⟨isChild, isZombie⟩ := zombieOf_some zombie
      exact (all.set ((all _ _ found).waited busy returns)).set
        ((all _ _ isChild).reap isZombie)
  | waitsForNone found busy returns childless =>
      exact all.set ((all _ _ found).waited busy returns)
  | signal found busy handles => exact all.set ((all _ _ found).keep true)
  | handler found handling zombie =>
      obtain ⟨isChild, isZombie⟩ := zombieOf_some zombie
      exact all.set ((all _ _ isChild).reap isZombie)
  | handled found handling noZombie =>
      exact all.set ((all _ _ found).keep false)

/-! ## Names and points -/

theorem rightPid_inj {i j : Nat} (same : rightPid i = rightPid j) : i = j := by
  have length := congrArg List.length same
  rwa [rightPid, rightPid, List.length_replicate, List.length_replicate]
    at length

theorem leftPid_inj {i j : Nat} (same : leftPid i = leftPid j) : i = j :=
  rightPid_inj (List.cons.inj same).2

theorem rightPid_ne_leftPid (i j : Nat) : rightPid i ≠ leftPid j := by
  intro same
  apply head_rightPid i
  rw [same]
  rfl

/-- A point at which no call of `exec_cmd` follows but for `wait`. -/
def Point.Stands (point : Point) : Prop :=
  point.Behind ∨ point.isProgram ∨ point.mayFail

theorem not_stands_pipe (leftcmd rightcmd : Cmd) :
    ¬ (Point.enter (.pipe leftcmd rightcmd)).Stands := by
  rintro (behind | isProgram | mayFail)
  · exact behind
  · cases isProgram
  · cases mayFail

/-- A process that has nothing to do for a pipe any more has forked twice. -/
theorem WiredAt.forks_of_stands {point : Point} {forks pipes : Nat}
    {table : Nat → Option File}
    (place : WiredAt cs (rightPid i) point forks pipes table)
    (inside : i + 1 < cs.length) (stands : point.Stands) :
    point.Behind ∧ forks = 2 := by
  generalize isPid : rightPid i = pid at place
  cases place with
  | enter =>
      cases rightPid_inj isPid
      rw [suffix_inside (List.getElem?_eq_getElem (by omega)) inside] at stands
      exact absurd stands (not_stands_pipe _ _)
  | last command last =>
      cases rightPid_inj isPid
      exact absurd inside last
  | waiting _ behind => exact ⟨behind, rfl⟩
  | child1CloseRead | child1Dup2 | child1CloseWrite | enterLeft | left =>
      exact absurd isPid (rightPid_ne_leftPid _ _)
  | fork1 | closeWrite | fork2 | child2Dup2 | child2CloseRead =>
      rcases stands with behind | isProgram | mayFail
      · exact behind.elim
      · cases isProgram
      · cases mayFail

/-- What the process of a command executes when it stands. -/
theorem WiredAt.command_of_stands {point : Point} {forks pipes : Nat}
    {table : Nat → Option File}
    (place : WiredAt cs (commandPid cs.length i) point forks pipes table)
    (command : cs[i]? = some c) (stands : point.Stands) :
    point = .program c ∨ point = .enter (.exec c) := by
  have inside := (List.getElem?_eq_some_iff.mp command).1
  unfold commandPid at place
  split at place
  · generalize isPid : leftPid i = pid at place
    cases place with
    | enter | last | fork1 | closeWrite | fork2 | waiting | child2Dup2
      | child2CloseRead =>
        exact absurd isPid.symm (rightPid_ne_leftPid _ _)
    | enterLeft command' =>
        cases leftPid_inj isPid
        rw [command] at command'
        cases command'
        exact .inr rfl
    | left command' =>
        cases leftPid_inj isPid
        rw [command] at command'
        cases command'
        exact .inl rfl
    | child1CloseRead | child1Dup2 | child1CloseWrite =>
        rcases stands with behind | isProgram | mayFail
        · exact behind.elim
        · cases isProgram
        · cases mayFail
  · rename_i last
    generalize isPid : rightPid i = pid at place
    cases place with
    | enter =>
        cases rightPid_inj isPid
        exact .inr (congrArg _ (suffix_last command last))
    | last command' =>
        cases rightPid_inj isPid
        rw [command] at command'
        cases command'
        exact .inl rfl
    | fork1 _ others | closeWrite others | fork2 others | waiting others =>
        cases rightPid_inj isPid
        exact absurd others last
    | child2Dup2 | child2CloseRead =>
        rcases stands with behind | isProgram | mayFail
        · exact behind.elim
        · cases isProgram
        · cases mayFail
    | child1CloseRead | child1Dup2 | child1CloseWrite | enterLeft | left =>
        exact absurd isPid (rightPid_ne_leftPid _ _)

/-! ## Pipelines -/

/-- The machine of a pipeline of simple commands. -/
def pipelineProcesses (cs : List Execcmd) (group : Pid) :
    Machine Processes ProcessEvent :=
  execCmd (pipelineOf (cs.map .exec)) group

variable {group : Pid} {processes : Processes}

theorem allWired_initial (nonempty : cs ≠ []) (group : Pid) :
    AllWired cs (Processes.set (fun _ => none) []
      (Process.initial (pipelineOf (cs.map .exec)) group)) := by
  have inside : 0 < cs.length := List.length_pos_iff.mpr nonempty
  refine AllWired.set ?_ ?_
  · intro pid process isFound
    cases isFound
  · have place : WiredAt cs (rightPid 0) (.enter (suffix cs 0)) 0 0 _ :=
      .enter inside
    refine ⟨⟨_, place, fun _ => ?_⟩, ?_, ?_, ?_⟩
    · funext fd
      match fd with
      | 0 | 1 | 2 | _ + 3 => rfl
    · exact fun ended => absurd rfl ended
    · exact fun ended => absurd rfl ended
    · rintro - frame ⟨⟩

theorem family_initial (process : Process) (childless : process.forks = 0) :
    Family (Processes.set (fun _ => none) [] process) := by
  refine ⟨⟨process, set_self⟩, ?_⟩
  intro pid k
  rw [set_of_ne (List.cons_ne_nil _ _)]
  constructor
  · rintro ⟨child, ⟨⟩⟩
  · rintro ⟨parent, isParent, below⟩
    by_cases isRoot : pid = []
    · subst isRoot
      rw [set_self] at isParent
      cases isParent
      omega
    · rw [set_of_ne isRoot] at isParent
      cases isParent

/-- What holds in every state of a pipeline. -/
structure Wiring (cs : List Execcmd) (processes : Processes) : Prop where
  all : AllWired cs processes
  family : Family processes

theorem wiring_of_reachable (nonempty : cs ≠ []) (simple : Simple cs)
    (reachable : (pipelineProcesses cs group).Reachable Machine.Unrestricted
      processes) : Wiring cs processes := by
  refine reachable.invariant ?_ ?_
  · rintro _ rfl
    exact ⟨allWired_initial nonempty group, family_initial _ rfl⟩
  · rintro before event after ⟨all, family⟩ - step
    exact ⟨allWired_step simple all (ProcessEvent.processStep step),
      family_step family (ProcessEvent.processStep step)⟩

/-- No process executes the code of the shell any further, but for its calls of
`wait`. -/
def Quiet (processes : Processes) : Prop :=
  (∀ pid, (ProcessEvent.advance pid).step processes = none) ∧
    ∀ pid process, processes pid = some process → process.handling = false

/-- What a pipeline promises about descriptors. -/
structure Plumbed (cs : List Execcmd) (processes : Processes) : Prop where
  programs : ∀ pid process c, processes pid = some process →
    process.life = .running → process.point = .program c →
      ∃ i, cs[i]? = some c ∧ pid = commandPid cs.length i ∧
        process.fds.get = standard (stdinOf i) (stdoutOf cs.length i)
  writers : ∀ i pid process fd, i + 1 < cs.length →
    (∃ second, processes (rightPid (i + 1)) = some second) →
      processes pid = some process →
        process.fds.get fd = some (pipeEnd i .write) →
          pid = commandPid cs.length i
  started : Quiet processes → ∀ i c, cs[i]? = some c →
    ∃ process, processes (commandPid cs.length i) = some process ∧
      (process.point = .program c ∨
        process.point = .enter (.exec c) ∧ process.life ≠ .running)

/-- A process without a next system call stands. -/
theorem stands_of_advance (stuck : process.advance pid = none) :
    process.point.Stands := by
  unfold Process.advance at stuck
  split at stuck
  all_goals try cases stuck
  · split at stuck
    · cases stuck
    · cases stuck
  · rename_i atPoint
    exact .inl (by rw [atPoint]; trivial)
  · rename_i atPoint
    exact .inl (by rw [atPoint]; trivial)
  · rename_i atPoint
    exact .inr (.inl (by rw [atPoint]; rfl))

theorem Wired.stands_of_ended (wired : Wired cs pid process)
    (ended : process.life ≠ .running) : process.point.Stands := by
  rcases wired.ended ended with atPoint | isProgram | mayFail
  · exact .inl (by rw [atPoint]; trivial)
  · exact .inr (.inl isProgram)
  · exact .inr (.inr mayFail)

theorem advance_of_quiet (quiet : Quiet processes)
    (found : processes pid = some process) (busy : process.Busy) :
    process.advance pid = none := by
  have stuck := quiet.1 pid
  rw [ProcessEvent.step_of_busy found busy rfl] at stuck
  dsimp only [ProcessEvent.apply] at stuck
  split at stuck
  · assumption
  · cases stuck
  · cases stuck

theorem Wired.stands (wired : Wired cs pid process)
    (found : processes pid = some process) (quiet : Quiet processes) :
    process.point.Stands := by
  by_cases running : process.life = .running
  · have busy : process.Busy := ⟨running, quiet.2 pid process found⟩
    exact stands_of_advance (advance_of_quiet quiet found busy)
  · exact wired.stands_of_ended running

/-! ## Writers -/

/-- The only write end in the table is that of the pipe behind the command
`i`. -/
def WritesTo (i : Nat) (table : Nat → Option File) : Prop :=
  ∀ fd j, table fd = some (pipeEnd j .write) → j = i

theorem ReadsOnly.writesTo {table : Nat → Option File}
    (readsOnly : ReadsOnly table) (i : Nat) : WritesTo i table :=
  fun fd _ isWrite => absurd isWrite (readsOnly fd _ _)

theorem WritesTo.update {table : Nat → Option File}
    (writesTo : WritesTo i table) (fd : Nat) :
    WritesTo i (Function.update table fd (some (pipeEnd i .write))) := by
  intro k j isWrite
  by_cases same : k = fd
  · subst same
    rw [Function.update_self] at isWrite
    injection isWrite with isWrite
    injection isWrite with creator
    exact (rightPid_inj creator).symm
  · rw [Function.update_of_ne same] at isWrite
    exact writesTo k j isWrite

theorem readsOnly_reads (i fd j : Nat) :
    ReadsOnly (Function.update (standard (stdinOf i) (.inherited 1)) fd
      (some (pipeEnd j .read))) := by
  apply (readsOnly_standard i).update
  intro creator number same
  cases same

theorem writesTo_withPipe (i reads writes : Nat) :
    WritesTo i (withPipe i reads writes) :=
  ((readsOnly_reads i reads i).writesTo i).update writes

theorem writesTo_output (i : Nat) :
    WritesTo i (standard (stdinOf i) (pipeEnd i .write)) := by
  rw [← standard_stdout _ (.inherited 1)]
  exact ((readsOnly_standard i).writesTo i).update 1

/-- Who holds the write end of the pipe behind the command `i`. -/
theorem WiredAt.writer {point : Point} {forks pipes : Nat}
    {table : Nat → Option File}
    (place : WiredAt cs pid point forks pipes table)
    (isWrite : table fd = some (pipeEnd i .write)) :
    pid = leftPid i ∨ pid = rightPid i ∧ forks ≤ 1 := by
  cases place with
  | enter | last => exact absurd isWrite (readsOnly_standard _ _ _ _)
  | fork2 | child2Dup2 | child2CloseRead =>
      exact absurd isWrite (readsOnly_reads _ _ _ _ _ _)
  | waiting _ _ readsOnly => exact absurd isWrite (readsOnly _ _ _)
  | fork1 | closeWrite =>
      rw [writesTo_withPipe _ _ _ _ _ isWrite]
      exact .inr ⟨rfl, by omega⟩
  | child1CloseRead =>
      rw [writesTo_withPipe _ _ _ _ _ isWrite]
      exact .inl rfl
  | child1Dup2 =>
      rw [((readsOnly_standard _).writesTo _).update _ _ _ isWrite]
      exact .inl rfl
  | child1CloseWrite =>
      rw [(writesTo_output _).update _ _ _ isWrite]
      exact .inl rfl
  | enterLeft | left =>
      rw [writesTo_output _ _ _ isWrite]
      exact .inl rfl

/-! ## Plumbing -/

theorem Wired.table {i : Nat} (wired : Wired cs pid process)
    (isWrite : process.fds.get fd = some (pipeEnd i .write)) :
    pid = leftPid i ∨ pid = rightPid i ∧ process.forks ≤ 1 := by
  obtain ⟨table, place, isTable⟩ := wired.wired
  by_cases running : process.life = .running
  · rw [isTable running] at isWrite
    exact place.writer isWrite
  · rw [wired.closed running] at isWrite
    cases isWrite

/-- A program starts with the descriptors of its command. -/
theorem WiredAt.program {forks pipes : Nat} {table : Nat → Option File}
    (place : WiredAt cs pid (.program c) forks pipes table) :
    ∃ i, cs[i]? = some c ∧ pid = commandPid cs.length i ∧
      table = standard (stdinOf i) (stdoutOf cs.length i) := by
  cases place with
  | last command last =>
      refine ⟨_, command, ?_, ?_⟩
      · rw [commandPid, if_neg last]
      · rw [stdoutOf, if_neg last]
  | left command inside =>
      refine ⟨_, command, ?_, ?_⟩
      · rw [commandPid, if_pos inside]
      · rw [stdoutOf, if_pos inside]
  | waiting _ behind _ => exact behind.elim

theorem Wiring.rightPid_exists (wiring : Wiring cs processes)
    (stands : ∀ pid process, processes pid = some process →
      process.point.Stands) (inside : i < cs.length) :
    ∃ process, processes (rightPid i) = some process := by
  induction i with
  | zero => exact wiring.family.root
  | succ i induction =>
      obtain ⟨process, found⟩ := induction (by omega)
      obtain ⟨table, place, -⟩ := (wiring.all _ _ found).wired
      have forks := (place.forks_of_stands inside (stands _ _ found)).2
      exact (wiring.family.children (rightPid i) 1).mpr
        ⟨process, found, by omega⟩

theorem Wiring.commandPid_exists (wiring : Wiring cs processes)
    (stands : ∀ pid process, processes pid = some process →
      process.point.Stands) (inside : i < cs.length) :
    ∃ process, processes (commandPid cs.length i) = some process := by
  obtain ⟨process, found⟩ := wiring.rightPid_exists stands inside
  unfold commandPid
  split
  · rename_i others
    obtain ⟨table, place, -⟩ := (wiring.all _ _ found).wired
    have forks := (place.forks_of_stands others (stands _ _ found)).2
    exact (wiring.family.children (rightPid i) 0).mpr
      ⟨process, found, by omega⟩
  · exact ⟨process, found⟩

/-- Every pipeline is plumbed in all states of all its interleavings. -/
theorem plumbed_of_reachable (nonempty : cs ≠ []) (simple : Simple cs)
    (reachable : (pipelineProcesses cs group).Reachable Machine.Unrestricted
      processes) : Plumbed cs processes := by
  have wiring := wiring_of_reachable nonempty simple reachable
  refine ⟨?_, ?_, ?_⟩
  · intro pid process c found running atPoint
    obtain ⟨table, place, isTable⟩ := (wiring.all _ _ found).wired
    rw [atPoint] at place
    rw [isTable running]
    exact place.program
  · rintro i pid process fd inside second found isWrite
    rw [commandPid, if_pos inside]
    rcases (wiring.all _ _ found).table isWrite with left | ⟨rfl, few⟩
    · exact left
    · obtain ⟨parent, isParent, below⟩ :=
        (wiring.family.children (rightPid i) 1).mp second
      rw [found] at isParent
      cases isParent
      omega
  · intro quiet i c command
    have stands : ∀ pid process, processes pid = some process →
        process.point.Stands :=
      fun pid process found => (wiring.all _ _ found).stands found quiet
    have inside := (List.getElem?_eq_some_iff.mp command).1
    obtain ⟨process, found⟩ := wiring.commandPid_exists stands inside
    refine ⟨process, found, ?_⟩
    obtain ⟨table, place, isTable⟩ := (wiring.all _ _ found).wired
    rcases place.command_of_stands command (stands _ _ found) with here | here
    · exact .inl here
    · refine .inr ⟨here, fun running => ?_⟩
      have advances : process.advance (commandPid cs.length i) =
          some (process.goto (.program c), none) := by
        unfold Process.advance
        rw [here]
        dsimp only
        rw [simple c (List.mem_of_getElem? command)]
      rw [advance_of_quiet quiet found ⟨running, quiet.2 _ _ found⟩] at advances
      cases advances

/-- `cat | cat` without any argument. -/
def twoCommands : List Execcmd :=
  [{ execCmdCreate [99, 97, 116, 32] with argv := [[99, 97, 116]] },
    { execCmdCreate [99, 97, 116] with argv := [[99, 97, 116]] }]

/-- Both commands are started, the first one after all that its parent does. -/
def startsBoth : List ProcessEvent :=
  [.advance [], .advance [], .advance [], .advance [], .advance [1],
    .advance [1], .advance [1], .advance [], .advance [0], .advance [0],
    .advance [0], .advance [0]]

theorem plumbed_twoCommands :
    ∃ processes, startsBoth.foldlM ProcessEvent.step
        (Processes.set (fun _ => none) []
          (Process.initial (pipelineOf (twoCommands.map .exec)) [])) =
      some processes ∧ Plumbed twoCommands processes := by
  have runs : (startsBoth.foldlM (fun processes event =>
      ProcessEvent.step processes event)
      (Processes.set (fun _ => none) []
        (Process.initial (pipelineOf (twoCommands.map .exec)) []))).isSome :=
    by decide +kernel
  obtain ⟨processes, ran⟩ := Option.isSome_iff_exists.mp runs
  have reachable : (pipelineProcesses twoCommands []).Reachable
      Machine.Unrestricted processes :=
    ⟨_, _, rfl, Machine.run_of_foldlM (fun _ _ _ stepped => stepped)
      (fun _ _ => trivial) ran⟩
  exact ⟨processes, ran,
    plumbed_of_reachable (by decide) (by decide) reachable⟩

end FeaturesOS.Shell

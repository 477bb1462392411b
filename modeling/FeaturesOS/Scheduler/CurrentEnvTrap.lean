import FeaturesOS.Scheduler.CurrentEnv

/-!
# System calls, traps and the current environments

Which system calls are harmless to the environments that other processors run,
and what a trap preserves when its system call is.
-/

namespace FeaturesOS.Scheduler

open Entry

variable {strict : Prop} {others : Nat → Option Nat} {cpu e : Nat}

/-! ## Creating environments -/

theorem Roster.allocate_setStatus (roster : Roster) (e : Nat)
    (first second : EnvStatus) :
    (roster.allocate e first).setStatus e second = roster.allocate e second := by
  simp [Roster.allocate, Roster.setStatus]

theorem roster_commitEnv (parentId : UInt32) (e : Nat) (kernel : Kernel) :
    (commitEnv parentId e kernel).roster =
      kernel.roster.allocate e .runnable := by
  unfold commitEnv Kernel.roster Roster.allocate Kernel.updateEnv Kernel.setEnv
  congr 1 <;> funext f <;> by_cases same : f = e <;> simp [same]

/-- `e` is the next free environment. -/
def NextFree (strict : Prop) (others : Nat → Option Nat) (cpu e : Nat)
    (kernel : Kernel) : Prop :=
  InsideAt strict others cpu kernel ∧ kernel.roster.freeList = some e

theorem triple_envSetupVm (e : Nat) :
    Triple (NextFree strict others cpu e) (envSetupVm e)
      (fun r kernel => NextFree strict others cpu e kernel ∧
        (0 ≤ r → kernel.roster.hasPgdir e = true))
      (OutsideAt strict others cpu) := by
  constructor
  rintro kernel ⟨inside, head⟩
  unfold envSetupVm
  match kernel.mem.pageAlloc true with
  | (_, none) => exact ⟨⟨inside, head⟩, fun impossible => by cases impossible⟩
  | (mem, some page) =>
      have added : ∀ mem, ((kernel.setMem mem).updateEnv e fun env =>
          { env with envPgdir := some page }).roster =
          kernel.roster.addPgdir e := by
        intro mem
        unfold Kernel.roster Roster.addPgdir Kernel.updateEnv Kernel.setEnv
        congr 1 <;> funext f <;> by_cases same : f = e <;>
          simp [same, Kernel.setMem]
      dsimp only
      unfold NextFree InsideAt
      rw [added]
      refine ⟨⟨inside.addPgdir, head⟩, fun _ => ?_⟩
      simp [Roster.addPgdir]

/-- `e` is new; nobody may dispatch it before it has been marked. -/
def Born (strict : Prop) (others : Nat → Option Nat) (cpu e : Nat)
    (roster : Roster) : Prop :=
  (roster.setStatus e .notRunnable).Inside strict others cpu

theorem triple_envAlloc (here : Nat) (parentId : UInt32) :
    Triple (InsideAt strict others cpu) (envAlloc here parentId)
      (fun result kernel =>
        match result with
        | .error _ => InsideAt strict others cpu kernel
        | .ok e => Born strict others cpu e kernel.roster)
      (OutsideAt strict others cpu) := by
  unfold envAlloc
  refine .bind_read ?_
  intro head
  cases head with
  | none => exact .pure fun _ inside => inside.1
  | some e =>
      refine .strengthen (NextFree strict others cpu e) (fun _ next => next) ?_
      refine (triple_envSetupVm e).bind fun r => ?_
      split
      · exact .pure fun _ next => next.1.1
      · rename_i succeeded
        refine .bind_modify (fun kernel => Born strict others cpu e kernel.roster)
          ?_ ?_
        · rintro kernel ⟨⟨inside, head⟩, pgdir⟩
          have hasPgdir := pgdir (by omega)
          unfold Born
          rw [roster_commitEnv, Roster.allocate_setStatus]
          exact inside.allocate head hasPgdir
        · refine .bind_read fun cola => .bind_read fun envId => ?_
          have agregado := frame_schedAgregarEnv blindToQueues_roster envId cola
          refine .strengthen (fun kernel => Born strict others cpu e kernel.roster)
            (fun _ born => born.1.1) ?_
          exact (agregado.triple (Born strict others cpu e)).bind fun _ =>
            .pure fun _ born => born

/-! ## Harmless system calls -/

/-- When another processor runs `e`, the status of `e` says that it runs. -/
def Kernel.KnownToRun (kernel : Kernel) (cpu e : Nat) : Prop :=
  kernel.roster.RunsElsewhere cpu e → kernel.roster.status e = .running

/-- The checks of `sys_ipc_try_send` accept the message and its page. -/
def Kernel.Accepts (kernel : Kernel) (surroundings : Surroundings)
    (current dst : Nat) (srcva perm : UInt32) : Prop :=
  srcva ≥ utop ∨ srcva % 4096 = 0 ∧ ∃ srcpte r next,
    kernel.sourceWord surroundings current srcva = some srcpte ∧
    ¬ SrcpteRefused srcpte perm ∧
    ipcTransfer current srcva dst (perm ||| pteU ||| pteP) kernel =
      .returns r next ∧ 0 ≤ r

/-- The system call makes no environment runnable that another processor runs;
in the `strict` form it also frees none. -/
def Kernel.Harmless (kernel : Kernel) (strict : Prop)
    (surroundings : Surroundings) (cpu current : Nat)
    (syscallno a1 a2 a3 a4 : UInt32) : Prop :=
  match syscallno.toNat with
  | 3 => strict → ∀ e, kernel.Finds cpu a1 true e → kernel.KnownToRun cpu e
  | 8 => a2 = 2 → ∀ e, kernel.Finds cpu a1 true e →
      ¬ kernel.roster.RunsElsewhere cpu e
  | 9 => strict → ∀ e, kernel.Finds cpu a1 true e →
      kernel.userMemCheck e a2 4096 (pteP ||| pteU ||| pteU) = some false →
      kernel.KnownToRun cpu e
  | 11 => ∀ e, kernel.Finds cpu a1 false e →
      (kernel.envs e).envIpcRecving = true →
      kernel.Accepts surroundings current e a3 a4 →
      ¬ kernel.roster.RunsElsewhere cpu e
  | _ => True

theorem OwnAt.live_of_finds {kernel : Kernel} {current : Nat}
    (own : OwnAt strict others cpu current kernel) {envid : UInt32}
    {checkperm : Bool} (finds : kernel.Finds cpu envid checkperm e)
    (isStrict : strict) : kernel.roster.status e ≠ .free := by
  rcases finds.current_or_live with isCurrent | live
  · have same := Option.some.inj (own.2.1.symm.trans isCurrent)
    rw [← same]
    exact own.2.2 isStrict
  · exact live

/-- A call that does not change the roster. -/
theorem triple_of_frame {Result : Type} {entry : KernelM Result}
    (frame : Frame Kernel.roster entry) :
    Triple (InsideAt strict others cpu) entry
      (fun _ => InsideAt strict others cpu) (OutsideAt strict others cpu) :=
  frame.triple (Roster.Inside · strict others cpu)

theorem insideAt_updateEnv {kernel : Kernel} {change : Env → Env}
    (inside : InsideAt strict others cpu kernel)
    (status : ∀ env, (change env).envStatus = env.envStatus)
    (pgdir : ∀ env, (change env).envPgdir = env.envPgdir)
    (link : ∀ env, (change env).envLink = env.envLink) :
    InsideAt strict others cpu (kernel.updateEnv e change) := by
  unfold InsideAt
  rw [kernel.roster_updateEnv_same e status pgdir link]
  exact inside

theorem insideAt_setStatus {kernel : Kernel} {change : Env → Env}
    (inside : InsideAt strict others cpu kernel)
    (live : strict → kernel.roster.status e ≠ .free)
    (lives : (change (kernel.envs e)).envStatus ≠ .free)
    (alone : (change (kernel.envs e)).envStatus = .runnable →
      ¬ kernel.roster.RunsElsewhere cpu e)
    (pgdir : ∀ env, (change env).envPgdir = env.envPgdir)
    (link : ∀ env, (change env).envLink = env.envLink) :
    InsideAt strict others cpu (kernel.updateEnv e change) := by
  unfold InsideAt
  rw [kernel.roster_updateEnv_status e pgdir link]
  exact inside.setStatus live lives alone

/-! ### `user_mem_assert` -/

theorem triple_userMemAssert (build : Build) (cpu e : Nat)
    (va len perm : UInt32) :
    Triple
      (fun kernel => InsideAt strict others cpu kernel ∧
        (strict → kernel.roster.status e ≠ .free ∧
          (kernel.userMemCheck e va len (perm ||| pteU) = some false →
            kernel.KnownToRun cpu e)))
      (userMemAssert build cpu e va len perm)
      (fun _ => InsideAt strict others cpu) (OutsideAt strict others cpu) := by
  unfold userMemAssert
  refine .bind_read ?_
  intro checked
  match checked with
  | none => exact .stop
  | some true => exact .pure fun _ holds => holds.1.1
  | some false =>
      refine (triple_envDestroy build cpu e).strengthen _ ?_
      rintro kernel ⟨⟨inside, may⟩, failed⟩
      exact ⟨inside, fun isStrict =>
        ⟨(may isStrict).1, (may isStrict).2 failed⟩⟩

theorem triple_userMemAssert_own (build : Build) (cpu e : Nat)
    (va len perm : UInt32) :
    Triple (OwnAt strict others cpu e) (userMemAssert build cpu e va len perm)
      (fun _ => OwnAt strict others cpu e) (OutsideAt strict others cpu) := by
  unfold userMemAssert
  refine .bind_read ?_
  intro checked
  match checked with
  | none => exact .stop
  | some true => exact .pure fun _ holds => holds.1
  | some false =>
      exact .strengthen (OwnAt strict others cpu e) (fun _ holds => holds.1)
        (triple_envDestroy_own build cpu e)

/-! ### The calls that change the roster -/

variable (current : Nat)

theorem triple_sysCputs (build : Build) (cpu : Nat) (s len : UInt32) :
    Triple (OwnAt strict others cpu current) (sysCputs build cpu s len)
      (fun _ => InsideAt strict others cpu) (OutsideAt strict others cpu) := by
  refine (triple_theCurenv cpu).bind fun here => ?_
  refine (triple_userMemAssert_own build cpu here s len _).weaken ?_
    (fun _ _ own => own.1) (fun _ => id)
  rintro kernel ⟨own, isCurrent⟩
  have same := Option.some.inj (own.2.1.symm.trans isCurrent)
  rwa [← same]

theorem triple_sysEnvDestroy (build : Build) (cpu : Nat) (envid : UInt32) :
    Triple
      (fun kernel => OwnAt strict others cpu current kernel ∧
        (strict → ∀ e, kernel.Finds cpu envid true e →
          kernel.KnownToRun cpu e))
      (sysEnvDestroy build cpu envid)
      (fun _ => InsideAt strict others cpu) (OutsideAt strict others cpu) := by
  refine (triple_lookupEnv cpu envid true).bind fun result => ?_
  cases result with
  | error r => exact .pure fun _ holds => holds.1.1.1
  | ok e =>
      refine .strengthen (Destroyable strict others cpu e) ?_
        ((triple_envDestroy build cpu e).bind fun _ =>
          .pure fun _ inside => inside)
      rintro kernel ⟨⟨own, harmless⟩, finds⟩
      exact ⟨own.1, fun isStrict =>
        ⟨own.live_of_finds (finds e rfl) isStrict,
          harmless isStrict e (finds e rfl)⟩⟩

theorem triple_sysExofork (cpu : Nat) :
    Triple (InsideAt strict others cpu) (sysExofork cpu)
      (fun _ => InsideAt strict others cpu) (OutsideAt strict others cpu) := by
  refine (triple_theCurenv cpu).bind fun parent => ?_
  refine .bind_read fun parentId => ?_
  refine .strengthen (InsideAt strict others cpu) (fun _ holds => holds.1.1) ?_
  refine (triple_envAlloc cpu parentId).bind fun result => ?_
  cases result with
  | error r => exact .pure fun _ inside => inside
  | ok newenv =>
      refine .bind_read fun tf => ?_
      refine .bind_modify (InsideAt strict others cpu) ?_
        (.read fun _ inside => inside)
      rintro kernel ⟨born, -⟩
      unfold InsideAt
      simp only [Kernel.roster_updateEnv_status, implies_true]
      exact born

theorem triple_sysEnvSetStatus (cpu : Nat) (envid status : UInt32) :
    Triple
      (fun kernel => OwnAt strict others cpu current kernel ∧
        (status = 2 → ∀ e, kernel.Finds cpu envid true e →
          ¬ kernel.roster.RunsElsewhere cpu e))
      (sysEnvSetStatus cpu envid status)
      (fun _ => InsideAt strict others cpu) (OutsideAt strict others cpu) := by
  unfold sysEnvSetStatus
  split
  · exact .pure fun _ holds => holds.1.1
  · refine (triple_lookupEnv cpu envid true).bind fun result => ?_
    cases result with
    | error r => exact .pure fun _ holds => holds.1.1.1
    | ok e =>
        refine .bind_modify (InsideAt strict others cpu) ?_
          (.pure fun _ inside => inside)
        rintro kernel ⟨⟨own, harmless⟩, finds⟩
        refine insideAt_setStatus own.1 (own.live_of_finds (finds e rfl)) ?_ ?_
          (fun _ => rfl) fun _ => rfl
        · dsimp only
          split <;> decide
        · intro runnable
          dsimp only at runnable
          split at runnable
          · rename_i isRunnable
            exact harmless isRunnable e (finds e rfl)
          · cases runnable

theorem triple_sysEnvSetPgfaultUpcall (build : Build) (cpu : Nat)
    (envid func : UInt32) :
    Triple
      (fun kernel => OwnAt strict others cpu current kernel ∧
        (strict → ∀ e, kernel.Finds cpu envid true e →
          kernel.userMemCheck e func 4096 (pteP ||| pteU ||| pteU) =
            some false → kernel.KnownToRun cpu e))
      (sysEnvSetPgfaultUpcall build cpu envid func)
      (fun _ => InsideAt strict others cpu) (OutsideAt strict others cpu) := by
  refine (triple_lookupEnv cpu envid true).bind fun result => ?_
  cases result with
  | error r => exact .pure fun _ holds => holds.1.1.1
  | ok e =>
      refine .strengthen _ ?_
        ((triple_userMemAssert build cpu e func 4096 _).bind fun _ => ?_)
      · rintro kernel ⟨⟨own, harmless⟩, finds⟩
        exact ⟨own.1, fun isStrict =>
          ⟨own.live_of_finds (finds e rfl) isStrict,
            harmless isStrict e (finds e rfl)⟩⟩
      · refine .bind_modify (InsideAt strict others cpu) ?_
          (.pure fun _ inside => inside)
        intro kernel inside
        exact insideAt_updateEnv inside (fun _ => rfl) (fun _ => rfl)
          fun _ => rfl

theorem triple_ipcDeliver (sender dst : Nat) (value : UInt32) :
    Triple
      (fun kernel => InsideAt strict others cpu kernel ∧
        (strict → kernel.roster.status dst ≠ .free) ∧
        ¬ kernel.roster.RunsElsewhere cpu dst)
      (ipcDeliver sender dst value)
      (fun _ => InsideAt strict others cpu) (OutsideAt strict others cpu) := by
  refine .bind_modify (InsideAt strict others cpu) ?_
    (.pure fun _ inside => inside)
  rintro kernel ⟨inside, live, alone⟩
  exact insideAt_setStatus inside live (by simp) (fun _ => alone)
    (fun _ => rfl) fun _ => rfl

theorem frame_roster_ipcTransfer (sender : Nat) (srcva : UInt32) (dst : Nat)
    (perm : UInt32) :
    Frame Kernel.roster (ipcTransfer sender srcva dst perm) :=
  frame_ipcTransfer blindToMem_roster
    (fun kernel e _ => kernel.roster_updateEnv_same e (fun _ => rfl)
      (fun _ => rfl) fun _ => rfl) sender srcva dst perm

/-- What holds of the roster before the transfer of a page holds after it, and
so does what follows from its success. -/
theorem triple_ipcTransfer (sender : Nat) (srcva : UInt32) (dst : Nat)
    (perm : UInt32) (property accepted : Roster → Prop) {left : Kernel → Prop} :
    Triple
      (fun kernel => property kernel.roster ∧
        ∀ r next, ipcTransfer sender srcva dst perm kernel = .returns r next →
          0 ≤ r → accepted kernel.roster)
      (ipcTransfer sender srcva dst perm)
      (fun r kernel => property kernel.roster ∧
        (0 ≤ r → accepted kernel.roster)) left := by
  constructor
  rintro kernel ⟨holds, accepts⟩
  have same := (frame_roster_ipcTransfer sender srcva dst perm).run kernel
  cases outcome : ipcTransfer sender srcva dst perm kernel with
  | returns r next =>
      rw [outcome] at same
      dsimp only at same ⊢
      rw [same]
      exact ⟨holds, accepts r next outcome⟩
  | leaves next =>
      rw [outcome] at same
      exact same.elim
  | stops => trivial

theorem triple_sysIpcTrySend (surroundings : Surroundings) (cpu : Nat)
    (envid value srcva perm : UInt32) :
    Triple
      (fun kernel => OwnAt strict others cpu current kernel ∧
        ∀ e, kernel.Finds cpu envid false e →
          (kernel.envs e).envIpcRecving = true →
          kernel.Accepts surroundings current e srcva perm →
          ¬ kernel.roster.RunsElsewhere cpu e)
      (sysIpcTrySend surroundings cpu envid value srcva perm)
      (fun _ => InsideAt strict others cpu) (OutsideAt strict others cpu) := by
  refine (triple_lookupEnv cpu envid false).bind fun result => ?_
  cases result with
  | error r => exact .pure fun _ holds => holds.1.1.1
  | ok dst =>
      refine (triple_theCurenv cpu).bind fun here => ?_
      refine .bind_read fun recving => ?_
      refine .strengthen
        (fun kernel => (InsideAt strict others cpu kernel ∧
          (strict → kernel.roster.status dst ≠ .free)) ∧
          (recving = true → kernel.Accepts surroundings here dst srcva perm →
            ¬ kernel.roster.RunsElsewhere cpu dst)) ?_ ?_
      · rintro kernel ⟨⟨⟨⟨own, harmless⟩, finds⟩, isCurrent⟩, rfl⟩
        have same := Option.some.inj (own.2.1.symm.trans isCurrent)
        subst here
        exact ⟨⟨own.1, own.live_of_finds (finds dst rfl)⟩,
          harmless dst (finds dst rfl)⟩
      · split
        · exact .pure fun _ holds => holds.1.1
        · rename_i receives
          have isReceiving : recving = true := by simpa using receives
          split
          · rename_i noPage
            refine .bind_modify _ ?_ (triple_ipcDeliver here dst value)
            rintro kernel ⟨⟨inside, live⟩, alone⟩
            simp only [kernel.roster_updateEnv_same dst, implies_true]
            refine ⟨?_, live, alone isReceiving (.inl noPage)⟩
            exact insideAt_updateEnv inside (fun _ => rfl) (fun _ => rfl)
              fun _ => rfl
          · split
            · exact .pure fun _ holds => holds.1.1
            · rename_i aligned
              refine .bind_read fun word => ?_
              cases word with
              | none => exact .stop
              | some srcpte =>
                  dsimp only
                  split
                  · exact .pure fun _ holds => holds.1.1.1
                  · rename_i accepted
                    refine .strengthen _ ?_
                      ((triple_ipcTransfer here srcva dst
                        (perm ||| pteU ||| pteP)
                        (fun roster => roster.Inside strict others cpu ∧
                          (strict → roster.status dst ≠ .free))
                        (fun roster => ¬ roster.RunsElsewhere cpu dst)).bind
                        fun r => ?_)
                    · rintro kernel ⟨⟨base, alone⟩, found⟩
                      refine ⟨base, fun r next outcome success => ?_⟩
                      exact alone isReceiving
                        (.inr ⟨by simpa using aligned, srcpte, r, next, found,
                          accepted, outcome, success⟩)
                    · split
                      · exact .pure fun _ holds => holds.1.1
                      · rename_i success
                        refine (triple_ipcDeliver here dst value).strengthen
                          _ ?_
                        rintro kernel ⟨⟨inside, live⟩, alone⟩
                        exact ⟨inside, live, alone (by omega)⟩

theorem triple_sysIpcRecv (build : Build) (cpu : Nat) (dstva : UInt32) :
    Triple (OwnAt strict others cpu current) (sysIpcRecv build cpu dstva)
      (fun _ => InsideAt strict others cpu) (OutsideAt strict others cpu) := by
  refine (triple_theCurenv cpu).bind fun here => ?_
  refine .bind_modify
    (fun kernel => InsideAt strict others cpu kernel ∧
      (strict → kernel.roster.status here ≠ .free)) ?_ ?_
  · rintro kernel ⟨own, isCurrent⟩
    have same := Option.some.inj (own.2.1.symm.trans isCurrent)
    subst here
    simp only [kernel.roster_updateEnv_same current, implies_true]
    refine ⟨?_, own.2.2⟩
    exact insideAt_updateEnv own.1 (fun _ => rfl) (fun _ => rfl) fun _ => rfl
  · split
    · exact .pure fun _ holds => holds.1
    · refine .bind_modify (InsideAt strict others cpu) ?_
        (triple_schedYield build cpu)
      rintro kernel ⟨inside, live⟩
      exact insideAt_setStatus inside live (by simp)
        (fun impossible => by cases impossible) (fun _ => rfl) fun _ => rfl

theorem triple_syscall (build : Build) (surroundings : Surroundings) (cpu : Nat)
    (syscallno a1 a2 a3 a4 a5 : UInt32) :
    Triple
      (fun kernel => OwnAt strict others cpu current kernel ∧
        kernel.Harmless strict surroundings cpu current syscallno a1 a2 a3 a4)
      (syscall build surroundings cpu syscallno a1 a2 a3 a4 a5)
      (fun _ => InsideAt strict others cpu) (OutsideAt strict others cpu) := by
  have framed : ∀ {entry : KernelM Int}, Frame Kernel.roster entry →
      Triple
        (fun kernel => OwnAt strict others cpu current kernel ∧
          kernel.Harmless strict surroundings cpu current syscallno a1 a2 a3
            a4)
        entry (fun _ => InsideAt strict others cpu)
        (OutsideAt strict others cpu) :=
    fun frame => (triple_of_frame frame).strengthen _ fun _ holds => holds.1.1
  unfold syscall
  split
  · refine ((triple_sysCputs current build cpu a1 a2).strengthen _ fun _ holds =>
      holds.1).bind fun _ => ?_
    exact .pure fun _ inside => inside
  · exact framed .pure
  · refine framed (.bind (frame_theCurenv cpu) fun _ => .read)
  · rename_i number
    refine (triple_sysEnvDestroy current build cpu a1).strengthen _ ?_
    rintro kernel ⟨own, harmless⟩
    simp only [Kernel.Harmless, number] at harmless
    exact ⟨own, harmless⟩
  · exact framed (frame_sysPageAlloc blindToMem_roster cpu a1 a2 a3)
  · exact framed (frame_sysPageMap blindToMem_roster cpu a1 a2 a3 a4 a5)
  · exact framed (frame_sysPageUnmap blindToMem_roster cpu a1 a2)
  · exact (triple_sysExofork cpu).strengthen _ fun _ holds => holds.1.1
  · rename_i number
    refine (triple_sysEnvSetStatus current cpu a1 a2).strengthen _ ?_
    rintro kernel ⟨own, harmless⟩
    simp only [Kernel.Harmless, number] at harmless
    exact ⟨own, harmless⟩
  · rename_i number
    refine (triple_sysEnvSetPgfaultUpcall current build cpu a1 a2).strengthen _ ?_
    rintro kernel ⟨own, harmless⟩
    simp only [Kernel.Harmless, number] at harmless
    exact ⟨own, harmless⟩
  · exact (triple_schedYield build cpu).strengthen _ fun _ holds => holds.1.1
  · rename_i number
    refine (triple_sysIpcTrySend current surroundings cpu a1 a2 a3
      a4).strengthen _ ?_
    rintro kernel ⟨own, harmless⟩
    simp only [Kernel.Harmless, number] at harmless
    exact ⟨own, harmless⟩
  · exact (triple_sysIpcRecv current build cpu a1).strengthen _
      fun _ holds => holds.1
  · exact framed (frame_sysEnvObtenerPrioridad cpu a1)
  · exact framed (frame_sysEnvAsignarPrioridad blindToQueues_roster cpu a1 _)
  · exact framed .pure

/-! ## Traps -/

/-- The state in which `trap_dispatch` starts. -/
def Kernel.saveFrame (kernel : Kernel) (current : Nat) (frame : Trapframe) :
    Kernel :=
  kernel.updateEnv current fun env => { env with envTf := frame }

/-- A trap whose system call is harmless. -/
def TrapEvent.Harmless (strict : Prop) (kernel : Kernel) : TrapEvent → Prop
  | .user cpu surroundings frame _ =>
      ∀ current, kernel.cpus cpu = some current →
        (kernel.envs current).envStatus ≠ .dying →
        frame.tfTrapno.toNat = 48 →
        (kernel.saveFrame current frame).Harmless strict surroundings cpu
          current frame.tfRegs.regEax frame.tfRegs.regEdx frame.tfRegs.regEcx
          frame.tfRegs.regEbx frame.tfRegs.regEdi
  | .wake _ => True

theorem ownAt_updateEnv {kernel : Kernel} {current : Nat}
    {change : Env → Env} (own : OwnAt strict others cpu current kernel)
    (status : ∀ env, (change env).envStatus = env.envStatus)
    (pgdir : ∀ env, (change env).envPgdir = env.envPgdir)
    (link : ∀ env, (change env).envLink = env.envLink) :
    OwnAt strict others cpu current (kernel.updateEnv e change) := by
  unfold OwnAt InsideAt
  rw [kernel.roster_updateEnv_same e status pgdir link]
  exact own

theorem triple_pageFaultHandler (build : Build) (cpu : Nat) (frame : Trapframe)
    (faultVa : UInt32) :
    Triple (OwnAt strict others cpu current)
      (pageFaultHandler build cpu frame faultVa)
      (fun _ => InsideAt strict others cpu) (OutsideAt strict others cpu) := by
  refine (triple_theCurenv cpu).bind fun here => ?_
  refine .strengthen (OwnAt strict others cpu here) ?_ ?_
  · rintro kernel ⟨own, isCurrent⟩
    exact ⟨own.1, isCurrent, by
      rw [← Option.some.inj (own.2.1.symm.trans isCurrent)]
      exact own.2.2⟩
  · refine .bind_read fun upcall => ?_
    refine .strengthen (OwnAt strict others cpu here) (fun _ own => own.1) ?_
    split
    · have stored : ∀ va words,
          Triple (OwnAt strict others cpu here) (storeWords here va words)
            (fun _ => OwnAt strict others cpu here)
            (OutsideAt strict others cpu) := fun va words =>
        (frame_storeWords blindToMem_roster here va words).triple
          (fun roster => roster.Inside strict others cpu ∧
            roster.current cpu = some here ∧
            (strict → roster.status here ≠ .free))
      refine (triple_userMemAssert_own build cpu here _ 4096 _).bind fun _ => ?_
      refine (stored _ _).bind fun _ => (stored _ _).bind fun _ => ?_
      refine .ite (fun _ => .stop) fun _ => ?_
      · refine .bind_modify (OwnAt strict others cpu here) ?_
          ((triple_envRun cpu here).strengthen _ fun _ own => own.dispatchable)
        intro kernel own
        exact ownAt_updateEnv own (fun _ => rfl) (fun _ => rfl) fun _ => rfl
    · exact triple_envDestroy_own build cpu here

theorem triple_trapDispatch (build : Build) (surroundings : Surroundings)
    (cpu : Nat) (frame : Trapframe) (faultVa : UInt32) :
    Triple
      (fun kernel => OwnAt strict others cpu current kernel ∧
        (frame.tfTrapno.toNat = 48 →
          kernel.Harmless strict surroundings cpu current frame.tfRegs.regEax
            frame.tfRegs.regEdx frame.tfRegs.regEcx frame.tfRegs.regEbx
            frame.tfRegs.regEdi))
      (trapDispatch build surroundings cpu frame faultVa)
      (fun _ => InsideAt strict others cpu) (OutsideAt strict others cpu) := by
  unfold trapDispatch
  split
  · exact .pure fun _ holds => holds.1.1
  · exact (triple_pageFaultHandler current build cpu frame faultVa).strengthen _
      fun _ holds => holds.1
  · rename_i number
    refine (triple_theCurenv cpu).bind fun here => ?_
    refine ((triple_syscall current build surroundings cpu _ _ _ _ _ _).strengthen _
      fun _ holds => ⟨holds.1.1, holds.1.2 number⟩).bind fun result => ?_
    refine .modify fun kernel inside => ?_
    exact insideAt_updateEnv inside (fun _ => rfl) (fun _ => rfl) fun _ => rfl
  · exact .pure fun _ holds => holds.1.1
  · exact (triple_schedYield build cpu).strengthen _ fun _ holds => holds.1.1
  · refine (triple_theCurenv cpu).bind fun here => ?_
    refine .strengthen (OwnAt strict others cpu here) ?_
      ((triple_envDestroy_own build cpu here))
    rintro kernel ⟨⟨own, -⟩, isCurrent⟩
    have same := Option.some.inj (own.2.1.symm.trans isCurrent)
    rwa [← same]

theorem triple_trap (build : Build) (surroundings : Surroundings) (cpu : Nat)
    (frame : Trapframe) (faultVa : UInt32) {returned : Unit → Kernel → Prop} :
    Triple
      (fun kernel => OwnAt strict others cpu current kernel ∧
        TrapEvent.Harmless strict kernel (.user cpu surroundings frame faultVa))
      (trap build surroundings cpu frame faultVa) returned
      (OutsideAt strict others cpu) := by
  refine (triple_theCurenv cpu).bind fun here => ?_
  refine .bind_read fun status => ?_
  refine .strengthen
    (fun kernel => OwnAt strict others cpu here kernel ∧
      (status ≠ .dying → frame.tfTrapno.toNat = 48 →
        (kernel.saveFrame here frame).Harmless strict surroundings cpu here
          frame.tfRegs.regEax frame.tfRegs.regEdx frame.tfRegs.regEcx
          frame.tfRegs.regEbx frame.tfRegs.regEdi)) ?_ ?_
  · rintro kernel ⟨⟨⟨own, harmless⟩, isCurrent⟩, rfl⟩
    have same := Option.some.inj (own.2.1.symm.trans isCurrent)
    subst here
    exact ⟨own, harmless current isCurrent⟩
  · split
    · refine ((triple_envFree cpu here).strengthen _
        fun _ holds => holds.1.freeable).bind fun _ => ?_
      exact .bind_modify (InsideAt strict others cpu)
        (fun _ inside => inside.halt.inside) (triple_schedYield build cpu)
    · rename_i lives
      refine .bind_modify _ ?_
        ((triple_trapDispatch here build surroundings cpu frame faultVa).bind
          fun _ => ?_)
      · rintro kernel ⟨own, harmless⟩
        refine ⟨?_, harmless lives⟩
        exact ownAt_updateEnv own (fun _ => rfl) (fun _ => rfl) fun _ => rfl
      · refine .bind_read fun running => ?_
        cases running with
        | some here =>
            refine (triple_envRun cpu here).strengthen _ ?_
            rintro kernel ⟨inside, running⟩
            exact dispatchable_of_curenv inside running
        | none =>
            exact (triple_schedYield build cpu).strengthen _
              fun _ holds => holds.1

end FeaturesOS.Scheduler

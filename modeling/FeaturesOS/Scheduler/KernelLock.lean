import FeaturesOS.Simulation
import FeaturesOS.Scheduler.DeedsTrap
import FeaturesOS.Scheduler.Multiprocessor

/-!
# The big kernel lock

The processors from `i386_init` on: `boot_aps` starts the others one after the
other, `trap` and `mp_main` take `kernel_lock`, and `env_run` and `sched_halt`
release it.  Every access to `kernel_lock`, `cpu_status` and `mpentry_kstack` is a
step of its own, and so is every step of the code in between.  Memory is
sequentially consistent.  Left out are the list of callers in the lock, which only
the panic of `spin_unlock` prints, and the last accesses of `env_run` to its own
environment, to `env_cpunum` and to the saved registers, behind the lock.
-/

namespace FeaturesOS.Scheduler

/-- `struct spinlock`. -/
structure Spinlock where
  locked : UInt32
  cpu : Option Nat

inductive CpuStatus where
  | unused
  | started
  | halted
deriving DecidableEq

/-- Where a processor is in `spin_lock`. -/
inductive LockPoint where
  /-- `lock->locked`, in `holding` -/
  | locked
  /-- `lock->cpu == thiscpu`, in `holding` -/
  | cpu
  | xchg
  /-- `lk->cpu = thiscpu` -/
  | record

/-- Where a processor is in `spin_unlock`. -/
inductive UnlockPoint where
  | locked
  | cpu
  /-- `lk->cpu = 0` -/
  | clear
  | xchg

/-- What a piece of `spin_lock` or `spin_unlock` comes to. -/
inductive SpinOutcome (Point : Type) where
  | goes (lock : Spinlock) (point : Point)
  | returns (lock : Spinlock)
  | panics

/-- One access of `spin_lock`. -/
def spinLock (cpu : Nat) (lock : Spinlock) : LockPoint → SpinOutcome LockPoint
  | .locked => if lock.locked ≠ 0 then .goes lock .cpu else .goes lock .xchg
  | .cpu => if lock.cpu = some cpu then .panics else .goes lock .xchg
  | .xchg =>
      if lock.locked ≠ 0 then
        .goes { lock with locked := 1 } .xchg
      else
        .goes { lock with locked := 1 } .record
  | .record => .returns { lock with cpu := some cpu }

/-- One access of `spin_unlock`. -/
def spinUnlock (cpu : Nat) (lock : Spinlock) :
    UnlockPoint → SpinOutcome UnlockPoint
  | .locked => if lock.locked ≠ 0 then .goes lock .cpu else .panics
  | .cpu => if lock.cpu = some cpu then .goes lock .clear else .panics
  | .clear => .goes { lock with cpu := none } .xchg
  | .xchg => .returns { lock with locked := 0 }

/-- What a processor does when it has taken the lock. -/
inductive AfterLock where
  | bootAps
  /-- `trap` goes on with `(tf->tf_cs & 3) == 3`. -/
  | checkCs (event : TrapEvent)
  | enter (event : TrapEvent)

/-- Where a processor is. -/
inductive CpuPoint (Local : Type) where
  | off
  /-- `mpentry.S` -/
  | mpentry
  /-- `mp_main` -/
  | mpMain
  /-- the loop of `boot_aps` -/
  | bootAps (c : Nat)
  /-- `lapic_startap` -/
  | startAp (c : Nat)
  /-- `while (c->cpu_status != CPU_STARTED)` -/
  | waitAp (c : Nat)
  | user
  /-- `hlt` -/
  | halt
  /-- `xchg(&thiscpu->cpu_status, CPU_STARTED)` in `trap` -/
  | trap (event : TrapEvent)
  | checkCs (event : TrapEvent)
  | locking (point : LockPoint) (after : AfterLock)
  | inside (event : TrapEvent) (here : Local)
  | unlocking (point : UnlockPoint) (halts : Bool)
  | panics

/-- The trap comes from user mode. -/
def TrapEvent.fromUser : TrapEvent → Bool
  | .user _ _ _ _ => true
  | .wake _ => false

structure SmpState (Local : Type) where
  kernel : Kernel
  lock : Spinlock
  status : Nat → CpuStatus
  /-- the processor whose stack `mpentry_kstack` is -/
  kstack : Option Nat
  /-- the processor whose stack a processor runs on -/
  stack : Nat → Option Nat
  point : Nat → CpuPoint Local

namespace SmpState

variable {Local : Type}

def goTo (state : SmpState Local) (cpu : Nat) (point : CpuPoint Local) :
    SmpState Local :=
  { state with point := Function.update state.point cpu point }

def setStatus (state : SmpState Local) (cpu : Nat) (status : CpuStatus) :
    SmpState Local :=
  { state with status := Function.update state.status cpu status }

end SmpState

variable (sections : Sections Kernel TrapEvent) (ncpu boot : Nat)

/-- Where a processor goes on behind `spin_lock`. -/
def AfterLock.point : AfterLock → CpuPoint sections.Local
  | .bootAps => .bootAps 0
  | .checkCs event => .checkCs event
  | .enter event => .inside event (sections.start event)

/-- A step of the processor `cpu`. -/
inductive SmpStep (cpu : Nat) : SmpState sections.Local →
    SmpState sections.Local → Prop where
  | bootSelf {state : SmpState sections.Local} :
      state.point cpu = .bootAps cpu → cpu < ncpu →
      SmpStep cpu state (state.goTo cpu (.bootAps (cpu + 1)))
  | bootNext {state : SmpState sections.Local} {c : Nat} :
      state.point cpu = .bootAps c → c < ncpu → c ≠ cpu →
      SmpStep cpu state
        { state.goTo cpu (.startAp c) with kstack := some c }
  | bootCreates {state : SmpState sections.Local} {c : Nat} {entry : UInt32}
      {segments : List (UInt32 × UInt32)} {kernel : Kernel} :
      state.point cpu = .bootAps c → ¬ c < ncpu →
      envCreate cpu entry segments state.kernel = .returns () kernel →
      SmpStep cpu state { state with kernel := kernel }
  | bootDone {state : SmpState sections.Local} {c : Nat} :
      state.point cpu = .bootAps c → ¬ c < ncpu →
      SmpStep cpu state (state.goTo cpu
        (.inside (.wake cpu) (sections.start (.wake cpu))))
  | startAp {state : SmpState sections.Local} {c : Nat} :
      state.point cpu = .startAp c →
      SmpStep cpu state ((state.goTo c .mpentry).goTo cpu (.waitAp c))
  | waitAp {state : SmpState sections.Local} {c : Nat} :
      state.point cpu = .waitAp c → state.status c = .started →
      SmpStep cpu state (state.goTo cpu (.bootAps (c + 1)))
  | mpentry {state : SmpState sections.Local} :
      state.point cpu = .mpentry →
      SmpStep cpu state
        { state.goTo cpu .mpMain with
          stack := Function.update state.stack cpu state.kstack }
  | mpMain {state : SmpState sections.Local} :
      state.point cpu = .mpMain →
      SmpStep cpu state ((state.setStatus cpu .started).goTo cpu
        (.locking .locked (.enter (.wake cpu))))
  | userTraps {state : SmpState sections.Local} {surroundings : Surroundings}
      {frame : Trapframe} {faultVa : UInt32} :
      state.point cpu = .user →
      SmpStep cpu state
        (state.goTo cpu (.trap (.user cpu surroundings frame faultVa)))
  | haltWakes {state : SmpState sections.Local} :
      state.point cpu = .halt →
      SmpStep cpu state (state.goTo cpu (.trap (.wake cpu)))
  | trapHalted {state : SmpState sections.Local} {event : TrapEvent} :
      state.point cpu = .trap event → state.status cpu = .halted →
      SmpStep cpu state ((state.setStatus cpu .started).goTo cpu
        (.locking .locked (.checkCs event)))
  | trapStarted {state : SmpState sections.Local} {event : TrapEvent} :
      state.point cpu = .trap event → state.status cpu ≠ .halted →
      SmpStep cpu state ((state.setStatus cpu .started).goTo cpu
        (.checkCs event))
  | fromUser {state : SmpState sections.Local} {event : TrapEvent} :
      state.point cpu = .checkCs event → event.fromUser = true →
      SmpStep cpu state (state.goTo cpu (.locking .locked (.enter event)))
  | fromKernel {state : SmpState sections.Local} {event : TrapEvent} :
      state.point cpu = .checkCs event → event.fromUser = false →
      SmpStep cpu state
        (state.goTo cpu (.inside event (sections.start event)))
  | lockGoes {state : SmpState sections.Local} {point next : LockPoint}
      {after : AfterLock} {lock : Spinlock} :
      state.point cpu = .locking point after →
      spinLock cpu state.lock point = .goes lock next →
      SmpStep cpu state
        { state.goTo cpu (.locking next after) with lock := lock }
  | lockReturns {state : SmpState sections.Local} {point : LockPoint}
      {after : AfterLock} {lock : Spinlock} :
      state.point cpu = .locking point after →
      spinLock cpu state.lock point = .returns lock →
      SmpStep cpu state
        { state.goTo cpu (after.point sections) with lock := lock }
  | lockPanics {state : SmpState sections.Local} {point : LockPoint}
      {after : AfterLock} :
      state.point cpu = .locking point after →
      spinLock cpu state.lock point = .panics →
      SmpStep cpu state (state.goTo cpu .panics)
  | runs {state : SmpState sections.Local} {event : TrapEvent}
      {here there : sections.Local} {kernel : Kernel} :
      state.point cpu = .inside event here →
      sections.Step (here, state.kernel) (there, kernel) →
      SmpStep cpu state
        { state.goTo cpu (.inside event there) with kernel := kernel }
  | leavesHalted {state : SmpState sections.Local} {event : TrapEvent}
      {here : sections.Local} :
      state.point cpu = .inside event here → sections.Ends here →
      state.kernel.cpus cpu = none →
      SmpStep cpu state ((state.setStatus cpu .halted).goTo cpu
        (.unlocking .locked true))
  | leavesRunning {state : SmpState sections.Local} {event : TrapEvent}
      {here : sections.Local} :
      state.point cpu = .inside event here → sections.Ends here →
      state.kernel.cpus cpu ≠ none →
      SmpStep cpu state (state.goTo cpu (.unlocking .locked false))
  | unlockGoes {state : SmpState sections.Local} {point next : UnlockPoint}
      {halts : Bool} {lock : Spinlock} :
      state.point cpu = .unlocking point halts →
      spinUnlock cpu state.lock point = .goes lock next →
      SmpStep cpu state
        { state.goTo cpu (.unlocking next halts) with lock := lock }
  | unlockReturns {state : SmpState sections.Local} {point : UnlockPoint}
      {halts : Bool} {lock : Spinlock} :
      state.point cpu = .unlocking point halts →
      spinUnlock cpu state.lock point = .returns lock →
      SmpStep cpu state
        { state.goTo cpu (if halts then .halt else .user) with lock := lock }
  | unlockPanics {state : SmpState sections.Local} {point : UnlockPoint}
      {halts : Bool} :
      state.point cpu = .unlocking point halts →
      spinUnlock cpu state.lock point = .panics →
      SmpStep cpu state (state.goTo cpu .panics)

/-- The processor `boot` calls `lock_kernel` in `i386_init`; the others are off. -/
structure SmpState.Starts (state : SmpState sections.Local) : Prop where
  booted : state.kernel.Boot
  locked : state.lock = ⟨0, none⟩
  point : state.point boot = .locking .locked .bootAps
  status : state.status boot = .started
  off : ∀ cpu, cpu ≠ boot → state.point cpu = .off
  unused : ∀ cpu, cpu ≠ boot → state.status cpu = .unused

/-- All processors, step by step.  An event is the number of a processor. -/
def instructions : Machine (SmpState sections.Local) Nat where
  Initial := SmpState.Starts sections boot
  Step state cpu next := SmpStep sections ncpu cpu state next

end FeaturesOS.Scheduler

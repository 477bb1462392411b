import FeaturesOS.LinkedList
import FeaturesOS.Scheduler.Env

/-!
# The kernel after booting

The state that `mem_init` and `env_init` leave, and the environments that
`i386_init` creates in it before any processor runs one.
-/

namespace FeaturesOS.Scheduler

/-- The physical memory after `mem_init`: the free pages are `pool`, and the
directory of the kernel maps nothing for the user. -/
structure PhysMem.Booted (mem : PhysMem) (kernPgdir : Nat)
    (pool : List Nat) : Prop where
  freePages : Linked (fun page => (mem.pages page).ppLink) mem.pageFreeList pool
  nodup : pool.Nodup
  unreferenced : ∀ page ∈ pool, (mem.pages page).ppRef = 0
  valid : ∀ page ∈ pool, mem.Valid page
  addressable : mem.npages ≤ 2 ^ 20
  kernel : kernPgdir ∉ pool
  unmapped : ∀ table, table < userTables → mem.ram kernPgdir table = 0

/-- A small memory with its free pages in ascending order. -/
def PhysMem.plain (npages : Nat) : PhysMem :=
  { npages := npages
    pages := fun page =>
      { ppLink := if page + 1 < npages then some (page + 1) else none
        ppRef := 0 }
    pageFreeList := some 2
    ram := fun _ _ => 0 }

theorem PhysMem.booted_plain {npages : Nat} (large : 3 ≤ npages)
    (small : npages ≤ 2 ^ 20) :
    (PhysMem.plain npages).Booted 1 (List.range' 2 (npages - 3 + 1)) where
  freePages := Linked.countUp (fun _ _ => rfl) (npages - 3) (by omega)
  nodup := List.nodup_range'
  unreferenced _ _ := rfl
  valid page member := by
    have bounds := List.mem_range'_1.mp member
    change page < npages
    omega
  addressable := small
  kernel member := by
    have bounds := List.mem_range'_1.mp member
    omega
  unmapped _ _ := rfl

/-- An element of `envs[]` after `env_init`. -/
def initialEnv (i : Nat) : Env :=
  { envTf := .zero
    envLink := if i + 1 < nenv then some (i + 1) else none
    envId := 0
    envParentId := 0
    envStatus := .free
    envRuns := 0
    envCpunum := 0
    envPgdir := none
    envPgfaultUpcall := 0
    envIpcRecving := false
    envIpcDstva := 0
    envIpcValue := 0
    envIpcFrom := 0
    envIpcPerm := 0
    colaActual := 0
    ejecuciones := 0 }

/-- A queue as `mlfq_scheduler` initialises it. -/
def MlfqCola.vacia : MlfqCola :=
  { envs := fun _ => 0, ultimo := 0, primero := 0 }

namespace Kernel

def initial (mem : PhysMem) (kernPgdir : Nat) : Kernel :=
  { mem := mem
    kernPgdir := kernPgdir
    envs := initialEnv
    envFreeList := some 0
    cpus := fun _ => none
    mlfq := { colas := fun _ => .vacia, ejecucionesTotales := 0 }
    runsDelSched := 0 }

/-- The states in which the processors may enter the scheduler. -/
inductive Boot : Kernel → Prop where
  | initial {mem : PhysMem} {kernPgdir : Nat} {pool : List Nat} :
      mem.Booted kernPgdir pool → Boot (initial mem kernPgdir)
  | create {kernel next : Kernel} {cpu : Nat} {entry : UInt32}
      {segments : List (UInt32 × UInt32)} :
      Boot kernel → envCreate cpu entry segments kernel = .returns () next →
      Boot next

/-- The free environments of `env_init` in their order. -/
theorem initial_freeList (mem : PhysMem) (kernPgdir : Nat) :
    Linked (fun e => ((initial mem kernPgdir).envs e).envLink)
      (initial mem kernPgdir).envFreeList (List.range' 0 nenv) :=
  Linked.countUp (fun _ _ => rfl) (nenv - 1) (by decide)

end Kernel

end FeaturesOS.Scheduler

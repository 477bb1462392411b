import FeaturesOS.Scheduler.AccountRuns
import FeaturesOS.Scheduler.PageCalls

/-!
# The counts of the pages over sequences of page calls

The functions on pages, called in any order for any environment.  Between two
calls everything but the memory and the directories may change.  The counts stay
right as long as no call works on addresses from `UTOP` on and no `pp_ref` wraps
around.
-/

namespace FeaturesOS.Scheduler

open Entry

/-- A call of the kernel, or a step of the kernel that calls none of them. -/
inductive PageCall where
  | pageAlloc (zero : Bool)
  | pgdirWalk (e : Nat) (va : UInt32) (create : Bool)
  | pageInsert (e page : Nat) (va perm : UInt32)
  | pageRemove (e : Nat) (va : UInt32)
  | envSetupVm (e : Nat)
  | envFree (e : Nat)
  | sysPageAlloc (cpu : Nat) (envid va perm : UInt32)
  | sysPageMap (cpu : Nat) (srcenvid srcva dstenvid dstva perm : UInt32)
  | sysPageUnmap (cpu : Nat) (envid va : UInt32)
  | elsewhere

def Kernel.dirs (kernel : Kernel) (e : Nat) : Option Nat :=
  (kernel.envs e).envPgdir

/-- The same memory and the same directories. -/
structure SameSpaces (kernel next : Kernel) : Prop where
  mem : next.mem = kernel.mem
  kernPgdir : next.kernPgdir = kernel.kernPgdir
  dirs : next.dirs = kernel.dirs

def Returns {Result : Type} (entry : KernelM Result) (kernel next : Kernel) :
    Prop :=
  ∃ result, entry kernel = .returns result next

namespace PageCall

def Step (kernel : Kernel) (call : PageCall) (next : Kernel) : Prop :=
  match call with
  | pageAlloc zero =>
      Returns (onMem fun mem => some (mem.pageAlloc zero)) kernel next
  | pgdirWalk e va create =>
      Returns (onPgdir e fun pgdir mem => mem.pgdirWalk pgdir va create) kernel
        next
  | pageInsert e page va perm => Returns (insertPage e page va perm) kernel next
  | pageRemove e va =>
      Returns (onPgdir e fun pgdir mem =>
        (mem.pageRemove pgdir va).map fun mem => (mem, ())) kernel next
  | envSetupVm e => Returns (Scheduler.envSetupVm e) kernel next
  | envFree e => Returns (Scheduler.envFree e) kernel next
  | sysPageAlloc cpu envid va perm =>
      Returns (Scheduler.sysPageAlloc cpu envid va perm) kernel next
  | sysPageMap cpu srcenvid srcva dstenvid dstva perm =>
      Returns (Scheduler.sysPageMap cpu srcenvid srcva dstenvid dstva perm)
        kernel next
  | sysPageUnmap cpu envid va =>
      Returns (Scheduler.sysPageUnmap cpu envid va) kernel next
  | elsewhere => SameSpaces kernel next

/-- What the callers see to: `page_insert` gets a page that has been handed out,
flags are within `PTE_SYSCALL`, and `env_setup_vm` is called for an environment
without a directory. -/
def Legal (pool : List Nat) (kernel : Kernel) : PageCall → Prop
  | pageInsert _ page _ perm =>
      page ∈ pool ∧ ¬ kernel.mem.OnFreeList page ∧ WithinSyscall perm
  | sysPageMap _ _ _ _ _ perm => WithinSyscall perm
  | envSetupVm e => e < nenv ∧ kernel.dirs e = none
  | _ => True

/-- The functions that are given an address are given one below `UTOP`; the
system calls check theirs. -/
def BelowUtop : PageCall → Prop
  | pgdirWalk _ va create => create = true → va < utop
  | pageInsert _ _ va _ => va < utop
  | pageRemove _ va => va < utop
  | _ => True

end PageCall

/-- No `pp_ref` wraps around in the call. -/
def PageCall.Fits (kernel : Kernel) : PageCall → Prop
  | pageInsert e page va _ => ¬ kernel.Wraps e page va
  | sysPageMap cpu srcenvid srcva dstenvid dstva perm => ∀ dst page,
      kernel.MapsPage cpu srcenvid srcva dstenvid dstva perm dst page →
      ¬ kernel.Wraps dst page dstva
  | _ => True

/-- A kernel that boots with the free pages of `pool`. -/
def pageMachine (pool : List Nat) : Machine Kernel PageCall where
  Initial kernel := ∃ mem kernPgdir, mem.Booted kernPgdir pool ∧
    kernel = .initial mem kernPgdir
  Step kernel call next := call.Legal pool kernel ∧ call.Step kernel next

/-- Every `pp_ref` is the number of references to its page, and a page that is
referred to is not free. -/
def CountsReferences (pool : List Nat) (kernel : Kernel) : Prop :=
  ∀ page ∈ pool,
    (kernel.mem.pages page).ppRef.toNat =
        references (kernel.mem.holds kernel.dirs) page ∧
      (0 < references (kernel.mem.holds kernel.dirs) page →
        ¬ kernel.mem.OnFreeList page)

/-! ## One call -/

/-- The accounts are right, and `kern_pgdir` maps nothing for the user. -/
structure Counted (pool : List Nat) (kernel : Kernel) : Prop where
  accounted : ∃ free, kernel.mem.Accounted pool free kernel.dirs
  kernelDir : kernel.kernPgdir ∉ pool
  unmapped : ∀ table, table < userTables →
    kernel.mem.ram kernel.kernPgdir table = 0
  beyond : ∀ e, nenv ≤ e → kernel.dirs e = none

variable {pool free : List Nat} {kernel next : Kernel} {mem : PhysMem}
variable {cpu e page d : Nat} {va perm : UInt32} {left : Kernel → Prop}

theorem Counted.countsReferences (counted : Counted pool kernel) :
    CountsReferences pool kernel := by
  obtain ⟨free, accounted⟩ := counted.accounted
  intro page isPooled
  refine ⟨accounted.ref isPooled, fun positive isFree => ?_⟩
  have member := accounted.books.onFreeList_iff.mp isFree
  have uncounted := accounted.books.uncounted page member
  omega

theorem counted_initial {kernPgdir : Nat} (booted : mem.Booted kernPgdir pool) :
    Counted pool (.initial mem kernPgdir) where
  accounted := ⟨pool, booted.accounted⟩
  kernelDir := booted.kernel
  unmapped := booted.unmapped
  beyond _ _ := rfl

theorem Counted.below (counted : Counted pool kernel)
    (isDir : kernel.dirs e = some d) : e < nenv := by
  by_contra above
  cases (counted.beyond e (by omega)).symm.trans isDir

theorem Counted.congr (counted : Counted pool kernel)
    (same : SameSpaces kernel next) : Counted pool next := by
  refine ⟨?_, ?_, ?_, ?_⟩
  · rw [same.mem, same.dirs]
    exact counted.accounted
  · rw [same.kernPgdir]
    exact counted.kernelDir
  · rw [same.mem, same.kernPgdir]
    exact counted.unmapped
  · rw [same.dirs]
    exact counted.beyond

theorem Counted.setMem (counted : Counted pool kernel)
    (accounted : mem.Accounted pool free kernel.dirs)
    (outside : kernel.mem.Outside mem pool kernel.dirs) :
    Counted pool (kernel.setMem mem) where
  accounted := ⟨free, accounted⟩
  kernelDir := counted.kernelDir
  unmapped table below := by
    change mem.ram kernel.kernPgdir table = 0
    rw [outside.ram _ counted.kernelDir]
    exact counted.unmapped table below
  beyond := counted.beyond

/-- A page that has been handed out is mapped. -/
theorem Counted.insert (counted : Counted pool kernel)
    (isDir : kernel.dirs e = some d) (user : va < utop)
    (low : perm.toNat < 4096) (isPooled : page ∈ pool)
    (busy : ¬ kernel.mem.OnFreeList page) (fits : ¬ kernel.Wraps e page va) :
    ∃ mem r, kernel.mem.pageInsert d page va perm = some (mem, r) ∧
      Counted pool (kernel.setMem mem) := by
  obtain ⟨free, accounted⟩ := counted.accounted
  have below := counted.below isDir
  have notFree : page ∉ free := fun member =>
    busy (accounted.books.onFreeList_iff.mpr member)
  have noWrap : ¬ kernel.mem.WrapsAround d page va := fun wraps =>
    fits ⟨d, isDir, wraps⟩
  by_cases full : kernel.mem.entryAt kernel.dirs ⟨e, below⟩ user = none ∧
      free = []
  · have inserts := @PhysMem.Accounted.pageInsert_full _ _ _ _ ⟨e, below⟩ _ _ _
      accounted isDir full.1 full.2 page perm
    exact ⟨kernel.mem, _, inserts, counted⟩
  · obtain ⟨walked, mem, free', inserts, inserted⟩ :=
      @PhysMem.Accounted.pageInsert _ _ _ _ ⟨e, below⟩ _ _ _ _ accounted isDir
        user isPooled notFree low full
    have room := @PhysMem.Accounted.room _ _ _ _ ⟨e, below⟩ _ _ _ accounted
      isDir isPooled user noWrap full
    exact ⟨mem, 0, inserts, counted.setMem
      (inserted.accounted accounted notFree room) inserted.outside⟩

theorem triple_insertPage_counted (user : va < utop)
    (within : WithinSyscall perm) :
    Triple (fun kernel => Counted pool kernel ∧ page ∈ pool ∧
        ¬ kernel.mem.OnFreeList page ∧ ¬ kernel.Wraps e page va)
      (insertPage e page va perm) (fun _ => Counted pool) left := by
  refine .bind_read fun pgdir => ?_
  cases pgdir with
  | none => exact .stop
  | some d =>
      constructor
      rintro kernel ⟨⟨counted, isPooled, busy, fits⟩, isDir⟩
      obtain ⟨mem, r, inserts, after⟩ :=
        counted.insert isDir user within.lt isPooled busy fits
      unfold onMem
      dsimp only
      rw [inserts]
      exact after

/-- A page that has just been handed out. -/
theorem triple_pageAlloc_counted (zero : Bool) :
    Triple (Counted pool) (onMem fun mem => some (mem.pageAlloc zero))
      (fun found kernel => Counted pool kernel ∧ ∀ page, found = some page →
        page ∈ pool ∧ ¬ kernel.mem.OnFreeList page ∧
        ∀ e va, ¬ kernel.Wraps e page va) left := by
  constructor
  intro kernel counted
  obtain ⟨free, accounted⟩ := counted.accounted
  unfold onMem
  dsimp only
  cases taken : kernel.mem.pageAlloc zero with
  | mk mem found =>
      cases found with
      | none =>
          have same := accounted.books.pageAlloc zero
          rw [taken] at same
          rw [same.1]
          exact ⟨counted, fun _ none => by cases none⟩
      | some page =>
          obtain ⟨free', isFree, isPooled, busy, after, word, outside⟩ :=
            accounted.pageAlloc taken
          refine ⟨counted.setMem after outside, ?_⟩
          rintro page' isPage
          cases isPage
          refine ⟨isPooled, fun isFree' =>
            busy (after.books.onFreeList_iff.mp isFree'), ?_⟩
          rintro e va ⟨_, _, full, _⟩
          have none : references (mem.holds kernel.dirs) page = 0 := by
            rw [references_eq_zero, PhysMem.holds_congr word]
            exact accounted.unreferenced (isFree ▸ List.mem_cons_self)
          have ref := after.ref isPooled
          change (mem.pages page).ppRef = 65535 at full
          rw [full, none] at ref
          cases ref

theorem triple_pgdirWalk_counted (create : Bool)
    (user : create = true → va < utop) :
    Triple (Counted pool)
      (onPgdir e fun pgdir mem => mem.pgdirWalk pgdir va create)
      (fun _ => Counted pool) left := by
  refine .bind_read fun pgdir => ?_
  cases pgdir with
  | none => exact .stop
  | some d =>
      constructor
      rintro kernel ⟨counted, isDir⟩
      unfold onMem
      dsimp only
      cases create with
      | true =>
          obtain ⟨free, accounted⟩ := counted.accounted
          have below := counted.below isDir
          obtain ⟨mem, free', walks, walk, _⟩ :=
            @PhysMem.Accounted.pgdirWalk _ _ _ _ ⟨e, below⟩ _ _ accounted isDir
              (user rfl) true
          rw [walks]
          exact counted.setMem (walk.accounted accounted) walk.outside
      | false =>
          rw [PhysMem.pgdirWalk_keep]
          cases walks : kernel.mem.tableEntry d va with
          | none => trivial
          | some walked =>
              dsimp only
              rw [PhysMem.tableEntry_same walks]
              exact counted

theorem triple_pageRemove_counted (user : va < utop) :
    Triple (Counted pool)
      (onPgdir e fun pgdir mem =>
        (mem.pageRemove pgdir va).map fun mem => (mem, ()))
      (fun _ => Counted pool) left := by
  refine .bind_read fun pgdir => ?_
  cases pgdir with
  | none => exact .stop
  | some d =>
      constructor
      rintro kernel ⟨counted, isDir⟩
      obtain ⟨free, accounted⟩ := counted.accounted
      have below := counted.below isDir
      obtain ⟨mem, removes, clears, _⟩ :=
        @PhysMem.Accounted.pageRemove _ _ _ _ ⟨e, below⟩ _ _ accounted isDir
          user
      obtain ⟨free', after⟩ := clears.accounted
      unfold onMem
      dsimp only
      rw [removes]
      exact counted.setMem after clears.outside

theorem dirs_updateEnv (kernel : Kernel) (e : Nat) (change : Env → Env) :
    (kernel.updateEnv e change).dirs =
      Function.update kernel.dirs e (change (kernel.envs e)).envPgdir := by
  funext f
  unfold Kernel.dirs Kernel.updateEnv Kernel.setEnv
  dsimp only
  by_cases same : f = e
  · subst same
    rw [Function.update_self, Function.update_self]
  · rw [Function.update_of_ne same, Function.update_of_ne same]

/-- `env_setup_vm` for an environment without a directory. -/
theorem triple_envSetupVm_counted (below : e < nenv) :
    Triple (fun kernel => Counted pool kernel ∧ kernel.dirs e = none)
      (envSetupVm e) (fun _ => Counted pool) left := by
  constructor
  rintro kernel ⟨counted, noDir⟩
  obtain ⟨free, accounted⟩ := counted.accounted
  unfold envSetupVm
  cases taken : kernel.mem.pageAlloc true with
  | mk allocated found =>
      cases found with
      | none => exact counted
      | some d =>
          obtain ⟨free', founded⟩ := @PhysMem.Accounted.addDirectory _ _ _ _ _
            ⟨e, below⟩ _ accounted noDir _ counted.kernelDir counted.unmapped
            taken
          have after := founded.accounted
          dsimp only
          refine ⟨⟨free', ?_⟩, counted.kernelDir, ?_, ?_⟩
          · rw [dirs_updateEnv]
            exact after
          · intro table isUser
            exact (congrFun (founded.outside.ram _ counted.kernelDir)
              table).trans (counted.unmapped table isUser)
          · intro f above
            have other : f ≠ e := by omega
            rw [dirs_updateEnv, Function.update_of_ne other]
            exact counted.beyond f above

theorem triple_envFree_counted :
    Triple (Counted pool) (envFree e) (fun _ => Counted pool) left := by
  constructor
  intro kernel counted
  obtain ⟨free, accounted⟩ := counted.accounted
  unfold envFree
  cases isDir : (kernel.envs e).envPgdir with
  | none => trivial
  | some d =>
      have below := counted.below isDir
      obtain ⟨mem, frees, freed⟩ :=
        @PhysMem.Accounted.envFree _ _ _ _ ⟨e, below⟩ _ accounted isDir
      obtain ⟨free', after⟩ := freed.accounted
      dsimp only
      rw [frees]
      have freed : Counted pool ((kernel.setMem mem).updateEnv e fun env =>
          { env with
            envPgdir := none
            envStatus := .free
            envLink := kernel.envFreeList }) := by
        refine ⟨⟨free', ?_⟩, counted.kernelDir, ?_, ?_⟩
        · rw [dirs_updateEnv]
          exact after
        · intro table isUser
          exact (congrFun (freed.outside.ram _ counted.kernelDir) table).trans
            (counted.unmapped table isUser)
        · intro f above
          have other : f ≠ e := by omega
          rw [dirs_updateEnv, Function.update_of_ne other]
          exact counted.beyond f above
      exact freed.congr ⟨rfl, rfl, rfl⟩

/-! ## The system calls -/

theorem triple_sysPageAlloc_counted (envid : UInt32) :
    Triple (Counted pool) (sysPageAlloc cpu envid va perm)
      (fun _ => Counted pool) left := by
  unfold sysPageAlloc
  refine .ite (fun _ => .pure fun _ counted => counted) fun user => ?_
  refine (triple_lookupEnv cpu envid true).bind fun result => ?_
  cases result with
  | error r => exact .pure fun _ holds => holds.1
  | ok e =>
      refine .ite (fun _ => .pure fun _ holds => holds.1) fun allowed => ?_
      refine ((triple_pageAlloc_counted true).strengthen _ fun _ holds =>
        holds.1).bind fun found => ?_
      cases found with
      | none => exact .pure fun _ holds => holds.1
      | some page =>
          refine (triple_insertPage_counted (not_not.mp user).1
            (checkPerm_within allowed)).strengthen _ ?_
          rintro kernel ⟨counted, fresh⟩
          obtain ⟨isPooled, busy, fits⟩ := fresh page rfl
          exact ⟨counted, isPooled, busy, fits e va⟩

/-- What `page_lookup` finds has been handed out. -/
theorem Counted.found (counted : Counted pool kernel) (user : va < utop)
    {srcpte : UInt32}
    (found : kernel.lookupPage e va = some (some (page, srcpte))) :
    page ∈ pool ∧ ¬ kernel.mem.OnFreeList page := by
  obtain ⟨free, accounted⟩ := counted.accounted
  unfold Kernel.lookupPage at found
  cases isDir : (kernel.envs e).envPgdir with
  | none =>
      rw [isDir] at found
      cases found
  | some d =>
      rw [isDir] at found
      have below := counted.below isDir
      have looks := @PhysMem.Tree.translation _ _ _ _ _ ⟨e, below⟩ _ _
        accounted.tree accounted.books isDir user
      have maps := looks.symm.trans found
      obtain ⟨page', refers, same⟩ :=
        Option.map_eq_some_iff.mp (Option.some.inj maps)
      cases same
      exact ⟨accounted.tree.pooled _ _ refers, fun isFree =>
        accounted.notFree refers (accounted.books.onFreeList_iff.mp isFree)⟩

theorem triple_envPageMap_counted {src dst : Nat} {srcva dstva : UInt32}
    (srcUser : srcva < utop) (dstUser : dstva < utop)
    (within : WithinSyscall perm) :
    Triple
      (fun kernel => Counted pool kernel ∧ ∀ page,
        kernel.Shares src srcva perm page → ¬ kernel.Wraps dst page dstva)
      (envPageMap src srcva dst dstva perm) (fun _ => Counted pool) left := by
  unfold envPageMap Scheduler.lookupPage
  rw [bind_assoc]
  refine .bind_read fun found => ?_
  cases found with
  | none => exact .stop
  | some found =>
      cases found with
      | none => exact .pure fun _ holds => holds.1.1
      | some found =>
          obtain ⟨page, srcpte⟩ := found
          refine .ite (fun _ => .pure fun _ holds => holds.1.1) fun granted => ?_
          refine (triple_insertPage_counted dstUser within).strengthen _ ?_
          rintro kernel ⟨⟨counted, fits⟩, found⟩
          obtain ⟨isPooled, busy⟩ := counted.found srcUser found
          exact ⟨counted, isPooled, busy,
            fits page ⟨srcpte, found, not_not.mp granted⟩⟩

theorem triple_sysPageMap_counted
    (srcenvid srcva dstenvid dstva : UInt32) (within : WithinSyscall perm) :
    Triple
      (fun kernel => Counted pool kernel ∧ ∀ dst page,
        kernel.MapsPage cpu srcenvid srcva dstenvid dstva perm dst page →
        ¬ kernel.Wraps dst page dstva)
      (sysPageMap cpu srcenvid srcva dstenvid dstva perm)
      (fun _ => Counted pool) left := by
  unfold sysPageMap
  refine .ite (fun _ => .pure fun _ holds => holds.1) fun srcUser => ?_
  refine .ite (fun _ => .pure fun _ holds => holds.1) fun dstUser => ?_
  refine (triple_lookupEnv cpu srcenvid true).bind fun result => ?_
  cases result with
  | error r => exact .pure fun _ holds => holds.1.1
  | ok src =>
      refine (triple_lookupEnv cpu dstenvid true).bind fun result => ?_
      cases result with
      | error r => exact .pure fun _ holds => holds.1.1.1
      | ok dst =>
          have srcPage := not_not.mp srcUser
          have dstPage := not_not.mp dstUser
          have within' : WithinSyscall (pteP ||| pteU ||| perm) :=
            WithinSyscall.or (by decide) within
          refine (triple_envPageMap_counted srcPage.1 dstPage.1
            within').strengthen _ ?_
          rintro kernel ⟨⟨⟨counted, fits⟩, findsSrc⟩, findsDst⟩
          refine ⟨counted, fun page shares => ?_⟩
          exact fits dst page
            ⟨srcPage, dstPage, findsDst dst rfl, src, findsSrc src rfl, shares⟩

theorem triple_sysPageUnmap_counted (envid : UInt32) :
    Triple (Counted pool) (sysPageUnmap cpu envid va)
      (fun _ => Counted pool) left := by
  unfold sysPageUnmap
  refine .ite (fun _ => .pure fun _ counted => counted) fun user => ?_
  refine (triple_lookupEnv cpu envid true).bind fun result => ?_
  cases result with
  | error r => exact .pure fun _ holds => holds.1
  | ok e =>
      refine ((triple_pageRemove_counted (not_not.mp user).1).strengthen _
        fun _ holds => holds.1).bind fun _ => ?_
      exact .pure fun _ counted => counted

theorem onMem_run {Result : Type} {result : Result}
    {change : PhysMem → Option (PhysMem × Result)}
    (changes : change kernel.mem = some (mem, result)) :
    onMem change kernel = .returns result (kernel.setMem mem) := by
  unfold onMem
  rw [changes]

theorem insertPage_of_dir {r : Int} (isDir : kernel.dirs e = some d)
    (inserts : kernel.mem.pageInsert d page va perm = some (mem, r)) :
    insertPage e page va perm kernel = .returns r (kernel.setMem mem) := by
  unfold Kernel.dirs at isDir
  rw [insertPage_run, isDir]
  dsimp only
  rw [inserts]

/-! ## Runs -/

/-- One call keeps the counts. -/
theorem Counted.step {call : PageCall} (counted : Counted pool kernel)
    (legal : call.Legal pool kernel) (belowUtop : call.BelowUtop)
    (fits : call.Fits kernel) (step : call.Step kernel next) :
    Counted pool next := by
  cases call with
  | pageAlloc zero =>
      obtain ⟨_, returns⟩ := step
      exact ((@triple_pageAlloc_counted pool (fun _ => True) zero).of_returns
        counted returns).1
  | pgdirWalk e va create =>
      obtain ⟨_, returns⟩ := step
      exact (@triple_pgdirWalk_counted pool e va (fun _ => True) create
        belowUtop).of_returns counted returns
  | pageInsert e page va perm =>
      obtain ⟨_, returns⟩ := step
      obtain ⟨isPooled, busy, within⟩ := legal
      exact (@triple_insertPage_counted pool e page va perm (fun _ => True)
        belowUtop within).of_returns ⟨counted, isPooled, busy, fits⟩ returns
  | pageRemove e va =>
      obtain ⟨_, returns⟩ := step
      exact (@triple_pageRemove_counted pool e va (fun _ => True)
        belowUtop).of_returns counted returns
  | envSetupVm e =>
      obtain ⟨_, returns⟩ := step
      exact (@triple_envSetupVm_counted pool e (fun _ => True)
        legal.1).of_returns ⟨counted, legal.2⟩ returns
  | envFree e =>
      obtain ⟨_, returns⟩ := step
      exact (@triple_envFree_counted pool e (fun _ => True)).of_returns counted
        returns
  | sysPageAlloc cpu envid va perm =>
      obtain ⟨_, returns⟩ := step
      exact (@triple_sysPageAlloc_counted pool cpu va perm (fun _ => True)
        envid).of_returns counted returns
  | sysPageMap cpu srcenvid srcva dstenvid dstva perm =>
      obtain ⟨_, returns⟩ := step
      exact (@triple_sysPageMap_counted pool cpu perm (fun _ => True) srcenvid
        srcva dstenvid dstva legal).of_returns ⟨counted, fits⟩ returns
  | sysPageUnmap cpu envid va =>
      obtain ⟨_, returns⟩ := step
      exact (@triple_sysPageUnmap_counted pool cpu va (fun _ => True)
        envid).of_returns counted returns
  | elsewhere => exact counted.congr step

/-- In every run whose calls keep below `UTOP` and make no count wrap around,
the counts are right in every state. -/
theorem countsReferences_of_reachable
    (reachable : (pageMachine pool).Reachable (fun kernel call =>
      call.BelowUtop ∧ call.Fits kernel) kernel) :
    CountsReferences pool kernel := by
  have counted : Counted pool kernel := by
    refine reachable.invariant ?_ ?_
    · rintro _ ⟨mem, kernPgdir, booted, rfl⟩
      exact counted_initial booted
    · rintro kernel call next counted ⟨belowUtop, fits⟩ ⟨legal, step⟩
      exact counted.step legal belowUtop fits step
  exact counted.countsReferences

/-! ## A count that wraps around -/

open PhysMem

/-- `env_setup_vm` for the first environment and `page_alloc` after booting. -/
theorem reachable_oneSpace {npages : Nat} (large : 4 ≤ npages)
    (small : npages ≤ 2 ^ 20) :
    ∃ kernel : Kernel,
      (pageMachine (List.range' 2 (npages - 3 + 1))).Reachable
        (fun kernel call => call.BelowUtop ∧ call.Fits kernel) kernel ∧
      kernel.dirs = oneDir ∧ kernel.mem = oneSpace npages := by
  have booted := @booted_plain npages (by omega) small
  let start := Kernel.initial (plain npages) 1
  let founded := (start.setMem
    (((plain npages).pageAlloc true).1.withDirectory 1 2)).updateEnv 0
      fun env => { env with envPgdir := some 2 }
  have founds : Scheduler.envSetupVm 0 start = .returns 0 founded := rfl
  have takes : onMem (fun mem => some (mem.pageAlloc true)) founded =
      .returns (some 3) (founded.setMem (oneSpace npages)) :=
    onMem_run (congrArg some (oneSpace_taken large))
  have first : (pageMachine (List.range' 2 (npages - 3 + 1))).Step start
      (.envSetupVm 0) founded := ⟨⟨by decide, rfl⟩, 0, founds⟩
  have second : (pageMachine (List.range' 2 (npages - 3 + 1))).Step founded
      (.pageAlloc true) (founded.setMem (oneSpace npages)) :=
    ⟨trivial, _, takes⟩
  refine ⟨founded.setMem (oneSpace npages), ?_, ?_, rfl⟩
  · have initial := @Machine.Reachable.initial _ _
      (pageMachine (List.range' 2 (npages - 3 + 1)))
      (fun kernel call => call.BelowUtop ∧ call.Fits kernel) start
      ⟨_, _, booted, rfl⟩
    have setup : (PageCall.envSetupVm 0).BelowUtop ∧
        (PageCall.envSetupVm 0).Fits start := ⟨trivial, trivial⟩
    have alloc : (PageCall.pageAlloc true).BelowUtop ∧
        (PageCall.pageAlloc true).Fits founded := ⟨trivial, trivial⟩
    exact (initial.step setup first).step alloc second
  · exact dirs_updateEnv start 0 fun env => { env with envPgdir := some 2 }

/-- The calls that map the page 3 at `n` addresses of the first environment. -/
theorem reachable_repeated {n : Nat} (bound : n < 2 ^ 16) :
    ∃ (pool free : List Nat) (kernel : Kernel),
      (pageMachine pool).Reachable
        (fun kernel call => call.BelowUtop ∧ call.Fits kernel) kernel ∧
      kernel.dirs = oneDir ∧ kernel.mem.Repeated pool free oneDir n := by
  induction n with
  | zero =>
      obtain ⟨free, accounted, length, isPooled, busy, unreferenced, empty⟩ :=
        @oneSpace_accounted (2 ^ 17) (by decide) (by decide)
      obtain ⟨kernel, reachable, dirs, mem⟩ :=
        @reachable_oneSpace (2 ^ 17) (by decide) (by decide)
      refine ⟨_, free, kernel, reachable, dirs, ?_⟩
      rw [mem]
      refine ⟨accounted, isPooled, busy, ?_, ?_, by omega⟩
      · exact references_eq_zero.mpr unreferenced
      · intro k isPage _
        exact congrArg frameOf (empty _ _ _)
  | succ n induction =>
      obtain ⟨pool, free, kernel, reachable, dirs, repeated⟩ :=
        induction (by omega)
      obtain ⟨mem, free', inserts, again⟩ := repeated.again bound
      have small : n < 2 ^ 16 := by omega
      have busy : ¬ kernel.mem.OnFreeList 3 := fun isFree =>
        repeated.busy (repeated.accounted.books.onFreeList_iff.mp isFree)
      have step : (pageMachine pool).Step kernel (.pageInsert 0 3 (pageVa n) 7)
          (kernel.setMem mem) :=
        ⟨⟨repeated.isPooled, busy, by decide⟩, 0,
          insertPage_of_dir (congrFun dirs 0) inserts⟩
      have permitted : (PageCall.pageInsert 0 3 (pageVa n) 7).BelowUtop ∧
          (PageCall.pageInsert 0 3 (pageVa n) 7).Fits kernel := by
        refine ⟨pageVa_user small, ?_⟩
        rintro ⟨_, _, isLast, _⟩
        have ref := repeated.accounted.ref repeated.isPooled
        rw [isLast, repeated.counted] at ref
        change 65535 = n at ref
        omega
      exact ⟨pool, free', kernel.setMem mem, reachable.step permitted step, dirs,
        again⟩

/-- A page that is mapped at 65536 addresses is counted 0 times. -/
theorem not_countsReferences :
    ¬ ∀ (pool : List Nat) (kernel : Kernel),
      (pageMachine pool).Reachable (fun _ call => call.BelowUtop) kernel →
      CountsReferences pool kernel := by
  intro counts
  obtain ⟨pool, free, kernel, reachable, dirs, repeated⟩ :=
    @reachable_repeated 65535 (by decide)
  obtain ⟨accounted, isPooled, busy, counted, unmapped, spare⟩ := repeated
  have below := reachable.weaken fun _ _ permitted => permitted.1
  have last : 65535 < 2 ^ 16 := by decide
  have low : (7 : UInt32).toNat < 4096 := by decide
  have notFull : ¬ (kernel.mem.entryAt oneDir firstEnv (pageVa_user last) =
      none ∧ free = []) := by
    rintro ⟨_, empty⟩
    rw [empty, List.length_nil] at spare
    omega
  obtain ⟨walked, mem, free', inserts, inserted⟩ := accounted.pageInsert rfl
    (pageVa_user last) isPooled busy low notFull
  have nothing := unmapped 65535 last (le_refl _)
  have handedOut : ¬ kernel.mem.OnFreeList 3 := fun isFree =>
    busy (accounted.books.onFreeList_iff.mp isFree)
  have step : (pageMachine pool).Step kernel
      (.pageInsert 0 3 (pageVa 65535) 7) (kernel.setMem mem) :=
    ⟨⟨isPooled, handedOut, by decide⟩, 0,
      insertPage_of_dir (congrFun dirs 0) inserts⟩
  have belowUtop : (PageCall.pageInsert 0 3 (pageVa 65535) 7).BelowUtop :=
    pageVa_user last
  have equal : (mem.pages 3).ppRef.toNat =
      references (mem.holds kernel.dirs) 3 :=
    (counts pool _ (below.step belowUtop step) 3 isPooled).1
  have isZero := inserted.wraps isPooled busy (congrArg (· + 1) counted)
    (by simp [nothing])
  have isFull : references (mem.holds oneDir) 3 = 65536 := by
    rw [inserted.refs busy, if_pos rfl, nothing, if_neg (by simp), counted]
  rw [isZero, dirs, isFull] at equal
  cases equal

/-- A page that is mapped at 65535 addresses is counted as often. -/
theorem countsReferences_repeated :
    ∃ (pool : List Nat) (kernel : Kernel),
      references (kernel.mem.holds kernel.dirs) 3 = 65535 ∧
        CountsReferences pool kernel := by
  obtain ⟨pool, _, kernel, reachable, dirs, repeated⟩ :=
    @reachable_repeated 65535 (by decide)
  refine ⟨pool, kernel, ?_, countsReferences_of_reachable reachable⟩
  rw [dirs]
  exact repeated.counted

end FeaturesOS.Scheduler

import FeaturesOS.Scheduler.MapUpdate
import FeaturesOS.Scheduler.Multiprocessor

/-!
# The page calls when memory runs out

`env_page_alloc` takes a page before `page_insert` looks for a table.  When that
page was the last one and there is no table, it is neither mapped nor freed.
-/

namespace FeaturesOS.Scheduler

open Entry

namespace PhysMem

/-- Only one page is free, and `pgdir` has no table for `va`, at the latest when
that page has been cleared. -/
def RunsDry (mem : PhysMem) (pgdir : Nat) (va : UInt32) : Prop :=
  ∃ page, mem.pageFreeList = some page ∧ (mem.pages page).ppLink = none ∧
    (pgdir = page ∨ mem.ram pgdir (pdx va) = 0)

variable {mem next : PhysMem} {pgdir page : Nat} {va perm : UInt32} {r : Int}

theorem not_onFreeList (empty : mem.pageFreeList = none) :
    ¬ mem.OnFreeList page := by
  have linked : Linked (fun page => (mem.pages page).ppLink) mem.pageFreeList
      [] := empty
  unfold OnFreeList
  rw [linked.visited_iff]
  exact List.not_mem_nil

/-- There is no entry where there is no table. -/
theorem tableEntry_none (found : mem.tableEntry pgdir va = some (next, none)) :
    next = mem ∧ mem.ram pgdir (pdx va) = 0 := by
  unfold tableEntry at found
  dsimp only at found
  by_cases zero : mem.ram pgdir (pdx va) = 0
  · rw [if_pos zero] at found
    cases found
    exact ⟨rfl, zero⟩
  · rw [if_neg zero] at found
    by_cases valid : mem.Valid (pteFrame (mem.ram pgdir (pdx va)))
    · rw [if_pos valid] at found
      cases found
    · rw [if_neg valid] at found
      cases found

/-- `pgdir_walk` finds no entry only when it cannot make a table. -/
theorem pgdirWalk_none (walks : mem.pgdirWalk pgdir va true = some (next, none)) :
    next = mem ∧ mem.ram pgdir (pdx va) = 0 ∧ mem.pageFreeList = none := by
  unfold pgdirWalk at walks
  split at walks
  · rename_i creates
    unfold pageAlloc at walks
    cases head : mem.pageFreeList with
    | none =>
        rw [head] at walks
        cases walks
        exact ⟨rfl, creates.1, rfl⟩
    | some page =>
        rw [head] at walks
        have zero := (tableEntry_none walks).2
        rw [ram_store_self, pdeWord] at zero
        exact absurd zero (ne_zero_of_present (or_present pdeFlags.2 _))
  · rename_i keeps
    obtain ⟨same, zero⟩ := tableEntry_none walks
    exact absurd ⟨zero, rfl⟩ keeps

theorem pgdirWalk_dry (noTable : mem.ram pgdir (pdx va) = 0)
    (empty : mem.pageFreeList = none) :
    mem.pgdirWalk pgdir va true = some (mem, none) := by
  unfold pgdirWalk pageAlloc
  rw [if_pos ⟨noTable, rfl⟩, empty]

theorem pageInsert_fails
    (inserts : mem.pageInsert pgdir page va perm = some (next, r))
    (failed : r < 0) :
    next = mem ∧ mem.ram pgdir (pdx va) = 0 ∧ mem.pageFreeList = none := by
  unfold pageInsert at inserts
  obtain ⟨⟨walked, entry⟩, walks, rest⟩ := Option.bind_eq_some_iff.mp inserts
  cases entry with
  | none =>
      cases rest
      exact pgdirWalk_none walks
  | some pte =>
      obtain ⟨removed, _, same⟩ := Option.bind_eq_some_iff.mp rest
      cases same
      cases failed

theorem pageInsert_dry (noTable : mem.ram pgdir (pdx va) = 0)
    (empty : mem.pageFreeList = none) :
    mem.pageInsert pgdir page va perm = some (mem, -eNoMem) := by
  unfold pageInsert
  rw [pgdirWalk_dry noTable empty]
  rfl

end PhysMem

/-! ## `env_page_alloc` -/

/-- The free pages, every `pp_ref` and every mapping are the same. -/
structure Kernel.SamePages (kernel next : Kernel) : Prop where
  free : ∀ page, next.mem.OnFreeList page ↔ kernel.mem.OnFreeList page
  refs : ∀ page, (next.mem.pages page).ppRef = (kernel.mem.pages page).ppRef
  mappings : ∀ e va, next.lookupPage e va = kernel.lookupPage e va

/-- The environment `e` runs dry at `va`. -/
def Kernel.RunsDry (kernel : Kernel) (e : Nat) (va : UInt32) : Prop :=
  ∃ pgdir, (kernel.envs e).envPgdir = some pgdir ∧ kernel.mem.RunsDry pgdir va

variable {kernel next : Kernel} {e page : Nat} {va perm : UInt32} {r : Int}

theorem Kernel.SamePages.refl (kernel : Kernel) : kernel.SamePages kernel :=
  ⟨fun _ => Iff.rfl, fun _ => rfl, fun _ _ => rfl⟩

/-- A page that is gone from the free list. -/
theorem Kernel.RunsDry.not_samePages (dry : kernel.RunsDry e va)
    (empty : next.mem.pageFreeList = none) : ¬ kernel.SamePages next := by
  obtain ⟨_, _, page, head, _⟩ := dry
  intro same
  exact PhysMem.not_onFreeList empty ((same.free page).mpr (.head head))

theorem insertPage_run (e page : Nat) (va perm : UInt32) (kernel : Kernel) :
    insertPage e page va perm kernel =
      match (kernel.envs e).envPgdir with
      | none => .stops
      | some pgdir =>
          match kernel.mem.pageInsert pgdir page va perm with
          | none => .stops
          | some (mem, r) => .returns r (kernel.setMem mem) := by
  unfold insertPage onPgdir
  rw [read_bind_run]
  cases (kernel.envs e).envPgdir with
  | none => rfl
  | some pgdir =>
      unfold onMem
      dsimp only
      cases kernel.mem.pageInsert pgdir page va perm with
      | none => rfl
      | some inserted => rfl

/-- `page_alloc` in `env_page_alloc`. -/
theorem envPageAlloc_run (allowed : ¬ checkPerm perm < 0) (kernel : Kernel) :
    envPageAlloc e va perm kernel =
      match kernel.mem.pageAlloc true with
      | (mem, none) => .returns (-eNoMem) (kernel.setMem mem)
      | (mem, some page) => insertPage e page va perm (kernel.setMem mem) := by
  unfold envPageAlloc
  rw [if_neg allowed, bind_run]
  unfold onMem
  dsimp only
  cases kernel.mem.pageAlloc true with
  | mk mem found =>
      cases found with
      | none => rfl
      | some page => rfl

/-- An error changes nothing, except that the last free page is lost. -/
theorem envPageAlloc_fails
    (returns : envPageAlloc e va perm kernel = .returns r next)
    (failed : r < 0) :
    next = kernel ∧ (checkPerm perm < 0 ∨ kernel.mem.pageFreeList = none) ∨
      ¬ checkPerm perm < 0 ∧ kernel.RunsDry e va := by
  by_cases allowed : checkPerm perm < 0
  · unfold envPageAlloc at returns
    rw [if_pos allowed] at returns
    cases returns
    exact .inl ⟨rfl, .inl allowed⟩
  · rw [envPageAlloc_run allowed] at returns
    unfold PhysMem.pageAlloc at returns
    cases head : kernel.mem.pageFreeList with
    | none =>
        rw [head] at returns
        cases returns
        exact .inl ⟨rfl, .inr rfl⟩
    | some page =>
        right
        refine ⟨allowed, ?_⟩
        rw [head] at returns
        dsimp only at returns
        rw [insertPage_run] at returns
        dsimp only [Kernel.setMem] at returns
        cases isDir : (kernel.envs e).envPgdir with
        | none =>
            rw [isDir] at returns
            cases returns
        | some pgdir =>
            rw [isDir] at returns
            dsimp only at returns
            split at returns
            · cases returns
            · rename_i inserts
              cases returns
              obtain ⟨_, noTable, empty⟩ :=
                PhysMem.pageInsert_fails inserts failed
              refine ⟨pgdir, isDir, page, head, empty, ?_⟩
              by_cases same : pgdir = page
              · exact .inl same
              · right
                simpa [PhysMem.zeroPage, PhysMem.setPage, same] using noTable

/-- The last free page is lost. -/
theorem Kernel.RunsDry.envPageAlloc (dry : kernel.RunsDry e va)
    (allowed : ¬ checkPerm perm < 0) :
    Scheduler.envPageAlloc e va perm kernel =
        .returns (-eNoMem) (kernel.setMem (kernel.mem.pageAlloc true).1) ∧
      (kernel.mem.pageAlloc true).1.pageFreeList = none := by
  obtain ⟨pgdir, isDir, page, head, last, noTable⟩ := dry
  rw [envPageAlloc_run allowed]
  unfold PhysMem.pageAlloc
  rw [head]
  dsimp only
  rw [insertPage_run]
  dsimp only [Kernel.setMem]
  rw [isDir]
  dsimp only
  rw [PhysMem.pageInsert_dry]
  · exact ⟨rfl, last⟩
  · rcases noTable with same | zero
    · simp [PhysMem.zeroPage, PhysMem.setPage, same]
    · by_cases same : pgdir = page
      · simp [PhysMem.zeroPage, PhysMem.setPage, same]
      · simpa [PhysMem.zeroPage, PhysMem.setPage, same] using zero
  · exact last

/-! ## `sys_page_alloc` -/

/-- A call that returns an error leaves the pages as they are. -/
def FailsCleanly (call : KernelM Int) (kernel : Kernel) : Prop :=
  ∀ r next, call kernel = .returns r next → r < 0 → kernel.SamePages next

/-- `sys_page_alloc` takes the last free page in vain: its arguments are
accepted, and the target has no table for `va`. -/
def Kernel.LosesPage (kernel : Kernel) (cpu : Nat) (envid va perm : UInt32) :
    Prop :=
  UserPage va ∧ ¬ checkPerm (perm ||| pteU ||| pteP) < 0 ∧
    ∃ e, kernel.Finds cpu envid true e ∧ kernel.RunsDry e va

theorem lookupEnv_run (cpu : Nat) (envid : UInt32) (checkperm : Bool)
    (kernel : Kernel) :
    lookupEnv cpu envid checkperm kernel =
      match envid2env cpu envid checkperm kernel with
      | .error code => .returns (.error code) kernel
      | .ok none => .stops
      | .ok (some e) => .returns (.ok e) kernel := by
  unfold lookupEnv
  rw [read_bind_run]
  cases envid2env cpu envid checkperm kernel with
  | error code => rfl
  | ok found =>
      cases found with
      | none => rfl
      | some e => rfl

theorem sysPageAlloc_run {cpu : Nat} {envid : UInt32} (user : UserPage va)
    (finds : kernel.Finds cpu envid true e) :
    sysPageAlloc cpu envid va perm kernel =
      envPageAlloc e va (perm ||| pteU ||| pteP) kernel := by
  unfold sysPageAlloc
  rw [if_neg (not_not_intro user), bind_run, lookupEnv_run]
  rw [Kernel.Finds] at finds
  rw [finds]

/-- An error of `sys_page_alloc` is one of its checks or one of
`env_page_alloc`. -/
theorem sysPageAlloc_fails {cpu : Nat} {envid : UInt32}
    (returns : sysPageAlloc cpu envid va perm kernel = .returns r next)
    (failed : r < 0) : next = kernel ∨ kernel.LosesPage cpu envid va perm := by
  by_cases user : UserPage va
  · cases found : envid2env cpu envid true kernel with
    | error code =>
        unfold sysPageAlloc at returns
        rw [if_neg (not_not_intro user), bind_run, lookupEnv_run, found]
          at returns
        cases returns
        exact .inl rfl
    | ok e =>
        cases e with
        | none =>
            unfold sysPageAlloc at returns
            rw [if_neg (not_not_intro user), bind_run, lookupEnv_run, found]
              at returns
            cases returns
        | some e =>
            rw [sysPageAlloc_run user found] at returns
            rcases envPageAlloc_fails returns failed with ⟨same, _⟩ | ⟨allowed, dry⟩
            · exact .inl same
            · exact .inr ⟨user, allowed, e, found, dry⟩
  · unfold sysPageAlloc at returns
    rw [if_pos user] at returns
    cases returns
    exact .inl rfl

theorem Kernel.LosesPage.not_failsCleanly {cpu : Nat} {envid : UInt32}
    (loses : kernel.LosesPage cpu envid va perm) :
    ¬ FailsCleanly (sysPageAlloc cpu envid va perm) kernel := by
  obtain ⟨user, allowed, e, finds, dry⟩ := loses
  obtain ⟨returns, empty⟩ := dry.envPageAlloc allowed
  intro cleanly
  rw [← sysPageAlloc_run user finds] at returns
  exact dry.not_samePages empty (cleanly _ _ returns (by decide))

/-- A failed `sys_page_alloc` leaks nothing, unless it takes the last free page
in vain. -/
theorem sysPageAlloc_failsCleanly_iff (cpu : Nat) (envid va perm : UInt32)
    (kernel : Kernel) :
    FailsCleanly (sysPageAlloc cpu envid va perm) kernel ↔
      ¬ kernel.LosesPage cpu envid va perm := by
  constructor
  · intro cleanly loses
    exact loses.not_failsCleanly cleanly
  · intro keeps r next returns failed
    rcases sysPageAlloc_fails returns failed with same | loses
    · rw [same]
      exact .refl kernel
    · exact absurd loses keeps

/-- A machine whose only environment leaves one page free. -/
def tightEnv : Kernel :=
  match envCreate 0 0 [] (Kernel.initial (.plain 6) 1) with
  | .returns _ kernel => kernel
  | _ => Kernel.initial (.plain 6) 1

/-- The environment asks for the last free page at an address without a table. -/
theorem not_failsCleanly :
    ¬ ∀ (cpu : Nat) (envid va perm : UInt32) (kernel : Kernel),
      FailsCleanly (sysPageAlloc cpu envid va perm) kernel := by
  intro cleanly
  have loses : ((TrapEvent.wake 0).after .roundRobin tightEnv).LosesPage 0 0
      0x1000 7 := by
    refine ⟨by decide, by decide, 0, ?_, 2, by decide +kernel, 5,
      by decide +kernel, by decide +kernel, .inr ?_⟩
    · exact (if_pos rfl).trans (congrArg Except.ok (by decide +kernel))
    · decide +kernel
  exact loses.not_failsCleanly (cleanly _ _ _ _ _)

end FeaturesOS.Scheduler

import FeaturesOS.Sharing
import FeaturesOS.Scheduler.PageCopies

/-!
# The entries that the page calls change

A call of a program for its pages changes the entries of a few addresses.  All
other entries stay, and what they map keeps its contents.
-/

namespace FeaturesOS.Scheduler

open Entry

/-- An environment with the position of an entry in its tables. -/
abbrev Slot := Fin nenv × Fin userTables × Fin nptEntries

def Slot.holder (slot : Slot) : Holder := .pte slot.1 slot.2.1 slot.2.2

theorem ptx_lt (va : UInt32) : ptx va < 1024 := Nat.mod_lt _ (by decide)

def slotAt (e : Fin nenv) {va : UInt32} (user : va < utop) : Slot :=
  (e, ⟨pdx va, pdx_lt_userTables user⟩, ⟨ptx va, ptx_lt va⟩)

theorem holder_injective : Function.Injective Slot.holder := by
  rintro ⟨e, i, j⟩ ⟨f, k, l⟩ same
  cases same
  rfl

def Kernel.entry (kernel : Kernel) (slot : Slot) : UInt32 :=
  kernel.mem.word kernel.spaces.dirs slot.holder

/-- Nothing but these entries has changed, as far as programs can tell. -/
structure Kernel.Changes (pool : List Nat) (kernel next : Kernel)
    (slots : Set Slot) : Prop where
  sound : SoundAt pool next
  envs : next.envs = kernel.envs
  cpus : next.cpus = kernel.cpus
  entries : ∀ x, x ∉ slots → next.entry x = kernel.entry x
  contents : ∀ x, x ∉ slots → ∀ page, frameOf (kernel.entry x) = some page →
    next.mem.ram page = kernel.mem.ram page
  upper : ∀ (e : Fin nenv) d i, (kernel.envs e).envPgdir = some d →
    userTables ≤ i → next.mem.ram d i = kernel.mem.ram d i
  tables : ∀ (e : Fin nenv) d (i : Fin userTables),
    (kernel.envs e).envPgdir = some d →
    next.mem.ram d i = kernel.mem.ram d i ∨
      PhysMem.TableRights (next.mem.ram d i)

variable {pool free : List Nat} {kernel middle next : Kernel}
variable {slots others : Set Slot} {mem : PhysMem} {cpu e d page : Nat}
variable {va srcva dstva perm envid : UInt32} {r : Int}

theorem Kernel.Changes.refl (sound : SoundAt pool kernel) :
    kernel.Changes pool kernel slots :=
  ⟨sound, rfl, rfl, fun _ _ => rfl, fun _ _ _ _ => rfl, fun _ _ _ _ _ => rfl,
    fun _ _ _ _ => .inl rfl⟩

theorem Kernel.Changes.trans (first : kernel.Changes pool middle slots)
    (second : middle.Changes pool next others) :
    kernel.Changes pool next (slots ∪ others) where
  sound := second.sound
  envs := second.envs.trans first.envs
  cpus := second.cpus.trans first.cpus
  entries x outside := by
    rw [Set.mem_union, not_or] at outside
    exact (second.entries x outside.2).trans (first.entries x outside.1)
  contents x outside page names := by
    rw [Set.mem_union, not_or] at outside
    have before := first.contents x outside.1 page names
    rw [← first.entries x outside.1] at names
    exact (second.contents x outside.2 page names).trans before
  upper f d' i isDir above := by
    have before := first.upper f d' i isDir above
    rw [← first.envs] at isDir
    exact (second.upper f d' i isDir above).trans before
  tables f d' i isDir := by
    have before := first.tables f d' i isDir
    rw [← first.envs] at isDir
    rcases second.tables f d' i isDir with same | rights
    · rw [same]
      exact before
    · exact .inr rights

theorem Kernel.Changes.mono (changes : kernel.Changes pool next slots)
    (more : slots ⊆ others) : kernel.Changes pool next others where
  sound := changes.sound
  envs := changes.envs
  cpus := changes.cpus
  entries x outside := changes.entries x fun inside => outside (more inside)
  contents x outside :=
    changes.contents x fun inside => outside (more inside)
  upper := changes.upper
  tables := changes.tables

/-- What a sound memory with other entries changes. -/
theorem SoundAt.changes {free' : List Nat} (sound : SoundAt pool kernel)
    (accounted : kernel.mem.Accounted pool free kernel.spaces.dirs)
    (accounted' : mem.Accounted pool free' kernel.spaces.dirs)
    (separate' : mem.Separate kernel.spaces.dirs)
    (outside : kernel.mem.Outside mem pool kernel.spaces.dirs)
    (kept : kernel.mem.Kept mem free kernel.spaces.dirs)
    (entries : ∀ x : Slot, x ∉ slots → mem.word kernel.spaces.dirs x.holder =
      kernel.mem.word kernel.spaces.dirs x.holder) :
    kernel.Changes pool (kernel.setMem mem) slots where
  sound := sound.setMem accounted' separate' outside
  envs := rfl
  cpus := rfl
  entries := entries
  contents x _ page names := by
    have refers : kernel.mem.holds kernel.spaces.dirs x.holder = some page :=
      names
    exact kept.contents page (accounted.notFree refers)
      (sound.separate _ _ _ page refers)
  upper f d' i isDir := outside.upper f d' i isDir
  tables f d' i isDir := kept.tables f d' i isDir

/-! ## `sys_page_alloc` -/

theorem PhysMem.Kept.trans_alloc {allocated next : PhysMem}
    {dirs : Nat → Option Nat} {zero : Bool} {mem : PhysMem} {page : Nat}
    (accounted : mem.Accounted pool free dirs)
    (taken : mem.pageAlloc zero = (allocated, some page)) {rest : List Nat}
    (isFree : free = page :: rest)
    (word : allocated.word dirs = mem.word dirs)
    (second : allocated.Kept next rest dirs) : mem.Kept next free dirs := by
  have first := accounted.pageAlloc_kept taken
  refine ⟨?_, ?_⟩
  · intro other busy plain
    rw [isFree, List.mem_cons, not_or] at busy
    have before := first.contents other (by simpa [isFree] using busy) plain
    rw [← PhysMem.holds_congr word] at plain
    exact (second.contents other busy.2 plain).trans before
  · intro f d i isDir
    rcases second.tables f d i isDir with same | rights
    · rw [same]
      exact first.tables f d i isDir
    · exact .inr rights

/-- A page that was free is mapped, or there is no table for it. -/
theorem SoundAt.insertFresh_changes {allocated : PhysMem}
    (sound : SoundAt pool kernel) (below : e < nenv) (user : va < utop)
    (within : perm.toNat < 4096)
    (taken : kernel.mem.pageAlloc true = (allocated, some page))
    (inserts : insertPage e page va perm (kernel.setMem allocated) =
      .returns r next) :
    r < 0 ∧ kernel.Changes pool next ∅ ∨
      r = 0 ∧ (∀ x, frameOf (kernel.entry x) ≠ some page) ∧
        kernel.Changes pool next {slotAt ⟨e, below⟩ user} ∧
        next.entry (slotAt ⟨e, below⟩ user) = page2pa page ||| perm ||| pteP ∧
        frameOf (next.entry (slotAt ⟨e, below⟩ user)) = some page := by
  obtain ⟨free, accounted⟩ := sound.accounted
  have accounted' : kernel.mem.Accounted pool free kernel.spaces.dirs :=
    accounted
  rw [insertPage_run] at inserts
  dsimp only [Kernel.setMem] at inserts
  cases isDir : (kernel.envs e).envPgdir with
  | none =>
      rw [isDir] at inserts
      cases inserts
  | some d =>
      rw [isDir] at inserts
      dsimp only at inserts
      obtain ⟨rest, isFree, isPooled, busy, after, word, outside⟩ :=
        accounted'.pageAlloc taken
      have separate : allocated.Separate kernel.spaces.dirs := by
        unfold PhysMem.Separate
        rw [PhysMem.holds_congr word]
        exact sound.separate
      rcases @PhysMem.Accounted.supply _ _ _ _ _ ⟨e, below⟩ _ _ _ _ accounted'
        sound.separate isDir user within _ taken with
        fails | ⟨mem, free', maps, supplied⟩
      · rw [fails] at inserts
        cases inserts
        exact .inl ⟨by decide, sound.changes accounted' after separate outside
          (accounted'.pageAlloc_kept taken) fun x _ => congrFun word x.holder⟩
      · rw [maps] at inserts
        cases inserts
        have kept := PhysMem.Kept.trans_alloc accounted' taken isFree word
          (@PhysMem.Accounted.pageInsert_kept _ _ _ _ _ ⟨e, below⟩ _ _ _ _ _
            after isDir user maps)
        have changes : kernel.Changes pool (kernel.setMem mem)
            {slotAt ⟨e, below⟩ user} := by
          refine sound.changes accounted' supplied.accounted supplied.separate
            supplied.outside kept fun x other => ?_
          exact supplied.others _ _ _ fun same => other (holder_injective same)
        refine .inr ⟨rfl, ?_, changes, supplied.word, supplied.holds⟩
        intro x names
        have refers : kernel.mem.holds kernel.spaces.dirs x.holder =
          some page := names
        exact accounted'.unreferenced (isFree ▸ List.mem_cons_self) x.holder
          refers

/-- `env_page_alloc` fails without changing an entry, or it maps a page that was
free. -/
theorem SoundAt.envPageAlloc_changes (sound : SoundAt pool kernel)
    (below : e < nenv) (user : va < utop)
    (allocates : Scheduler.envPageAlloc e va perm kernel = .returns r next) :
    r < 0 ∧ kernel.Changes pool next ∅ ∨
      r = 0 ∧ ∃ page, (∀ x, frameOf (kernel.entry x) ≠ some page) ∧
        kernel.Changes pool next {slotAt ⟨e, below⟩ user} ∧
        next.entry (slotAt ⟨e, below⟩ user) = page2pa page ||| perm ||| pteP ∧
        frameOf (next.entry (slotAt ⟨e, below⟩ user)) = some page := by
  by_cases allowed : checkPerm perm < 0
  · unfold Scheduler.envPageAlloc at allocates
    rw [if_pos allowed] at allocates
    cases allocates
    exact .inl ⟨allowed, .refl sound⟩
  · rw [envPageAlloc_run allowed] at allocates
    cases taken : kernel.mem.pageAlloc true with
    | mk allocated found =>
        rw [taken] at allocates
        cases found with
        | none =>
            obtain ⟨free, accounted⟩ := sound.accounted
            have accounted' : kernel.mem.Accounted pool free
              kernel.spaces.dirs := accounted
            have same := accounted'.books.pageAlloc true
            rw [taken] at same
            cases allocates
            rw [same.1]
            exact .inl ⟨by decide, .refl sound⟩
        | some page =>
            rcases sound.insertFresh_changes below user
              (checkPerm_within allowed).lt taken allocates with
              failed | ⟨returned, mapped⟩
            · exact .inl failed
            · exact .inr ⟨returned, page, mapped⟩

/-- `lookupEnv` finds the environment or returns an error. -/
theorem lookupEnv_returns {found : Except Int Nat}
    (looks : lookupEnv cpu envid true kernel = .returns found next) :
    next = kernel ∧ ((∃ code, found = .error code ∧ code < 0) ∨
      ∃ e, found = .ok e ∧ kernel.Finds cpu envid true e) := by
  rw [lookupEnv_run] at looks
  cases outcome : envid2env cpu envid true kernel with
  | error code =>
      rw [outcome] at looks
      cases looks
      have negative : -eBadEnv < 0 := by decide
      exact ⟨rfl, .inl ⟨code, rfl, envid2env_error outcome ▸ negative⟩⟩
  | ok e =>
      rw [outcome] at looks
      cases e with
      | none => cases looks
      | some e =>
          cases looks
          exact ⟨rfl, .inr ⟨e, rfl, outcome⟩⟩

theorem SoundAt.sysPageAlloc_changes (sound : SoundAt pool kernel)
    (below : e < nenv)
    (finds : ∀ f, kernel.Finds cpu envid true f → f = e) (user : UserPage va)
    (allocates : sysPageAlloc cpu envid va perm kernel = .returns r next) :
    r < 0 ∧ kernel.Changes pool next ∅ ∨
      r = 0 ∧ ∃ page, (∀ x, frameOf (kernel.entry x) ≠ some page) ∧
        kernel.Changes pool next {slotAt ⟨e, below⟩ user.1} ∧
        next.entry (slotAt ⟨e, below⟩ user.1) =
          page2pa page ||| (perm ||| pteU ||| pteP) ||| pteP ∧
        frameOf (next.entry (slotAt ⟨e, below⟩ user.1)) = some page := by
  unfold Scheduler.sysPageAlloc at allocates
  rw [if_neg (not_not_intro user), bind_run] at allocates
  split at allocates
  · rename_i found middle looks
    obtain ⟨rfl, ⟨code, rfl, failed⟩ | ⟨f, rfl, found⟩⟩ :=
      lookupEnv_returns looks
    · cases allocates
      exact .inl ⟨failed, .refl sound⟩
    · cases finds f found
      exact sound.envPageAlloc_changes below user.1 allocates
  · cases allocates
  · cases allocates

/-! ## `sys_page_map` -/

theorem entry_of_lookupPage (sound : SoundAt pool kernel) (below : e < nenv)
    (user : va < utop) {pte : UInt32}
    (found : kernel.lookupPage e va = some (some (page, pte))) :
    kernel.entry (slotAt ⟨e, below⟩ user) = pte ∧
      frameOf (kernel.entry (slotAt ⟨e, below⟩ user)) = some page := by
  cases isDir : (kernel.envs e).envPgdir with
  | none =>
      unfold Kernel.lookupPage at found
      rw [isDir] at found
      cases found
  | some d =>
      obtain ⟨_, looks⟩ := sound.lookupPage isDir user
      rw [looks, Option.some.injEq] at found
      obtain ⟨page', refers, same⟩ := Option.map_eq_some_iff.mp found
      cases same
      exact ⟨rfl, refers⟩

/-- A page that is mapped is mapped elsewhere, or there is no table for it. -/
theorem SoundAt.insertPage_changes {src dst : Nat} {srcpte : UInt32}
    (sound : SoundAt pool kernel) (srcUser : srcva < utop)
    (found : kernel.lookupPage src srcva = some (some (page, srcpte)))
    (below : dst < nenv) (user : dstva < utop) (low : perm.toNat < 4096)
    (fits : ¬ kernel.Wraps dst page dstva)
    (inserts : insertPage dst page dstva perm kernel = .returns r next) :
    r < 0 ∧ next = kernel ∨
      r = 0 ∧ kernel.Changes pool next {slotAt ⟨dst, below⟩ user} ∧
        next.entry (slotAt ⟨dst, below⟩ user) =
          page2pa page ||| perm ||| pteP ∧
        frameOf (next.entry (slotAt ⟨dst, below⟩ user)) = some page := by
  obtain ⟨free, accounted⟩ := sound.accounted
  have accounted' : kernel.mem.Accounted pool free kernel.spaces.dirs :=
    accounted
  rw [insertPage_run] at inserts
  cases isDst : (kernel.envs dst).envPgdir with
  | none =>
      rw [isDst] at inserts
      cases inserts
  | some d =>
      have isDst' : kernel.spaces.dirs (⟨dst, below⟩ : Fin nenv) = some d :=
        isDst
      rw [isDst] at inserts
      dsimp only at inserts
      have isFull := accounted'.noEntry_iff isDst' user
      by_cases full : kernel.mem.entryAt kernel.spaces.dirs ⟨dst, below⟩ user =
          none ∧ free = []
      · rw [accounted'.pageInsert_full isDst' full.1 full.2] at inserts
        cases inserts
        exact .inl ⟨by decide, rfl⟩
      · have mappable := sound.mappable srcUser user isDst found
          fun isLast => by
            by_contra notMapped
            refine fits ⟨d, isDst, isLast, notMapped, ?_⟩
            by_contra neither
            rw [not_or, not_not, not_not] at neither
            exact full (isFull.mpr neither)
        have busy : page ∉ free := fun member =>
          mappable.busy (accounted'.books.onFreeList_iff.mpr member)
        obtain ⟨walked, mem, free', maps, inserted⟩ :=
          accounted'.pageInsert isDst' user mappable.isPooled busy low full
        rw [maps] at inserts
        cases inserts
        have room : references (kernel.mem.holds kernel.spaces.dirs) page + 1 <
              2 ^ 16 ∨
            kernel.mem.holds kernel.spaces.dirs (.pteAt ⟨dst, below⟩ user) =
              some page := by
          rcases mappable.room with room | ⟨_, _, already⟩
          · exact .inl room
          · exact .inr already
        have changes : kernel.Changes pool (kernel.setMem mem)
            {slotAt ⟨dst, below⟩ user} := by
          refine sound.changes accounted'
            (inserted.accounted accounted' busy room)
            (inserted.separate accounted' sound.separate busy mappable.plain)
            inserted.outside (accounted'.pageInsert_kept isDst' user maps)
            fun x other => ?_
          exact inserted.word_pte fun same => other (holder_injective same)
        have word : (kernel.setMem mem).entry (slotAt ⟨dst, below⟩ user) =
            page2pa page ||| perm ||| pteP := by
          have there := congrFun inserted.entered.word
            (.pteAt ⟨dst, below⟩ user)
          rwa [Function.update_self] at there
        refine .inr ⟨rfl, changes, word, ?_⟩
        rw [word]
        exact inserted.frame

/-- `env_page_map` fails without an effect, or it maps the page of the source
entry. -/
theorem SoundAt.envPageMap_changes {src dst : Nat}
    (sound : SoundAt pool kernel) (srcBelow : src < nenv)
    (srcUser : srcva < utop) (below : dst < nenv) (dstUser : dstva < utop)
    (low : perm.toNat < 4096)
    (fits : ∀ page, kernel.Shares src srcva perm page →
      ¬ kernel.Wraps dst page dstva)
    (maps : envPageMap src srcva dst dstva perm kernel = .returns r next) :
    r < 0 ∧ next = kernel ∨
      r = 0 ∧ ∃ page,
        frameOf (kernel.entry (slotAt ⟨src, srcBelow⟩ srcUser)) = some page ∧
        kernel.Changes pool next {slotAt ⟨dst, below⟩ dstUser} ∧
        next.entry (slotAt ⟨dst, below⟩ dstUser) =
          page2pa page ||| perm ||| pteP ∧
        frameOf (next.entry (slotAt ⟨dst, below⟩ dstUser)) = some page := by
  rw [envPageMap_run] at maps
  split at maps
  · cases maps
  · cases maps
    exact .inl ⟨by decide, rfl⟩
  · rename_i page srcpte found
    split at maps
    · cases maps
      exact .inl ⟨by decide, rfl⟩
    · rename_i granted
      have held := (entry_of_lookupPage sound srcBelow srcUser found).2
      rcases sound.insertPage_changes srcUser found below dstUser low
        (fits page ⟨srcpte, found, not_not.mp granted⟩) maps with
        failed | ⟨returned, mapped⟩
      · exact .inl failed
      · exact .inr ⟨returned, page, held, mapped⟩

theorem SoundAt.sysPageMap_changes {dst : Nat} (sound : SoundAt pool kernel)
    (isCurrent : kernel.cpus cpu = some e) (srcBelow : e < nenv)
    (srcUser : UserPage srcva) (below : dst < nenv)
    (finds : ∀ f, kernel.Finds cpu envid true f → f = dst)
    (dstUser : UserPage dstva) (low : perm.toNat < 4096)
    (fits : ∀ page, kernel.MapsPage cpu 0 srcva envid dstva perm dst page →
      ¬ kernel.Wraps dst page dstva)
    (maps : sysPageMap cpu 0 srcva envid dstva perm kernel = .returns r next) :
    r < 0 ∧ next = kernel ∨
      r = 0 ∧ ∃ page,
        frameOf (kernel.entry (slotAt ⟨e, srcBelow⟩ srcUser.1)) = some page ∧
        kernel.Changes pool next {slotAt ⟨dst, below⟩ dstUser.1} ∧
        next.entry (slotAt ⟨dst, below⟩ dstUser.1) =
          page2pa page ||| (pteP ||| pteU ||| perm) ||| pteP ∧
        frameOf (next.entry (slotAt ⟨dst, below⟩ dstUser.1)) = some page := by
  have findsSrc := finds_self isCurrent
  unfold Scheduler.sysPageMap at maps
  rw [if_neg (not_not_intro srcUser), if_neg (not_not_intro dstUser), bind_run,
    lookupEnv_run] at maps
  rw [Kernel.Finds] at findsSrc
  rw [findsSrc] at maps
  dsimp only at maps
  rw [bind_run] at maps
  split at maps
  · rename_i found middle looks
    obtain ⟨rfl, ⟨code, rfl, failed⟩ | ⟨f, rfl, found⟩⟩ :=
      lookupEnv_returns looks
    · cases maps
      exact .inl ⟨failed, rfl⟩
    · cases finds f found
      have lowFlags : (pteP ||| pteU ||| perm).toNat < 4096 := by
        rw [UInt32.toNat_or]
        exact @Nat.or_lt_two_pow _ _ 12 (by decide) low
      refine sound.envPageMap_changes srcBelow srcUser.1 below dstUser.1
        lowFlags ?_ maps
      intro page shares
      exact fits page ⟨srcUser, dstUser, found, e, findsSrc, shares⟩
  · cases maps
  · cases maps

/-! ## `sys_page_unmap` -/

theorem SoundAt.sysPageUnmap_changes (sound : SoundAt pool kernel)
    (isCurrent : kernel.cpus cpu = some e) (below : e < nenv)
    (user : UserPage va)
    (unmaps : sysPageUnmap cpu 0 va kernel = .returns r next) :
    kernel.Changes pool next {slotAt ⟨e, below⟩ user.1} ∧
      next.entry (slotAt ⟨e, below⟩ user.1) = 0 := by
  have finds := finds_self isCurrent
  obtain ⟨free, accounted⟩ := sound.accounted
  have accounted' : kernel.mem.Accounted pool free kernel.spaces.dirs :=
    accounted
  rw [Kernel.Finds] at finds
  unfold Scheduler.sysPageUnmap at unmaps
  rw [if_neg (not_not_intro user), bind_run, lookupEnv_run, finds] at unmaps
  dsimp only at unmaps
  unfold onPgdir onMem at unmaps
  rw [bind_assoc, read_bind_run] at unmaps
  cases isDir : (kernel.envs e).envPgdir with
  | none =>
      rw [isDir] at unmaps
      cases unmaps
  | some d =>
      have isDir' : kernel.spaces.dirs (⟨e, below⟩ : Fin nenv) = some d := isDir
      obtain ⟨mem, removes, clears, word⟩ :=
        accounted'.pageRemove isDir' user.1
      rw [isDir, bind_run] at unmaps
      dsimp only at unmaps
      rw [removes] at unmaps
      cases unmaps
      obtain ⟨free', after⟩ := clears.accounted
      refine ⟨sound.changes accounted' after (clears.separate sound.separate)
        clears.outside (accounted'.pageRemove_kept isDir' user.1 removes)
        fun x other => ?_, ?_⟩
      · rw [word, Function.update_of_ne]
        exact fun same => other (holder_injective same)
      · change mem.word kernel.spaces.dirs (.pteAt ⟨e, below⟩ user.1) = 0
        rw [word, Function.update_self]

end FeaturesOS.Scheduler

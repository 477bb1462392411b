import FeaturesOS.Scheduler.AddressSpaces
import FeaturesOS.Scheduler.Bystanders

/-!
# The address spaces of the kernel

What the accounts of the pages have to do with the environments: every
environment in use has its own directory, and those on the free list have none.
-/

namespace FeaturesOS.Scheduler

namespace PhysMem

variable {mem next : PhysMem} {dirs dirs' : Nat → Option Nat}
variable {pool free free' : List Nat} {e : Fin nenv} {i : Fin userTables}
variable {d t page pgdir : Nat} {va : UInt32} {user : va < utop}

/-- No table entry refers to a directory or to a table. -/
def Separate (mem : PhysMem) (dirs : Nat → Option Nat) : Prop :=
  ∀ e i j page, mem.holds dirs (.pte e i j) = some page →
    ∀ holder, holder.IsContainer → mem.holds dirs holder ≠ some page

/-- References only go. -/
theorem Separate.mono (separate : mem.Separate dirs)
    (fewer : ∀ holder page, next.holds dirs' holder = some page →
      mem.holds dirs holder = some page) : next.Separate dirs' := by
  intro e i j page refers holder container contains
  exact separate e i j page (fewer _ _ refers) holder container
    (fewer _ _ contains)

/-- A page to which nothing refers becomes a directory or a table. -/
theorem Separate.setContainer {holder : Holder} (separate : mem.Separate dirs)
    (container : holder.IsContainer)
    (holds : next.holds dirs' =
      Function.update (mem.holds dirs) holder (some t))
    (unreferenced : ∀ holder, mem.holds dirs holder ≠ some t) :
    next.Separate dirs' := by
  intro e i j page refers other isContainer contains
  have notSelf : (.pte e i j : Holder) ≠ holder := by
    rintro rfl
    exact container
  rw [holds, Function.update_of_ne notSelf] at refers
  rw [holds] at contains
  by_cases same : other = holder
  · subst same
    rw [Function.update_self] at contains
    cases contains
    exact unreferenced _ refers
  · rw [Function.update_of_ne same] at contains
    exact separate e i j page refers other isContainer contains

/-- A page that is no directory and no table is mapped. -/
theorem Separate.setPte (separate : mem.Separate dirs) {j : Fin nptEntries}
    (holds : next.holds dirs =
      Function.update (mem.holds dirs) (.pte e i j) (some page))
    (plain : ∀ holder, holder.IsContainer → mem.holds dirs holder ≠ some page) :
    next.Separate dirs := by
  intro f k l other refers holder container contains
  have notSelf : holder ≠ .pte e i j := by
    rintro rfl
    exact container
  rw [holds, Function.update_of_ne notSelf] at contains
  rw [holds] at refers
  by_cases same : (.pte f k l : Holder) = .pte e i j
  · rw [same, Function.update_self] at refers
    cases refers
    exact plain holder container contains
  · rw [Function.update_of_ne same] at refers
    exact separate f k l other refers holder container contains

theorem Walk.separate (walk : Walk mem pool free dirs e i next free')
    (accounted : mem.Accounted pool free dirs) (separate : mem.Separate dirs) :
    next.Separate dirs := by
  cases walk with
  | stays => exact separate
  | adds added =>
      have member := added.isFree ▸ List.mem_cons_self
      have container : (Holder.pde e i).IsContainer := trivial
      exact separate.setContainer container added.holds
        (accounted.unreferenced member)

/-- A page in use that held nothing holds nothing after a walk. -/
theorem Walk.plain (walk : Walk mem pool free dirs e i next free')
    (busy : page ∉ free)
    (plain : ∀ holder, holder.IsContainer → mem.holds dirs holder ≠ some page)
    (holder : Holder) (container : holder.IsContainer) :
    next.holds dirs holder ≠ some page := by
  cases walk with
  | stays => exact plain holder container
  | @adds _ _ t added =>
      rw [added.holds]
      by_cases same : holder = .pde e i
      · subst same
        rw [Function.update_self]
        intro isPage
        cases isPage
        exact busy (added.isFree ▸ List.mem_cons_self)
      · rw [Function.update_of_ne same]
        exact plain holder container

theorem Inserted.separate {walked : PhysMem} {entry : UInt32}
    (inserted : Inserted mem walked next pool free free' dirs e user page entry)
    (accounted : mem.Accounted pool free dirs) (separate : mem.Separate dirs)
    (busy : page ∉ free)
    (plain : ∀ holder, holder.IsContainer → mem.holds dirs holder ≠ some page) :
    next.Separate dirs := by
  obtain ⟨_, walk, _⟩ := inserted.walk
  exact (walk.separate accounted separate).setPte inserted.holds
    (walk.plain busy plain)

/-- Entries are cleared, and directories go. -/
theorem holds_of_cleared
    (word : ∀ holder, next.word dirs' holder = mem.word dirs holder ∨
      next.word dirs' holder = 0)
    (dir : ∀ e : Fin nenv, dirs' e = dirs e ∨ dirs' e = none) (holder : Holder)
    (refers : next.holds dirs' holder = some page) :
    mem.holds dirs holder = some page := by
  cases holder with
  | pgdir f =>
      rcases dir f with same | none
      · exact same.symm.trans refers
      · cases none.symm.trans refers
  | pde f k =>
      rcases word (.pde f k) with same | zero
      · exact (congrArg frameOf same).symm.trans refers
      · cases (congrArg frameOf zero).symm.trans refers
  | pte f k l =>
      rcases word (.pte f k l) with same | zero
      · exact (congrArg frameOf same).symm.trans refers
      · cases (congrArg frameOf zero).symm.trans refers

theorem Clears.separate (clears : Clears mem next pool dirs e)
    (separate : mem.Separate dirs) : next.Separate dirs :=
  separate.mono fun holder _ =>
    holds_of_cleared clears.word (fun _ => .inl rfl) holder

theorem Freed.separate (freed : Freed mem next pool dirs e)
    (separate : mem.Separate dirs) :
    next.Separate (Function.update dirs e none) := by
  apply separate.mono
  intro holder page
  apply holds_of_cleared freed.word
  intro f
  by_cases same : (f : Nat) = e
  · rw [same]
    exact .inr (Function.update_self _ _ _)
  · exact .inl (Function.update_of_ne same _ _)

theorem Founded.separate (founded : Founded mem next pool free free' dirs e d)
    (accounted : mem.Accounted pool free dirs) (separate : mem.Separate dirs) :
    next.Separate (Function.update dirs e (some d)) := by
  have container : (Holder.pgdir e).IsContainer := trivial
  have member : d ∈ free := founded.isFree ▸ List.mem_cons_self
  exact separate.setContainer container founded.holds
    (accounted.unreferenced member)

/-! ## Stores into user pages -/

/-- The contents of the pages that hold neither a directory nor a table. -/
structure Written (mem next : PhysMem) (pool free : List Nat)
    (dirs : Nat → Option Nat) : Prop where
  accounted : next.Accounted pool free dirs
  word : next.word dirs = mem.word dirs
  outside : Outside mem next pool dirs

theorem Written.refl (accounted : mem.Accounted pool free dirs) :
    Written mem mem pool free dirs :=
  ⟨accounted, rfl, .refl _ _ _⟩

theorem Written.trans {last : PhysMem} (first : Written mem next pool free dirs)
    (second : Written next last pool free dirs) :
    Written mem last pool free dirs :=
  ⟨second.accounted, second.word.trans first.word,
    first.outside.trans second.outside⟩

theorem Written.separate (written : Written mem next pool free dirs)
    (separate : mem.Separate dirs) : next.Separate dirs := by
  unfold Separate
  rw [holds_congr written.word]
  exact separate

theorem Accounted.storeByte (accounted : mem.Accounted pool free dirs)
    (separate : mem.Separate dirs) (isDir : dirs e = some pgdir)
    (user : va < utop) {byte : UInt8}
    (stores : mem.storeByte pgdir va byte = some next) :
    Written mem next pool free dirs := by
  unfold PhysMem.storeByte at stores
  dsimp only at stores
  split at stores
  · rename_i granted
    have isTable : mem.holds dirs (.pdeAt e user) =
        some (pteFrame (mem.ram pgdir (pdx va))) := by
      rw [mem.holds_pdeAt isDir user]
      exact if_neg (ne_zero_of_present granted.1)
    have isWord : mem.word dirs (.pteAt e user) =
        mem.ram (pteFrame (mem.ram pgdir (pdx va))) (ptx va) := by
      rw [Holder.pdeAt, holds_pde isDir] at isTable
      exact word_pte isDir isTable
    have refers : mem.holds dirs (.pteAt e user) = some (pteFrame
        (mem.ram (pteFrame (mem.ram pgdir (pdx va))) (ptx va))) := by
      rw [← isWord]
      exact if_neg (ne_zero_of_present (isWord ▸ granted.2.1))
    generalize pteFrame (mem.ram (pteFrame (mem.ram pgdir (pdx va)))
      (ptx va)) = page at refers stores
    cases stores
    have isPooled := accounted.tree.pooled _ _ refers
    have plain := separate _ _ _ page refers
    generalize setByte _ _ _ = word
    have same : (mem.store ⟨page, va.toNat % 4096 / 4⟩ word).word dirs =
        mem.word dirs := by
      apply word_congr
      intro holder other container contains
      apply ram_store_other
      rintro rfl
      exact plain holder container contains
    have holds := holds_congr same
    refine ⟨⟨accounted.tree.congr same, ?_, ?_⟩, same, ?_⟩
    · rw [holds]
      exact accounted.books.withRam _
    · rw [holds]
      exact accounted.bounded
    · refine ⟨?_, fun _ _ => rfl, ?_, rfl⟩
      · intro other outside
        apply ram_store_other
        rintro rfl
        exact outside isPooled
      · intro f d' index isOther _
        rw [ram_store_other]
        rintro rfl
        exact plain (.pgdir f) trivial isOther
  · cases stores

/-- Stores through user addresses. -/
theorem Accounted.storeBytes {bytes : List UInt8}
    (accounted : mem.Accounted pool free dirs) (separate : mem.Separate dirs)
    (isDir : dirs e = some pgdir)
    (user : ∀ k < bytes.length, va + UInt32.ofNat k < utop)
    (stores : PhysMem.storeBytes pgdir mem va bytes = some next) :
    Written mem next pool free dirs := by
  induction bytes generalizing mem va with
  | nil =>
      cases stores
      exact .refl accounted
  | cons byte bytes induction =>
      obtain ⟨stored, first, rest⟩ := Option.bind_eq_some_iff.mp stores
      have here := user 0 (by simp)
      rw [show va + UInt32.ofNat 0 = va from UInt32.add_zero va] at here
      have written := accounted.storeByte separate isDir here first
      apply written.trans
      apply induction written.accounted (written.separate separate) _ rest
      intro k below
      have next := user (k + 1) (by simpa using below)
      have shifted : va + 1 + UInt32.ofNat k = va + UInt32.ofNat (k + 1) := by
        rw [UInt32.add_assoc, UInt32.ofNat_add, UInt32.add_comm 1]
        rfl
      rw [shifted]
      exact next

end PhysMem

/-! ## Environments and their directories -/

/-- What the accounts concern: the memory, the directories, the free list of the
environments and the addresses at which they receive pages. -/
structure Spaces where
  mem : PhysMem
  kernPgdir : Nat
  dirs : Nat → Option Nat
  links : Nat → Option Nat
  freeList : Option Nat
  targets : Nat → UInt32

def Kernel.spaces (kernel : Kernel) : Spaces :=
  { mem := kernel.mem
    kernPgdir := kernel.kernPgdir
    dirs := fun e => (kernel.envs e).envPgdir
    links := fun e => (kernel.envs e).envLink
    freeList := kernel.envFreeList
    targets := fun e => (kernel.envs e).envIpcDstva }

namespace Spaces

/-- Another directory, link and address for one environment. -/
def setEnv (spaces : Spaces) (e : Nat) (dir link : Option Nat)
    (target : UInt32) : Spaces :=
  { spaces with
    dirs := Function.update spaces.dirs e dir
    links := Function.update spaces.links e link
    targets := Function.update spaces.targets e target }

theorem setEnv_self (spaces : Spaces) (e : Nat) :
    spaces.setEnv e (spaces.dirs e) (spaces.links e) (spaces.targets e) =
      spaces := by
  unfold setEnv
  rw [Function.update_eq_self, Function.update_eq_self,
    Function.update_eq_self]

theorem setEnv_links (spaces : Spaces) (e : Nat) (dir link : Option Nat)
    (target : UInt32) : (spaces.setEnv e dir link target).links e = link :=
  Function.update_self _ _ _

/-- The accounts are right, and an environment on the free list has no
directory. -/
structure Sound (pool : List Nat) (spaces : Spaces) : Prop where
  accounted : ∃ free, spaces.mem.Accounted pool free spaces.dirs
  separate : spaces.mem.Separate spaces.dirs
  kernelDir : spaces.kernPgdir ∉ pool
  unmapped : ∀ table, table < userTables →
    spaces.mem.ram spaces.kernPgdir table = 0
  beyond : ∀ e, nenv ≤ e → spaces.dirs e = none
  unused : ∃ nodes, Linked spaces.links spaces.freeList nodes ∧ nodes.Nodup ∧
    ∀ e ∈ nodes, e < nenv ∧ spaces.dirs e = none
  received : ∀ e, UserPage (spaces.targets e)

variable {spaces : Spaces} {pool free free' : List Nat} {mem : PhysMem}
variable {e d : Nat}

/-- An environment with a directory is one of `envs[]`. -/
theorem Sound.below (sound : spaces.Sound pool) (isDir : spaces.dirs e = some d) :
    e < nenv := by
  by_contra above
  cases (sound.beyond e (by omega)).symm.trans isDir

/-- A change of the memory that keeps the accounts. -/
theorem Sound.setMem (sound : spaces.Sound pool)
    (accounted : mem.Accounted pool free spaces.dirs)
    (separate : mem.Separate spaces.dirs)
    (outside : spaces.mem.Outside mem pool spaces.dirs) :
    ({ spaces with mem := mem } : Spaces).Sound pool where
  accounted := ⟨free, accounted⟩
  separate := separate
  kernelDir := sound.kernelDir
  unmapped table below := by
    rw [outside.ram _ sound.kernelDir]
    exact sound.unmapped table below
  beyond := sound.beyond
  unused := sound.unused
  received := sound.received

/-- An environment receives its next page elsewhere. -/
theorem Sound.setTarget (sound : spaces.Sound pool) (e : Nat) {target : UInt32}
    (user : UserPage target) :
    (spaces.setEnv e (spaces.dirs e) (spaces.links e) target).Sound pool := by
  unfold setEnv
  rw [Function.update_eq_self, Function.update_eq_self]
  refine ⟨sound.accounted, sound.separate, sound.kernelDir, sound.unmapped,
    sound.beyond, sound.unused, ?_⟩
  intro f
  by_cases isE : f = e
  · subst isE
    dsimp only
    rwa [Function.update_self]
  · dsimp only
    rw [Function.update_of_ne isE]
    exact sound.received f

/-- `env_alloc` gives the first free environment a directory. -/
theorem Sound.setup (sound : spaces.Sound pool)
    (head : spaces.freeList = some e) {allocated : PhysMem}
    (taken : spaces.mem.pageAlloc true = (allocated, some d)) :
    ({ spaces.setEnv e (some d) (spaces.links e) (spaces.targets e) with
        mem := allocated.withDirectory spaces.kernPgdir d
        freeList := spaces.links e } : Spaces).Sound pool := by
  obtain ⟨free, accounted⟩ := sound.accounted
  obtain ⟨nodes, linked, nodup, unused⟩ := sound.unused
  rw [head] at linked
  obtain ⟨rest, isNodes, tail⟩ := linked.of_some
  subst isNodes
  rw [List.nodup_cons] at nodup
  obtain ⟨below, noDir⟩ := unused e List.mem_cons_self
  obtain ⟨free', founded⟩ := @PhysMem.Accounted.addDirectory _ _ _ _ _
    ⟨e, below⟩ _ accounted noDir _ sound.kernelDir sound.unmapped taken
  have others : ∀ f, f ≠ e →
      Function.update spaces.dirs e (some d) f = spaces.dirs f := fun f other =>
    Function.update_of_ne other _ _
  unfold setEnv
  rw [Function.update_eq_self, Function.update_eq_self]
  refine ⟨⟨free', founded.accounted⟩,
    founded.separate accounted sound.separate, sound.kernelDir, ?_, ?_,
    ⟨rest, tail, nodup.2, ?_⟩, sound.received⟩
  · intro table isUser
    exact (congrFun (founded.outside.ram _ sound.kernelDir) table).trans
      (sound.unmapped table isUser)
  · intro f above
    dsimp only
    rw [others f (by omega)]
    exact sound.beyond f above
  · intro f member
    have other : f ≠ e := by
      rintro rfl
      exact nodup.1 member
    dsimp only
    rw [others f other]
    exact unused f (List.mem_cons_of_mem _ member)

/-- `env_free` takes the directory of an environment away. -/
theorem Sound.release (sound : spaces.Sound pool)
    (isDir : spaces.dirs e = some d)
    (frees : ((envFreeTables d userTables spaces.mem).bind fun mem =>
      mem.pageDecref d) = some mem) :
    ({ spaces.setEnv e none spaces.freeList (spaces.targets e) with
        mem := mem
        freeList := some e } : Spaces).Sound pool := by
  obtain ⟨free, accounted⟩ := sound.accounted
  obtain ⟨nodes, linked, nodup, unused⟩ := sound.unused
  have below := sound.below isDir
  obtain ⟨mem', frees', freed⟩ :=
    @PhysMem.Accounted.envFree _ _ _ _ ⟨e, below⟩ _ accounted isDir
  cases frees.symm.trans frees'
  have busy : e ∉ nodes := by
    intro member
    cases (unused e member).2.symm.trans isDir
  obtain ⟨free', after⟩ := freed.accounted
  unfold setEnv
  rw [Function.update_eq_self]
  refine ⟨⟨free', after⟩, freed.separate sound.separate, sound.kernelDir, ?_, ?_,
    ⟨e :: nodes, linked.push busy, List.nodup_cons.mpr ⟨busy, nodup⟩, ?_⟩,
    sound.received⟩
  · intro table isUser
    exact (congrFun (freed.outside.ram _ sound.kernelDir) table).trans
      (sound.unmapped table isUser)
  · intro f above
    have other : f ≠ e := by omega
    dsimp only
    rw [Function.update_of_ne other]
    exact sound.beyond f above
  · intro f member
    dsimp only
    rcases List.mem_cons.mp member with rfl | inNodes
    · exact ⟨below, Function.update_self _ _ _⟩
    · have other : f ≠ e := by
        rintro rfl
        exact busy inNodes
      rw [Function.update_of_ne other]
      exact unused f inNodes

/-- The kernel after booting. -/
theorem sound_initial {kernPgdir : Nat} (booted : mem.Booted kernPgdir pool) :
    (Kernel.initial mem kernPgdir).spaces.Sound pool := by
  refine ⟨⟨pool, booted.accounted⟩, ?_, booted.kernel, booted.unmapped,
    fun _ _ => rfl, ⟨List.range' 0 nenv, Kernel.initial_freeList mem kernPgdir,
    List.nodup_range', ?_⟩, ?_⟩
  · intro f i j page refers
    have none := PhysMem.holds_noDirs mem (.pte f i j)
    cases none.symm.trans refers
  · intro f member
    have bounds := List.mem_range'_1.mp member
    exact ⟨by omega, rfl⟩
  · intro f
    change UserPage 0
    decide

end Spaces

/-! ## What leaves the spaces alone -/

theorem spaces_updateEnv_eq (kernel : Kernel) (e : Nat) (change : Env → Env) :
    (kernel.updateEnv e change).spaces =
      kernel.spaces.setEnv e (change (kernel.envs e)).envPgdir
        (change (kernel.envs e)).envLink
        (change (kernel.envs e)).envIpcDstva := by
  have shows : ∀ {View : Type} (look : Env → View),
      (fun f => look ((kernel.updateEnv e change).envs f)) =
        Function.update (fun f => look (kernel.envs f)) e
          (look (change (kernel.envs e))) := by
    intro View look
    funext f
    by_cases isE : f = e
    · subst isE
      simp [Kernel.updateEnv, Kernel.setEnv]
    · simp [Kernel.updateEnv, Kernel.setEnv, isE]
  unfold Kernel.spaces
  rw [shows Env.envPgdir, shows Env.envLink, shows Env.envIpcDstva]
  rfl

theorem spaces_updateEnv (kernel : Kernel) (e : Nat) {change : Env → Env}
    (pgdir : ∀ env, (change env).envPgdir = env.envPgdir)
    (link : ∀ env, (change env).envLink = env.envLink)
    (target : ∀ env, (change env).envIpcDstva = env.envIpcDstva) :
    (kernel.updateEnv e change).spaces = kernel.spaces := by
  rw [spaces_updateEnv_eq, pgdir, link, target]
  exact kernel.spaces.setEnv_self e

theorem blindToQueues_spaces : BlindToQueues Kernel.spaces where
  mlfq _ _ := rfl
  colaActual kernel e _ := spaces_updateEnv kernel e (fun _ => rfl)
    (fun _ => rfl) fun _ => rfl

theorem blindToScheduling_spaces : BlindToScheduling Kernel.spaces where
  queues := blindToQueues_spaces
  curenv _ _ _ := rfl
  runs _ _ := rfl
  status kernel e _ := spaces_updateEnv kernel e (fun _ => rfl) (fun _ => rfl)
    fun _ => rfl
  counted kernel e := spaces_updateEnv kernel e (fun _ => rfl) (fun _ => rfl)
    fun _ => rfl
  dispatched kernel _ e := spaces_updateEnv kernel e (fun _ => rfl)
    (fun _ => rfl) fun _ => rfl

end FeaturesOS.Scheduler

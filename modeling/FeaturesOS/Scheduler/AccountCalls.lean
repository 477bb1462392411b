import FeaturesOS.Scheduler.CurrentEnvTrap
import FeaturesOS.Scheduler.Entries
import FeaturesOS.Scheduler.MapUpdate

/-!
# The accounts through the functions of the kernel

Each function that maps, unmaps, makes or frees something keeps the accounts.
Only a page that is mapped once too often can spoil them.
-/

namespace FeaturesOS.Scheduler

open Entry

/-- The spaces of the kernel are in order. -/
def SoundAt (pool : List Nat) (kernel : Kernel) : Prop :=
  kernel.spaces.Sound pool

/-- The spaces are in order, and the entries have become what the rule allows
since they were `first`. -/
def SoundSince (pool : List Nat) (rule : Rule) (first : Holder → UInt32)
    (kernel : Kernel) : Prop :=
  kernel.spaces.Since pool rule first

variable {pool free : List Nat} {kernel : Kernel} {mem : PhysMem}
variable {cpu e page d : Nat} {va perm : UInt32} {Result : Type}
variable {left : Kernel → Prop} {rule : Rule} {first : Holder → UInt32}

theorem SoundSince.sound (since : SoundSince pool rule first kernel) :
    SoundAt pool kernel :=
  Spaces.Since.sound since

/-- Nothing has happened yet. -/
theorem SoundAt.since (sound : SoundAt pool kernel) :
    SoundSince pool rule kernel.spaces.words kernel :=
  ⟨sound, .of_eq rfl⟩

theorem triple_since_of_frame {entry : KernelM Result}
    (frame : Frame Kernel.spaces entry) :
    Triple (SoundSince pool rule first) entry
      (fun _ => SoundSince pool rule first) left :=
  frame.triple fun spaces => spaces.Since pool rule first

theorem SoundSince.updateEnv (since : SoundSince pool rule first kernel)
    (e : Nat) {change : Env → Env}
    (pgdir : ∀ env, (change env).envPgdir = env.envPgdir)
    (link : ∀ env, (change env).envLink = env.envLink)
    (target : ∀ env, (change env).envIpcDstva = env.envIpcDstva) :
    SoundSince pool rule first (kernel.updateEnv e change) := by
  unfold SoundSince
  rw [spaces_updateEnv kernel e pgdir link target]
  exact since

/-- `sys_ipc_recv` blocks with the address of a user page. -/
theorem SoundSince.setTarget (since : SoundSince pool rule first kernel)
    (e : Nat) {dstva : UInt32} (user : UserPage dstva) (status : EnvStatus) :
    SoundSince pool rule first (kernel.updateEnv e fun env =>
      { env with envIpcDstva := dstva, envStatus := status }) := by
  unfold SoundSince
  rw [spaces_updateEnv_eq]
  refine since.advance
    (Spaces.Sound.setTarget since.sound e user) (.of_eq ?_)
  rw [Spaces.setEnv_words]
  exact congrArg kernel.mem.word (Function.update_eq_self e kernel.spaces.dirs)

theorem triple_schedYield_since {build : Build}
    {returned : Result → Kernel → Prop} :
    Triple (SoundSince pool rule first) (schedYield build cpu) returned
      (SoundSince pool rule first) :=
  triple_schedYield_blind blindToScheduling_spaces fun spaces =>
    spaces.Since pool rule first

theorem triple_envRun_since {returned : Result → Kernel → Prop} :
    Triple (SoundSince pool rule first) (envRun cpu e) returned
      (SoundSince pool rule first) :=
  triple_envRun_blind blindToScheduling_spaces fun spaces =>
    spaces.Since pool rule first

/-! ## Pages that may be mapped -/

/-- The page is in use, nothing hangs on it, and mapping it in `e` at `va` does
not make its count wrap around. -/
structure Spaces.Mappable (pool : List Nat) (spaces : Spaces) (page e : Nat)
    (va : UInt32) : Prop where
  isPooled : page ∈ pool
  busy : ¬ spaces.mem.OnFreeList page
  plain : ∀ holder, holder.IsContainer →
    spaces.mem.holds spaces.dirs holder ≠ some page
  room : references (spaces.mem.holds spaces.dirs) page + 1 < 2 ^ 16 ∨
    ∃ (below : e < nenv) (user : va < utop),
      spaces.mem.holds spaces.dirs (.pteAt ⟨e, below⟩ user) = some page

/-- There is no table for the address and no page for one, or the page may be
mapped there. -/
def Spaces.Ready (pool : List Nat) (rule : Rule) (spaces : Spaces)
    (page e d : Nat) (va perm : UInt32) : Prop :=
  spaces.mem.ram d (pdx va) = 0 ∧ spaces.mem.pageFreeList = none ∨
    spaces.Mappable pool page e va ∧ perm.toNat < 4096 ∧ rule e page perm

theorem Spaces.Since.insert {spaces : Spaces}
    (since : spaces.Since pool rule first) (isDir : spaces.dirs e = some d)
    (user : va < utop)
    (ready : spaces.Ready pool rule page e d va perm) :
    ∃ next r, spaces.mem.pageInsert d page va perm = some (next, r) ∧
      ({ spaces with mem := next } : Spaces).Since pool rule first := by
  have sound := since.sound
  obtain ⟨free, accounted⟩ := sound.accounted
  have below := sound.below isDir
  have isFull := @PhysMem.Accounted.noEntry_iff _ _ _ _ ⟨e, below⟩ _ _ accounted
    isDir user
  by_cases full : spaces.mem.entryAt spaces.dirs ⟨e, below⟩ user = none ∧
      free = []
  · have inserts := @PhysMem.Accounted.pageInsert_full _ _ _ _ ⟨e, below⟩ _ _ _
      accounted isDir full.1 full.2 page perm
    exact ⟨spaces.mem, _, inserts, since⟩
  · rcases ready with noRoom | ⟨mappable, low, allowed⟩
    · exact absurd (isFull.mpr noRoom) full
    · have busy : page ∉ free := fun member =>
        mappable.busy (accounted.books.onFreeList_iff.mpr member)
      obtain ⟨walked, next, free', inserts, inserted⟩ :=
        @PhysMem.Accounted.pageInsert _ _ _ _ ⟨e, below⟩ _ _ _ _ accounted isDir
          user mappable.isPooled busy low full
      have room : references (spaces.mem.holds spaces.dirs) page + 1 < 2 ^ 16 ∨
          spaces.mem.holds spaces.dirs (.pteAt ⟨e, below⟩ user) =
            some page := by
        rcases mappable.room with room | ⟨_, _, maps⟩
        · exact .inl room
        · exact .inr maps
      have after := sound.setMem (inserted.accounted accounted busy room)
        (inserted.separate accounted sound.separate busy mappable.plain)
        inserted.outside
      exact ⟨next, 0, inserts, since.advance after (inserted.rewrites allowed)⟩

theorem triple_insertPage_since (user : va < utop) :
    Triple (fun kernel => SoundSince pool rule first kernel ∧
        ∀ d, (kernel.envs e).envPgdir = some d →
          kernel.spaces.Ready pool rule page e d va perm)
      (insertPage e page va perm) (fun _ => SoundSince pool rule first)
      left := by
  refine .bind_read fun pgdir => ?_
  cases pgdir with
  | none => exact .stop
  | some d =>
      constructor
      rintro kernel ⟨⟨since, ready⟩, isDir⟩
      obtain ⟨next, r, inserts, after⟩ :=
        since.insert isDir user (ready d isDir)
      have inserts' : kernel.mem.pageInsert d page va perm = some (next, r) :=
        inserts
      unfold onMem
      dsimp only
      rw [inserts']
      exact after

/-- A page that has just been allocated may be mapped anywhere. -/
theorem SoundSince.pageAlloc (since : SoundSince pool rule first kernel)
    {zero : Bool} (taken : kernel.mem.pageAlloc zero = (mem, some page)) :
    SoundSince pool rule first (kernel.setMem mem) ∧
      ∀ e va, (kernel.setMem mem).spaces.Mappable pool page e va := by
  have sound := since.sound
  obtain ⟨free, accounted⟩ := sound.accounted
  have accounted' : kernel.mem.Accounted pool free kernel.spaces.dirs :=
    accounted
  obtain ⟨free', isFree, isPooled, busy, after, word, outside⟩ :=
    accounted'.pageAlloc taken
  have separate : mem.Separate kernel.spaces.dirs := by
    unfold PhysMem.Separate
    rw [PhysMem.holds_congr word]
    exact sound.separate
  refine ⟨since.advance (sound.setMem after separate outside) (.of_eq word), ?_⟩
  intro e va
  have unreferenced : ∀ holder,
      mem.holds kernel.spaces.dirs holder ≠ some page := by
    rw [PhysMem.holds_congr word]
    exact accounted'.unreferenced (isFree ▸ List.mem_cons_self)
  have none : references (mem.holds kernel.spaces.dirs) page = 0 :=
    references_eq_zero.mpr unreferenced
  refine ⟨isPooled, ?_, fun holder _ => unreferenced holder, .inl ?_⟩
  · exact fun isFree => busy (after.books.onFreeList_iff.mp isFree)
  · change references (mem.holds kernel.spaces.dirs) page + 1 < 2 ^ 16
    rw [none]
    decide

/-- What follows from the state before an allocation is still known behind it. -/
theorem triple_pageAlloc_knowing (zero : Bool) (known : Kernel → Prop) :
    Triple (fun kernel => SoundSince pool rule first kernel ∧ known kernel)
      (onMem fun mem => some (mem.pageAlloc zero))
      (fun found kernel => SoundSince pool rule first kernel ∧
        ∀ page, found = some page →
          (∀ e va, kernel.spaces.Mappable pool page e va) ∧
          ∃ before, known before ∧ ∃ mem,
            before.mem.pageAlloc zero = (mem, some page) ∧
            kernel = before.setMem mem) left := by
  constructor
  rintro kernel ⟨since, holds⟩
  unfold onMem
  dsimp only
  cases taken : kernel.mem.pageAlloc zero with
  | mk next found =>
      cases found with
      | none =>
          obtain ⟨free, accounted⟩ := since.sound.accounted
          have accounted' : kernel.mem.Accounted pool free kernel.spaces.dirs :=
            accounted
          have same := accounted'.books.pageAlloc zero
          rw [taken] at same
          rw [same.1]
          exact ⟨since, fun _ none => by cases none⟩
      | some page =>
          obtain ⟨after, mappable⟩ := since.pageAlloc taken
          refine ⟨after, ?_⟩
          intro page' isPage
          cases isPage
          exact ⟨mappable, kernel, holds, next, taken, rfl⟩

theorem triple_pageAlloc_since (zero : Bool) :
    Triple (SoundSince pool rule first)
      (onMem fun mem => some (mem.pageAlloc zero))
      (fun found kernel => SoundSince pool rule first kernel ∧
        ∀ page, found = some page → ∀ e va,
          kernel.spaces.Mappable pool page e va) left :=
  (triple_pageAlloc_knowing zero fun _ => True).weaken
    (fun _ since => ⟨since, trivial⟩)
    (fun _ _ holds => ⟨holds.1, fun page isPage => (holds.2 page isPage).1⟩)
    fun _ => id

/-! ## `env_page_alloc` and `env_page_map` -/

/-- The flags are within `PTE_SYSCALL`. -/
def WithinSyscall (perm : UInt32) : Prop := perm &&& ~~~pteSyscall = 0

instance : DecidablePred WithinSyscall := fun _ =>
  inferInstanceAs (Decidable (_ = _))

theorem WithinSyscall.or {flags : UInt32} (first : WithinSyscall flags)
    (second : WithinSyscall perm) : WithinSyscall (flags ||| perm) := by
  unfold WithinSyscall
  rw [or_and, first, second]
  rfl

theorem WithinSyscall.lt (within : WithinSyscall perm) : perm.toNat < 4096 := by
  have whole : perm &&& (pteSyscall ||| ~~~pteSyscall) = perm := by
    rw [UInt32.or_not_self, UInt32.and_neg_one]
  rw [UInt32.and_comm, or_and, UInt32.and_comm (~~~pteSyscall), within,
    UInt32.or_zero, UInt32.and_comm] at whole
  have bounded : perm.toNat ≤ pteSyscall.toNat := by
    rw [← whole, UInt32.toNat_and]
    exact Nat.and_le_right
  have small : pteSyscall.toNat < 4096 := by decide
  omega

theorem WithinSyscall.and (within : WithinSyscall perm) (mask : UInt32) :
    WithinSyscall (perm &&& mask) := by
  unfold WithinSyscall at within ⊢
  rw [UInt32.and_assoc, UInt32.and_comm mask, ← UInt32.and_assoc, within]
  exact UInt32.zero_and

theorem checkPerm_within (allowed : ¬ checkPerm perm < 0) :
    WithinSyscall perm := by
  by_contra outside
  have refused : checkPerm perm = -eInval := if_pos outside
  rw [refused] at allowed
  exact allowed (by decide)

/-- `pgdir_walk` finds a table for the address or has a page for one. -/
def Kernel.Walks (kernel : Kernel) (e : Nat) (va : UInt32) : Prop :=
  ∃ pgdir, (kernel.envs e).envPgdir = some pgdir ∧
    (kernel.mem.ram pgdir (pdx va) ≠ 0 ∨ kernel.mem.pageFreeList ≠ none)

/-- `page_alloc` has a page, and `pgdir_walk` succeeds behind it. -/
def Kernel.HasRoom (kernel : Kernel) (e : Nat) (va : UInt32) : Prop :=
  ∃ mem page, kernel.mem.pageAlloc true = (mem, some page) ∧
    (kernel.setMem mem).Walks e va

theorem Kernel.ready_of_walks
    (isDir : (kernel.envs e).envPgdir = some d)
    (mappable : kernel.Walks e va → kernel.spaces.Mappable pool page e va ∧
      perm.toNat < 4096 ∧ rule e page perm) :
    kernel.spaces.Ready pool rule page e d va perm := by
  by_cases full : kernel.mem.ram d (pdx va) = 0 ∧ kernel.mem.pageFreeList = none
  · exact .inl full
  · refine .inr (mappable ⟨d, isDir, ?_⟩)
    by_contra neither
    rw [not_or, not_not, not_not] at neither
    exact full neither

theorem triple_envPageAlloc_since (user : va < utop) :
    Triple (fun kernel => SoundSince pool rule first kernel ∧
        (WithinSyscall perm → kernel.HasRoom e va →
          ∀ page, rule e page perm))
      (envPageAlloc e va perm)
      (fun _ => SoundSince pool rule first) left := by
  unfold envPageAlloc
  split
  · exact .pure fun _ holds => holds.1
  · rename_i checked
    have within := checkPerm_within checked
    refine (triple_pageAlloc_knowing true fun kernel =>
      WithinSyscall perm → kernel.HasRoom e va →
        ∀ page, rule e page perm).bind fun found => ?_
    cases found with
    | none => exact .pure fun _ holds => holds.1
    | some page =>
        refine (triple_insertPage_since user).strengthen _ ?_
        rintro kernel ⟨since, fresh⟩
        obtain ⟨mappable, before, allowed, mem, taken, rfl⟩ := fresh page rfl
        refine ⟨since, fun d isDir => ?_⟩
        refine Kernel.ready_of_walks isDir fun walks => ?_
        exact ⟨mappable e va, within.lt,
          allowed within ⟨mem, page, taken, walks⟩ page⟩

/-- Mapping the page of `src` in `dst` makes its count wrap around. -/
def Kernel.Overflows (kernel : Kernel) (src : Nat) (srcva : UInt32) (dst : Nat)
    (dstva : UInt32) : Prop :=
  ∃ page srcpte, kernel.lookupPage src srcva = some (some (page, srcpte)) ∧
    (kernel.mem.pages page).ppRef = 65535 ∧
    ∀ dstpte, kernel.lookupPage dst dstva ≠ some (some (page, dstpte))

/-- What `page_lookup` finds in an environment. -/
theorem SoundAt.lookupPage (sound : SoundAt pool kernel)
    (isDir : (kernel.envs e).envPgdir = some d) (user : va < utop) :
    ∃ below : e < nenv, kernel.lookupPage e va =
      some ((kernel.mem.holds kernel.spaces.dirs
        (.pteAt ⟨e, below⟩ user)).map fun page =>
          (page, kernel.mem.word kernel.spaces.dirs (.pteAt ⟨e, below⟩ user))) := by
  obtain ⟨free, accounted⟩ := sound.accounted
  have below : e < nenv := sound.below isDir
  have looks := @PhysMem.Tree.translation _ _ _ _ _ ⟨e, below⟩ _ _
    accounted.tree accounted.books isDir user
  refine ⟨below, ?_⟩
  unfold Kernel.lookupPage
  rw [isDir]
  exact looks

/-- A page that is mapped somewhere may be mapped elsewhere. -/
theorem SoundAt.mappable {src dst : Nat} {srcva dstva srcpte : UInt32}
    (sound : SoundAt pool kernel) (srcUser : srcva < utop)
    (dstUser : dstva < utop) (isDst : (kernel.envs dst).envPgdir = some d)
    (found : kernel.lookupPage src srcva = some (some (page, srcpte)))
    (fits : (kernel.mem.pages page).ppRef = 65535 →
      kernel.mem.Maps d dstva page) :
    kernel.spaces.Mappable pool page dst dstva := by
  obtain ⟨free, accounted⟩ := sound.accounted
  cases isSrc : (kernel.envs src).envPgdir with
  | none =>
      unfold Kernel.lookupPage at found
      rw [isSrc] at found
      cases found
  | some srcDir =>
      obtain ⟨below, looks⟩ := sound.lookupPage isSrc srcUser
      obtain ⟨dstBelow, dstLooks⟩ := sound.lookupPage isDst dstUser
      have found' := found
      rw [looks, Option.some.injEq] at found
      obtain ⟨page', refers, same⟩ := Option.map_eq_some_iff.mp found
      cases same
      have isPooled := accounted.tree.pooled _ _ refers
      have busy := accounted.notFree refers
      refine ⟨isPooled, fun isFree =>
        busy (accounted.books.onFreeList_iff.mp isFree),
        sound.separate _ _ _ page refers, ?_⟩
      by_cases maps : kernel.mem.holds kernel.spaces.dirs
          (.pteAt ⟨dst, dstBelow⟩ dstUser) = some page
      · exact .inr ⟨dstBelow, dstUser, maps⟩
      · left
        have bounded := accounted.bounded page
        by_contra full
        have isLast : references (kernel.spaces.mem.holds kernel.spaces.dirs)
            page = 65535 := by omega
        have isMapped := fits (UInt16.toNat_inj.mp
          ((accounted.ref isPooled).trans isLast))
        exact maps ((@PhysMem.Tree.maps_iff _ _ _ _ _ ⟨dst, dstBelow⟩ _ _ _
          accounted.tree accounted.books isDst dstUser).mp isMapped)

/-- `page_insert` of the page in `e` makes its `pp_ref` wrap around. -/
def Kernel.Wraps (kernel : Kernel) (e page : Nat) (va : UInt32) : Prop :=
  ∃ pgdir, (kernel.envs e).envPgdir = some pgdir ∧
    kernel.mem.WrapsAround pgdir page va

theorem SoundAt.ready {src dst : Nat} {srcva dstva srcpte : UInt32}
    (sound : SoundAt pool kernel) (srcUser : srcva < utop)
    (dstUser : dstva < utop) (isDst : (kernel.envs dst).envPgdir = some d)
    (found : kernel.lookupPage src srcva = some (some (page, srcpte)))
    (permitted : kernel.Walks dst dstva → ¬ kernel.Wraps dst page dstva ∧
      perm.toNat < 4096 ∧ rule dst page perm) :
    kernel.spaces.Ready pool rule page dst d dstva perm := by
  refine Kernel.ready_of_walks isDst fun walks => ?_
  obtain ⟨fits, allowed⟩ := permitted walks
  refine ⟨sound.mappable srcUser dstUser isDst found fun isLast => ?_, allowed⟩
  by_contra notMapped
  obtain ⟨d', isDst', room⟩ := walks
  cases isDst.symm.trans isDst'
  exact fits ⟨d, isDst, isLast, notMapped, room⟩

/-- `env_page_map` gets as far as `page_insert` of the page. -/
def Kernel.Shares (kernel : Kernel) (src : Nat) (srcva perm : UInt32)
    (page : Nat) : Prop :=
  ∃ srcpte, kernel.lookupPage src srcva = some (some (page, srcpte)) ∧
    perm &&& pteW &&& ~~~(pteW &&& srcpte) = 0

/-- The bits of `perm` that the address of the page does not have anyway. -/
def addedBits (page : Nat) (perm : UInt32) : UInt32 := perm &&& ~~~page2pa page

theorem or_addedBits (page : Nat) (perm : UInt32) :
    page2pa page ||| addedBits page perm = page2pa page ||| perm := by
  unfold addedBits
  apply UInt32.toBitVec_inj.mp
  ext bit
  simp
  cases (page2pa page).toBitVec[bit] <;> simp

theorem WithinSyscall.added {flags : UInt32}
    (within : WithinSyscall (addedBits page perm))
    (more : WithinSyscall flags) :
    WithinSyscall (addedBits page (flags ||| perm)) := by
  unfold addedBits at within ⊢
  rw [or_and]
  exact (more.and _).or within

/-- Flags are added to any address. -/
theorem WithinSyscall.addedBits (within : WithinSyscall perm) :
    addedBits page perm = perm := by
  have apart : perm &&& page2pa page = 0 := by
    rw [UInt32.and_comm]
    exact page2pa_and within.lt
  have whole : perm &&& (page2pa page ||| ~~~page2pa page) = perm := by
    rw [UInt32.or_not_self, UInt32.and_neg_one]
  rwa [UInt32.and_comm, or_and, UInt32.and_comm, apart, UInt32.zero_or,
    UInt32.and_comm] at whole

theorem insertPage_addedBits (e page : Nat) (va perm : UInt32) :
    insertPage e page va (addedBits page perm) = insertPage e page va perm := by
  unfold insertPage PhysMem.pageInsert
  rw [or_addedBits]

theorem triple_envPageMap_since {src dst : Nat} {srcva dstva : UInt32}
    (srcUser : srcva < utop) (dstUser : dstva < utop) :
    Triple (fun kernel => SoundSince pool rule first kernel ∧
        ∀ page, kernel.Shares src srcva perm page → kernel.Walks dst dstva →
          ¬ kernel.Wraps dst page dstva ∧
            (addedBits page perm).toNat < 4096 ∧
            rule dst page (addedBits page perm))
      (envPageMap src srcva dst dstva perm)
      (fun _ => SoundSince pool rule first) left := by
  unfold envPageMap Scheduler.lookupPage
  rw [bind_assoc]
  refine .bind_read fun found => ?_
  cases found with
  | none => exact .stop
  | some found =>
      cases found with
      | none => exact .pure fun _ holds => holds.1.1
      | some found =>
          obtain ⟨page, srcpte⟩ := found
          refine .ite (fun _ => .pure fun _ holds => holds.1.1) fun granted => ?_
          rw [← insertPage_addedBits]
          refine (triple_insertPage_since dstUser).strengthen _ ?_
          rintro kernel ⟨⟨since, permitted⟩, found⟩
          exact ⟨since, fun d isDst => since.sound.ready srcUser dstUser isDst
            found (permitted page ⟨srcpte, found, not_not.mp granted⟩)⟩

/-! ## `page_remove` and the stores of the kernel -/

theorem triple_pageRemove_since (user : va < utop) :
    Triple (SoundSince pool rule first)
      (onPgdir e fun pgdir mem =>
        (mem.pageRemove pgdir va).map fun mem => (mem, ()))
      (fun _ => SoundSince pool rule first) left := by
  refine .bind_read fun pgdir => ?_
  cases pgdir with
  | none => exact .stop
  | some d =>
      constructor
      rintro kernel ⟨since, isDir⟩
      have sound := since.sound
      obtain ⟨free, accounted⟩ := sound.accounted
      have below : e < nenv := sound.below isDir
      obtain ⟨next, removes, clears, _⟩ :=
        @PhysMem.Accounted.pageRemove _ _ _ _ ⟨e, below⟩ _ _ accounted isDir
          user
      obtain ⟨free', after⟩ := clears.accounted
      have removes' : kernel.mem.pageRemove d va = some next := removes
      unfold onMem
      dsimp only
      rw [removes']
      exact since.advance
        (sound.setMem after (clears.separate sound.separate) clears.outside)
        (.of_cleared clears.word)

theorem wordBytes_length (words : List UInt32) :
    (PhysMem.wordBytes words).length = 4 * words.length := by
  unfold PhysMem.wordBytes
  induction words with
  | nil => rfl
  | cons word words induction =>
      rw [List.flatMap_cons, List.length_append, induction, List.length_cons]
      simp only [List.length_cons, List.length_nil]
      omega

theorem triple_storeWords_since {words : List UInt32}
    (user : ∀ k < 4 * words.length, va + UInt32.ofNat k < utop) :
    Triple (SoundSince pool rule first) (storeWords e va words)
      (fun _ => SoundSince pool rule first) left := by
  refine .bind_read fun pgdir => ?_
  cases pgdir with
  | none => exact .stop
  | some d =>
      constructor
      rintro kernel ⟨since, isDir⟩
      have sound := since.sound
      obtain ⟨free, accounted⟩ := sound.accounted
      have below : e < nenv := sound.below isDir
      unfold onMem
      dsimp only
      cases stores : PhysMem.storeBytes d kernel.mem va
          (PhysMem.wordBytes words) with
      | none => trivial
      | some next =>
          rw [← wordBytes_length] at user
          have written := @PhysMem.Accounted.storeBytes _ _ _ _ _ ⟨e, below⟩ _ _
            _ accounted sound.separate isDir user stores
          exact since.advance
            (sound.setMem written.accounted (written.separate sound.separate)
              written.outside) (.of_eq written.word)

/-! ## `env_free` and `env_destroy` -/

theorem triple_envFree_since :
    Triple (SoundSince pool rule first) (envFree e)
      (fun _ => SoundSince pool rule first) left := by
  constructor
  intro kernel since
  unfold envFree
  cases isDir : (kernel.envs e).envPgdir with
  | none => trivial
  | some d =>
      dsimp only
      cases frees : (envFreeTables d userTables kernel.mem).bind fun mem =>
          mem.pageDecref d with
      | none => trivial
      | some mem =>
          dsimp only
          change Spaces.Since pool rule first
            { Kernel.spaces ((kernel.setMem mem).updateEnv e _) with
              freeList := some e }
          rw [spaces_updateEnv_eq]
          exact since.release isDir frees

theorem triple_envDestroy_since {build : Build} :
    Triple (SoundSince pool rule first) (envDestroy build cpu e)
      (fun _ => SoundSince pool rule first) (SoundSince pool rule first) := by
  unfold envDestroy
  refine .bind_read fun status => .bind_read fun curenv => ?_
  refine .strengthen (SoundSince pool rule first) (fun _ holds => holds.1.1) ?_
  refine .ite (fun _ => ?_) fun _ => ?_
  · refine .modify fun kernel sound => ?_
    exact sound.updateEnv e (fun _ => rfl) (fun _ => rfl) fun _ => rfl
  · refine triple_envFree_since.bind fun _ => .ite (fun _ => ?_) fun _ => ?_
    · exact .bind_modify (SoundSince pool rule first) (fun _ since => since)
        triple_schedYield_since
    · exact .pure fun _ since => since

theorem triple_userMemAssert_since {build : Build} {len : UInt32} :
    Triple (SoundSince pool rule first) (userMemAssert build cpu e va len perm)
      (fun _ => SoundSince pool rule first) (SoundSince pool rule first) := by
  refine .bind_read fun checked => ?_
  refine .strengthen (SoundSince pool rule first) (fun _ holds => holds.1) ?_
  match checked with
  | none => exact .stop
  | some true => exact .pure fun _ since => since
  | some false => exact triple_envDestroy_since

/-! ## `env_alloc` -/

/-- Between `env_setup_vm` and the end of `env_alloc`. -/
def Settling (pool : List Nat) (rule : Rule) (first : Holder → UInt32) (e : Nat)
    (kernel : Kernel) : Prop :=
  kernel.envFreeList = some e ∧
    ({ kernel.spaces with freeList := kernel.spaces.links e } : Spaces).Since
      pool rule first

theorem triple_envSetupVm_since :
    Triple (fun kernel => SoundSince pool rule first kernel ∧
        kernel.envFreeList = some e)
      (envSetupVm e)
      (fun r kernel => if r < 0 then SoundSince pool rule first kernel
        else Settling pool rule first e kernel) left := by
  constructor
  rintro kernel ⟨since, head⟩
  unfold envSetupVm
  cases taken : kernel.mem.pageAlloc true with
  | mk allocated found =>
      cases found with
      | none =>
          dsimp only
          rw [if_pos (by decide)]
          exact since
      | some d =>
          dsimp only
          rw [if_neg (by decide)]
          refine ⟨head, ?_⟩
          rw [spaces_updateEnv_eq, Spaces.setEnv_links]
          exact since.setup head taken

/-- The rest of `env_alloc` takes the environment off the free list. -/
theorem Settling.commit (settling : Settling pool rule first e kernel)
    (parentId : UInt32) :
    SoundSince pool rule first (commitEnv parentId e kernel) := by
  change Spaces.Since pool rule first
    { Kernel.spaces (kernel.updateEnv e _) with
      freeList := kernel.spaces.links e }
  rw [spaces_updateEnv_eq]
  change Spaces.Since pool rule first
    { kernel.spaces.setEnv e (kernel.spaces.dirs e) (kernel.spaces.links e)
        (kernel.spaces.targets e) with
      freeList := kernel.spaces.links e }
  rw [Spaces.setEnv_self]
  exact settling.2

theorem triple_envAlloc_since {parentId : UInt32} :
    Triple (SoundSince pool rule first) (envAlloc cpu parentId)
      (fun _ => SoundSince pool rule first) left := by
  unfold envAlloc
  refine .bind_read fun head => ?_
  cases head with
  | none => exact .pure fun _ holds => holds.1
  | some e =>
      refine triple_envSetupVm_since.bind fun r => .ite (fun failed => ?_)
        fun done => ?_
      · refine .pure fun kernel holds => ?_
        rwa [if_pos failed] at holds
      · refine .bind_modify (SoundSince pool rule first) ?_ ?_
        · intro kernel holds
          rw [if_neg done] at holds
          exact holds.commit parentId
        · refine .bind_read fun cola => .bind_read fun envId => ?_
          refine .strengthen (SoundSince pool rule first)
            (fun _ holds => holds.1.1) ?_
          refine (triple_since_of_frame
            (frame_schedAgregarEnv blindToQueues_spaces envId cola)).bind
              fun _ => ?_
          exact .pure fun _ since => since

end FeaturesOS.Scheduler

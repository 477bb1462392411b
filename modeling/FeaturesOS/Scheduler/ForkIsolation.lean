import FeaturesOS.Scheduler.Severed
import FeaturesOS.Scheduler.Spawning

/-!
# Copy-on-write `fork` isolates parent and child

`fork` runs among the accesses of all programs.  When it has returned in the
parent, no page that the parent and the child share is writable in one of them.
-/

namespace FeaturesOS.Scheduler

open Entry

variable {build : Build} {pool : List Nat} {kernel next : Kernel}
variable {cpu e d pn : Nat} {va perm envid : UInt32} {r : Int}
variable {parent : Fin nenv} {child : Set Slot}
variable {Result : Type} {post : Result → Kernel → Prop}

/-- When `fork` isolates.  The parent does not fault on a page between the reading
of its entry and the mapping of the page as a read-only one, since `pgfault` makes
it writable.  No `pp_ref` wraps around in the mappings of `fork`. -/
def ForkPermits (parent : Nat) :
    Option ForkAction → Kernel → Option UserEvent → Prop
  | some (.sysPageMap srcenvid srcva dstenvid dstva perm), kernel, none =>
      ∀ cpu dst page, kernel.cpus cpu = some parent →
        kernel.MapsPage cpu srcenvid srcva dstenvid dstva perm dst page →
        ¬ kernel.Wraps dst page dstva
  | some (.sysPageMap _ srcva _ _ perm), _, some (.fault _ e va _) =>
      perm &&& pteCow = 0 → ¬ (e = parent ∧ roundDown va = srcva)
  | _, _, _ => True

theorem request_bind {Next : Type} (action : ForkAction)
    (rest : action.Value → ForkM Next) :
    request action >>= rest = .perform action rest :=
  Routine.request_bind action rest

/-- A panic ends nothing. -/
theorem ensures_panics {permits : Option ForkAction → Kernel →
      Option UserEvent → Prop} (message : String) (arguments : List Int) :
    (forking build parent).Ensures permits post (panics message arguments)
      kernel := by
  intro later never
  exact never.elim

theorem during_stable {permits : Option ForkAction → Kernel →
      Option UserEvent → Prop} (pending : Option ForkAction) :
    (forking build parent).Stable permits pending
      fun kernel => kernel.DuringFork pool parent d child pn := by
  rintro kernel next during ⟨event, _, goes⟩
  exact UserEvent.Goes.during goes during

/-- The page stays read-only until it is mapped. -/
theorem readOnly_stable (below : pn < userPages)
    (notTemp : pageSlot parent below ≠ slotAt parent userPage_pfTemp.1)
    (notCow : perm &&& pteCow = 0) (srcenvid dstenvid dstva : UInt32) :
    (forking build parent).Stable (ForkPermits parent)
      (some (.sysPageMap srcenvid (PhysMem.pageVa pn) dstenvid dstva perm))
      fun kernel => kernel.DuringFork pool parent d child pn ∧
        ¬ IsWritable (kernel.entry (pageSlot parent below)) := by
  rintro kernel next ⟨during, readOnly⟩ ⟨event, permitted, goes⟩
  refine ⟨UserEvent.Goes.during goes during, ?_⟩
  have sound := during.forkable.sound
  change event.Goes kernel next at goes
  cases goes with
  | @store e d va byte place isDir user found =>
      obtain ⟨free, written⟩ := sound.store_written isDir user found byte
      rw [show (kernel.setMem (kernel.mem.setByteAt place byte)).entry
        (pageSlot parent below) = kernel.entry (pageSlot parent below) from
          congrFun written.word _]
      exact readOnly
  | fault isCurrent isDir _ ends =>
      have inside := Spaces.Sound.below sound isDir
      have faulted := (sound.pgfault_changes isCurrent inside isDir ends).1
      rw [faulted.changes.entries]
      · exact readOnly
      · rintro (isTemp | ⟨user, isPage⟩)
        · have same := congrArg Prod.fst isTemp
          change parent = _ at same
          subst same
          exact notTemp isTemp
        · obtain ⟨same, isVa⟩ := pageVa_of_pageSlot isPage
          exact permitted notCow ⟨congrArg Fin.val same.symm, isVa⟩
  | elsewhere same =>
      rw [entry_of_spaces same]
      exact readOnly

/-! ## `duppage` -/

theorem sharedPerm_flags (pte : UInt32) : (sharedPerm pte).toNat < 4096 ∧
    sharedPerm pte &&& pteW = 0 ∧ sharedPerm pte &&& pteCow = 0 := by
  unfold sharedPerm
  split <;> decide

theorem cowPerm_flags (pte : UInt32) :
    (sharedPerm pte ||| pteCow).toNat < 4096 ∧
      (sharedPerm pte ||| pteCow) &&& pteW = 0 ∧
      (sharedPerm pte ||| pteCow) &&& pteCow = pteCow := by
  unfold sharedPerm
  split <;> decide

/-- A page that the parent can write to is shared copy-on-write. -/
theorem ensures_shareCow (nonzero : envid ≠ 0) (other : envOf envid ≠ parent)
    (below : pn < userPages) (notStack : pn ≠ exceptionPage)
    (during : kernel.DuringFork pool parent d (entriesOf (envOf envid)) pn)
    (pte : UInt32) :
    (forking build parent).Ensures (ForkPermits parent)
      (fun _ next =>
        next.DuringFork pool parent d (entriesOf (envOf envid)) (pn + 1))
      (shareCow envid (PhysMem.pageVa pn) (sharedPerm pte)) kernel := by
  obtain ⟨low, readOnly, isCow⟩ := cowPerm_flags pte
  unfold shareCow
  rw [request_bind]
  refine .perform (during_stable _) during ?_
  rintro later r after before fits ⟨cpu, isCurrent, maps⟩
  split
  · exact ensures_panics _ _
  · rename_i succeeds
    rcases before.mapChild isCurrent nonzero other below notStack low readOnly
      (fun page => fits cpu _ page isCurrent) maps with failed | ⟨during', _⟩
    · exact absurd failed succeeds
    · rw [request_bind]
      refine .perform (during_stable _) during' ?_
      rintro later r after before fits ⟨cpu, isCurrent, maps⟩
      split
      · exact ensures_panics _ _
      · rename_i succeeds
        rcases before.mapParent isCurrent below low readOnly isCow
          (fun page => fits cpu _ page isCurrent) maps with failed | during''
        · exact absurd failed succeeds
        · exact during''

/-- A page that nobody writes to is shared as it is. -/
theorem ensures_shareReadOnly (nonzero : envid ≠ 0)
    (other : envOf envid ≠ parent) (below : pn < userPages)
    (notStack : pn ≠ exceptionPage)
    (notTemp : pageSlot parent below ≠ slotAt parent userPage_pfTemp.1)
    (during : kernel.DuringFork pool parent d (entriesOf (envOf envid)) pn)
    (unwritten : ¬ IsWritable (kernel.entry (pageSlot parent below)))
    (pte : UInt32) :
    (forking build parent).Ensures (ForkPermits parent)
      (fun _ next =>
        next.DuringFork pool parent d (entriesOf (envOf envid)) (pn + 1))
      (shareReadOnly envid (PhysMem.pageVa pn) (sharedPerm pte)) kernel := by
  obtain ⟨low, readOnly, notCow⟩ := sharedPerm_flags pte
  unfold shareReadOnly
  rw [request_bind]
  refine .perform (readOnly_stable below notTemp notCow _ _ _)
    ⟨during, unwritten⟩ ?_
  rintro later r after ⟨before, unwritten⟩ fits ⟨cpu, isCurrent, maps⟩
  split
  · exact ensures_panics _ _
  · rename_i succeeds
    rcases before.mapChild isCurrent nonzero other below notStack low readOnly
      (fun page => fits cpu _ page isCurrent) maps with failed | ⟨during', same⟩
    · exact absurd failed succeeds
    · rw [← same] at unwritten
      exact during'.pass below fun _ => unwritten

/-- `duppage` hands the page over. -/
theorem ensures_duppage (nonzero : envid ≠ 0) (other : envOf envid ≠ parent)
    (below : pn < userPages) (notStack : pn ≠ exceptionPage)
    (during : kernel.DuringFork pool parent d (entriesOf (envOf envid)) pn) :
    (forking build parent).Ensures (ForkPermits parent)
      (fun _ next =>
        next.DuringFork pool parent d (entriesOf (envOf envid)) (pn + 1))
      (duppage envid pn) kernel := by
  unfold duppage
  dsimp only
  rw [request_bind]
  refine .perform (during_stable _) during ?_
  rintro later pte after before _ ⟨cpu, isCurrent, reads⟩
  change readUser parent _ later = _ at reads
  obtain ⟨rfl, shown⟩ := readUser_returns reads
  have isEntry := before.forkable.windowed.entry_of_uvpt before.forkable.sound
    parent.isLt below shown
  split
  · exact ensures_panics _ _
  · split
    · exact ensures_shareCow nonzero other below notStack before pte
    · rename_i present plain
      rw [not_or, not_not, not_not] at plain
      rw [← isEntry] at present plain
      refine ensures_shareReadOnly nonzero other below notStack
        (before.forkable.not_temp below ?_ plain.1 plain.2) before ?_ pte
      · intro zero
        rw [zero] at present
        exact present (.inl (by decide))
      · exact not_not_intro plain.1

/-- The loop hands over all pages. -/
theorem ensures_duppages (nonzero : envid ≠ 0) (other : envOf envid ≠ parent)
    {count : Nat} (total : pn + count = userPages)
    (during : kernel.DuringFork pool parent d (entriesOf (envOf envid)) pn) :
    (forking build parent).Ensures (ForkPermits parent)
      (fun _ next => next.DuringFork pool parent d (entriesOf (envOf envid))
        userPages)
      (duppages envid count pn) kernel := by
  induction count generalizing pn kernel with
  | zero =>
      rw [Nat.add_zero] at total
      subst total
      exact during
  | succ count induction =>
      have below : pn < userPages := by omega
      have rest := fun next => @induction next (pn + 1) (by omega)
      unfold duppages
      split
      · rename_i isStack
        exact rest kernel (during.pass below fun notStack =>
          absurd isStack notStack)
      · rename_i notStack
        rw [request_bind]
        refine .perform (during_stable _) during ?_
        rintro later pde after before _ ⟨cpu, isCurrent, reads⟩
        change readUser parent _ later = _ at reads
        obtain ⟨rfl, shown⟩ := readUser_returns reads
        split
        · rename_i absent
          have zero := before.forkable.windowed.entry_of_uvpd
            before.forkable.sound parent.isLt below shown absent
          exact rest _ (before.passEmpty below zero)
        · rw [request_bind]
          refine .perform (during_stable _) before ?_
          rintro later pte after before _ ⟨cpu, isCurrent, reads⟩
          change readUser parent _ later = _ at reads
          obtain ⟨rfl, shown⟩ := readUser_returns reads
          split
          · rename_i absent
            rw [← before.forkable.windowed.entry_of_uvpt before.forkable.sound
              parent.isLt below shown] at absent
            exact rest _ (before.passEmpty below
              (before.forkable.zero rfl absent))
          · refine .bind ((ensures_duppage nonzero other below notStack
              before).weaken fun _ next during => ?_)
            exact rest next during

/-! ## In front of the loop -/

/-- The child starts without a page. -/
theorem Kernel.DuringFork.spawn {newenv : Nat}
    (during : kernel.DuringFork pool parent d ∅ 0) (sound : SoundAt pool next)
    (spawns : kernel.spaces.Spawns next.spaces newenv) :
    (⟨newenv, spawns.below⟩ : Fin nenv) ≠ parent ∧
      next.DuringFork pool parent d (entriesOf ⟨newenv, spawns.below⟩) 0 := by
  have isDir := during.forkable.windowed.isDir
  have other : newenv ≠ parent := by
    rintro rfl
    cases spawns.noDir.symm.trans isDir
  have entries : next.entry = kernel.entry :=
    funext fun x => congrFun spawns.words x.holder
  have dirs : next.spaces.dirs parent = kernel.spaces.dirs parent :=
    spawns.dirs parent fun same => other same.symm
  refine ⟨fun same => other (congrArg Fin.val same), ?_, ?_⟩
  · refine during.forkable.retain ⟨sound, dirs, spawns.upper parent, ?_,
      fun x _ => .inl (congrFun entries x)⟩
    intro d' i isDir'
    have isDir'' : kernel.spaces.dirs parent = some d' := isDir'
    have table := congrFun spawns.words (.pde parent i)
    left
    change next.spaces.mem.word next.spaces.dirs _ =
      kernel.spaces.mem.word kernel.spaces.dirs _ at table
    rwa [PhysMem.word_pde (dirs.trans isDir''),
      PhysMem.word_pde isDir''] at table
  · refine .start ?_ ?_
    · rintro ⟨f, i, j⟩ isChild
      change f = _ at isChild
      subst isChild
      rw [entries]
      have empty : kernel.entry (⟨newenv, spawns.below⟩, i, j) = 0 :=
        PhysMem.word_pte_noDir spawns.noDir
      rw [empty]
      rfl
    · rw [entries]
      exact during.fenced.rest

/-- A page that was free changes what one entry maps. -/
theorem SoundAt.sysPageAlloc_effect (sound : SoundAt pool kernel)
    (below : e < nenv) (finds : ∀ f, kernel.Finds cpu envid true f → f = e)
    (user : UserPage va)
    (writable : (perm ||| pteU ||| pteP) &&& PhysMem.userRights true =
      PhysMem.userRights true)
    (allocates : sysPageAlloc cpu envid va perm kernel = .returns r next)
    (parent : Fin nenv) : kernel.Retains pool next parent ∧
      Sharing.Refreshes frameOf kernel.entry next.entry := by
  rcases sound.sysPageAlloc_changes below finds user allocates with
    ⟨_, changes⟩ | ⟨_, page, fresh, changes, isWord, isFrame⟩
  · exact ⟨changes.retains parent fun x inside => absurd inside id,
      changes.refreshes fun x inside => absurd inside id⟩
  · refine ⟨changes.retains parent ?_, changes.refreshes ?_⟩
    · rintro x rfl _
      rw [isWord]
      exact .inr (.inr (markable_of_writable (tempPerm_rights page _ writable)))
    · rintro x rfl
      exact .inr (changes.alone fresh isFrame)

/-- A call that destroys its environment does not return to it. -/
theorem triple_envDestroy_never (isCurrent : kernel.cpus cpu = some e) :
    Triple (· = kernel) (envDestroy build cpu e) (fun _ _ => False)
      fun _ => True := by
  unfold envDestroy
  refine .at_read (.at_read ?_)
  rw [if_neg fun both => both.2 isCurrent, if_pos isCurrent]
  have frees : Triple (fun _ => True) (envFree e) (fun _ _ => True)
      fun _ => True := by
    refine ⟨fun state _ => ?_⟩
    cases envFree e state <;> trivial
  refine .strengthen _ (fun _ _ => trivial) (frees.bind fun _ => ?_)
  exact .bind_modify (fun _ => True) (fun _ _ => trivial)
    (triple_schedYield_blind blindToScheduling_spaces fun _ => True)

theorem triple_userMemAssert_unchanged {len : UInt32}
    (isCurrent : kernel.cpus cpu = some e) :
    Triple (· = kernel) (userMemAssert build cpu e va len perm)
      (fun _ next => next = kernel) fun _ => True := by
  refine .at_read ?_
  match kernel.userMemCheck e va len (perm ||| pteU) with
  | none => exact .stop
  | some true => exact .pure fun _ same => same
  | some false =>
      exact (triple_envDestroy_never isCurrent).weaken (fun _ => id)
        (fun _ _ never => never.elim) fun _ => id

theorem spaces_of_sysEnvSetPgfaultUpcall {func : UInt32}
    (isCurrent : kernel.cpus cpu = some e)
    (sets : sysEnvSetPgfaultUpcall build cpu 0 func kernel =
      .returns r next) : next.spaces = kernel.spaces := by
  have triple : Triple (· = kernel)
      (do
        userMemAssert build cpu e func 4096 (pteP ||| pteU)
        Entry.modify fun kernel =>
          kernel.updateEnv e fun env => { env with envPgfaultUpcall := func }
        pure 0 : KernelM Int)
      (fun _ next => next.spaces = kernel.spaces) fun _ => True := by
    refine (triple_userMemAssert_unchanged isCurrent).bind fun _ => ?_
    refine .bind_modify (fun next => next.spaces = kernel.spaces) ?_
      (.pure fun _ same => same)
    rintro _ rfl
    exact spaces_updateEnv _ e (fun _ => rfl) (fun _ => rfl) fun _ => rfl
  have finds := finds_self isCurrent
  rw [Kernel.Finds] at finds
  unfold sysEnvSetPgfaultUpcall at sets
  rw [bind_run, lookupEnv_run, finds] at sets
  exact triple.of_returns rfl sets

/-- `set_pgfault_handler` leaves the parent one that can fork. -/
theorem ensures_setPgfaultHandler
    (during : kernel.DuringFork pool parent d ∅ 0)
    (pgfaultHandler upcall : UInt32) :
    (forking build parent).Ensures (ForkPermits parent)
      (fun _ next => next.DuringFork pool parent d ∅ 0)
      (setPgfaultHandler pgfaultHandler upcall) kernel := by
  unfold setPgfaultHandler
  split
  · dsimp only
    rw [request_bind]
    refine .perform (during_stable _) during ?_
    rintro later r after before _ ⟨cpu, isCurrent, allocates⟩
    obtain ⟨retains, refreshes⟩ := before.forkable.sound.sysPageAlloc_effect
      parent.isLt (fun f finds => (finds_self isCurrent).unique finds)
      (by decide) (by decide) allocates parent
    have during' := before.keep retains refreshes
    split
    · exact during'
    · rw [request_bind]
      refine .perform (during_stable _) during' ?_
      rintro later r after before _ ⟨cpu, isCurrent, sets⟩
      have same := spaces_of_sysEnvSetPgfaultUpcall isCurrent sets
      have entries := entry_of_spaces same
      exact before.keep (before.forkable.sound.retains_of_spaces same parent)
        fun x => .inl (congrFun entries x)
  · exact during

/-! ## Behind the loop -/

theorem severed_stable {permits : Option ForkAction → Kernel →
      Option UserEvent → Prop} (pending : Option ForkAction)
    (child : Fin nenv) :
    (forking build parent).Stable permits pending
      fun kernel => kernel.Severed pool parent child := by
  rintro kernel next severed ⟨event, _, goes⟩
  exact UserEvent.Goes.severed goes severed

/-- All pages have been handed over. -/
theorem Kernel.DuringFork.severed {child : Fin nenv}
    (during : kernel.DuringFork pool parent d (entriesOf child) userPages)
    (other : child ≠ parent) : kernel.Severed pool parent child := by
  have all : handed parent userPages = entriesOf parent := by
    ext x
    exact ⟨fun isHanded => isHanded.1,
      fun isParent => ⟨isParent, .inl (pageNumber_lt x)⟩⟩
  have fenced := during.fenced
  rw [all] at fenced
  exact ⟨during.forkable.sound, other, fenced.given, fenced.handed⟩

/-- Calls that only clear entries. -/
theorem Kernel.Severed.since {child : Fin nenv}
    (severed : kernel.Severed pool parent child)
    (since : SoundSince pool (fun _ _ _ => False) kernel.spaces.words next) :
    next.Severed pool parent child := by
  refine severed.refresh since.sound fun x => ?_
  have rewritten := Spaces.Since.rewritten since
  rcases rewritten x.1 x.2.1 x.2.2 with same | zero | ⟨_, _, never, _⟩
  · exact .inl same
  · exact .inr (.inl (congrArg frameOf zero))
  · exact never.elim

theorem ensures_startChild {child : Int}
    (named : (Int32.ofInt child).toUInt32 ≠ 0)
    (severed : kernel.Severed pool parent
      (envOf (Int32.ofInt child).toUInt32)) :
    (forking build parent).Ensures (ForkPermits parent)
      (fun r next => r = child ∧
        next.Severed pool parent (envOf (Int32.ofInt child).toUInt32))
      (startChild child) kernel := by
  unfold startChild
  dsimp only
  generalize (Int32.ofInt child).toUInt32 = envid at named severed ⊢
  rw [request_bind]
  refine .perform (severed_stable _ _) severed ?_
  rintro later r after before _ ⟨cpu, isCurrent, allocates⟩
  have effect := before.sound.sysPageAlloc_effect (envOf envid).isLt
    (fun f finds => slot_of_finds finds named) (by decide) (by decide)
    allocates parent
  split
  · exact ensures_panics _ _
  · rw [request_bind]
    refine .perform (severed_stable _ _)
      (before.refresh effect.1.sound effect.2) ?_
    rintro later upcall after before _ ⟨cpu, isCurrent, reads⟩
    have same : after = later := by
      cases reads
      rfl
    subst same
    rw [request_bind]
    refine .perform (severed_stable _ _) before ?_
    rintro later r after before _ ⟨cpu, isCurrent, sets⟩
    split
    · exact ensures_panics _ _
    · rw [request_bind]
      have since : SoundSince pool (fun _ _ _ => False) later.spaces.words
          after :=
        (triple_sysEnvSetPgfaultUpcall_since envid upcall).of_returns
          before.sound.since sets
      refine .perform (severed_stable _ _) (before.since since) ?_
      rintro later r after before _ ⟨cpu, isCurrent, sets⟩
      split
      · exact ensures_panics _ _
      · have since : SoundSince pool (fun _ _ _ => False) later.spaces.words
            after :=
          (@triple_sysEnvSetStatus_since _ (fun _ => True) _ _ _ envid
            2).of_returns before.sound.since sets
        exact ⟨rfl, before.since since⟩

theorem ensures_forkInParent {child : Int}
    (named : (Int32.ofInt child).toUInt32 ≠ 0)
    (other : envOf (Int32.ofInt child).toUInt32 ≠ parent)
    (during : kernel.DuringFork pool parent d
      (entriesOf (envOf (Int32.ofInt child).toUInt32)) 0) :
    (forking build parent).Ensures (ForkPermits parent)
      (fun r next => r = child ∧
        next.Severed pool parent (envOf (Int32.ofInt child).toUInt32))
      (forkInParent child) kernel := by
  unfold forkInParent
  refine .bind ((ensures_duppages named other (Nat.zero_add _) during).weaken
    fun _ next passed => ?_)
  exact ensures_startChild named (passed.severed other)

/-! ## `fork` -/

/-- Once `fork` has returned a child, the two are isolated. -/
def ForkIsolates (pool : List Nat) (parent : Fin nenv) (r : Int)
    (kernel : Kernel) : Prop :=
  0 < r → kernel.Severed pool parent (envOf (Int32.ofInt r).toUInt32)

theorem ensures_fork (during : kernel.DuringFork pool parent d ∅ 0)
    (pgfaultHandler upcall : UInt32) :
    (forking build parent).Ensures (ForkPermits parent)
      (ForkIsolates pool parent) (fork pgfaultHandler upcall) kernel := by
  unfold fork
  refine .bind ((ensures_setPgfaultHandler during pgfaultHandler
    upcall).weaken fun _ next during => ?_)
  rw [request_bind]
  refine .perform (during_stable _) during ?_
  rintro later r after before _ ⟨cpu, isCurrent, forks⟩
  have sound := before.forkable.sound
  split
  · exact ensures_panics _ _
  · rename_i succeeds
    split
    · exact fun impossible => absurd impossible (by decide)
    · rcases sound.triple_sysExofork_spawns.of_returns rfl forks with
        failed | ⟨newenv, spawns, named, isSlot⟩
      · exact absurd failed succeeds
      · have since : SoundSince pool (fun _ _ _ => False) later.spaces.words
            after :=
          (@triple_sysExofork_since _ (fun _ => True) _ _ _).of_returns
            sound.since forks
        have slot : envOf (Int32.ofInt r).toUInt32 =
          ⟨newenv, spawns.below⟩ := Fin.ext isSlot
        obtain ⟨other, during'⟩ := before.spawn since.sound spawns
        rw [← slot] at other during'
        refine (ensures_forkInParent named other during').weaken ?_
        rintro result last ⟨rfl, severed⟩ _
        exact severed

/-- The address space of a program that calls `fork`: the kernel has made its
directory, its pages are for user mode, none of them is at `PFTEMP`, and the page
of the exception stack is mapped nowhere else. -/
structure Kernel.MayFork (kernel : Kernel) (parent : Fin nenv) (d : Nat) :
    Prop where
  windowed : kernel.Windowed parent d
  user : ∀ x : Slot, x.1 = parent → kernel.entry x = 0 ∨
    kernel.entry x &&& PhysMem.userRights false = PhysMem.userRights false
  temp : kernel.entry (slotAt parent userPage_pfTemp.1) = 0
  stack : ∀ x y : Slot, x.1 = parent → y.1 = parent →
    x.pageNumber = exceptionPage → y.pageNumber ≠ exceptionPage →
    ¬ Sharing.Shares frameOf kernel.entry x y

theorem Kernel.MayFork.during (mayFork : kernel.MayFork parent d)
    (sound : SoundAt pool kernel) : kernel.DuringFork pool parent d ∅ 0 := by
  refine ⟨⟨sound, mayFork.windowed, mayFork.user, .inl mayFork.temp⟩, ?_, ?_, ?_⟩
  · exact fun x isChild => absurd isChild id
  · exact fun x _ y isChild => absurd isChild id
  · rintro x ⟨isParent, before | isStack⟩ y ⟨isParent', notDone⟩ shares
    · omega
    · exact absurd shares (mayFork.stack x y isParent isParent' isStack
        fun isStack' => notDone ⟨isParent', .inr isStack'⟩)

/-- `fork` in `parent`, from any address space on. -/
def forkMachine (build : Build) (parent : Fin nenv)
    (pgfaultHandler upcall : UInt32) :
    Machine (ForkM Int × Kernel) (Option UserEvent) :=
  (forking build parent).machine fun state =>
    state.1 = fork pgfaultHandler upcall ∧
      ∃ pool d, SoundAt pool state.2 ∧ state.2.MayFork parent d

/-- If `fork` has returned in the parent, the parent and the child are
isolated. -/
def IsolatedAfter (parent : Nat) (state : ForkM Int × Kernel) : Prop :=
  ∀ r, state.1 = .done r → 0 < r →
    state.2.KeptApart parent (envx (Int32.ofInt r).toUInt32)

end FeaturesOS.Scheduler

import FeaturesOS.Scheduler.Transfers

/-!
# The accounts over whole runs

Every trap keeps the accounts, as long as pages are mapped with flags within
`PTE_SYSCALL` and no count of a page wraps around.
-/

namespace FeaturesOS.Scheduler

open Entry

variable {pool : List Nat} {kernel next : Kernel} {left : Kernel → Prop}
variable {build : Build} {surroundings : Surroundings} {cpu current e : Nat}
variable {rule : Rule} {first : Holder → UInt32}

/-! ## System calls -/

/-- The call maps pages with flags within `PTE_SYSCALL`, and no page more often
than `pp_ref` counts. -/
def Kernel.Countable (kernel : Kernel) (cpu current : Nat)
    (syscallno a1 a2 a3 a4 a5 : UInt32) : Prop :=
  match syscallno.toNat with
  | 5 => WithinSyscall a5 ∧ ∀ src dst, kernel.Finds cpu a1 true src →
      kernel.Finds cpu a3 true dst → ¬ kernel.Overflows src a2 dst a4
  | 11 => ∀ dst, kernel.Finds cpu a1 false dst →
      ¬ kernel.Overflows current a3 dst (kernel.envs dst).envIpcDstva
  | _ => True

/-- `sys_page_map` gets as far as `page_insert` of the page in `dst`. -/
def Kernel.MapsPage (kernel : Kernel) (cpu : Nat)
    (srcenvid srcva dstenvid dstva perm : UInt32) (dst page : Nat) : Prop :=
  UserPage srcva ∧ UserPage dstva ∧ kernel.Finds cpu dstenvid true dst ∧
    ∃ src, kernel.Finds cpu srcenvid true src ∧
      kernel.Shares src srcva (pteP ||| pteU ||| perm) page

/-- `sys_ipc_try_send` gets as far as `page_alloc` for `dst`. -/
def Kernel.SuppliesPage (kernel : Kernel) (surroundings : Surroundings)
    (cpu current : Nat) (envid srcva perm : UInt32) (dst : Nat) : Prop :=
  kernel.Finds cpu envid false dst ∧ (kernel.envs dst).envIpcRecving = true ∧
    UserPage srcva ∧ (kernel.envs dst).envIpcDstva ≠ 0 ∧
    WithinSyscall (perm ||| pteU ||| pteP) ∧
    ∃ srcpte, kernel.sourceWord surroundings current srcva = some srcpte ∧
      ¬ SrcpteRefused srcpte perm

/-- The call maps only pages with flags that the rule allows and that are within
`PTE_SYSCALL`, and no page more often than `pp_ref` counts.  Where there is no
page for a table, or for the receiver, it maps nothing. -/
def Kernel.Permits (rule : Rule) (kernel : Kernel) (surroundings : Surroundings)
    (cpu current : Nat) (syscallno a1 a2 a3 a4 a5 : UInt32) : Prop :=
  match syscallno.toNat with
  | 4 => WithinSyscall (a3 ||| pteU ||| pteP) →
      ∀ e page, rule e page (a3 ||| pteU ||| pteP)
  | 5 => ∀ dst page, kernel.MapsPage cpu a1 a2 a3 a4 a5 dst page →
      kernel.Walks dst a4 →
      WithinSyscall (addedBits page a5) ∧ ¬ kernel.Wraps dst page a4 ∧
        rule dst page (addedBits page (pteP ||| pteU ||| a5))
  | 11 => ∀ dst, kernel.SuppliesPage surroundings cpu current a1 a3 a4 dst →
      kernel.HasRoom dst (kernel.envs dst).envIpcDstva →
      ¬ kernel.Overflows current a3 dst (kernel.envs dst).envIpcDstva ∧
        ∀ page, rule dst page (a4 ||| pteU ||| pteP)
  | _ => True

theorem triple_sysCputs_since (s len : UInt32) :
    Triple (SoundSince pool rule first) (sysCputs build cpu s len)
      (fun _ => SoundSince pool rule first) (SoundSince pool rule first) := by
  refine (triple_theCurenv cpu).bind fun here => ?_
  exact triple_userMemAssert_since.strengthen _ fun _ holds => holds.1

theorem triple_sysEnvDestroy_since (envid : UInt32) :
    Triple (SoundSince pool rule first) (sysEnvDestroy build cpu envid)
      (fun _ => SoundSince pool rule first) (SoundSince pool rule first) := by
  refine (triple_lookupEnv cpu envid true).bind fun result => ?_
  cases result with
  | error r => exact .pure fun _ holds => holds.1
  | ok e =>
      refine (triple_envDestroy_since.strengthen _ fun _ holds =>
        holds.1).bind fun _ => ?_
      exact .pure fun _ since => since

theorem triple_sysExofork_since :
    Triple (SoundSince pool rule first) (sysExofork cpu)
      (fun _ => SoundSince pool rule first) left := by
  refine (triple_theCurenv cpu).bind fun parent => ?_
  refine .bind_read fun parentId => ?_
  refine .strengthen (SoundSince pool rule first) (fun _ holds => holds.1.1) ?_
  refine triple_envAlloc_since.bind fun result => ?_
  cases result with
  | error r => exact .pure fun _ since => since
  | ok newenv =>
      refine .bind_read fun tf => ?_
      refine .bind_modify (SoundSince pool rule first) ?_
        (.read fun _ since => since)
      intro kernel holds
      exact holds.1.updateEnv newenv (fun _ => rfl) (fun _ => rfl) fun _ => rfl

theorem triple_sysEnvSetStatus_since (envid status : UInt32) :
    Triple (SoundSince pool rule first) (sysEnvSetStatus cpu envid status)
      (fun _ => SoundSince pool rule first) left := by
  unfold sysEnvSetStatus
  refine .ite (fun _ => .pure fun _ since => since) fun _ => ?_
  refine (triple_lookupEnv cpu envid true).bind fun result => ?_
  cases result with
  | error r => exact .pure fun _ holds => holds.1
  | ok e =>
      refine .bind_modify (SoundSince pool rule first) ?_
        (.pure fun _ since => since)
      intro kernel holds
      exact holds.1.updateEnv e (fun _ => rfl) (fun _ => rfl) fun _ => rfl

theorem triple_sysEnvSetPgfaultUpcall_since (envid func : UInt32) :
    Triple (SoundSince pool rule first)
      (sysEnvSetPgfaultUpcall build cpu envid func)
      (fun _ => SoundSince pool rule first) (SoundSince pool rule first) := by
  refine (triple_lookupEnv cpu envid true).bind fun result => ?_
  cases result with
  | error r => exact .pure fun _ holds => holds.1
  | ok e =>
      refine (triple_userMemAssert_since.strengthen _ fun _ holds =>
        holds.1).bind fun _ => ?_
      refine .bind_modify (SoundSince pool rule first) ?_
        (.pure fun _ since => since)
      intro kernel sound
      exact sound.updateEnv e (fun _ => rfl) (fun _ => rfl) fun _ => rfl

theorem triple_sysPageAlloc_since (envid va perm : UInt32)
    (allowed : WithinSyscall (perm ||| pteU ||| pteP) →
      ∀ e page, rule e page (perm ||| pteU ||| pteP)) :
    Triple (SoundSince pool rule first) (sysPageAlloc cpu envid va perm)
      (fun _ => SoundSince pool rule first) left := by
  unfold sysPageAlloc
  refine .ite (fun _ => .pure fun _ since => since) fun user => ?_
  refine (triple_lookupEnv cpu envid true).bind fun result => ?_
  cases result with
  | error r => exact .pure fun _ holds => holds.1
  | ok e =>
      exact (triple_envPageAlloc_since (not_not.mp user).1).strengthen _
        fun _ holds => ⟨holds.1, fun within _ => allowed within e⟩

theorem triple_sysPageMap_since (srcenvid srcva dstenvid dstva perm : UInt32) :
    Triple
      (fun kernel => SoundSince pool rule first kernel ∧
        ∀ dst page,
          kernel.MapsPage cpu srcenvid srcva dstenvid dstva perm dst page →
          kernel.Walks dst dstva →
          WithinSyscall (addedBits page perm) ∧
            ¬ kernel.Wraps dst page dstva ∧
            rule dst page (addedBits page (pteP ||| pteU ||| perm)))
      (sysPageMap cpu srcenvid srcva dstenvid dstva perm)
      (fun _ => SoundSince pool rule first) left := by
  unfold sysPageMap
  refine .ite (fun _ => .pure fun _ holds => holds.1) fun srcUser => ?_
  refine .ite (fun _ => .pure fun _ holds => holds.1) fun dstUser => ?_
  refine (triple_lookupEnv cpu srcenvid true).bind fun result => ?_
  cases result with
  | error r => exact .pure fun _ holds => holds.1.1
  | ok src =>
      refine (triple_lookupEnv cpu dstenvid true).bind fun result => ?_
      cases result with
      | error r => exact .pure fun _ holds => holds.1.1.1
      | ok dst =>
          have srcPage := not_not.mp srcUser
          have dstPage := not_not.mp dstUser
          refine (triple_envPageMap_since srcPage.1 dstPage.1).strengthen _ ?_
          rintro kernel ⟨⟨⟨since, permitted⟩, findsSrc⟩, findsDst⟩
          refine ⟨since, fun page shares walks => ?_⟩
          obtain ⟨within, fits, allowed⟩ := permitted dst page
            ⟨srcPage, dstPage, findsDst dst rfl, src, findsSrc src rfl, shares⟩
            walks
          exact ⟨fits, (within.added (by decide)).lt, allowed⟩

theorem triple_sysPageUnmap_since (envid va : UInt32) :
    Triple (SoundSince pool rule first) (sysPageUnmap cpu envid va)
      (fun _ => SoundSince pool rule first) left := by
  unfold sysPageUnmap
  refine .ite (fun _ => .pure fun _ since => since) fun user => ?_
  refine (triple_lookupEnv cpu envid true).bind fun result => ?_
  cases result with
  | error r => exact .pure fun _ holds => holds.1
  | ok e =>
      refine ((triple_pageRemove_since (not_not.mp user).1).strengthen _
        fun _ holds => holds.1).bind fun _ => ?_
      exact .pure fun _ since => since

/-! ## Sending a page -/

variable {src dst page : Nat} {srcva dstva perm va : UInt32} {user : va < utop}

/-- The new page at the receiver does not make the page of the sender wrap
around. -/
theorem Kernel.Supplies.fits {slot : Fin nenv}
    (supplies : kernel.Supplies pool slot user perm page next)
    (sound : SoundAt pool kernel) (srcUser : srcva < utop)
    (isDst : (kernel.envs slot).envPgdir = some e)
    (fits : ¬ kernel.Overflows src srcva slot va) :
    ¬ next.Overflows src srcva slot va := by
  rintro ⟨other, srcpte, found, full, elsewhere⟩
  have soundNext := supplies.sound sound
  have sameEnvs := supplies.envs
  have isDst' : (next.envs slot).envPgdir = some e := by
    rw [sameEnvs]
    exact isDst
  obtain ⟨_, there⟩ := soundNext.lookupPage isDst' user
  rw [supplies.holds] at there
  have different : other ≠ page := by
    rintro rfl
    exact elsewhere _ there
  cases isSrc : (kernel.envs src).envPgdir with
  | none =>
      unfold Kernel.lookupPage at found
      rw [sameEnvs, isSrc] at found
      cases found
  | some d =>
      have isSrc' : (next.envs src).envPgdir = some d := by
        rw [sameEnvs]
        exact isSrc
      obtain ⟨srcBelow, here⟩ := soundNext.lookupPage isSrc' srcUser
      rw [here, Option.some.injEq] at found
      obtain ⟨other', refers, same⟩ := Option.map_eq_some_iff.mp found
      cases same
      have notSlot : Holder.pteAt ⟨src, srcBelow⟩ srcUser ≠
          Holder.pteAt slot user := by
        intro isSlot
        rw [isSlot, supplies.holds] at refers
        exact different (Option.some.inj refers).symm
      have sameWord := supplies.word_other notSlot
      have refersBefore : kernel.mem.holds kernel.spaces.dirs
          (.pteAt ⟨src, srcBelow⟩ srcUser) = some other :=
        (congrArg frameOf sameWord).symm.trans refers
      obtain ⟨_, before⟩ := sound.lookupPage isSrc srcUser
      rw [refersBefore] at before
      obtain ⟨_, beforeThere⟩ := sound.lookupPage isDst user
      cases supplies with
      | @maps free free' mem accounted _ supplied =>
          have busy := accounted.notFree refersBefore
          have isPooled := accounted.tree.pooled _ _ refersBefore
          have counted := supplied.refs other busy
          have ref := accounted.ref isPooled
          have refAfter := supplied.accounted.ref isPooled
          have fullAfter : (mem.pages other).ppRef = 65535 := full
          rw [fullAfter] at refAfter
          have isFull : 65535 = references (mem.holds kernel.spaces.dirs)
            other := refAfter
          have bounded := accounted.bounded other
          by_cases maps : kernel.mem.holds kernel.spaces.dirs
              (.pteAt slot user) = some other
          · rw [if_pos maps] at counted
            omega
          · apply fits
            refine ⟨other, _, before, ?_, ?_⟩
            · apply UInt16.toNat_inj.mp
              rw [ref]
              rw [if_neg maps] at counted
              change _ = 65535
              omega
            · intro dstpte isFound
              rw [beforeThere, Option.some.injEq] at isFound
              obtain ⟨_, refers', same⟩ := Option.map_eq_some_iff.mp isFound
              cases same
              exact maps refers'

/-- Without a directory nothing can be mapped. -/
theorem envPageAlloc_noDir {r : Int} (noDir : (kernel.envs dst).envPgdir = none)
    (returns : envPageAlloc dst dstva perm kernel = .returns r next) :
    r < 0 := by
  by_cases allowed : checkPerm perm < 0
  · unfold envPageAlloc at returns
    rw [if_pos allowed] at returns
    cases returns
    exact allowed
  · rw [envPageAlloc_run allowed] at returns
    cases taken : kernel.mem.pageAlloc true with
    | mk mem found =>
        rw [taken] at returns
        cases found with
        | none =>
            cases returns
            decide
        | some page =>
            have noDir' : ((kernel.setMem mem).envs dst).envPgdir = none := noDir
            dsimp only at returns
            rw [insertPage_run, noDir'] at returns
            cases returns

/-- A count that does not wrap around in `sys_ipc_try_send` does not do so in
`page_insert`. -/
theorem Kernel.Shares.fits (shares : kernel.Shares src srcva perm page)
    (fits : ¬ kernel.Overflows src srcva dst dstva) :
    ¬ kernel.Wraps dst page dstva := by
  obtain ⟨srcpte, found, _⟩ := shares
  rintro ⟨d, isDir, isLast, notMapped, _⟩
  refine fits ⟨page, srcpte, found, isLast, ?_⟩
  intro dstpte maps
  apply notMapped
  unfold Kernel.lookupPage at maps
  rw [isDir] at maps
  exact ⟨dstpte, maps⟩

/-- `page_insert` fails where there is no page for a table. -/
theorem Kernel.walks_of_insertPage {r : Int}
    (returns : insertPage e page va perm kernel = .returns r next)
    (succeeds : ¬ r < 0) : kernel.Walks e va := by
  rw [insertPage_run] at returns
  cases isDir : (kernel.envs e).envPgdir with
  | none =>
      rw [isDir] at returns
      cases returns
  | some d =>
      refine ⟨d, isDir, ?_⟩
      by_contra neither
      rw [not_or, not_not, not_not] at neither
      obtain ⟨noTable, noPage⟩ := neither
      have empty : kernel.mem.pageAlloc true = (kernel.mem, none) := by
        unfold PhysMem.pageAlloc
        rw [noPage]
      have fails : kernel.mem.pageInsert d page va perm =
          some (kernel.mem, -eNoMem) := by
        unfold PhysMem.pageInsert PhysMem.pgdirWalk
        rw [if_pos ⟨noTable, rfl⟩, empty]
        rfl
      rw [isDir] at returns
      dsimp only at returns
      rw [fails] at returns
      cases returns
      exact succeeds (by decide)

/-- A successful `env_page_alloc` had room. -/
theorem Kernel.hasRoom_of_envPageAlloc {r : Int}
    (returns : envPageAlloc dst va perm kernel = .returns r next)
    (succeeds : ¬ r < 0) : kernel.HasRoom dst va := by
  by_cases allowed : checkPerm perm < 0
  · unfold envPageAlloc at returns
    rw [if_pos allowed] at returns
    cases returns
    exact absurd allowed succeeds
  · rw [envPageAlloc_run allowed] at returns
    cases taken : kernel.mem.pageAlloc true with
    | mk mem found =>
        rw [taken] at returns
        cases found with
        | none =>
            cases returns
            exact absurd (by decide) succeeds
        | some page =>
            exact ⟨mem, page, taken, walks_of_insertPage returns succeeds⟩

theorem triple_envPageAlloc_fits (srcUser : srcva < utop)
    (dstUser : dstva < utop) :
    Triple
      (fun kernel => SoundSince pool rule first kernel ∧
        (WithinSyscall perm → kernel.HasRoom dst dstva →
          ¬ kernel.Overflows src srcva dst dstva ∧
            ∀ page, rule dst page perm))
      (envPageAlloc dst dstva perm)
      (fun r kernel => SoundSince pool rule first kernel ∧
        (¬ r < 0 → WithinSyscall perm ∧
          ¬ kernel.Overflows src srcva dst dstva ∧
            ∀ page, rule dst page perm)) left := by
  constructor
  rintro kernel ⟨since, permitted⟩
  have kept := (@triple_envPageAlloc_since pool dst dstva perm left rule first
    dstUser).run kernel
      ⟨since, fun within room => (permitted within room).2⟩
  cases outcome : envPageAlloc dst dstva perm kernel with
  | stops => trivial
  | leaves next =>
      rw [outcome] at kept
      exact kept
  | returns r next =>
      rw [outcome] at kept
      refine ⟨kept, fun succeeds => ?_⟩
      cases isDst : (kernel.envs dst).envPgdir with
      | none => exact absurd (envPageAlloc_noDir isDst outcome) succeeds
      | some d =>
          have sound := since.sound
          have below : dst < nenv := Spaces.Sound.below sound isDst
          obtain ⟨r', next', allocates, supplied⟩ :=
            @SoundAt.envPageAlloc _ _ _ _ _ perm sound below isDst dstUser
          cases outcome.symm.trans allocates
          rcases supplied with failed | ⟨_, page, supplies⟩
          · exact absurd failed succeeds
          · have within : WithinSyscall perm := by
              cases supplies with
              | maps _ within _ => exact within
            obtain ⟨fits, allowed⟩ := permitted within
              (Kernel.hasRoom_of_envPageAlloc outcome succeeds)
            exact ⟨within, supplies.fits sound srcUser isDst fits, allowed⟩

theorem triple_ipcTransfer_since (srcUser : srcva < utop) :
    Triple
      (fun kernel => SoundSince pool rule first kernel ∧
        ((kernel.envs dst).envIpcDstva ≠ 0 → WithinSyscall perm →
          kernel.HasRoom dst (kernel.envs dst).envIpcDstva →
          ¬ kernel.Overflows src srcva dst (kernel.envs dst).envIpcDstva ∧
            ∀ page, rule dst page perm))
      (ipcTransfer src srcva dst perm)
      (fun _ => SoundSince pool rule first) left := by
  refine .bind_read fun dstva => ?_
  refine .ite (fun _ => .pure fun _ holds => holds.1.1) fun asked => ?_
  refine .strengthen
    (fun kernel => dstva < utop ∧
      (SoundSince pool rule first kernel ∧
        (WithinSyscall perm → kernel.HasRoom dst dstva →
          ¬ kernel.Overflows src srcva dst dstva ∧
            ∀ page, rule dst page perm))) ?_ ?_
  · rintro kernel ⟨⟨since, permitted⟩, isTarget⟩
    rw [isTarget] at permitted
    refine ⟨?_, since, permitted asked⟩
    rw [← isTarget]
    exact (Spaces.Sound.received since.sound dst).1
  · refine .assuming fun dstUser => ?_
    refine (triple_envPageAlloc_fits srcUser dstUser).bind fun r => ?_
    refine .ite (fun _ => .pure fun _ holds => holds.1) fun succeeds => ?_
    refine Triple.bind
      (?_ : Triple _ _ (fun _ => SoundSince pool rule first) left) fun r => ?_
    · refine (triple_envPageMap_since srcUser dstUser).strengthen _ ?_
      rintro kernel ⟨since, after⟩
      obtain ⟨within, fits, allowed⟩ := after succeeds
      refine ⟨since, fun page shares _ => ⟨shares.fits fits, ?_⟩⟩
      rw [within.addedBits]
      exact ⟨within.lt, allowed page⟩
    · refine .ite (fun _ => .pure fun _ since => since) fun _ => ?_
      refine .bind_modify (SoundSince pool rule first) ?_
        (.pure fun _ since => since)
      intro kernel since
      exact since.updateEnv dst (fun _ => rfl) (fun _ => rfl) fun _ => rfl

theorem triple_ipcDeliver_since (sender : Nat) (value : UInt32) :
    Triple (SoundSince pool rule first) (ipcDeliver sender dst value)
      (fun _ => SoundSince pool rule first) left := by
  refine .bind_modify (SoundSince pool rule first) ?_
    (.pure fun _ since => since)
  intro kernel sound
  exact sound.updateEnv dst (fun _ => rfl) (fun _ => rfl) fun _ => rfl

theorem triple_sysIpcTrySend_since (envid value srcva perm : UInt32) :
    Triple
      (fun kernel =>
        (SoundSince pool rule first kernel ∧ kernel.cpus cpu = some current) ∧
        ∀ dst,
          kernel.SuppliesPage surroundings cpu current envid srcva perm dst →
          kernel.HasRoom dst (kernel.envs dst).envIpcDstva →
          ¬ kernel.Overflows current srcva dst (kernel.envs dst).envIpcDstva ∧
            ∀ page, rule dst page (perm ||| pteU ||| pteP))
      (sysIpcTrySend surroundings cpu envid value srcva perm)
      (fun _ => SoundSince pool rule first) left := by
  refine (triple_lookupEnv cpu envid false).bind fun result => ?_
  cases result with
  | error r => exact .pure fun _ holds => holds.1.1.1
  | ok dst =>
      refine (triple_theCurenv cpu).bind fun here => ?_
      refine .strengthen
        (fun kernel => SoundSince pool rule first kernel ∧
          (kernel.SuppliesPage surroundings cpu here envid srcva perm dst →
            kernel.HasRoom dst (kernel.envs dst).envIpcDstva →
            ¬ kernel.Overflows here srcva dst (kernel.envs dst).envIpcDstva ∧
              ∀ page, rule dst page (perm ||| pteU ||| pteP)) ∧
          kernel.Finds cpu envid false dst)
        ?_ ?_
      · rintro kernel ⟨⟨⟨⟨since, isCurrent⟩, permitted⟩, finds⟩, isHere⟩
        cases isCurrent.symm.trans isHere
        exact ⟨since, permitted dst, finds dst rfl⟩
      · refine .bind_read fun recving => ?_
        refine .ite (fun _ => .pure fun _ holds => holds.1.1) fun waits => ?_
        refine .ite (fun _ => ?_) fun below => ?_
        · refine .bind_modify (SoundSince pool rule first) ?_
            (triple_ipcDeliver_since _ _)
          intro kernel holds
          exact holds.1.1.updateEnv dst (fun _ => rfl) (fun _ => rfl)
            fun _ => rfl
        · refine .ite (fun _ => .pure fun _ holds => holds.1.1) fun aligned => ?_
          refine .bind_read fun word => ?_
          cases word with
          | none => exact .stop
          | some srcpte =>
              refine .ite (fun _ => .pure fun _ holds => holds.1.1.1)
                fun granted => ?_
              have isUser : srcva < utop := UInt32.not_le.mp below
              have isPage : UserPage srcva := ⟨isUser, not_not.mp aligned⟩
              have recvs : recving = true := not_not.mp waits
              refine Triple.bind
                (?_ : Triple _ _ (fun _ => SoundSince pool rule first) left)
                fun r => .ite (fun _ => .pure fun _ since => since)
                  fun _ => triple_ipcDeliver_since _ _
              refine (triple_ipcTransfer_since isUser).strengthen _ ?_
              rintro kernel ⟨⟨⟨since, permitted, finds⟩, isRecving⟩, isWord⟩
              exact ⟨since, fun asked within => permitted
                ⟨finds, isRecving.trans recvs, isPage, asked, within, srcpte,
                  isWord, granted⟩⟩

theorem triple_sysIpcRecv_since (dstva : UInt32) :
    Triple (SoundSince pool rule first) (sysIpcRecv build cpu dstva)
      (fun _ => SoundSince pool rule first) (SoundSince pool rule first) := by
  refine (triple_theCurenv cpu).bind fun here => ?_
  refine .bind_modify (SoundSince pool rule first) ?_ ?_
  · intro kernel holds
    exact holds.1.updateEnv here (fun _ => rfl) (fun _ => rfl) fun _ => rfl
  · refine .ite (fun _ => .pure fun _ since => since) fun user => ?_
    refine .bind_modify (SoundSince pool rule first) ?_ triple_schedYield_since
    intro kernel sound
    exact sound.setTarget here (not_not.mp user) _

theorem triple_syscall_since (syscallno a1 a2 a3 a4 a5 : UInt32) :
    Triple
      (fun kernel =>
        (SoundSince pool rule first kernel ∧ kernel.cpus cpu = some current) ∧
        kernel.Permits rule surroundings cpu current syscallno a1 a2 a3 a4 a5)
      (syscall build surroundings cpu syscallno a1 a2 a3 a4 a5)
      (fun _ => SoundSince pool rule first) (SoundSince pool rule first) := by
  have since : ∀ {entry : KernelM Int},
      Triple (SoundSince pool rule first) entry
        (fun _ => SoundSince pool rule first) (SoundSince pool rule first) →
      Triple
        (fun kernel =>
          (SoundSince pool rule first kernel ∧ kernel.cpus cpu = some current) ∧
          kernel.Permits rule surroundings cpu current syscallno a1 a2 a3 a4 a5)
        entry (fun _ => SoundSince pool rule first)
        (SoundSince pool rule first) :=
    fun triple => triple.strengthen _ fun _ holds => holds.1.1
  unfold syscall
  split
  · refine since ((triple_sysCputs_since a1 a2).bind fun _ => ?_)
    exact .pure fun _ since => since
  · exact since (.pure fun _ since => since)
  · exact since (triple_since_of_frame
      (.bind (frame_theCurenv cpu) fun _ => .read))
  · exact since (triple_sysEnvDestroy_since a1)
  · rename_i number
    refine .strengthen
      (fun kernel => (WithinSyscall (a3 ||| pteU ||| pteP) →
        ∀ e page, rule e page (a3 ||| pteU ||| pteP)) ∧
        SoundSince pool rule first kernel) ?_
      (.assuming fun allowed => triple_sysPageAlloc_since a1 a2 a3 allowed)
    rintro kernel ⟨⟨since, _⟩, permits⟩
    simp only [Kernel.Permits, number] at permits
    exact ⟨permits, since⟩
  · rename_i number
    refine (triple_sysPageMap_since a1 a2 a3 a4 a5).strengthen _ ?_
    rintro kernel ⟨⟨since, _⟩, permits⟩
    simp only [Kernel.Permits, number] at permits
    exact ⟨since, permits⟩
  · exact since (triple_sysPageUnmap_since a1 a2)
  · exact since triple_sysExofork_since
  · exact since (triple_sysEnvSetStatus_since a1 a2)
  · exact since (triple_sysEnvSetPgfaultUpcall_since a1 a2)
  · exact since triple_schedYield_since
  · rename_i number
    refine (@triple_sysIpcTrySend_since _ _ surroundings cpu current rule first
      a1 a2 a3 a4).strengthen _ ?_
    rintro kernel ⟨here, permits⟩
    simp only [Kernel.Permits, number] at permits
    exact ⟨here, permits⟩
  · exact since (triple_sysIpcRecv_since a1)
  · exact since (triple_since_of_frame (frame_sysEnvObtenerPrioridad cpu a1))
  · exact since (triple_since_of_frame
      (frame_sysEnvAsignarPrioridad blindToQueues_spaces cpu a1 _))
  · exact since (.pure fun _ since => since)

/-! ## Traps -/

theorem lt_utop {n k : Nat} (within : va.toNat + n ≤ utop.toNat)
    (below : k < n) : va + UInt32.ofNat k < utop := by
  have isUtop : utop.toNat = 4005560320 := by decide
  rw [UInt32.lt_iff_toNat_lt, UInt32.toNat_add, UInt32.toNat_ofNat']
  omega

/-- The stores of `page_fault_handler` stay below `UTOP`. -/
theorem triple_storeFault_since (frame : Trapframe) (faultVa : UInt32) :
    let exstk := uxStackTop - 4096
    let exstkTop := uxStackTop - 1
    let outside := frame.tfEsp < exstk ∨ frame.tfEsp > exstkTop
    let tmp :=
      if outside then exstkTop - uTrapframeSize
      else frame.tfEsp - 4 - uTrapframeSize
    Triple (SoundSince pool rule first)
        (storeWords e (frame.tfEsp - 4) (if outside then [] else [0]))
        (fun _ => SoundSince pool rule first) left ∧
      Triple (SoundSince pool rule first)
        (storeWords e tmp (uTrapframe frame faultVa))
        (fun _ => SoundSince pool rule first) left := by
  intro exstk exstkTop outside tmp
  have isUtop : utop.toNat = 4005560320 := by decide
  have isTop : exstkTop.toNat = 4005560319 := by decide
  have isBase : exstk.toNat = 4005556224 := by decide
  have size : (uTrapframe frame faultVa).length = 13 := rfl
  by_cases isOutside : outside
  · have isTmp : tmp = exstkTop - uTrapframeSize := if_pos isOutside
    constructor
    · rw [if_pos isOutside]
      apply triple_storeWords_since
      intro k below
      exact absurd below (Nat.not_lt_zero k)
    · apply triple_storeWords_since
      intro k below
      rw [size] at below
      refine lt_utop ?_ below
      rw [isTmp, isUtop]
      decide
  · have isTmp : tmp = frame.tfEsp - 4 - uTrapframeSize := if_neg isOutside
    have inside : 4005556224 ≤ frame.tfEsp.toNat ∧
        frame.tfEsp.toNat ≤ 4005560319 := by
      have low : ¬ frame.tfEsp < exstk := fun low => isOutside (.inl low)
      have high : ¬ frame.tfEsp > exstkTop := fun high =>
        isOutside (.inr high)
      rw [UInt32.not_lt, UInt32.le_iff_toNat_le, isBase] at low
      rw [gt_iff_lt, UInt32.not_lt, UInt32.le_iff_toNat_le, isTop] at high
      exact ⟨low, high⟩
    have scratch : (frame.tfEsp - 4).toNat = frame.tfEsp.toNat - 4 := by
      apply UInt32.toNat_sub_of_le
      rw [UInt32.le_iff_toNat_le]
      change 4 ≤ _
      omega
    have frameAt : tmp.toNat = frame.tfEsp.toNat - 4 - 52 := by
      rw [isTmp, UInt32.toNat_sub_of_le, scratch]
      · rfl
      · rw [UInt32.le_iff_toNat_le, scratch]
        change 52 ≤ _
        omega
    constructor
    · rw [if_neg isOutside]
      apply triple_storeWords_since
      intro k below
      refine lt_utop ?_ below
      rw [scratch, isUtop]
      change _ + 4 * 1 ≤ _
      omega
    · apply triple_storeWords_since
      intro k below
      rw [size] at below
      refine lt_utop ?_ below
      rw [frameAt, isUtop]
      omega

theorem triple_pageFaultHandler_since (frame : Trapframe) (faultVa : UInt32) :
    Triple (SoundSince pool rule first)
      (pageFaultHandler build cpu frame faultVa)
      (fun _ => SoundSince pool rule first) (SoundSince pool rule first) := by
  refine (triple_theCurenv cpu).bind fun here => .bind_read fun upcall => ?_
  refine .strengthen (SoundSince pool rule first) (fun _ holds => holds.1.1) ?_
  refine .ite (fun _ => ?_) fun _ => triple_envDestroy_since
  obtain ⟨scratch, stores⟩ := @triple_storeFault_since pool
    (SoundSince pool rule first) here rule first frame faultVa
  refine triple_userMemAssert_since.bind fun _ => ?_
  refine scratch.bind fun _ => stores.bind fun _ => ?_
  refine .ite (fun _ => .stop) fun _ => ?_
  refine .bind_modify (SoundSince pool rule first) ?_ triple_envRun_since
  intro kernel sound
  exact sound.updateEnv here (fun _ => rfl) (fun _ => rfl) fun _ => rfl

theorem triple_trapDispatch_since (frame : Trapframe) (faultVa : UInt32) :
    Triple
      (fun kernel =>
        (SoundSince pool rule first kernel ∧ kernel.cpus cpu = some current) ∧
        (frame.tfTrapno.toNat = 48 →
          kernel.Permits rule surroundings cpu current frame.tfRegs.regEax
            frame.tfRegs.regEdx frame.tfRegs.regEcx frame.tfRegs.regEbx
            frame.tfRegs.regEdi frame.tfRegs.regEsi))
      (trapDispatch build surroundings cpu frame faultVa)
      (fun _ => SoundSince pool rule first) (SoundSince pool rule first) := by
  unfold trapDispatch
  split
  · exact .pure fun _ holds => holds.1.1
  · exact (triple_pageFaultHandler_since frame faultVa).strengthen _
      fun _ holds => holds.1.1
  · rename_i number
    refine (triple_theCurenv cpu).bind fun here => ?_
    refine ((triple_syscall_since _ _ _ _ _ _).strengthen _
      fun _ holds => ⟨holds.1.1, holds.1.2 number⟩).bind fun result => ?_
    refine .modify fun kernel sound => ?_
    exact sound.updateEnv here (fun _ => rfl) (fun _ => rfl) fun _ => rfl
  · exact .pure fun _ holds => holds.1.1
  · exact triple_schedYield_since.strengthen _ fun _ holds => holds.1.1
  · refine (triple_theCurenv cpu).bind fun here => ?_
    exact triple_envDestroy_since.strengthen _ fun _ holds => holds.1.1.1

/-- A trap whose system call can be counted. -/
def TrapEvent.Countable (kernel : Kernel) : TrapEvent → Prop
  | .user cpu _ frame _ =>
      ∀ current, kernel.cpus cpu = some current →
        (kernel.envs current).envStatus ≠ .dying →
        frame.tfTrapno.toNat = 48 →
        (kernel.saveFrame current frame).Countable cpu current
          frame.tfRegs.regEax frame.tfRegs.regEdx frame.tfRegs.regEcx
          frame.tfRegs.regEbx frame.tfRegs.regEdi frame.tfRegs.regEsi
  | .wake _ => True

/-- The rule allows what the trap maps. -/
def TrapEvent.Permits (rule : Rule) (kernel : Kernel) : TrapEvent → Prop
  | .user cpu surroundings frame _ =>
      ∀ current, kernel.cpus cpu = some current →
        (kernel.envs current).envStatus ≠ .dying →
        frame.tfTrapno.toNat = 48 →
        (kernel.saveFrame current frame).Permits rule surroundings cpu current
          frame.tfRegs.regEax frame.tfRegs.regEdx frame.tfRegs.regEcx
          frame.tfRegs.regEbx frame.tfRegs.regEdi frame.tfRegs.regEsi
  | .wake _ => True

theorem spaces_saveFrame (kernel : Kernel) (current : Nat) (frame : Trapframe) :
    (kernel.saveFrame current frame).spaces = kernel.spaces :=
  spaces_updateEnv kernel current (fun _ => rfl) (fun _ => rfl) fun _ => rfl

theorem SoundSince.saveFrame (since : SoundSince pool rule first kernel)
    (current : Nat) (frame : Trapframe) :
    SoundSince pool rule first (kernel.saveFrame current frame) := by
  unfold SoundSince
  rw [spaces_saveFrame]
  exact since

theorem SoundAt.saveFrame (sound : SoundAt pool kernel) (current : Nat)
    (frame : Trapframe) : SoundAt pool (kernel.saveFrame current frame) := by
  unfold SoundAt
  rw [spaces_saveFrame]
  exact sound

theorem triple_trap_since (frame : Trapframe) (faultVa : UInt32)
    {returned : Unit → Kernel → Prop} :
    Triple
      (fun kernel => SoundSince pool rule first kernel ∧
        TrapEvent.Permits rule kernel (.user cpu surroundings frame faultVa))
      (trap build surroundings cpu frame faultVa) returned
      (SoundSince pool rule first) := by
  refine (triple_theCurenv cpu).bind fun here => .bind_read fun status => ?_
  split
  · refine (triple_envFree_since.strengthen _ fun _ holds =>
      holds.1.1.1).bind fun _ => ?_
    exact .bind_modify (SoundSince pool rule first) (fun _ since => since)
      triple_schedYield_since
  · rename_i lives
    refine .bind_modify _ ?_
      ((@triple_trapDispatch_since pool build surroundings cpu here rule first
        frame faultVa).bind fun _ => ?_)
    · rintro kernel ⟨⟨⟨since, permits⟩, isCurrent⟩, rfl⟩
      exact ⟨⟨since.saveFrame here frame, isCurrent⟩,
        permits here isCurrent lives⟩
    · refine .bind_read fun running => ?_
      refine .strengthen (SoundSince pool rule first)
        (fun _ holds => holds.1) ?_
      cases running with
      | some current => exact triple_envRun_since
      | none => exact triple_schedYield_since

/-! ## Booting -/

theorem triple_regionAllocFrom_since (pages : Nat) (va : UInt32)
    (within : va.toNat + pages * 4096 ≤ utop.toNat)
    (allowed : ∀ page, rule e page (pteU ||| pteW)) :
    Triple (SoundSince pool rule first) (regionAllocFrom e pages va)
      (fun _ => SoundSince pool rule first) left := by
  induction pages generalizing va with
  | zero => exact .pure fun _ since => since
  | succ pages induction =>
      have isUtop : utop.toNat = 4005560320 := by decide
      have user : va < utop := by
        rw [UInt32.lt_iff_toNat_lt]
        omega
      have next : (va + 4096).toNat = va.toNat + 4096 := by
        rw [UInt32.toNat_add]
        change (va.toNat + 4096) % 2 ^ 32 = _
        omega
      refine (triple_pageAlloc_since false).bind fun found => ?_
      cases found with
      | none => exact .stop
      | some page =>
          refine ((triple_insertPage_since user).strengthen _
            fun _ holds => ⟨holds.1, fun _ _ => .inr
              ⟨holds.2 page rfl e va, by decide, allowed page⟩⟩).bind
                fun r => ?_
          refine .ite (fun _ => .stop) fun _ => ?_
          apply induction
          rw [next]
          omega

theorem triple_regionAlloc_since (va len : UInt32)
    (allowed : ∀ page, rule e page (pteU ||| pteW)) :
    Triple (SoundSince pool rule first) (regionAlloc e va len)
      (fun _ => SoundSince pool rule first) left := by
  refine .ite (fun _ => .stop) fun fits => ?_
  by_cases empty : ((roundUp (va + len)).toNat - (roundDown va).toNat) / pgSize =
      0
  · rw [empty]
    exact .pure fun _ since => since
  · refine triple_regionAllocFrom_since _ _ ?_ allowed
    have below : (roundUp (va + len)).toNat ≤ utop.toNat :=
      UInt32.le_iff_toNat_le.mp (UInt32.not_lt.mp fits)
    unfold pgSize at empty ⊢
    omega

theorem triple_loadIcode_since (entry : UInt32)
    (segments : List (UInt32 × UInt32))
    (allowed : ∀ page, rule e page (pteU ||| pteW)) :
    Triple (SoundSince pool rule first) (loadIcode e entry segments)
      (fun _ => SoundSince pool rule first) left := by
  induction segments with
  | nil =>
      refine (triple_regionAlloc_since _ _ allowed).bind fun _ => ?_
      refine .modify fun kernel since => ?_
      exact since.updateEnv e (fun _ => rfl) (fun _ => rfl) fun _ => rfl
  | cons segment segments induction =>
      exact (triple_regionAlloc_since _ _ allowed).bind fun _ => induction

theorem triple_envCreate_since (entry : UInt32)
    (segments : List (UInt32 × UInt32))
    (allowed : ∀ e page, rule e page (pteU ||| pteW)) :
    Triple (SoundSince pool rule first) (envCreate cpu entry segments)
      (fun _ => SoundSince pool rule first) left := by
  refine triple_envAlloc_since.bind fun result => ?_
  cases result with
  | error r => exact .stop
  | ok e => exact triple_loadIcode_since entry segments (allowed e)

/-- Creating an environment keeps the accounts. -/
theorem SoundAt.create (sound : SoundAt pool kernel)
    (allowed : ∀ e page, rule e page (pteU ||| pteW)) {entry : UInt32}
    {segments : List (UInt32 × UInt32)}
    (created : envCreate cpu entry segments kernel = .returns () next) :
    SoundSince pool rule kernel.spaces.words next :=
  (@triple_envCreate_since pool (fun _ => True) _ _ _ entry segments
    allowed).of_returns sound.since created

theorem sound_of_boot (boot : kernel.Boot) : ∃ pool, SoundAt pool kernel := by
  induction boot with
  | initial booted => exact ⟨_, Spaces.sound_initial booted⟩
  | create _ created induction =>
      obtain ⟨pool, sound⟩ := induction
      have since := @SoundAt.create pool _ _ _ (fun _ _ _ => True) sound
        (fun _ _ => trivial) _ _ created
      exact ⟨pool, since.sound⟩

/-! ## Runs -/

/-- One trap keeps the accounts and maps only what the rule allows. -/
theorem SoundAt.step_since {event : TrapEvent} (sound : SoundAt pool kernel)
    (permits : event.Permits rule kernel)
    (step : (smp build).Step kernel event next) :
    SoundSince pool rule kernel.spaces.words next := by
  obtain ⟨_, leaves⟩ := step
  cases event with
  | user cpu surroundings frame faultVa =>
      have run := (@triple_trap_since pool build surroundings cpu rule
        kernel.spaces.words frame faultVa fun _ _ => True).run kernel
          ⟨sound.since, permits⟩
      change trap build surroundings cpu frame faultVa kernel = _ at leaves
      rwa [leaves] at run
  | wake cpu =>
      have run := (@triple_schedYield_since pool cpu Unit rule
        kernel.spaces.words build fun _ _ => True).run kernel sound.since
      change schedYield build cpu kernel = _ at leaves
      rwa [leaves] at run

theorem Kernel.Countable.permits {syscallno a1 a2 a3 a4 a5 : UInt32}
    (countable : kernel.Countable cpu current syscallno a1 a2 a3 a4 a5) :
    kernel.Permits (fun _ _ _ => True) surroundings cpu current syscallno a1 a2
      a3 a4 a5 := by
  unfold Kernel.Countable at countable
  unfold Kernel.Permits
  split
  · exact fun _ _ _ => trivial
  · rename_i number
    simp only [number] at countable
    obtain ⟨within, fits⟩ := countable
    rintro dst page ⟨_, _, findsDst, src, findsSrc, shares⟩ _
    exact ⟨within.and _, shares.fits (fits src dst findsSrc findsDst), trivial⟩
  · rename_i number
    simp only [number] at countable
    rintro dst ⟨finds, _⟩ _
    exact ⟨countable dst finds, fun _ => trivial⟩
  · trivial

theorem TrapEvent.Countable.permits {event : TrapEvent}
    (countable : event.Countable kernel) :
    event.Permits (fun _ _ _ => True) kernel := by
  cases event with
  | user cpu surroundings frame faultVa =>
      intro current isCurrent lives number
      exact (countable current isCurrent lives number).permits
  | wake cpu => trivial

/-- One trap keeps the accounts. -/
theorem SoundAt.step {event : TrapEvent} (sound : SoundAt pool kernel)
    (countable : event.Countable kernel)
    (step : (smp build).Step kernel event next) : SoundAt pool next :=
  (sound.step_since countable.permits step).sound

/-- The accounts are right in every state that countable traps lead to. -/
theorem sound_of_reachable
    (reachable : (smp build).Reachable (fun kernel event =>
      event.Countable kernel) kernel) :
    ∃ pool, SoundAt pool kernel :=
  reachable.invariant (fun _ boot => sound_of_boot boot)
    fun _ _ _ ⟨pool, sound⟩ countable step =>
      ⟨pool, sound.step countable step⟩

end FeaturesOS.Scheduler

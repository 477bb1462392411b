import FeaturesOS.Scheduler.AccountRuns

/-!
# The isolation of the user mappings

Below `UTOP` the tables of the environments name only pages that `page_alloc` has
handed out, with flags within `PTE_SYSCALL`, and sharing a page never makes it
writable.  A run keeps to this as long as `sys_page_map` adds no other bits to an
entry, no `pp_ref` wraps around and no page is sent to be written from an address
that maps none.
-/

namespace FeaturesOS.Scheduler

open Entry

/-- The states to which booting leads from a memory. -/
inductive Kernel.BootFrom (mem : PhysMem) (kernPgdir : Nat) : Kernel → Prop where
  | initial : BootFrom mem kernPgdir (Kernel.initial mem kernPgdir)
  | create {kernel next : Kernel} {cpu : Nat} {entry : UInt32}
      {segments : List (UInt32 × UInt32)} :
      BootFrom mem kernPgdir kernel →
      envCreate cpu entry segments kernel = .returns () next →
      BootFrom mem kernPgdir next

/-- The page has been handed out by `page_alloc` and not been freed since, and it
is neither a page directory nor a page table. -/
structure Kernel.UserFrame (kernel : Kernel) (pool : List Nat) (page : Nat) :
    Prop where
  pooled : page ∈ pool
  handedOut : ¬ kernel.mem.OnFreeList page
  noDir : ∀ e, (kernel.envs e).envPgdir ≠ some page
  noTable : ∀ e d i, (kernel.envs e).envPgdir = some d → i < userTables →
    frameOf (kernel.mem.ram d i) ≠ some page

/-- Every present entry below `UTOP` names a page of the user, with flags within
`PTE_SYSCALL`. -/
def Kernel.Isolated (pool : List Nat) (kernel : Kernel) : Prop :=
  ∀ e d va, (kernel.envs e).envPgdir = some d → va < utop →
    ∃ entry, kernel.mem.pgdirWalk d va false = some (kernel.mem, entry) ∧
      ∀ pte, entry = some pte → kernel.mem.load pte &&& pteP ≠ 0 →
        kernel.UserFrame pool (pteFrame (kernel.mem.load pte)) ∧
          WithinSyscall (kernel.mem.load pte &&& 0xFFF)

/-- The environment maps the page writable. -/
def Kernel.MapsWritable (kernel : Kernel) (e : Nat) (va : UInt32) (page : Nat) :
    Prop :=
  ∃ pte, kernel.lookupPage e va = some (some (page, pte)) ∧
    pte &&& pteP ≠ 0 ∧ pte &&& pteW ≠ 0

/-- What `sys_page_map` and `sys_ipc_try_send` share is mapped writable. -/
def Kernel.SourceWritable (kernel : Kernel) (cpu current : Nat)
    (syscallno a1 a2 a3 : UInt32) (page : Nat) : Prop :=
  match syscallno.toNat with
  | 5 => ∃ src, kernel.Finds cpu a1 true src ∧ kernel.MapsWritable src a2 page
  | 11 => ∃ shared, kernel.MapsWritable current a3 shared
  | _ => True

/-- An environment that gains a writable mapping by one of the two calls gets it
from a writable mapping. -/
def TrapEvent.SharesWritable (kernel next : Kernel) : TrapEvent → Prop
  | .user cpu _ frame _ =>
      ∀ current, kernel.cpus cpu = some current →
        (kernel.envs current).envStatus ≠ .dying →
        frame.tfTrapno.toNat = 48 →
        ∀ e va page, va < utop → next.MapsWritable e va page →
          ¬ kernel.MapsWritable e va page →
          (kernel.saveFrame current frame).SourceWritable cpu current
            frame.tfRegs.regEax frame.tfRegs.regEdx frame.tfRegs.regEcx
            frame.tfRegs.regEbx page
  | .wake _ => True

/-- `sys_page_map` adds only bits within `PTE_SYSCALL` to the address of the page,
`sys_ipc_try_send` does not send an address that maps nothing to be written, and
no `pp_ref` wraps around. -/
def Kernel.Confined (kernel : Kernel) (surroundings : Surroundings)
    (cpu current : Nat) (syscallno a1 a2 a3 a4 a5 : UInt32) : Prop :=
  match syscallno.toNat with
  | 5 => ∀ dst page, kernel.MapsPage cpu a1 a2 a3 a4 a5 dst page →
      kernel.Walks dst a4 →
      WithinSyscall (addedBits page a5) ∧ ¬ kernel.Wraps dst page a4
  | 11 => ∀ dst, kernel.SuppliesPage surroundings cpu current a1 a3 a4 dst →
      kernel.HasRoom dst (kernel.envs dst).envIpcDstva →
      ¬ kernel.Overflows current a3 dst (kernel.envs dst).envIpcDstva ∧
        (a4 &&& pteW ≠ 0 → kernel.lookupPage current a3 ≠ some none)
  | _ => True

/-- A trap whose system call keeps the environments apart. -/
def TrapEvent.Confined (kernel : Kernel) : TrapEvent → Prop
  | .user cpu surroundings frame _ =>
      ∀ current, kernel.cpus cpu = some current →
        (kernel.envs current).envStatus ≠ .dying →
        frame.tfTrapno.toNat = 48 →
        (kernel.saveFrame current frame).Confined surroundings cpu current
          frame.tfRegs.regEax frame.tfRegs.regEdx frame.tfRegs.regEcx
          frame.tfRegs.regEbx frame.tfRegs.regEdi frame.tfRegs.regEsi
  | .wake _ => True

variable {mem : PhysMem} {kernPgdir : Nat} {pool : List Nat}
variable {kernel first next : Kernel} {events : List TrapEvent} {build : Build}
variable {cpu current e d page : Nat} {va flags perm : UInt32}
variable {surroundings : Surroundings}

theorem Kernel.BootFrom.boot (booted : mem.Booted kernPgdir pool)
    (boot : Kernel.BootFrom mem kernPgdir kernel) : kernel.Boot := by
  induction boot with
  | initial => exact .initial booted
  | create _ created induction => exact .create induction created

/-! ## The flags of the entries -/

/-- Every entry is empty, or present with flags within `PTE_SYSCALL`. -/
def Flagged (words : Holder → UInt32) : Prop :=
  ∀ e i j, words (.pte e i j) ≠ 0 → words (.pte e i j) &&& pteP ≠ 0 ∧
    WithinSyscall (words (.pte e i j) &&& 0xFFF)

theorem Rewrites.flagged {rule : Rule} {before after : Holder → UInt32}
    (rewrites : Rewrites rule before after)
    (within : ∀ e page perm, rule e page perm → WithinSyscall perm)
    (flagged : Flagged before) : Flagged after := by
  intro e i j used
  rcases rewrites e i j with same | zero | ⟨page, perm, allowed, isWord⟩
  · rw [same] at used ⊢
    exact flagged e i j used
  · exact absurd zero used
  · rw [isWord, UInt32.or_assoc]
    refine ⟨or_present (or_pteP_present perm) _, ?_⟩
    rw [page2pa_or_and (by decide)]
    exact ((within e page perm allowed).or (by decide)).and _

/-- The accounts are right, and so are the flags. -/
structure Kernel.Guarded (pool : List Nat) (kernel : Kernel) : Prop where
  sound : SoundAt pool kernel
  flagged : Flagged kernel.spaces.words

theorem guarded_of_boot (booted : mem.Booted kernPgdir pool)
    (boot : Kernel.BootFrom mem kernPgdir kernel) : kernel.Guarded pool := by
  induction boot with
  | initial =>
      refine ⟨Spaces.sound_initial booted, ?_⟩
      intro e i j used
      exact absurd (PhysMem.word_pte_noDir rfl) used
  | create _ created induction =>
      have since := @SoundAt.create pool _ _ _ (fun _ _ => WithinSyscall)
        induction.sound (fun _ _ => by decide) _ _ created
      exact ⟨since.sound, since.rewritten.flagged (fun _ _ _ within => within)
        induction.flagged⟩

/-- `page_lookup` reads the page off the entry. -/
theorem Kernel.lookupPage_frame {pte : UInt32}
    (found : kernel.lookupPage e va = some (some (page, pte))) :
    page = pteFrame pte := by
  obtain ⟨pgdir, _, looks⟩ := Option.bind_eq_some_iff.mp found
  obtain ⟨found', looks', same⟩ := Option.map_eq_some_iff.mp looks
  obtain ⟨⟨page', ptr⟩, rfl, pair⟩ := Option.map_eq_some_iff.mp same
  cases pair
  unfold PhysMem.pageLookup at looks'
  obtain ⟨⟨_, entry⟩, _, reads⟩ := Option.bind_eq_some_iff.mp looks'
  cases entry with
  | none => cases reads
  | some ptr' =>
      dsimp only at reads
      split at reads
      · cases reads
      · split at reads
        · cases reads
          rfl
        · cases reads

/-- The entries of an environment, as `page_lookup` finds them. -/
theorem Kernel.Guarded.lookupPage (guarded : kernel.Guarded pool)
    (user : va < utop) {pte : UInt32}
    (found : kernel.lookupPage e va = some (some (page, pte))) :
    ∃ below : e < nenv, pte = kernel.spaces.words (.pteAt ⟨e, below⟩ user) ∧
      pte &&& pteP ≠ 0 := by
  cases isDir : (kernel.envs e).envPgdir with
  | none =>
      unfold Kernel.lookupPage at found
      rw [isDir] at found
      cases found
  | some d =>
      obtain ⟨below, looks⟩ := guarded.sound.lookupPage isDir user
      rw [looks, Option.some.injEq] at found
      obtain ⟨page', refers, same⟩ := Option.map_eq_some_iff.mp found
      cases same
      have used : kernel.spaces.words (.pteAt ⟨e, below⟩ user) ≠ 0 := by
        intro zero
        cases (congrArg frameOf zero).symm.trans refers
      exact ⟨below, rfl, (guarded.flagged _ _ _ used).1⟩

theorem Kernel.Guarded.isolated (guarded : kernel.Guarded pool) :
    kernel.Isolated pool := by
  intro e d va isDir user
  obtain ⟨free, accounted⟩ := guarded.sound.accounted
  have below : e < nenv := guarded.sound.below isDir
  have walks := @PhysMem.Tree.tableEntry _ _ _ _ _ ⟨e, below⟩ _ _
    accounted.tree accounted.books isDir user
  refine ⟨_, (PhysMem.pgdirWalk_keep _ _ _).trans walks, ?_⟩
  intro pte isEntry present
  obtain ⟨t, isTable, same⟩ := Option.map_eq_some_iff.mp isEntry
  subst same
  have isDir' : kernel.spaces.dirs (⟨e, below⟩ : Fin nenv) = some d := isDir
  rw [PhysMem.holds_pdeAt _ isDir' user] at isTable
  have isWord : kernel.spaces.words (.pteAt ⟨e, below⟩ user) =
      kernel.mem.load ⟨t, ptx va⟩ := PhysMem.word_pte isDir' isTable
  rw [← isWord] at present ⊢
  have used := ne_zero_of_present present
  have refers : kernel.spaces.mem.holds kernel.spaces.dirs
      (.pteAt ⟨e, below⟩ user) =
        some (pteFrame (kernel.spaces.words (.pteAt ⟨e, below⟩ user))) :=
    if_neg used
  have plain := guarded.sound.separate _ _ _ _ refers
  refine ⟨⟨accounted.tree.pooled _ _ refers, ?_, ?_, ?_⟩,
    (guarded.flagged _ _ _ used).2⟩
  · exact fun isFree =>
      accounted.notFree refers (accounted.books.onFreeList_iff.mp isFree)
  · intro f isDirectory
    exact plain (.pgdir ⟨f, guarded.sound.below isDirectory⟩) trivial
      isDirectory
  · intro f d' i isDirectory inside named
    have isDirectory' : kernel.spaces.dirs
        (⟨f, guarded.sound.below isDirectory⟩ : Fin nenv) = some d' :=
      isDirectory
    exact plain (.pde ⟨f, guarded.sound.below isDirectory⟩ ⟨i, inside⟩) trivial
      ((PhysMem.holds_pde isDirectory').trans named)

/-! ## One call -/

/-- The flags are within `PTE_SYSCALL`, and a writable page comes from a writable
mapping. -/
def Kernel.sharing (kernel : Kernel) (cpu current : Nat)
    (syscallno a1 a2 a3 : UInt32) : Rule := fun _ page flags =>
  WithinSyscall flags ∧ (flags &&& pteW ≠ 0 →
    kernel.SourceWritable cpu current syscallno a1 a2 a3 page)

theorem and_pteW_of_added
    (added : addedBits page (pteP ||| pteU ||| perm) &&& pteW ≠ 0) :
    (pteP ||| pteU ||| perm) &&& pteW ≠ 0 := by
  intro zero
  apply added
  unfold addedBits
  rw [UInt32.and_assoc, UInt32.and_comm (~~~page2pa page), ← UInt32.and_assoc,
    zero]
  exact UInt32.zero_and

theorem and_pteW_of_granted {srcpte : UInt32} (writes : perm &&& pteW ≠ 0)
    (granted : perm &&& pteW &&& ~~~(pteW &&& srcpte) = 0) :
    srcpte &&& pteW ≠ 0 := by
  intro readOnly
  rw [UInt32.and_comm pteW, readOnly] at granted
  exact writes ((UInt32.and_neg_one).symm.trans granted)

theorem Kernel.Confined.permits {syscallno a1 a2 a3 a4 a5 : UInt32}
    (guarded : kernel.Guarded pool)
    (confined : kernel.Confined surroundings cpu current syscallno a1 a2 a3 a4
      a5) :
    kernel.Permits (kernel.sharing cpu current syscallno a1 a2 a3) surroundings
      cpu current syscallno a1 a2 a3 a4 a5 := by
  unfold Kernel.Confined at confined
  unfold Kernel.Permits
  split
  · rename_i number
    intro within _ page
    refine ⟨within, fun _ => ?_⟩
    unfold Kernel.SourceWritable
    simp only [number]
  · rename_i number
    simp only [number] at confined
    intro dst page maps walks
    obtain ⟨within, fits⟩ := confined dst page maps walks
    refine ⟨within, fits, within.added (by decide), fun writes => ?_⟩
    obtain ⟨srcUser, _, _, src, finds, srcpte, found, granted⟩ := maps
    obtain ⟨_, _, present⟩ := guarded.lookupPage srcUser.1 found
    unfold Kernel.SourceWritable
    simp only [number]
    exact ⟨src, finds, srcpte, found, present,
      and_pteW_of_granted (and_pteW_of_added writes) granted⟩
  · rename_i number
    simp only [number] at confined
    intro dst supplies room
    obtain ⟨fits, mapped⟩ := confined dst supplies room
    obtain ⟨_, _, srcUser, _, within, srcpte, isWord, granted⟩ := supplies
    refine ⟨fits, fun page => ⟨within, fun writes => ?_⟩⟩
    have asked : a4 &&& pteW ≠ 0 := by
      intro zero
      apply writes
      rw [or_and, or_and, zero]
      rfl
    unfold Kernel.sourceWord at isWord
    obtain ⟨found, looks, isFound⟩ := Option.bind_eq_some_iff.mp isWord
    cases found with
    | none => exact absurd looks (mapped asked)
    | some found =>
        obtain ⟨shared, pte⟩ := found
        cases isFound
        obtain ⟨_, _, present⟩ := guarded.lookupPage srcUser.1 looks
        have writable : pte &&& pteW ≠ 0 := fun readOnly =>
          granted (.inr ⟨asked, readOnly⟩)
        unfold Kernel.SourceWritable
        simp only [number]
        exact ⟨shared, pte, looks, present, writable⟩
  · trivial

/-- What an entry of an allowed page makes writable comes from a writable
mapping. -/
theorem Kernel.sharing_named {syscallno a1 a2 a3 : UInt32}
    (allowed : kernel.sharing cpu current syscallno a1 a2 a3 e page perm)
    (writes : perm &&& pteW ≠ 0) :
    kernel.SourceWritable cpu current syscallno a1 a2 a3
      (pteFrame (page2pa page ||| perm ||| pteP)) := by
  have writable := allowed.2 writes
  unfold Kernel.SourceWritable at writable ⊢
  split
  · rename_i number
    simp only [number] at writable
    obtain ⟨src, finds, pte, found, present, isWritable⟩ := writable
    have addressable : page < 2 ^ 20 := by
      have bound := pte.toNat_lt
      rw [lookupPage_frame found]
      unfold pteFrame
      omega
    rw [UInt32.or_assoc, pteFrame_or addressable
      (or_pteP_lt (WithinSyscall.lt allowed.1))]
    exact ⟨src, finds, pte, found, present, isWritable⟩
  · rename_i number
    simp only [number] at writable
    exact writable
  · trivial

/-! ## One trap -/

theorem Kernel.Permits.mono {rule weaker : Rule}
    {syscallno a1 a2 a3 a4 a5 : UInt32}
    (permits : kernel.Permits rule surroundings cpu current syscallno a1 a2 a3
      a4 a5)
    (implies : ∀ e page perm, rule e page perm → weaker e page perm) :
    kernel.Permits weaker surroundings cpu current syscallno a1 a2 a3 a4 a5 := by
  unfold Kernel.Permits at permits ⊢
  split
  · rename_i number
    simp only [number] at permits
    exact fun within e page => implies _ _ _ (permits within e page)
  · rename_i number
    simp only [number] at permits
    intro dst page maps walks
    obtain ⟨within, fits, allowed⟩ := permits dst page maps walks
    exact ⟨within, fits, implies _ _ _ allowed⟩
  · rename_i number
    simp only [number] at permits
    intro dst supplies room
    obtain ⟨fits, allowed⟩ := permits dst supplies room
    exact ⟨fits, fun page => implies _ _ _ (allowed page)⟩
  · trivial

/-- The rule for the entries that a trap makes. -/
def TrapEvent.sharing (kernel : Kernel) : TrapEvent → Rule
  | .user cpu _ frame _ => fun e page flags => WithinSyscall flags ∧
      ∀ current, kernel.cpus cpu = some current →
        (kernel.saveFrame current frame).sharing cpu current
          frame.tfRegs.regEax frame.tfRegs.regEdx frame.tfRegs.regEcx
          frame.tfRegs.regEbx e page flags
  | .wake _ => fun _ _ flags => WithinSyscall flags

theorem TrapEvent.sharing_within {event : TrapEvent}
    (allowed : event.sharing kernel e page perm) : WithinSyscall perm := by
  cases event with
  | user => exact allowed.1
  | wake => exact allowed

theorem Kernel.Guarded.saveFrame (guarded : kernel.Guarded pool) (current : Nat)
    (frame : Trapframe) : (kernel.saveFrame current frame).Guarded pool := by
  refine ⟨guarded.sound.saveFrame current frame, ?_⟩
  rw [spaces_saveFrame]
  exact guarded.flagged

theorem TrapEvent.Confined.permits {event : TrapEvent}
    (guarded : kernel.Guarded pool) (confined : event.Confined kernel) :
    event.Permits (event.sharing kernel) kernel := by
  cases event with
  | user cpu surroundings frame faultVa =>
      intro current isCurrent lives number
      have permits := Kernel.Confined.permits (guarded.saveFrame current frame)
        (confined current isCurrent lives number)
      refine permits.mono fun e page perm allowed => ⟨allowed.1, ?_⟩
      intro other isOther
      cases isCurrent.symm.trans isOther
      exact allowed
  | wake cpu => trivial

/-- `page_lookup` finds every entry that is in use. -/
theorem Kernel.Guarded.lookupPage_words (guarded : kernel.Guarded pool)
    {below : e < nenv} {user : va < utop} {pte : UInt32}
    (isWord : kernel.spaces.words (.pteAt ⟨e, below⟩ user) = pte)
    (used : pte ≠ 0) :
    kernel.lookupPage e va = some (some (pteFrame pte, pte)) := by
  cases isDir : (kernel.envs e).envPgdir with
  | none =>
      have zero : kernel.spaces.words (.pteAt ⟨e, below⟩ user) = 0 :=
        PhysMem.word_pte_noDir isDir
      exact absurd (isWord.symm.trans zero) used
  | some d =>
      obtain ⟨_, looks⟩ := guarded.sound.lookupPage isDir user
      have refers : kernel.mem.holds kernel.spaces.dirs
          (.pteAt ⟨e, below⟩ user) = some (pteFrame pte) := by
        rw [← isWord] at used ⊢
        exact if_neg used
      have isWord' : kernel.mem.word kernel.spaces.dirs
          (.pteAt ⟨e, below⟩ user) = pte := isWord
      rw [looks, refers, isWord']
      rfl

section Step

variable {event : TrapEvent} (guarded : kernel.Guarded pool)
variable (confined : event.Confined kernel)
variable (step : (smp build).Step kernel event next)

include guarded confined step

theorem Kernel.Guarded.since :
    SoundSince pool (event.sharing kernel) kernel.spaces.words next :=
  guarded.sound.step_since (confined.permits guarded) step

theorem Kernel.Guarded.preserved : next.Guarded pool := by
  have since := guarded.since confined step
  exact ⟨since.sound, since.rewritten.flagged
    (fun _ _ _ => TrapEvent.sharing_within) guarded.flagged⟩

theorem Kernel.Guarded.sharesWritable : event.SharesWritable kernel next := by
  have since := guarded.since confined step
  have after := guarded.preserved confined step
  cases event with
  | wake cpu => trivial
  | user cpu surroundings frame faultVa =>
      rintro current isCurrent _ _ e va page user ⟨pte, found, present, writes⟩
        gained
      obtain ⟨below, isWord, _⟩ := after.lookupPage user found
      have isFrame := Kernel.lookupPage_frame found
      have used := ne_zero_of_present present
      rcases since.rewritten ⟨e, below⟩ ⟨pdx va, pdx_lt_userTables user⟩
          ⟨ptx va, Nat.mod_lt _ (by decide)⟩ with
        same | zero | ⟨shared, perm, allowed, isEntry⟩
      · have before : kernel.spaces.words (.pteAt ⟨e, below⟩ user) = pte :=
          same.symm.trans isWord.symm
        refine absurd ⟨pte, ?_, present, writes⟩ gained
        rw [guarded.lookupPage_words before used, isFrame]
      · exact absurd (isWord.trans zero) used
      · have isPte : pte = page2pa shared ||| perm ||| pteP :=
          isWord.trans isEntry
        have asked : perm &&& pteW ≠ 0 := by
          intro readOnly
          apply writes
          rw [isPte, UInt32.or_assoc, page2pa_or_and (by decide), or_and,
            readOnly]
          rfl
        rw [isFrame, isPte]
        exact Kernel.sharing_named (allowed.2 current isCurrent) asked

end Step

/-! ## Runs -/

/-- In a run of confined traps every state keeps the environments apart, and so
does the next trap. -/
theorem isolated_of_run (booted : mem.Booted kernPgdir pool)
    (boot : Kernel.BootFrom mem kernPgdir first)
    (run : (smp build).Run (fun kernel event => event.Confined kernel) first
      events kernel) :
    kernel.Isolated pool ∧
      ∀ event next, event.Confined kernel →
        (smp build).Step kernel event next →
        event.SharesWritable kernel next := by
  have guarded : kernel.Guarded pool :=
    run.preserves (fun _ _ _ guarded confined step =>
      guarded.preserved confined step) (guarded_of_boot booted boot)
  exact ⟨guarded.isolated, fun _ _ confined step =>
    guarded.sharesWritable confined step⟩

/-! ## Bits of an address as flags -/

/-- The small machine with its environment running. -/
def awakeEnv : Kernel := (TrapEvent.wake 0).after .roundRobin oneEnv

/-- The environment maps its stack page a second time with the given flags. -/
def mapsStack (perm : UInt32) : TrapEvent :=
  .call 0 5 0 0xEEBFD000 0 0xEEBFC000 perm

theorem oneEnv_bootFrom : Kernel.BootFrom (.plain 32) 1 oneEnv := by
  unfold oneEnv
  split
  · rename_i created
    exact .create .initial created
  · exact .initial

theorem run_mapsStack {allowed : Kernel → TrapEvent → Prop} {perm : UInt32}
    (awakes : allowed oneEnv (.wake 0)) (maps : allowed awakeEnv (mapsStack perm))
    (goes : (mapsStack perm).Goes .roundRobin awakeEnv) :
    (smp .roundRobin).Run allowed oneEnv [.wake 0, mapsStack perm]
      ((mapsStack perm).after .roundRobin awakeEnv) := by
  have awake : (TrapEvent.wake 0).Goes .roundRobin oneEnv := by decide +kernel
  exact ((Machine.Run.nil oneEnv).snoc awakes awake.step).snoc maps goes.step

/-- Mapping the stack page with its own flags. -/
theorem confined_mapsStack : (mapsStack 7).Confined awakeEnv := by
  intro current isCurrent _ _
  have isFirst : awakeEnv.cpus 0 = some 0 := by decide +kernel
  cases isFirst.symm.trans isCurrent
  rintro dst page ⟨_, _, _, src, finds, srcpte, found, _⟩ _
  have isSelf : src = 0 := by
    have isZero : envid2env 0 0 true awakeEnv = .ok (some 0) := by
      decide +kernel
    exact Option.some.inj (Except.ok.inj (finds.symm.trans isZero))
  subst isSelf
  have isStack : awakeEnv.lookupPage 0 0xEEBFD000 = some (some (3, 12295)) := by
    decide +kernel
  have isPage : some (some (3, 12295)) = some (some (page, srcpte)) :=
    isStack.symm.trans found
  cases isPage
  refine ⟨by decide, ?_⟩
  rintro ⟨_, _, isLast, _⟩
  have once : (awakeEnv.mem.pages 3).ppRef = 1 := by decide +kernel
  cases once.symm.trans isLast

theorem isolated_mapsStack :
    ((mapsStack 7).after .roundRobin awakeEnv).Isolated (List.range' 2 30) ∧
      ∀ event next,
        event.Confined ((mapsStack 7).after .roundRobin awakeEnv) →
        (smp .roundRobin).Step ((mapsStack 7).after .roundRobin awakeEnv) event
          next →
        event.SharesWritable ((mapsStack 7).after .roundRobin awakeEnv) next :=
  isolated_of_run (PhysMem.booted_plain (by decide) (by decide)) oneEnv_bootFrom
    (run_mapsStack trivial confined_mapsStack (by decide +kernel))

/-- With the bit 14 of an address in its flags, the entry names the page 7, which
is free. -/
theorem not_isolated_mapsStack :
    ¬ ∀ (build : Build) (mem : PhysMem) (kernPgdir : Nat) (pool : List Nat)
      (first : Kernel) (events : List TrapEvent) (kernel : Kernel),
      mem.Booted kernPgdir pool → Kernel.BootFrom mem kernPgdir first →
      (smp build).Run Machine.Unrestricted first events kernel →
      kernel.Isolated pool ∧
        ∀ event next, (smp build).Step kernel event next →
          event.SharesWritable kernel next := by
  intro all
  have run : (smp .roundRobin).Run Machine.Unrestricted oneEnv
      [.wake 0, mapsStack 0x4007]
      ((mapsStack 0x4007).after .roundRobin awakeEnv) :=
    run_mapsStack trivial trivial (by decide +kernel)
  have isolated := (all .roundRobin _ _ _ _ _ _
    (PhysMem.booted_plain (by decide) (by decide)) oneEnv_bootFrom run).1
  generalize isAfter : (mapsStack 0x4007).after .roundRobin awakeEnv = kernel
    at isolated
  have isDir : (kernel.envs 0).envPgdir = some 2 := by
    rw [← isAfter]
    decide +kernel
  have found : (kernel.mem.pgdirWalk 2 0xEEBFC000 false).map Prod.snd =
      some (some ⟨4, 1020⟩) := by
    rw [← isAfter]
    decide +kernel
  have isWord : kernel.mem.load ⟨4, 1020⟩ = 0x7007 := by
    rw [← isAfter]
    decide +kernel
  have free : kernel.mem.OnFreeList 7 := by
    rw [← isAfter]
    exact .link (.link (.head (by decide +kernel : _ = some 5))
      (by decide +kernel : _ = some 6)) (by decide +kernel)
  obtain ⟨entry, walks, named⟩ := isolated 0 2 0xEEBFC000 isDir (by decide)
  rw [walks] at found
  cases found
  have frame := (named _ rfl (by rw [isWord]; decide)).1
  rw [isWord] at frame
  exact frame.handedOut free

end FeaturesOS.Scheduler

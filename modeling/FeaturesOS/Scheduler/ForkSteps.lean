import FeaturesOS.Scheduler.Windows

/-!
# What the steps around a `fork` do to the entries

The accesses of all programs, and the actions of `fork` itself, keep the tables of
the parent readable in its windows.  No access makes an entry writable that
another entry shares.
-/

namespace FeaturesOS.Scheduler

open Entry

variable {pool : List Nat} {kernel middle next : Kernel} {slots : Set Slot}
variable {cpu e d pn : Nat} {va perm envid word : UInt32} {r : Int}
variable {parent : Fin nenv} {child done : Set Slot} {x : Slot}

/-- `duppage` takes the entry for one that it marks copy-on-write. -/
def Markable (entry : UInt32) : Prop :=
  entry &&& PhysMem.userRights false = PhysMem.userRights false ∧
    entry &&& (pteW ||| pteCow) ≠ 0

/-- The entries of a program that forks are for user mode, and the page at
`PFTEMP`, which only `pgfault` maps, is none that can only be read. -/
structure Kernel.Forkable (pool : List Nat) (kernel : Kernel)
    (parent : Fin nenv) (d : Nat) : Prop where
  sound : SoundAt pool kernel
  windowed : kernel.Windowed parent d
  user : ∀ x : Slot, x.1 = parent → kernel.entry x = 0 ∨
    kernel.entry x &&& PhysMem.userRights false = PhysMem.userRights false
  temp : kernel.entry (slotAt parent userPage_pfTemp.1) = 0 ∨
    Markable (kernel.entry (slotAt parent userPage_pfTemp.1))

/-- An entry that is not one for user mode is empty. -/
theorem Kernel.Forkable.zero (forkable : kernel.Forkable pool parent d)
    (isParent : x.1 = parent)
    (absent : kernel.entry x &&& pteP = 0 ∨ kernel.entry x &&& pteU = 0) :
    kernel.entry x = 0 := by
  rcases forkable.user x isParent with zero | rights
  · exact zero
  · exact absurd absent (PhysMem.not_absent rights)

/-- The program stays one that can fork. -/
structure Kernel.Retains (pool : List Nat) (kernel next : Kernel)
    (parent : Fin nenv) : Prop where
  sound : SoundAt pool next
  pgdir : (next.envs parent).envPgdir = (kernel.envs parent).envPgdir
  upper : ∀ d i, (kernel.envs parent).envPgdir = some d → userTables ≤ i →
    next.mem.ram d i = kernel.mem.ram d i
  tables : ∀ d (i : Fin userTables), (kernel.envs parent).envPgdir = some d →
    next.mem.ram d i = kernel.mem.ram d i ∨ next.mem.ram d i = 0 ∨
      PhysMem.TableRights (next.mem.ram d i)
  entries : ∀ x : Slot, x.1 = parent → next.entry x = kernel.entry x ∨
    next.entry x = 0 ∨ Markable (next.entry x)

theorem Kernel.Forkable.retain (forkable : kernel.Forkable pool parent d)
    (retains : kernel.Retains pool next parent) :
    next.Forkable pool parent d := by
  have isDir := forkable.windowed.isDir
  refine ⟨retains.sound, ⟨retains.pgdir.trans isDir, ?_, fun i => ?_⟩,
    fun x isParent => ?_, ?_⟩
  · have above : userTables ≤ pdx uvpt := by
      unfold userTables
      decide
    exact (retains.upper d _ isDir above).trans forkable.windowed.window
  · rcases retains.tables d i isDir with same | changed
    · rw [same]
      exact forkable.windowed.tables i
    · exact changed
  · rcases retains.entries x isParent with same | zero | markable
    · rw [same]
      exact forkable.user x isParent
    · exact .inl zero
    · exact .inr markable.1
  · rcases retains.entries (slotAt parent userPage_pfTemp.1) rfl with
      same | changed
    · rw [same]
      exact forkable.temp
    · exact changed

theorem Kernel.Changes.retains (changes : kernel.Changes pool next slots)
    (parent : Fin nenv) (entries : ∀ x ∈ slots, x.1 = parent →
      next.entry x = kernel.entry x ∨ next.entry x = 0 ∨
        Markable (next.entry x)) :
    kernel.Retains pool next parent where
  sound := changes.sound
  pgdir := by rw [changes.envs]
  upper d i isDir above := changes.upper parent d i isDir above
  tables d i isDir := by
    rcases changes.tables parent d i isDir with same | rights
    · exact .inl same
    · exact .inr (.inr rights)
  entries x isParent := by
    by_cases inside : x ∈ slots
    · exact entries x inside isParent
    · exact .inl (changes.entries x inside)

/-- The page at `PFTEMP` is not handed over read-only. -/
theorem Kernel.Forkable.not_temp (forkable : kernel.Forkable pool parent d)
    (below : pn < userPages)
    (mapped : kernel.entry (pageSlot parent below) ≠ 0)
    (readOnly : kernel.entry (pageSlot parent below) &&& pteW = 0)
    (notCow : kernel.entry (pageSlot parent below) &&& pteCow = 0) :
    pageSlot parent below ≠ slotAt parent userPage_pfTemp.1 := by
  intro same
  rw [same] at mapped readOnly notCow
  rcases forkable.temp with zero | ⟨_, flags⟩
  · exact mapped zero
  · rw [UInt32.and_comm, or_and, UInt32.and_comm pteW, readOnly,
      UInt32.and_comm pteCow, notCow] at flags
    exact flags rfl

/-! ## The accesses of the programs -/

theorem entry_of_spaces (same : next.spaces = kernel.spaces) :
    next.entry = kernel.entry := by
  funext x
  change next.spaces.mem.word next.spaces.dirs x.holder =
    kernel.spaces.mem.word kernel.spaces.dirs x.holder
  rw [same]

theorem markable_of_writable {entry : UInt32}
    (granted : entry &&& PhysMem.userRights true = PhysMem.userRights true) :
    Markable entry := by
  refine ⟨PhysMem.userRights_mono granted, fun zero => ?_⟩
  have part := PhysMem.granted_part granted
    (show PhysMem.userRights true &&& pteW = pteW by decide)
  rw [PhysMem.and_part_zero zero (by decide)] at part
  exact absurd part (by decide)

theorem SoundAt.retains_of_spaces (sound : SoundAt pool kernel)
    (same : next.spaces = kernel.spaces) (parent : Fin nenv) :
    kernel.Retains pool next parent := by
  have entries := entry_of_spaces same
  have mem : next.mem = kernel.mem := congrArg Spaces.mem same
  have dirs : (next.envs parent).envPgdir = (kernel.envs parent).envPgdir :=
    congrFun (congrArg Spaces.dirs same) parent
  refine ⟨?_, dirs, ?_, ?_, fun x _ => .inl (congrFun entries x)⟩
  · unfold SoundAt
    rw [same]
    exact sound
  · intro d i _ _
    rw [mem]
  · intro d i _
    rw [mem]
    exact .inl rfl

/-- A store changes no entry. -/
theorem SoundAt.store_written {place : PhysMem.Place}
    (sound : SoundAt pool kernel) (isDir : (kernel.envs e).envPgdir = some d)
    (user : va < utop) (found : kernel.mem.translate d true va = some place)
    (byte : UInt8) :
    ∃ free, kernel.mem.Written (kernel.mem.setByteAt place byte) pool free
      kernel.spaces.dirs := by
  obtain ⟨free, accounted⟩ := sound.accounted
  have below := Spaces.Sound.below sound isDir
  have isDir' : kernel.spaces.dirs (⟨e, below⟩ : Fin nenv) = some d := isDir
  have accounted' : kernel.mem.Accounted pool free kernel.spaces.dirs :=
    accounted
  exact ⟨free, accounted'.storeByte sound.separate isDir' user
    (PhysMem.storeByte_eq byte found)⟩

/-- No access of a program takes the windows away, and an entry that it changes
is empty or the only one of its page. -/
theorem UserEvent.Goes.effect {event : UserEvent}
    (goes : event.Goes kernel next) (sound : SoundAt pool kernel)
    (parent : Fin nenv) : kernel.Retains pool next parent ∧
      Sharing.Refreshes frameOf kernel.entry next.entry := by
  cases goes with
  | @store e d va byte place isDir user found =>
      obtain ⟨free, written⟩ := sound.store_written isDir user found byte
      have same : ∀ x, (kernel.setMem (kernel.mem.setByteAt place byte)).entry x =
          kernel.entry x := fun x => congrFun written.word x.holder
      have changes : kernel.Changes pool
          (kernel.setMem (kernel.mem.setByteAt place byte)) Set.univ :=
        sound.changes_written written fun x outside => absurd trivial outside
      exact ⟨changes.retains parent fun x _ _ => .inl (same x),
        fun x => .inl (same x)⟩
  | fault isCurrent isDir _ ends =>
      have below := Spaces.Sound.below sound isDir
      have faulted := (sound.pgfault_changes isCurrent below isDir ends).1
      refine ⟨faulted.changes.retains parent fun x _ _ => ?_,
        faulted.refreshes⟩
      rcases faulted.entries x with same | zero | writable
      · exact .inl same
      · exact .inr (.inl zero)
      · exact .inr (.inr (markable_of_writable writable))
  | elsewhere same =>
      have entries := entry_of_spaces same
      exact ⟨sound.retains_of_spaces same parent,
        fun x => .inl (congrFun entries x)⟩

/-! ## The entries that have been handed over -/

def IsWritable (entry : UInt32) : Prop := entry &&& pteW ≠ 0

def entriesOf (e : Fin nenv) : Set Slot := {x | x.1 = e}

/-- The exception stack is not handed over. -/
def exceptionPage : Nat := uxStackTop.toNat / pgSize - 1

/-- The entries of the parent that `fork` has passed before the page `pn`. -/
def handed (parent : Fin nenv) (pn : Nat) : Set Slot :=
  {x | x.1 = parent ∧ (x.pageNumber < pn ∨ x.pageNumber = exceptionPage)}

/-- `fork` has come to the page `pn`. -/
structure Kernel.DuringFork (pool : List Nat) (kernel : Kernel)
    (parent : Fin nenv) (d : Nat) (child : Set Slot) (pn : Nat) : Prop where
  forkable : kernel.Forkable pool parent d
  fenced : Sharing.Fenced frameOf IsWritable kernel.entry (entriesOf parent)
    child (handed parent pn)

theorem handed_succ (parent : Fin nenv) (below : pn < userPages) :
    handed parent (pn + 1) = handed parent pn ∪ {pageSlot parent below} := by
  have number := pageNumber_pageSlot parent below
  ext x
  constructor
  · rintro ⟨isParent, before | isLast⟩
    · by_cases earlier : x.pageNumber < pn
      · exact .inl ⟨isParent, .inl earlier⟩
      · refine .inr (slot_ext isParent ?_)
        rw [number]
        omega
    · exact .inl ⟨isParent, .inr isLast⟩
  · rintro (⟨isParent, before | isLast⟩ | rfl)
    · exact ⟨isParent, .inl (by omega)⟩
    · exact ⟨isParent, .inr isLast⟩
    · exact ⟨rfl, .inl (by omega)⟩

theorem pageSlot_mem_handed {below : pn < userPages} :
    pageSlot parent below ∈ handed parent pn ↔ pn = exceptionPage := by
  have number := pageNumber_pageSlot parent below
  constructor
  · rintro ⟨_, before | isLast⟩
    · omega
    · exact number.symm.trans isLast
  · rintro same
    exact ⟨rfl, .inr (number.trans same)⟩

theorem Kernel.DuringFork.keep (during : kernel.DuringFork pool parent d child pn)
    (retains : kernel.Retains pool next parent)
    (refreshes : Sharing.Refreshes frameOf kernel.entry next.entry) :
    next.DuringFork pool parent d child pn :=
  ⟨during.forkable.retain retains, during.fenced.refresh refreshes⟩

theorem UserEvent.Goes.during {event : UserEvent}
    (goes : event.Goes kernel next)
    (during : kernel.DuringFork pool parent d child pn) :
    next.DuringFork pool parent d child pn := by
  obtain ⟨retains, refreshes⟩ := goes.effect during.forkable.sound parent
  exact during.keep retains refreshes

/-- A page that the parent cannot write to needs nothing more. -/
theorem Kernel.DuringFork.pass (during : kernel.DuringFork pool parent d child pn)
    (below : pn < userPages) (readOnly : pn ≠ exceptionPage →
      ¬ IsWritable (kernel.entry (pageSlot parent below))) :
    kernel.DuringFork pool parent d child (pn + 1) := by
  refine ⟨during.forkable, ?_⟩
  rw [handed_succ parent below]
  refine during.fenced.hand ?_
  rintro x rfl notDone
  exact readOnly fun same => notDone (pageSlot_mem_handed.mpr same)

theorem Kernel.DuringFork.passEmpty
    (during : kernel.DuringFork pool parent d child pn)
    (below : pn < userPages)
    (empty : kernel.entry (pageSlot parent below) = 0) :
    kernel.DuringFork pool parent d child (pn + 1) := by
  refine during.pass below fun _ => ?_
  rw [empty]
  exact not_not_intro rfl

/-! ## The two mappings of `duppage` -/

theorem mapped_readOnly (page : Nat) (readOnly : perm &&& pteW = 0) :
    ¬ IsWritable (page2pa page ||| (pteP ||| pteU ||| perm) ||| pteP) := by
  apply not_not_intro
  rw [UInt32.or_assoc, page2pa_or_and (by decide), or_and, or_and, readOnly]
  decide

theorem mapped_markable (page : Nat) (isCow : perm &&& pteCow = pteCow) :
    Markable (page2pa page ||| (pteP ||| pteU ||| perm) ||| pteP) := by
  have rights : (pteP ||| pteU ||| perm) &&& PhysMem.userRights false =
      PhysMem.userRights false := by
    have granted := PhysMem.granted_or
      (show (pteP ||| pteU) &&& PhysMem.userRights false =
        PhysMem.userRights false by decide) 0 perm
    rwa [UInt32.zero_or] at granted
  have cow : (pteP ||| pteU ||| perm) &&& pteCow = pteCow := by
    rw [or_and, isCow]
    decide
  refine ⟨PhysMem.granted_or rights _ _, fun zero => ?_⟩
  have part := PhysMem.granted_or cow (page2pa page) pteP
  rw [PhysMem.and_part_zero zero (by decide)] at part
  exact absurd part (by decide)

/-- The environment of an identifier. -/
def envOf (envid : UInt32) : Fin nenv :=
  ⟨envx envid, Nat.mod_lt _ (by decide)⟩

/-- The child gets the page, and the parent keeps it as it is. -/
theorem Kernel.DuringFork.mapChild
    (during : kernel.DuringFork pool parent d (entriesOf (envOf envid)) pn)
    (isCurrent : kernel.cpus cpu = some parent) (nonzero : envid ≠ 0)
    (other : envOf envid ≠ parent) (below : pn < userPages)
    (notStack : pn ≠ exceptionPage) (low : perm.toNat < 4096)
    (readOnly : perm &&& pteW = 0)
    (fits : ∀ page, kernel.MapsPage cpu 0 (PhysMem.pageVa pn) envid
      (PhysMem.pageVa pn) perm (envx envid) page →
        ¬ kernel.Wraps (envx envid) page (PhysMem.pageVa pn))
    (maps : sysPageMap cpu 0 (PhysMem.pageVa pn) envid (PhysMem.pageVa pn) perm
      kernel = .returns r next) :
    r < 0 ∨ next.DuringFork pool parent d (entriesOf (envOf envid)) pn ∧
      next.entry (pageSlot parent below) =
        kernel.entry (pageSlot parent below) := by
  have userPage : UserPage (PhysMem.pageVa pn) :=
    ⟨pageVa_lt_utop below, pageVa_aligned below⟩
  have inChild : slotAt (envOf envid) userPage.1 ∈ entriesOf (envOf envid) :=
    rfl
  rcases during.forkable.sound.sysPageMap_changes isCurrent parent.isLt userPage
    (envOf envid).isLt (fun f finds => slot_of_finds finds nonzero) userPage low
    fits maps with ⟨failed, _⟩ | ⟨_, page, held, changes, isWord, isFrame⟩
  · exact .inl failed
  · right
    have isUpdate : next.entry = Function.update kernel.entry
        (slotAt (envOf envid) userPage.1)
        (next.entry (slotAt (envOf envid) userPage.1)) := by
      funext x
      by_cases same : x = slotAt (envOf envid) userPage.1
      · rw [same, Function.update_self]
      · rw [Function.update_of_ne same]
        exact changes.entries x same
    refine ⟨⟨during.forkable.retain (changes.retains parent ?_), ?_⟩, ?_⟩
    · rintro x rfl isParent
      exact absurd isParent other
    · rw [isUpdate]
      refine during.fenced.share ?_ (fun x isHanded => isHanded.1) inChild
        (rfl : pageSlot parent below ∈ entriesOf parent) ?_ ?_ ?_
      · rintro x isParent isChild
        exact other (isChild.symm.trans isParent)
      · exact fun isHanded => notStack (pageSlot_mem_handed.mp isHanded)
      · exact isFrame.trans held.symm
      · rw [isWord]
        exact mapped_readOnly page readOnly
    · apply changes.entries
      rintro same
      exact other (congrArg Prod.fst same).symm

/-- The parent maps its own page anew, and cannot write to it. -/
theorem Kernel.DuringFork.mapParent
    (during : kernel.DuringFork pool parent d child pn)
    (isCurrent : kernel.cpus cpu = some parent) (below : pn < userPages)
    (low : perm.toNat < 4096) (readOnly : perm &&& pteW = 0)
    (isCow : perm &&& pteCow = pteCow)
    (fits : ∀ page, kernel.MapsPage cpu 0 (PhysMem.pageVa pn) 0
      (PhysMem.pageVa pn) perm parent page →
        ¬ kernel.Wraps parent page (PhysMem.pageVa pn))
    (maps : sysPageMap cpu 0 (PhysMem.pageVa pn) 0 (PhysMem.pageVa pn) perm
      kernel = .returns r next) :
    r < 0 ∨ next.DuringFork pool parent d child (pn + 1) := by
  have userPage : UserPage (PhysMem.pageVa pn) :=
    ⟨pageVa_lt_utop below, pageVa_aligned below⟩
  rcases during.forkable.sound.sysPageMap_changes isCurrent parent.isLt userPage
    parent.isLt (fun f finds => (finds_self isCurrent).unique finds) userPage
    low fits maps with ⟨failed, _⟩ | ⟨_, page, held, changes, isWord, isFrame⟩
  · exact .inl failed
  · right
    have newReadOnly : ¬ IsWritable (next.entry (pageSlot parent below)) := by
      change ¬ IsWritable (next.entry (slotAt parent userPage.1))
      rw [isWord]
      exact mapped_readOnly page readOnly
    have middle : next.DuringFork pool parent d child pn := by
      refine ⟨during.forkable.retain (changes.retains parent ?_),
        during.fenced.lower (fun x => ?_) fun x writes => ?_⟩
      · rintro x rfl _
        rw [isWord]
        exact .inr (.inr (mapped_markable page isCow))
      · by_cases same : x = slotAt parent userPage.1
        · rw [same]
          exact isFrame.trans held.symm
        · exact congrArg frameOf (changes.entries x same)
      · by_cases same : x = slotAt parent userPage.1
        · subst same
          exact absurd writes newReadOnly
        · rwa [changes.entries x same] at writes
    exact middle.pass below fun _ => newReadOnly

end FeaturesOS.Scheduler

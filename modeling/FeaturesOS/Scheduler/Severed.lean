import FeaturesOS.Scheduler.ForkSteps

/-!
# Two programs that share no writable page

If no page of two programs is writable in one of them, then no store and no fault
of one changes what the other reads.
-/

namespace FeaturesOS.Scheduler

open Entry

/-- A byte that the environment `e` reads. -/
def Kernel.readByte (kernel : Kernel) (e : Nat) (va : UInt32) : Option UInt8 :=
  (kernel.envs e).envPgdir.bind fun pgdir => kernel.mem.loadByte pgdir va

/-- No page of both is writable in one of them. -/
structure Kernel.Severed (pool : List Nat) (kernel : Kernel)
    (parent child : Fin nenv) : Prop where
  sound : SoundAt pool kernel
  other : child ≠ parent
  given : Sharing.Apart frameOf IsWritable kernel.entry (entriesOf child)
    (entriesOf parent)
  kept : Sharing.Apart frameOf IsWritable kernel.entry (entriesOf parent)
    (entriesOf child)

variable {pool : List Nat} {kernel next : Kernel} {slots : Set Slot}
variable {e d : Nat} {va : UInt32} {byte : UInt8} {writes : Bool}
variable {parent child f : Fin nenv} {place : PhysMem.Place}

theorem Kernel.Severed.symm (severed : kernel.Severed pool parent child) :
    kernel.Severed pool child parent :=
  ⟨severed.sound, severed.other.symm, severed.kept, severed.given⟩

theorem Kernel.Severed.refresh (severed : kernel.Severed pool parent child)
    (sound : SoundAt pool next)
    (refreshes : Sharing.Refreshes frameOf kernel.entry next.entry) :
    next.Severed pool parent child :=
  ⟨sound, severed.other, severed.given.refresh refreshes,
    severed.kept.refresh refreshes⟩

theorem UserEvent.Goes.severed {event : UserEvent}
    (goes : event.Goes kernel next)
    (severed : kernel.Severed pool parent child) :
    next.Severed pool parent child := by
  obtain ⟨retains, refreshes⟩ := goes.effect severed.sound parent
  exact severed.refresh retains.sound refreshes

/-- What is translated for the one is not writable for the other. -/
theorem Kernel.Severed.not_shared (severed : kernel.Severed pool parent child)
    {d' : Nat} {va' : UInt32} {place' : PhysMem.Place}
    (isDir : (kernel.envs parent).envPgdir = some d)
    (isDir' : (kernel.envs child).envPgdir = some d') (user : va < utop)
    (user' : va' < utop) (stores : kernel.mem.translate d true va = some place)
    (found : kernel.mem.translate d' writes va' = some place') :
    place'.1 ≠ place.1 := by
  intro same
  obtain ⟨names, rights⟩ :=
    kernel.translate_entry parent.isLt isDir user stores
  obtain ⟨names', _⟩ := kernel.translate_entry child.isLt isDir' user' found
  rw [same] at names'
  have writable : IsWritable (kernel.entry (slotAt parent user)) := by
    intro zero
    have part := PhysMem.granted_part rights
      (show PhysMem.userRights true &&& pteW = pteW by decide)
    rw [zero] at part
    exact absurd part (by decide)
  refine severed.kept (slotAt parent user) rfl (slotAt child user') rfl
    ⟨?_, place.1, names, names'⟩ writable
  exact fun slots => severed.other (congrArg Prod.fst slots).symm

/-- A store of the one changes no byte that the other reads. -/
theorem Kernel.Severed.store (severed : kernel.Severed pool parent child)
    (goes : (UserEvent.store parent va byte).Goes kernel next) {va' : UInt32}
    (user' : va' < utop) :
    next.readByte child va' = kernel.readByte child va' := by
  cases goes with
  | @store _ d _ _ place isDir user found =>
      obtain ⟨free, written⟩ := severed.sound.store_written isDir user found byte
      unfold Kernel.readByte
      cases isDir' : (kernel.envs child).envPgdir with
      | none =>
          have noDir : ((kernel.setMem
            (kernel.mem.setByteAt place byte)).envs child).envPgdir = none :=
              isDir'
          rw [noDir]
          rfl
      | some d' =>
          have there : ((kernel.setMem
            (kernel.mem.setByteAt place byte)).envs child).envPgdir =
              some d' := isDir'
          rw [there]
          change (kernel.mem.setByteAt place byte).loadByte d' va' =
            kernel.mem.loadByte d' va'
          have isDir'' : kernel.spaces.dirs child = some d' := isDir'
          unfold PhysMem.loadByte
          rw [PhysMem.translate_congr written.word isDir'' user']
          cases translated : kernel.mem.translate d' false va' with
          | none => rfl
          | some place' =>
              have apart := severed.not_shared isDir isDir' user user' found
                translated
              rw [Option.map_some, Option.map_some, PhysMem.byteAt_setByteAt,
                if_neg fun same => apart (congrArg Prod.fst same)]

/-! ## Faults -/

theorem Kernel.Changes.table_rights (changes : kernel.Changes pool next slots)
    (user : va < utop) (isDir : (kernel.envs f).envPgdir = some d)
    (table : kernel.mem.ram d (pdx va) &&& PhysMem.userRights false =
      PhysMem.userRights false) :
    next.mem.ram d (pdx va) &&& PhysMem.userRights false =
      PhysMem.userRights false := by
  rcases changes.tables f d ⟨pdx va, pdx_lt_userTables user⟩ isDir with
    same | rights
  · exact (congrArg (· &&& _) same).trans table
  · exact PhysMem.userRights_mono rights

/-- A byte is read through its entry. -/
theorem Kernel.readByte_some (kernel : Kernel) (user : va < utop) :
    kernel.readByte f va = some byte ↔ ∃ d page,
      (kernel.envs f).envPgdir = some d ∧
        kernel.mem.ram d (pdx va) &&& PhysMem.userRights false =
          PhysMem.userRights false ∧
        frameOf (kernel.entry (slotAt f user)) = some page ∧
        kernel.entry (slotAt f user) &&& PhysMem.userRights false =
          PhysMem.userRights false ∧
        kernel.mem.byteAt (page, va.toNat % 4096) = byte := by
  unfold Kernel.readByte
  cases isDir : (kernel.envs f).envPgdir with
  | none =>
      constructor
      · intro reads
        cases reads
      · rintro ⟨_, _, none, _⟩
        cases none
  | some d =>
      have isDir' : kernel.spaces.dirs f = some d := isDir
      have loads : kernel.mem.loadByte d va =
          if kernel.mem.ram d (pdx va) &&& PhysMem.userRights false =
              PhysMem.userRights false ∧
            kernel.entry (slotAt f user) &&& PhysMem.userRights false =
              PhysMem.userRights false then
            some (kernel.mem.byteAt (pteFrame (kernel.entry (slotAt f user)),
              va.toNat % 4096))
          else none := by
        unfold PhysMem.loadByte
        rw [PhysMem.translate_word isDir' user, Holder.pdeAt,
          PhysMem.word_pde isDir', apply_ite (Option.map _)]
        rfl
      change kernel.mem.loadByte d va = some byte ↔ _
      rw [loads]
      constructor
      · intro reads
        split at reads
        · rename_i granted
          have present := PhysMem.userRights_present false granted.2
          exact ⟨d, _, rfl, granted.1, if_neg (ne_zero_of_present present),
            granted.2, Option.some.inj reads⟩
        · cases reads
      · rintro ⟨d', page, same, table, names, rights, isByte⟩
        cases same
        have present := PhysMem.userRights_present false rights
        rw [frameOf, if_neg (ne_zero_of_present present),
          Option.some.injEq] at names
        rw [if_pos ⟨table, rights⟩, names, isByte]

/-- A change of other entries keeps what is read. -/
theorem Kernel.Changes.readByte (changes : kernel.Changes pool next slots)
    (user : va < utop) (outside : slotAt f user ∉ slots)
    (reads : kernel.readByte f va = some byte) :
    next.readByte f va = some byte := by
  obtain ⟨d, page, isDir, table, names, rights, isByte⟩ :=
    (kernel.readByte_some user).mp reads
  refine (next.readByte_some user).mpr ⟨d, page, ?_, ?_, ?_, ?_, ?_⟩
  · rw [changes.envs]
    exact isDir
  · exact changes.table_rights user isDir table
  · rw [changes.entries _ outside]
    exact names
  · rw [changes.entries _ outside]
    exact rights
  · rw [← isByte]
    unfold PhysMem.byteAt
    rw [changes.contents _ outside page names]

/-- A fault of the one changes no byte that the other reads. -/
theorem SoundAt.fault_reads {cpu : Nat} {faultVa err : UInt32}
    {handled : Handled} (sound : SoundAt pool kernel)
    (isCurrent : kernel.cpus cpu = some e)
    (faults : pgfault cpu e faultVa err kernel = .returns handled next)
    (isDir : (kernel.envs e).envPgdir = some d) (other : f ≠ e)
    (user : va < utop) (reads : kernel.readByte f va = some byte) :
    next.readByte f va = some byte := by
  have below := Spaces.Sound.below sound isDir
  have faulted := (sound.pgfault_changes isCurrent below isDir faults).1
  refine faulted.changes.readByte user ?_ reads
  rintro (isTemp | ⟨_, isPage⟩)
  · exact other (congrArg Fin.val (congrArg Prod.fst isTemp))
  · exact other (congrArg Fin.val (congrArg Prod.fst isPage))

theorem slotAt_roundDown {faultVa : UInt32} (user : va < utop)
    (user' : roundDown faultVa < utop)
    (samePage : roundDown va = roundDown faultVa) :
    slotAt f user = slotAt f user' := by
  refine slot_ext rfl ?_
  have same := congrArg UInt32.toNat samePage
  rw [roundDown_toNat, roundDown_toNat] at same
  rw [pageNumber_slotAt, pageNumber_slotAt, roundDown_toNat]
  omega

/-- A fault that is handled changes no byte of its page. -/
theorem SoundAt.fault_copies {cpu : Nat} {faultVa err : UInt32}
    (sound : SoundAt pool kernel) (isCurrent : kernel.cpus cpu = some f)
    (isDir : (kernel.envs f).envPgdir = some d)
    (faults : pgfault cpu f faultVa err kernel = .returns .returns next)
    (notTemp : roundDown faultVa ≠ pfTemp) (user : va < utop)
    (samePage : roundDown va = roundDown faultVa)
    (reads : kernel.readByte f va = some byte) :
    next.readByte f va = some byte := by
  obtain ⟨faulted, copied⟩ := sound.pgfault_changes isCurrent f.isLt isDir faults
  have user' : roundDown faultVa < utop := by
    rw [← samePage]
    exact roundDown_lt_utop.mpr user
  obtain ⟨page, copy, copies⟩ := copied rfl user' notTemp
  have slots := @slotAt_roundDown _ f _ user user' samePage
  obtain ⟨d', page', isDir', table, names, _, isByte⟩ :=
    (kernel.readByte_some user).mp reads
  rw [slots] at names
  cases copies.source.symm.trans names
  refine (next.readByte_some user).mpr ⟨d', copy, ?_, ?_, ?_, ?_, ?_⟩
  · rw [faulted.changes.envs]
    exact isDir'
  · exact faulted.changes.table_rights user isDir' table
  · rw [slots]
    exact copies.names
  · rw [slots]
    exact PhysMem.userRights_mono copies.rights
  · rw [← isByte]
    unfold PhysMem.byteAt
    rw [copies.words _ (by omega)]

/-! ## Isolation -/

/-- One of the two is `e`, the other one is `f`. -/
def OneAndOther (parent child e f : Nat) : Prop :=
  e = parent ∧ f = child ∨ e = child ∧ f = parent

/-- Neither the parent nor the child can change what the other reads, and the
copies that `pgfault` makes are copies. -/
structure Kernel.KeptApart (kernel : Kernel) (parent child : Nat) : Prop where
  /-- No page of both is writable. -/
  readOnly : ∀ va va' page pte pte', va < utop → va' < utop →
    kernel.lookupPage parent va = some (some (page, pte)) →
    kernel.lookupPage child va' = some (some (page, pte')) →
    pte &&& pteW = 0 ∧ pte' &&& pteW = 0
  /-- No store changes what the other reads. -/
  stores : ∀ e f va byte next va', OneAndOther parent child e f →
    (UserEvent.store e va byte).Goes kernel next → va' < utop →
    next.readByte f va' = kernel.readByte f va'
  /-- No fault changes what the other reads. -/
  faults : ∀ e f cpu va err next va' byte, OneAndOther parent child e f →
    (UserEvent.fault cpu e va err).Goes kernel next → va' < utop →
    kernel.readByte f va' = some byte → next.readByte f va' = some byte
  /-- The page of a fault that is handled keeps its contents. -/
  copies : ∀ e cpu d va err next va' byte, e = parent ∨ e = child →
    kernel.cpus cpu = some e → (kernel.envs e).envPgdir = some d →
    pgfault cpu e va err kernel = .returns .returns next →
    roundDown va ≠ pfTemp → va' < utop → roundDown va' = roundDown va →
    kernel.readByte e va' = some byte → next.readByte e va' = some byte

theorem Kernel.Severed.keptApart (severed : kernel.Severed pool parent child) :
    kernel.KeptApart parent child where
  readOnly va va' page pte pte' user user' found found' := by
    obtain ⟨isPte, names⟩ :=
      entry_of_lookupPage severed.sound parent.isLt user found
    obtain ⟨isPte', names'⟩ :=
      entry_of_lookupPage severed.sound child.isLt user' found'
    have different : slotAt parent user ≠ slotAt child user' :=
      fun same => severed.other (congrArg Prod.fst same).symm
    have shares : Sharing.Shares frameOf kernel.entry (slotAt parent user)
      (slotAt child user') := ⟨different, page, names, names'⟩
    have readOnly := severed.kept _ rfl _ rfl shares
    have readOnly' := severed.given _ rfl _ rfl shares.symm
    rw [IsWritable, not_not] at readOnly readOnly'
    rw [← isPte, ← isPte']
    exact ⟨readOnly, readOnly'⟩
  stores e f va byte next va' both goes user := by
    rcases both with ⟨rfl, rfl⟩ | ⟨rfl, rfl⟩
    · exact severed.store goes user
    · exact severed.symm.store goes user
  faults e f cpu va err next va' byte both goes user reads := by
    have different : f ≠ e := by
      rcases both with ⟨rfl, rfl⟩ | ⟨rfl, rfl⟩
      · exact fun same => severed.other (Fin.ext same)
      · exact fun same => severed.other (Fin.ext same.symm)
    cases goes with
    | fault isCurrent isDir _ ends =>
        rcases both with ⟨rfl, rfl⟩ | ⟨rfl, rfl⟩
        · exact severed.sound.fault_reads isCurrent ends isDir different user
            reads
        · exact severed.sound.fault_reads isCurrent ends isDir different user
            reads
  copies e cpu d va err next va' byte both isCurrent isDir ends notTemp user
      samePage reads := by
    rcases both with rfl | rfl
    · exact severed.sound.fault_copies isCurrent isDir ends notTemp user samePage
        reads
    · exact severed.sound.fault_copies isCurrent isDir ends notTemp user samePage
        reads

end FeaturesOS.Scheduler

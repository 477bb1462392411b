import FeaturesOS.Scheduler.FaultEntries
import FeaturesOS.Scheduler.Fork

/-!
# Reading the page tables through the windows

The directory maps itself, so `uvpd[pnum >> 10]` and `uvpt[pnum]` are the entries
of the page tables themselves.
-/

namespace FeaturesOS.Scheduler

open Entry

namespace PhysMem

variable {mem : PhysMem} {d f o k pn : Nat} {va : UInt32} {writes : Bool}

theorem granted_part {entry rights part : UInt32}
    (granted : entry &&& rights = rights) (isPart : rights &&& part = part) :
    entry &&& part = part := by
  rw [← isPart, ← UInt32.and_assoc, granted]

theorem not_absent {entry : UInt32}
    (granted : entry &&& userRights false = userRights false) :
    ¬ (entry &&& pteP = 0 ∨ entry &&& pteU = 0) := by
  rw [granted_part granted (show _ &&& pteP = pteP by decide),
    granted_part granted (show _ &&& pteU = pteU by decide)]
  decide

theorem and_part_zero {entry mask part : UInt32} (zero : entry &&& mask = 0)
    (isPart : mask &&& part = part) : entry &&& part = 0 := by
  rw [← isPart, ← UInt32.and_assoc, zero]
  exact UInt32.zero_and

/-- The bytes of an aligned word are in one page. -/
theorem translate_word_byte (aligned : va.toNat % 4 = 0) (inside : k < 4) :
    mem.translate d writes (va + UInt32.ofNat k) =
      (mem.translate d writes va).map fun place => (place.1, place.2 + k) := by
  have bound := va.toNat_lt
  have sum : (va + UInt32.ofNat k).toNat = va.toNat + k := by
    rw [UInt32.toNat_add, UInt32.toNat_ofNat']
    omega
  have table : pdx (va + UInt32.ofNat k) = pdx va := by
    unfold pdx
    rw [sum]
    omega
  have index : ptx (va + UInt32.ofNat k) = ptx va := by
    unfold ptx
    rw [sum]
    omega
  have offset : (va.toNat + k) % 4096 = va.toNat % 4096 + k := by
    omega
  unfold translate
  dsimp only
  rw [table, index, sum, offset]
  split
  · rfl
  · rfl

/-- A word that is read is one of a page. -/
theorem loadWord_aligned (aligned : va.toNat % 4 = 0) :
    mem.loadWord d va = (mem.translate d false va).map fun place =>
      mem.ram place.1 (place.2 / 4) := by
  have bytes : ∀ k < 4, mem.loadByte d (va + UInt32.ofNat k) =
      (mem.translate d false va).map fun place =>
        mem.byteAt (place.1, place.2 + k) := by
    intro k inside
    unfold loadByte
    rw [translate_word_byte aligned inside, Option.map_map]
    rfl
  have first := bytes 0 (by decide)
  rw [show va + UInt32.ofNat 0 = va from UInt32.add_zero va] at first
  unfold loadWord
  rw [first, show va + 1 = va + UInt32.ofNat 1 from rfl, bytes 1 (by decide),
    show va + 2 = va + UInt32.ofNat 2 from rfl, bytes 2 (by decide),
    show va + 3 = va + UInt32.ofNat 3 from rfl, bytes 3 (by decide)]
  cases found : mem.translate d false va with
  | none => rfl
  | some place =>
      have offset := translate_offset found
      have multiple : place.2 % 4 = 0 := by omega
      have parts : ∀ p < 4, mem.byteAt (place.1, place.2 + p) =
          getByte (mem.ram place.1 (place.2 / 4)) p := by
        intro p below
        unfold byteAt
        dsimp only
        rw [show (place.2 + p) / 4 = place.2 / 4 by omega,
          show (place.2 + p) % 4 = p by omega]
      change some (wordOf [mem.byteAt (place.1, place.2 + 0),
        mem.byteAt (place.1, place.2 + 1), mem.byteAt (place.1, place.2 + 2),
        mem.byteAt (place.1, place.2 + 3)]) = _
      rw [parts 0 (by decide), parts 1 (by decide), parts 2 (by decide),
        parts 3 (by decide)]
      exact congrArg some (wordOf_getByte _)

/-- The directory `d` maps itself at `UVPT`. -/
def Window (mem : PhysMem) (d : Nat) : Prop :=
  mem.ram d (pdx Scheduler.uvpt) = page2pa d ||| pteP ||| pteU

instance (mem : PhysMem) (d : Nat) : Decidable (mem.Window d) :=
  inferInstanceAs (Decidable (_ = _))

theorem Window.table (window : mem.Window d) (addressable : d < 2 ^ 20) :
    pteFrame (mem.ram d (pdx Scheduler.uvpt)) = d := by
  rw [window, UInt32.or_assoc]
  exact pteFrame_or addressable (by decide)

theorem Window.rights (window : mem.Window d) :
    mem.ram d (pdx Scheduler.uvpt) &&& userRights false = userRights false := by
  have granted : (page2pa d ||| (pteP ||| pteU) ||| 0) &&& userRights false =
      userRights false := granted_or (by decide) (page2pa d) 0
  rw [UInt32.or_zero] at granted
  rw [window, UInt32.or_assoc]
  exact granted

/-- An aligned word of the window, with the position of its page. -/
theorem Window.load (window : mem.Window d) (addressable : d < 2 ^ 20)
    {index offset : Nat} (below : index < 1024) (inside : offset < 1024)
    (isVa : va.toNat = 957 * 2 ^ 22 + index * 4096 + offset * 4) :
    mem.loadWord d va =
      if mem.ram d index &&& userRights false = userRights false then
        some (mem.ram (pteFrame (mem.ram d index)) offset)
      else none := by
  have table : pdx va = pdx Scheduler.uvpt := by
    have isUvpt : pdx Scheduler.uvpt = 957 := by decide
    rw [isUvpt]
    unfold pdx
    omega
  have isIndex : ptx va = index := by
    unfold ptx
    omega
  have isOffset : va.toNat % 4096 / 4 = offset := by
    omega
  rw [loadWord_aligned (by omega)]
  unfold translate
  dsimp only
  rw [table, window.table addressable, isIndex]
  split
  · rename_i granted
    rw [if_pos granted.2, Option.map_some, isOffset]
  · rename_i refused
    rw [if_neg fun granted => refused ⟨window.rights, granted⟩]
    rfl

/-- `uvpd[pnum >> 10]` is the entry of the directory. -/
theorem Window.uvpd (window : mem.Window d) (addressable : d < 2 ^ 20)
    (below : pn < 2 ^ 20) :
    mem.loadWord d (Scheduler.uvpd + UInt32.ofNat (pn / 1024 * 4)) =
      some (mem.ram d (pn / 1024)) := by
  have start : Scheduler.uvpd.toNat = 957 * 2 ^ 22 + 957 * 4096 := by decide
  have isVa : (Scheduler.uvpd + UInt32.ofNat (pn / 1024 * 4)).toNat =
      957 * 2 ^ 22 + 957 * 4096 + pn / 1024 * 4 := by
    rw [UInt32.toNat_add, UInt32.toNat_ofNat', start]
    omega
  rw [window.load addressable (by decide) (by omega) isVa]
  have isUvpt : pdx Scheduler.uvpt = 957 := by decide
  have table := window.table addressable
  have rights := window.rights
  rw [isUvpt] at table rights
  rw [if_pos rights, table]

/-- `uvpt[pnum]` is the entry of the table, if there is a table. -/
theorem Window.uvpt (window : mem.Window d) (addressable : d < 2 ^ 20)
    (below : pn < 2 ^ 20) :
    mem.loadWord d (Scheduler.uvpt + UInt32.ofNat (pn * 4)) =
      if mem.ram d (pn / 1024) &&& userRights false = userRights false then
        some (mem.ram (pteFrame (mem.ram d (pn / 1024))) (pn % 1024))
      else none := by
  have start : Scheduler.uvpt.toNat = 957 * 2 ^ 22 := by decide
  apply window.load addressable (by omega) (Nat.mod_lt _ (by decide))
  rw [UInt32.toNat_add, UInt32.toNat_ofNat', start]
  omega

end PhysMem

variable {kernel next : Kernel} {pool : List Nat} {e d pn : Nat}
variable {va word : UInt32}

theorem readUser_returns (reads : readUser e va kernel = .returns word next) :
    next = kernel ∧ kernel.readWord e va = some word := by
  unfold readUser at reads
  rw [read_bind_run] at reads
  cases found : kernel.readWord e va with
  | none =>
      rw [found] at reads
      cases reads
  | some word' =>
      rw [found] at reads
      cases reads
      exact ⟨rfl, rfl⟩

/-! ## The pages of a program by their numbers -/

/-- `PGNUM (UTOP)`. -/
abbrev userPages : Nat := utop.toNat / pgSize

theorem userPages_eq : userPages = 955 * 1024 := by decide

theorem pageVa_lt_utop (below : pn < userPages) :
    PhysMem.pageVa pn < utop := by
  rw [userPages_eq] at below
  rw [UInt32.lt_iff_toNat_lt, PhysMem.pageVa_toNat (by omega), utop_toNat]
  omega

theorem pageVa_aligned (below : pn < userPages) :
    PhysMem.pageVa pn % 4096 = 0 := by
  rw [userPages_eq] at below
  apply UInt32.toNat_inj.mp
  rw [UInt32.toNat_mod, PhysMem.pageVa_toNat (by omega)]
  exact Nat.mul_mod_left pn 4096

def pageSlot (e : Fin nenv) (below : pn < userPages) : Slot :=
  slotAt e (pageVa_lt_utop below)

/-- The number of the page that an entry maps. -/
def Slot.pageNumber (slot : Slot) : Nat := slot.2.1 * 1024 + slot.2.2

theorem pageNumber_slotAt (slot : Fin nenv) (user : va < utop) :
    (slotAt slot user).pageNumber = va.toNat / 4096 := by
  change pdx va * 1024 + ptx va = va.toNat / 4096
  unfold pdx ptx
  omega

theorem pageNumber_pageSlot (slot : Fin nenv) (below : pn < userPages) :
    (pageSlot slot below).pageNumber = pn := by
  unfold pageSlot
  rw [pageNumber_slotAt]
  rw [userPages_eq] at below
  rw [PhysMem.pageVa_toNat (by omega)]
  exact Nat.mul_div_cancel pn (by decide)

theorem slot_ext {x y : Slot} (env : x.1 = y.1)
    (page : x.pageNumber = y.pageNumber) : x = y := by
  obtain ⟨e, i, j⟩ := x
  obtain ⟨f, k, l⟩ := y
  cases env
  change i.val * 1024 + j.val = k.val * 1024 + l.val at page
  have below : j.val < 1024 := j.isLt
  have below' : l.val < 1024 := l.isLt
  have table : i = k := Fin.ext (by omega)
  have index : j = l := Fin.ext (by omega)
  rw [table, index]

theorem pageNumber_lt (slot : Slot) : slot.pageNumber < userPages := by
  have isTables : userTables = 955 := by
    unfold userTables
    rfl
  have below := slot.2.1.isLt
  have below' : slot.2.2.val < 1024 := slot.2.2.isLt
  rw [userPages_eq]
  unfold Slot.pageNumber
  omega

theorem pageVa_of_pageSlot {slot other : Fin nenv} {below : pn < userPages}
    {user : roundDown va < utop}
    (same : pageSlot slot below = slotAt other user) :
    slot = other ∧ roundDown va = PhysMem.pageVa pn := by
  refine ⟨congrArg Prod.fst same, ?_⟩
  have page := congrArg Slot.pageNumber same
  rw [pageNumber_pageSlot, pageNumber_slotAt, roundDown_toNat] at page
  have bound := below
  rw [userPages_eq] at bound
  apply UInt32.toNat_inj.mp
  rw [roundDown_toNat, PhysMem.pageVa_toNat (by omega)]
  omega

/-! ## The windows of a program -/

/-- The directory of a program maps itself, and all its tables are there for
user mode. -/
structure Kernel.Windowed (kernel : Kernel) (e d : Nat) : Prop where
  isDir : (kernel.envs e).envPgdir = some d
  window : kernel.mem.Window d
  tables : ∀ i : Fin userTables, kernel.mem.ram d i = 0 ∨
    PhysMem.TableRights (kernel.mem.ram d i)

theorem SoundAt.dir_lt (sound : SoundAt pool kernel)
    (isDir : (kernel.envs e).envPgdir = some d) : d < 2 ^ 20 := by
  obtain ⟨free, accounted⟩ := sound.accounted
  have below := Spaces.Sound.below sound isDir
  have held : kernel.spaces.mem.holds kernel.spaces.dirs (.pgdir ⟨e, below⟩) =
    some d := isDir
  exact accounted.lt (accounted.tree.pooled _ _ held)

theorem pdx_pageVa (below : pn < userPages) :
    pdx (PhysMem.pageVa pn) = pn / 1024 := by
  rw [userPages_eq] at below
  unfold pdx
  rw [PhysMem.pageVa_toNat (by omega)]
  omega

theorem ptx_pageVa (below : pn < userPages) :
    ptx (PhysMem.pageVa pn) = pn % 1024 := by
  rw [userPages_eq] at below
  unfold ptx
  rw [PhysMem.pageVa_toNat (by omega)]
  omega

theorem Kernel.Windowed.loads (windowed : kernel.Windowed e d)
    (reads : kernel.readWord e va = some word) :
    kernel.mem.loadWord d va = some word := by
  unfold Kernel.readWord at reads
  rwa [windowed.isDir] at reads

/-- An entry is found through the directory. -/
theorem Kernel.Windowed.entry (windowed : kernel.Windowed e d)
    (env : e < nenv) (below : pn < userPages) :
    kernel.mem.ram d (pn / 1024) = 0 ∧
        kernel.entry (pageSlot ⟨e, env⟩ below) = 0 ∨
      PhysMem.TableRights (kernel.mem.ram d (pn / 1024)) ∧
        kernel.entry (pageSlot ⟨e, env⟩ below) =
          kernel.mem.ram (pteFrame (kernel.mem.ram d (pn / 1024)))
            (pn % 1024) := by
  have isDir : kernel.spaces.dirs (⟨e, env⟩ : Fin nenv) = some d :=
    windowed.isDir
  have user := pageVa_lt_utop below
  have index := pdx_pageVa below
  rw [← index, ← ptx_pageVa below]
  rcases windowed.tables ⟨_, pdx_lt_userTables user⟩ with absent | rights
  · exact .inl ⟨absent, PhysMem.word_pte_none isDir (congrArg frameOf absent)⟩
  · have present := PhysMem.userRights_present true rights
    exact .inr ⟨rights,
      PhysMem.word_pte isDir (if_neg (ne_zero_of_present present))⟩

/-- A page without a table is not mapped. -/
theorem Kernel.Windowed.entry_of_uvpd (windowed : kernel.Windowed e d)
    (sound : SoundAt pool kernel) (env : e < nenv) (below : pn < userPages)
    (reads : kernel.readWord e (uvpd + UInt32.ofNat (pn / 1024 * 4)) =
      some word) (absent : word &&& pteP = 0 ∨ word &&& pteU = 0) :
    kernel.entry (pageSlot ⟨e, env⟩ below) = 0 := by
  have bound := below
  rw [userPages_eq] at bound
  have loads := windowed.loads reads
  rw [windowed.window.uvpd (sound.dir_lt windowed.isDir) (by omega),
    Option.some.injEq] at loads
  rcases windowed.entry env below with ⟨_, zero⟩ | ⟨rights, _⟩
  · exact zero
  · rw [loads] at rights
    exact absurd absent (PhysMem.not_absent (PhysMem.userRights_mono rights))

/-- The window shows the entry. -/
theorem Kernel.Windowed.entry_of_uvpt (windowed : kernel.Windowed e d)
    (sound : SoundAt pool kernel) (env : e < nenv) (below : pn < userPages)
    (reads : kernel.readWord e (uvpt + UInt32.ofNat (pn * 4)) = some word) :
    kernel.entry (pageSlot ⟨e, env⟩ below) = word := by
  have bound := below
  rw [userPages_eq] at bound
  have loads := windowed.loads reads
  rw [windowed.window.uvpt (sound.dir_lt windowed.isDir) (by omega)] at loads
  split at loads
  · rename_i granted
    rcases windowed.entry env below with ⟨zero, _⟩ | ⟨_, isEntry⟩
    · rw [zero] at granted
      exact absurd granted (by decide)
    · rw [isEntry]
      exact Option.some.inj loads
  · cases loads

end FeaturesOS.Scheduler

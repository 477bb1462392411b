import FeaturesOS.Scheduler.PageMessages
import FeaturesOS.Scheduler.UserChecks

/-!
# The page fault handler of `fork`

The handler `pgfault` of `lib/fork.c`, which runs in the environment whose access
has faulted.  An access of the handler that faults itself ends it.
-/

namespace FeaturesOS.Scheduler

open Entry

/-! ## `memmove` -/

namespace PhysMem

def loadBytes (mem : PhysMem) (pgdir : Nat) : Nat → UInt32 → Option (List UInt8)
  | 0, _ => some []
  | count + 1, va => do
      let byte ← mem.loadByte pgdir va
      let bytes ← mem.loadBytes pgdir count (va + 1)
      some (byte :: bytes)

/-- A unit of `rep movs` between two addresses. -/
def moveUnit (mem : PhysMem) (pgdir width : Nat) (dst src : UInt32) :
    Option PhysMem := do
  let bytes ← mem.loadBytes pgdir width src
  if mem.Writable pgdir dst width then
    storeBytes pgdir mem dst bytes
  else
    none

/-- The units at the offsets in their order; `false` is a page fault on the way. -/
def moveUnits (pgdir width : Nat) (dst src : UInt32) :
    List Nat → PhysMem → Bool × PhysMem
  | [], mem => (true, mem)
  | offset :: offsets, mem =>
      match mem.moveUnit pgdir width (dst + UInt32.ofNat offset)
        (src + UInt32.ofNat offset) with
      | none => (false, mem)
      | some moved => moveUnits pgdir width dst src offsets moved

/-- `memmove`, in words where everything is aligned, and from the last unit on
where the destination overlaps the end of the source. -/
def memmove (mem : PhysMem) (pgdir : Nat) (dst src n : UInt32) :
    Bool × PhysMem :=
  let width := if src % 4 = 0 ∧ dst % 4 = 0 ∧ n % 4 = 0 then 4 else 1
  let offsets := (List.range (n.toNat / width)).map (· * width)
  if src < dst ∧ src + n > dst then
    moveUnits pgdir width dst src offsets.reverse mem
  else
    moveUnits pgdir width dst src offsets mem

variable {mem next : PhysMem} {pool free : List Nat} {dirs : Nat → Option Nat}
variable {e : Fin nenv} {pgdir width : Nat} {dst src va : UInt32}

theorem loadBytes_length {count : Nat} {bytes : List UInt8}
    (loads : mem.loadBytes pgdir count va = some bytes) :
    bytes.length = count := by
  induction count generalizing va bytes with
  | zero =>
      cases loads
      rfl
  | succ count induction =>
      obtain ⟨byte, _, rest⟩ := Option.bind_eq_some_iff.mp loads
      obtain ⟨bytes', loads', same⟩ := Option.bind_eq_some_iff.mp rest
      cases same
      rw [List.length_cons, induction loads']

/-- A unit is moved into the pages of the user. -/
theorem Accounted.moveUnit (accounted : mem.Accounted pool free dirs)
    (separate : mem.Separate dirs) (isDir : dirs e = some pgdir)
    (user : ∀ k < width, dst + UInt32.ofNat k < utop)
    (moves : mem.moveUnit pgdir width dst src = some next) :
    Written mem next pool free dirs := by
  obtain ⟨bytes, loads, stores⟩ := Option.bind_eq_some_iff.mp moves
  have isLength := loadBytes_length loads
  split at stores
  · apply accounted.storeBytes separate isDir _ stores
    rw [isLength]
    exact user
  · cases stores

theorem Accounted.moveUnits {offsets : List Nat}
    (accounted : mem.Accounted pool free dirs) (separate : mem.Separate dirs)
    (isDir : dirs e = some pgdir)
    (user : ∀ offset ∈ offsets, ∀ k < width,
      dst + UInt32.ofNat offset + UInt32.ofNat k < utop) :
    Written mem (PhysMem.moveUnits pgdir width dst src offsets mem).2 pool free
      dirs := by
  induction offsets generalizing mem with
  | nil => exact .refl accounted
  | cons offset offsets induction =>
      unfold PhysMem.moveUnits
      split
      · exact .refl accounted
      · rename_i moved moves
        have first := accounted.moveUnit separate isDir
          (user offset List.mem_cons_self) moves
        apply first.trans
        apply induction first.accounted (first.separate separate)
        intro other member
        exact user other (List.mem_cons_of_mem _ member)

/-- A move that does not fault has loaded its first byte. -/
theorem moveUnits_loads {offsets : List Nat} {offset : Nat}
    (done : (moveUnits pgdir (width + 1) dst src (offset :: offsets) mem).1 =
      true) :
    (mem.translate pgdir false (src + UInt32.ofNat offset)).isSome = true := by
  unfold moveUnits at done
  split at done
  · cases done
  · rename_i moved moves
    obtain ⟨bytes, loads, _⟩ := Option.bind_eq_some_iff.mp moves
    obtain ⟨byte, loadsFirst, _⟩ := Option.bind_eq_some_iff.mp loads
    obtain ⟨place, found, _⟩ := Option.map_eq_some_iff.mp loadsFirst
    rw [found]
    rfl

/-- The words of a page, as `memmove` copies them to an aligned address. -/
def pageOffsets : List Nat := (List.range 1024).map (· * 4)

theorem pageOffsets_first : ∃ offsets, pageOffsets = 0 :: offsets := by
  unfold pageOffsets
  rw [show 1024 = 1023 + 1 from rfl, List.range_succ_eq_map, List.map_cons]
  exact ⟨_, rfl⟩

/-- A page is copied to another one from its first word on. -/
theorem memmove_page (srcAligned : src % 4096 = 0) (dstAligned : dst % 4096 = 0)
    (mem : PhysMem) (pgdir : Nat) :
    mem.memmove pgdir dst src 4096 = moveUnits pgdir 4 dst src pageOffsets mem := by
  have srcPage := congrArg UInt32.toNat srcAligned
  have dstPage := congrArg UInt32.toNat dstAligned
  rw [UInt32.toNat_mod, show (4096 : UInt32).toNat = 4096 from rfl,
    show (0 : UInt32).toNat = 0 from rfl] at srcPage dstPage
  have aligned : ∀ va : UInt32, va.toNat % 4096 = 0 → va % 4 = 0 := by
    intro va isPage
    apply UInt32.toNat_inj.mp
    rw [UInt32.toNat_mod, show (4 : UInt32).toNat = 4 from rfl]
    change va.toNat % 4 = 0
    omega
  have forward : ¬ (src < dst ∧ src + 4096 > dst) := by
    rintro ⟨below, overlaps⟩
    have dst32 := dst.toNat_lt
    change dst < src + 4096 at overlaps
    rw [UInt32.lt_iff_toNat_lt] at below overlaps
    rw [UInt32.toNat_add, show (4096 : UInt32).toNat = 4096 from rfl]
      at overlaps
    omega
  unfold memmove
  dsimp only
  rw [if_neg forward, if_pos ⟨aligned src srcPage, aligned dst dstPage, rfl⟩]
  rfl

/-- A page that can be copied has a table. -/
theorem table_of_memmove (srcAligned : src % 4096 = 0)
    (dstAligned : dst % 4096 = 0)
    (done : (mem.memmove pgdir dst src 4096).1 = true) :
    mem.ram pgdir (pdx src) ≠ 0 := by
  obtain ⟨offsets, isFirst⟩ := pageOffsets_first
  rw [memmove_page srcAligned dstAligned, isFirst] at done
  have readable := moveUnits_loads done
  rw [show src + UInt32.ofNat 0 = src from UInt32.add_zero src] at readable
  obtain ⟨place, found⟩ := Option.isSome_iff_exists.mp readable
  unfold translate at found
  dsimp only at found
  split at found
  · rename_i granted
    exact ne_zero_of_present (userRights_present false granted.1)
  · cases found

/-- The offsets of a page keep to the page. -/
theorem pageOffsets_user {offset k : Nat} (member : offset ∈ pageOffsets)
    (inside : k < 4) : pfTemp + UInt32.ofNat offset + UInt32.ofNat k < utop := by
  obtain ⟨i, below, same⟩ := List.mem_map.mp member
  have small := List.mem_range.mp below
  rw [UInt32.lt_iff_toNat_lt, UInt32.toNat_add, UInt32.toNat_add,
    UInt32.toNat_ofNat', UInt32.toNat_ofNat',
    show pfTemp.toNat = 8384512 from rfl, show utop.toNat = 4005560320 from rfl]
  omega

/-- The processor finds the words of the tree. -/
theorem translate_word (isDir : dirs e = some pgdir) (user : va < utop)
    (writes : Bool) :
    mem.translate pgdir writes va =
      if mem.word dirs (.pdeAt e user) &&& userRights writes =
            userRights writes ∧
          mem.word dirs (.pteAt e user) &&& userRights writes =
            userRights writes then
        some (pteFrame (mem.word dirs (.pteAt e user)), va.toNat % 4096)
      else none := by
  have isPde : mem.word dirs (.pdeAt e user) = mem.ram pgdir (pdx va) :=
    word_pde isDir
  unfold translate
  dsimp only
  rw [isPde]
  by_cases granted : mem.ram pgdir (pdx va) &&& userRights writes =
      userRights writes
  · have isTable : mem.holds dirs (.pdeAt e user) =
        some (pteFrame (mem.ram pgdir (pdx va))) := by
      rw [mem.holds_pdeAt isDir user]
      exact if_neg (ne_zero_of_present (userRights_present writes granted))
    have isPte : mem.word dirs (.pteAt e user) =
        mem.ram (pteFrame (mem.ram pgdir (pdx va))) (ptx va) := by
      rw [Holder.pdeAt, holds_pde isDir] at isTable
      exact word_pte isDir isTable
    rw [isPte]
  · rw [if_neg fun both => granted both.1, if_neg fun both => granted both.1]

/-- Memories with the same words are translated through in the same way. -/
theorem translate_congr (same : next.word dirs = mem.word dirs)
    (isDir : dirs e = some pgdir) (user : va < utop) (writes : Bool) :
    next.translate pgdir writes va = mem.translate pgdir writes va := by
  rw [translate_word isDir user, translate_word isDir user, same]

end PhysMem

/-! ## `pgfault` -/

/-- `FEC_WR`. -/
def fecWr : UInt32 := 2

/-- `!` of C. -/
def logicalNot (word : UInt32) : UInt32 := if word = 0 then 1 else 0

/-- How a call of the handler ends: it returns, it panics with a message and its
arguments, or one of its accesses faults. -/
inductive Handled where
  | returns
  | panics (message : String) (arguments : List Int)
  | faults
deriving DecidableEq

/-- A word that the environment `e` reads. -/
def Kernel.readWord (kernel : Kernel) (e : Nat) (va : UInt32) : Option UInt32 :=
  (kernel.envs e).envPgdir.bind fun pgdir => kernel.mem.loadWord pgdir va

/-- `memmove` in the environment `e`. -/
def moveMemory (e : Nat) (dst src n : UInt32) : KernelM Bool :=
  onPgdir e fun pgdir mem =>
    let (done, moved) := mem.memmove pgdir dst src n
    some (moved, done)

/-- `&uvpt[PGNUM (va)]`. -/
def uvptEntry (va : UInt32) : UInt32 := uvpt + (va >>> 12) * 4

/-- The copy of the page at `addr` to a page of its own, which `pgfault` makes at
`PFTEMP` and maps at `addr` then. -/
def installCopy (cpu e : Nat) (addr perm : UInt32) : KernelM Handled := do
  if ← moveMemory e pfTemp addr 4096 then do
    let r ← sysPageMap cpu 0 pfTemp 0 addr perm
    if r < 0 then
      pure (.panics "pgfault: sys_page_map: %e" [r])
    else do
      let r ← sysPageUnmap cpu 0 pfTemp
      if r < 0 then
        pure (.panics "pgfault: sys_page_unmap: %e" [r])
      else
        pure .returns
  else
    pure .faults

/-- `pgfault` in the environment `e`, with `utf_fault_va` and `utf_err`. -/
def pgfault (cpu e : Nat) (faultVa err : UInt32) : KernelM Handled := do
  match ← Entry.read fun kernel => kernel.readWord e (uvptEntry faultVa) with
  | none => pure .faults
  | some faultPte =>
      if (err &&& fecWr) &&& logicalNot (faultPte &&& pteCow) ≠ 0 then
        pure (.panics "pgfault: write fault on a non COW page" [])
      else do
        let perm := pteP ||| pteU ||| pteW
        let r ← sysPageAlloc cpu 0 pfTemp perm
        if r < 0 then
          pure (.panics "pgfault: sys_page_alloc: %e" [r])
        else
          installCopy cpu e (roundDown faultVa) perm

/-- The test of `pgfault` never fires: `FEC_WR` is not bit 0, and `!` is only
ever bit 0. -/
theorem guard_never (err pte : UInt32) :
    (err &&& fecWr) &&& logicalNot (pte &&& pteCow) = 0 := by
  unfold logicalNot
  split
  · rw [UInt32.and_assoc]
    exact UInt32.and_zero
  · exact UInt32.and_zero

variable {kernel next : Kernel} {pool : List Nat} {cpu e pgdir page : Nat}
variable {faultVa err addr va perm srcva dstva : UInt32} {r : Int}

theorem pgfault_unreadable
    (unreadable : kernel.readWord e (uvptEntry faultVa) = none) :
    pgfault cpu e faultVa err kernel = .returns .faults kernel := by
  unfold pgfault
  rw [read_bind_run, unreadable]
  rfl

/-- The error code and the entry make no difference. -/
theorem pgfault_run {pte : UInt32}
    (readable : kernel.readWord e (uvptEntry faultVa) = some pte) :
    pgfault cpu e faultVa err kernel =
      match sysPageAlloc cpu 0 pfTemp (pteP ||| pteU ||| pteW) kernel with
      | .stops => .stops
      | .leaves next => .leaves next
      | .returns r next =>
          if r < 0 then
            .returns (.panics "pgfault: sys_page_alloc: %e" [r]) next
          else
            installCopy cpu e (roundDown faultVa) (pteP ||| pteU ||| pteW)
              next := by
  unfold pgfault
  rw [read_bind_run, readable]
  dsimp only
  rw [guard_never, if_neg (not_not_intro rfl), bind_run]
  cases sysPageAlloc cpu 0 pfTemp (pteP ||| pteU ||| pteW) kernel with
  | stops => rfl
  | leaves next => rfl
  | returns r next =>
      dsimp only
      split <;> rfl

/-- The environment that runs finds itself as 0. -/
theorem finds_self (isCurrent : kernel.cpus cpu = some e) :
    kernel.Finds cpu 0 true e :=
  (if_pos rfl).trans (congrArg Except.ok isCurrent)

theorem sysPageMap_run {src dst : Nat} {srcenvid dstenvid : UInt32}
    (srcUser : UserPage srcva) (dstUser : UserPage dstva)
    (findsSrc : kernel.Finds cpu srcenvid true src)
    (findsDst : kernel.Finds cpu dstenvid true dst) :
    sysPageMap cpu srcenvid srcva dstenvid dstva perm kernel =
      envPageMap src srcva dst dstva (pteP ||| pteU ||| perm) kernel := by
  rw [Kernel.Finds] at findsSrc findsDst
  unfold sysPageMap
  rw [if_neg (not_not_intro srcUser), if_neg (not_not_intro dstUser), bind_run,
    lookupEnv_run, findsSrc]
  dsimp only
  rw [bind_run, lookupEnv_run, findsDst]

/-- `sys_page_unmap` of a user page of the caller does not fail. -/
theorem sysPageUnmap_succeeds (isCurrent : kernel.cpus cpu = some e)
    (user : UserPage va)
    (returns : sysPageUnmap cpu 0 va kernel = .returns r next) : r = 0 := by
  have finds := finds_self isCurrent
  rw [Kernel.Finds] at finds
  unfold sysPageUnmap at returns
  rw [if_neg (not_not_intro user), bind_run, lookupEnv_run, finds] at returns
  dsimp only at returns
  rw [bind_run] at returns
  split at returns
  · cases returns
    rfl
  · cases returns
  · cases returns

/-! ## The copy -/

theorem moveMemory_run {d : Nat} (isDir : (kernel.envs e).envPgdir = some d)
    (dst src n : UInt32) :
    moveMemory e dst src n kernel =
      .returns (kernel.mem.memmove d dst src n).1
        (kernel.setMem (kernel.mem.memmove d dst src n).2) := by
  unfold moveMemory onPgdir
  rw [read_bind_run, isDir]
  rfl

/-- Copying to `PFTEMP` changes no directory and no table. -/
theorem SoundAt.moveMemory (sound : SoundAt pool kernel)
    (isDir : (kernel.envs e).envPgdir = some pgdir) (aligned : addr % 4096 = 0) :
    SoundAt pool
        (kernel.setMem (kernel.mem.memmove pgdir pfTemp addr 4096).2) ∧
      (kernel.mem.memmove pgdir pfTemp addr 4096).2.word kernel.spaces.dirs =
        kernel.mem.word kernel.spaces.dirs := by
  obtain ⟨free, accounted⟩ := sound.accounted
  have accounted' : kernel.mem.Accounted pool free kernel.spaces.dirs :=
    accounted
  have below : e < nenv := sound.below isDir
  rw [PhysMem.memmove_page aligned (by decide)]
  have written := @PhysMem.Accounted.moveUnits _ _ _ _ ⟨e, below⟩ _ _ _ addr
    PhysMem.pageOffsets accounted' sound.separate isDir
    fun offset member k inside => PhysMem.pageOffsets_user member inside
  generalize (PhysMem.moveUnits pgdir 4 pfTemp addr PhysMem.pageOffsets
    kernel.mem).2 = moved at written ⊢
  exact ⟨sound.setMem written.accounted (written.separate sound.separate)
    written.outside, written.word⟩

theorem installCopy_run (isDir : (kernel.envs e).envPgdir = some pgdir)
    (addr perm : UInt32) :
    installCopy cpu e addr perm kernel =
      let moved := kernel.mem.memmove pgdir pfTemp addr 4096
      if moved.1 = true then
        match sysPageMap cpu 0 pfTemp 0 addr perm (kernel.setMem moved.2) with
        | .stops => .stops
        | .leaves next => .leaves next
        | .returns r next =>
            if r < 0 then
              .returns (.panics "pgfault: sys_page_map: %e" [r]) next
            else
              match sysPageUnmap cpu 0 pfTemp next with
              | .stops => .stops
              | .leaves last => .leaves last
              | .returns r last =>
                  .returns (if r < 0 then
                    .panics "pgfault: sys_page_unmap: %e" [r]
                  else .returns) last
      else .returns .faults (kernel.setMem moved.2) := by
  unfold installCopy
  rw [bind_run, moveMemory_run isDir]
  dsimp only
  split
  · rw [bind_run]
    cases sysPageMap cpu 0 pfTemp 0 addr perm
      (kernel.setMem (kernel.mem.memmove pgdir pfTemp addr 4096).2) with
    | stops => rfl
    | leaves next => rfl
    | returns r next =>
        dsimp only
        split
        · rfl
        · rw [bind_run]
          cases sysPageUnmap cpu 0 pfTemp next with
          | stops => rfl
          | leaves last => rfl
          | returns r last =>
              dsimp only
              split <;> rfl
  · rfl

/-- A page that the program may write is mapped at `PFTEMP`. -/
def Kernel.HasTemp (kernel : Kernel) (e : Nat) : Prop :=
  ∃ page srcpte, kernel.lookupPage e pfTemp = some (some (page, srcpte)) ∧
    srcpte &&& pteW ≠ 0

theorem userPage_pfTemp : UserPage pfTemp := by decide

theorem SoundAt.lookupPage_congr {mem : PhysMem} (sound : SoundAt pool kernel)
    (after : SoundAt pool (kernel.setMem mem))
    (same : mem.word kernel.spaces.dirs = kernel.mem.word kernel.spaces.dirs)
    (isDir : (kernel.envs e).envPgdir = some pgdir) (user : va < utop) :
    (kernel.setMem mem).lookupPage e va = kernel.lookupPage e va := by
  have isDir' : ((kernel.setMem mem).envs e).envPgdir = some pgdir := isDir
  obtain ⟨_, looks⟩ := sound.lookupPage isDir user
  obtain ⟨_, looks'⟩ := after.lookupPage isDir' user
  have sameWord : (kernel.setMem mem).mem.word (kernel.setMem mem).spaces.dirs =
    kernel.mem.word kernel.spaces.dirs := same
  rw [looks, looks', sameWord, PhysMem.holds_congr sameWord]
  rfl

/-- A page that can be read can be mapped over. -/
theorem sysPageMap_over (isCurrent : kernel.cpus cpu = some e)
    (isDir : (kernel.envs e).envPgdir = some pgdir) (temp : kernel.HasTemp e)
    (user : UserPage addr) (table : kernel.mem.ram pgdir (pdx addr) ≠ 0)
    (returns : sysPageMap cpu 0 pfTemp 0 addr perm kernel = .returns r next) :
    ¬ r < 0 ∧ next.cpus cpu = some e := by
  obtain ⟨page, srcpte, found, writes⟩ := temp
  have finds := finds_self isCurrent
  have writable : Writable (pteP ||| pteU ||| perm) srcpte :=
    writable_iff.mpr fun _ => writes
  rw [sysPageMap_run userPage_pfTemp user finds finds, envPageMap_run, found]
    at returns
  dsimp only at returns
  unfold Writable at writable
  rw [if_neg (not_not_intro writable), insertPage_run, isDir] at returns
  dsimp only at returns
  split at returns
  · cases returns
  · rename_i mem r' inserts
    cases returns
    refine ⟨fun failed => ?_, isCurrent⟩
    exact table (PhysMem.pageInsert_fails inserts failed).2.1

/-- When the page of a user address can be copied, the handler returns. -/
theorem SoundAt.installCopy_ends (sound : SoundAt pool kernel)
    (isCurrent : kernel.cpus cpu = some e)
    (isDir : (kernel.envs e).envPgdir = some pgdir) (temp : kernel.HasTemp e)
    (user : UserPage addr) {handled : Handled}
    (ends : installCopy cpu e addr perm kernel = .returns handled next) :
    handled = .faults ∨ handled = .returns := by
  obtain ⟨after, sameWord⟩ := sound.moveMemory isDir user.2
  rw [installCopy_run isDir] at ends
  dsimp only at ends
  by_cases done : (kernel.mem.memmove pgdir pfTemp addr 4096).1 = true
  · right
    have table : kernel.mem.ram pgdir (pdx addr) ≠ 0 :=
      PhysMem.table_of_memmove user.2 (by decide) done
    generalize (kernel.mem.memmove pgdir pfTemp addr 4096).2 = moved
      at after sameWord ends
    have temp' : (kernel.setMem moved).HasTemp e := by
      unfold Kernel.HasTemp
      rw [sound.lookupPage_congr after sameWord isDir userPage_pfTemp.1]
      exact temp
    have table' : (kernel.setMem moved).mem.ram pgdir (pdx addr) ≠ 0 := by
      have below : e < nenv := Spaces.Sound.below sound isDir
      have sameEntry := congrFun sameWord (.pdeAt ⟨e, below⟩ user.1)
      have isDir' : kernel.spaces.dirs (⟨e, below⟩ : Fin nenv) = some pgdir :=
        isDir
      unfold Holder.pdeAt at sameEntry
      rw [PhysMem.word_pde isDir', PhysMem.word_pde isDir'] at sameEntry
      exact sameEntry ▸ table
    have isCurrent' : (kernel.setMem moved).cpus cpu = some e := isCurrent
    have isDir' : ((kernel.setMem moved).envs e).envPgdir = some pgdir := isDir
    rw [if_pos done] at ends
    split at ends
    · cases ends
    · cases ends
    · rename_i r mapped maps
      obtain ⟨succeeds, stays⟩ :=
        sysPageMap_over isCurrent' isDir' temp' user table' maps
      rw [if_neg succeeds] at ends
      split at ends
      · cases ends
      · cases ends
      · rename_i r' last unmaps
        have zero := sysPageUnmap_succeeds stays userPage_pfTemp unmaps
        subst zero
        cases ends
        rfl
  · rw [if_neg done] at ends
    cases ends
    exact .inl rfl

/-! ## Which faults are served -/

/-- No page can be had for `va`: none is free, or the last one is lost. -/
def Kernel.NoPage (kernel : Kernel) (e : Nat) (va : UInt32) : Prop :=
  kernel.mem.pageFreeList = none ∨ kernel.RunsDry e va

theorem Kernel.NoPage.envPageAlloc (noPage : kernel.NoPage e va)
    (allowed : ¬ checkPerm perm < 0) :
    Scheduler.envPageAlloc e va perm kernel =
      .returns (-eNoMem) (kernel.setMem (kernel.mem.pageAlloc true).1) := by
  rcases noPage with empty | dry
  · rw [envPageAlloc_run allowed]
    unfold PhysMem.pageAlloc
    rw [empty]
  · exact (dry.envPageAlloc allowed).1

/-- Taking a page changes no directory and no table. -/
theorem SoundAt.word_pageAlloc (sound : SoundAt pool kernel) (zero : Bool) :
    (kernel.mem.pageAlloc zero).1.word kernel.spaces.dirs =
      kernel.mem.word kernel.spaces.dirs := by
  obtain ⟨free, accounted⟩ := sound.accounted
  have accounted' : kernel.mem.Accounted pool free kernel.spaces.dirs :=
    accounted
  cases taken : kernel.mem.pageAlloc zero with
  | mk mem found =>
      cases found with
      | none =>
          have same := accounted'.books.pageAlloc zero
          rw [taken] at same
          rw [same.1]
      | some page =>
          obtain ⟨_, _, _, _, _, word, _⟩ := accounted'.pageAlloc taken
          exact word

theorem PhysMem.Grants.entry {mem : PhysMem} (grants : mem.Grants pgdir perm va) :
    mem.ram (pteFrame (mem.ram pgdir (pdx va))) (ptx va) &&& (perm ||| pteP) =
      perm ||| pteP := by
  obtain ⟨pte, found, bits⟩ := grants
  unfold tableEntry at found
  dsimp only at found
  split at found
  · cases found
  · split at found
    · cases found
      exact bits
    · cases found

theorem PhysMem.grants_of_entry {mem : PhysMem}
    (table : mem.ram pgdir (pdx va) ≠ 0)
    (valid : mem.Valid (pteFrame (mem.ram pgdir (pdx va))))
    (bits : mem.ram (pteFrame (mem.ram pgdir (pdx va))) (ptx va) &&&
      (perm ||| pteP) = perm ||| pteP) : mem.Grants pgdir perm va := by
  refine ⟨⟨pteFrame (mem.ram pgdir (pdx va)), ptx va⟩, ?_, bits⟩
  unfold tableEntry
  dsimp only
  rw [if_neg table, if_pos valid]

/-- The fault is a write to a page that is marked `PTE_COW`. -/
def Kernel.WritesCow (kernel : Kernel) (pgdir : Nat) (faultVa err : UInt32) :
    Prop :=
  err &&& fecWr ≠ 0 ∧ kernel.mem.Grants pgdir pteCow faultVa

/-- The handler only returns for a write to a copy-on-write page and panics for
all other faults; no other page that was not writable becomes so. -/
structure Kernel.OnlyServesCow (kernel : Kernel) (cpu e pgdir : Nat)
    (faultVa err : UInt32) : Prop where
  served : ∀ next, pgfault cpu e faultVa err kernel = .returns .returns next →
    kernel.WritesCow pgdir faultVa err
  refused : ¬ kernel.WritesCow pgdir faultVa err → ∃ message arguments next,
    pgfault cpu e faultVa err kernel =
      .returns (.panics message arguments) next
  readOnly : faultVa < utop → ¬ kernel.WritesCow pgdir faultVa err →
    kernel.mem.translate pgdir true faultVa = none → ∀ handled next,
      pgfault cpu e faultVa err kernel = .returns handled next →
        next.mem.translate pgdir true faultVa = none

/-- The handler panics for another reason: it gets no page for `PFTEMP`, or it
copies a page that no environment may map. -/
inductive Kernel.PanicsAnyway (kernel : Kernel) (cpu e pgdir : Nat)
    (faultVa : UInt32) : Prop where
  | noPage {pte : UInt32} :
      kernel.readWord e (uvptEntry faultVa) = some pte →
      kernel.NoPage e pfTemp → PanicsAnyway kernel cpu e pgdir faultVa
  | beyond {pte : UInt32} {next : Kernel} :
      kernel.readWord e (uvptEntry faultVa) = some pte → utop ≤ faultVa →
      sysPageAlloc cpu 0 pfTemp (pteP ||| pteU ||| pteW) kernel =
        .returns 0 next →
      (next.mem.memmove pgdir pfTemp (roundDown faultVa) 4096).1 = true →
      PanicsAnyway kernel cpu e pgdir faultVa

theorem roundDown_aligned (va : UInt32) : roundDown va % 4096 = 0 := by
  apply UInt32.toNat_inj.mp
  rw [UInt32.toNat_mod, roundDown_toNat]
  change va.toNat / 4096 * 4096 % 4096 = 0
  omega

theorem roundDown_lt_utop : roundDown va < utop ↔ va < utop := by
  rw [UInt32.lt_iff_toNat_lt, UInt32.lt_iff_toNat_lt, roundDown_toNat,
    utop_toNat]
  omega

theorem Kernel.NoPage.pgfault {pte : UInt32} (noPage : kernel.NoPage e pfTemp)
    (isCurrent : kernel.cpus cpu = some e)
    (readable : kernel.readWord e (uvptEntry faultVa) = some pte) :
    Scheduler.pgfault cpu e faultVa err kernel =
      .returns (.panics "pgfault: sys_page_alloc: %e" [-eNoMem])
        (kernel.setMem (kernel.mem.pageAlloc true).1) := by
  rw [pgfault_run readable,
    sysPageAlloc_run userPage_pfTemp (finds_self isCurrent),
    noPage.envPageAlloc (by decide)]
  rfl

theorem pgfault_beyond {pte : UInt32}
    (readable : kernel.readWord e (uvptEntry faultVa) = some pte)
    (above : utop ≤ faultVa)
    (allocates : sysPageAlloc cpu 0 pfTemp (pteP ||| pteU ||| pteW) kernel =
      .returns 0 next)
    (isDir' : (next.envs e).envPgdir = some pgdir)
    (copies : (next.mem.memmove pgdir pfTemp (roundDown faultVa) 4096).1 =
      true) :
    ∃ last, pgfault cpu e faultVa err kernel =
      .returns (.panics "pgfault: sys_page_map: %e" [-eInval]) last := by
  have notUser : ¬ UserPage (roundDown faultVa) := by
    intro user
    exact absurd (roundDown_lt_utop.mp user.1) (UInt32.not_lt.mpr above)
  rw [pgfault_run readable, allocates]
  dsimp only
  rw [if_neg (by decide), installCopy_run isDir']
  dsimp only
  rw [if_pos copies]
  unfold sysPageMap
  rw [if_neg (not_not_intro userPage_pfTemp), if_pos notUser]
  exact ⟨_, rfl⟩

/-- `sys_page_alloc` at `PFTEMP` finds no page, or it maps one there that the
program may write. -/
theorem SoundAt.allocTemp (sound : SoundAt pool kernel)
    (isCurrent : kernel.cpus cpu = some e)
    (isDir : (kernel.envs e).envPgdir = some pgdir) :
    kernel.NoPage e pfTemp ∨
      ∃ next, sysPageAlloc cpu 0 pfTemp (pteP ||| pteU ||| pteW) kernel =
          .returns 0 next ∧
        SoundAt pool next ∧ next.envs = kernel.envs ∧
        next.cpus cpu = some e ∧ next.HasTemp e := by
  have below : e < nenv := Spaces.Sound.below sound isDir
  have user := userPage_pfTemp.1
  have allowed : ¬ checkPerm (pteP ||| pteU ||| pteW ||| pteU ||| pteP) < 0 := by
    decide
  rw [sysPageAlloc_run userPage_pfTemp (finds_self isCurrent)]
  obtain ⟨r, next, allocates, outcome⟩ := @SoundAt.envPageAlloc _ _ _ _ _
    (pteP ||| pteU ||| pteW ||| pteU ||| pteP) sound below isDir user
  rcases outcome with failed | ⟨rfl, page, supplies⟩
  · left
    rcases envPageAlloc_fails allocates failed with ⟨_, refused | empty⟩ |
      ⟨_, dry⟩
    · exact absurd refused allowed
    · exact .inl empty
    · exact .inr dry
  · right
    have sameEnvs := supplies.envs
    have after := supplies.sound sound
    have isDir' : (next.envs e).envPgdir = some pgdir := by
      rw [sameEnvs]
      exact isDir
    refine ⟨next, allocates, after, sameEnvs, ?_, ?_⟩
    · cases supplies with
      | maps => exact isCurrent
    · obtain ⟨_, looks⟩ := after.lookupPage isDir' user
      rw [supplies.holds] at looks
      refine ⟨page, _, looks, ?_⟩
      rw [supplies.word]
      exact writable_iff.mp (writable_or (page2pa page)) (by decide)

theorem Kernel.PanicsAnyway.pgfault
    (panics : kernel.PanicsAnyway cpu e pgdir faultVa)
    (sound : SoundAt pool kernel) (isCurrent : kernel.cpus cpu = some e)
    (isDir : (kernel.envs e).envPgdir = some pgdir) (err : UInt32) :
    ∃ message arguments next, Scheduler.pgfault cpu e faultVa err kernel =
        .returns (.panics message arguments) next ∧
      (faultVa < utop → next.mem.translate pgdir true faultVa =
        kernel.mem.translate pgdir true faultVa) := by
  cases panics with
  | noPage readable noPage =>
      refine ⟨_, _, _, noPage.pgfault isCurrent readable, fun user => ?_⟩
      have below : e < nenv := Spaces.Sound.below sound isDir
      exact @PhysMem.translate_congr _ _ _ ⟨e, below⟩ _ _
        (sound.word_pageAlloc true) isDir user true
  | beyond readable above allocates copies =>
      rename_i next
      have isDir' : (next.envs e).envPgdir = some pgdir := by
        rcases sound.allocTemp isCurrent isDir with noPage |
          ⟨next', allocates', _, sameEnvs, _⟩
        · rw [sysPageAlloc_run userPage_pfTemp (finds_self isCurrent),
            noPage.envPageAlloc (by decide)] at allocates
          cases allocates
        · cases allocates.symm.trans allocates'
          rw [sameEnvs]
          exact isDir
      obtain ⟨last, runs⟩ := pgfault_beyond readable above allocates isDir' copies
      refine ⟨_, _, last, runs, fun user => ?_⟩
      exact absurd user (UInt32.not_lt.mpr above)

/-- A panic comes from the lack of a page for `PFTEMP` or from a page beyond
`UTOP`. -/
theorem SoundAt.panicsAnyway (sound : SoundAt pool kernel)
    (isCurrent : kernel.cpus cpu = some e)
    (isDir : (kernel.envs e).envPgdir = some pgdir) {message : String}
    {arguments : List Int}
    (ends : pgfault cpu e faultVa err kernel =
      .returns (.panics message arguments) next) :
    kernel.PanicsAnyway cpu e pgdir faultVa := by
  cases readable : kernel.readWord e (uvptEntry faultVa) with
  | none =>
      rw [pgfault_unreadable readable] at ends
      cases ends
  | some pte =>
      rcases sound.allocTemp isCurrent isDir with noPage |
        ⟨middle, allocates, after, sameEnvs, isCurrent', temp⟩
      · exact .noPage readable noPage
      · have isDir' : (middle.envs e).envPgdir = some pgdir := by
          rw [sameEnvs]
          exact isDir
        rw [pgfault_run readable, allocates] at ends
        dsimp only at ends
        rw [if_neg (by decide)] at ends
        by_cases user : faultVa < utop
        · rcases after.installCopy_ends isCurrent' isDir' temp
            ⟨roundDown_lt_utop.mpr user, roundDown_aligned faultVa⟩ ends with
            faults | returns
          · cases faults
          · cases returns
        · rw [installCopy_run isDir'] at ends
          dsimp only at ends
          by_cases copies : (middle.mem.memmove pgdir pfTemp (roundDown faultVa)
            4096).1 = true
          · exact .beyond readable (UInt32.not_lt.mp user) allocates copies
          · rw [if_neg copies] at ends
            cases ends

/-- The handler serves nothing but writes to copy-on-write pages exactly when the
fault is one, or when the handler panics for another reason. -/
theorem onlyServesCow_iff (sound : SoundAt pool kernel)
    (isCurrent : kernel.cpus cpu = some e)
    (isDir : (kernel.envs e).envPgdir = some pgdir) (faultVa err : UInt32) :
    kernel.OnlyServesCow cpu e pgdir faultVa err ↔
      kernel.WritesCow pgdir faultVa err ∨
        kernel.PanicsAnyway cpu e pgdir faultVa := by
  constructor
  · intro only
    by_cases writes : kernel.WritesCow pgdir faultVa err
    · exact .inl writes
    · obtain ⟨message, arguments, next, ends⟩ := only.refused writes
      exact .inr (sound.panicsAnyway isCurrent isDir ends)
  · rintro (writes | panics)
    · exact ⟨fun _ _ => writes, fun not => absurd writes not,
        fun _ not => absurd writes not⟩
    · obtain ⟨message, arguments, last, ends, same⟩ :=
        panics.pgfault sound isCurrent isDir err
      refine ⟨?_, fun _ => ⟨message, arguments, last, ends⟩, ?_⟩
      · intro next returns
        cases ends.symm.trans returns
      · intro user _ readOnly handled next returns
        cases ends.symm.trans returns
        rw [same user]
        exact readOnly

/-- The first environment runs. -/
theorem countable_awake :
    (smp .roundRobin).Reachable (fun kernel event => event.Countable kernel)
      ((TrapEvent.wake 0).after .roundRobin oneEnv) :=
  have goes : (TrapEvent.wake 0).Goes .roundRobin oneEnv := by decide +kernel
  boot_reachable trivial goes.step

/-- The environment maps its stack page a second time. -/
def mapAgain (perm : UInt32) : TrapEvent :=
  .call 0 5 0 0xEEBFD000 0 0xEEBFC000 perm

def mappedAgain (perm : UInt32) : Kernel :=
  (mapAgain perm).after .roundRobin ((TrapEvent.wake 0).after .roundRobin oneEnv)

theorem countable_mapAgain {perm : UInt32} (within : WithinSyscall perm) :
    (mapAgain perm).Countable ((TrapEvent.wake 0).after .roundRobin oneEnv) := by
  intro current isCurrent _ _
  have isFirst : ((TrapEvent.wake 0).after .roundRobin oneEnv).cpus 0 =
      some 0 := by
    decide +kernel
  cases isFirst.symm.trans isCurrent
  refine ⟨within, fun src dst findsSrc _ overflows => ?_⟩
  obtain ⟨page, srcpte, found, wraps, _⟩ := overflows
  cases (@finds_self (((TrapEvent.wake 0).after .roundRobin oneEnv).saveFrame 0
    _) 0 0 isFirst).unique findsSrc
  have isStack : ((TrapEvent.wake 0).after .roundRobin oneEnv).lookupPage 0
      0xEEBFD000 = some (some (3, 12295)) := by
    decide +kernel
  have once : (((TrapEvent.wake 0).after .roundRobin oneEnv).mem.pages 3).ppRef =
      1 := by
    decide +kernel
  have isPage : some (some (3, 12295)) = some (some (page, srcpte)) :=
    isStack.symm.trans found
  cases isPage
  cases once.symm.trans wraps

theorem mappedAgain_reachable {perm : UInt32} (within : WithinSyscall perm)
    (goes : (mapAgain perm).Goes .roundRobin
      ((TrapEvent.wake 0).after .roundRobin oneEnv)) :
    (smp .roundRobin).Reachable (fun kernel event => event.Countable kernel)
      (mappedAgain perm) :=
  countable_awake.step (countable_mapAgain within) goes.step

/-- The second page is copy-on-write. -/
def cowEnv : Kernel := mappedAgain 0x805

/-- A write to a copy-on-write page. -/
theorem onlyServesCow_cowEnv : cowEnv.OnlyServesCow 0 0 2 0xEEBFC000 7 := by
  have goes : (mapAgain 0x805).Goes .roundRobin
      ((TrapEvent.wake 0).after .roundRobin oneEnv) := by
    decide +kernel
  have marked : cowEnv.mem.Grants 2 pteCow 0xEEBFC000 :=
    PhysMem.grants_of_entry (by decide +kernel) (by decide +kernel)
      (by decide +kernel)
  obtain ⟨pool, sound⟩ := sound_of_reachable
    (mappedAgain_reachable (by decide) goes)
  exact (onlyServesCow_iff sound (by decide +kernel) (by decide +kernel) _ _).mpr
    (.inl ⟨by decide, marked⟩)

/-- The second page is read-only. -/
def readOnlyEnv : Kernel := mappedAgain 5

theorem readOnlyEnv_reachable :
    (smp .roundRobin).Reachable (fun kernel event => event.Countable kernel)
      readOnlyEnv := by
  have goes : (mapAgain 5).Goes .roundRobin
      ((TrapEvent.wake 0).after .roundRobin oneEnv) := by
    decide +kernel
  exact mappedAgain_reachable (by decide) goes

/-- A write to a read-only page. -/
theorem not_onlyServesCow :
    ¬ ∀ (kernel : Kernel) (cpu e pgdir : Nat) (faultVa err : UInt32),
      (smp .roundRobin).Reachable Machine.Unrestricted kernel →
      kernel.cpus cpu = some e → (kernel.envs e).envPgdir = some pgdir →
      kernel.OnlyServesCow cpu e pgdir faultVa err := by
  intro only
  have isCurrent : readOnlyEnv.cpus 0 = some 0 := by decide +kernel
  have isDir : (readOnlyEnv.envs 0).envPgdir = some 2 := by decide +kernel
  obtain ⟨pool, sound⟩ := sound_of_reachable readOnlyEnv_reachable
  have notCow : ¬ readOnlyEnv.WritesCow 2 0xEEBFC000 7 := by
    intro writes
    have marked := writes.2.entry
    revert marked
    decide +kernel
  have right := only readOnlyEnv 0 0 2 0xEEBFC000 7
    (readOnlyEnv_reachable.weaken fun _ _ _ => trivial) isCurrent isDir
  obtain ⟨message, arguments, next, ends⟩ := right.refused notCow
  cases sound.panicsAnyway isCurrent isDir ends with
  | noPage _ noPage =>
      rcases noPage with empty | ⟨_, _, page, head, last, _⟩
      · have some : readOnlyEnv.mem.pageFreeList = some 5 := by
          decide +kernel
        cases empty.symm.trans some
      · have more : (readOnlyEnv.mem.pages 5).ppLink ≠ none := by
          decide +kernel
        have some : readOnlyEnv.mem.pageFreeList = some 5 := by
          decide +kernel
        cases head.symm.trans some
        exact more last
  | beyond _ above => exact absurd above (by decide)

end FeaturesOS.Scheduler

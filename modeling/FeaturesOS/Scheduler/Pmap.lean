import Mathlib.Logic.Function.Basic
import FeaturesOS.Scheduler.Layout

/-!
# Physical pages and page tables

The functions of `kern/pmap.c` on the page descriptors, the free list and the
contents of the physical pages.  A page directory is the number of the page that
holds it, and a pointer to an entry is a page with an index.  The result `none`
is a panic: of `page_free`, of `KADDR` or of `pa2page`.
-/

namespace FeaturesOS.Scheduler

/-- `struct PageInfo`; a link names the next page. -/
structure PageInfo where
  ppLink : Option Nat
  ppRef : UInt16
deriving DecidableEq

structure PhysMem where
  npages : Nat
  pages : Nat → PageInfo
  pageFreeList : Option Nat
  /-- The words of each physical page. -/
  ram : Nat → Nat → UInt32

/-- A pointer to a word of a page table. -/
structure EntryPtr where
  page : Nat
  index : Nat
deriving DecidableEq

namespace PhysMem

def setPage (mem : PhysMem) (page : Nat) (info : PageInfo) : PhysMem :=
  { mem with pages := Function.update mem.pages page info }

def load (mem : PhysMem) (ptr : EntryPtr) : UInt32 := mem.ram ptr.page ptr.index

def store (mem : PhysMem) (ptr : EntryPtr) (word : UInt32) : PhysMem :=
  { mem with
    ram := Function.update mem.ram ptr.page
      (Function.update (mem.ram ptr.page) ptr.index word) }

/-- `memset (page2kva (page), 0, PGSIZE)`. -/
def zeroPage (mem : PhysMem) (page : Nat) : PhysMem :=
  { mem with ram := Function.update mem.ram page fun _ => 0 }

/-- `KADDR` and `pa2page` accept the page number. -/
def Valid (mem : PhysMem) (page : Nat) : Prop := page < mem.npages

instance (mem : PhysMem) (page : Nat) : Decidable (mem.Valid page) :=
  inferInstanceAs (Decidable (_ < _))

/-- `page_alloc`; `zero` is the flag `ALLOC_ZERO`. -/
def pageAlloc (mem : PhysMem) (zero : Bool) : PhysMem × Option Nat :=
  match mem.pageFreeList with
  | none => (mem, none)
  | some page =>
      let taken :=
        { mem with pageFreeList := (mem.pages page).ppLink }.setPage page
          { mem.pages page with ppLink := none }
      (if zero then taken.zeroPage page else taken, some page)

/-- `page_free`. -/
def pageFree (mem : PhysMem) (page : Nat) : Option PhysMem :=
  if (mem.pages page).ppRef ≠ 0 then
    none
  else if (mem.pages page).ppLink ≠ none then
    none
  else
    some
      ({ mem with pageFreeList := some page }.setPage page
        { mem.pages page with ppLink := mem.pageFreeList })

/-- `pp->pp_ref++`. -/
def pageIncref (mem : PhysMem) (page : Nat) : PhysMem :=
  mem.setPage page
    { mem.pages page with ppRef := (mem.pages page).ppRef + 1 }

/-- `page_decref`. -/
def pageDecref (mem : PhysMem) (page : Nat) : Option PhysMem :=
  let lowered := mem.setPage page
    { mem.pages page with ppRef := (mem.pages page).ppRef - 1 }
  if (lowered.pages page).ppRef = 0 then lowered.pageFree page
  else some lowered

/-- The last lines of `pgdir_walk`: the entry of `va` in the table that the
directory entry names. -/
def tableEntry (mem : PhysMem) (pgdir : Nat) (va : UInt32) :
    Option (PhysMem × Option EntryPtr) :=
  let pde := mem.ram pgdir (pdx va)
  if pde = 0 then
    some (mem, none)
  else if mem.Valid (pteFrame pde) then
    some (mem, some ⟨pteFrame pde, ptx va⟩)
  else
    none

/-- `pgdir_walk`. -/
def pgdirWalk (mem : PhysMem) (pgdir : Nat) (va : UInt32) (create : Bool) :
    Option (PhysMem × Option EntryPtr) :=
  if mem.ram pgdir (pdx va) = 0 ∧ create = true then
    match mem.pageAlloc true with
    | (_, none) => some (mem, none)
    | (allocated, some page) =>
        let linked :=
          (allocated.pageIncref page).store ⟨pgdir, pdx va⟩
            (page2pa page ||| pteP ||| pteW ||| pteU)
        linked.tableEntry pgdir va
  else
    mem.tableEntry pgdir va

/-- `page_lookup`: the page mapped at `va` and the pointer to its entry.  The
test `*pte && PTE_P` accepts every entry that is not zero. -/
def pageLookup (mem : PhysMem) (pgdir : Nat) (va : UInt32) :
    Option (Option (Nat × EntryPtr)) := do
  let (_, entry) ← mem.pgdirWalk pgdir va false
  match entry with
  | none => some none
  | some pte =>
      if mem.load pte = 0 then
        some none
      else if mem.Valid (pteFrame (mem.load pte)) then
        some (some (pteFrame (mem.load pte), pte))
      else
        none

/-- `page_remove`. -/
def pageRemove (mem : PhysMem) (pgdir : Nat) (va : UInt32) :
    Option PhysMem := do
  match ← mem.pageLookup pgdir va with
  | none => some mem
  | some (page, pte) =>
      let lowered ← mem.pageDecref page
      some (lowered.store pte 0)

/-- `page_insert`; the result is 0 or `-E_NO_MEM`. -/
def pageInsert (mem : PhysMem) (pgdir page : Nat) (va perm : UInt32) :
    Option (PhysMem × Int) := do
  let (walked, entry) ← mem.pgdirWalk pgdir va true
  match entry with
  | none => some (walked, -eNoMem)
  | some pte =>
      let removed ← (walked.pageIncref page).pageRemove pgdir va
      some (removed.store pte (page2pa page ||| perm ||| pteP), 0)

/-- The loop of `user_mem_check` over the pages from `va` on. -/
def userMemCheckFrom (mem : PhysMem) (pgdir : Nat) (perm : UInt32) :
    Nat → UInt32 → Option Bool
  | 0, _ => some true
  | pages + 1, va => do
      let (_, entry) ← mem.pgdirWalk pgdir va false
      match entry with
      | none => some false
      | some pte =>
          if mem.load pte &&& (perm ||| pteP) ≠ perm ||| pteP then
            some false
          else
            mem.userMemCheckFrom pgdir perm pages (va + 4096)

/-- `user_mem_check`, which computes its bounds in 32 bits. -/
def userMemCheck (mem : PhysMem) (pgdir : Nat) (va len perm : UInt32) :
    Option Bool :=
  let low := roundDown va
  let high := roundUp (va + len)
  if high > utop then
    some false
  else
    mem.userMemCheckFrom pgdir perm ((high.toNat - low.toNat) / pgSize) low

/-- Replace one byte of a word. -/
def setByte (word : UInt32) (position : Nat) (byte : UInt8) : UInt32 :=
  let shift := UInt32.ofNat (8 * position)
  (word &&& ~~~(0xFF <<< shift)) ||| (byte.toUInt32 <<< shift)

/-- Store a byte through a page directory, as the processor does in either mode
with `CR0_WP` set; `none` is a page fault. -/
def storeByte (mem : PhysMem) (pgdir : Nat) (va : UInt32) (byte : UInt8) :
    Option PhysMem :=
  let pde := mem.ram pgdir (pdx va)
  let pte := mem.ram (pteFrame pde) (ptx va)
  if pde &&& pteP ≠ 0 ∧ pte &&& pteP ≠ 0 ∧ pte &&& pteW ≠ 0 then
    let ptr : EntryPtr := ⟨pteFrame pte, va.toNat % 4096 / 4⟩
    some (mem.store ptr (setByte (mem.load ptr) (va.toNat % 4) byte))
  else
    none

/-- The bytes of words in memory order. -/
def wordBytes (words : List UInt32) : List UInt8 :=
  words.flatMap fun (word : UInt32) =>
    [word.toUInt8, (word >>> 8).toUInt8, (word >>> 16).toUInt8,
      (word >>> 24).toUInt8]

/-- Store bytes from `va` on. -/
def storeBytes (pgdir : Nat) : PhysMem → UInt32 → List UInt8 → Option PhysMem
  | mem, _, [] => some mem
  | mem, va, byte :: bytes => do
      let stored ← mem.storeByte pgdir va byte
      storeBytes pgdir stored (va + 1) bytes

end PhysMem

end FeaturesOS.Scheduler

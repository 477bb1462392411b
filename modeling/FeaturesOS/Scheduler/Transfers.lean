import Mathlib.Data.Nat.Bitwise
import FeaturesOS.Scheduler.PageCalls
import FeaturesOS.Scheduler.AccountCalls

/-!
# The transfer of a page with a message

`sys_ipc_try_send` first maps a new page at the receiver, and then the page of
the sender over it.
-/

namespace FeaturesOS.Scheduler

open Entry

namespace PhysMem

variable {mem allocated next : PhysMem} {dirs : Nat → Option Nat}
variable {pool free free' : List Nat} {e : Fin nenv} {d page other : Nat}
variable {va perm entry : UInt32} {user : va < utop}

/-- A page that was free has been mapped at a user address. -/
structure Supplied (mem next : PhysMem) (pool free free' : List Nat)
    (dirs : Nat → Option Nat) (e : Fin nenv) (user : va < utop) (page : Nat)
    (entry : UInt32) : Prop where
  fresh : page ∈ free
  frame : frameOf entry = some page
  accounted : next.Accounted pool free' dirs
  separate : next.Separate dirs
  outside : Outside mem next pool dirs
  word : next.word dirs (.pteAt e user) = entry
  others : ∀ f k l, (.pte f k l : Holder) ≠ .pteAt e user →
    next.word dirs (.pte f k l) = mem.word dirs (.pte f k l)
  refs : ∀ other, other ∉ free →
    references (next.holds dirs) other = references (mem.holds dirs) other -
      if mem.holds dirs (.pteAt e user) = some other then 1 else 0
  table : next.entryAt dirs e user ≠ none

/-- An address that maps a page has a table. -/
theorem entryAt_ne_none (maps : mem.holds dirs (.pteAt e user) = some page) :
    mem.entryAt dirs e user ≠ none := by
  intro noTable
  rw [holds_pteAt_none noTable] at maps
  cases maps

theorem Accounted.supply (accounted : mem.Accounted pool free dirs)
    (separate : mem.Separate dirs) (isDir : dirs e = some d)
    (user : va < utop) (low : perm.toNat < 4096) {zero : Bool}
    (taken : mem.pageAlloc zero = (allocated, some page)) :
    allocated.pageInsert d page va perm = some (allocated, -eNoMem) ∨
      ∃ next free', allocated.pageInsert d page va perm = some (next, 0) ∧
        Supplied mem next pool free free' dirs e user page
          (page2pa page ||| perm ||| pteP) := by
  obtain ⟨rest, isFree, isPooled, busy, after, word, outside⟩ :=
    accounted.pageAlloc taken
  have fresh : page ∈ free := isFree ▸ List.mem_cons_self
  by_cases full : allocated.entryAt dirs e user = none ∧ rest = []
  · exact .inl (after.pageInsert_full isDir full.1 full.2 page perm)
  · right
    obtain ⟨walked, next, free', inserts, inserted⟩ :=
      after.pageInsert isDir user isPooled busy low full
    have sameHolds := holds_congr word
    have unreferenced : ∀ holder, allocated.holds dirs holder ≠ some page := by
      rw [sameHolds]
      exact accounted.unreferenced fresh
    have room : references (allocated.holds dirs) page + 1 < 2 ^ 16 := by
      rw [references_eq_zero.mpr unreferenced]
      decide
    have isSeparate : allocated.Separate dirs := by
      unfold Separate
      rw [sameHolds]
      exact separate
    have isHeld : next.holds dirs (.pteAt e user) = some page := by
      rw [inserted.holds, Function.update_self]
    refine ⟨next, free', inserts, fresh, inserted.frame,
      inserted.accounted after busy (.inl room),
      inserted.separate after isSeparate busy fun holder _ =>
        unreferenced holder,
      outside.trans inserted.outside, ?_, ?_, ?_, entryAt_ne_none isHeld⟩
    · rw [inserted.entered.word, Function.update_self]
    · intro f k l different
      rw [inserted.word_pte different, word]
    · intro other used
      rw [isFree, List.mem_cons, not_or] at used
      rw [inserted.refs used.2, sameHolds, if_neg used.1, Nat.add_zero]

section Supplied

variable (supplied : Supplied mem next pool free free' dirs e user page entry)

include supplied

theorem Supplied.holds : next.holds dirs (.pteAt e user) = some page := by
  have word := supplied.word
  exact (congrArg frameOf word).trans supplied.frame

end Supplied

end PhysMem

/-! ## `env_page_alloc` and `env_page_map` in accounts that are right -/

variable {pool free : List Nat} {kernel next : Kernel} {src dst e d page : Nat}
variable {srcva dstva va perm srcpte : UInt32} {r : Int}

/-- A successful `env_page_alloc`. -/
inductive Kernel.Supplies (pool : List Nat) (kernel : Kernel) (e : Fin nenv)
    {va : UInt32} (user : va < utop) (perm : UInt32) (page : Nat) :
    Kernel → Prop where
  | maps {free free' : List Nat} {mem : PhysMem} :
      kernel.mem.Accounted pool free kernel.spaces.dirs → WithinSyscall perm →
      PhysMem.Supplied kernel.mem mem pool free free' kernel.spaces.dirs e user
        page (page2pa page ||| perm ||| pteP) →
      Supplies pool kernel e user perm page (kernel.setMem mem)

theorem SoundAt.envPageAlloc (sound : SoundAt pool kernel)
    (below : e < nenv) (isDir : (kernel.envs e).envPgdir = some d)
    (user : va < utop) :
    ∃ r next, envPageAlloc e va perm kernel = .returns r next ∧
      (r < 0 ∨ r = 0 ∧
        ∃ page, kernel.Supplies pool ⟨e, below⟩ user perm page next) := by
  obtain ⟨free, accounted⟩ := sound.accounted
  have accounted' : kernel.mem.Accounted pool free kernel.spaces.dirs :=
    accounted
  by_cases allowed : checkPerm perm < 0
  · refine ⟨checkPerm perm, kernel, ?_, .inl allowed⟩
    unfold Scheduler.envPageAlloc
    rw [if_pos allowed]
    rfl
  · rw [envPageAlloc_run allowed]
    cases taken : kernel.mem.pageAlloc true with
    | mk allocated found =>
        cases found with
        | none => exact ⟨_, _, rfl, .inl (by decide)⟩
        | some page =>
            dsimp only
            rw [insertPage_run]
            have isDir' : ((kernel.setMem allocated).envs e).envPgdir =
              some d := isDir
            rw [isDir']
            dsimp only [Kernel.setMem]
            have within := checkPerm_within allowed
            rcases @PhysMem.Accounted.supply _ _ _ _ _ ⟨e, below⟩ _ _ _ _
              accounted' sound.separate isDir user within.lt _ taken with
              fails | ⟨mem, free', inserts, supplied⟩
            · rw [fails]
              exact ⟨_, _, rfl, .inl (by decide)⟩
            · rw [inserts]
              exact ⟨0, _, rfl, .inr ⟨rfl, page, .maps accounted' within
                supplied⟩⟩

section Supplies

variable {slot : Fin nenv} {user : va < utop}
variable (supplies : kernel.Supplies pool slot user perm page next)

include supplies

theorem Kernel.Supplies.envs : next.envs = kernel.envs := by
  cases supplies with
  | maps => rfl

theorem Kernel.Supplies.sound (sound : SoundAt pool kernel) :
    SoundAt pool next := by
  cases supplies with
  | maps _ _ supplied =>
      exact sound.setMem supplied.accounted supplied.separate supplied.outside

/-- The fresh page is mapped with the flags of the call. -/
theorem Kernel.Supplies.word :
    next.mem.word next.spaces.dirs (.pteAt slot user) =
      page2pa page ||| perm ||| pteP := by
  cases supplies with
  | maps _ _ supplied => exact supplied.word

theorem Kernel.Supplies.holds :
    next.mem.holds next.spaces.dirs (.pteAt slot user) = some page := by
  cases supplies with
  | maps _ _ supplied => exact supplied.holds

theorem Kernel.Supplies.word_other {f : Fin nenv} {k : Fin userTables}
    {l : Fin nptEntries} (different : (.pte f k l : Holder) ≠ .pteAt slot user) :
    next.mem.word next.spaces.dirs (.pte f k l) =
      kernel.mem.word kernel.spaces.dirs (.pte f k l) := by
  cases supplies with
  | maps _ _ supplied => exact supplied.others f k l different

theorem Kernel.Supplies.table :
    next.mem.entryAt next.spaces.dirs slot user ≠ none := by
  cases supplies with
  | maps _ _ supplied => exact supplied.table

end Supplies

theorem envPageMap_run (src : Nat) (srcva : UInt32) (dst : Nat)
    (dstva perm : UInt32) (kernel : Kernel) :
    envPageMap src srcva dst dstva perm kernel =
      match kernel.lookupPage src srcva with
      | none => .stops
      | some none => .returns (-eInval) kernel
      | some (some (page, srcpte)) =>
          if perm &&& pteW &&& ~~~(pteW &&& srcpte) ≠ 0 then
            .returns (-eInval) kernel
          else insertPage dst page dstva perm kernel := by
  unfold envPageMap lookupPage
  rw [bind_assoc, read_bind_run]
  cases kernel.lookupPage src srcva with
  | none => rfl
  | some found =>
      cases found with
      | none => rfl
      | some found =>
          obtain ⟨page, srcpte⟩ := found
          dsimp only
          rw [bind_run, pure_run]
          dsimp only
          split <;> rfl

/-- The page that an address maps gets a second entry, or a new one. -/
theorem SoundAt.mapOver (sound : SoundAt pool kernel) (below : dst < nenv)
    (isDst : (kernel.envs dst).envPgdir = some d)
    (srcBelow : src < nenv) (srcUser : srcva < utop) (dstUser : dstva < utop)
    (table : kernel.mem.entryAt kernel.spaces.dirs ⟨dst, below⟩ dstUser ≠ none)
    (low : perm.toNat < 4096)
    (maps : kernel.mem.holds kernel.spaces.dirs (.pteAt ⟨src, srcBelow⟩ srcUser) =
      some page) :
    ∃ walked mem free free',
      insertPage dst page dstva perm kernel = .returns 0 (kernel.setMem mem) ∧
      PhysMem.Inserted kernel.mem walked mem pool free free' kernel.spaces.dirs
        ⟨dst, below⟩ dstUser page (page2pa page ||| perm ||| pteP) := by
  obtain ⟨free, accounted⟩ := sound.accounted
  have accounted' : kernel.mem.Accounted pool free kernel.spaces.dirs :=
    accounted
  have isPooled := accounted'.tree.pooled _ _ maps
  have busy := accounted'.notFree maps
  obtain ⟨walked, mem, free', inserts, inserted⟩ :=
    @PhysMem.Accounted.pageInsert _ _ _ _ ⟨dst, below⟩ _ _ _ _ accounted' isDst
      dstUser isPooled busy low fun full => table full.1
  refine ⟨walked, mem, free, free', ?_, inserted⟩
  rw [insertPage_run, isDst]
  dsimp only
  rw [inserts]

/-- What `page_lookup` finds after a page has been mapped. -/
theorem lookupPage_inserted {walked mem : PhysMem} {free free' : List Nat}
    {slot : Fin nenv} {user : va < utop} {entry : UInt32}
    (inserted : PhysMem.Inserted kernel.mem walked mem pool free free'
      kernel.spaces.dirs slot user page entry) (below : e < nenv)
    (isDir : (kernel.envs e).envPgdir = some d) {at_ : UInt32}
    (isUser : at_ < utop) :
    (kernel.setMem mem).lookupPage e at_ =
      some ((mem.holds kernel.spaces.dirs (.pteAt ⟨e, below⟩ isUser)).map
        fun page =>
          (page, mem.word kernel.spaces.dirs (.pteAt ⟨e, below⟩ isUser))) := by
  unfold Kernel.lookupPage
  have isDir' : ((kernel.setMem mem).envs e).envPgdir = some d := isDir
  rw [isDir']
  exact @PhysMem.Tree.translation _ _ _ _ _ ⟨e, below⟩ _ _
    inserted.entered.tree inserted.books isDir isUser

/-- Two addresses of pages with the same entry are the same. -/
theorem pteAt_inj {f g : Fin nenv} {srcUser : srcva < utop}
    {dstUser : dstva < utop} (srcAligned : srcva % 4096 = 0)
    (dstAligned : dstva % 4096 = 0)
    (same : Holder.pteAt f srcUser = Holder.pteAt g dstUser) :
    f = g ∧ srcva = dstva := by
  obtain ⟨isEnv, sameTable, sameEntry⟩ := Holder.pte.inj same
  have isTable : pdx srcva = pdx dstva := congrArg Fin.val sameTable
  have isEntry : ptx srcva = ptx dstva := congrArg Fin.val sameEntry
  refine ⟨isEnv, UInt32.toNat_inj.mp ?_⟩
  have srcZero := congrArg UInt32.toNat srcAligned
  have dstZero := congrArg UInt32.toNat dstAligned
  rw [UInt32.toNat_mod] at srcZero dstZero
  change srcva.toNat % 4096 = 0 at srcZero
  change dstva.toNat % 4096 = 0 at dstZero
  unfold pdx at isTable
  unfold ptx at isEntry
  omega

/-- The receiver maps the page that the sender maps, with the flags that were
sent.  It is the page that the sender has mapped before, unless the sender sends
it to itself at the same address. -/
structure Kernel.SharesPage (kernel next : Kernel) (src : Nat) (srcva : UInt32)
    (dst : Nat) (dstva perm : UInt32) : Prop where
  shared : ∃ page srcpte,
    next.lookupPage dst dstva = some (some (page, page2pa page ||| perm)) ∧
    next.lookupPage src srcva = some (some (page, srcpte)) ∧
    (src ≠ dst ∨ srcva ≠ dstva →
      kernel.lookupPage src srcva = some (some (page, srcpte)))

theorem or_pteP_same (perm : UInt32) : perm ||| pteP ||| pteP = perm ||| pteP := by
  rw [UInt32.or_assoc, UInt32.or_self]

/-- The second half of the transfer, when the source is still mapped after the
first. -/
theorem Kernel.Supplies.delivers {middle : Kernel} {flags : UInt32}
    {fresh : Nat} (sound : SoundAt pool kernel) (below : dst < nenv)
    (isSrc : (kernel.envs src).envPgdir = some e)
    (isDst : (kernel.envs dst).envPgdir = some d)
    (srcUser : UserPage srcva) (dstUser : UserPage dstva)
    (isFlags : perm = flags ||| pteP)
    (supplies : kernel.Supplies pool ⟨dst, below⟩ dstUser.1 perm fresh middle)
    (found : middle.lookupPage src srcva = some (some (page, srcpte)))
    (writable : perm &&& pteW &&& ~~~(pteW &&& srcpte) = 0) :
    ∃ mem, envPageMap src srcva dst dstva perm middle =
        .returns 0 (kernel.setMem mem) ∧
      kernel.SharesPage (kernel.setMem mem) src srcva dst dstva perm := by
  have soundMiddle := supplies.sound sound
  have sameEnvs := supplies.envs
  have isSrc' : (middle.envs src).envPgdir = some e := by
    rw [sameEnvs]
    exact isSrc
  have isDst' : (middle.envs dst).envPgdir = some d := by
    rw [sameEnvs]
    exact isDst
  obtain ⟨srcBelow, looks⟩ := soundMiddle.lookupPage isSrc' srcUser.1
  have found' := found
  rw [looks, Option.some.injEq] at found'
  obtain ⟨page', maps, same⟩ := Option.map_eq_some_iff.mp found'
  obtain ⟨isPage, isPte⟩ := Prod.mk.inj same
  subst page'
  have within : WithinSyscall perm := by
    cases supplies with
    | maps _ within _ => exact within
  obtain ⟨walked, mem, free, free', inserts, inserted⟩ :=
    soundMiddle.mapOver below isDst' srcBelow srcUser.1 dstUser.1
      supplies.table within.lt maps
  have isFinal : middle.setMem mem = kernel.setMem mem := by
    cases supplies with
    | maps => rfl
  refine ⟨mem, ?_, ?_⟩
  · rw [envPageMap_run, found]
    dsimp only
    rw [if_neg (not_not_intro writable), inserts, isFinal]
  · rw [← isFinal]
    have there := lookupPage_inserted inserted below isDst' dstUser.1
    have here := lookupPage_inserted inserted srcBelow isSrc' srcUser.1
    rw [inserted.holds, inserted.entered.word, Function.update_self,
      Function.update_self] at there
    have isEntry : page2pa page ||| perm ||| pteP = page2pa page ||| perm := by
      rw [isFlags, UInt32.or_assoc, or_pteP_same]
    rw [isEntry] at there
    by_cases isSlot : Holder.pteAt ⟨src, srcBelow⟩ srcUser.1 =
        Holder.pteAt ⟨dst, below⟩ dstUser.1
    · obtain ⟨sameEnv, sameVa⟩ := pteAt_inj srcUser.2 dstUser.2 isSlot
      have isSame : src = dst := congrArg Fin.val sameEnv
      subst isSame sameVa
      refine ⟨page, _, there, there, ?_⟩
      rintro (different | different)
      · exact absurd rfl different
      · exact absurd rfl different
    · obtain ⟨_, before⟩ := sound.lookupPage isSrc srcUser.1
      have sameWord := supplies.word_other isSlot
      have sameHolds : middle.mem.holds middle.spaces.dirs
          (.pteAt ⟨src, srcBelow⟩ srcUser.1) =
          kernel.mem.holds kernel.spaces.dirs
            (.pteAt ⟨src, srcBelow⟩ srcUser.1) :=
        congrArg frameOf sameWord
      have kept := inserted.word_pte isSlot
      have keptHolds : mem.holds middle.spaces.dirs
          (.pteAt ⟨src, srcBelow⟩ srcUser.1) =
          middle.mem.holds middle.spaces.dirs
            (.pteAt ⟨src, srcBelow⟩ srcUser.1) :=
        congrArg frameOf kept
      refine ⟨page, srcpte, there, ?_, fun _ => ?_⟩
      · rw [here, keptHolds, maps, Option.map_some, ← isPte]
        exact congrArg (fun word => some (some (page, word))) kept
      · rw [before, ← sameHolds, maps, Option.map_some, ← isPte]
        exact congrArg (fun word => some (some (page, word))) sameWord.symm

/-! ## Write permission -/

theorem and_pteW (word : UInt32) : word &&& pteW = 0 ∨ word &&& pteW = pteW := by
  have bit := Nat.and_two_pow word.toNat 1
  cases set : word.toNat.testBit 1 with
  | false =>
      left
      apply UInt32.toNat_inj.mp
      rw [set] at bit
      exact (UInt32.toNat_and word pteW).trans bit
  | true =>
      right
      apply UInt32.toNat_inj.mp
      rw [set] at bit
      exact (UInt32.toNat_and word pteW).trans bit

/-- `env_page_map` refuses to make a read-only page writable. -/
def Writable (perm srcpte : UInt32) : Prop :=
  perm &&& pteW &&& ~~~(pteW &&& srcpte) = 0

theorem writable_iff :
    Writable perm srcpte ↔ (perm &&& pteW ≠ 0 → srcpte &&& pteW ≠ 0) := by
  unfold Writable
  rw [UInt32.and_comm pteW srcpte]
  rcases and_pteW perm with noWrite | write <;>
    rcases and_pteW srcpte with readOnly | writes <;>
    simp_all

/-- A page that has been mapped with the same flags may be mapped again. -/
theorem writable_or (first : UInt32) : Writable perm (first ||| perm ||| pteP) := by
  rw [writable_iff]
  intro write zero
  rw [or_and, or_and] at zero
  exact write (UInt32.or_eq_zero_iff.mp (UInt32.or_eq_zero_iff.mp zero).1).2

/-- `sys_ipc_try_send` has checked what `env_page_map` checks. -/
theorem Writable.of_accepted (accepted : ¬ SrcpteRefused srcpte perm) :
    Writable (perm ||| pteU ||| pteP) srcpte := by
  rw [writable_iff]
  intro write readOnly
  apply accepted
  refine .inr ⟨?_, readOnly⟩
  intro noWrite
  apply write
  rw [or_and, or_and, noWrite]
  decide

/-- A source that is mapped before the new page is mapped after it. -/
theorem Kernel.Supplies.found {middle : Kernel} {fresh : Nat}
    (sound : SoundAt pool kernel) (below : dst < nenv)
    (isSrc : (kernel.envs src).envPgdir = some e)
    (srcUser : srcva < utop) (dstUser : dstva < utop)
    (supplies : kernel.Supplies pool ⟨dst, below⟩ dstUser perm fresh middle)
    (found : kernel.lookupPage src srcva = some (some (page, srcpte)))
    (writable : Writable perm srcpte) :
    ∃ page srcpte, middle.lookupPage src srcva = some (some (page, srcpte)) ∧
      Writable perm srcpte := by
  have isSrc' : (middle.envs src).envPgdir = some e := by
    rw [supplies.envs]
    exact isSrc
  obtain ⟨srcBelow, after⟩ := (supplies.sound sound).lookupPage isSrc' srcUser
  by_cases isSlot : Holder.pteAt ⟨src, srcBelow⟩ srcUser =
      Holder.pteAt ⟨dst, below⟩ dstUser
  · rw [isSlot, supplies.holds, supplies.word, Option.map_some] at after
    exact ⟨fresh, _, after, writable_or _⟩
  · obtain ⟨_, before⟩ := sound.lookupPage isSrc srcUser
    have sameWord := supplies.word_other isSlot
    have sameHolds : middle.mem.holds middle.spaces.dirs
        (.pteAt ⟨src, srcBelow⟩ srcUser) =
        kernel.mem.holds kernel.spaces.dirs (.pteAt ⟨src, srcBelow⟩ srcUser) :=
      congrArg frameOf sameWord
    have same : middle.lookupPage src srcva = kernel.lookupPage src srcva := by
      rw [after, before, sameHolds]
      exact congrArg (fun word => some (Option.map (fun page => (page, word)) _))
        sameWord
    exact ⟨page, srcpte, same.trans found, writable⟩

/-! ## The transfer as a whole -/

theorem ipcTransfer_run (src : Nat) (srcva : UInt32) (dst : Nat) (perm : UInt32)
    (kernel : Kernel) (asks : (kernel.envs dst).envIpcDstva ≠ 0) :
    ipcTransfer src srcva dst perm kernel =
      match envPageAlloc dst (kernel.envs dst).envIpcDstva perm kernel with
      | .stops => .stops
      | .leaves next => .leaves next
      | .returns r middle =>
          if r < 0 then .returns r middle
          else
            match envPageMap src srcva dst (kernel.envs dst).envIpcDstva perm
              middle with
            | .stops => .stops
            | .leaves next => .leaves next
            | .returns r next =>
                if r < 0 then .returns r next
                else .returns 0 (next.updateEnv dst fun env =>
                  { env with envIpcPerm := perm }) := by
  unfold ipcTransfer
  rw [read_bind_run, if_neg asks, bind_run]
  cases envPageAlloc dst (kernel.envs dst).envIpcDstva perm kernel with
  | stops => rfl
  | leaves next => rfl
  | returns r middle =>
      dsimp only
      split
      · rfl
      · rw [bind_run]
        cases envPageMap src srcva dst (kernel.envs dst).envIpcDstva perm middle
          with
        | stops => rfl
        | leaves next => rfl
        | returns r next =>
            dsimp only
            split
            · rfl
            · rfl

theorem ipcTransfer_none (src : Nat) (srcva : UInt32) (dst : Nat) (perm : UInt32)
    (kernel : Kernel) (none : (kernel.envs dst).envIpcDstva = 0) :
    ipcTransfer src srcva dst perm kernel = .returns 0 kernel := by
  unfold ipcTransfer
  rw [read_bind_run, if_pos none]
  rfl

/-- What the transfer of a page has done when it succeeds. -/
inductive Kernel.Transferred (kernel : Kernel) (src : Nat) (srcva : UInt32)
    (dst : Nat) (perm : UInt32) : Kernel → Prop where
  | maps {mem : PhysMem} :
      kernel.SharesPage (kernel.setMem mem) src srcva dst
        (kernel.envs dst).envIpcDstva perm →
      Transferred kernel src srcva dst perm
        ((kernel.setMem mem).updateEnv dst fun env =>
          { env with envIpcPerm := perm })

variable {flags : UInt32}

/-- A transfer that returns 0 has mapped the page of the sender. -/
theorem SoundAt.transferred (sound : SoundAt pool kernel)
    (isSrc : (kernel.envs src).envPgdir = some e)
    (isDst : (kernel.envs dst).envPgdir = some d) (srcUser : UserPage srcva)
    (asks : (kernel.envs dst).envIpcDstva ≠ 0)
    (returns : ipcTransfer src srcva dst (flags ||| pteP) kernel =
      .returns r next) (succeeds : ¬ r < 0) :
    r = 0 ∧ kernel.Transferred src srcva dst (flags ||| pteP) next := by
  have below : dst < nenv := Spaces.Sound.below sound isDst
  have dstUser : UserPage (kernel.envs dst).envIpcDstva := sound.received dst
  obtain ⟨r₁, middle, allocates, outcome⟩ :=
    @SoundAt.envPageAlloc _ _ _ _ _ (flags ||| pteP) sound below isDst dstUser.1
  rw [ipcTransfer_run _ _ _ _ _ asks, allocates] at returns
  dsimp only at returns
  rcases outcome with failed | ⟨rfl, fresh, supplies⟩
  · rw [if_pos failed] at returns
    cases returns
    exact absurd failed succeeds
  · rw [if_neg (by decide), envPageMap_run] at returns
    cases found : middle.lookupPage src srcva with
    | none =>
        rw [found] at returns
        cases returns
    | some found' =>
        cases found' with
        | none =>
            rw [found] at returns
            cases returns
            exact absurd (by decide) succeeds
        | some found' =>
            obtain ⟨page, srcpte⟩ := found'
            by_cases writable : Writable (flags ||| pteP) srcpte
            · obtain ⟨mem, maps, delivered⟩ := supplies.delivers sound below
                isSrc isDst srcUser dstUser rfl found writable
              rw [envPageMap_run] at maps
              rw [maps] at returns
              cases returns
              exact ⟨rfl, .maps delivered⟩
            · unfold Writable at writable
              rw [found] at returns
              dsimp only at returns
              rw [if_pos writable] at returns
              cases returns
              exact absurd (by decide) succeeds

/-- A transfer of a page that is mapped, as far as it must be, only fails without
an effect, or with the last free page lost. -/
theorem SoundAt.transfers (sound : SoundAt pool kernel)
    (isSrc : (kernel.envs src).envPgdir = some e)
    (isDst : (kernel.envs dst).envPgdir = some d) (srcUser : UserPage srcva)
    (found : kernel.lookupPage src srcva = some (some (page, srcpte)))
    (writable : Writable (flags ||| pteP) srcpte)
    (asks : (kernel.envs dst).envIpcDstva ≠ 0) :
    ∃ r next, ipcTransfer src srcva dst (flags ||| pteP) kernel =
      .returns r next ∧
      (r < 0 → next = kernel ∨ ¬ checkPerm (flags ||| pteP) < 0 ∧
        kernel.RunsDry dst (kernel.envs dst).envIpcDstva) := by
  have below : dst < nenv := Spaces.Sound.below sound isDst
  have dstUser : UserPage (kernel.envs dst).envIpcDstva := sound.received dst
  obtain ⟨r₁, middle, allocates, outcome⟩ :=
    @SoundAt.envPageAlloc _ _ _ _ _ (flags ||| pteP) sound below isDst dstUser.1
  rw [ipcTransfer_run _ _ _ _ _ asks, allocates]
  dsimp only
  rcases outcome with failed | ⟨rfl, fresh, supplies⟩
  · rw [if_pos failed]
    exact ⟨_, _, rfl, fun _ =>
      (envPageAlloc_fails allocates failed).imp_left And.left⟩
  · obtain ⟨page', srcpte', found', writable'⟩ :=
      supplies.found sound below isSrc srcUser.1 dstUser.1 found writable
    obtain ⟨mem, maps, _⟩ := supplies.delivers sound below isSrc isDst srcUser
      dstUser rfl found' writable'
    rw [if_neg (by decide), maps]
    dsimp only
    rw [if_neg (by decide)]
    exact ⟨0, _, rfl, fun impossible => absurd impossible (by decide)⟩

end FeaturesOS.Scheduler

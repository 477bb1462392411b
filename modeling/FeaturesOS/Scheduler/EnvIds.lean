import FeaturesOS.Machine
import FeaturesOS.Scheduler.Boot
import FeaturesOS.Scheduler.Frames
import FeaturesOS.Scheduler.Queues

/-!
# Environment identifiers

An identifier is a generation and a slot.  The generations of a slot run through
the positive multiples of `1 << ENVGENSHIFT` and start again after `2^19 - 1`
allocations, so within that many allocations an identifier belongs to one
environment.
-/

namespace FeaturesOS.Scheduler

open Entry

/-! ## The identifiers of one slot -/

/-- The number of generations before they repeat. -/
def generations : Nat := 2 ^ 19 - 1

/-- The identifier of a slot after some allocations. -/
def idAfter (slot : Nat) : Nat → UInt32
  | 0 => 0
  | count + 1 => nextGeneration (idAfter slot count) ||| UInt32.ofNat slot

/-- `generation & ~(NENV - 1)`. -/
theorem toNat_clearSlot (word : UInt32) :
    (word &&& ~~~1023).toNat = word.toNat / 1024 * 1024 := by
  have mask : (~~~(1023 : UInt32)).toNat = (2 ^ 22 - 1) * 2 ^ 10 := by decide
  have whole : (1024 : Nat) = 2 ^ 10 := rfl
  have bound := word.toNat_lt
  rw [UInt32.toNat_and, mask, whole]
  refine Nat.eq_of_testBit_eq fun i => ?_
  rw [Nat.testBit_and, Nat.testBit_mul_two_pow, Nat.testBit_mul_two_pow,
    Nat.testBit_two_pow_sub_one, Nat.testBit_div_two_pow]
  by_cases low : i < 10
  · simp [Nat.not_le.mpr low]
  · have split : i - 10 + 10 = i := by omega
    rw [split]
    by_cases high : i - 10 < 22
    · simp [high, Nat.not_lt.mp low]
    · have zero : word.toNat.testBit i = false :=
        Nat.testBit_lt_two_pow (Nat.lt_of_lt_of_le bound
          (Nat.pow_le_pow_right (by decide) (by omega)))
      simp [zero]

theorem toInt_toInt32 (word : UInt32) :
    word.toInt32.toInt =
      if word.toNat < 2 ^ 31 then (word.toNat : Int)
      else word.toNat - 2 ^ 32 := by
  have signed : word.toInt32.toInt =
      if 2 * word.toNat < 2 ^ 32 then (word.toNat : Int)
      else word.toNat - (2 ^ 32 : Nat) :=
    BitVec.toInt_eq_toNat_cond word.toBitVec
  rw [signed]
  split <;> split <;> omega

/-- An allocation changes the identifier of its slot. -/
theorem newId_ne {slot : Nat} (small : slot < nenv) (envId : UInt32) :
    nextGeneration envId ||| UInt32.ofNat slot ≠ envId := by
  intro same
  unfold nenv at small
  have high : envId.toNat / 1024 = (nextGeneration envId).toNat / 1024 := by
    have joined := congrArg UInt32.toNat same
    rw [UInt32.toNat_or, UInt32.toNat_ofNat', Nat.mod_eq_of_lt (by omega)]
      at joined
    rw [← joined, show (1024 : Nat) = 2 ^ 10 from rfl, Nat.or_div_two_pow,
      show slot / 2 ^ 10 = 0 from Nat.div_eq_of_lt (by omega), Nat.or_zero]
  have sum : (envId + 4096).toNat = (envId.toNat + 4096) % 2 ^ 32 :=
    UInt32.toNat_add envId 4096
  have cleared := toNat_clearSlot (envId + 4096)
  have bound := envId.toNat_lt
  unfold nextGeneration at high
  dsimp only at high
  split at high
  · rename_i wraps
    have four : (4096 : UInt32).toNat = 4096 := rfl
    rw [Int32.le_iff_toInt_le, show (0 : Int32).toInt = 0 from rfl,
      toInt_toInt32] at wraps
    split at wraps <;> omega
  · omega

/-- The next generation of a slot, whose generation is `count`. -/
theorem toNat_nextGeneration {slot count : Nat} {envId : UInt32}
    (small : slot < nenv) (few : count ≤ generations)
    (isId : envId.toNat = 4096 * count + slot) :
    (nextGeneration envId).toNat =
      4096 * (if count = generations then 1 else count + 1) := by
  unfold nenv at small
  unfold generations at *
  have sum : (envId + 4096).toNat = 4096 * (count + 1) + slot := by
    rw [UInt32.toNat_add, isId]
    have four : (4096 : UInt32).toNat = 4096 := rfl
    omega
  have cleared : ((envId + 4096) &&& ~~~1023).toNat = 4096 * (count + 1) := by
    rw [toNat_clearSlot, sum]
    omega
  unfold nextGeneration
  dsimp only
  generalize (envId + 4096) &&& ~~~1023 = generation at cleared ⊢
  have signed := toInt_toInt32 generation
  rw [cleared] at signed
  have wraps : generation.toInt32 ≤ 0 ↔ count = 2 ^ 19 - 1 := by
    rw [Int32.le_iff_toInt_le, show (0 : Int32).toInt = 0 from rfl, signed]
    split <;> omega
  by_cases last : count = 2 ^ 19 - 1
  · rw [if_pos (wraps.mpr last), if_pos last]
    rfl
  · rw [if_neg (mt wraps.mp last), if_neg last, cleared]

theorem toNat_idAfter {slot : Nat} (small : slot < nenv) (count : Nat) :
    (idAfter slot (count + 1)).toNat =
      4096 * (count % generations + 1) + slot := by
  have joined : ∀ generation : UInt32, ∀ number,
      generation.toNat = 4096 * number →
      (generation ||| UInt32.ofNat slot).toNat = 4096 * number + slot := by
    intro generation number isNumber
    unfold nenv at small
    rw [UInt32.toNat_or, isNumber, UInt32.toNat_ofNat',
      Nat.mod_eq_of_lt (by omega), show (4096 : Nat) = 2 ^ 12 from rfl,
      Nat.two_pow_add_eq_or_of_lt (by omega)]
  induction count with
  | zero =>
      have start : (nextGeneration 0).toNat = 4096 := by decide
      exact joined _ 1 start
  | succ count induction =>
      have bound : count % generations < generations :=
        Nat.mod_lt _ (by decide)
      have next := toNat_nextGeneration small
        (show count % generations + 1 ≤ generations by omega) induction
      refine joined _ _ ?_
      rw [next]
      congr 1
      have step : (count + 1) % generations =
          (count % generations + 1) % generations := by
        rw [Nat.add_mod, show 1 % generations = 1 from rfl]
      by_cases last : count % generations + 1 = generations
      · rw [if_pos last, step, last, Nat.mod_self]
      · rw [if_neg last, step, Nat.mod_eq_of_lt
          (show count % generations + 1 < generations by omega)]

theorem idAfter_positive {slot : Nat} (small : slot < nenv) (count : Nat) :
    0 < (idAfter slot (count + 1)).toInt32.toInt := by
  have bound : count % generations < generations := Nat.mod_lt _ (by decide)
  rw [toInt_toInt32, toNat_idAfter small]
  unfold generations at *
  unfold nenv at small
  rw [if_pos (by omega)]
  omega

theorem envx_idAfter {slot : Nat} (small : slot < nenv) (count : Nat) :
    envx (idAfter slot (count + 1)) = slot :=
  envx_newId _ small

/-- Identifiers of one slot that are less than a period apart differ. -/
theorem idAfter_injective {slot first second : Nat} (small : slot < nenv)
    (before : first < second) (near : second - first < generations) :
    idAfter slot (first + 1) ≠ idAfter slot (second + 1) := by
  intro same
  have numbers := congrArg UInt32.toNat same
  rw [toNat_idAfter small, toNat_idAfter small] at numbers
  have equal := Ring.eq_of_mod_eq
    (show first < second + generations by omega)
    (show second < first + generations by omega)
    (show first % generations = second % generations by omega)
  omega

/-! ## What allocating and freeing change -/

/-- The identifiers and the free list of the environments. -/
@[ext]
structure IdView where
  envId : Nat → UInt32
  envLink : Nat → Option Nat
  isFree : Nat → Prop
  freeList : Option Nat

def Kernel.idView (kernel : Kernel) : IdView :=
  { envId := fun e => (kernel.envs e).envId
    envLink := fun e => (kernel.envs e).envLink
    isFree := fun e => (kernel.envs e).envStatus = .free
    freeList := kernel.envFreeList }

namespace IdView

/-- The view after `env_alloc` has taken `e`. -/
def issue (view : IdView) (e : Nat) : IdView :=
  { envId := Function.update view.envId e
      (nextGeneration (view.envId e) ||| UInt32.ofNat e)
    envLink := view.envLink
    isFree := Function.update view.isFree e False
    freeList := view.envLink e }

/-- The view after `env_free` has given back `e`. -/
def release (view : IdView) (e : Nat) : IdView :=
  { view with
    envLink := Function.update view.envLink e view.freeList
    isFree := Function.update view.isFree e True
    freeList := some e }

end IdView

theorem blindToQueues_idView : BlindToQueues Kernel.idView where
  mlfq _ _ := rfl
  colaActual kernel e cola := by
    ext f <;> by_cases same : f = e <;>
      simp [Kernel.idView, Kernel.updateEnv, Kernel.setEnv, same]

theorem idView_commitEnv (parentId : UInt32) (e : Nat) (kernel : Kernel) :
    (commitEnv parentId e kernel).idView = kernel.idView.issue e := by
  ext f <;> by_cases same : f = e <;>
    simp [Kernel.idView, IdView.issue, commitEnv, Kernel.updateEnv,
      Kernel.setEnv, same]

theorem frame_envSetupVm_ids (e : Nat) :
    Frame Kernel.idView (envSetupVm e) := by
  constructor
  intro kernel
  unfold envSetupVm PhysMem.pageAlloc
  cases kernel.mem.pageFreeList with
  | none => rfl
  | some page =>
      dsimp only
      ext f <;> by_cases same : f = e <;>
        simp [Kernel.idView, Kernel.updateEnv, Kernel.setEnv, Kernel.setMem,
          same]

theorem triple_envAlloc_ids (view : IdView) (cpu : Nat) (parentId : UInt32) :
    Triple (fun kernel => kernel.idView = view) (envAlloc cpu parentId)
      (fun result kernel => match result with
        | .error _ => kernel.idView = view
        | .ok e => view.freeList = some e ∧ kernel.idView = view.issue e)
      (fun _ => False) := by
  unfold envAlloc
  refine .bind_read ?_
  intro head
  cases head with
  | none => exact .pure fun _ holds => holds.1
  | some e =>
      refine .strengthen _ ?_ (((frame_envSetupVm_ids e).triple
        (fun shown => shown = view ∧ view.freeList = some e)).bind
          fun r => ?_)
      · rintro kernel ⟨rfl, head⟩
        exact ⟨rfl, head⟩
      refine .ite (fun _ => .pure fun _ holds => holds.1) fun _ => ?_
      refine .bind_modify
        (fun kernel => kernel.idView = view.issue e ∧ view.freeList = some e)
        ?_ ?_
      · rintro kernel ⟨rfl, head⟩
        exact ⟨idView_commitEnv parentId e kernel, head⟩
      · refine .bind_read fun cola => .bind_read fun envId => ?_
        refine .strengthen _ ?_ (((frame_schedAgregarEnv blindToQueues_idView
          envId cola).triple (fun shown =>
            shown = view.issue e ∧ view.freeList = some e)).bind
              fun _ => .pure ?_)
        · rintro kernel ⟨⟨⟨same, head⟩, -⟩, -⟩
          exact ⟨same, head⟩
        · rintro kernel ⟨same, head⟩
          exact ⟨head, same⟩

theorem envFree_ids {e : Nat} {kernel next : Kernel}
    (freed : envFree e kernel = .returns () next) :
    next.idView = kernel.idView.release e := by
  unfold envFree at freed
  split at freed
  · cases freed
  · split at freed
    · cases freed
    · cases freed
      ext f <;> by_cases same : f = e <;>
        simp [Kernel.idView, IdView.release, Kernel.updateEnv, Kernel.setEnv,
          Kernel.setMem, same]

/-! ## Histories of allocations -/

/-- The kernel and the identifiers issued so far, each with its slot. -/
structure IdHistory where
  kernel : Kernel
  issued : List (Nat × UInt32)

namespace IdHistory

/-- The identifiers that a slot has received, in their order. -/
def idsOf (history : IdHistory) (slot : Nat) : List UInt32 :=
  (history.issued.filter fun entry => entry.1 == slot).map Prod.snd

end IdHistory

inductive IdEvent where
  | alloc (cpu : Nat) (parentId : UInt32)
  | free (e : Nat)
  | other

/-- Between two allocations or releases the kernel may do whatever leaves the
identifiers, the free list and the free slots as they are. -/
inductive IdStep : IdHistory → IdEvent → IdHistory → Prop where
  | alloc {kernel next : Kernel} {issued : List (Nat × UInt32)} {cpu e : Nat}
      {parentId : UInt32} :
      envAlloc cpu parentId kernel = .returns (.ok e) next →
      IdStep ⟨kernel, issued⟩ (.alloc cpu parentId)
        ⟨next, issued ++ [(e, (next.envs e).envId)]⟩
  | allocFails {kernel next : Kernel} {issued : List (Nat × UInt32)} {cpu : Nat}
      {parentId : UInt32} {code : Int} :
      envAlloc cpu parentId kernel = .returns (.error code) next →
      IdStep ⟨kernel, issued⟩ (.alloc cpu parentId) ⟨next, issued⟩
  | free {kernel next : Kernel} {issued : List (Nat × UInt32)} {e : Nat} :
      e < nenv → envFree e kernel = .returns () next →
      IdStep ⟨kernel, issued⟩ (.free e) ⟨next, issued⟩
  | other {kernel next : Kernel} {issued : List (Nat × UInt32)} :
      next.idView = kernel.idView →
      IdStep ⟨kernel, issued⟩ .other ⟨next, issued⟩

def idMachine : Machine IdHistory IdEvent where
  Initial history := ∃ mem kernPgdir,
    history = ⟨.initial mem kernPgdir, []⟩
  Step := IdStep

/-- How the identifiers in the slots follow from the history. -/
structure IdsKept (view : IdView) (idsOf : Nat → List UInt32) : Prop where
  freeList : ∀ e, view.freeList = some e → e < nenv
  envLink : ∀ e f, view.envLink e = some f → f < nenv
  inTable : ∀ e, idsOf e ≠ [] → e < nenv
  live : ∀ e, ¬ view.isFree e → idsOf e ≠ []
  envId : ∀ e, view.envId e = idAfter e (idsOf e).length
  issued : ∀ e, idsOf e =
    (List.range (idsOf e).length).map fun count => idAfter e (count + 1)

theorem IdsKept.issue {view : IdView} {idsOf : Nat → List UInt32}
    (kept : IdsKept view idsOf) {e : Nat} (head : view.freeList = some e) :
    IdsKept (view.issue e)
      (Function.update idsOf e (idsOf e ++ [(view.issue e).envId e])) := by
  have newId : (view.issue e).envId e =
      idAfter e ((idsOf e).length + 1) := by
    simp [IdView.issue, kept.envId e, idAfter]
  constructor
  · intro f next
    exact kept.envLink e f next
  · exact kept.envLink
  · intro f given
    by_cases same : f = e
    · rw [same]
      exact kept.freeList e head
    · rw [Function.update_of_ne same] at given
      exact kept.inTable f given
  · intro f alive
    by_cases same : f = e
    · simp [same]
    · simp only [IdView.issue, Function.update_of_ne same] at alive ⊢
      exact kept.live f alive
  · intro f
    by_cases same : f = e
    · subst same
      rw [newId, Function.update_self]
      simp
    · simpa [IdView.issue, Function.update_of_ne same] using kept.envId f
  · intro f
    by_cases same : f = e
    · subst same
      rw [newId, Function.update_self, List.length_append, List.length_singleton,
        List.range_succ, List.map_append, ← kept.issued f]
      rfl
    · rw [Function.update_of_ne same]
      exact kept.issued f

theorem IdsKept.release {view : IdView} {idsOf : Nat → List UInt32}
    (kept : IdsKept view idsOf) {e : Nat} (below : e < nenv) :
    IdsKept (view.release e) idsOf where
  freeList f next := by
    rw [← Option.some.inj next]
    exact below
  envLink f next link := by
    by_cases same : f = e
    · rw [same] at link
      simp only [IdView.release, Function.update_self] at link
      exact kept.freeList next link
    · simp only [IdView.release, Function.update_of_ne same] at link
      exact kept.envLink f next link
  inTable := kept.inTable
  live f alive := by
    by_cases same : f = e
    · simp [IdView.release, same] at alive
    · simp only [IdView.release, Function.update_of_ne same] at alive
      exact kept.live f alive
  envId := kept.envId
  issued := kept.issued

theorem idsOf_append (kernel next : Kernel) (issued : List (Nat × UInt32))
    (e : Nat) (envId : UInt32) :
    (IdHistory.mk next (issued ++ [(e, envId)])).idsOf =
      Function.update (IdHistory.mk kernel issued).idsOf e
        ((IdHistory.mk kernel issued).idsOf e ++ [envId]) := by
  funext slot
  unfold IdHistory.idsOf
  rw [List.filter_append, List.map_append]
  by_cases same : slot = e
  · simp [same]
  · simp [same, Ne.symm same]

theorem idsKept_step {history next : IdHistory} {event : IdEvent}
    (kept : IdsKept history.kernel.idView history.idsOf)
    (step : idMachine.Step history event next) :
    IdsKept next.kernel.idView next.idsOf := by
  cases step with
  | alloc allocated =>
      rename_i kernel next issued cpu e parentId
      have change := (triple_envAlloc_ids kernel.idView cpu parentId).of_returns
        rfl allocated
      have newId : (next.envs e).envId = (kernel.idView.issue e).envId e :=
        congrArg (fun view => view.envId e) change.2
      rw [idsOf_append kernel next issued e, newId, change.2]
      exact kept.issue change.1
  | allocFails failed =>
      rename_i kernel next issued cpu parentId code
      have same := (triple_envAlloc_ids kernel.idView cpu parentId).of_returns
        rfl failed
      dsimp only at same
      rw [same]
      exact kept
  | free below freed =>
      rw [envFree_ids freed]
      exact kept.release below
  | other same =>
      rw [same]
      exact kept

theorem IdsKept.getElem? {view : IdView} {idsOf : Nat → List UInt32}
    (kept : IdsKept view idsOf) {slot i : Nat} {id : UInt32}
    (isId : (idsOf slot)[i]? = some id) :
    slot < nenv ∧ i < (idsOf slot).length ∧ id = idAfter slot (i + 1) := by
  obtain ⟨below, -⟩ := List.getElem?_eq_some_iff.mp isId
  have given : idsOf slot ≠ [] := List.ne_nil_of_length_pos (by omega)
  refine ⟨kept.inTable slot given, below, ?_⟩
  rw [kept.issued slot, List.getElem?_map, List.getElem?_range below] at isId
  exact (Option.some.inj isId).symm

/-- Identifiers identify environments. -/
structure IdHistory.Identifies (history : IdHistory) : Prop where
  positive : ∀ slot id, (slot, id) ∈ history.issued →
    0 < id.toInt32.toInt ∧ slot < nenv ∧ envx id = slot
  unique : ∀ e f, (history.kernel.envs e).envStatus ≠ .free →
    (history.kernel.envs f).envStatus ≠ .free →
    (history.kernel.envs e).envId = (history.kernel.envs f).envId → e = f
  distinct : ∀ slot i j, i < j → j < (history.idsOf slot).length →
    j - i < generations → (history.idsOf slot)[i]? ≠ (history.idsOf slot)[j]?
  stale : ∀ slot i id, (history.idsOf slot)[i]? = some id →
    (history.kernel.envs slot).envStatus = .free ∨
      i + 1 < (history.idsOf slot).length →
    (history.idsOf slot).length - (i + 1) < generations →
    ∀ cpu checkperm,
      envid2env cpu id checkperm history.kernel = .error (-eBadEnv)

theorem IdsKept.identifies {history : IdHistory}
    (kept : IdsKept history.kernel.idView history.idsOf) :
    history.Identifies where
  positive slot id member := by
    have isId : id ∈ history.idsOf slot := by
      unfold IdHistory.idsOf
      exact List.mem_map.mpr
        ⟨(slot, id), List.mem_filter.mpr ⟨member, by simp⟩, rfl⟩
    obtain ⟨i, found⟩ := List.getElem?_of_mem isId
    obtain ⟨inTable, -, rfl⟩ := kept.getElem? found
    exact ⟨idAfter_positive inTable i, inTable, envx_idAfter inTable i⟩
  unique e f firstLive secondLive same := by
    have slotOf : ∀ e, (history.kernel.envs e).envStatus ≠ .free →
        envx (history.kernel.envs e).envId = e := by
      intro e alive
      have given := kept.live e alive
      obtain ⟨count, length⟩ : ∃ count,
          (history.idsOf e).length = count + 1 :=
        ⟨(history.idsOf e).length - 1, by
          have positive := List.length_pos_iff.mpr given
          omega⟩
      have isId : (history.kernel.envs e).envId = idAfter e (count + 1) := by
        rw [← length]
        exact kept.envId e
      rw [isId, envx_idAfter (kept.inTable e given)]
    rw [← slotOf e firstLive, ← slotOf f secondLive, same]
  distinct slot i j before inside near same := by
    have second := List.getElem?_eq_getElem inside
    rw [second] at same
    obtain ⟨inTable, -, first⟩ := kept.getElem? same
    obtain ⟨-, -, last⟩ := kept.getElem? second
    exact idAfter_injective inTable before near (first.symm.trans last)
  stale slot i id isId freed near cpu checkperm := by
    obtain ⟨inTable, inside, rfl⟩ := kept.getElem? isId
    have slotOf := envx_idAfter inTable i
    have nonzero : idAfter slot (i + 1) ≠ 0 := newId_ne_zero _
    have occupant : (history.kernel.envs slot).envId =
        idAfter slot (history.idsOf slot).length := kept.envId slot
    unfold envid2env
    rw [if_neg nonzero]
    dsimp only
    rw [slotOf, if_pos]
    rcases freed with free | reallocated
    · exact .inl free
    · refine .inr ?_
      obtain ⟨last, length⟩ : ∃ last,
          (history.idsOf slot).length = last + 1 :=
        ⟨(history.idsOf slot).length - 1, by omega⟩
      rw [occupant, length]
      exact (idAfter_injective inTable (by omega) (by omega)).symm

/-- In every history of allocations and releases. -/
theorem identifies_of_reachable {history : IdHistory}
    (reachable : idMachine.Reachable Machine.Unrestricted history) :
    history.Identifies := by
  have initially : ∀ history, idMachine.Initial history →
      IdsKept history.kernel.idView history.idsOf := by
    rintro _ ⟨mem, kernPgdir, rfl⟩
    refine ⟨?_, ?_, ?_, ?_, ?_, ?_⟩
    · intro e head
      rw [← Option.some.inj head]
      decide
    · intro e next link
      change (if e + 1 < nenv then some (e + 1) else none) = some next at link
      split at link
      · rw [← Option.some.inj link]
        assumption
      · cases link
    · intro e given
      exact absurd rfl given
    · intro e alive
      exact absurd rfl alive
    · intro e
      rfl
    · intro e
      rfl
  exact (reachable.invariant initially
    fun _ _ _ kept _ step => idsKept_step kept step).identifies

/-- The history after an allocation or a release that returns. -/
def IdHistory.next (history : IdHistory) : IdEvent → Option IdHistory
  | .alloc cpu parentId =>
      match envAlloc cpu parentId history.kernel with
      | .returns (.ok e) next =>
          some ⟨next, history.issued ++ [(e, (next.envs e).envId)]⟩
      | _ => none
  | .free e =>
      if e < nenv then
        match envFree e history.kernel with
        | .returns () next => some ⟨next, history.issued⟩
        | _ => none
      else
        none
  | .other => none

theorem IdHistory.step_of_next {history next : IdHistory} {event : IdEvent}
    (computes : history.next event = some next) :
    idMachine.Step history event next := by
  cases event with
  | alloc cpu parentId =>
      unfold IdHistory.next at computes
      dsimp only at computes
      split at computes
      · rename_i allocated
        cases computes
        exact IdStep.alloc allocated
      · cases computes
  | free e =>
      unfold IdHistory.next at computes
      dsimp only at computes
      split at computes
      · rename_i below
        split at computes
        · rename_i freed
          cases computes
          exact IdStep.free below freed
        · cases computes
      · cases computes
  | other => cases computes

/-- Two environments; the slot of the first one is used again. -/
def reusedIds : List IdEvent :=
  [.alloc 0 0, .alloc 0 4096, .free 0, .alloc 0 4097]

theorem identifies_after_reuse :
    ∃ history, reusedIds.foldlM IdHistory.next ⟨.initial (.plain 32) 1, []⟩ =
        some history ∧
      history.issued = [(0, 4096), (1, 4097), (0, 8192)] ∧
      history.Identifies := by
  obtain ⟨history, computes⟩ : ∃ history,
      reusedIds.foldlM IdHistory.next ⟨.initial (.plain 32) 1, []⟩ =
        some history :=
    Option.isSome_iff_exists.mp (by decide +kernel)
  have issued : (reusedIds.foldlM IdHistory.next
      ⟨.initial (.plain 32) 1, []⟩).map IdHistory.issued =
        some [(0, 4096), (1, 4097), (0, 8192)] := by
    decide +kernel
  rw [computes, Option.map_some] at issued
  have start : idMachine.Reachable Machine.Unrestricted
      ⟨.initial (.plain 32) 1, []⟩ :=
    .initial ⟨_, _, rfl⟩
  have run : idMachine.Run Machine.Unrestricted ⟨.initial (.plain 32) 1, []⟩
      reusedIds history :=
    Machine.run_of_foldlM (fun _ _ _ => IdHistory.step_of_next)
      (fun _ _ => trivial) computes
  exact ⟨history, computes, Option.some.inj issued,
    identifies_of_reachable (start.run run)⟩

end FeaturesOS.Scheduler

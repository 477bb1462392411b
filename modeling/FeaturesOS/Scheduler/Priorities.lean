import FeaturesOS.Scheduler.EnvIds
import FeaturesOS.Scheduler.QueueRuns

/-!
# Priorities between promotions

Between two promotions `cola_actual` of an environment never decreases, as long
as `env_alloc` takes no slot for which a queue still has an entry.  `env_free`
leaves the entry of the environment in its queue; whoever takes the slot inherits
it, and is moved to the queue behind the one in which the old entry stood.
-/

namespace FeaturesOS.Scheduler

open Entry

/-! ## Ranks in a ledger -/

namespace Ledger

/-- While `e` has the identifier `envId` its queue is not before `floor`. -/
structure Ranked (ledger : Ledger) (e : Nat) (envId : UInt32) (floor : Int)
    (missing : Option Nat) : Prop where
  homed : ledger.Homed missing
  above : ledger.envId e = envId → floor ≤ ledger.colaActual e

/-- The part of a ledger that says where the environments stand. -/
def places (ledger : Ledger) : Ledger :=
  { ledger with
    status := fun _ => .free
    hasPgdir := fun _ => false
    link := fun _ => none
    freeList := none
    current := fun _ => none }

variable {ledger : Ledger} {e f : Nat} {envId entry : UInt32} {floor : Int}
variable {missing : Option Nat} {p q : Fin 4}

theorem ranked_places :
    ledger.places.Ranked e envId floor missing ↔
      ledger.Ranked e envId floor missing := by
  constructor
  · intro ranked
    exact ⟨⟨ranked.homed.entry, ranked.homed.nodup⟩, ranked.above⟩
  · intro ranked
    exact ⟨⟨ranked.homed.entry, ranked.homed.nodup⟩, ranked.above⟩

theorem agregar_colaActual (ledger : Ledger) (entry : UInt32) (q : Fin 4)
    (e : Nat) :
    (ledger.agregar entry q).colaActual e =
      if e = envx entry then (q.val : Int) else ledger.colaActual e := by
  by_cases same : e = envx entry <;>
    simp [agregar, setCola, setColaActual, same]

namespace Ranked

/-- An environment without an entry is appended to a queue that is not before
its floor. -/
theorem agregar (homed : ledger.Homed (some (envx entry)))
    (above : e ≠ envx entry → ledger.envId e = envId →
      floor ≤ ledger.colaActual e)
    (ordenada : (ledger.colas q).Ordenada)
    (isId : ledger.envId (envx entry) = entry)
    (behind : envx entry = e → ledger.envId e = envId → floor ≤ q.val) :
    (ledger.agregar entry q).Ranked e envId floor none := by
  refine ⟨homed.agregar ordenada isId, ?_⟩
  intro given
  rw [agregar_colaActual]
  split
  · rename_i same
    exact behind same.symm given
  · rename_i different
    exact above different given

/-- The entry of one counter moves to a queue that is not before its own. -/
theorem mover (ranked : ledger.Ranked e envId floor none)
    (ordenada : ∀ q, (ledger.colas q).Ordenada) {i : Nat}
    (isCounter : i ∈ (ledger.colas q).ring.counters) {next : MlfqCola}
    (removed : (ledger.colas q).borrar (i % nenv) = some next)
    (behind : q.val ≤ p.val) :
    ((ledger.setCola q next).agregar ((ledger.colas q).entrada i) p).Ranked e
      envId floor none := by
  have perm := MlfqCola.borrar_perm (ordenada q) isCounter
    ranked.homed.length_le removed
  obtain ⟨isId, home, -⟩ :=
    ranked.homed.entry q _ (perm.mem_iff.mp List.mem_cons_self)
  refine agregar (ranked.homed.quitar (ordenada q) isCounter removed)
    (fun _ => ranked.above) ?_ isId ?_
  · by_cases same : p = q
    · subst p
      simpa [setCola] using (ordenada q).borrar isCounter removed
    · simpa [setCola, same] using ordenada p
  · intro same given
    have below := ranked.above given
    rw [← same, home] at below
    omega

/-- An environment whose queue has no entry for it enters another queue. -/
theorem entrar (ranked : ledger.Ranked e envId floor none)
    (ordenada : (ledger.colas p).Ordenada)
    (isId : ledger.envId (envx entry) = entry)
    (home : ledger.colaActual (envx entry) = q.val)
    (absent : entry ∉ (ledger.colas q).contenido) (behind : q.val ≤ p.val) :
    (ledger.agregar entry p).Ranked e envId floor none := by
  have missing : ledger.Homed (some (envx entry)) := by
    refine { ranked.homed with entry := ?_ }
    intro other id member
    obtain ⟨sameId, otherHome, -⟩ := ranked.homed.entry other id member
    refine ⟨sameId, otherHome, ?_⟩
    intro same
    have slot := Option.some.inj same
    rw [← slot, home] at otherHome
    rw [← slot, isId] at sameId
    have sameCola : q = other := Fin.ext (Int.ofNat.inj otherHome)
    rw [sameCola, sameId] at absent
    exact absent member
  refine agregar missing (fun _ => ranked.above) ordenada isId ?_
  intro same given
  have below := ranked.above given
  rw [← same, home] at below
  omega

end Ranked

/-- `env_alloc` may take the slot `f`. -/
structure Offers (ledger : Ledger) (f e : Nat) (envId : UInt32) (floor : Int) :
    Prop where
  ranked : ledger.Ranked e envId floor none
  ordenada : ∀ q, (ledger.colas q).Ordenada
  range : ∀ e, ∃ q : Fin 4, ledger.colaActual e = q.val
  unused : ∀ q, ∀ entry ∈ (ledger.colas q).contenido, envx entry ≠ f
  kept : floor ≤ 0 ∨ ledger.envId e = envId

/-- The new environment in the slot `f` has no entry yet. -/
structure Awaits (ledger : Ledger) (f e : Nat) (envId : UInt32) (floor : Int) :
    Prop where
  homed : ledger.Homed (some f)
  above : e ≠ f → ledger.envId e = envId → floor ≤ ledger.colaActual e
  ordenada : ∀ q, (ledger.colas q).Ordenada
  range : ∀ e, ∃ q : Fin 4, ledger.colaActual e = q.val
  slot : envx (ledger.envId f) = f
  kept : floor ≤ 0 ∨ (f = e → ledger.envId e ≠ envId)

theorem Offers.allocate (offers : ledger.Offers f e envId floor)
    (below : f < nenv) :
    (ledger.allocate f
      (nextGeneration (ledger.envId f) ||| UInt32.ofNat f)).Awaits f e envId
      floor where
  homed := offers.ranked.homed.allocate offers.unused
  above different given := by
    refine offers.ranked.above ?_
    simpa [Ledger.allocate, different] using given
  ordenada := offers.ordenada
  range := offers.range
  slot := by simpa [Ledger.allocate] using envx_newId _ below
  kept := by
    refine offers.kept.imp_right ?_
    rintro given rfl
    have changes := newId_ne below (ledger.envId f)
    simpa [Ledger.allocate, given] using changes

theorem Awaits.agregar (awaits : ledger.Awaits f e envId floor) (q : Fin 4) :
    (ledger.agregar (ledger.envId f) q).Ranked e envId floor none := by
  have slot := awaits.slot
  refine Ranked.agregar ?_ ?_ (awaits.ordenada q) ?_ ?_
  · rw [slot]
    exact awaits.homed
  · rw [slot]
    exact awaits.above
  · rw [slot]
  · rw [slot]
    intro same given
    rcases awaits.kept with low | changed
    · omega
    · exact absurd given (changed same)

end Ledger

/-! ## The functions of the kernel -/

namespace Kernel

/-- Where the environments stand. -/
def places (kernel : Kernel) : Ledger := kernel.ledger.places

theorem places_updateEnv (kernel : Kernel) (e : Nat) {change : Env → Env}
    (envId : ∀ env, (change env).envId = env.envId)
    (cola : ∀ env, (change env).colaActual = env.colaActual) :
    (kernel.updateEnv e change).places = kernel.places := by
  unfold places ledger Ledger.places updateEnv setEnv
  congr 1 <;> funext f <;> by_cases same : f = e <;>
    simp [same, envId, cola, Function.update_of_ne]

end Kernel

theorem holds_updateEnv {property : Ledger → Prop} {kernel : Kernel}
    (holds : property kernel.places) (e : Nat) {change : Env → Env}
    (envId : ∀ env, (change env).envId = env.envId)
    (cola : ∀ env, (change env).colaActual = env.colaActual) :
    property (kernel.updateEnv e change).places := by
  rwa [kernel.places_updateEnv e envId cola]

theorem blindToMem_places : BlindToMem Kernel.places := fun _ _ => rfl

section Places

variable (property : Ledger → Prop) {returned : Unit → Kernel → Prop}

theorem triple_envRun_places (cpu e : Nat) {Result : Type}
    {returned : Result → Kernel → Prop} :
    Triple (fun kernel => property kernel.places) (envRun cpu e) returned
      (fun kernel => property kernel.places) := by
  unfold envRun
  refine .bind_modify (fun kernel => property kernel.places) ?_ ?_
  · intro kernel holds
    unfold soltarCurenv
    cases kernel.cpus cpu with
    | none => exact holds
    | some current =>
        dsimp only
        split
        · exact holds_updateEnv holds current (fun _ => rfl) fun _ => rfl
        · exact holds
  · refine .bind_modify (fun kernel => property kernel.places) ?_ ?_
    · intro kernel holds
      have moved : property (kernel.setCurenv cpu (some e)).places := holds
      exact holds_updateEnv moved e (fun _ => rfl) fun _ => rfl
    · refine .bind_read fun pgdir => ?_
      cases pgdir with
      | none => exact .stop
      | some pgdir => exact .leave fun _ holds => holds.1

theorem triple_schedHalt_places (cpu : Nat) {Result : Type}
    {returned : Result → Kernel → Prop} :
    Triple (fun kernel => property kernel.places) (schedHalt cpu) returned
      (fun kernel => property kernel.places) := by
  constructor
  intro kernel holds
  unfold schedHalt
  by_cases active : kernel.hasActive = true
  · rw [if_pos active]
    exact holds
  · rw [if_neg active]
    trivial

end Places

theorem frame_envSetupVm_places (e : Nat) :
    Frame Kernel.places (envSetupVm e) := by
  constructor
  intro kernel
  unfold envSetupVm
  cases kernel.mem.pageAlloc true with
  | mk mem page =>
      cases page with
      | none => rfl
      | some page =>
          exact Kernel.places_updateEnv _ e (fun _ => rfl) fun _ => rfl

theorem frame_envFree_places (e : Nat) : Frame Kernel.places (envFree e) := by
  constructor
  intro kernel
  unfold envFree
  cases (kernel.envs e).envPgdir with
  | none => trivial
  | some pgdir =>
      dsimp only
      cases (envFreeTables pgdir userTables kernel.mem).bind fun mem =>
          mem.pageDecref pgdir with
      | none => trivial
      | some mem =>
          have released : ((kernel.setMem mem).updateEnv e fun env =>
              { env with
                envPgdir := none
                envStatus := .free
                envLink := kernel.envFreeList }).places = kernel.places :=
            (kernel.setMem mem).places_updateEnv e (fun _ => rfl) fun _ => rfl
          exact released

theorem frame_sysEnvSetStatus_places (cpu : Nat) (envid status : UInt32) :
    Frame Kernel.places (sysEnvSetStatus cpu envid status) := by
  unfold sysEnvSetStatus
  split
  · exact .pure
  · refine (frame_lookupEnv cpu envid true).bind fun result => ?_
    cases result with
    | error r => exact .pure
    | ok e =>
        exact .bind (.modify fun kernel =>
          kernel.places_updateEnv e (fun _ => rfl) fun _ => rfl) fun _ => .pure

theorem frame_ipcDeliver_places (sender dst : Nat) (value : UInt32) :
    Frame Kernel.places (ipcDeliver sender dst value) :=
  .bind (.modify fun kernel =>
    kernel.places_updateEnv dst (fun _ => rfl) fun _ => rfl) fun _ => .pure

theorem frame_sysIpcTrySend_places (surroundings : Surroundings) (cpu : Nat)
    (envid value srcva perm : UInt32) :
    Frame Kernel.places
      (sysIpcTrySend surroundings cpu envid value srcva perm) := by
  refine (frame_lookupEnv cpu envid false).bind fun result => ?_
  cases result with
  | error r => exact .pure
  | ok dst =>
      refine (frame_theCurenv cpu).bind fun current => ?_
      refine .bind .read fun recving => ?_
      split
      · exact .pure
      · split
        · refine .bind (.modify fun kernel => ?_) fun _ =>
            frame_ipcDeliver_places current dst value
          exact kernel.places_updateEnv dst (fun _ => rfl) fun _ => rfl
        · split
          · exact .pure
          · refine .bind .read fun word => ?_
            cases word with
            | none => exact .stop
            | some srcpte =>
                dsimp only
                split
                · exact .pure
                · refine .bind (frame_ipcTransfer blindToMem_places
                    (fun kernel e _ => kernel.places_updateEnv e (fun _ => rfl)
                      fun _ => rfl) current srcva dst _) fun r => ?_
                  split
                  · exact .pure
                  · exact frame_ipcDeliver_places current dst value

/-! ## The scheduler -/

variable {e : Nat} {envId : UInt32} {floor : Int}

/-- While `e` has the identifier `envId` its queue is not before `floor`. -/
def RankedAt (e : Nat) (envId : UInt32) (floor : Int) (kernel : Kernel) : Prop :=
  kernel.places.Ranked e envId floor none

theorem rankedAt_ledger {kernel : Kernel} :
    RankedAt e envId floor kernel ↔ kernel.ledger.Ranked e envId floor none :=
  Ledger.ranked_places

theorem triple_prioridadMlfq_ranked (cpu : Nat) :
    Triple
      (fun kernel => Kept False False kernel ∧ RankedAt e envId floor kernel)
      (prioridadMlfq cpu) (fun _ => RankedAt e envId floor)
      (RankedAt e envId floor) := by
  have runs : ∀ f, Triple (RankedAt e envId floor) (envRun cpu f : KernelM Unit)
      (fun _ => RankedAt e envId floor) (RankedAt e envId floor) := fun f =>
    triple_envRun_places (Ledger.Ranked · e envId floor none) cpu f
  have counts : ∀ kernel f, RankedAt e envId floor kernel →
      RankedAt e envId floor (kernel.contarTotal.contarEjecucion f) := by
    intro kernel f ranked
    rw [rankedAt_ledger, contarTotal_ledger]
    exact rankedAt_ledger.mp ranked
  unfold prioridadMlfq
  refine .bind_read fun mejor => ?_
  match mejor with
  | none => exact .stop
  | some none =>
      refine .bind_read fun curenv => ?_
      cases curenv with
      | some current =>
          refine .bind_modify (RankedAt e envId floor) ?_ (runs current)
          rintro kernel ⟨⟨⟨-, ranked⟩, -⟩, -⟩
          exact counts kernel current ranked
      | none =>
          exact .strengthen (RankedAt e envId floor)
            (fun _ holds => holds.1.1.2)
            (triple_schedHalt_places (Ledger.Ranked · e envId floor none) cpu)
  | some (some (q, i)) =>
      refine .bind_read fun entry => ?_
      dsimp only
      rw [siguienteCola_val]
      have behind : q.val ≤ (siguienteCola q).val := by
        match q with
        | 0 => decide
        | 1 => decide
        | 2 => decide
        | 3 => decide
      refine .strengthen _ ?_
        ((triple_borrar (fun ledger =>
            (ledger.agregar entry (siguienteCola q)).Ranked e envId floor none)
            q (i % nenv)).bind
          fun _ => (triple_schedAgregarEnv
            (Ledger.Ranked · e envId floor none) entry (siguienteCola q)).bind
              fun _ => .bind_modify (RankedAt e envId floor) ?_ (runs _))
      · rintro kernel ⟨⟨⟨kept, ranked⟩, found⟩, rfl⟩ next removed
        exact (rankedAt_ledger.mp ranked).mover kept.sound.ordenada
          (mem_counters_of_found kept found) removed behind
      · intro kernel ranked
        exact counts kernel _ (rankedAt_ledger.mpr ranked)

/-- A promotion keeps the entries with their environments; nobody is before the
first queue. -/
theorem triple_promoverSiCorresponde_ranked (e : Nat) (envId : UInt32)
    (floor : Int) :
    Triple
      (fun kernel => (∀ q, (kernel.mlfq.colas q).Ordenada) ∧
        RankedAt e envId floor kernel ∧
        (floor ≤ 0 ∨ ¬ kernel.mlfq.ejecucionesTotales ≥ maxEjecucionesMlfq))
      promoverSiCorresponde (fun _ => RankedAt e envId floor)
      (RankedAt e envId floor) := by
  unfold promoverSiCorresponde
  refine .bind_read fun totales => ?_
  refine .ite (fun enough => ?_) fun few => .pure fun _ holds => holds.1.2.1
  refine .strengthen _ ?_
    ((triple_promoverColas (Ledger.Ranked · e envId floor none)).bind fun _ =>
      .modify fun _ ranked => rankedAt_ledger.mpr ranked)
  rintro kernel ⟨⟨ordenada, ranked, quiet⟩, rfl⟩
  have homed := (rankedAt_ledger.mp ranked).homed
  refine ⟨ordenada, homed.promover (ordenada 0), ?_⟩
  intro given
  have low := quiet.resolve_right (not_not_intro enough)
  have before := (rankedAt_ledger.mp ranked).above given
  unfold Ledger.promover
  dsimp only
  split
  · exact low
  · exact before

/-! ## System calls -/

/-- The slot that `env_alloc` takes has no entry in a queue. -/
def Kernel.OffersUnused (kernel : Kernel) : Prop :=
  ∀ q i, kernel.Visible q i →
    kernel.envFreeList ≠ some (envx (kernel.entrada q i))

theorem unused_of_offers {kernel : Kernel} (kept : Kept False False kernel)
    (offers : kernel.OffersUnused) {f : Nat}
    (head : kernel.envFreeList = some f) (q : Fin 4) {entry : UInt32}
    (member : entry ∈ (kernel.ledger.colas q).contenido) : envx entry ≠ f := by
  obtain ⟨i, isCounter, rfl⟩ := List.mem_map.mp member
  have visible : kernel.Visible q i :=
    (MlfqCola.mem_counters (kept.sound.ordenada q)).mp isCounter
  rintro rfl
  exact offers q i visible head

theorem triple_envAlloc_ranked (cpu : Nat) (parentId : UInt32) :
    Triple
      (fun kernel => Kept False False kernel ∧ RankedAt e envId floor kernel ∧
        kernel.OffersUnused ∧
        (floor ≤ 0 ∨ (kernel.envs e).envId = envId))
      (envAlloc cpu parentId) (fun _ => RankedAt e envId floor)
      (RankedAt e envId floor) := by
  unfold envAlloc
  refine .bind_read fun head => ?_
  cases head with
  | none => exact .pure fun _ holds => holds.1.2.1
  | some f =>
      by_cases below : f < nenv
      · refine .strengthen (fun kernel => kernel.places.Offers f e envId floor)
          ?_ (((frame_envSetupVm_places f).triple
            (Ledger.Offers · f e envId floor)).bind fun r => ?_)
        · rintro kernel ⟨⟨kept, ranked, offers, fresh⟩, head⟩
          exact ⟨ranked, kept.sound.ordenada, kept.sound.colaActual,
            fun q _ => unused_of_offers kept offers head q, fresh⟩
        refine .ite (fun _ => .pure fun _ offers => offers.ranked) fun _ => ?_
        refine .bind_modify
          (fun kernel => kernel.ledger.Awaits f e envId floor) ?_ ?_
        · intro kernel offers
          have awaits := offers.allocate below
          have given : (commitEnv parentId f kernel).ledger.envId =
              Function.update kernel.ledger.envId f
                (nextGeneration (kernel.envs f).envId ||| UInt32.ofNat f) := by
            funext g
            by_cases same : g = f <;>
              simp [Kernel.ledger, commitEnv, Kernel.updateEnv, Kernel.setEnv,
                same]
          have cola : (commitEnv parentId f kernel).ledger.colaActual =
              kernel.ledger.colaActual := by
            funext g
            by_cases same : g = f <;>
              simp [Kernel.ledger, commitEnv, Kernel.updateEnv, Kernel.setEnv,
                same]
          refine ⟨⟨?_, awaits.homed.nodup⟩, ?_, awaits.ordenada, ?_, ?_, ?_⟩
          · rw [given, cola]
            exact awaits.homed.entry
          · rw [given, cola]
            exact awaits.above
          · rw [cola]
            exact awaits.range
          · rw [given]
            exact awaits.slot
          · rw [given]
            exact awaits.kept
        · refine .bind_read fun cola => .bind_read fun newId => ?_
          by_cases range : ∃ q : Fin 4, cola = q.val
          · obtain ⟨q, rfl⟩ := range
            refine .strengthen _ ?_
              ((triple_schedAgregarEnv (Ledger.Ranked · e envId floor none)
                newId q).bind fun _ => .pure fun _ ranked =>
                  rankedAt_ledger.mpr ranked)
            rintro kernel ⟨⟨awaits, -⟩, rfl⟩
            exact awaits.agregar q
          · refine ⟨?_⟩
            rintro kernel ⟨⟨awaits, isCola⟩, -⟩
            refine absurd ?_ range
            rw [← isCola]
            exact colaPadre_range awaits.range cpu parentId
      · refine ⟨?_⟩
        rintro kernel ⟨⟨kept, -⟩, head⟩
        exact absurd (kept.sound.freeHead f head) below

theorem triple_sysExofork_ranked (cpu : Nat) :
    Triple
      (fun kernel => Kept False False kernel ∧ RankedAt e envId floor kernel ∧
        kernel.OffersUnused ∧
        (floor ≤ 0 ∨ (kernel.envs e).envId = envId))
      (sysExofork cpu) (fun _ => RankedAt e envId floor)
      (RankedAt e envId floor) := by
  refine (triple_theCurenv cpu).bind fun current => ?_
  refine .bind_read fun parentId => ?_
  refine .strengthen _ (fun _ holds => holds.1.1)
    ((triple_envAlloc_ranked cpu parentId).bind fun result => ?_)
  cases result with
  | error r => exact .pure fun _ ranked => ranked
  | ok newenv =>
      refine .bind_read fun tf => ?_
      refine .bind_modify (RankedAt e envId floor) ?_ (.read fun _ => id)
      rintro kernel ⟨ranked, -⟩
      exact @holds_updateEnv (Ledger.Ranked · e envId floor none) _ ranked
        newenv _ (fun _ => rfl) fun _ => rfl

/-- Leaving the queue of `cola_actual` and entering a later one. -/
theorem triple_reasignar_ranked (f : Nat) (env : Env) (q : Fin 4) :
    Triple
      (fun kernel : Kernel => Kept False False kernel ∧
        RankedAt e envId floor kernel ∧ kernel.envs f = env ∧
        env.envId ≠ 0 ∧ env.colaActual < q.val)
      (do
        schedEliminarEnv env.envId
        schedAgregarEnv env.envId q.val
        Entry.modify fun kernel =>
          kernel.updateEnv f fun env => { env with colaActual := q.val }
        pure (q.val : Int))
      (fun _ => RankedAt e envId floor) (RankedAt e envId floor) := by
  refine .strengthen _ ?_
    ((triple_schedEliminarEnv env.envId (fun ledger =>
        (ledger.agregar env.envId q).Ranked e envId floor none ∧
          (ledger.agregar env.envId q).colaActual f = q.val)).bind
      fun _ => (triple_schedAgregarEnv (fun ledger =>
        ledger.Ranked e envId floor none ∧ ledger.colaActual f = q.val)
        env.envId q).bind fun _ => ?_)
  · rintro kernel ⟨kept, ranked, rfl, given, later⟩
    have inLedger := rankedAt_ledger.mp ranked
    have slot : envx (kernel.envs f).envId = f := kept.sound.slot f given
    have isId : kernel.ledger.envId (envx (kernel.envs f).envId) =
        (kernel.envs f).envId := by
      rw [slot]
      rfl
    have marked : ∀ ledger : Ledger,
        (ledger.agregar (kernel.envs f).envId q).colaActual f = q.val := by
      intro ledger
      rw [Ledger.agregar_colaActual, slot, if_pos rfl]
    refine ⟨kept.sound, ?_⟩
    intro p home
    have behind : p.val ≤ q.val := by
      have here : kernel.ledger.colaActual f = p.val := by rwa [slot] at home
      change (kernel.envs f).colaActual = _ at here
      omega
    refine ⟨fun absent => ?_, fun i next isCounter same removed => ?_⟩
    · exact ⟨inLedger.entrar (kept.sound.ordenada q) isId home absent behind,
        marked _⟩
    · have moved := inLedger.mover kept.sound.ordenada isCounter removed behind
      rw [same] at moved
      exact ⟨moved, marked _⟩
  · refine .bind_modify (RankedAt e envId floor) ?_ (.pure fun _ => id)
    rintro kernel ⟨ranked, marked⟩
    rw [rankedAt_ledger, kernel.ledger_updateEnv_cola]
    unfold Ledger.setColaActual
    rw [← marked, Function.update_eq_self]
    exact ranked

theorem triple_sysEnvAsignarPrioridad_ranked (cpu : Nat) (envid : UInt32)
    (prioridad : Int) :
    Triple
      (fun kernel => Kept False False kernel ∧ RankedAt e envId floor kernel)
      (sysEnvAsignarPrioridad cpu envid prioridad)
      (fun _ => RankedAt e envId floor) (RankedAt e envId floor) := by
  unfold sysEnvAsignarPrioridad
  refine .ite (fun _ => .pure fun _ holds => holds.2) fun inRange => ?_
  obtain ⟨q, rfl⟩ : ∃ q : Fin 4, prioridad = q.val := by
    refine ⟨⟨prioridad.toNat, by omega⟩, ?_⟩
    dsimp only
    omega
  refine (triple_lookupEnv cpu envid false).bind fun result => ?_
  cases result with
  | error r => exact .pure fun _ holds => holds.1.2
  | ok f =>
      refine (triple_theCurenv cpu).bind fun current => ?_
      refine .bind_read fun env => .bind_read fun currentId => ?_
      refine .ite (fun _ => .pure fun _ holds => holds.1.1.1.1.2) fun _ => ?_
      refine .ite (fun _ => .pure fun _ holds => holds.1.1.1.1.2)
        fun different => ?_
      refine .ite (fun _ => .pure fun _ holds => holds.1.1.1.1.2)
        fun notLater => ?_
      refine (triple_reasignar_ranked f env q).strengthen _ ?_
      rintro kernel ⟨⟨⟨⟨⟨kept, ranked⟩, finds⟩, -⟩, rfl⟩, -⟩
      have usable := Usable.of_finds kept (finds f rfl)
      exact ⟨kept, ranked, rfl, usable.2.1, by omega⟩

/-! ## Promotions in a run -/

/-- `e` waits for a message. -/
def Kernel.receiving (kernel : Kernel) (e : Nat) (dstva : UInt32) : Kernel :=
  (kernel.updateEnv e fun env => { env with envIpcRecving := true }).updateEnv e
    fun env => { env with envIpcDstva := dstva, envStatus := .notRunnable }

namespace SchedOp

/-- The kernel in which the operation calls `sched_yield`. -/
def yieldsIn (kernel : Kernel) (cpu : Nat) : SchedOp → Option Kernel
  | yield => some kernel
  | ipcRecv dstva =>
      if UserPage dstva then
        (kernel.cpus cpu).map fun current => kernel.receiving current dstva
      else none
  | envDestroy e =>
      if kernel.cpus cpu = some e then
        match Scheduler.envFree e kernel with
        | .returns _ freed => some (freed.setCurenv cpu none)
        | .leaves _ | .stops => none
      else none
  | _ => none

/-- The kernel behind `promover_colas`, when `sched_yield` calls it. -/
def promotionIn (kernel : Kernel) : Option Kernel :=
  if kernel.mlfq.ejecucionesTotales ≥ maxEjecucionesMlfq then
    (promoverSiCorresponde
      { kernel with runsDelSched := kernel.runsDelSched + 1 }).finalState
  else none

/-- The kernel behind the call of `promover_colas` in the operation. -/
def promotion (kernel : Kernel) (cpu : Nat) (op : SchedOp) : Option Kernel :=
  (op.yieldsIn kernel cpu).bind promotionIn

/-- The operation takes no slot for which a queue has an entry. -/
def TakesUnusedSlot (kernel : Kernel) : SchedOp → Prop
  | envAlloc _ | exofork => kernel.OffersUnused
  | _ => True

end SchedOp

/-- `e` keeps the identifier `envId` from `first` to `last`, and no call of
`promover_colas` lies between these moments of a run. -/
inductive Unpromoted (allowed : Kernel → Nat × SchedOp → Prop) (e : Nat)
    (envId : UInt32) : Kernel → Kernel → Prop where
  | start {kernel : Kernel} :
      schedMachine.Reachable allowed kernel →
      (kernel.envs e).envId = envId →
      Unpromoted allowed e envId kernel kernel
  | promoted {kernel middle next : Kernel} {event : Nat × SchedOp} :
      schedMachine.Reachable allowed kernel →
      allowed kernel event →
      schedMachine.Step kernel event next →
      event.2.promotion kernel event.1 = some middle →
      (middle.envs e).envId = envId →
      (next.envs e).envId = envId →
      Unpromoted allowed e envId middle next
  | step {first kernel next : Kernel} {event : Nat × SchedOp} :
      Unpromoted allowed e envId first kernel →
      allowed kernel event →
      schedMachine.Step kernel event next →
      event.2.promotion kernel event.1 = none →
      (next.envs e).envId = envId →
      Unpromoted allowed e envId first next

theorem schedHalt_bind {Result Next : Type} (cpu : Nat)
    (next : Result → KernelM Next) :
    (schedHalt cpu >>= next) = (schedHalt cpu : KernelM Next) := by
  funext kernel
  rw [bind_run]
  unfold schedHalt
  by_cases active : kernel.hasActive = true
  · rw [if_pos active, if_pos active]
  · rw [if_neg active, if_neg active]

/-- `sched_yield` does not return, whatever follows it. -/
theorem schedYield_bind {Result Next : Type} (build : Build) (cpu : Nat)
    (next : Result → KernelM Next) :
    (schedYield build cpu >>= next) = (schedYield build cpu : KernelM Next) := by
  funext kernel
  unfold schedYield
  rw [bind_run, modify_bind_run, modify_bind_run, bind_run, bind_run]
  cases elegirEntorno build cpu
      { kernel with runsDelSched := kernel.runsDelSched + 1 } with
  | returns result middle =>
      exact congrFun (schedHalt_bind cpu next) middle
  | leaves final => rfl
  | stops => rfl

/-- An operation that calls `sched_yield` ends with it. -/
theorem entry_of_yieldsIn {kernel entered : Kernel} {cpu : Nat} {op : SchedOp}
    (yields : op.yieldsIn kernel cpu = some entered) :
    op.entry cpu kernel = schedYield .priorities cpu entered := by
  cases op with
  | yield =>
      cases yields
      rfl
  | ipcRecv dstva =>
      change (if UserPage dstva then _ else none) = _ at yields
      split at yields
      · rename_i user
        obtain ⟨current, isCurrent, rfl⟩ := Option.map_eq_some_iff.mp yields
        have found : theCurenv cpu kernel = .returns current kernel := by
          unfold theCurenv
          rw [read_bind_run, isCurrent]
          rfl
        have received : sysIpcRecv .priorities cpu dstva kernel =
            schedYield .priorities cpu (kernel.receiving current dstva) := by
          unfold sysIpcRecv
          rw [bind_run, found]
          dsimp only
          rw [modify_bind_run, if_neg (not_not_intro user)]
          rfl
        change (sysIpcRecv .priorities cpu dstva >>= fun _ => pure ()) kernel = _
        rw [bind_run, received, ← bind_run, schedYield_bind]
      · cases yields
  | envDestroy e =>
      change (if kernel.cpus cpu = some e then _ else none) = _ at yields
      split at yields
      · rename_i own
        change envDestroy .priorities cpu e kernel = _
        unfold envDestroy
        rw [read_bind_run, read_bind_run, if_neg (by rw [own]; simp), bind_run]
        cases freed : Scheduler.envFree e kernel with
        | returns result state =>
            rw [freed] at yields
            cases yields
            dsimp only
            rw [if_pos own]
            rfl
        | leaves state =>
            rw [freed] at yields
            cases yields
        | stops =>
            rw [freed] at yields
            cases yields
      · cases yields
  | envRun e => cases yields
  | envAlloc parentId => cases yields
  | envFree e => cases yields
  | exofork => cases yields
  | setStatus envid status => cases yields
  | ipcTrySend surroundings envid value srcva perm => cases yields
  | asignarPrioridad envid prioridad => cases yields

theorem kept_receiving {covered : Prop} {kernel : Kernel} {cpu current : Nat}
    (kept : Kept False covered kernel)
    (isCurrent : kernel.cpus cpu = some current) (dstva : UInt32) :
    Kept False covered (kernel.receiving current dstva) := by
  have waiting : Kept False covered (kernel.updateEnv current fun env =>
      { env with envIpcRecving := true }) :=
    kept_updateEnv_same kept current (fun _ => rfl) (fun _ => rfl)
      (fun _ => rfl) (fun _ => rfl) fun _ => rfl
  exact kept_updateEnv (Usable.of_current waiting isCurrent) (by simp)
    (fun _ => rfl) (fun _ => rfl) (fun _ => rfl) fun _ => rfl

theorem kept_of_yieldsIn {covered : Prop} {kernel entered : Kernel} {cpu : Nat}
    {op : SchedOp} (kept : Kept False covered kernel)
    (fits : covered → op.Fits kernel cpu)
    (yields : op.yieldsIn kernel cpu = some entered) :
    Kept False covered entered ∧ (covered → entered.YieldFits) := by
  cases op with
  | yield =>
      cases yields
      exact ⟨kept, fits⟩
  | ipcRecv dstva =>
      change (if UserPage dstva then _ else none) = _ at yields
      split at yields
      · rename_i user
        obtain ⟨current, isCurrent, rfl⟩ := Option.map_eq_some_iff.mp yields
        refine ⟨kept_receiving kept isCurrent dstva, fun wanted => ?_⟩
        refine (yieldFits_congr (kernel.blocked current) _ ?_ ?_).mpr
          (fits wanted user current isCurrent)
        · rfl
        · intro e
          by_cases same : e = current <;>
            simp [Kernel.receiving, Kernel.blocked, Kernel.updateEnv,
              Kernel.setEnv, same]
      · cases yields
  | envDestroy f =>
      change (if kernel.cpus cpu = some f then _ else none) = _ at yields
      split at yields
      · rename_i own
        cases freed : Scheduler.envFree f kernel with
        | returns result state =>
            rw [freed] at yields
            cases yields
            have frees : Triple _ _ (fun _ kernel =>
                Kept False covered kernel ∧ (covered → kernel.YieldFits))
                (Kept False covered) :=
              triple_envFree_queues id covered f
            obtain ⟨keptFreed, fitsFreed⟩ :=
              frees.of_returns ⟨kept, fun wanted => fits wanted own⟩ freed
            refine ⟨kept_halt keptFreed cpu, fun wanted => ?_⟩
            exact (yieldFits_congr state _ rfl fun _ => rfl).mpr
              (fitsFreed wanted)
        | leaves state =>
            rw [freed] at yields
            cases yields
        | stops =>
            rw [freed] at yields
            cases yields
      · cases yields
  | envRun e => cases yields
  | envAlloc parentId => cases yields
  | envFree e => cases yields
  | exofork => cases yields
  | setStatus envid status => cases yields
  | ipcTrySend surroundings envid value srcva perm => cases yields
  | asignarPrioridad envid prioridad => cases yields

theorem ranked_of_yieldsIn {kernel entered : Kernel} {cpu : Nat} {op : SchedOp}
    (ranked : RankedAt e envId floor kernel)
    (yields : op.yieldsIn kernel cpu = some entered) :
    RankedAt e envId floor entered := by
  cases op with
  | yield =>
      cases yields
      exact ranked
  | ipcRecv dstva =>
      change (if UserPage dstva then _ else none) = _ at yields
      split at yields
      · obtain ⟨current, -, rfl⟩ := Option.map_eq_some_iff.mp yields
        have waiting : RankedAt e envId floor (kernel.updateEnv current
            fun env => { env with envIpcRecving := true }) :=
          @holds_updateEnv (Ledger.Ranked · e envId floor none) _ ranked
            current _ (fun _ => rfl) fun _ => rfl
        exact @holds_updateEnv (Ledger.Ranked · e envId floor none) _ waiting
          current _ (fun _ => rfl) fun _ => rfl
      · cases yields
  | envDestroy f =>
      change (if kernel.cpus cpu = some f then _ else none) = _ at yields
      split at yields
      · cases freed : Scheduler.envFree f kernel with
        | returns result state =>
            rw [freed] at yields
            cases yields
            have placed : Triple _ _ _ fun _ => True :=
              (frame_envFree_places f).triple
                (Ledger.Ranked · e envId floor none)
            have rankedFreed : RankedAt e envId floor state :=
              placed.of_returns ranked freed
            exact rankedFreed
        | leaves state =>
            rw [freed] at yields
            cases yields
        | stops =>
            rw [freed] at yields
            cases yields
      · cases yields
  | envRun e => cases yields
  | envAlloc parentId => cases yields
  | envFree e => cases yields
  | exofork => cases yields
  | setStatus envid status => cases yields
  | ipcTrySend surroundings envid value srcva perm => cases yields
  | asignarPrioridad envid prioridad => cases yields

/-- The part of `sched_yield` behind the promotion. -/
def trasPromocion (cpu : Nat) : KernelM Unit := do
  prioridadMlfq cpu
  schedHalt cpu

theorem schedYield_eq (cpu : Nat) (kernel : Kernel) :
    (schedYield .priorities cpu : KernelM Unit) kernel =
      (promoverSiCorresponde >>= fun _ => trasPromocion cpu)
        { kernel with runsDelSched := kernel.runsDelSched + 1 } := by
  unfold schedYield
  rw [modify_bind_run]
  change ((promoverSiCorresponde >>= fun _ => prioridadMlfq cpu) >>=
    fun _ => schedHalt cpu) _ = _
  rw [Entry.bind_assoc]
  rfl

theorem triple_trasPromocion (cpu : Nat) {returned : Unit → Kernel → Prop} :
    Triple
      (fun kernel => Kept False False kernel ∧ RankedAt e envId floor kernel)
      (trasPromocion cpu) returned (RankedAt e envId floor) :=
  (triple_prioridadMlfq_ranked cpu).bind fun _ =>
    triple_schedHalt_places (Ledger.Ranked · e envId floor none) cpu

/-- A call of `sched_yield` that promotes nothing. -/
theorem ranked_of_quiet {entered next : Kernel} {cpu : Nat}
    (kept : Kept False False entered) (ranked : RankedAt e envId floor entered)
    (quiet : floor ≤ 0 ∨ SchedOp.promotionIn entered = none)
    (ends : (schedYield .priorities cpu entered :
      Outcome Kernel Unit).finalState = some next) :
    RankedAt e envId floor next := by
  rw [schedYield_eq] at ends
  obtain ⟨counted, same⟩ : ∃ counted : Kernel, counted =
      { entered with runsDelSched := entered.runsDelSched + 1 } := ⟨_, rfl⟩
  have few : floor ≤ 0 ∨
      ¬ entered.mlfq.ejecucionesTotales ≥ maxEjecucionesMlfq := by
    refine quiet.imp_right fun none enough => ?_
    unfold SchedOp.promotionIn at none
    rw [if_pos enough, ← same] at none
    rw [← same, bind_run] at ends
    cases outcome : promoverSiCorresponde counted with
    | returns result middle =>
        rw [outcome] at none
        cases none
    | leaves final =>
        rw [outcome] at none
        cases none
    | stops =>
        rw [outcome] at ends
        cases ends
  have promoted := (triple_promoverSiCorresponde False False).and
    (triple_promoverSiCorresponde_ranked e envId floor)
  have yields : Triple _ _ (fun _ : Unit => RankedAt e envId floor)
      (RankedAt e envId floor) :=
    (promoted.weaken (fun _ => id)
      (fun _ _ holds => ⟨holds.1.1, holds.2⟩) fun _ holds => holds.2).bind
      fun _ => triple_trasPromocion cpu
  refine yields.final ?_ ends
  exact ⟨⟨kept, False.elim⟩, kept.sound.ordenada, ranked, few⟩

/-- A call of `sched_yield` that promotes `middle`. -/
theorem ends_of_promotionIn {entered middle next : Kernel} {cpu : Nat}
    (kept : Kept False False entered) (ranked : RankedAt e envId 0 entered)
    (promoted : SchedOp.promotionIn entered = some middle)
    (ends : (schedYield .priorities cpu entered :
      Outcome Kernel Unit).finalState = some next) :
    Kept False False middle ∧ middle.ledger.Homed none ∧
      (trasPromocion cpu middle).finalState = some next := by
  rw [schedYield_eq] at ends
  unfold SchedOp.promotionIn at promoted
  split at promoted
  · obtain ⟨counted, same⟩ : ∃ counted : Kernel, counted =
        { entered with runsDelSched := entered.runsDelSched + 1 } := ⟨_, rfl⟩
    rw [← same] at promoted ends
    have counts : Kept False False counted ∧ RankedAt e envId 0 counted := by
      rw [same]
      exact ⟨kept, ranked⟩
    cases outcome : promoverSiCorresponde counted with
    | returns result final =>
        rw [outcome] at promoted
        cases promoted
        rw [bind_run, outcome] at ends
        obtain ⟨keptMiddle, -⟩ :=
          (triple_promoverSiCorresponde False False).of_returns
            ⟨counts.1, False.elim⟩ outcome
        have homed : RankedAt e envId 0 middle :=
          (triple_promoverSiCorresponde_ranked e envId 0).of_returns
            ⟨counts.1.sound.ordenada, counts.2, .inl (Int.le_refl 0)⟩ outcome
        exact ⟨keptMiddle, (rankedAt_ledger.mp homed).homed, ends⟩
    | leaves final =>
        have framed :=
          (frame_promoverSiCorresponde blindToQueues_statuses).run counted
        rw [outcome] at framed
        exact framed.elim
    | stops =>
        rw [outcome] at promoted
        cases promoted
  · cases promoted

theorem triple_envDestroy_places (property : Ledger → Prop) (cpu f : Nat)
    {left : Kernel → Prop} :
    Triple (fun kernel => property kernel.places ∧ kernel.cpus cpu ≠ some f)
      (envDestroy .priorities cpu f) (fun _ kernel => property kernel.places)
      left := by
  unfold envDestroy
  refine .bind_read fun status => .bind_read fun curenv => ?_
  refine .ite (fun _ => ?_) fun _ => ?_
  · refine .modify ?_
    rintro kernel ⟨⟨⟨holds, -⟩, -⟩, -⟩
    exact holds_updateEnv holds f (fun _ => rfl) fun _ => rfl
  · by_cases own : curenv = some f
    · refine ⟨?_⟩
      rintro kernel ⟨⟨⟨-, other⟩, -⟩, isCurenv⟩
      exact absurd (isCurenv.trans own) other
    · rw [if_neg own]
      exact (((frame_envFree_places f).triple property).strengthen _
        fun _ holds => holds.1.1.1).bind fun _ => .pure fun _ holds => holds

/-- What one operation that does not call `sched_yield` preserves. -/
theorem ranked_of_unyielding {kernel next : Kernel} {cpu : Nat} {op : SchedOp}
    (kept : Kept False False kernel) (ranked : RankedAt e envId floor kernel)
    (unused : op.TakesUnusedSlot kernel)
    (fresh : floor ≤ 0 ∨ (kernel.envs e).envId = envId)
    (unyielding : op.yieldsIn kernel cpu = none)
    (ends : (op.entry cpu kernel).finalState = some next) :
    RankedAt e envId floor next := by
  have discard : ∀ {Result : Type} {before : Kernel → Prop}
      {entry : KernelM Result},
      Triple before entry (fun _ => RankedAt e envId floor)
        (RankedAt e envId floor) →
      Triple before (do let _ ← entry; pure ())
        (fun _ => RankedAt e envId floor) (RankedAt e envId floor) :=
    fun triple => triple.bind fun _ => .pure fun _ ranked => ranked
  cases op with
  | envRun f =>
      exact (triple_envRun_places (Ledger.Ranked · e envId floor none) cpu
        f).final ranked ends
  | envAlloc parentId =>
      exact (discard (triple_envAlloc_ranked cpu parentId)).final
        ⟨kept, ranked, unused, fresh⟩ ends
  | envFree f =>
      exact ((frame_envFree_places f).triple
        (Ledger.Ranked · e envId floor none)).final ranked ends
  | envDestroy f =>
      by_cases own : kernel.cpus cpu = some f
      · change (if kernel.cpus cpu = some f then _ else none) = _ at unyielding
        rw [if_pos own] at unyielding
        change (envDestroy .priorities cpu f kernel).finalState = _ at ends
        unfold envDestroy at ends
        rw [read_bind_run, read_bind_run, if_neg (by rw [own]; simp),
          bind_run] at ends
        have framed := (frame_envFree_places f).run kernel
        cases freed : Scheduler.envFree f kernel with
        | returns result state =>
            rw [freed] at unyielding
            cases unyielding
        | leaves state =>
            rw [freed] at framed
            exact framed.elim
        | stops =>
            rw [freed] at ends
            cases ends
      · exact (triple_envDestroy_places (Ledger.Ranked · e envId floor none)
          cpu f).final ⟨ranked, own⟩ ends
  | exofork =>
      exact (discard (triple_sysExofork_ranked cpu)).final
        ⟨kept, ranked, unused, fresh⟩ ends
  | setStatus envid status =>
      exact (discard ((frame_sysEnvSetStatus_places cpu envid status).triple
        (Ledger.Ranked · e envId floor none))).final ranked ends
  | ipcRecv dstva =>
      have receives : Triple
          (fun kernel => RankedAt e envId floor kernel ∧
            (SchedOp.ipcRecv dstva).yieldsIn kernel cpu = none)
          (sysIpcRecv .priorities cpu dstva) (fun _ => RankedAt e envId floor)
          (RankedAt e envId floor) := by
        refine (triple_theCurenv cpu).bind fun current => ?_
        by_cases user : UserPage dstva
        · refine ⟨?_⟩
          rintro kernel ⟨⟨-, unyielding⟩, isCurrent⟩
          change (if UserPage dstva then _ else none) = _ at unyielding
          rw [if_pos user, isCurrent] at unyielding
          cases unyielding
        · refine .bind_modify (RankedAt e envId floor) ?_ ?_
          · rintro kernel ⟨⟨ranked, -⟩, -⟩
            exact @holds_updateEnv (Ledger.Ranked · e envId floor none) _
              ranked current _ (fun _ => rfl) fun _ => rfl
          · rw [if_pos user]
            exact .pure fun _ ranked => ranked
      exact (discard receives).final ⟨ranked, unyielding⟩ ends
  | ipcTrySend surroundings envid value srcva perm =>
      exact (discard ((frame_sysIpcTrySend_places surroundings cpu envid value
        srcva perm).triple (Ledger.Ranked · e envId floor none))).final ranked
        ends
  | asignarPrioridad envid prioridad =>
      exact (discard (triple_sysEnvAsignarPrioridad_ranked cpu envid
        prioridad)).final ⟨kept, ranked⟩ ends
  | yield => cases unyielding

/-- What one operation preserves. -/
theorem ranked_of_step {kernel next : Kernel} {event : Nat × SchedOp}
    (kept : Kept False False kernel) (ranked : RankedAt e envId floor kernel)
    (unused : event.2.TakesUnusedSlot kernel)
    (fresh : floor ≤ 0 ∨ (kernel.envs e).envId = envId)
    (quiet : floor ≤ 0 ∨ event.2.promotion kernel event.1 = none)
    (step : schedMachine.Step kernel event next) :
    RankedAt e envId floor next := by
  obtain ⟨-, ends⟩ := step
  cases yields : event.2.yieldsIn kernel event.1 with
  | none => exact ranked_of_unyielding kept ranked unused fresh yields ends
  | some entered =>
      obtain ⟨keptEntered, -⟩ := kept_of_yieldsIn kept False.elim yields
      rw [entry_of_yieldsIn yields] at ends
      refine ranked_of_quiet keptEntered (ranked_of_yieldsIn ranked yields) ?_
        ends
      rwa [SchedOp.promotion, yields] at quiet

/-! ## Runs -/

/-- No step takes a slot for which a queue has an entry. -/
def TakesUnused (kernel : Kernel) (event : Nat × SchedOp) : Prop :=
  event.2.TakesUnusedSlot kernel

instance (kernel : Kernel) : Decidable kernel.OffersUnused :=
  decidable_of_iff
    (∀ q, ∀ i < (kernel.mlfq.colas q).ultimo.toInt.toNat,
      (kernel.mlfq.colas q).primero.toInt ≤ i →
      kernel.envFreeList ≠ some (envx (kernel.entrada q i))) <| by
    constructor
    · rintro unused q i ⟨above, below⟩
      exact unused q i (by omega) above
    · intro unused q i below above
      exact unused q i ⟨above, by omega⟩

instance (kernel : Kernel) : DecidablePred (SchedOp.TakesUnusedSlot kernel)
  | .envAlloc _ | .exofork =>
      inferInstanceAs (Decidable kernel.OffersUnused)
  | .envFree _ | .envDestroy _ | .envRun _ | .setStatus _ _ | .ipcRecv _
  | .ipcTrySend _ _ _ _ _ | .asignarPrioridad _ _ | .yield => .isTrue trivial

/-- The operation ends and takes no slot for which a queue has an entry. -/
def SchedOp.GoesUnused (kernel : Kernel) (event : Nat × SchedOp) : Prop :=
  SchedOp.Goes kernel event ∧ event.2.TakesUnusedSlot kernel

instance (kernel : Kernel) : DecidablePred (SchedOp.GoesUnused kernel) :=
  fun _ => inferInstanceAs (Decidable (_ ∧ _))

theorem kept_of_reachable {allowed : Kernel → Nat × SchedOp → Prop}
    {kernel : Kernel} (reachable : schedMachine.Reachable allowed kernel) :
    Kept False False kernel := by
  refine reachable.invariant ?_ ?_
  · rintro kernel ⟨mem, kernPgdir, pool, -, rfl⟩
    exact kept_initial mem kernPgdir
  · intro kernel event next kept _ step
    exact kept_of_step kept False.elim False.elim step

theorem homed_of_reachable {kernel : Kernel}
    (reachable : schedMachine.Reachable TakesUnused kernel) :
    kernel.ledger.Homed none := by
  have initially : ∀ kernel, schedMachine.Initial kernel →
      Kept False False kernel ∧ RankedAt 0 0 0 kernel := by
    rintro kernel ⟨mem, kernPgdir, pool, -, rfl⟩
    refine ⟨kept_initial mem kernPgdir, ?_⟩
    refine rankedAt_ledger.mpr ⟨⟨?_, ?_⟩, fun _ => Int.le_refl 0⟩
    · intro q entry member
      cases member
    · intro q
      exact List.nodup_nil
  have preserved : ∀ kernel event next,
      Kept False False kernel ∧ RankedAt 0 0 0 kernel →
      TakesUnused kernel event → schedMachine.Step kernel event next →
      Kept False False next ∧ RankedAt 0 0 0 next := by
    rintro kernel event next ⟨kept, ranked⟩ unused step
    have low : (0 : Int) ≤ 0 := Int.le_refl 0
    exact ⟨kept_of_step kept False.elim False.elim step,
      ranked_of_step kept ranked unused (.inl low) (.inl low) step⟩
  have ranked := reachable.invariant initially preserved
  exact (rankedAt_ledger.mp ranked.2).homed

/-- An environment that keeps its identifier does not move to an earlier queue
before the next promotion. -/
theorem colaActual_le_of_unpromoted {first last : Kernel}
    (unpromoted : Unpromoted TakesUnused e envId first last) :
    (first.envs e).colaActual ≤ (last.envs e).colaActual := by
  have holds : Kept False False last ∧
      RankedAt e envId (first.envs e).colaActual last ∧
      (last.envs e).envId = envId := by
    induction unpromoted with
    | @start kernel reachable given =>
        refine ⟨kept_of_reachable reachable, ?_, given⟩
        exact rankedAt_ledger.mpr
          ⟨homed_of_reachable reachable, fun _ => Int.le_refl _⟩
    | @promoted kernel middle next event reachable unused step promotes _ given =>
        have kept := kept_of_reachable reachable
        have ranked : RankedAt e envId 0 kernel := by
          refine rankedAt_ledger.mpr ⟨homed_of_reachable reachable, fun _ => ?_⟩
          obtain ⟨q, home⟩ := kept.sound.colaActual e
          omega
        obtain ⟨entered, yields, promoted⟩ := Option.bind_eq_some_iff.mp promotes
        obtain ⟨keptEntered, -⟩ := kept_of_yieldsIn kept False.elim yields
        have rankedEntered := ranked_of_yieldsIn ranked yields
        have ends := step.2
        rw [entry_of_yieldsIn yields] at ends
        obtain ⟨keptMiddle, homed, rest⟩ :=
          ends_of_promotionIn keptEntered rankedEntered promoted ends
        have yields : Triple _ (trasPromocion event.1)
            (fun _ => RankedAt e envId (middle.envs e).colaActual)
            (RankedAt e envId (middle.envs e).colaActual) :=
          triple_trasPromocion event.1
        refine ⟨kept_of_step kept False.elim False.elim step, ?_, given⟩
        refine yields.final ⟨keptMiddle, ?_⟩ rest
        exact rankedAt_ledger.mpr ⟨homed, fun _ => Int.le_refl _⟩
    | @step first kernel next event _ unused step quiet given induction =>
        obtain ⟨kept, ranked, before⟩ := induction
        exact ⟨kept_of_step kept False.elim False.elim step,
          ranked_of_step kept ranked unused (.inr before) (.inr quiet) step,
          given⟩
  exact (rankedAt_ledger.mp holds.2.1).above holds.2.2

/-- A parent has destroyed its child, whose entry stays in its queue. -/
def orphaned : List (Nat × SchedOp) :=
  [(0, .envAlloc 0), (0, .yield), (0, .exofork), (0, .envDestroy 1)]

theorem colaActual_le_after_destroy :
    let first := orphaned.foldl SchedOp.after noEnv
    (first.envs 0).colaActual ≤
      ((SchedOp.after first (0, .yield)).envs 0).colaActual :=
  have along : Machine.Along SchedOp.GoesUnused SchedOp.after noEnv
      orphaned := by
    decide +kernel
  have reachable : schedMachine.Reachable TakesUnused
      (orphaned.foldl SchedOp.after noEnv) :=
    reachable_of_ops (fun _ _ checked => checked.1)
      (fun _ _ checked => checked.2) along
  have goes : SchedOp.GoesUnused (orphaned.foldl SchedOp.after noEnv)
      (0, .yield) := by
    decide +kernel
  have given : ((orphaned.foldl SchedOp.after noEnv).envs 0).envId = 4096 := by
    decide +kernel
  colaActual_le_of_unpromoted ((Unpromoted.start reachable given).step goes.2
    goes.1.step (by decide +kernel) (by decide +kernel))

/-- A parent of the last queue has destroyed a child of the second one and
created another child in its slot. -/
def adopted : List (Nat × SchedOp) :=
  [(0, .envAlloc 0), (0, .yield), (0, .exofork), (0, .asignarPrioridad 4096 3),
    (0, .envDestroy 1), (0, .exofork), (0, .setStatus 8193 2)]

/-- The new child is dispatched through the entry of the old one and moves from
the last queue to the third. -/
theorem not_colaActual_le_after_reuse :
    ¬ ∀ e envId first last,
      Unpromoted Machine.Unrestricted e envId first last →
      (first.envs e).colaActual ≤ (last.envs e).colaActual := by
  intro monotone
  have along : Machine.Along SchedOp.Goes SchedOp.after noEnv adopted := by
    decide +kernel
  have reachable : schedMachine.Reachable Machine.Unrestricted
      (adopted.foldl SchedOp.after noEnv) :=
    reachable_of_ops (fun _ _ goes => goes) (fun _ _ _ => trivial) along
  have goes : SchedOp.Goes (adopted.foldl SchedOp.after noEnv) (0, .yield) := by
    decide +kernel
  have given : ((adopted.foldl SchedOp.after noEnv).envs 1).envId = 8193 := by
    decide +kernel
  have falls := monotone 1 8193 _ _ ((Unpromoted.start reachable given).step
    trivial goes.step (by decide +kernel) (by decide +kernel))
  revert falls
  decide +kernel

end FeaturesOS.Scheduler

import FeaturesOS.Scheduler.Selection

/-!
# Runs of the queues

Environments are created, change their status and are dispatched, in any order
and on any processor.  None is freed and no priority is assigned.
-/

namespace FeaturesOS.Scheduler

open Entry

/-- What happens in a run: `env_alloc`, `sched_yield`, and a write of
`env_status` by whichever function. -/
inductive ColaEvent where
  | alloc (cpu : Nat) (parentId : UInt32)
  | yield (cpu : Nat)
  | status (e : Nat) (value : EnvStatus)

namespace ColaEvent

def entry : ColaEvent → KernelM Unit
  | alloc cpu parentId => do
      let _ ← envAlloc cpu parentId
      pure ()
  | yield cpu => schedYield .priorities cpu
  | status e value => Entry.modify fun kernel =>
      kernel.updateEnv e fun env => { env with envStatus := value }

/-- Only a living environment changes its status, and it stays alive. -/
def Possible (kernel : Kernel) : ColaEvent → Prop
  | status e value => (kernel.envs e).envStatus ≠ .free ∧ value ≠ .free
  | _ => True

/-- What the event appends to a queue finds room there. -/
def Fits (kernel : Kernel) : ColaEvent → Prop
  | alloc cpu parentId => kernel.AllocFits cpu parentId
  | yield _ => kernel.YieldFits
  | status _ _ => True

end ColaEvent

def colaMachine : Machine Kernel ColaEvent where
  Initial := schedMachine.Initial
  Step kernel event next :=
    event.Possible kernel ∧ (event.entry kernel).finalState = some next

variable {covered : Prop}

theorem kept_of_colaStep {kernel next : Kernel} {event : ColaEvent}
    (kept : Kept True covered kernel) (fits : covered → event.Fits kernel)
    (step : colaMachine.Step kernel event next) : Kept True covered next := by
  obtain ⟨possible, ends⟩ := step
  cases event with
  | alloc cpu parentId =>
      exact (triple_schedOp cpu (.envAlloc parentId)).final
        ⟨kept, trivial, fun _ => trivial, fits⟩ ends
  | yield cpu =>
      exact (triple_schedOp cpu .yield).final
        ⟨kept, trivial, fun _ => trivial, fits⟩ ends
  | status e value =>
      cases ends
      exact kept_updateEnv (Usable.of_live kept possible.1) possible.2
        (fun _ => rfl) (fun _ => rfl) (fun _ => rfl) fun _ => rfl

theorem kept_of_colaReachable {allowed : Kernel → ColaEvent → Prop}
    (fits : covered → ∀ kernel event, allowed kernel event →
      event.Fits kernel) {kernel : Kernel}
    (reachable : colaMachine.Reachable allowed kernel) :
    Kept True covered kernel := by
  have initially : ∀ kernel, colaMachine.Initial kernel →
      Kept True covered kernel := by
    rintro kernel ⟨mem, kernPgdir, pool, -, rfl⟩
    exact kept_initial mem kernPgdir
  exact reachable.invariant initially fun kernel event _ kept permitted step =>
    kept_of_colaStep kept (fun wanted => fits wanted kernel event permitted) step

/-- What `env_alloc` does to the queues. -/
def Kernel.Entered (kernel : Kernel) (result : Except Int Nat)
    (next : Kernel) : Prop :=
  match result with
  | .error _ => next.mlfq.colas = kernel.mlfq.colas
  | .ok e => ∃ q : Fin 4, (next.envs e).colaActual = q.val ∧
      next.mlfq.colas = Function.update kernel.mlfq.colas q
        ((kernel.mlfq.colas q).agregar (next.envs e).envId)

theorem triple_envAlloc_entered (cpu : Nat) (parentId : UInt32)
    (before : Kernel) :
    Triple
      (fun kernel => Kept False False kernel ∧
        kernel.mlfq.colas = before.mlfq.colas)
      (envAlloc cpu parentId) before.Entered (fun _ => False) := by
  unfold envAlloc
  refine .bind_read fun head => ?_
  cases head with
  | none => exact .pure fun _ holds => holds.1.2
  | some f =>
      by_cases below : f < nenv
      · refine .strengthen (fun kernel : Kernel =>
          (∀ e, ∃ q : Fin 4, kernel.places.colaActual e = q.val) ∧
            kernel.places.colas = before.mlfq.colas) ?_
          (((frame_envSetupVm_places f).triple fun ledger =>
            (∀ e, ∃ q : Fin 4, ledger.colaActual e = q.val) ∧
              ledger.colas = before.mlfq.colas).bind fun r => ?_)
        · rintro kernel ⟨⟨kept, same⟩, -⟩
          exact ⟨kept.sound.colaActual, same⟩
        refine .ite (fun _ => .pure fun _ holds => holds.2) fun _ => ?_
        refine .bind_modify (fun kernel : Kernel =>
          (∀ e, ∃ q : Fin 4, (kernel.envs e).colaActual = q.val) ∧
            kernel.mlfq.colas = before.mlfq.colas ∧
            envx (kernel.envs f).envId = f) ?_ ?_
        · rintro kernel ⟨range, same⟩
          refine ⟨fun e => ?_, same, ?_⟩
          · have same : ((commitEnv parentId f kernel).envs e).colaActual =
                (kernel.envs e).colaActual := by
              by_cases here : e = f <;>
                simp [commitEnv, Kernel.updateEnv, Kernel.setEnv, here]
            rw [same]
            exact range e
          · rw [(commitEnv_envs parentId f kernel).1]
            exact envx_newId _ below
        · refine .bind_read fun cola => .bind_read fun newId => ?_
          by_cases range : ∃ q : Fin 4, cola = q.val
          · obtain ⟨q, rfl⟩ := range
            refine .strengthen _ ?_
              ((triple_schedAgregarEnv (fun ledger =>
                ledger.envId f = newId ∧ ledger.colaActual f = q.val ∧
                  ledger.colas = Function.update before.mlfq.colas q
                    ((before.mlfq.colas q).agregar newId)) newId q).bind
                fun _ => .pure ?_)
            · rintro kernel ⟨⟨⟨-, same, slot⟩, -⟩, rfl⟩
              refine ⟨rfl, ?_, ?_⟩
              · rw [Ledger.agregar_colaActual, slot, if_pos rfl]
              · change Function.update kernel.mlfq.colas q
                  ((kernel.mlfq.colas q).agregar _) = _
                rw [same]
            · rintro kernel ⟨rfl, home, entered⟩
              exact ⟨q, home, entered⟩
          · refine ⟨?_⟩
            rintro kernel ⟨⟨⟨ranges, -⟩, isCola⟩, -⟩
            refine absurd ?_ range
            rw [← isCola]
            exact colaPadre_range ranges cpu parentId
      · refine ⟨?_⟩
        rintro kernel ⟨⟨kept, -⟩, head⟩
        exact absurd (kept.sound.freeHead f head) below

theorem entered_of_alloc {kernel next : Kernel} {cpu : Nat}
    {parentId : UInt32} (kept : Kept True covered kernel)
    (ends : ((ColaEvent.alloc cpu parentId).entry kernel).finalState =
      some next) :
    ∃ result, envAlloc cpu parentId kernel = .returns result next ∧
      kernel.Entered result next := by
  have sound : Kept False False kernel := ⟨kept.sound, False.elim, False.elim⟩
  have entered := (triple_envAlloc_entered cpu parentId kernel).run kernel
    ⟨sound, rfl⟩
  change ((envAlloc cpu parentId >>= fun _ => pure ()) kernel).finalState = _
    at ends
  rw [bind_run] at ends
  cases outcome : envAlloc cpu parentId kernel with
  | returns result final =>
      rw [outcome] at entered ends
      cases ends
      exact ⟨result, rfl, entered⟩
  | leaves final =>
      rw [outcome] at entered
      exact entered.elim
  | stops =>
      rw [outcome] at ends
      cases ends

/-! ## Runs on concrete inputs -/

instance (kernel : Kernel) : DecidablePred (ColaEvent.Possible kernel)
  | .status _ _ => inferInstanceAs (Decidable (_ ∧ _))
  | .alloc _ _ | .yield _ => .isTrue trivial

/-- The state after an event that ends. -/
def ColaEvent.after (kernel : Kernel) (event : ColaEvent) : Kernel :=
  (event.entry kernel).finalState.getD kernel

/-- The event is possible and ends. -/
def ColaEvent.Goes (kernel : Kernel) (event : ColaEvent) : Prop :=
  event.Possible kernel ∧ (event.entry kernel).finalState.isSome = true

instance (kernel : Kernel) : DecidablePred (ColaEvent.Goes kernel) :=
  fun _ => inferInstanceAs (Decidable (_ ∧ _))

theorem ColaEvent.Goes.step {kernel : Kernel} {event : ColaEvent}
    (goes : ColaEvent.Goes kernel event) :
    colaMachine.Step kernel event (ColaEvent.after kernel event) := by
  refine ⟨goes.1, ?_⟩
  unfold ColaEvent.after
  obtain ⟨next, ends⟩ := Option.isSome_iff_exists.mp goes.2
  rw [ends, Option.getD_some]

theorem reachable_of_events {events : List ColaEvent}
    (along : Machine.Along ColaEvent.Goes ColaEvent.after noEnv events) :
    colaMachine.Reachable Machine.Unrestricted
      (events.foldl ColaEvent.after noEnv) := by
  have run : colaMachine.Run Machine.Unrestricted noEnv (events.map id)
      (events.foldl ColaEvent.after noEnv) :=
    Machine.run_of_along (fun _ _ goes => goes.step) (fun _ _ _ => trivial)
      along
  exact ⟨noEnv, _,
    ⟨_, _, _, PhysMem.booted_plain (by decide) (by decide), rfl⟩, run⟩

end FeaturesOS.Scheduler

import FeaturesOS.Scheduler.AccountRuns
import FeaturesOS.Scheduler.ForkSteps

/-!
# The address space of a new environment

`sys_exofork` makes an environment that maps no page, and what the others map
stays.
-/

namespace FeaturesOS.Scheduler

open Entry

/-- The environment `e` has got a directory, without a page of the user. -/
structure Spaces.Spawns (spaces next : Spaces) (e : Nat) : Prop where
  below : e < nenv
  noDir : spaces.dirs e = none
  words : next.words = spaces.words
  dirs : ∀ f, f ≠ e → next.dirs f = spaces.dirs f
  upper : ∀ (f : Fin nenv) d i, spaces.dirs f = some d → userTables ≤ i →
    next.mem.ram d i = spaces.mem.ram d i

variable {pool : List Nat} {kernel next : Kernel} {cpu e : Nat} {r : Int}
variable {parentId : UInt32} {left : Kernel → Prop}

theorem SoundAt.triple_envSetupVm_spawns (sound : SoundAt pool kernel)
    (head : kernel.envFreeList = some e) :
    Triple (· = kernel) (envSetupVm e)
      (fun r next => r < 0 ∨ kernel.spaces.Spawns next.spaces e) left := by
  constructor
  intro state isKernel
  rw [isKernel]
  unfold envSetupVm
  cases taken : kernel.mem.pageAlloc true with
  | mk allocated found =>
      cases found with
      | none => exact .inl (by decide)
      | some d =>
          right
          obtain ⟨free, accounted⟩ := sound.accounted
          obtain ⟨nodes, linked, _, unused⟩ := sound.unused
          have head' : kernel.spaces.freeList = some e := head
          rw [head'] at linked
          obtain ⟨rest, isNodes, _⟩ := linked.of_some
          subst isNodes
          obtain ⟨below, noDir⟩ := unused e List.mem_cons_self
          obtain ⟨free', founded⟩ := @PhysMem.Accounted.addDirectory _ _ _ _ _
            ⟨e, below⟩ _ accounted noDir _ sound.kernelDir sound.unmapped taken
          rw [spaces_updateEnv_eq]
          refine ⟨below, noDir, founded.word, fun f other => ?_,
            founded.outside.upper⟩
          exact Function.update_of_ne other _ _

theorem Spaces.Spawns.commit (spawns : kernel.spaces.Spawns next.spaces e)
    (parentId : UInt32) :
    kernel.spaces.Spawns (commitEnv parentId e next).spaces e := by
  have same : (commitEnv parentId e next).spaces =
      { next.spaces with freeList := next.spaces.links e } := by
    change ({ Kernel.spaces (next.updateEnv e _) with
      freeList := next.spaces.links e } : Spaces) = _
    rw [spaces_updateEnv_eq]
    change ({ next.spaces.setEnv e (next.spaces.dirs e) (next.spaces.links e)
        (next.spaces.targets e) with
      freeList := next.spaces.links e } : Spaces) = _
    rw [Spaces.setEnv_self]
  rw [same]
  exact ⟨spawns.below, spawns.noDir, spawns.words, spawns.dirs, spawns.upper⟩

theorem SoundAt.triple_envAlloc_spawns (sound : SoundAt pool kernel) :
    Triple (· = kernel) (envAlloc cpu parentId)
      (fun result next =>
        match result with
        | .error r => r < 0
        | .ok e => kernel.spaces.Spawns next.spaces e) left := by
  unfold envAlloc
  refine .at_read ?_
  cases head : kernel.envFreeList with
  | none =>
      have negative : -eNoFreeEnv < 0 := by decide
      exact .pure fun _ _ => negative
  | some e =>
      refine (sound.triple_envSetupVm_spawns head).bind fun r =>
        .ite (fun failed => .pure fun _ _ => failed) fun done => ?_
      refine .bind_modify (fun next => kernel.spaces.Spawns next.spaces e)
        (fun next holds => (holds.resolve_left done).commit parentId) ?_
      refine .bind_read fun cola => .bind_read fun envId => ?_
      refine .strengthen (fun next => kernel.spaces.Spawns next.spaces e)
        (fun _ holds => holds.1.1) ?_
      refine ((frame_schedAgregarEnv blindToQueues_spaces envId cola).triple
        fun spaces => kernel.spaces.Spawns spaces e).bind fun _ => ?_
      exact .pure fun _ spawns => spawns

theorem toUInt32_ofInt (envId : UInt32) :
    (Int32.ofInt envId.toInt32.toInt).toUInt32 = envId := by
  rw [Int32.ofInt_toInt]
  rfl

/-- The identifier names the environment. -/
def Names (envid : UInt32) (e : Nat) : Prop := envid ≠ 0 ∧ envx envid = e

/-- `sys_exofork` returns an error, or the identifier of a new environment. -/
theorem SoundAt.triple_sysExofork_spawns (sound : SoundAt pool kernel) :
    Triple (· = kernel) (sysExofork cpu)
      (fun r next => r < 0 ∨ ∃ e, kernel.spaces.Spawns next.spaces e ∧
        Names (Int32.ofInt r).toUInt32 e) (fun _ => False) := by
  unfold sysExofork
  refine (triple_theCurenv cpu).bind fun current =>
    .bind_read fun parentId => ?_
  refine .strengthen (fun next => next = kernel ∧ next.idView = kernel.idView)
    ?_ ((sound.triple_envAlloc_spawns.and
      (triple_envAlloc_ids kernel.idView cpu parentId)).weaken (fun _ => id)
        (fun _ _ => id) (fun _ both => both.1) |>.bind fun result => ?_)
  · rintro _ ⟨⟨rfl, _⟩, _⟩
    exact ⟨rfl, rfl⟩
  · cases result with
    | error r => exact .pure fun _ holds => .inl holds.1
    | ok newenv =>
        refine .bind_read fun tf => ?_
        refine .bind_modify (fun next =>
          kernel.spaces.Spawns next.spaces newenv ∧
            Names (next.envs newenv).envId newenv) ?_ (.read ?_)
        · rintro next ⟨⟨spawns, _, ids⟩, _⟩
          have same := @spaces_updateEnv next newenv (fun env =>
            { env with envStatus := .notRunnable, envTf := tf.setEax 0 })
            (fun _ => rfl) (fun _ => rfl) fun _ => rfl
          rw [same, envs_updateEnv_self]
          refine ⟨spawns, ?_⟩
          have isId : (next.envs newenv).envId =
              Function.update kernel.idView.envId newenv
                (nextGeneration (kernel.envs newenv).envId |||
                  UInt32.ofNat newenv) newenv :=
            congrFun (congrArg IdView.envId ids) newenv
          rw [Function.update_self] at isId
          change Names (next.envs newenv).envId newenv
          rw [isId]
          exact ⟨newId_ne_zero _, envx_newId _ spawns.below⟩
        · rintro next ⟨spawns, names⟩
          rw [toUInt32_ofInt]
          exact .inr ⟨newenv, spawns, names⟩

end FeaturesOS.Scheduler

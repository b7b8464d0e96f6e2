import Mathlib.Data.Nat.Find
import Mathlib.Logic.Function.Iterate
import Opd.Lib.Dict

/-!
# The checkpoints of the fully asynchronous trainer

`FullyAsyncTrainer.fit` makes one training step for every batch of the queue. The local trigger
step counts the steps since the last synchronisation, the parameter version counts the
synchronisations, and a checkpoint is written at most once for each version.

* `fitLoop_eq`: the loop makes as many steps as there are full batches.
* `After`: the counters, the weights and the folders after `k` steps.
* `checkpoint_iff`: the checkpoints are right exactly when no checkpoint is written between
  two synchronisations with trained weights, and the last step writes one.
-/

namespace Opd.Verl.FullyAsyncTrainer

open Lib

/-! ## The trainer -/

structure Config where
  triggerParameterSyncStep : ℤ
  saveFreq : ℤ
  testFreq : ℤ
  criticWarmup : ℤ
  requiredSamples : ℕ
  useCritic : Bool

/-- Weights, by the training steps of this run that have updated them. -/
abbrev Weights := List ℤ

/-- The folder of a checkpoint: `actor`, and `critic` if there is one. -/
structure Checkpoint where
  actor : Weights
  critic : Option Weights
  deriving DecidableEq

/-- The fields of the trainer, the weights of its workers and of the rollouter by version, the
checkpoint folders, and `latest_checkpointed_iteration.txt`. -/
structure Trainer where
  globalSteps : ℤ
  localTriggerStep : ℕ
  currentParamVersion : ℕ
  lastCkptVersion : ℕ
  actor : Weights
  critic : Weights
  synced : Dict ℕ Weights
  validated : List ℕ
  folders : Dict ℕ Checkpoint
  tracker : Option ℕ

/-- `_get_samples_from_queue`: the batch and the rest of the queue, `none` when the end signal
comes first. -/
def getSamplesFromQueue {α : Type} (requiredSamples : ℕ) (queue : List α) : Option (List α × List α) :=
  let queueSamples := queue.take requiredSamples
  if queueSamples = [] ∨ queueSamples.length < requiredSamples then none
  else some (queueSamples, queue.drop requiredSamples)

/-- `_fit_update_critic` -/
def fitUpdateCritic (cfg : Config) (s : Trainer) : Trainer :=
  if cfg.useCritic then { s with critic := s.critic ++ [s.globalSteps] } else s

/-- `_fit_update_actor`: not before the critic is warm. -/
def fitUpdateActor (cfg : Config) (s : Trainer) : Trainer :=
  if cfg.criticWarmup ≤ s.globalSteps then { s with actor := s.actor ++ [s.globalSteps] } else s

/-- `_fit_update_local_step` -/
def fitUpdateLocalStep (cfg : Config) (s : Trainer) : Trainer :=
  if (s.localTriggerStep : ℤ) < cfg.triggerParameterSyncStep then
    { s with localTriggerStep := s.localTriggerStep + 1 }
  else { s with currentParamVersion := s.currentParamVersion + 1, localTriggerStep := 1 }

/-- `_fit_update_weights` -/
def fitUpdateWeights (s : Trainer) : Trainer :=
  if s.localTriggerStep ≠ 1 then s
  else { s with synced := s.synced.update s.currentParamVersion fun _ => s.actor }

/-- `_fit_validate` -/
def fitValidate (cfg : Config) (s : Trainer) : Trainer :=
  if s.localTriggerStep ≠ 1 then s
  else if 0 < cfg.testFreq ∧ (s.currentParamVersion : ℤ) % cfg.testFreq = 0 ∧ 0 < s.currentParamVersion then
    { s with validated := s.validated ++ [s.currentParamVersion] }
  else s

/-- `_save_checkpoint` -/
def saveCheckpoint (cfg : Config) (s : Trainer) : Trainer :=
  { s with
    folders := s.folders.update s.currentParamVersion fun _ =>
      ⟨s.actor, if cfg.useCritic then some s.critic else none⟩
    tracker := some s.currentParamVersion }

/-- `_fit_save_checkpoint`; `esi` is `should_save_ckpt_esi` at a training step. -/
def fitSaveCheckpoint (cfg : Config) (esi : ℤ → Bool) (force : Bool) (s : Trainer) : Trainer :=
  if s.currentParamVersion = s.lastCkptVersion then s
  else if 0 < cfg.saveFreq ∧
      (force = true ∨ (s.currentParamVersion : ℤ) % cfg.saveFreq = 0 ∨ esi s.globalSteps = true) then
    { saveCheckpoint cfg s with lastCkptVersion := s.currentParamVersion }
  else s

/-- `_fit_postprocess_step` -/
def fitPostprocessStep (s : Trainer) : Trainer := { s with globalSteps := s.globalSteps + 1 }

/-- `fit_step` with a batch. -/
def fitStep (cfg : Config) (esi : ℤ → Bool) (s : Trainer) : Trainer :=
  let s := fitUpdateWeights (fitUpdateLocalStep cfg (fitUpdateActor cfg (fitUpdateCritic cfg s)))
  fitPostprocessStep (fitSaveCheckpoint cfg esi false (fitValidate cfg s))

theorem getSamplesFromQueue_eq {α : Type} (requiredSamples : ℕ) (queue : List α) :
    getSamplesFromQueue requiredSamples queue =
      if 0 < requiredSamples ∧ requiredSamples ≤ queue.length then
        some (queue.take requiredSamples, queue.drop requiredSamples)
      else none := by
  unfold getSamplesFromQueue
  simp only [List.take_eq_nil_iff, List.length_take, ← List.length_eq_zero_iff (l := queue)]
  by_cases henough : 0 < requiredSamples ∧ requiredSamples ≤ queue.length
  · rw [if_pos henough, if_neg (by omega)]
  · rw [if_neg henough, if_pos (by omega)]

theorem length_of_getSamplesFromQueue {α : Type} {requiredSamples : ℕ} {queue : List α}
    {out : List α × List α} (h : getSamplesFromQueue requiredSamples queue = some out) :
    0 < requiredSamples ∧ requiredSamples ≤ queue.length ∧ out.2.length = queue.length - requiredSamples := by
  rw [getSamplesFromQueue_eq] at h
  split at h
  · rename_i henough
    rw [← Option.some.inj h, List.length_drop]
    exact ⟨henough.1, henough.2, rfl⟩
  · cases h

/-- The loop of `fit`, up to the `TrainingStopException`. -/
def fitLoop {α : Type} (cfg : Config) (esi : ℤ → Bool) (s : Trainer) (queue : List α) : Trainer :=
  match _h : getSamplesFromQueue cfg.requiredSamples queue with
  | none => s
  | some (_, rest) => fitLoop cfg esi (fitStep cfg esi s) rest
termination_by queue.length
decreasing_by
  have hlength := length_of_getSamplesFromQueue _h
  simp only at hlength
  omega

/-- `fit`: `none` for the `ZeroDivisionError` of a modulus. -/
def fit {α : Type} (cfg : Config) (esi : ℤ → Bool) (s : Trainer) (queue : List α) : Option Trainer :=
  let s := fitLoop cfg esi { s with globalSteps := s.globalSteps + 1 } queue
  if cfg.testFreq = 0 then none
  else
    let s := if (s.currentParamVersion : ℤ) % cfg.testFreq ≠ 0 ∨ 1 < s.localTriggerStep then
      fitValidate cfg (fitUpdateWeights s) else s
    some (fitSaveCheckpoint cfg esi true s)

/-- The trainer before `fit`: `load_checkpoint` has found the folder of a version or none, and the
rollouter has got the weights. -/
def start (cfg : Config) (resumed : Option ℕ) : Trainer where
  globalSteps := match resumed with
    | none => 0
    | some version => version * cfg.triggerParameterSyncStep + 1
  localTriggerStep := 1
  currentParamVersion := resumed.getD 0
  lastCkptVersion := resumed.getD 0
  actor := []
  critic := []
  synced := Dict.empty.update (resumed.getD 0) fun _ => []
  validated := []
  folders := match resumed with
    | none => .empty
    | some version => Dict.empty.update version fun _ => ⟨[], if cfg.useCritic then some [] else none⟩
  tracker := resumed

/-! ## The property -/

/-- **The last training step is saved**: the tracker file names a checkpoint with the weights after
the last optimizer step, if there was one. -/
def LastStepSaved (cfg : Config) (s : Trainer) : Prop :=
  s.actor ≠ [] ∨ s.critic ≠ [] → ∃ version ckpt, s.tracker = some version ∧ s.folders.get? version = some ckpt ∧
    ckpt.actor = s.actor ∧ (cfg.useCritic = true → ckpt.critic = some s.critic)

/-- **The folders are synchronised**: a folder holds the weights that the rollouter got as its
version. -/
def FoldersSynced (s : Trainer) : Prop :=
  ∀ version ckpt, s.folders.get? version = some ckpt → s.synced.get? version = some ckpt.actor

section Steps

variable (cfg : Config) (esi : ℤ → Bool) (resumed : Option ℕ)

/-- The number of training steps from one synchronisation to the next. -/
def period : ℕ := max 1 cfg.triggerParameterSyncStep.toNat

/-- The version after step `j`. -/
def versionAt (j : ℕ) : ℕ := resumed.getD 0 + j / period cfg

/-- `global_steps` in step `j`, counted from 1. -/
def globalStep (j : ℕ) : ℤ := (start cfg resumed).globalSteps + j

/-- The actor is not trained in step `j` nor before. -/
def Frozen (j : ℕ) : Prop := globalStep cfg resumed j < cfg.criticWarmup

/-- A condition for a checkpoint is met after step `j`. -/
def Due (j : ℕ) : Prop := (versionAt cfg resumed j : ℤ) % cfg.saveFreq = 0 ∨ esi (globalStep cfg resumed j) = true

/-- A checkpoint of the version of step `j` was due before. -/
def DueBefore (j : ℕ) : Prop := ∃ i, j - j % period cfg ≤ i ∧ i < j ∧ Due cfg esi resumed i

/-- **Step `j` writes a checkpoint** in a run of `n` steps: a new version, not written before,
that is due or the last. -/
def Saves (n j : ℕ) : Prop :=
  period cfg ≤ j ∧ ¬ DueBefore cfg esi resumed j ∧ (Due cfg esi resumed j ∨ j = n)

end Steps

/-! ## The loop -/

/-- **The loop makes one step for every full batch**. -/
theorem fitLoop_eq {α : Type} (cfg : Config) (esi : ℤ → Bool) (s : Trainer) (queue : List α) :
    fitLoop cfg esi s queue = (fitStep cfg esi)^[queue.length / cfg.requiredSamples] s := by
  fun_induction fitLoop cfg esi s queue with
  | case1 s queue h =>
    have hshort : queue.length / cfg.requiredSamples = 0 := by
      rw [getSamplesFromQueue_eq] at h
      split at h
      · cases h
      · rw [Nat.div_eq_zero_iff]
        omega
    rw [hshort]
    rfl
  | case2 s queue samples rest h ih =>
    obtain ⟨hpos, hle, hrest⟩ := length_of_getSamplesFromQueue h
    rw [ih, Nat.div_eq_sub_div hpos hle, ← hrest]
    exact (Function.iterate_succ_apply _ _ _).symm

section Weights

variable (cfg : Config) (resumed : Option ℕ)

/-- The weights of the actor after `k` steps. -/
def actorAt : ℕ → Weights
  | 0 => []
  | k + 1 => if cfg.criticWarmup ≤ globalStep cfg resumed (k + 1) then actorAt k ++ [globalStep cfg resumed (k + 1)]
    else actorAt k

/-- The weights of the critic after `k` steps. -/
def criticAt : ℕ → Weights
  | 0 => []
  | k + 1 => if cfg.useCritic then criticAt k ++ [globalStep cfg resumed (k + 1)] else criticAt k

/-- A checkpoint after `k` steps. -/
def ckptAt (k : ℕ) : Checkpoint := ⟨actorAt cfg resumed k, if cfg.useCritic then some (criticAt cfg resumed k) else none⟩

variable {cfg resumed} {j k : ℕ}

theorem period_pos (cfg : Config) : 0 < period cfg := by
  unfold period
  omega

theorem Frozen.mono (h : Frozen cfg resumed k) (hle : j ≤ k) : Frozen cfg resumed j := by
  unfold Frozen globalStep at *
  omega

theorem globalStep_injective (h : globalStep cfg resumed j = globalStep cfg resumed k) : j = k := by
  unfold globalStep at h
  omega

theorem mem_actorAt {step : ℤ} (h : step ∈ actorAt cfg resumed k) : ∃ i ≤ k, step = globalStep cfg resumed i := by
  induction k with
  | zero => cases h
  | succ k ih =>
    have hold : step ∈ actorAt cfg resumed k → ∃ i ≤ k + 1, step = globalStep cfg resumed i := by
      intro hmem
      obtain ⟨i, hi, hstep⟩ := ih hmem
      exact ⟨i, by omega, hstep⟩
    unfold actorAt at h
    split at h
    · rcases List.mem_append.1 h with hmem | hnew
      · exact hold hmem
      · exact ⟨k + 1, le_rfl, List.mem_singleton.1 hnew⟩
    · exact hold h

theorem actorAt_of_frozen (h : Frozen cfg resumed k) : actorAt cfg resumed k = [] := by
  induction k with
  | zero => rfl
  | succ k ih =>
    unfold actorAt
    rw [if_neg (by unfold Frozen at h; omega)]
    exact ih (h.mono (by omega))

theorem actorAt_ne (hlt : j < k) (h : ¬ Frozen cfg resumed k) : actorAt cfg resumed j ≠ actorAt cfg resumed k := by
  intro heq
  have hmem : globalStep cfg resumed k ∈ actorAt cfg resumed k := by
    obtain ⟨k, rfl⟩ : ∃ i, k = i + 1 := ⟨k - 1, by omega⟩
    unfold actorAt
    rw [if_pos (by unfold Frozen at h; omega)]
    exact List.mem_append_right _ List.mem_cons_self
  rw [← heq] at hmem
  obtain ⟨i, hi, hstep⟩ := mem_actorAt hmem
  have := globalStep_injective hstep
  omega

theorem actorAt_eq_iff (hle : j ≤ k) :
    actorAt cfg resumed j = actorAt cfg resumed k ↔ j = k ∨ Frozen cfg resumed k := by
  constructor
  · intro heq
    by_contra hnot
    rw [not_or] at hnot
    exact actorAt_ne (by omega) hnot.2 heq
  · rintro (rfl | hfrozen)
    · rfl
    · rw [actorAt_of_frozen hfrozen, actorAt_of_frozen (hfrozen.mono hle)]

theorem length_criticAt : (criticAt cfg resumed k).length = if cfg.useCritic then k else 0 := by
  induction k with
  | zero => simp [criticAt]
  | succ k ih =>
    unfold criticAt
    split
    · rename_i hcritic
      rw [List.length_append, ih, if_pos hcritic, List.length_singleton]
    · rename_i hcritic
      rw [ih, if_neg hcritic]

/-- After the first step there has been an optimizer step, unless there is no critic and the actor
is frozen. -/
theorem trained_iff : (actorAt cfg resumed k ≠ [] ∨ criticAt cfg resumed k ≠ []) ↔
    k ≠ 0 ∧ (cfg.useCritic = true ∨ ¬ Frozen cfg resumed k) := by
  have hcritic : criticAt cfg resumed k ≠ [] ↔ cfg.useCritic = true ∧ k ≠ 0 := by
    rw [ne_eq, ← List.length_eq_zero_iff, length_criticAt]
    split <;> simp [*]
  have hactor : actorAt cfg resumed k ≠ [] ↔ k ≠ 0 ∧ ¬ Frozen cfg resumed k := by
    have hzero : actorAt cfg resumed 0 = actorAt cfg resumed k ↔ _ := actorAt_eq_iff (Nat.zero_le k)
    rw [ne_comm, ne_eq, show ([] : Weights) = actorAt cfg resumed 0 from rfl, hzero, not_or, eq_comm]
  rw [hcritic, hactor]
  tauto

end Weights

/-! ## One step -/

section Steps

variable {cfg : Config} {esi : ℤ → Bool} {resumed : Option ℕ} {k : ℕ} {s : Trainer}

/-- The counters and the weights after `k` steps. -/
structure Trained (cfg : Config) (resumed : Option ℕ) (k : ℕ) (s : Trainer) : Prop where
  localTriggerStep : s.localTriggerStep = k % period cfg + 1
  currentParamVersion : s.currentParamVersion = versionAt cfg resumed k
  actor : s.actor = actorAt cfg resumed k
  critic : s.critic = criticAt cfg resumed k
  synced : ∀ c ≤ k / period cfg, s.synced.get? (resumed.getD 0 + c) = some (actorAt cfg resumed (c * period cfg))

/-- The folders of a trainer with the version of step `k`, when the steps of `P` have written them. -/
structure Written (cfg : Config) (resumed : Option ℕ) (P : ℕ → Prop) (k : ℕ) (s : Trainer) : Prop where
  folders : ∀ version ckpt, s.folders.get? version = some ckpt ↔
    (∃ j, P j ∧ version = versionAt cfg resumed j ∧ ckpt = ckptAt cfg resumed j) ∨
      (resumed = some version ∧ ckpt = ckptAt cfg resumed 0)
  current : versionAt cfg resumed k = s.lastCkptVersion ↔
    k < period cfg ∨ ∃ j, P j ∧ versionAt cfg resumed j = versionAt cfg resumed k
  last : s.lastCkptVersion ≤ versionAt cfg resumed k
  tracker : s.tracker = if s.lastCkptVersion = resumed.getD 0 then resumed else some s.lastCkptVersion

/-- The trainer after `k` steps of the loop. -/
structure After (cfg : Config) (esi : ℤ → Bool) (resumed : Option ℕ) (k : ℕ) (s : Trainer) : Prop
    extends Trained cfg resumed k s, Written cfg resumed (fun j => j ≤ k ∧ Saves cfg esi resumed 0 j) k s where
  globalSteps : s.globalSteps = globalStep cfg resumed (k + 1)

theorem next_step (cfg : Config) (k : ℕ) :
    (k % period cfg + 1 < period cfg ∧ (k + 1) / period cfg = k / period cfg ∧
        (k + 1) % period cfg = k % period cfg + 1) ∨
      (k % period cfg + 1 = period cfg ∧ (k + 1) / period cfg = k / period cfg + 1 ∧ (k + 1) % period cfg = 0) := by
  have hpos := period_pos cfg
  have hmod := Nat.mod_lt k hpos
  have hdiv := Nat.div_add_mod k (period cfg)
  by_cases hlt : k % period cfg + 1 < period cfg
  · obtain ⟨hquot, hrem⟩ := (Nat.div_mod_unique hpos).2
      ⟨(by omega : (k % period cfg + 1) + period cfg * (k / period cfg) = k + 1), hlt⟩
    exact Or.inl ⟨hlt, hquot, hrem⟩
  · obtain ⟨hquot, hrem⟩ := (Nat.div_mod_unique hpos).2
      ⟨(by rw [Nat.mul_add]; omega : 0 + period cfg * (k / period cfg + 1) = k + 1), hpos⟩
    exact Or.inr ⟨by omega, hquot, hrem⟩

theorem versionAt_eq_iff {j : ℕ} (hle : j ≤ k) :
    versionAt cfg resumed j = versionAt cfg resumed k ↔ k - k % period cfg ≤ j := by
  have hpos := period_pos cfg
  have hdivk := Nat.div_add_mod k (period cfg)
  have hmod := Nat.mod_lt k hpos
  unfold versionAt
  constructor
  · intro heq
    have hquot : j / period cfg = k / period cfg := by omega
    have hdivj := Nat.div_add_mod j (period cfg)
    rw [hquot] at hdivj
    omega
  · intro hstart
    have hge : k / period cfg ≤ j / period cfg := by
      rw [Nat.le_div_iff_mul_le hpos, Nat.mul_comm]
      omega
    have := Nat.div_le_div_right (c := period cfg) hle
    omega

theorem lt_trigger_iff {step : ℕ} : ((step + 1 : ℕ) : ℤ) < cfg.triggerParameterSyncStep ↔ step + 1 < period cfg := by
  unfold period
  omega

theorem Trained.optimize (h : Trained cfg resumed k s) (hstep : s.globalSteps = globalStep cfg resumed (k + 1)) :
    fitUpdateActor cfg (fitUpdateCritic cfg s) =
      { s with actor := actorAt cfg resumed (k + 1), critic := criticAt cfg resumed (k + 1) } := by
  have hcritic : fitUpdateCritic cfg s = { s with critic := criticAt cfg resumed (k + 1) } := by
    unfold fitUpdateCritic criticAt
    rw [← hstep, ← h.critic]
    split <;> rfl
  rw [hcritic]
  unfold fitUpdateActor actorAt
  rw [← hstep, ← h.actor]
  split <;> rfl

theorem Trained.update (h : Trained cfg resumed k s) (hstep : s.globalSteps = globalStep cfg resumed (k + 1)) :
    ∃ synced, fitUpdateWeights (fitUpdateLocalStep cfg (fitUpdateActor cfg (fitUpdateCritic cfg s))) =
        { s with
          actor := actorAt cfg resumed (k + 1), critic := criticAt cfg resumed (k + 1)
          localTriggerStep := (k + 1) % period cfg + 1, currentParamVersion := versionAt cfg resumed (k + 1), synced } ∧
      ∀ c ≤ (k + 1) / period cfg, synced.get? (resumed.getD 0 + c) = some (actorAt cfg resumed (c * period cfg)) := by
  rw [h.optimize hstep]
  rcases next_step cfg k with ⟨hlt, hquot, hrem⟩ | ⟨hend, hquot, hrem⟩
  · -- the version stays, and nothing is synchronised
    refine ⟨s.synced, ?_, ?_⟩
    · unfold fitUpdateLocalStep fitUpdateWeights
      have hinside : ((s.localTriggerStep : ℕ) : ℤ) < cfg.triggerParameterSyncStep := by
        rw [h.localTriggerStep]
        exact lt_trigger_iff.2 hlt
      simp only [hinside, if_true]
      rw [if_pos (by rw [h.localTriggerStep]; omega), h.localTriggerStep, h.currentParamVersion, hrem]
      unfold versionAt
      rw [hquot]
    · rw [hquot]
      exact h.synced
  · refine ⟨s.synced.update (versionAt cfg resumed (k + 1)) fun _ => actorAt cfg resumed (k + 1), ?_, ?_⟩
    · unfold fitUpdateLocalStep fitUpdateWeights
      have hinside : ¬ ((s.localTriggerStep : ℕ) : ℤ) < cfg.triggerParameterSyncStep := by
        rw [h.localTriggerStep, lt_trigger_iff]
        omega
      have hversion : s.currentParamVersion + 1 = versionAt cfg resumed (k + 1) := by
        rw [h.currentParamVersion]
        unfold versionAt
        omega
      simp only [hinside, if_false, ne_eq, not_true_eq_false, hrem, hversion, Nat.zero_add]
    · intro c hc
      rw [Dict.get?_update]
      by_cases hnew : c = (k + 1) / period cfg
      · have hk : c * period cfg = k + 1 := by
          have hdiv := Nat.div_add_mod (k + 1) (period cfg)
          rw [hrem, Nat.mul_comm] at hdiv
          rw [hnew]
          exact hdiv
        rw [if_pos (by unfold versionAt; omega), hk]
      · rw [if_neg (by unfold versionAt; omega)]
        exact h.synced c (by omega)

theorem fitValidate_eq (cfg : Config) (s : Trainer) :
    fitValidate cfg s = { s with validated := (fitValidate cfg s).validated } := by
  unfold fitValidate
  split
  · rfl
  · split <;> rfl

variable {P : ℕ → Prop}

theorem Written.next (h : Written cfg resumed (fun j => j ≤ k ∧ P j) k s) :
    Written cfg resumed (fun j => j ≤ k ∧ P j) (k + 1) s where
  folders := h.folders
  current := by
    rcases next_step cfg k with ⟨hlt, hquot, -⟩ | ⟨hend, hquot, -⟩
    · have hsame : versionAt cfg resumed (k + 1) = versionAt cfg resumed k := by
        unfold versionAt
        rw [hquot]
      have hshort : k + 1 < period cfg ↔ k < period cfg := by
        rw [← Nat.div_eq_zero_iff_lt (period_pos cfg), hquot, Nat.div_eq_zero_iff_lt (period_pos cfg)]
      rw [hsame, h.current, hshort]
    · have hnew : versionAt cfg resumed (k + 1) = versionAt cfg resumed k + 1 := by
        unfold versionAt
        omega
      have hlast := h.last
      constructor
      · intro heq
        omega
      · rintro (hshort | ⟨j, ⟨hj, -⟩, hversion⟩)
        · have := Nat.mod_le k (period cfg)
          omega
        · have := Nat.div_le_div_right (c := period cfg) hj
          unfold versionAt at hversion hnew
          omega
  last := by
    have hlast := h.last
    have := Nat.div_le_div_right (c := period cfg) (Nat.le_add_right k 1)
    unfold versionAt at *
    omega
  tracker := h.tracker

/-- The condition of `_fit_save_checkpoint`, for a version that is not written. -/
def Wanted (cfg : Config) (esi : ℤ → Bool) (force : Bool) (s : Trainer) : Prop :=
  force = true ∨ (s.currentParamVersion : ℤ) % cfg.saveFreq = 0 ∨ esi s.globalSteps = true

theorem Written.save (esi : ℤ → Bool) (force : Bool) (h : Written cfg resumed P k s) (hsave : 0 < cfg.saveFreq)
    (hversion : s.currentParamVersion = versionAt cfg resumed k) (hactor : s.actor = actorAt cfg resumed k)
    (hcritic : s.critic = criticAt cfg resumed k) :
    Written cfg resumed (fun j => P j ∨ (j = k ∧ period cfg ≤ k ∧
        (¬ ∃ i, P i ∧ versionAt cfg resumed i = versionAt cfg resumed k) ∧ Wanted cfg esi force s)) k
      (fitSaveCheckpoint cfg esi force s) := by
  unfold fitSaveCheckpoint
  by_cases hcurrent : s.currentParamVersion = s.lastCkptVersion
  · -- the version is written, and the predicate does not grow
    rw [if_pos hcurrent]
    have hwritten := h.current.1 (hversion ▸ hcurrent)
    refine ⟨fun version ckpt => ?_, ?_, h.last, h.tracker⟩
    · rw [h.folders]
      refine or_congr_left (exists_congr fun j => and_congr_left fun _ => ⟨Or.inl, ?_⟩)
      rintro (hold | ⟨-, hle, hfresh, -⟩)
      · exact hold
      · exact (hwritten.elim (fun hlt => by omega) hfresh).elim
    · rw [h.current]
      refine or_congr_right ⟨fun ⟨j, hj, hsame⟩ => ⟨j, Or.inl hj, hsame⟩, ?_⟩
      rintro ⟨j, hold | ⟨-, hle, hfresh, -⟩, hsame⟩
      · exact ⟨j, hold, hsame⟩
      · exact hwritten.resolve_left (by omega)
  · rw [if_neg hcurrent]
    have hfresh : period cfg ≤ k ∧ ¬ ∃ i, P i ∧ versionAt cfg resumed i = versionAt cfg resumed k := by
      rw [hversion, h.current, not_or] at hcurrent
      exact ⟨by omega, hcurrent.2⟩
    by_cases hwanted : Wanted cfg esi force s
    · rw [if_pos ⟨hsave, hwanted⟩]
      have hstart : ∀ version, resumed = some version → version ≠ versionAt cfg resumed k := by
        rintro version rfl
        have := Nat.div_pos hfresh.1 (period_pos cfg)
        unfold versionAt
        rw [Option.getD_some]
        omega
      unfold saveCheckpoint
      refine ⟨fun version ckpt => ?_, ?_, hversion.le, ?_⟩
      · simp only [Dict.get?_update, hversion, hactor, hcritic]
        constructor
        · intro hget
          split at hget
          · rename_i hnew
            exact Or.inl ⟨k, Or.inr ⟨rfl, hfresh.1, hfresh.2, hwanted⟩, hnew, (Option.some.inj hget).symm⟩
          · rcases (h.folders version ckpt).1 hget with ⟨j, hj, hfolder⟩ | hresumed
            · exact Or.inl ⟨j, Or.inl hj, hfolder⟩
            · exact Or.inr hresumed
        · rintro (⟨j, hold | ⟨rfl, -⟩, hfolder, rfl⟩ | ⟨hresumed, hckpt⟩)
          · rw [if_neg fun hnew => hfresh.2 ⟨j, hold, hfolder.symm.trans hnew⟩]
            exact (h.folders version _).2 (Or.inl ⟨j, hold, hfolder, rfl⟩)
          · rw [if_pos hfolder]
            rfl
          · rw [if_neg (hstart version hresumed)]
            exact (h.folders version ckpt).2 (Or.inr ⟨hresumed, hckpt⟩)
      · simp only [hversion, true_iff]
        exact Or.inr ⟨k, Or.inr ⟨rfl, hfresh.1, hfresh.2, hwanted⟩, rfl⟩
      · have hne : versionAt cfg resumed k ≠ resumed.getD 0 := by
          have := Nat.div_pos hfresh.1 (period_pos cfg)
          unfold versionAt
          omega
        simp only [hversion, hne, if_false]
    · rw [if_neg fun hboth => hwanted hboth.2]
      refine ⟨fun version ckpt => ?_, ?_, h.last, h.tracker⟩
      · rw [h.folders]
        simp only [hwanted, and_false, or_false]
      · rw [h.current]
        simp only [hwanted, and_false, or_false]

theorem start_of_cycle {m : ℕ} (hm : period cfg ≤ m) : period cfg ≤ m - m % period cfg := by
  have hdiv := Nat.div_add_mod m (period cfg)
  have hquot := Nat.div_pos hm (period_pos cfg)
  have := Nat.le_mul_of_pos_right (period cfg) hquot
  omega

theorem Saves.due {j : ℕ} (h : Saves cfg esi resumed 0 j) : Due cfg esi resumed j := by
  have hpos := period_pos cfg
  obtain ⟨hle, -, hdue | hzero⟩ := h
  · exact hdue
  · omega

/-- **A version is written when it is due for the first time**. -/
theorem dueBefore_iff {m : ℕ} (hm : period cfg ≤ m) :
    DueBefore cfg esi resumed m ↔
      ∃ i, (i < m ∧ Saves cfg esi resumed 0 i) ∧ versionAt cfg resumed i = versionAt cfg resumed m := by
  classical
  constructor
  · intro hbefore
    obtain ⟨⟨hfrom, hlt, hdue⟩, hleast⟩ := And.intro (Nat.find_spec hbefore) fun i => Nat.find_min (m := i) hbefore
    generalize Nat.find hbefore = i at hfrom hlt hdue hleast
    have hsame : versionAt cfg resumed i = versionAt cfg resumed m := (versionAt_eq_iff hlt.le).2 hfrom
    refine ⟨i, ⟨hlt, (start_of_cycle hm).trans hfrom, ?_, Or.inl hdue⟩, hsame⟩
    rintro ⟨i', hfrom', hlt', hdue'⟩
    refine hleast i' hlt' ⟨?_, by omega, hdue'⟩
    have hsame' : versionAt cfg resumed i' = versionAt cfg resumed m := ((versionAt_eq_iff hlt'.le).2 hfrom').trans hsame
    exact (versionAt_eq_iff (by omega)).1 hsame'
  · rintro ⟨i, ⟨hlt, hsaves⟩, hsame⟩
    exact ⟨i, (versionAt_eq_iff hlt.le).1 hsame, hlt, hsaves.due⟩

theorem Written.congr {P Q : ℕ → Prop} (h : Written cfg resumed P k s) (hiff : ∀ j, P j ↔ Q j) :
    Written cfg resumed Q k s := by
  obtain rfl : P = Q := funext fun j => propext (hiff j)
  exact h

theorem Written.frame {s' : Trainer} (h : Written cfg resumed P k s) (hfolders : s'.folders = s.folders)
    (hlast : s'.lastCkptVersion = s.lastCkptVersion) (htracker : s'.tracker = s.tracker) :
    Written cfg resumed P k s' where
  folders := hfolders ▸ h.folders
  current := hlast ▸ h.current
  last := hlast ▸ h.last
  tracker := by rw [htracker, hlast, h.tracker]

theorem Trained.save (esi : ℤ → Bool) (force : Bool) (h : Trained cfg resumed k s) :
    Trained cfg resumed k (fitSaveCheckpoint cfg esi force s) := by
  unfold fitSaveCheckpoint
  split
  · exact h
  split
  · exact ⟨h.localTriggerStep, h.currentParamVersion, h.actor, h.critic, h.synced⟩
  · exact h

theorem globalSteps_save (esi : ℤ → Bool) (force : Bool) (s : Trainer) :
    (fitSaveCheckpoint cfg esi force s).globalSteps = s.globalSteps := by
  unfold fitSaveCheckpoint
  split
  · rfl
  · split <;> rfl

theorem After.step (h : After cfg esi resumed k s) (hsave : 0 < cfg.saveFreq) :
    After cfg esi resumed (k + 1) (fitStep cfg esi s) := by
  obtain ⟨synced, hupdate, hsynced⟩ := h.toTrained.update h.globalSteps
  unfold fitStep
  simp only [hupdate]
  rw [fitValidate_eq]
  generalize (fitValidate cfg _).validated = validated
  -- the trainer before the checkpoint
  generalize hu : ({ s with
      actor := actorAt cfg resumed (k + 1), critic := criticAt cfg resumed (k + 1)
      localTriggerStep := (k + 1) % period cfg + 1, currentParamVersion := versionAt cfg resumed (k + 1)
      synced := synced, validated := validated } : Trainer) = u
  have htrained : Trained cfg resumed (k + 1) u := by
    subst hu
    exact ⟨rfl, rfl, rfl, rfl, hsynced⟩
  have hglobal : u.globalSteps = globalStep cfg resumed (k + 1) := by
    subst hu
    exact h.globalSteps
  have hwritten : Written cfg resumed (fun j => j ≤ k ∧ Saves cfg esi resumed 0 j) (k + 1) u := by
    subst hu
    exact h.toWritten.next.frame rfl rfl rfl
  have hsaved := hwritten.save esi false hsave htrained.currentParamVersion htrained.actor
    htrained.critic
  have hpredicate : ∀ j, ((j ≤ k ∧ Saves cfg esi resumed 0 j) ∨ (j = k + 1 ∧ period cfg ≤ k + 1 ∧
      (¬ ∃ i, (i ≤ k ∧ Saves cfg esi resumed 0 i) ∧ versionAt cfg resumed i = versionAt cfg resumed (k + 1)) ∧
        Wanted cfg esi false u)) ↔ j ≤ k + 1 ∧ Saves cfg esi resumed 0 j := by
    intro j
    have hdue : Wanted cfg esi false u ↔ Due cfg esi resumed (k + 1) := by
      unfold Wanted Due
      rw [htrained.currentParamVersion, hglobal]
      simp only [Bool.false_eq_true, false_or]
    rw [hdue]
    constructor
    · rintro (⟨hj, hsaves⟩ | ⟨rfl, hle, hfresh, hdue⟩)
      · exact ⟨by omega, hsaves⟩
      · refine ⟨le_rfl, hle, fun hbefore => hfresh ?_, Or.inl hdue⟩
        simpa only [Nat.lt_succ_iff] using (dueBefore_iff hle).1 hbefore
    · rintro ⟨hj, hsaves⟩
      by_cases hnew : j = k + 1
      · subst hnew
        refine Or.inr ⟨rfl, hsaves.1, fun hold => hsaves.2.1 ((dueBefore_iff hsaves.1).2 ?_), hsaves.due⟩
        simpa only [Nat.lt_succ_iff] using hold
      · exact Or.inl ⟨by omega, hsaves⟩
  have htrained' := htrained.save esi false
  have hwritten' := hsaved.congr hpredicate
  refine ⟨⟨htrained'.localTriggerStep, htrained'.currentParamVersion, htrained'.actor, htrained'.critic,
    htrained'.synced⟩, hwritten'.frame rfl rfl rfl, ?_⟩
  change (fitSaveCheckpoint cfg esi false u).globalSteps + 1 = _
  rw [globalSteps_save, hglobal]
  unfold globalStep
  omega

/-- **The loop of `fit`** after `k` steps. -/
theorem after_iterate (cfg : Config) (esi : ℤ → Bool) (resumed : Option ℕ) (hsave : 0 < cfg.saveFreq) (k : ℕ) :
    After cfg esi resumed k ((fitStep cfg esi)^[k]
      { start cfg resumed with globalSteps := (start cfg resumed).globalSteps + 1 }) := by
  induction k with
  | zero =>
    have hnever : ∀ j, ¬ (j ≤ 0 ∧ Saves cfg esi resumed 0 j) := by
      rintro j ⟨hj, hle, -⟩
      have := period_pos cfg
      omega
    have hversion : versionAt cfg resumed 0 = resumed.getD 0 := by
      unfold versionAt
      rw [Nat.zero_div, Nat.add_zero]
    refine ⟨⟨?_, hversion.symm, rfl, rfl, fun c hc => ?_⟩, ⟨fun version ckpt => ?_, ?_, hversion.ge, ?_⟩, ?_⟩
    · rw [Nat.zero_mod]
      rfl
    · obtain rfl : c = 0 := by rwa [Nat.zero_div, Nat.le_zero] at hc
      exact (Dict.get?_update_self _ _ _).trans (by rw [Nat.zero_mul]; rfl)
    · rw [or_iff_right fun ⟨j, hj, _⟩ => hnever j hj]
      cases resumed with
      | none =>
        constructor
        · intro hget
          cases hget
        · rintro ⟨hget, -⟩
          cases hget
      | some v =>
        rw [Option.some.injEq, eq_comm (a := v)]
        change (Dict.update .empty v _).get? version = some ckpt ↔ _
        rw [Dict.get?_update, eq_comm (a := ckpt)]
        split
        · rename_i hsame
          simp only [hsame, true_and, Option.some.injEq]
          rfl
        · rename_i hne
          simp only [hne, false_and, iff_false]
          intro hget
          cases hget
    · exact ⟨fun _ => Or.inl (period_pos cfg), fun _ => hversion⟩
    · exact (if_pos rfl).symm
    · change _ + 1 = _ + _
      omega
  | succ k ih =>
    rw [Function.iterate_succ_apply']
    exact ih.step hsave

/-! ## The end of the run -/

theorem Trained.flush (h : Trained cfg resumed k s) : Trained cfg resumed k (fitValidate cfg (fitUpdateWeights s)) := by
  rw [fitValidate_eq]
  unfold fitUpdateWeights
  split
  · exact ⟨h.localTriggerStep, h.currentParamVersion, h.actor, h.critic, h.synced⟩
  · rename_i hend
    have hmod : k % period cfg = 0 := by
      rw [h.localTriggerStep] at hend
      omega
    refine ⟨h.localTriggerStep, h.currentParamVersion, h.actor, h.critic, fun c hc => ?_⟩
    rw [Dict.get?_update, h.currentParamVersion, h.actor]
    split
    · rename_i hversion
      have hquot : c = k / period cfg := by
        unfold versionAt at hversion
        omega
      rw [hquot, Nat.div_mul_cancel (Nat.dvd_of_mod_eq_zero hmod)]
    · exact h.synced c hc

theorem Written.flush (h : Written cfg resumed P k s) :
    Written cfg resumed P k (fitValidate cfg (fitUpdateWeights s)) := by
  rw [fitValidate_eq]
  unfold fitUpdateWeights
  split
  · exact h.frame rfl rfl rfl
  · exact h.frame rfl rfl rfl

/-- **What `fit` leaves** after `n` training steps. -/
theorem finished {α : Type} {queue : List α} (hsave : 0 < cfg.saveFreq)
    (hfit : fit cfg esi (start cfg resumed) queue = some s) :
    Trained cfg resumed (queue.length / cfg.requiredSamples) s ∧
      Written cfg resumed (fun j => j ≤ queue.length / cfg.requiredSamples ∧
        Saves cfg esi resumed (queue.length / cfg.requiredSamples) j) (queue.length / cfg.requiredSamples) s := by
  unfold fit at hfit
  rw [fitLoop_eq] at hfit
  generalize queue.length / cfg.requiredSamples = n at *
  have hafter := after_iterate cfg esi resumed hsave n
  generalize (fitStep cfg esi)^[n] _ = t at hafter hfit
  simp only at hfit
  split at hfit
  · cases hfit
  -- the trainer before the last checkpoint
  generalize hu : (if (t.currentParamVersion : ℤ) % cfg.testFreq ≠ 0 ∨ 1 < t.localTriggerStep then
    fitValidate cfg (fitUpdateWeights t) else t) = u at hfit
  have htrained : Trained cfg resumed n u := by
    rw [← hu]
    split
    · exact hafter.toTrained.flush
    · exact hafter.toTrained
  have hwritten : Written cfg resumed (fun j => j ≤ n ∧ Saves cfg esi resumed 0 j) n u := by
    rw [← hu]
    split
    · exact hafter.toWritten.flush
    · exact hafter.toWritten
  rw [← Option.some.inj hfit]
  refine ⟨htrained.save esi true, (hwritten.save esi true hsave htrained.currentParamVersion
    htrained.actor htrained.critic).congr fun j => ?_⟩
  constructor
  · rintro (⟨hj, hsaves⟩ | ⟨rfl, hle, hfresh, -⟩)
    · exact ⟨hj, hsaves.1, hsaves.2.1, Or.inl hsaves.due⟩
    · refine ⟨le_rfl, hle, fun hbefore => hfresh ?_, Or.inr rfl⟩
      obtain ⟨i, ⟨hi, hsaves⟩, hsame⟩ := (dueBefore_iff hle).1 hbefore
      exact ⟨i, ⟨hi.le, hsaves⟩, hsame⟩
  · rintro ⟨hj, hle, hbefore, hdue⟩
    by_cases hsaves : Saves cfg esi resumed 0 j
    · exact Or.inl ⟨hj, hsaves⟩
    · -- only the end of the run writes this checkpoint
      have hnot : ¬ Due cfg esi resumed j := fun hdue => hsaves ⟨hle, hbefore, Or.inl hdue⟩
      obtain rfl := hdue.resolve_left hnot
      refine Or.inr ⟨rfl, hle, ?_, Or.inl rfl⟩
      rintro ⟨i, ⟨hi, hwrites⟩, hsame⟩
      rcases hi.lt_or_eq with hlt | rfl
      · exact hbefore ((dueBefore_iff hle).2 ⟨i, ⟨hlt, hwrites⟩, hsame⟩)
      · exact hsaves hwrites

theorem foldersSynced_iff (htrained : Trained cfg resumed k s)
    (hwritten : Written cfg resumed (fun j => j ≤ k ∧ P j) k s) :
    FoldersSynced s ↔ ∀ j ≤ k, P j → j % period cfg = 0 ∨ Frozen cfg resumed j := by
  have hfolder : ∀ j ≤ k, s.synced.get? (versionAt cfg resumed j) = some (ckptAt cfg resumed j).actor ↔
      j % period cfg = 0 ∨ Frozen cfg resumed j := by
    intro j hj
    have hdiv := Nat.div_add_mod j (period cfg)
    rw [versionAt, htrained.synced _ (Nat.div_le_div_right hj), Option.some.injEq, ckptAt,
      actorAt_eq_iff (Nat.div_mul_le_self j _)]
    refine or_congr_left ?_
    rw [Nat.mul_comm]
    omega
  constructor
  · intro hsynced j hj hP
    exact (hfolder j hj).1 (hsynced _ _ ((hwritten.folders _ _).2 (Or.inl ⟨j, ⟨hj, hP⟩, rfl, rfl⟩)))
  · intro hall version ckpt hget
    rcases (hwritten.folders version ckpt).1 hget with ⟨j, ⟨hj, hP⟩, rfl, rfl⟩ | ⟨hresumed, rfl⟩
    · exact (hfolder j hj).2 (hall j hj hP)
    · have hzero := htrained.synced 0 (Nat.zero_le _)
      rwa [hresumed, Nat.zero_mul] at hzero

theorem lastStepSaved_iff (htrained : Trained cfg resumed k s)
    (hwritten : Written cfg resumed (fun j => j ≤ k ∧ P j) k s) (hP : P k → period cfg ≤ k) :
    LastStepSaved cfg s ↔ P k ∨ k = 0 ∨ (cfg.useCritic = false ∧ Frozen cfg resumed k) := by
  unfold LastStepSaved
  rw [htrained.actor, htrained.critic, trained_iff]
  constructor
  · intro hlast
    by_contra hnot
    rw [not_or, not_or, not_and] at hnot
    obtain ⟨hnever, hpos, hfrozen⟩ := hnot
    have htrains : cfg.useCritic = true ∨ ¬ Frozen cfg resumed k := by
      by_cases hcritic : cfg.useCritic = false
      · exact Or.inr (hfrozen hcritic)
      · exact Or.inl (by simpa using hcritic)
    obtain ⟨version, ckpt, -, hget, hactor, hcritic⟩ := hlast ⟨hpos, htrains⟩
    -- a checkpoint with the last weights comes from the last step
    have hstep : ∀ j ≤ k, ckpt = ckptAt cfg resumed j → j = k := by
      rintro j hj rfl
      by_cases huse : cfg.useCritic = true
      · have hlength := hcritic huse
        unfold ckptAt at hlength
        simp only [huse, if_true, Option.some.injEq] at hlength
        have := congrArg List.length hlength
        rwa [length_criticAt, length_criticAt, if_pos huse, if_pos huse] at this
      · exact ((actorAt_eq_iff hj).1 hactor).resolve_right (htrains.resolve_left huse)
    rcases (hwritten.folders version ckpt).1 hget with ⟨j, ⟨hj, hwrites⟩, -, hckpt⟩ | ⟨-, hckpt⟩
    · exact hnever (hstep j hj hckpt ▸ hwrites)
    · exact hpos (hstep 0 (Nat.zero_le k) hckpt).symm
  · rintro (hwrites | rfl | ⟨hcritic, hfrozen⟩) ⟨hpos, htrains⟩
    · have hlast : versionAt cfg resumed k = s.lastCkptVersion :=
        hwritten.current.2 (Or.inr ⟨k, ⟨le_rfl, hwrites⟩, rfl⟩)
      have hnew : s.lastCkptVersion ≠ resumed.getD 0 := by
        have := Nat.div_pos (hP hwrites) (period_pos cfg)
        rw [← hlast]
        unfold versionAt
        omega
      refine ⟨versionAt cfg resumed k, ckptAt cfg resumed k, ?_,
        (hwritten.folders _ _).2 (Or.inl ⟨k, ⟨le_rfl, hwrites⟩, rfl, rfl⟩), rfl, fun huse => ?_⟩
      · rw [hwritten.tracker, if_neg hnew, hlast]
      · exact if_pos huse
    · exact absurd rfl hpos
    · rw [hcritic] at htrains
      exact absurd hfrozen (htrains.resolve_left Bool.false_ne_true)

/-- **The checkpoints of `fit`.** It raises exactly when `test_freq` is 0. Otherwise the last
training step is saved and every folder holds what was synchronised, exactly when no checkpoint
with trained weights is written between two synchronisations, and the last step writes one or
there is no optimizer step at all. -/
theorem checkpoint_iff {α : Type} (cfg : Config) (esi : ℤ → Bool) (resumed : Option ℕ) (queue : List α)
    (hsave : 0 < cfg.saveFreq) :
    (fit cfg esi (start cfg resumed) queue = none ↔ cfg.testFreq = 0) ∧
      ∀ s, fit cfg esi (start cfg resumed) queue = some s →
        (LastStepSaved cfg s ∧ FoldersSynced s ↔
          (Saves cfg esi resumed (queue.length / cfg.requiredSamples) (queue.length / cfg.requiredSamples) ∨
            queue.length / cfg.requiredSamples = 0 ∨
            (cfg.useCritic = false ∧ Frozen cfg resumed (queue.length / cfg.requiredSamples))) ∧
          ∀ j ≤ queue.length / cfg.requiredSamples,
            Saves cfg esi resumed (queue.length / cfg.requiredSamples) j →
              j % period cfg = 0 ∨ Frozen cfg resumed j) := by
  constructor
  · unfold fit
    simp only
    split <;> simp_all
  · intro s hfit
    obtain ⟨htrained, hwritten⟩ := finished hsave hfit
    rw [lastStepSaved_iff htrained hwritten fun hsaves => hsaves.1, foldersSynced_iff htrained hwritten]

end Steps

/-! ## A run that ends inside of a cycle -/

def everyVersion : Config where
  triggerParameterSyncStep := 2
  saveFreq := 1
  testFreq := 5
  criticWarmup := 0
  requiredSamples := 1
  useCritic := false

theorem checkpoint_fourBatches : ∃ s, fit everyVersion (fun _ => false) (start everyVersion none) [(), (), (), ()] = some s ∧
    LastStepSaved everyVersion s ∧ FoldersSynced s := by
  have hruns := checkpoint_iff everyVersion (fun _ => false) none [(), (), (), ()] (by decide)
  obtain ⟨s, hfit⟩ := Option.ne_none_iff_exists'.1 fun hnone => absurd (hruns.1.1 hnone) (by decide)
  refine ⟨s, hfit, (hruns.2 s hfit).2 ⟨Or.inl ⟨by decide, ?_, Or.inr rfl⟩, ?_⟩⟩
  · rintro ⟨i, hfrom, hlt, -⟩
    have hmod : ([(), (), (), ()] : List Unit).length / everyVersion.requiredSamples %
      period everyVersion = 0 := by decide
    omega
  · rintro j - ⟨hle, hbefore, -⟩
    refine Or.inl ?_
    by_contra hinside
    have hpos := period_pos everyVersion
    -- the version has been saved at the start of its cycle
    refine hbefore ⟨j - j % period everyVersion, le_rfl, Nat.sub_lt (by omega) (by omega), Or.inl ?_⟩
    exact Int.emod_one _

theorem fit_threeBatches : (fit everyVersion (fun _ => false) (start everyVersion none) [(), (), ()]).map
    (fun s => (s.actor, s.tracker, s.folders.items)) = some ([1, 2, 3], some 1, [(1, ⟨[1, 2], none⟩)]) := by
  unfold fit
  rw [fitLoop_eq]
  decide

theorem fit_expiring : (fit { everyVersion with saveFreq := 2 } (fun step => step = 3) (start everyVersion none)
    [(), (), ()]).map (fun s => (s.synced.items, s.folders.items)) =
      some ([(0, []), (1, [1, 2])], [(1, ⟨[1, 2, 3], none⟩)]) := by
  unfold fit
  rw [fitLoop_eq]
  decide

/-- The weights after the third batch are not saved, or saved as weights that the rollouter has
not got. -/
theorem third_batch_lost :
    (∃ s, fit everyVersion (fun _ => false) (start everyVersion none) [(), (), ()] = some s ∧
      ¬ LastStepSaved everyVersion s) ∧
    ∃ s, fit { everyVersion with saveFreq := 2 } (fun step => step = 3) (start everyVersion none) [(), (), ()] = some s ∧
      ¬ FoldersSynced s := by
  constructor
  · obtain ⟨s, hfit, hs⟩ := Option.map_eq_some_iff.1 fit_threeBatches
    obtain ⟨hactor, htracker, hitems⟩ : s.actor = [1, 2, 3] ∧ s.tracker = some 1 ∧
      s.folders.items = [(1, ⟨[1, 2], none⟩)] := by simpa using hs
    refine ⟨s, hfit, fun hlast => ?_⟩
    obtain ⟨version, ckpt, -, hget, hckpt, -⟩ := hlast (Or.inl (by rw [hactor]; decide))
    have hmem := Dict.mem_items.2 hget
    rw [hitems, List.mem_singleton] at hmem
    rw [(Prod.mk.inj hmem).2, hactor] at hckpt
    exact absurd hckpt (by decide)
  · obtain ⟨s, hfit, hs⟩ := Option.map_eq_some_iff.1 fit_expiring
    obtain ⟨hsynced, hitems⟩ : s.synced.items = [(0, []), (1, [1, 2])] ∧
      s.folders.items = [(1, ⟨[1, 2, 3], none⟩)] := by simpa using hs
    refine ⟨s, hfit, fun hfolders => ?_⟩
    have hget := hfolders 1 ⟨[1, 2, 3], none⟩ (Dict.mem_items.1 (by rw [hitems]; exact List.mem_cons_self))
    have hmem := Dict.mem_items.2 hget
    rw [hsynced] at hmem
    exact absurd hmem (by decide)

end Opd.Verl.FullyAsyncTrainer

import Mathlib.Analysis.SpecialFunctions.Log.Basic
import Mathlib.Analysis.SpecialFunctions.Sqrt
import Opd.Verl.RolloutCorr

/-!
# The policy loss of bypass mode over micro-batches

`compute_policy_loss_bypass_mode` computes the importance weights and the rejection mask of a
micro-batch and gives them to the REINFORCE or the PPO-clip loss. The losses are sums over
rows of the global numbers, so they add up over micro-batches; the metrics of the rollout
correction refuse some micro-batches.

* `bypassMode_ok_iff`: what it returns, and when.
* `sum_bypassLoss`: the losses of micro-batches add up to that of the batch.
* `microBatchSafe_iff`: the splits of a batch on which every call returns.
-/

namespace Opd.Verl.BypassMode

open Lib RolloutCorr

variable {K : Type} [Field K] [LinearOrder K]

/-! ## Settings -/

inductive LossType
  | ppoClip
  | reinforce
  deriving DecidableEq

/-- What the losses read of the actor's settings. `compute_policy_loss_vanilla` asserts that
`clip_ratio_c` is over 1. -/
structure ActorSettings (K : Type) [Field K] [LinearOrder K] where
  clipRatio : K
  clipRatioLow : Option K
  clipRatioHigh : Option K
  clipRatioC : K
  one_lt_clipRatioC : 1 < clipRatioC
  lossAggMode : LossAggMode

/-- `global_batch_info`, with the numbers of a batch that has tokens. -/
structure GlobalBatchInfo where
  dpSize : ℕ
  batchNumTokens : ℕ
  globalBatchSize : ℕ
  lossScaleFactor : Option ℕ
  batchNumTokens_pos : 0 < batchNumTokens
  globalBatchSize_pos : 0 < globalBatchSize
  lossScaleFactor_pos : ∀ n ∈ lossScaleFactor, 0 < n

structure BypassSettings (K : Type) [Field K] [LinearOrder K] extends CorrSettings K where
  lossType : LossType
  actor : ActorSettings K

/-! ## The losses -/

/-- `agg_loss` with the global numbers. -/
def aggregate (actor : ActorSettings K) (info : GlobalBatchInfo) (losses : LossMat K) : Except String K :=
  aggLoss losses actor.lossAggMode info.dpSize (some info.batchNumTokens) (some info.globalBatchSize)
    info.lossScaleFactor

def applyWeights (losses : LossMat K) : Option (LossMat K) → LossMat K
  | none => losses
  | some weights => zipMat (fun p w => (p.1 * w.1, p.2)) losses weights

/-- `compute_policy_loss_reinforce` -/
def computePolicyLossReinforce (actor : ActorSettings K) (info : GlobalBatchInfo) (m : LossMat (PolicyToken K))
    (rolloutIsWeights : Option (LossMat K)) : Except String (K × Metrics K) := do
  let pgLosses := applyWeights (m.map fun t => -t.advantage * t.logProb) rolloutIsWeights
  let pgLoss ← aggregate actor info pgLosses
  return (pgLoss, [("actor/ppo_kl", maskedMean (mapEntries (fun t => -logRatio t) m.rows.flatten))])

section

variable (E : Elementary K) (actor : ActorSettings K)

def ratio (t : PolicyToken K) : K := E.exp (clampSafe (logRatio t))

def pgLoss1 (t : PolicyToken K) : K := -t.advantage * ratio E t

def pgLoss2 (t : PolicyToken K) : K :=
  -t.advantage * clamp (ratio E t) (1 - actor.clipRatioLow.getD actor.clipRatio)
    (1 + actor.clipRatioHigh.getD actor.clipRatio)

def clipPgLoss1 (t : PolicyToken K) : K := max (pgLoss1 E t) (pgLoss2 E actor t)

def pgLoss3 (t : PolicyToken K) : K := -t.advantage * actor.clipRatioC

def clipPgLoss2 (t : PolicyToken K) : K := min (pgLoss3 actor t) (clipPgLoss1 E actor t)

/-- The clipped loss of a token; negative advantages are clipped a second time. -/
def clippedPgLoss (t : PolicyToken K) : K :=
  if t.advantage < 0 then clipPgLoss2 E actor t else clipPgLoss1 E actor t

/-- `compute_policy_loss_vanilla` -/
def computePolicyLossVanilla (info : GlobalBatchInfo) (m : LossMat (PolicyToken K))
    (rolloutIsWeights : Option (LossMat K)) : Except String (K × Metrics K) := do
  let pgLosses := applyWeights (m.map (clippedPgLoss E actor)) rolloutIsWeights
  let pgLoss ← aggregate actor info pgLosses
  let tokens := m.rows.flatten
  return (pgLoss,
    [("actor/pg_clipfrac", maskedMean (mapEntries (fun t => indicator (pgLoss1 E t < pgLoss2 E actor t)) tokens)),
      ("actor/ppo_kl", maskedMean (mapEntries (fun t => -clampSafe (logRatio t)) tokens)),
      ("actor/pg_clipfrac_lower", maskedMean (mapEntries (fun t =>
        indicator (pgLoss3 actor t < clipPgLoss1 E actor t) * indicator (t.advantage < 0)) tokens))])

end

/-- The dispatch on `loss_type`: PPO-clip gets no weights, its ratio corrects already. -/
def dispatchLoss (E : Elementary K) (s : BypassSettings K) (info : GlobalBatchInfo)
    (rolloutIsWeights : Option (LossMat K)) (m : LossMat (PolicyToken K)) : Except String (K × Metrics K) :=
  match s.lossType with
  | .reinforce => computePolicyLossReinforce s.actor info m rolloutIsWeights
  | .ppoClip => computePolicyLossVanilla E s.actor info m none

/-- `compute_policy_loss_bypass_mode`, of a micro-batch whose `oldLogProb` is that of the
rollout. -/
def computePolicyLossBypassMode (E : Elementary K) (s : BypassSettings K) (info : GlobalBatchInfo)
    (m : LossMat (PolicyToken K)) : Except String (K × Metrics K) := do
  let (rolloutIsWeights, modified, rolloutMetrics) ← computeRolloutCorrectionAndRejectionMask E s.toCorrSettings m
  let (pgLoss, pgMetrics) ← dispatchLoss E s info rolloutIsWeights modified
  return (pgLoss, pgMetrics ++ rolloutMetrics)

/-! ## What it returns -/

section

variable {E : Elementary K} {s : BypassSettings K} {info : GlobalBatchInfo}

def lossMat (E : Elementary K) (s : BypassSettings K) (m : LossMat (PolicyToken K)) : LossMat K :=
  match s.lossType with
  | .reinforce =>
    applyWeights ((modifiedOf E s.toCorrSettings m).map fun t => -t.advantage * t.logProb)
      (weightsOf E s.toCorrSettings m)
  | .ppoClip => (modifiedOf E s.toCorrSettings m).map (clippedPgLoss E s.actor)

def bypassLoss (E : Elementary K) (s : BypassSettings K) (info : GlobalBatchInfo) (m : LossMat (PolicyToken K)) : K :=
  ((lossMat E s m).rows.map (rowTerm s.actor.lossAggMode)).sum /
    (normOf s.actor.lossAggMode info.batchNumTokens info.globalBatchSize : ℕ) * info.dpSize /
    (scaleOf s.actor.lossAggMode info.lossScaleFactor (lossMat E s m).width : ℕ)

theorem aggregate_lossMat (m : LossMat (PolicyToken K)) :
    aggregate s.actor info (lossMat E s m) = .ok (bypassLoss E s info m) := aggLoss_eq ..

theorem dispatchLoss_ok (m : LossMat (PolicyToken K)) :
    ∃ metrics, dispatchLoss E s info (weightsOf E s.toCorrSettings m) (modifiedOf E s.toCorrSettings m) =
      .ok (bypassLoss E s info m, metrics) := by
  have hagg : aggregate s.actor info (lossMat E s m) = .ok (bypassLoss E s info m) := aggregate_lossMat m
  unfold lossMat at hagg
  unfold dispatchLoss
  cases hl : s.lossType with
  | reinforce =>
    simp only [hl] at hagg
    exact ⟨_, bind_eq_ok.2 ⟨_, hagg, rfl⟩⟩
  | ppoClip =>
    simp only [hl] at hagg
    exact ⟨_, bind_eq_ok.2 ⟨_, hagg, rfl⟩⟩

/-- **What bypass mode returns**, on the micro-batches that the rollout correction accepts. -/
theorem bypassMode_ok_iff [IsStrictOrderedRing K] {m : LossMat (PolicyToken K)} {loss : K} :
    (∃ metrics, computePolicyLossBypassMode E s info m = .ok (loss, metrics)) ↔
      Accepted E s.toCorrSettings m ∧ loss = bypassLoss E s info m := by
  obtain ⟨pgMetrics, hpg⟩ : ∃ metrics, dispatchLoss E s info (weightsOf E s.toCorrSettings m) _ = _ :=
    dispatchLoss_ok m
  constructor
  · rintro ⟨metrics, h⟩
    obtain ⟨⟨weights, modified, rolloutMetrics⟩, hcorr, h⟩ := bind_eq_ok.1 h
    obtain ⟨haccepted, rfl, rfl⟩ := correction_ok_iff.1 ⟨rolloutMetrics, hcorr⟩
    obtain ⟨⟨pgLoss, pgMetrics'⟩, hpg', h⟩ := bind_eq_ok.1 h
    obtain rfl : pgLoss = loss := congrArg Prod.fst (Except.ok.inj h)
    exact ⟨haccepted, congrArg Prod.fst (Except.ok.inj (hpg'.symm.trans hpg))⟩
  · rintro ⟨haccepted, rfl⟩
    obtain ⟨rolloutMetrics, hcorr⟩ := correction_ok_iff.2 ⟨haccepted, rfl, rfl⟩
    exact ⟨_, bind_eq_ok.2 ⟨_, hcorr, bind_eq_ok.2 ⟨_, hpg, rfl⟩⟩⟩

/-! ## Losses add up -/

theorem lossMat_width (m : LossMat (PolicyToken K)) : (lossMat E s m).width = m.width := by
  have hmodified : (modifiedOf E s.toCorrSettings m).width = m.width := by
    unfold modifiedOf
    cases s.rolloutRs <;> rfl
  unfold lossMat
  cases s.lossType with
  | ppoClip => exact hmodified
  | reinforce =>
    unfold weightsOf
    rcases s.rolloutIs with _ | level
    · exact hmodified
    · rcases s.rolloutIsThreshold with _ | threshold
      · exact hmodified
      · exact (congrArg (min · m.width) hmodified).trans (min_self _)

theorem lossMat_rows (E : Elementary K) (s : BypassSettings K) :
    ∃ f : Resp (PolicyToken K) → List (K × Bool), ∀ m : LossMat (PolicyToken K), (lossMat E s m).rows = m.rows.map f := by
  obtain ⟨g, hg⟩ : ∃ g : Resp (PolicyToken K) → Resp (PolicyToken K), ∀ m : LossMat (PolicyToken K),
      (modifiedOf E s.toCorrSettings m).rows = m.rows.map g := by
    unfold modifiedOf
    rcases s.rolloutRs with _ | criteria
    · exact ⟨id, fun m => (List.map_id _).symm⟩
    · exact ⟨_, fun m => rfl⟩
  have hmap : ∀ (h : PolicyToken K → K) (m : LossMat (PolicyToken K)),
      ((modifiedOf E s.toCorrSettings m).map h).rows = m.rows.map fun row => mapEntries h (g row) := by
    intro h m
    change (modifiedOf E s.toCorrSettings m).rows.map (mapEntries h) = _
    rw [hg, List.map_map]
    rfl
  unfold lossMat
  cases s.lossType with
  | ppoClip => exact ⟨_, hmap _⟩
  | reinforce =>
    unfold weightsOf
    rcases s.rolloutIs with _ | level
    · exact ⟨_, hmap _⟩
    · rcases s.rolloutIsThreshold with _ | threshold
      · exact ⟨_, hmap _⟩
      · refine ⟨fun row => List.zipWith (fun p w => (p.1 * w.1, p.2))
          (mapEntries (fun t => -t.advantage * t.logProb) (g row)) (isWeights E level threshold row), fun m => ?_⟩
        change List.zipWith (List.zipWith _) ((modifiedOf E s.toCorrSettings m).map _).rows
          (m.rows.map (isWeights E level threshold)) = _
        rw [hmap, List.zipWith_map, List.zipWith_self]

/-- A split of the rows of a batch into micro-batches. -/
structure IsSplit {α : Type} (mbs : List (LossMat α)) (batch : LossMat α) : Prop where
  width : ∀ mb ∈ mbs, mb.width = batch.width
  perm : (mbs.map (·.rows)).flatten.Perm batch.rows

omit [LinearOrder K] in
theorem sum_of_rows {α : Type} {loss : LossMat α → K} {term : List (α × Bool) → K} {factor : ℕ → K}
    (h : ∀ m, loss m = (m.rows.map term).sum * factor m.width) {mbs : List (LossMat α)} {batch : LossMat α}
    (hsplit : IsSplit mbs batch) : (mbs.map loss).sum = loss batch := by
  have hmb : ∀ mb ∈ mbs, loss mb = (mb.rows.map term).sum * factor batch.width := by
    intro mb hmb
    rw [h, hsplit.width mb hmb]
  rw [List.map_congr_left hmb, h batch, List.sum_map_mul_right, ← (hsplit.perm.map term).sum_eq, sum_map_flatten,
    List.map_map]
  rfl

/-- **The losses of micro-batches add up** to that of the batch. -/
theorem sum_bypassLoss {mbs : List (LossMat (PolicyToken K))} {batch : LossMat (PolicyToken K)}
    (hsplit : IsSplit mbs batch) : (mbs.map (bypassLoss E s info)).sum = bypassLoss E s info batch := by
  obtain ⟨f, hf⟩ := lossMat_rows E s
  set mode := s.actor.lossAggMode with hmode
  set norm : K := ((normOf mode info.batchNumTokens info.globalBatchSize : ℕ) : K) with hnorm
  refine @sum_of_rows K _ _ _ (fun row => rowTerm mode (f row))
    (fun width => info.dpSize / norm / (scaleOf mode info.lossScaleFactor width : ℕ)) (fun mb => ?_) mbs batch hsplit
  unfold bypassLoss
  rw [lossMat_width, hf, List.map_map, ← hmode, ← hnorm]
  simp only [div_eq_mul_inv, Function.comp_def]
  ring

/-! ## Safe splits -/

/-- **Every micro-batch returns**, and the losses add up to what the whole batch returns. -/
def MicroBatchSafe (E : Elementary K) (s : BypassSettings K) (info : GlobalBatchInfo)
    (mbs : List (LossMat (PolicyToken K))) (batch : LossMat (PolicyToken K)) : Prop :=
  ∃ outputs whole, mbs.mapM (computePolicyLossBypassMode E s info) = .ok outputs ∧
    computePolicyLossBypassMode E s info batch = .ok whole ∧ (outputs.map Prod.fst).sum = whole.1

omit [Field K] [LinearOrder K] in
theorem exists_microBatch {α : Type} {mbs : List (LossMat α)} {batch : LossMat α} (hsplit : IsSplit mbs batch)
    {row : List (α × Bool)} (hrow : row ∈ batch.rows) : ∃ mb ∈ mbs, row ∈ mb.rows := by
  obtain ⟨rows, hrows, hmem⟩ := List.mem_flatten.1 (hsplit.perm.mem_iff.2 hrow)
  obtain ⟨mb, hmb, rfl⟩ := List.mem_map.1 hrows
  exact ⟨mb, hmb, hmem⟩

omit [Field K] [LinearOrder K] in
theorem mem_batch {α : Type} {mbs : List (LossMat α)} {batch : LossMat α} (hsplit : IsSplit mbs batch)
    {mb : LossMat α} (hmb : mb ∈ mbs) {row : List (α × Bool)} (hrow : row ∈ mb.rows) : row ∈ batch.rows :=
  hsplit.perm.mem_iff.1 (List.mem_flatten.2 ⟨_, List.mem_map.2 ⟨mb, hmb, rfl⟩, hrow⟩)

theorem accepted_batch {mbs : List (LossMat (PolicyToken K))} {batch : LossMat (PolicyToken K)}
    (hsplit : IsSplit mbs batch) (hvalid : HasValidToken batch)
    (haccepted : ∀ mb ∈ mbs, Accepted E s.toCorrSettings mb) : Accepted E s.toCorrSettings batch := by
  have hvalid' := hvalid
  obtain ⟨row, hrow, -⟩ := hvalid
  obtain ⟨mb, hmb, -⟩ := exists_microBatch hsplit hrow
  refine ⟨hvalid', ?_⟩
  intro level hlevel threshold hthreshold lower hlower
  obtain ⟨row', hrow', hin⟩ := (haccepted mb hmb).bounds level hlevel threshold hthreshold lower hlower
  exact ⟨row', mem_batch hsplit hmb hrow', hin⟩

/-- **When a split is safe**: every micro-batch has a valid token and, if weights are
computed with a lower bound, one whose raw weight is within the bounds. -/
theorem microBatchSafe_iff [IsStrictOrderedRing K] (E : Elementary K) (s : BypassSettings K) (info : GlobalBatchInfo)
    {mbs : List (LossMat (PolicyToken K))} {batch : LossMat (PolicyToken K)} (hvalid : HasValidToken batch)
    (hsplit : IsSplit mbs batch) :
    MicroBatchSafe E s info mbs batch ↔ ∀ mb ∈ mbs, Accepted E s.toCorrSettings mb := by
  constructor
  · rintro ⟨outputs, -, hmbs, -⟩ mb hmb
    obtain ⟨⟨loss, metrics⟩, hout⟩ := ok_of_mapM hmbs hmb
    exact (bypassMode_ok_iff.1 ⟨metrics, hout⟩).1
  · intro haccepted
    have hok : ∀ mb, ∃ metrics, mb ∈ mbs →
        computePolicyLossBypassMode E s info mb = .ok (bypassLoss E s info mb, metrics) := by
      intro mb
      by_cases hmb : mb ∈ mbs
      · obtain ⟨metrics, hout⟩ := bypassMode_ok_iff.2 ⟨haccepted mb hmb, rfl⟩
        exact ⟨metrics, fun _ => hout⟩
      · exact ⟨[], fun h => absurd h hmb⟩
    choose metrics hmetrics using hok
    obtain ⟨whole, hwhole⟩ := bypassMode_ok_iff.2 ⟨accepted_batch hsplit hvalid haccepted, rfl⟩
    refine ⟨_, _, mapM_eq_map hmetrics, hwhole, ?_⟩
    rw [List.map_map]
    exact sum_bypassLoss hsplit

end

/-! ## Real numbers -/

noncomputable def realElementary : Elementary ℝ where
  exp := Real.exp
  log := Real.log
  sqrt := Real.sqrt
  exp_pos := Real.exp_pos

def oneTokenRows {α : Type} (t : α) (mask : List Bool) : LossMat α where
  width := 1
  rows := mask.map fun valid => [(t, valid)]
  row_length := by
    intro row hrow
    obtain ⟨valid, -, rfl⟩ := List.mem_map.1 hrow
    rfl

/-- A token both policies find equally likely: its weight is 1. -/
def evenToken : PolicyToken ℝ := ⟨0, 0, 1⟩

/-- REINFORCE with token weights between `lower` and 3. -/
noncomputable def icePopSettings (lower : ℝ) (hpos : 0 < lower) (hle : lower ≤ 3) : BypassSettings ℝ where
  rolloutIs := some .token
  rolloutIsThreshold := some
    { upper := 3
      lower := some lower
      upper_pos := by norm_num
      lower_pos := by
        rintro l ⟨⟩
        exact hpos
      lower_le := by
        rintro l ⟨⟩
        exact hle }
  rolloutRs := none
  lossType := .reinforce
  actor := ⟨1 / 5, none, none, 3, by norm_num, .tokenMean⟩

theorem pos_of_mem_none : ∀ n ∈ (none : Option ℕ), 0 < n := fun _ h => absurd h (Option.not_mem_none _)

def unitInfo : GlobalBatchInfo := ⟨1, 1, 1, none, Nat.one_pos, Nat.one_pos, pos_of_mem_none⟩

theorem rawWeights_evenToken : rawWeights realElementary .token [(evenToken, true)] = [(1, true)] := by
  have hratio : logRatio evenToken = 0 := sub_self _
  have hclamp : clampSafe (0 : ℝ) = 0 := by
    unfold clampSafe clamp safetyBound
    rw [max_eq_left (by norm_num), min_eq_left (by norm_num)]
  have hexp : realElementary.exp 0 = 1 := Real.exp_zero
  unfold rawWeights
  simp only [List.map_cons, List.map_nil, hratio, hclamp, hexp, mask01, if_true, mul_one]

theorem accepted_evenToken_iff (lower : ℝ) (hpos : 0 < lower) (hle : lower ≤ 3) :
    Accepted realElementary (icePopSettings lower hpos hle).toCorrSettings (oneTokenRows evenToken [true]) ↔
      lower ≤ 1 := by
  constructor
  · intro h
    obtain ⟨row, hrow, w, hw, -, hlower, -⟩ := h.bounds .token rfl _ rfl lower rfl
    obtain rfl := List.mem_singleton.1 hrow
    rw [rawWeights_evenToken] at hw
    obtain rfl := List.mem_singleton.1 hw
    exact hlower
  · intro h
    refine ⟨⟨_, List.mem_singleton_self _, _, List.mem_singleton_self _, rfl⟩, ?_⟩
    rintro _ ⟨⟩ _ ⟨⟩ _ ⟨⟩
    refine ⟨_, List.mem_singleton_self _, (1, true), ?_, rfl, h, ?_⟩
    · rw [rawWeights_evenToken]
      exact List.mem_singleton_self _
    · change (1 : ℝ) ≤ 3
      norm_num

theorem isSplit_twoRows (a b : Bool) :
    IsSplit [oneTokenRows evenToken [a], oneTokenRows evenToken [b]] (oneTokenRows evenToken [a, b]) where
  width := by
    intro mb hmb
    rcases List.mem_pair.1 hmb with rfl | rfl <;> rfl
  perm := List.Perm.refl _

theorem microBatchSafe_evenRows :
    MicroBatchSafe realElementary (icePopSettings 1 one_pos (by norm_num)) unitInfo
      [oneTokenRows evenToken [true], oneTokenRows evenToken [true]] (oneTokenRows evenToken [true, true]) := by
  refine (microBatchSafe_iff _ _ _ ?_ (isSplit_twoRows true true)).2 ?_
  · exact ⟨_, List.mem_cons_self, _, List.mem_singleton_self _, rfl⟩
  · intro mb hmb
    rcases List.mem_pair.1 hmb with rfl | rfl <;> exact (accepted_evenToken_iff 1 _ _).2 (le_refl _)

/-- **A micro-batch of padding alone is refused**, and so is a valid row whose weights are
all outside the bounds. -/
theorem paddingRow_refused :
    (∀ s info, computePolicyLossBypassMode realElementary s info (oneTokenRows evenToken [false]) =
        .error "response_mask must contain at least one valid token (1).") ∧
      (∀ info, ¬ ∃ out, computePolicyLossBypassMode realElementary (icePopSettings 2 two_pos (by norm_num)) info
        (oneTokenRows evenToken [true]) = .ok out) ∧
      ¬ ∀ s info mbs, ∀ batch : LossMat (PolicyToken ℝ), HasValidToken batch → IsSplit mbs batch →
        MicroBatchSafe realElementary s info mbs batch := by
  have hpadding : ∀ s info, computePolicyLossBypassMode realElementary s info (oneTokenRows evenToken [false]) =
      .error "response_mask must contain at least one valid token (1)." := fun s info => rfl
  refine ⟨hpadding, ?_, ?_⟩
  · rintro info ⟨⟨loss, metrics⟩, hout⟩
    have haccepted := (bypassMode_ok_iff.1 ⟨metrics, hout⟩).1
    have hlower : (2 : ℝ) ≤ 1 := (accepted_evenToken_iff 2 _ _).1 haccepted
    norm_num at hlower
  · intro h
    obtain ⟨outputs, -, hmbs, -⟩ := h (icePopSettings 1 one_pos (by norm_num)) unitInfo _ _
      ⟨_, List.mem_cons_self, _, List.mem_singleton_self _, rfl⟩ (isSplit_twoRows true false)
    obtain ⟨out, hout⟩ := ok_of_mapM hmbs (List.mem_cons_of_mem _ (List.mem_singleton_self _))
    rw [hpadding] at hout
    exact absurd hout (by simp)

end Opd.Verl.BypassMode

import Opd.Verl.BypassMode

/-!
# The policy losses over micro-batches

Seven of the registered losses are aggregated by `agg_loss` with the global numbers, and add up over micro-batches. The
eighth, `geo_mean`, is the mean over the rows of the micro-batch itself.

* `policyLoss`: the registered losses.
* `policyLoss_aggregated`: seven losses are sums over rows over a global number.
* `vanilla_eq_bypass`: the vanilla loss is that of bypass mode.
* `geoMean_condition`: the splits that the mean over rows allows.
* `policyLoss_iff`: when a loss is additive.
-/

namespace Opd.Verl.PolicyLosses

open RolloutCorr BypassMode

variable {K : Type} [Field K] [LinearOrder K]

/-! ## Settings -/

/-- `register_policy_loss`: the losses without statistics of the batch. -/
inductive PolicyLoss
  | vanilla
  | dppoTv
  | dppoKl
  | gspo
  | sapo
  | gpg
  | geoMean
  | cispo
  deriving DecidableEq

/-- What the losses read of `ActorConfig`. -/
structure ActorConfig (K : Type) where
  clipRatio : K
  clipRatioLow : Option K
  clipRatioHigh : Option K
  clipRatioC : K
  tauPos : K
  tauNeg : K
  lossAggMode : LossAggMode

structure WeightedToken (K : Type) extends PolicyToken K where
  isWeight : K

/-- `config.clip_ratio_low if config.clip_ratio_low is not None else config.clip_ratio` -/
def ActorConfig.low (c : ActorConfig K) : K := c.clipRatioLow.getD c.clipRatio

/-- `config.clip_ratio_high if config.clip_ratio_high is not None else config.clip_ratio` -/
def ActorConfig.high (c : ActorConfig K) : K := c.clipRatioHigh.getD c.clipRatio

/-! ## Losses of single tokens -/

section Tokens

variable (exp log : K → K) (c : ActorConfig K)

/-- `ratio`, with the clamped `negative_approx_kl`. -/
def ratio (t : PolicyToken K) : K := exp (clampSafe (logRatio t))

/-- `pg_losses1` of the vanilla loss. -/
def pgLosses1 (t : PolicyToken K) : K := -t.advantage * ratio exp t

/-- `pg_losses2` of the vanilla loss. -/
def pgLosses2 (t : PolicyToken K) : K := -t.advantage * clamp (ratio exp t) (1 - c.low) (1 + c.high)

/-- `clip_pg_losses1` -/
def clipPgLosses1 (t : PolicyToken K) : K := max (pgLosses1 exp t) (pgLosses2 exp c t)

/-- `pg_losses3` -/
def pgLosses3 (t : PolicyToken K) : K := -t.advantage * c.clipRatioC

/-- `pg_losses` of the vanilla loss. -/
def vanillaPgLosses (t : PolicyToken K) : K :=
  if t.advantage < 0 then min (pgLosses3 c t) (clipPgLosses1 exp c t) else clipPgLosses1 exp c t

/-- `valid_mask` of DPPO-Binary-TV. -/
def dppoTvValid (t : PolicyToken K) : Bool :=
  let prob := exp t.logProb
  let oldProb := exp t.oldLogProb
  if 0 < t.advantage then prob - oldProb ≤ c.high else -c.low ≤ prob - oldProb

/-- `binary_kl` -/
def binaryKl (t : PolicyToken K) : K :=
  let prob := exp t.logProb
  let oldProb := exp t.oldLogProb
  oldProb * (t.oldLogProb - t.logProb) + (1 - oldProb) * log ((1 - oldProb + eps) / (1 - prob + eps))

/-- `valid_mask` of DPPO-Binary-KL. -/
def dppoKlValid (t : PolicyToken K) : Bool :=
  let prob := exp t.logProb
  let oldProb := exp t.oldLogProb
  if 0 < t.advantage then binaryKl exp log t ≤ c.high ∨ prob ≤ oldProb
  else binaryKl exp log t ≤ c.low ∨ oldProb ≤ prob

/-- `pg_losses` of both DPPO losses, with their `valid_mask`. -/
def dppoPgLosses (valid : PolicyToken K → Bool) (t : PolicyToken K) : K :=
  -t.advantage * min (ratio exp t) c.clipRatioC * t.logProb * indicator (valid t)

/-- `torch.sigmoid` -/
def sigmoid (x : K) : K := 1 / (1 + exp (-x))

/-- `gate_function` -/
def gateFunction (x tau : K) : K := sigmoid exp (tau * (x - 1)) * (((4 : ℕ) : K) / tau)

/-- `taus` -/
def taus (t : PolicyToken K) : K := if 0 < t.advantage then c.tauPos else c.tauNeg

/-- `pg_losses` of SAPO. -/
def sapoPgLosses (t : PolicyToken K) : K := -gateFunction exp (ratio exp t) (taus c t) * t.advantage

/-- `clipped_ratio` of CISPO. -/
def clippedRatio (t : PolicyToken K) : K := clamp (ratio exp t) (1 - c.low) (1 + c.high)

/-- `pg_losses` of CISPO. -/
def cispoPgLosses (t : PolicyToken K) : K := -clippedRatio exp c t * t.advantage * t.logProb

end Tokens

/-! ## Losses of rows -/

section Rows

variable (exp log : K → K) (c : ActorConfig K)

/-- `seq_importance_ratio` of a row. -/
def seqImportanceRatio (row : List (WeightedToken K × Bool)) : K :=
  let seqLength := max (tokenCount row) 1
  exp (min (tokenSum (mapEntries (fun t => logRatio t.toPolicyToken) row) / (seqLength : ℕ)) ((10 : ℕ) : K))

/-- `pg_losses1` of GSPO. -/
def gspoPgLosses1 (row : List (WeightedToken K × Bool)) (t : WeightedToken K) : K :=
  -t.advantage * seqImportanceRatio exp row

/-- `pg_losses2` of GSPO. -/
def gspoPgLosses2 (row : List (WeightedToken K × Bool)) (t : WeightedToken K) : K :=
  -t.advantage * clamp (seqImportanceRatio exp row) (1 - c.low) (1 + c.high)

/-- `pg_losses` of GSPO, of a row. -/
def gspoPgLosses (row : List (WeightedToken K × Bool)) : List (K × Bool) :=
  mapEntries (fun t => max (gspoPgLosses1 exp row t) (gspoPgLosses2 exp c row t)) row

/-- `torch.sign` -/
def sign (x : K) : K := if 0 < x then 1 else if x < 0 then -1 else 0

/-- `negative_approx_kl_clamp` of the geometric mean. -/
def negativeApproxKlClamp (t : PolicyToken K) : K := clamp (logRatio t) (-c.low) c.high

/-- `negative_approx_kl_min` -/
def negativeApproxKlMin (t : PolicyToken K) : K :=
  sign t.advantage *
    min (sign t.advantage * logRatio t) (sign t.advantage * negativeApproxKlClamp c t)

def overMaskSum (f : WeightedToken K → K) (row : List (WeightedToken K × Bool)) : K :=
  tokenSum (mapEntries f row) / (tokenCount row + eps)

/-- `pg_losses` of the geometric mean, of a row. -/
def geoMeanPgLoss (weighted : Bool) (row : List (WeightedToken K × Bool)) : K :=
  let ratio := exp (overMaskSum (fun t => negativeApproxKlMin c t.toPolicyToken) row)
  let advantage := overMaskSum (fun t => t.advantage) row
  let pgLoss := -advantage * ratio
  if weighted then pgLoss * exp (overMaskSum (fun t => log (t.isWeight + ((10 ^ 10 : ℕ) : K)⁻¹)) row) else pgLoss

end Rows

/-! ## The registered losses -/

section Losses

variable (exp log : K → K) (c : ActorConfig K) (info : GlobalBatchInfo) (weighted : Bool) (m : LossMat (WeightedToken K))

/-- `agg_loss` with `config.global_batch_info`. -/
def aggregateLoss (mode : LossAggMode) (pgLosses : LossMat K) : Except String K :=
  aggLoss pgLosses mode info.dpSize (some info.batchNumTokens) (some info.globalBatchSize) info.lossScaleFactor

/-- `pg_losses * rollout_is_weights`, if there are weights. -/
def withWeights (pgLosses : LossMat K) : LossMat K :=
  applyWeights pgLosses (if weighted then some (m.map WeightedToken.isWeight) else none)

/-- `masked_mean` of a function of the tokens. -/
def tokenMetric (f : PolicyToken K → K) : K := maskedMean (mapEntries (fun t => f t.toPolicyToken) m.rows.flatten)

/-- The last steps of seven losses: the weights, `agg_loss` and the metrics. -/
def aggregated (mode : LossAggMode) (pgLosses : LossMat K) (metrics : Metrics K) : Except String (K × Metrics K) :=
  (aggregateLoss info mode (withWeights weighted m pgLosses)).map fun pgLoss => (pgLoss, metrics)

/-- `compute_policy_loss_vanilla` -/
def computePolicyLossVanilla : Except String (K × Metrics K) :=
  if 1 < c.clipRatioC then
    aggregated info weighted m c.lossAggMode (m.map fun t => vanillaPgLosses exp c t.toPolicyToken)
      [("actor/pg_clipfrac", tokenMetric m fun t => indicator (pgLosses1 exp t < pgLosses2 exp c t)),
        ("actor/ppo_kl", tokenMetric m fun t => -clampSafe (logRatio t)),
        ("actor/pg_clipfrac_lower", tokenMetric m fun t =>
          indicator (pgLosses3 c t < clipPgLosses1 exp c t) * indicator (t.advantage < 0))]
  else .error "The lower bound of the clip_ratio_c for dual-clip PPO should be greater than 1.0,"

/-- `compute_policy_loss_dppo_tv` and `compute_policy_loss_dppo_kl`, with their `valid_mask`. -/
def computePolicyLossDppo (valid : PolicyToken K → Bool) : Except String (K × Metrics K) :=
  aggregated info weighted m c.lossAggMode (m.map fun t => dppoPgLosses exp c valid t.toPolicyToken)
    [("actor/pg_clipfrac", tokenMetric m fun t => 1 - indicator (valid t)),
      ("actor/ppo_kl", tokenMetric m fun t => -clampSafe (logRatio t)),
      ("actor/pg_clipfrac_lower", tokenMetric m fun t => indicator (c.clipRatioC < ratio exp t) * indicator (valid t))]

/-- `compute_policy_loss_dppo_tv` -/
def computePolicyLossDppoTv : Except String (K × Metrics K) :=
  computePolicyLossDppo exp c info weighted m (dppoTvValid exp c)

/-- `compute_policy_loss_dppo_kl` -/
def computePolicyLossDppoKl : Except String (K × Metrics K) :=
  computePolicyLossDppo exp c info weighted m (dppoKlValid exp log c)

theorem length_gspoPgLosses (row : List (WeightedToken K × Bool)) : (gspoPgLosses exp c row).length = row.length :=
  List.length_map _

/-- `compute_policy_loss_gspo`, which is aggregated by `seq-mean-token-mean` in every mode. -/
def computePolicyLossGspo : Except String (K × Metrics K) :=
  aggregated info weighted m .seqMeanTokenMean (mapRows (gspoPgLosses exp c) (length_gspoPgLosses exp c) m)
    [("actor/pg_clipfrac", maskedMean (m.rows.map fun row =>
        mapEntries (fun t => indicator (gspoPgLosses1 exp row t < gspoPgLosses2 exp c row t)) row).flatten),
      ("actor/ppo_kl", tokenMetric m fun t => -logRatio t),
      ("actor/pg_clipfrac_lower", 0)]

/-- `compute_policy_loss_sapo`, which is aggregated by `seq-mean-token-mean` in every mode. -/
def computePolicyLossSapo : Except String (K × Metrics K) :=
  aggregated info weighted m .seqMeanTokenMean (m.map fun t => sapoPgLosses exp c t.toPolicyToken)
    [("actor/pg_clipfrac", 0), ("actor/ppo_kl", tokenMetric m fun t => -clampSafe (logRatio t)),
      ("actor/pg_clipfrac_lower", 0)]

/-- `compute_policy_loss_gpg` -/
def computePolicyLossGpg : Except String (K × Metrics K) :=
  aggregated info weighted m c.lossAggMode (m.map fun t => -t.logProb * t.advantage) []

/-- `compute_policy_loss_geo_mean`: neither `loss_agg_mode` nor `global_batch_info` is read. -/
def computePolicyLossGeoMean : Except String (K × Metrics K) :=
  let clipped := fun t : PolicyToken K => decide (logRatio t ≠ negativeApproxKlClamp c t)
  .ok (mean (m.rows.map (geoMeanPgLoss exp log c weighted)),
    [("actor/pg_clipfrac", tokenMetric m fun t => indicator (clipped t && decide (0 < t.advantage))),
      ("actor/ppo_kl", tokenMetric m fun t => -logRatio t),
      ("actor/pg_clipfrac_lower", tokenMetric m fun t => indicator (clipped t && decide (t.advantage < 0)))])

/-- `compute_policy_loss_cispo` -/
def computePolicyLossCispo : Except String (K × Metrics K) :=
  aggregated info weighted m c.lossAggMode (m.map fun t => cispoPgLosses exp c t.toPolicyToken)
    [("actor/pg_clipfrac", tokenMetric m fun t => indicator (ratio exp t ≠ clippedRatio exp c t)),
      ("actor/ppo_kl", tokenMetric m fun t => -clampSafe (logRatio t)),
      ("actor/pg_clipfrac_lower", 0)]

/-- `get_policy_loss_fn` -/
def policyLoss (loss : PolicyLoss) : Except String (K × Metrics K) :=
  match loss with
  | .vanilla => computePolicyLossVanilla exp c info weighted m
  | .dppoTv => computePolicyLossDppoTv exp c info weighted m
  | .dppoKl => computePolicyLossDppoKl exp log c info weighted m
  | .gspo => computePolicyLossGspo exp c info weighted m
  | .sapo => computePolicyLossSapo exp c info weighted m
  | .gpg => computePolicyLossGpg c info weighted m
  | .geoMean => computePolicyLossGeoMean exp log c weighted m
  | .cispo => computePolicyLossCispo exp c info weighted m

def pgLoss (loss : PolicyLoss) : Except String K := (policyLoss exp log c info weighted m loss).map Prod.fst

end Losses

/-! ## The loss of bypass mode -/

def configOf (actor : ActorSettings K) (tauPos tauNeg : K) : ActorConfig K :=
  ⟨actor.clipRatio, actor.clipRatioLow, actor.clipRatioHigh, actor.clipRatioC, tauPos, tauNeg, actor.lossAggMode⟩

theorem mapEntries_map {α β γ : Type} (g : β → γ) (f : α → β) (row : List (α × Bool)) :
    mapEntries g (mapEntries f row) = mapEntries (fun a => g (f a)) row := by
  unfold mapEntries
  rw [List.map_map]
  rfl

theorem map_map_rows {α β γ : Type} (g : β → γ) (f : α → β) (m : LossMat α) :
    (m.map f).map g = m.map fun a => g (f a) := by
  unfold LossMat.map
  simp only [List.map_map, Function.comp_def, mapEntries_map]

omit [LinearOrder K] in
theorem tokenMetric_eq (m : LossMat (WeightedToken K)) (f : PolicyToken K → K) :
    maskedMean (mapEntries f (m.map WeightedToken.toPolicyToken).rows.flatten) = tokenMetric m f := by
  unfold tokenMetric
  show maskedMean (mapEntries f (m.rows.map (mapEntries WeightedToken.toPolicyToken)).flatten) = _
  have hflatten : (m.rows.map (mapEntries WeightedToken.toPolicyToken)).flatten =
      mapEntries WeightedToken.toPolicyToken m.rows.flatten := by
    unfold mapEntries
    rw [List.map_flatten]
  rw [hflatten, mapEntries_map]

/-- **The vanilla loss without weights** is the clipped loss of bypass mode. -/
theorem vanilla_eq_bypass (E : Elementary K) (actor : ActorSettings K) (info : GlobalBatchInfo) (tauPos tauNeg : K)
    (m : LossMat (WeightedToken K)) :
    policyLoss E.exp E.log (configOf actor tauPos tauNeg) info false m .vanilla =
      BypassMode.computePolicyLossVanilla E actor info (m.map WeightedToken.toPolicyToken) none := by
  show computePolicyLossVanilla E.exp (configOf actor tauPos tauNeg) info false m = _
  have hc : 1 < (configOf actor tauPos tauNeg).clipRatioC := actor.one_lt_clipRatioC
  unfold computePolicyLossVanilla BypassMode.computePolicyLossVanilla
  rw [if_pos hc]
  simp only [tokenMetric_eq, applyWeights, map_map_rows]
  unfold aggregated
  show Except.map _ (aggregate actor info (m.map fun t => clippedPgLoss E actor t.toPolicyToken)) = _
  cases aggregate actor info (m.map fun t => clippedPgLoss E actor t.toPolicyToken) with
  | error e => rfl
  | ok loss => rfl

/-! ## The losses that are aggregated -/

omit [LinearOrder K] in
theorem tokenSum_masked {row : List (K × Bool)} (h : tokenCount row = 0) : tokenSum row = 0 := by
  unfold tokenSum
  refine List.sum_eq_zero fun x hx => ?_
  obtain ⟨p, hp, rfl⟩ := List.mem_map.1 hx
  rw [tokenCount_eq_zero_iff.1 h p hp, mask01, if_neg Bool.false_ne_true, mul_zero]

omit [LinearOrder K] in
theorem rowTerm_masked (mode : LossAggMode) {row : List (K × Bool)} (h : tokenCount row = 0) : rowTerm mode row = 0 := by
  have hcount : ¬ 0 < tokenCount row := by omega
  cases mode with
  | tokenMean =>
    show maskedSum row = 0
    unfold maskedSum
    refine List.sum_eq_zero fun x hx => ?_
    obtain ⟨p, hp, rfl⟩ := List.mem_map.1 hx
    rw [tokenCount_eq_zero_iff.1 h p hp, if_neg Bool.false_ne_true, zero_mul]
  | seqMeanTokenSum => exact if_neg hcount
  | seqMeanTokenSumNorm => exact if_neg hcount
  | seqMeanTokenMean => exact if_neg hcount

section Aggregated

variable {exp log : K → K} {c : ActorConfig K} {info : GlobalBatchInfo} {weighted : Bool} {loss : PolicyLoss}

def weigh (weighted : Bool) (f : WeightedToken K → K) (t : WeightedToken K) : K :=
  if weighted then f t * t.isWeight else f t

omit [LinearOrder K] in
theorem withWeights_rows (weighted : Bool) {m : LossMat (WeightedToken K)} {pgLosses : LossMat K}
    {f : List (WeightedToken K × Bool) → WeightedToken K → K} (hwidth : pgLosses.width = m.width)
    (hrows : pgLosses.rows = m.rows.map fun row => mapEntries (f row) row) :
    (withWeights weighted m pgLosses).width = m.width ∧
      (withWeights weighted m pgLosses).rows = m.rows.map fun row => mapEntries (weigh weighted (f row)) row := by
  cases weighted with
  | false => exact ⟨hwidth, hrows⟩
  | true =>
    refine ⟨(congrArg (min · m.width) hwidth).trans (min_self _), ?_⟩
    show List.zipWith (List.zipWith _) pgLosses.rows (m.rows.map (mapEntries WeightedToken.isWeight)) = _
    rw [hrows, List.zipWith_map, List.zipWith_self]
    refine List.map_congr_left fun row _ => ?_
    unfold mapEntries
    rw [List.zipWith_map, List.zipWith_self]
    rfl

def rowSum (info : GlobalBatchInfo) (mode : LossAggMode) (f : List (WeightedToken K × Bool) → List (K × Bool))
    (m : LossMat (WeightedToken K)) : K :=
  (m.rows.map fun row => rowTerm mode (f row)).sum /
    (normOf mode info.batchNumTokens info.globalBatchSize : ℕ) * info.dpSize / (scaleOf mode info.lossScaleFactor m.width : ℕ)

def IsRowSum (exp log : K → K) (c : ActorConfig K) (info : GlobalBatchInfo) (weighted : Bool) (loss : PolicyLoss) : Prop :=
  ∃ (mode : LossAggMode) (f : List (WeightedToken K × Bool) → List (K × Bool)),
    (∀ row, tokenCount (f row) = tokenCount row) ∧
      ∀ m, pgLoss exp log c info weighted m loss = .ok (rowSum info mode f m)

theorem isRowSum_of (mode : LossAggMode) (f : List (WeightedToken K × Bool) → WeightedToken K → K)
    (hloss : ∀ m, ∃ pgLosses metrics, policyLoss exp log c info weighted m loss =
      aggregated info weighted m mode pgLosses metrics ∧ pgLosses.width = m.width ∧
        pgLosses.rows = m.rows.map fun row => mapEntries (f row) row) :
    IsRowSum exp log c info weighted loss := by
  refine ⟨mode, fun row => mapEntries (weigh weighted (f row)) row, fun row => tokenCount_mapEntries _ _, fun m => ?_⟩
  obtain ⟨pgLosses, metrics, hmetrics, hwidth, hrows⟩ := hloss m
  obtain ⟨hwidth', hrows'⟩ := withWeights_rows weighted hwidth hrows
  unfold pgLoss rowSum
  rw [hmetrics]
  unfold aggregated aggregateLoss
  rw [aggLoss_eq, hwidth', hrows', List.map_map]
  rfl

/-- **Seven losses are sums over rows**, unless the setting of the dual clip is refused. -/
theorem policyLoss_aggregated (exp log : K → K) (c : ActorConfig K) (info : GlobalBatchInfo) (weighted : Bool)
    (hloss : loss ≠ .geoMean) :
    (∃ e, ∀ m, pgLoss exp log c info weighted m loss = .error e) ∨ IsRowSum exp log c info weighted loss := by
  cases loss with
  | vanilla =>
    by_cases hc : 1 < c.clipRatioC
    · exact .inr (isRowSum_of c.lossAggMode (fun _ t => vanillaPgLosses exp c t.toPolicyToken) fun m =>
        ⟨_, _, if_pos hc, rfl, rfl⟩)
    · exact .inl ⟨_, fun m => congrArg (Except.map Prod.fst) (if_neg hc)⟩
  | dppoTv =>
    exact .inr (isRowSum_of c.lossAggMode (fun _ t => dppoPgLosses exp c (dppoTvValid exp c) t.toPolicyToken) fun m =>
      ⟨_, _, rfl, rfl, rfl⟩)
  | dppoKl =>
    exact .inr (isRowSum_of c.lossAggMode (fun _ t => dppoPgLosses exp c (dppoKlValid exp log c) t.toPolicyToken) fun m =>
      ⟨_, _, rfl, rfl, rfl⟩)
  | gspo =>
    exact .inr (isRowSum_of .seqMeanTokenMean
      (fun row t => max (gspoPgLosses1 exp row t) (gspoPgLosses2 exp c row t)) fun m =>
      ⟨_, _, rfl, rfl, rfl⟩)
  | sapo =>
    exact .inr (isRowSum_of .seqMeanTokenMean (fun _ t => sapoPgLosses exp c t.toPolicyToken) fun m =>
      ⟨_, _, rfl, rfl, rfl⟩)
  | gpg =>
    exact .inr (isRowSum_of c.lossAggMode (fun _ t => -t.logProb * t.advantage) fun m =>
      ⟨_, _, rfl, rfl, rfl⟩)
  | geoMean => exact absurd rfl hloss
  | cispo =>
    exact .inr (isRowSum_of c.lossAggMode (fun _ t => cispoPgLosses exp c t.toPolicyToken) fun m =>
      ⟨_, _, rfl, rfl, rfl⟩)

end Aggregated

/-! ## Micro-batches -/

section MicroBatches

variable (exp log : K → K) (c : ActorConfig K) (info : GlobalBatchInfo) (weighted : Bool) (loss : PolicyLoss)

/-- **The losses of the micro-batches** add up to the loss of the batch. -/
def Additive (mbs : List (LossMat (WeightedToken K))) (batch : LossMat (WeightedToken K)) : Prop :=
  (mbs.mapM fun mb => pgLoss exp log c info weighted mb loss).map List.sum = pgLoss exp log c info weighted batch loss

/-- **A row without a valid token contributes nothing**: without the row the loss is the same. -/
def MaskedRowsNeutral (batch : LossMat (WeightedToken K)) : Prop :=
  ∀ (before after : List (List (WeightedToken K × Bool))) (row : List (WeightedToken K × Bool))
    (rest : LossMat (WeightedToken K)), batch.rows = before ++ row :: after → tokenCount row = 0 →
    rest.width = batch.width → rest.rows = before ++ after → rest.rows ≠ [] →
      pgLoss exp log c info weighted rest loss = pgLoss exp log c info weighted batch loss

/-- The masks of the rows of some micro-batches, none of them empty. -/
structure MaskSplit where
  width : ℕ
  masks : List (List (List Bool))
  ne_nil : masks ≠ []
  part_ne_nil : ∀ part ∈ masks, part ≠ []
  length_mask : ∀ part ∈ masks, ∀ mask ∈ part, mask.length = width

def AdditiveFor (s : MaskSplit) : Prop :=
  ∀ (mbs : List (LossMat (WeightedToken K))) (batch : LossMat (WeightedToken K)),
    mbs.map (fun mb => maskRows mb.rows) = s.masks → IsSplit mbs batch →
      Additive exp log c info weighted loss mbs batch ∧ MaskedRowsNeutral exp log c info weighted loss batch

variable {exp log c info weighted loss}

variable {mbs : List (LossMat (WeightedToken K))}

theorem additive_of_error {e : String} (h : ∀ m, pgLoss exp log c info weighted m loss = .error e)
    {batch : LossMat (WeightedToken K)} (hne : mbs ≠ []) : Additive exp log c info weighted loss mbs batch := by
  obtain ⟨mb, rest, rfl⟩ := List.exists_cons_of_ne_nil hne
  unfold Additive
  rw [List.mapM_cons, h mb, h batch]
  rfl

theorem additive_of_rowSum {mode : LossAggMode} {f : List (WeightedToken K × Bool) → List (K × Bool)}
    (h : ∀ m, pgLoss exp log c info weighted m loss = .ok (rowSum info mode f m)) {batch : LossMat (WeightedToken K)}
    (hsplit : IsSplit mbs batch) : Additive exp log c info weighted loss mbs batch := by
  unfold Additive
  simp only [h]
  rw [mapM_ok]
  refine congrArg Except.ok ?_
  refine @sum_of_rows K _ _ _ (fun row => rowTerm mode (f row))
    (fun width => info.dpSize / (normOf mode info.batchNumTokens info.globalBatchSize : ℕ) /
      (scaleOf mode info.lossScaleFactor width : ℕ)) (fun mb => ?_) mbs batch hsplit
  unfold rowSum
  simp only [div_eq_mul_inv]
  ring

theorem neutral_of_rowSum {mode : LossAggMode} {f : List (WeightedToken K × Bool) → List (K × Bool)}
    (hf : ∀ row, tokenCount (f row) = tokenCount row)
    (h : ∀ m, pgLoss exp log c info weighted m loss = .ok (rowSum info mode f m)) (batch : LossMat (WeightedToken K)) :
    MaskedRowsNeutral exp log c info weighted loss batch := by
  intro before after row rest hrows hmasked hwidth hrest _
  have hzero : rowTerm mode (f row) = 0 := rowTerm_masked mode ((hf row).trans hmasked)
  rw [h, h]
  unfold rowSum
  rw [hrows, hrest, hwidth, List.map_append, List.map_append, List.map_cons, List.sum_append, List.sum_append,
    List.sum_cons, hzero, zero_add]

omit [Field K] [LinearOrder K] in
theorem ne_nil_of_masks {s : MaskSplit} (hmasks : mbs.map (fun mb => maskRows mb.rows) = s.masks) : mbs ≠ [] := by
  rintro rfl
  exact s.ne_nil hmasks.symm

/-- **Seven losses are additive** for every split of every batch. -/
theorem additiveFor_of_ne (hloss : loss ≠ .geoMean) (s : MaskSplit) :
    AdditiveFor exp log c info weighted loss s := by
  intro mbs batch hmasks hsplit
  rcases policyLoss_aggregated exp log c info weighted hloss with ⟨e, herror⟩ | ⟨mode, f, hf, hsum⟩
  · refine ⟨additive_of_error herror (ne_nil_of_masks hmasks), ?_⟩
    intro before after row rest _ _ _ _ _
    rw [herror, herror]
  · exact ⟨additive_of_rowSum hsum hsplit, neutral_of_rowSum hf hsum batch⟩

/-! ## The geometric mean -/

theorem pgLoss_geoMean (m : LossMat (WeightedToken K)) : pgLoss exp log c info weighted m .geoMean =
    .ok (mean (m.rows.map (geoMeanPgLoss exp log c weighted))) := rfl

theorem geoMeanPgLoss_zero {row : List (WeightedToken K × Bool)}
    (h : tokenSum (mapEntries (fun t => t.advantage) row) = 0) : geoMeanPgLoss exp log c weighted row = 0 := by
  have hadvantage : overMaskSum (fun t : WeightedToken K => t.advantage) row = 0 := by
    unfold overMaskSum
    rw [h, zero_div]
  unfold geoMeanPgLoss
  simp only [hadvantage, neg_zero, zero_mul, ite_self]

theorem geoMeanPgLoss_masked {row : List (WeightedToken K × Bool)} (h : tokenCount row = 0) :
    geoMeanPgLoss exp log c weighted row = 0 :=
  geoMeanPgLoss_zero (tokenSum_masked ((tokenCount_mapEntries _ row).trans h))

omit [LinearOrder K] in
theorem mean_zero {l : List K} (h : ∀ x ∈ l, x = 0) : mean l = 0 := by
  unfold mean
  rw [List.sum_eq_zero h, zero_div]

omit [LinearOrder K] in
theorem mean_perm {l l' : List K} (h : l.Perm l') : mean l = mean l' := by
  unfold mean
  rw [h.sum_eq, h.length_eq]

theorem geoMean_of_masked {s : MaskSplit} (hnone : ∀ part ∈ s.masks, ∀ mask ∈ part, mask.count true = 0) :
    AdditiveFor exp log c info weighted .geoMean s := by
  intro mbs batch hmasks hsplit
  have hrow : ∀ mb ∈ mbs, ∀ row ∈ mb.rows, geoMeanPgLoss exp log c weighted row = 0 := by
    intro mb hmb row hrow
    refine geoMeanPgLoss_masked ?_
    rw [tokenCount_eq]
    refine hnone (maskRows mb.rows) ?_ _ (List.mem_map_of_mem hrow)
    rw [← hmasks]
    exact List.mem_map_of_mem hmb
  have hbatch : ∀ row ∈ batch.rows, geoMeanPgLoss exp log c weighted row = 0 := by
    intro row hmem
    obtain ⟨rows, hrows, hmem⟩ := List.mem_flatten.1 (hsplit.perm.mem_iff.2 hmem)
    obtain ⟨mb, hmb, rfl⟩ := List.mem_map.1 hrows
    exact hrow mb hmb row hmem
  have hmean : ∀ rows : List (List (WeightedToken K × Bool)), (∀ row ∈ rows, geoMeanPgLoss exp log c weighted row = 0) →
      mean (rows.map (geoMeanPgLoss exp log c weighted)) = 0 := by
    intro rows h
    refine mean_zero fun x hx => ?_
    obtain ⟨row, hmem, rfl⟩ := List.mem_map.1 hx
    exact h row hmem
  constructor
  · unfold Additive
    simp only [pgLoss_geoMean]
    rw [mapM_ok, hmean _ hbatch]
    refine congrArg Except.ok (List.sum_eq_zero fun x hx => ?_)
    obtain ⟨mb, hmb, rfl⟩ := List.mem_map.1 hx
    exact hmean _ (hrow mb hmb)
  · intro before after row rest hrows _ _ hrest _
    rw [pgLoss_geoMean, pgLoss_geoMean, hmean _ hbatch, hmean _ fun row hmem => hbatch row ?_]
    rw [hrest] at hmem
    rw [hrows]
    rcases List.mem_append.1 hmem with hmem | hmem
    · exact List.mem_append_left _ hmem
    · exact List.mem_append_right _ (List.mem_cons_of_mem _ hmem)

theorem geoMean_of_single {s : MaskSplit} (hone : s.masks.length = 1)
    (hvalid : ∀ part ∈ s.masks, ∀ mask ∈ part, 0 < mask.count true) :
    AdditiveFor exp log c info weighted .geoMean s := by
  intro mbs batch hmasks hsplit
  obtain ⟨mb, rfl⟩ : ∃ mb, mbs = [mb] := by
    refine List.length_eq_one_iff.1 ?_
    rw [← hone, ← hmasks, List.length_map]
  have hperm : mb.rows.Perm batch.rows := by
    have hperm := hsplit.perm
    rwa [List.map_singleton, List.flatten_singleton] at hperm
  constructor
  · show Except.ok (List.sum [mean (mb.rows.map (geoMeanPgLoss exp log c weighted))]) = _
    rw [List.sum_singleton, mean_perm (hperm.map _), pgLoss_geoMean]
  · intro before after row rest hrows hmasked _ _ _
    have hmem : row ∈ mb.rows := by
      rw [hperm.mem_iff, hrows]
      exact List.mem_append_right _ List.mem_cons_self
    have hpos := hvalid (maskRows mb.rows) (by rw [← hmasks]; exact List.mem_singleton_self _) _
      (List.mem_map_of_mem hmem)
    rw [tokenCount_eq] at hmasked
    omega

end MicroBatches

/-! ## Several micro-batches of means -/

section Failing

variable (exp log : K → K) (c : ActorConfig K) (info : GlobalBatchInfo) (weighted : Bool)

def tokenOf (advantage : K) : WeightedToken K := ⟨⟨0, 0, advantage⟩, 1⟩

def rowsOf (part : List (K × List Bool)) : List (List (WeightedToken K × Bool)) :=
  part.map fun p => fill (tokenOf p.1) p.2

def matOf (width : ℕ) (part : List (K × List Bool)) (h : ∀ p ∈ part, p.2.length = width) :
    LossMat (WeightedToken K) where
  width := width
  rows := rowsOf part
  row_length := by
    intro row hrow
    obtain ⟨p, hp, rfl⟩ := List.mem_map.1 hrow
    rw [fill, List.length_map]
    exact h p hp

def lossSum (part : List (K × List Bool)) : K := ((rowsOf part).map (geoMeanPgLoss exp log c weighted)).sum

def zeros (masks : List (List Bool)) : List (K × List Bool) := masks.map fun mask => (0, mask)

def marked (above : List (List Bool)) (mask : List Bool) (below : List (List Bool)) : List (K × List Bool) :=
  zeros above ++ (1, mask) :: zeros below

variable {exp log c info weighted}

omit [LinearOrder K] in
theorem advantages_fill (a : K) (mask : List Bool) :
    mapEntries (fun t : WeightedToken K => t.advantage) (fill (tokenOf a) mask) = fill a mask := by
  unfold mapEntries fill
  rw [List.map_map]
  rfl

theorem geoMeanPgLoss_fill_zero (mask : List Bool) : geoMeanPgLoss exp log c weighted (fill (tokenOf 0) mask) = 0 := by
  refine geoMeanPgLoss_zero ?_
  rw [advantages_fill, (sums_fill (0 : K) mask).2.1, mul_zero]

theorem lossSum_zeros (masks : List (List Bool)) : lossSum exp log c weighted (zeros masks) = 0 := by
  unfold lossSum rowsOf zeros
  refine List.sum_eq_zero fun x hx => ?_
  rw [List.map_map, List.map_map] at hx
  obtain ⟨mask, -, rfl⟩ := List.mem_map.1 hx
  exact geoMeanPgLoss_fill_zero mask

theorem lossSum_append (part part' : List (K × List Bool)) :
    lossSum exp log c weighted (part ++ part') = lossSum exp log c weighted part + lossSum exp log c weighted part' := by
  unfold lossSum rowsOf
  rw [List.map_append, List.map_append, List.sum_append]

theorem lossSum_flatten_zeros (parts : List (List (List Bool))) :
    lossSum exp log c weighted (parts.map zeros).flatten = 0 := by
  induction parts with
  | nil => rfl
  | cons part parts ih => rw [List.map_cons, List.flatten_cons, lossSum_append, lossSum_zeros, ih, add_zero]

theorem lossSum_marked (above : List (List Bool)) (mask : List Bool) (below : List (List Bool)) :
    lossSum exp log c weighted (marked above mask below) = geoMeanPgLoss exp log c weighted (fill (tokenOf 1) mask) := by
  have hone : lossSum exp log c weighted ((1, mask) :: zeros below) =
      geoMeanPgLoss exp log c weighted (fill (tokenOf 1) mask) + lossSum exp log c weighted (zeros below) := List.sum_cons
  rw [marked, lossSum_append, hone, lossSum_zeros, lossSum_zeros, zero_add, add_zero]

theorem mean_rowsOf (part : List (K × List Bool)) :
    mean ((rowsOf part).map (geoMeanPgLoss exp log c weighted)) = lossSum exp log c weighted part / (part.length : ℕ) := by
  unfold mean
  rw [List.length_map, rowsOf, List.length_map]
  rfl

variable [IsStrictOrderedRing K]

theorem geoMeanPgLoss_fill_one (hexp : ∀ x, exp x ≠ 0) {mask : List Bool} (h : 0 < mask.count true) :
    geoMeanPgLoss exp log c weighted (fill (tokenOf 1) mask) ≠ 0 := by
  have hcount : (0 : K) < mask.count true := by exact_mod_cast h
  obtain ⟨-, htokenSum, htokenCount⟩ := sums_fill (1 : K) mask
  have hadvantage : overMaskSum (fun t : WeightedToken K => t.advantage) (fill (tokenOf 1) mask) ≠ 0 := by
    unfold overMaskSum
    rw [← tokenCount_mapEntries (fun t : WeightedToken K => t.advantage), advantages_fill, htokenSum, htokenCount, mul_one]
    exact div_ne_zero hcount.ne' (add_pos hcount eps_pos).ne'
  have hloss := mul_ne_zero (neg_ne_zero.2 hadvantage)
    (hexp (overMaskSum (fun t => negativeApproxKlMin c t.toPolicyToken) (fill (tokenOf 1) mask)))
  unfold geoMeanPgLoss
  simp only
  split
  · exact mul_ne_zero hloss (hexp _)
  · exact hloss

omit [IsStrictOrderedRing K] in
theorem means_matOf {width : ℕ} {parts : List (List (K × List Bool))}
    (h : ∀ part ∈ parts, ∀ p ∈ part, p.2.length = width) :
    (parts.pmap (matOf width) h).map (fun mb => mean (mb.rows.map (geoMeanPgLoss exp log c weighted))) =
      parts.map fun part => lossSum exp log c weighted part / (part.length : ℕ) := by
  rw [List.map_pmap, ← List.pmap_eq_map h]
  exact List.pmap_congr_left parts fun part _ _ _ => mean_rowsOf part

omit [IsStrictOrderedRing K] in
theorem sum_zeros (masks : List (List (List Bool))) : ((masks.map zeros).map fun part =>
    lossSum exp log c weighted part / ((part.length : ℕ) : K)).sum = 0 := by
  refine List.sum_eq_zero fun x hx => ?_
  rw [List.map_map] at hx
  obtain ⟨part, -, rfl⟩ := List.mem_map.1 hx
  rw [Function.comp_apply, lossSum_zeros, zero_div]

/-- The micro-batches of one row with a loss: the loss is divided by the rows of its micro-batch, and by the rows of the
batch. -/
theorem length_eq_of_additive {width : ℕ} {before after : List (List (List Bool))} {part : List (K × List Bool)}
    (hparts : ∀ part' ∈ before.map zeros ++ part :: after.map zeros, ∀ p ∈ part', p.2.length = width)
    (hall : ∀ p ∈ (before.map zeros ++ part :: after.map zeros).flatten, p.2.length = width)
    (hloss : lossSum exp log c weighted part ≠ 0)
    (hadditive : Additive exp log c info weighted .geoMean
      ((before.map zeros ++ part :: after.map zeros).pmap (matOf width) hparts)
      (matOf width (before.map zeros ++ part :: after.map zeros).flatten hall)) :
    part.length = (before.map zeros ++ part :: after.map zeros).flatten.length := by
  unfold Additive at hadditive
  simp only [pgLoss_geoMean] at hadditive
  rw [mapM_ok] at hadditive
  have hsum := Except.ok.inj hadditive
  rw [means_matOf, List.map_append, List.map_cons, List.sum_append, List.sum_cons, sum_zeros, sum_zeros, zero_add,
    add_zero] at hsum
  have hbatch : lossSum exp log c weighted (before.map zeros ++ part :: after.map zeros).flatten =
      lossSum exp log c weighted part := by
    rw [List.flatten_append, List.flatten_cons, lossSum_append, lossSum_append, lossSum_flatten_zeros,
      lossSum_flatten_zeros, zero_add, add_zero]
  rw [show (matOf width _ hall).rows = rowsOf _ from rfl, mean_rowsOf, hbatch] at hsum
  have hne : part ≠ [] := by
    rintro rfl
    exact hloss rfl
  have hpart : ((part.length : ℕ) : K) ≠ 0 := by
    exact_mod_cast (List.length_pos_of_ne_nil hne).ne'
  have htotal : (((before.map zeros ++ part :: after.map zeros).flatten.length : ℕ) : K) ≠ 0 := by
    rw [List.flatten_append, List.flatten_cons, List.length_append, List.length_append]
    exact_mod_cast (by have := List.length_pos_of_ne_nil hne; omega)
  rw [div_eq_div_iff hpart htotal] at hsum
  exact_mod_cast (mul_left_cancel₀ hloss hsum).symm

omit [LinearOrder K] [IsStrictOrderedRing K] in
theorem map_snd_zeros (masks : List (List Bool)) : (zeros masks : List (K × List Bool)).map Prod.snd = masks := by
  unfold zeros
  rw [List.map_map]
  exact List.map_id masks

omit [LinearOrder K] [IsStrictOrderedRing K] in
theorem map_zeros (parts : List (List (List Bool))) :
    (parts.map zeros).map (fun part : List (K × List Bool) => part.map Prod.snd) = parts := by
  rw [List.map_map]
  refine (List.map_congr_left fun part _ => ?_).trans (List.map_id parts)
  exact map_snd_zeros part

omit [LinearOrder K] [IsStrictOrderedRing K] in
theorem map_snd_marked (above : List (List Bool)) (mask : List Bool) (below : List (List Bool)) :
    (marked above mask below : List (K × List Bool)).map Prod.snd = above ++ mask :: below := by
  rw [marked, List.map_append, List.map_cons, map_snd_zeros, map_snd_zeros]

omit [LinearOrder K] [IsStrictOrderedRing K] in
theorem nil_of_length_flatten_zeros {parts : List (List (List Bool))} (hne : ∀ part ∈ parts, part ≠ [])
    (h : (parts.map zeros : List (List (K × List Bool))).flatten.length = 0) : parts = [] := by
  cases parts with
  | nil => rfl
  | cons part parts =>
    rw [List.map_cons, List.flatten_cons, List.length_append, zeros, List.length_map] at h
    have hpos := List.length_pos_of_ne_nil (hne part List.mem_cons_self)
    omega

omit [LinearOrder K] [IsStrictOrderedRing K] in
theorem maskRows_rowsOf (part : List (K × List Bool)) : maskRows (rowsOf part) = part.map Prod.snd := by
  unfold maskRows rowsOf
  rw [List.map_map]
  refine List.map_congr_left fun p _ => ?_
  show (fill (tokenOf p.1) p.2).map Prod.snd = p.2
  unfold fill
  rw [List.map_map]
  exact List.map_id p.2

omit [LinearOrder K] [IsStrictOrderedRing K] in
theorem split_matOf {width : ℕ} {parts : List (List (K × List Bool))}
    (hparts : ∀ part ∈ parts, ∀ p ∈ part, p.2.length = width) (hall : ∀ p ∈ parts.flatten, p.2.length = width) :
    IsSplit (parts.pmap (matOf width) hparts) (matOf width parts.flatten hall) ∧
      (parts.pmap (matOf width) hparts).map (fun mb => maskRows mb.rows) = parts.map fun part => part.map Prod.snd := by
  constructor
  · constructor
    · intro mb hmb
      obtain ⟨part, hpart, rfl⟩ := List.mem_pmap.1 hmb
      rfl
    · have hrows : (parts.pmap (matOf width) hparts).map (·.rows) = parts.map rowsOf := by
        rw [List.map_pmap]
        exact List.pmap_eq_map hparts
      rw [hrows]
      show (parts.map rowsOf).flatten.Perm (rowsOf parts.flatten)
      unfold rowsOf
      rw [List.map_flatten]
  · rw [List.map_pmap, ← List.pmap_eq_map hparts]
    exact List.pmap_congr_left parts fun part _ _ _ => maskRows_rowsOf part

omit [IsStrictOrderedRing K] in
theorem not_neutral_of_masked [CharZero K] {batch : LossMat (WeightedToken K)} {row : List (WeightedToken K × Bool)}
    (hmem : row ∈ batch.rows) (hmasked : tokenCount row = 0)
    (hsum : (batch.rows.map (geoMeanPgLoss exp log c weighted)).sum ≠ 0) :
    ¬ MaskedRowsNeutral exp log c info weighted .geoMean batch := by
  intro hneutral
  obtain ⟨before, after, hrows⟩ := List.append_of_mem hmem
  have hsub : ∀ r ∈ before ++ after, r ∈ batch.rows := by
    intro r hr
    rw [hrows]
    rcases List.mem_append.1 hr with hr | hr
    · exact List.mem_append_left _ hr
    · exact List.mem_append_right _ (List.mem_cons_of_mem _ hr)
  have hrest : (batch.rows.map (geoMeanPgLoss exp log c weighted)).sum =
      ((before ++ after).map (geoMeanPgLoss exp log c weighted)).sum := by
    rw [hrows, List.map_append, List.map_append, List.map_cons, List.sum_append, List.sum_append, List.sum_cons,
      geoMeanPgLoss_masked hmasked, zero_add]
  rw [hrest] at hsum
  have hne : before ++ after ≠ [] := by
    intro hnil
    rw [hnil] at hsum
    exact hsum rfl
  have hmean := hneutral before after row ⟨batch.width, before ++ after, fun r hr => batch.row_length r (hsub r hr)⟩
    hrows hmasked rfl rfl hne
  rw [pgLoss_geoMean, pgLoss_geoMean] at hmean
  have hmean := Except.ok.inj hmean
  unfold mean at hmean
  have hlength : batch.rows.length = (before ++ after).length + 1 := by
    rw [hrows, List.length_append, List.length_append, List.length_cons]
    rfl
  have hpos := List.length_pos_of_ne_nil hne
  rw [hrest, List.length_map, List.length_map, hlength, div_eq_div_iff (by exact_mod_cast hpos.ne')
    (by exact_mod_cast Nat.succ_ne_zero (before ++ after).length)] at hmean
  have hcast : (before ++ after).length + 1 = (before ++ after).length := by
    exact_mod_cast mul_left_cancel₀ hsum hmean
  omega

/-- **A split that `geo_mean` adds up**, if it has a valid token. -/
theorem geoMean_condition (hexp : ∀ x, exp x ≠ 0) {s : MaskSplit}
    (h : AdditiveFor exp log c info weighted .geoMean s) {part : List (List Bool)} (hpart : part ∈ s.masks)
    {mask : List Bool} (hmask : mask ∈ part) (hvalid : 0 < mask.count true) :
    s.masks = [part] ∧ ∀ mask' ∈ part, 0 < mask'.count true := by
  obtain ⟨before, after, hmasks⟩ := List.append_of_mem hpart
  obtain ⟨above, below, rfl⟩ := List.append_of_mem hmask
  -- only this row has advantages
  have hloss : lossSum exp log c weighted (marked above mask below) ≠ 0 := by
    rw [lossSum_marked]
    exact geoMeanPgLoss_fill_one hexp hvalid
  have hmap : (before.map zeros ++ marked above mask below :: after.map zeros).map
      (fun part : List (K × List Bool) => part.map Prod.snd) = s.masks := by
    rw [hmasks, List.map_append, List.map_cons, map_zeros, map_zeros, map_snd_marked]
  have hparts : ∀ part ∈ before.map zeros ++ marked above mask below :: after.map zeros, ∀ p ∈ part,
      (p : K × List Bool).2.length = s.width := by
    intro part hpart p hp
    refine s.length_mask (part.map Prod.snd) ?_ p.2 (List.mem_map_of_mem hp)
    rw [← hmap]
    exact List.mem_map_of_mem hpart
  have hall : ∀ p ∈ (before.map zeros ++ marked above mask below :: after.map zeros).flatten,
      (p : K × List Bool).2.length = s.width := by
    intro p hp
    obtain ⟨part, hpart, hp⟩ := List.mem_flatten.1 hp
    exact hparts part hpart p hp
  obtain ⟨hsplit, hmaskRows⟩ := split_matOf hparts hall
  obtain ⟨hadditive, hneutral⟩ := h _ _ (hmaskRows.trans hmap) hsplit
  have hlength := length_eq_of_additive hparts hall hloss hadditive
  rw [List.flatten_append, List.flatten_cons, List.length_append, List.length_append] at hlength
  obtain rfl : before = [] := nil_of_length_flatten_zeros (K := K) (fun part hpart => s.part_ne_nil part (by
    rw [hmasks]
    exact List.mem_append_left _ hpart)) (by omega)
  obtain rfl : after = [] := nil_of_length_flatten_zeros (K := K) (fun part hpart => s.part_ne_nil part (by
    rw [hmasks]
    exact List.mem_append_right _ (List.mem_cons_of_mem _ hpart))) (by omega)
  refine ⟨hmasks, fun mask' hmask' => Nat.pos_of_ne_zero fun hzero => ?_⟩
  -- a masked row counts in the mean
  have hmem : fill (tokenOf (0 : K)) mask' ∈ rowsOf (marked above mask below) := by
    refine List.mem_map.2 ⟨(0, mask'), ?_, rfl⟩
    rcases List.mem_append.1 hmask' with habove | hbelow
    · exact List.mem_append_left _ (List.mem_map_of_mem habove)
    · rcases List.mem_cons.1 hbelow with rfl | hbelow
      · omega
      · exact List.mem_append_right _ (List.mem_cons_of_mem _ (List.mem_map_of_mem hbelow))
  have hrows : (matOf s.width (List.map zeros [] ++ marked above mask below :: List.map zeros []).flatten hall).rows =
      rowsOf (marked above mask below) := by
    show rowsOf (marked above mask below ++ []) = _
    rw [List.append_nil]
  refine not_neutral_of_masked (by rw [hrows]; exact hmem) ?_ (by rw [hrows]; exact hloss) hneutral
  rw [tokenCount_eq, fill, List.map_map]
  exact (congrArg (List.count true) (List.map_id mask')).trans hzero

end Failing

/-! ## All losses -/

/-- **When the losses are additive.** Seven losses are, for arbitrary `exp` and `log`. With an `exp` that is never 0 the
eighth one is so for no other masks than those of one micro-batch with a valid token in every row, and those without
valid tokens. -/
theorem policyLoss_iff [IsStrictOrderedRing K] (exp log : K → K) (c : ActorConfig K) (info : GlobalBatchInfo)
    (weighted : Bool) (loss : PolicyLoss) (s : MaskSplit) :
    (loss ≠ .geoMean → AdditiveFor exp log c info weighted loss s) ∧
    ((∀ x, exp x ≠ 0) → (AdditiveFor exp log c info weighted loss s ↔ loss ≠ .geoMean ∨
      (∀ part ∈ s.masks, ∀ mask ∈ part, mask.count true = 0) ∨
      s.masks.length = 1 ∧ ∀ part ∈ s.masks, ∀ mask ∈ part, 0 < mask.count true)) := by
  refine ⟨fun hloss => additiveFor_of_ne hloss s, fun hexp => ?_⟩
  constructor
  · intro h
    by_cases hloss : loss = .geoMean
    · subst hloss
      refine .inr ?_
      by_cases hnone : ∀ part ∈ s.masks, ∀ mask ∈ part, mask.count true = 0
      · exact .inl hnone
      · push Not at hnone
        obtain ⟨part, hpart, mask, hmask, hcount⟩ := hnone
        obtain ⟨hmasks, hall⟩ := geoMean_condition hexp h hpart hmask (Nat.pos_of_ne_zero hcount)
        refine .inr ⟨by rw [hmasks]; rfl, fun part' hpart' => ?_⟩
        rw [hmasks, List.mem_singleton] at hpart'
        rw [hpart']
        exact hall
    · exact .inl hloss
  · rintro (hloss | hnone | ⟨hone, hvalid⟩)
    · exact additiveFor_of_ne hloss s
    · by_cases hloss : loss = .geoMean
      · rw [hloss]
        exact geoMean_of_masked hnone
      · exact additiveFor_of_ne hloss s
    · by_cases hloss : loss = .geoMean
      · rw [hloss]
        exact geoMean_of_single hone hvalid
      · exact additiveFor_of_ne hloss s

/-- A micro-batch of one row of one token with advantage 1, and the global numbers of a batch of two such rows. -/
def oneToken : LossMat (WeightedToken ℚ) := ⟨1, [[(⟨⟨0, 0, 1⟩, 1⟩, true)]], by decide⟩

def twoTokens : LossMat (WeightedToken ℚ) :=
  ⟨1, [[(⟨⟨0, 0, 1⟩, 1⟩, true)], [(⟨⟨0, 0, 1⟩, 1⟩, true)]], by decide⟩

def defaultConfig : ActorConfig ℚ := ⟨1 / 5, some (1 / 5), some (1 / 5), 3, 1, 21 / 20, .tokenMean⟩

def tokensInfo (n : ℕ) (hn : 0 < n) : GlobalBatchInfo := { unitInfo with
  batchNumTokens := n
  globalBatchSize := n
  batchNumTokens_pos := hn
  globalBatchSize_pos := hn }

def twoMicroBatches : MaskSplit := ⟨1, [[[true]], [[true]]], by decide, by decide, by decide⟩

theorem policyLoss_iff_twoMicroBatches :
    AdditiveFor (fun _ => 1) (fun _ => 0) defaultConfig (tokensInfo 2 Nat.two_pos) false .gspo twoMicroBatches ∧
      ¬ AdditiveFor (fun _ => 1) (fun _ => 0) defaultConfig (tokensInfo 2 Nat.two_pos) false .geoMean twoMicroBatches := by
  refine ⟨(policyLoss_iff _ _ _ _ _ _ _).1 (by decide), fun h => ?_⟩
  have hcondition := ((policyLoss_iff _ _ _ _ _ _ _).2 fun _ => one_ne_zero).1 h
  revert hcondition
  decide

/-- **`geo_mean` on two micro-batches** of one row each is twice the loss of both rows together. -/
theorem not_additive_twoTokens : IsSplit [oneToken, oneToken] twoTokens ∧
    ¬ Additive (fun _ => 1) (fun _ => 0) defaultConfig (tokensInfo 2 Nat.two_pos) false .geoMean [oneToken, oneToken]
      twoTokens := by
  constructor
  · exact ⟨by decide, List.Perm.refl _⟩
  · unfold Additive
    intro h
    have hsum := Except.ok.inj h
    revert hsum
    decide +kernel

end Opd.Verl.PolicyLosses

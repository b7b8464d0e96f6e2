import Opd.Verl.ValueLoss

/-!
# Rollout correction: importance weights and rejection masks

`compute_rollout_correction_and_rejection_mask` compares the log-probs of the current policy
with those of the rollout, token by token or row by row. It returns importance weights, a
mask without the rejected tokens, and metrics. Everything but the metrics is computed row by
row; the metrics are of the micro-batch, and some of them refuse it.

The settings are those that `_parse_rollout_is_threshold` and `_parse_rollout_rs_thresholds`
accept, with `rollout_is_batch_normalize` off. The tensors of a call are one matrix of tokens
with the response mask, so their shapes agree.

* `normalizedSquare_eq_zero_iff`: the effective sample size divides by zero when all weights of
  valid tokens are zero.
* `boundWeight_eq_zero_iff`: which weights are zero.
* `correction_ok_iff`: the micro-batches that are accepted.
-/

namespace Opd.Verl.RolloutCorr

open Lib

variable {K : Type} [Field K] [LinearOrder K]

/-- The functions of `torch` that are no field operations. -/
structure Elementary (K : Type) [Field K] [LinearOrder K] where
  exp : K → K
  log : K → K
  sqrt : K → K
  exp_pos : ∀ x, 0 < exp x

/-- What the policy losses read of a token. `oldLogProb` is that of the rollout. -/
structure PolicyToken (K : Type) where
  oldLogProb : K
  logProb : K
  advantage : K

abbrev Metrics (K : Type) := List (String × K)

/-! ## Settings -/

/-- The levels of `rollout_is`. -/
inductive IsLevel
  | token
  | sequence
  deriving DecidableEq

/-- A `rollout_is_threshold`. With a lower bound weights outside the bounds are set to zero,
without one they are cut at the upper bound. -/
structure IsThreshold (K : Type) [Field K] [LinearOrder K] where
  upper : K
  lower : Option K
  upper_pos : 0 < upper
  lower_pos : ∀ l ∈ lower, 0 < l
  lower_le : ∀ l ∈ lower, l ≤ upper

inductive Estimator
  | k1
  | k2
  | k3
  deriving DecidableEq

def Estimator.name : Estimator → String
  | .k1 => "k1"
  | .k2 => "k2"
  | .k3 => "k3"

/-- `SUPPORTED_ROLLOUT_RS_OPTIONS`. -/
inductive RsOption
  | token (k : Estimator)
  | seqSum (k : Estimator)
  | seqMean (k : Estimator)
  | seqMax (k : Estimator) (h : k ≠ .k1)
  deriving DecidableEq

namespace RsOption

def estimator : RsOption → Estimator
  | token k | seqSum k | seqMean k | seqMax k _ => k

def name : RsOption → String
  | token k => "token_" ++ k.name
  | seqSum k => "seq_sum_" ++ k.name
  | seqMean k => "seq_mean_" ++ k.name
  | seqMax k _ => "seq_max_" ++ k.name

/-- `TOKEN_LEVEL_ROLLOUT_RS_OPTIONS`. -/
def isToken : RsOption → Bool
  | token _ => true
  | _ => false

end RsOption

/-- An option with its thresholds; the lower one is only read for `k1`. -/
structure RsCriterion (K : Type) [Field K] [LinearOrder K] where
  option : RsOption
  lower : K
  upper : K
  lower_pos : 0 < lower
  upper_pos : 0 < upper

/-- The options of `rollout_rs`, without repetitions. -/
structure RsCriteria (K : Type) [Field K] [LinearOrder K] where
  criteria : List (RsCriterion K)
  ne_nil : criteria ≠ []
  nodup : (criteria.map (·.option)).Nodup

structure CorrSettings (K : Type) [Field K] [LinearOrder K] where
  rolloutIs : Option IsLevel
  rolloutIsThreshold : Option (IsThreshold K)
  rolloutRs : Option (RsCriteria K)

/-! ## Matrices -/

def mapRows {α β : Type} (f : List (α × Bool) → List (β × Bool)) (hf : ∀ row, (f row).length = row.length)
    (m : LossMat α) : LossMat β where
  width := m.width
  rows := m.rows.map f
  row_length := by
    intro row hrow
    obtain ⟨row', hrow', rfl⟩ := List.mem_map.1 hrow
    rw [hf]
    exact m.row_length row' hrow'

def zipMat {α β γ : Type} (f : α × Bool → β × Bool → γ × Bool) (a : LossMat α) (b : LossMat β) : LossMat γ where
  width := min a.width b.width
  rows := List.zipWith (List.zipWith f) a.rows b.rows
  row_length := by
    intro row hrow
    obtain ⟨i, hi, rfl⟩ := List.mem_iff_getElem.1 hrow
    rw [List.getElem_zipWith, List.length_zipWith, a.row_length _ (List.getElem_mem _),
      b.row_length _ (List.getElem_mem _)]

def mean (l : List K) : K := l.sum / (l.length : ℕ)

/-- `max` of a tensor with elements. -/
def maxOf : List K → K
  | [] => 0
  | x :: l => l.foldl max x

/-- `min` of a tensor with elements. -/
def minOf : List K → K
  | [] => 0
  | x :: l => l.foldl min x

/-- `std`, and 0 for a single element. -/
def std (E : Elementary K) (l : List K) : K :=
  if 1 < l.length then E.sqrt ((l.map fun x => (x - mean l) ^ 2).sum / ((l.length : ℕ) - 1)) else 0

/-- `float` of a condition. -/
def indicator (p : Bool) : K := if p then 1 else 0

def fraction (p : K → Bool) (l : List K) : K := mean (l.map fun x => indicator (p x))

def maskedFraction (p : K → Bool) (l : List (K × Bool)) : K := maskedMean (mapEntries (fun x => indicator (p x)) l)

def validValues (l : List (K × Bool)) : List K := (l.filter Prod.snd).map Prod.fst

/-- `torch.clamp`. -/
def clamp (x lower upper : K) : K := min (max x lower) upper

/-- The standard deviation of clamped values, 0 for one valid token. -/
def clampedStd (E : Elementary K) (lower upper : K) (l : List (K × Bool)) : K :=
  if 1 < tokenCount l then
    let clamped := mapEntries (fun x => clamp x lower upper) l
    E.sqrt (max (maskedMean (mapEntries (· ^ 2) clamped) - maskedMean clamped ^ 2) 0)
  else 0

def safetyBound : K := 20

def clampSafe (x : K) : K := clamp x (-safetyBound) safetyBound

def logRatio (t : PolicyToken K) : K := t.logProb - t.oldLogProb

def validRows {α : Type} (rows : List (List (α × Bool))) : List (List (α × Bool)) :=
  rows.filter fun row => 0 < tokenCount row

/-! ## Importance weights -/

section

variable (E : Elementary K)

def logRatioSum (row : Resp (PolicyToken K)) : K := maskedSum (mapEntries logRatio row)

/-- `raw_rollout_is_weights` of a row. -/
def rawWeights (level : IsLevel) (row : Resp (PolicyToken K)) : List (K × Bool) :=
  row.map fun p =>
    let weight := match level with
      | .token => E.exp (clampSafe (logRatio p.1))
      | .sequence => E.exp (clampSafe (logRatioSum row))
    (weight * mask01 p.2, p.2)

/-- A weight that is cut at the upper bound, or set to zero outside the bounds. -/
def boundWeight (threshold : IsThreshold K) (weight : K) : K :=
  match threshold.lower with
  | none => min weight threshold.upper
  | some lower => if lower ≤ weight ∧ weight ≤ threshold.upper then weight else 0

/-- `rollout_is_weights` of a row. -/
def isWeights (level : IsLevel) (threshold : IsThreshold K) (row : Resp (PolicyToken K)) : List (K × Bool) :=
  mapEntries (boundWeight threshold) (rawWeights E level row)

/-- The mean square of the normalized weights, whose reciprocal is the effective sample size. -/
def normalizedSquare (threshold : IsThreshold K) (weights : List (K × Bool)) : K :=
  let weightsForEss := mapEntries (fun w => clamp w 0 threshold.upper) weights
  let meanForEss := maskedMean weightsForEss
  maskedMean (mapEntries (fun w => (w / (meanForEss + eps)) ^ 2) weightsForEss)

/-- `compute_is_metrics`, of the applied and the raw weights and the log-ratios of the rows. -/
def computeIsMetrics (level : IsLevel) (threshold : IsThreshold K) (weights raw : List (List (K × Bool)))
    (logRatioSums : List K) : Except String (Metrics K) :=
  let applied := weights.flatten
  let lower := threshold.lower.getD (1 / threshold.upper)
  let logUpper := E.log threshold.upper
  let logLower := E.log lower
  let ess := normalizedSquare threshold applied
  let seqMeanWeights := weights.map maskedMean
  if tokenCount applied = 0 then .error "response_mask must contain at least one valid token (1)."
  else if ess = 0 then .error "float division by zero"
  else .ok <|
    (match level with
      | .sequence =>
        [("rollout_is_max", E.exp (min (maxOf logRatioSums) safetyBound)),
          ("rollout_is_min", E.exp (minOf logRatioSums)),
          ("rollout_is_mean", maskedMean applied),
          ("rollout_is_ratio_fraction_high", fraction (fun x => logUpper < x) logRatioSums),
          ("rollout_is_ratio_fraction_low", fraction (fun x => x < logLower) logRatioSums)]
      | .token =>
        [("rollout_is_mean", maskedMean applied),
          ("rollout_is_ratio_fraction_high", maskedFraction (fun w => threshold.upper < w) raw.flatten),
          ("rollout_is_ratio_fraction_low", maskedFraction (fun w => w < lower) raw.flatten),
          ("rollout_is_max", maxOf (validValues applied)),
          ("rollout_is_min", minOf (validValues applied))]) ++
    [("rollout_is_std", clampedStd E 0 threshold.upper applied),
      ("rollout_is_eff_sample_size", 1 / ess),
      ("rollout_is_seq_mean", mean seqMeanWeights),
      ("rollout_is_seq_std", std E seqMeanWeights),
      ("rollout_is_seq_max", maxOf seqMeanWeights),
      ("rollout_is_seq_min", minOf seqMeanWeights),
      ("rollout_is_seq_max_deviation", maxOf (seqMeanWeights.map fun w => |w - 1|)),
      ("rollout_is_seq_fraction_high", fraction (fun w => threshold.upper < w) seqMeanWeights),
      ("rollout_is_seq_fraction_low", fraction (fun w => w < lower) seqMeanWeights)]

theorem length_isWeights (level : IsLevel) (threshold : IsThreshold K) (row : Resp (PolicyToken K)) :
    (isWeights E level threshold row).length = row.length := by
  unfold isWeights mapEntries rawWeights
  rw [List.length_map, List.length_map]

/-- `compute_rollout_correction_weights` -/
def computeRolloutCorrectionWeights (level : IsLevel) (threshold : IsThreshold K) (m : LossMat (PolicyToken K)) :
    Except String (LossMat K × Metrics K) := do
  let raw := m.rows.map (rawWeights E level)
  let weights := mapRows (isWeights E level threshold) (length_isWeights E level threshold) m
  let metrics ← computeIsMetrics E level threshold weights.rows raw (m.rows.map logRatioSum)
  let oob := match threshold.lower with
    | none => []
    | some lower => [("rollout_is_oob_ratio", maskedFraction (fun w => w < lower ∨ threshold.upper < w) raw.flatten)]
  return (weights, metrics ++ oob)

/-! ## Rejection masks -/

def tokenStat (k : Estimator) (t : PolicyToken K) : K :=
  let logRatioSafe := clampSafe (logRatio t)
  match k with
  | .k1 => -logRatioSafe
  | .k2 => ((2 : ℕ) : K)⁻¹ * logRatioSafe ^ 2
  | .k3 => E.exp logRatioSafe - 1 - logRatioSafe

/-- The statistic of a row; for the token options it is only used by the metrics. A row
without a valid token has maximum 0. -/
def seqStat (option : RsOption) (row : Resp (PolicyToken K)) : K :=
  let stats := mapEntries (tokenStat E option.estimator) row
  match option with
  | .token _ | .seqMean _ => maskedMean stats
  | .seqSum _ => maskedSum stats
  | .seqMax _ _ => maxOf (validValues stats)

/-- `per_token_stat` of a row. -/
def rsStatistic (option : RsOption) (row : Resp (PolicyToken K)) : List (K × Bool) :=
  if option.isToken then mapEntries (tokenStat E option.estimator) row
  else mapEntries (fun _ => seqStat E option row) row

def lowerThreshold (c : RsCriterion K) : Option K :=
  match c.option.estimator with
  | .k1 => some (E.log c.lower)
  | _ => none

def upperThreshold (c : RsCriterion K) : K :=
  match c.option.estimator with
  | .k1 => E.log c.upper
  | _ => c.upper

def keeps (c : RsCriterion K) (x : K) : Bool := (lowerThreshold E c).all (· ≤ x) && x ≤ upperThreshold E c

/-- `token_keep_bool` of a row. -/
def keepRow (c : RsCriterion K) (row : Resp (PolicyToken K)) : List Bool :=
  (rsStatistic E c.option row).map fun p => keeps E c p.1

/-- `combined_mask` of a row: every criterion keeps the token. -/
def combinedMask (criteria : List (RsCriterion K)) (row : Resp (PolicyToken K)) : List Bool :=
  criteria.foldl (fun combined c => List.zipWith (· && ·) combined (keepRow E c row)) (row.map fun _ => true)

/-- A row with `modified_response_mask`. -/
def rejectRow (criteria : List (RsCriterion K)) (row : Resp (PolicyToken K)) : Resp (PolicyToken K) :=
  List.zipWith (fun p keep => (p.1, p.2 && keep)) row (combinedMask E criteria row)

/-- `compute_rs_metrics` -/
def computeRsMetrics (c : RsCriterion K) (rows : List (Resp (PolicyToken K))) : Except String (Metrics K) :=
  let stats := (rows.map (rsStatistic E c.option)).flatten
  let seqValues := (validRows rows).map (seqStat E c.option)
  let upper := upperThreshold E c
  let low : K → Bool := fun x => (lowerThreshold E c).any (x < ·)
  let high : K → Bool := fun x => upper < x
  let extremes := if c.option.isToken then validValues stats else seqValues
  let name := "rollout_rs_" ++ c.option.name
  if tokenCount stats = 0 then .error "response_mask must contain at least one valid token (1)."
  else .ok <|
    [(name ++ "_mean", maskedMean stats),
      (name ++ "_max", maxOf extremes),
      (name ++ "_min", minOf extremes),
      (name ++ "_fraction_high", if c.option.isToken then maskedFraction high stats else fraction high seqValues),
      (name ++ "_fraction_low", if c.option.isToken then maskedFraction low stats else fraction low seqValues),
      (name ++ "_std", clampedStd E ((lowerThreshold E c).getD 0) upper stats),
      (name ++ "_seq_mean", mean seqValues),
      (name ++ "_seq_std", std E seqValues),
      (name ++ "_seq_max", maxOf seqValues),
      (name ++ "_seq_min", minOf seqValues),
      (name ++ "_seq_max_deviation", maxOf (seqValues.map fun x => |x|)),
      (name ++ "_seq_fraction_high", fraction high seqValues)] ++
    if (lowerThreshold E c).isSome then [(name ++ "_seq_fraction_low", fraction low seqValues)] else []

def maskedOut (rows : List (Resp (PolicyToken K))) (keep : Resp (PolicyToken K) → List Bool) : K :=
  maskedMean (rows.map fun row => List.zipWith (fun p keep => (indicator (!keep), p.2)) row (keep row)).flatten

def leavesOut (keep : Resp (PolicyToken K) → List Bool) (row : Resp (PolicyToken K)) : Bool :=
  (List.zipWith (fun p keep => p.2 && !keep) row (keep row)).any id

def criterionMetrics (rows : List (Resp (PolicyToken K))) (c : RsCriterion K) : Except String (Metrics K) := do
  let metrics ← computeRsMetrics E c rows
  let name := "rollout_rs_" ++ c.option.name
  return metrics ++
    [(name ++ "_masked_fraction", maskedOut rows (keepRow E c)),
      (name ++ "_seq_masked_fraction", mean ((validRows rows).map fun row => indicator (leavesOut (keepRow E c) row)))]

theorem length_combinedMask (criteria : List (RsCriterion K)) (row : Resp (PolicyToken K)) :
    (combinedMask E criteria row).length = row.length := by
  have hkeep : ∀ c, (keepRow E c row).length = row.length := by
    intro c
    unfold keepRow rsStatistic mapEntries
    split <;> simp
  have hfold : ∀ (criteria : List (RsCriterion K)) (combined : List Bool), combined.length = row.length →
      (criteria.foldl (fun combined c => List.zipWith (· && ·) combined (keepRow E c row)) combined).length =
        row.length := by
    intro criteria
    induction criteria with
    | nil => exact fun _ h => h
    | cons c criteria ih =>
      intro combined h
      refine ih _ ?_
      rw [List.length_zipWith, h, hkeep, min_self]
  exact hfold criteria _ (List.length_map _)

theorem length_rejectRow (criteria : List (RsCriterion K)) (row : Resp (PolicyToken K)) :
    (rejectRow E criteria row).length = row.length := by
  unfold rejectRow
  rw [List.length_zipWith, length_combinedMask, min_self]

/-- `compute_rollout_rejection_mask` -/
def computeRolloutRejectionMask (criteria : RsCriteria K) (m : LossMat (PolicyToken K)) :
    Except String (LossMat (PolicyToken K) × Metrics K) :=
  if m.rows = [] then .ok (m, [])
  else do
    let metrics ← criteria.criteria.mapM (criterionMetrics E m.rows)
    let keep := combinedMask E criteria.criteria
    return (mapRows (rejectRow E criteria.criteria) (length_rejectRow E criteria.criteria) m,
      metrics.flatten ++
        [("rollout_rs_masked_fraction", maskedOut m.rows keep),
          ("rollout_rs_seq_masked_fraction", mean (m.rows.map fun row => indicator (leavesOut keep row)))])

/-! ## Off-policy metrics -/

/-- `compute_offpolicy_metrics` -/
def computeOffpolicyMetrics (m : LossMat (PolicyToken K)) : Except String (Metrics K) :=
  let tokens := m.rows.flatten
  let training := m.rows.map fun row => maskedMean (mapEntries PolicyToken.logProb row)
  let rollout := m.rows.map fun row => maskedMean (mapEntries PolicyToken.oldLogProb row)
  let diff := List.zipWith (· - ·) rollout training
  if tokenCount tokens = 0 then .error "Expected at least one valid token in response_mask"
  else .ok
    [("training_ppl", mean (training.map fun x => E.exp (-x))),
      ("training_log_ppl", mean (training.map fun x => -x)),
      ("kl", maskedMean (mapEntries (fun t => t.oldLogProb - t.logProb) tokens)),
      ("k3_kl", maskedMean (mapEntries (fun t => E.exp (logRatio t) - logRatio t - 1) tokens)),
      ("rollout_ppl", mean (rollout.map fun x => E.exp (-x))),
      ("rollout_log_ppl", mean (rollout.map fun x => -x)),
      ("log_ppl_diff", mean diff),
      ("log_ppl_abs_diff", mean (diff.map fun x => |x|)),
      ("log_ppl_diff_max", maxOf diff),
      ("log_ppl_diff_min", minOf diff),
      ("ppl_ratio", mean (diff.map E.exp)),
      ("chi2_token", maskedMean (mapEntries (fun t => E.exp (clampSafe (logRatio t)) ^ 2) tokens) - 1),
      ("chi2_seq", mean (m.rows.map fun row => E.exp (((2 : ℕ) : K) * clampSafe (logRatioSum row))) - 1)]

/-! ## Both -/

def weightsStep (s : CorrSettings K) (m : LossMat (PolicyToken K)) :
    Except String (Option (LossMat K) × Metrics K) :=
  match s.rolloutIs, s.rolloutIsThreshold with
  | some level, some threshold => do
    let (weights, metrics) ← computeRolloutCorrectionWeights E level threshold m
    return (some weights, metrics)
  | _, _ => .ok (none, [])

def rejectionStep (s : CorrSettings K) (m : LossMat (PolicyToken K)) :
    Except String (LossMat (PolicyToken K) × Metrics K) :=
  match s.rolloutRs with
  | some criteria => computeRolloutRejectionMask E criteria m
  | none => .ok (m, [])

/-- `compute_rollout_correction_and_rejection_mask`: the weights, the tokens with the modified
mask, and the metrics. -/
def computeRolloutCorrectionAndRejectionMask (s : CorrSettings K) (m : LossMat (PolicyToken K)) :
    Except String (Option (LossMat K) × LossMat (PolicyToken K) × Metrics K) :=
  if tokenCount m.rows.flatten = 0 then .error "response_mask must contain at least one valid token (1)."
  else do
    let (weights, isMetrics) ← weightsStep E s m
    let (modified, rsMetrics) ← rejectionStep E s m
    let offpolicyMetrics ← computeOffpolicyMetrics E m
    let metrics := isMetrics ++ rsMetrics ++ offpolicyMetrics
    return (weights, modified, metrics.map fun p => ("rollout_corr/" ++ p.1, p.2))

end

/-! ## When the effective sample size divides by zero -/

section

variable [IsStrictOrderedRing K]

omit [LinearOrder K] [IsStrictOrderedRing K] in
theorem tokenCount_eq_zero_iff {α : Type} {l : List (α × Bool)} : tokenCount l = 0 ↔ ∀ p ∈ l, p.2 = false := by
  unfold tokenCount
  rw [List.countP_eq_zero]
  simp

variable {l : List (K × Bool)}

theorem maskedSum_nonneg (h : ∀ p ∈ l, 0 ≤ p.1) : 0 ≤ maskedSum l := by
  induction l with
  | nil => exact le_refl _
  | cons p l ih =>
    rw [maskedSum_cons]
    refine add_nonneg ?_ (ih fun q hq => h q (List.mem_cons_of_mem _ hq))
    split
    · exact h p (List.mem_cons_self ..)
    · exact le_refl _

theorem maskedSum_eq_zero_iff (h : ∀ p ∈ l, 0 ≤ p.1) : maskedSum l = 0 ↔ ∀ p ∈ l, p.2 = true → p.1 = 0 := by
  induction l with
  | nil => exact ⟨fun _ p hp => absurd hp List.not_mem_nil, fun _ => rfl⟩
  | cons p l ih =>
    have hrest : ∀ q ∈ l, 0 ≤ q.1 := fun q hq => h q (List.mem_cons_of_mem _ hq)
    have hp : 0 ≤ if p.2 = true then p.1 else 0 := by
      split
      · exact h p (List.mem_cons_self ..)
      · exact le_refl _
    rw [maskedSum_cons, add_eq_zero_iff_of_nonneg hp (maskedSum_nonneg hrest), ih hrest, List.forall_mem_cons,
      ite_eq_right_iff]

theorem eps_pos : (0 : K) < eps := by
  unfold eps
  positivity

theorem count_add_pos (l : List (K × Bool)) : (0 : K) < tokenCount l + eps :=
  add_pos_of_nonneg_of_pos (Nat.cast_nonneg _) eps_pos

theorem maskedMean_eq_zero_iff (h : ∀ p ∈ l, 0 ≤ p.1) : maskedMean l = 0 ↔ ∀ p ∈ l, p.2 = true → p.1 = 0 := by
  unfold maskedMean
  rw [div_eq_zero_iff, or_iff_left (count_add_pos l).ne', maskedSum_eq_zero_iff h]

theorem maskedMean_nonneg (h : ∀ p ∈ l, 0 ≤ p.1) : 0 ≤ maskedMean l :=
  div_nonneg (maskedSum_nonneg h) (count_add_pos l).le

omit [IsStrictOrderedRing K] in
theorem clamp_nonneg (x : K) {u : K} (hu : 0 < u) : 0 ≤ clamp x 0 u := le_min (le_max_right _ _) hu.le

/-- **The mean square is zero** when all weights of valid tokens are. -/
theorem normalizedSquare_eq_zero_iff (threshold : IsThreshold K) (weights : List (K × Bool)) :
    normalizedSquare threshold weights = 0 ↔
      ∀ w ∈ weights, w.2 = true → clamp w.1 0 threshold.upper = 0 := by
  have hnonneg : ∀ p ∈ mapEntries (fun w => clamp w 0 threshold.upper) weights, 0 ≤ p.1 := by
    intro p hp
    obtain ⟨w, -, rfl⟩ := List.mem_map.1 hp
    exact clamp_nonneg w.1 threshold.upper_pos
  have hden : (0 : K) < maskedMean (mapEntries (fun w => clamp w 0 threshold.upper) weights) + eps :=
    add_pos_of_nonneg_of_pos (maskedMean_nonneg hnonneg) eps_pos
  unfold normalizedSquare
  rw [maskedMean_eq_zero_iff]
  · constructor
    · intro h w hw hvalid
      have hzero := h _ (List.mem_map.2 ⟨_, List.mem_map.2 ⟨w, hw, rfl⟩, rfl⟩) hvalid
      rw [sq_eq_zero_iff, div_eq_zero_iff, or_iff_left hden.ne'] at hzero
      exact hzero
    · intro h p hp hvalid
      obtain ⟨q, hq, rfl⟩ := List.mem_map.1 hp
      obtain ⟨w, hw, rfl⟩ := List.mem_map.1 hq
      dsimp only at hvalid ⊢
      rw [h w hw hvalid, zero_div, zero_pow (Nat.succ_ne_zero 1)]
  · intro p hp
    obtain ⟨q, -, rfl⟩ := List.mem_map.1 hp
    exact sq_nonneg _

omit [IsStrictOrderedRing K] in
/-- **Which weights are zero**: those outside the bounds, if there is a lower bound. -/
theorem boundWeight_eq_zero_iff (threshold : IsThreshold K) {w : K} (hw : 0 < w) :
    clamp (boundWeight threshold w) 0 threshold.upper = 0 ↔
      ∃ lower, threshold.lower = some lower ∧ ¬ (lower ≤ w ∧ w ≤ threshold.upper) := by
  have hu := threshold.upper_pos
  have hpos : ∀ x : K, 0 < x → 0 < clamp x 0 threshold.upper := fun x hx => lt_min (lt_max_of_lt_left hx) hu
  unfold boundWeight
  cases hl : threshold.lower with
  | none =>
    refine ⟨fun h => absurd h (hpos _ (lt_min hw hu)).ne', ?_⟩
    rintro ⟨lower, h, -⟩
    exact absurd h (by simp)
  | some lower =>
    dsimp only
    by_cases hin : lower ≤ w ∧ w ≤ threshold.upper
    · rw [if_pos hin]
      refine ⟨fun h => absurd h (hpos _ hw).ne', ?_⟩
      rintro ⟨lower', h, hout⟩
      rw [Option.some.injEq] at h
      exact absurd (h ▸ hin) hout
    · rw [if_neg hin]
      refine ⟨fun _ => ⟨lower, rfl, hin⟩, fun _ => ?_⟩
      unfold clamp
      rw [max_self, min_eq_left hu.le]

variable {E : Elementary K}

omit [IsStrictOrderedRing K] in
theorem rawWeights_pos {level : IsLevel} {row : Resp (PolicyToken K)} {w : K × Bool}
    (hw : w ∈ rawWeights E level row) (hvalid : w.2 = true) : 0 < w.1 := by
  obtain ⟨p, -, rfl⟩ := List.mem_map.1 hw
  have hmask : mask01 p.2 = (1 : K) := by
    unfold mask01
    exact if_pos hvalid
  dsimp only
  rw [hmask, mul_one]
  cases level <;> exact E.exp_pos _

/-! ## Accepted micro-batches -/

def HasValidToken {α : Type} (m : LossMat α) : Prop := ∃ row ∈ m.rows, ∃ p ∈ row, p.2 = true

variable (E) in
/-- With a lower bound, the raw weight of some valid token is within the bounds. -/
def WithinBounds (level : IsLevel) (threshold : IsThreshold K) (m : LossMat (PolicyToken K)) : Prop :=
  ∀ lower ∈ threshold.lower, ∃ row ∈ m.rows, ∃ w ∈ rawWeights E level row,
    w.2 = true ∧ lower ≤ w.1 ∧ w.1 ≤ threshold.upper

variable (E) in
/-- **The micro-batches that the rollout correction accepts.** -/
structure Accepted (s : CorrSettings K) (m : LossMat (PolicyToken K)) : Prop where
  valid : HasValidToken m
  bounds : ∀ level ∈ s.rolloutIs, ∀ threshold ∈ s.rolloutIsThreshold, WithinBounds E level threshold m

omit [Field K] [LinearOrder K] [IsStrictOrderedRing K] in
theorem hasValidToken_iff {α : Type} {m : LossMat α} : HasValidToken m ↔ tokenCount m.rows.flatten ≠ 0 := by
  rw [ne_eq, tokenCount_eq_zero_iff]
  constructor
  · rintro ⟨row, hrow, p, hp, hvalid⟩ hnone
    exact Bool.false_ne_true ((hnone p (List.mem_flatten.2 ⟨row, hrow, hp⟩)).symm.trans hvalid)
  · intro h
    by_contra hno
    refine h fun p hp => ?_
    obtain ⟨row, hrow, hpr⟩ := List.mem_flatten.1 hp
    by_contra hvalid
    exact hno ⟨row, hrow, p, hpr, by simpa using hvalid⟩

omit [Field K] [LinearOrder K] [IsStrictOrderedRing K] in
theorem tokenCount_flatten_map {α β : Type} {f : List (α × Bool) → List (β × Bool)}
    (hf : ∀ row, (f row).map Prod.snd = row.map Prod.snd) (rows : List (List (α × Bool))) :
    tokenCount (rows.map f).flatten = tokenCount rows.flatten := by
  have hmasks : (rows.map f).map (List.map Prod.snd) = rows.map (List.map Prod.snd) := by
    rw [List.map_map]
    exact List.map_congr_left fun row _ => hf row
  rw [tokenCount_eq, tokenCount_eq, List.map_flatten, hmasks, ← List.map_flatten]

omit [IsStrictOrderedRing K] in
theorem tokenCount_isWeights (level : IsLevel) (threshold : IsThreshold K) (rows : List (Resp (PolicyToken K))) :
    tokenCount (rows.map (isWeights E level threshold)).flatten = tokenCount rows.flatten := by
  refine tokenCount_flatten_map (fun row => ?_) rows
  unfold isWeights mapEntries rawWeights
  rw [List.map_map, List.map_map]
  rfl

variable {m : LossMat (PolicyToken K)}

/-- **The weights refuse a micro-batch** whose valid tokens are all outside the bounds. -/
theorem normalizedSquare_ne_zero_iff {level : IsLevel} {threshold : IsThreshold K} (hvalid : HasValidToken m) :
    normalizedSquare threshold (m.rows.map (isWeights E level threshold)).flatten ≠ 0 ↔
      WithinBounds E level threshold m := by
  rw [ne_eq, normalizedSquare_eq_zero_iff]
  constructor
  · intro h lower hlower
    by_contra hno
    refine h fun w hw hmask => ?_
    obtain ⟨_, hrow', hwr⟩ := List.mem_flatten.1 hw
    obtain ⟨row, hrow, rfl⟩ := List.mem_map.1 hrow'
    obtain ⟨raw, hraw, rfl⟩ := List.mem_map.1 hwr
    refine (boundWeight_eq_zero_iff threshold (rawWeights_pos hraw hmask)).2 ⟨lower, hlower, ?_⟩
    exact fun hin => hno ⟨row, hrow, raw, hraw, hmask, hin⟩
  · intro h hzero
    -- a valid token to look at: one within the bounds, or any one without a lower bound
    obtain ⟨row, hrow, raw, hraw, hmask, hin⟩ : ∃ row ∈ m.rows, ∃ raw ∈ rawWeights E level row, raw.2 = true ∧
        ∀ lower ∈ threshold.lower, lower ≤ raw.1 ∧ raw.1 ≤ threshold.upper := by
      cases hl : threshold.lower with
      | none =>
        obtain ⟨row, hrow, p, hp, hmask⟩ := hvalid
        exact ⟨row, hrow, _, List.mem_map.2 ⟨p, hp, rfl⟩, hmask, fun _ h => absurd h (by simp)⟩
      | some lower =>
        obtain ⟨row, hrow, raw, hraw, hmask, hin⟩ := h lower hl
        refine ⟨row, hrow, raw, hraw, hmask, fun lower' h' => ?_⟩
        rw [Option.mem_some_iff] at h'
        exact h' ▸ hin
    have hweight := hzero _ (List.mem_flatten.2 ⟨_, List.mem_map.2 ⟨row, hrow, rfl⟩,
      List.mem_map.2 ⟨raw, hraw, rfl⟩⟩) hmask
    obtain ⟨lower, hl, hout⟩ := (boundWeight_eq_zero_iff threshold (rawWeights_pos hraw hmask)).1 hweight
    exact hout (hin lower hl)

omit [IsStrictOrderedRing K] in
theorem computeIsMetrics_ok_iff (E : Elementary K) (level : IsLevel) (threshold : IsThreshold K)
    (weights raw : List (List (K × Bool))) (sums : List K) :
    (∃ metrics, computeIsMetrics E level threshold weights raw sums = .ok metrics) ↔
      tokenCount weights.flatten ≠ 0 ∧ normalizedSquare threshold weights.flatten ≠ 0 := by
  unfold computeIsMetrics
  by_cases hcount : tokenCount weights.flatten = 0
  · simp only [if_pos hcount]
    exact ⟨fun ⟨_, h⟩ => absurd h (by simp), fun h => absurd hcount h.1⟩
  · simp only [if_neg hcount]
    by_cases hess : normalizedSquare threshold weights.flatten = 0
    · simp only [if_pos hess]
      exact ⟨fun ⟨_, h⟩ => absurd h (by simp), fun h => absurd hess h.2⟩
    · simp only [if_neg hess]
      exact ⟨fun _ => ⟨hcount, hess⟩, fun _ => ⟨_, rfl⟩⟩

def weightsMat (E : Elementary K) (level : IsLevel) (threshold : IsThreshold K) (m : LossMat (PolicyToken K)) :
    LossMat K :=
  mapRows (isWeights E level threshold) (length_isWeights E level threshold) m

theorem correctionWeights_ok_iff {level : IsLevel} {threshold : IsThreshold K} (hvalid : HasValidToken m)
    {weights : LossMat K} :
    (∃ metrics, computeRolloutCorrectionWeights E level threshold m = .ok (weights, metrics)) ↔
      weights = weightsMat E level threshold m ∧ WithinBounds E level threshold m := by
  have hmetrics := computeIsMetrics_ok_iff E level threshold (weightsMat E level threshold m).rows
    (m.rows.map (rawWeights E level)) (m.rows.map logRatioSum)
  have hrows : (weightsMat E level threshold m).rows = m.rows.map (isWeights E level threshold) := rfl
  rw [hrows, tokenCount_isWeights, normalizedSquare_ne_zero_iff hvalid] at hmetrics
  constructor
  · rintro ⟨metrics, h⟩
    obtain ⟨isMetrics, his, hout⟩ := bind_eq_ok.1 h
    exact ⟨(congrArg Prod.fst (Except.ok.inj hout)).symm, (hmetrics.1 ⟨isMetrics, his⟩).2⟩
  · rintro ⟨rfl, hin⟩
    obtain ⟨isMetrics, his⟩ := hmetrics.2 ⟨hasValidToken_iff.1 hvalid, hin⟩
    exact ⟨_, bind_eq_ok.2 ⟨isMetrics, his, rfl⟩⟩

omit [IsStrictOrderedRing K] in
theorem tokenCount_rsStatistic (option : RsOption) (rows : List (Resp (PolicyToken K))) :
    tokenCount (rows.map (rsStatistic E option)).flatten = tokenCount rows.flatten := by
  refine tokenCount_flatten_map (fun row => ?_) rows
  unfold rsStatistic mapEntries
  split <;>
  · rw [List.map_map]
    rfl

omit [IsStrictOrderedRing K] in
theorem rejectionMask_ok (hvalid : HasValidToken m) (criteria : RsCriteria K) :
    ∃ metrics, computeRolloutRejectionMask E criteria m =
      .ok (mapRows (rejectRow E criteria.criteria) (length_rejectRow E criteria.criteria) m, metrics) := by
  have hcount := hasValidToken_iff.1 hvalid
  have hrs : ∀ c, ∃ metrics, criterionMetrics E m.rows c = .ok metrics := by
    intro c
    have hstats : tokenCount (m.rows.map (rsStatistic E c.option)).flatten ≠ 0 := by
      rw [tokenCount_rsStatistic]
      exact hcount
    obtain ⟨metrics, hmetrics⟩ : ∃ metrics, computeRsMetrics E c m.rows = .ok metrics := by
      unfold computeRsMetrics
      simp only [if_neg hstats]
      exact ⟨_, rfl⟩
    exact ⟨_, bind_eq_ok.2 ⟨metrics, hmetrics, rfl⟩⟩
  choose metrics hmetrics using hrs
  have hne : m.rows ≠ [] := by
    obtain ⟨row, hrow, -⟩ := hvalid
    exact List.ne_nil_of_mem hrow
  unfold computeRolloutRejectionMask
  rw [if_neg hne]
  exact ⟨_, bind_eq_ok.2 ⟨_, mapM_eq_map fun c _ => hmetrics c, rfl⟩⟩

omit [IsStrictOrderedRing K] in
theorem offpolicyMetrics_ok (hvalid : HasValidToken m) : ∃ metrics, computeOffpolicyMetrics E m = .ok metrics := by
  unfold computeOffpolicyMetrics
  simp only [if_neg (hasValidToken_iff.1 hvalid)]
  exact ⟨_, rfl⟩

def weightsOf (E : Elementary K) (s : CorrSettings K) (m : LossMat (PolicyToken K)) : Option (LossMat K) :=
  match s.rolloutIs, s.rolloutIsThreshold with
  | some level, some threshold => some (weightsMat E level threshold m)
  | _, _ => none

def modifiedOf (E : Elementary K) (s : CorrSettings K) (m : LossMat (PolicyToken K)) : LossMat (PolicyToken K) :=
  match s.rolloutRs with
  | some criteria => mapRows (rejectRow E criteria.criteria) (length_rejectRow E criteria.criteria) m
  | none => m

theorem weightsStep_ok_iff {s : CorrSettings K} (hvalid : HasValidToken m) {weights : Option (LossMat K)} :
    (∃ metrics, weightsStep E s m = .ok (weights, metrics)) ↔
      weights = weightsOf E s m ∧
        ∀ level ∈ s.rolloutIs, ∀ threshold ∈ s.rolloutIsThreshold, WithinBounds E level threshold m := by
  -- without a level or a threshold there are no weights
  have hnone : (∃ metrics, (.ok (none, []) : Except String (Option (LossMat K) × Metrics K)) =
      .ok (weights, metrics)) ↔ weights = none := by
    constructor
    · rintro ⟨_, h⟩
      exact (congrArg Prod.fst (Except.ok.inj h)).symm
    · rintro rfl
      exact ⟨[], rfl⟩
  unfold weightsStep weightsOf
  rcases s.rolloutIs with _ | level
  · rw [hnone]
    exact ⟨fun h => ⟨h, fun _ h => absurd h (by simp)⟩, fun h => h.1⟩
  · rcases s.rolloutIsThreshold with _ | threshold
    · rw [hnone]
      exact ⟨fun h => ⟨h, fun _ _ _ h => absurd h (by simp)⟩, fun h => h.1⟩
    · constructor
      · rintro ⟨metrics, h⟩
        obtain ⟨⟨w, isMetrics⟩, his, hout⟩ := bind_eq_ok.1 h
        obtain ⟨rfl, hin⟩ := (correctionWeights_ok_iff hvalid).1 ⟨isMetrics, his⟩
        refine ⟨(congrArg Prod.fst (Except.ok.inj hout)).symm, ?_⟩
        intro level' hlevel threshold' hthreshold
        rw [Option.mem_some_iff] at hlevel hthreshold
        exact hlevel ▸ hthreshold ▸ hin
      · rintro ⟨rfl, hin⟩
        obtain ⟨isMetrics, his⟩ := (correctionWeights_ok_iff hvalid).2 ⟨rfl, hin level rfl threshold rfl⟩
        exact ⟨_, bind_eq_ok.2 ⟨_, his, rfl⟩⟩

omit [IsStrictOrderedRing K] in
theorem rejectionStep_ok (hvalid : HasValidToken m) (s : CorrSettings K) :
    ∃ metrics, rejectionStep E s m = .ok (modifiedOf E s m, metrics) := by
  unfold rejectionStep modifiedOf
  rcases s.rolloutRs with _ | criteria
  · exact ⟨[], rfl⟩
  · exact rejectionMask_ok hvalid criteria

/-- **What the rollout correction returns**, on the micro-batches it accepts. -/
theorem correction_ok_iff {s : CorrSettings K} {weights : Option (LossMat K)} {modified : LossMat (PolicyToken K)} :
    (∃ metrics, computeRolloutCorrectionAndRejectionMask E s m = .ok (weights, modified, metrics)) ↔
      Accepted E s m ∧ weights = weightsOf E s m ∧ modified = modifiedOf E s m := by
  -- without a valid token the micro-batch is refused at once
  by_cases hvalid : HasValidToken m
  · obtain ⟨rsMetrics, hrs⟩ := rejectionStep_ok (E := E) hvalid s
    obtain ⟨offpolicy, hoff⟩ := offpolicyMetrics_ok (E := E) hvalid
    have hweights : (∃ metrics, weightsStep E s m = .ok (weights, metrics)) ↔ _ := weightsStep_ok_iff hvalid
    unfold computeRolloutCorrectionAndRejectionMask
    rw [if_neg (hasValidToken_iff.1 hvalid)]
    constructor
    · rintro ⟨metrics, h⟩
      obtain ⟨⟨w, isMetrics⟩, his, h⟩ := bind_eq_ok.1 h
      obtain ⟨⟨modified', rsMetrics'⟩, hrs', h⟩ := bind_eq_ok.1 h
      obtain ⟨offpolicy', -, h⟩ := bind_eq_ok.1 h
      have hout := Except.ok.inj h
      obtain rfl : w = weights := congrArg Prod.fst hout
      obtain rfl : modified' = modified := congrArg (fun out => out.2.1) hout
      obtain ⟨hw, hbounds⟩ := hweights.1 ⟨isMetrics, his⟩
      exact ⟨⟨hvalid, hbounds⟩, hw, congrArg Prod.fst (Except.ok.inj (hrs'.symm.trans hrs))⟩
    · rintro ⟨haccepted, hw, rfl⟩
      obtain ⟨isMetrics, his⟩ := hweights.2 ⟨hw, haccepted.bounds⟩
      exact ⟨_, bind_eq_ok.2 ⟨_, his, bind_eq_ok.2 ⟨_, hrs, bind_eq_ok.2 ⟨_, hoff, rfl⟩⟩⟩⟩
  · have hcount : tokenCount m.rows.flatten = 0 := by
      by_contra h
      exact hvalid (hasValidToken_iff.2 h)
    unfold computeRolloutCorrectionAndRejectionMask
    rw [if_pos hcount]
    exact ⟨fun ⟨_, h⟩ => absurd h (by simp), fun h => absurd h.1.valid hvalid⟩

end

end Opd.Verl.RolloutCorr

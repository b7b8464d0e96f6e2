import Opd.Verl.TrustRegion

/-!
# The importance weights with batch normalization

`compute_rollout_correction_weights` with all its arguments: the level and the threshold as they are given, and the
weights divided by their mean. The mean is that of the process, or of all ranks when `torch.distributed` is
initialized; then every rank makes the call, and a rank that raises leaves the others without a result.

* `weightsMat_rows`: a weight is the bounded ratio of a valid token, and 0 elsewhere.
* `weightsMean_eq`, `distributedMean_eq`: the means are taken over the valid tokens, or over the rows with one.
* `importanceWeights_spec`: the law of the weights.
-/

namespace Opd.Verl.ImportanceWeights

open Lib RolloutCorr

variable {K : Type} [Field K] [LinearOrder K]

/-! ## Arguments -/

/-- What `rollout_is_threshold` is given as. -/
inductive ThresholdSpec (K : Type)
  | bool (b : Bool)
  | number (x : K)
  | str (s : String)
  | other

/-- `float` of a text, and the text of a number. -/
structure FloatText (K : Type) where
  float : String → Option K
  str : K → String

def checkBounds (F : FloatText K) (upper : K) (lower : Option K) : Except String (IsThreshold K) :=
  if hupper : 0 < upper then
    if hlower : ∀ l ∈ lower, 0 < l then
      if hle : ∀ l ∈ lower, l ≤ upper then .ok ⟨upper, lower, hupper, hlower, hle⟩
      else .error "rollout_is_threshold lower bound must be <= upper bound."
    else .error ("rollout_is_threshold lower bound must be positive, got " ++ (lower.map F.str).getD "" ++ ".")
  else .error ("rollout_is_threshold upper bound must be positive, got " ++ F.str upper ++ ".")

/-- `_parse_rollout_is_threshold` -/
def parseRolloutIsThreshold (F : FloatText K) : ThresholdSpec K → Except String (IsThreshold K)
  | .bool _ =>
    .error "rollout_is_threshold must be specified as a float or a string threshold specification, not a boolean."
  | .number upper => checkBounds F upper none
  | .str thresholdSpec =>
    let spec := TrustRegion.strip thresholdSpec
    let invalid := "Invalid rollout_is_threshold '" ++ thresholdSpec ++ "'."
    if spec = "" then .error "rollout_is_threshold must not be an empty string."
    else if '_' ∈ spec.toList then
      match F.float (TrustRegion.splitUnderscore spec).1, F.float (TrustRegion.splitUnderscore spec).2 with
      | some lower, some upper => checkBounds F upper (some lower)
      | _, _ => .error invalid
    else
      match F.float spec with
      | some upper => checkBounds F upper none
      | none => .error invalid
  | .other => .error "rollout_is_threshold must be a float or a string threshold specification."

/-- The level of `rollout_is`. -/
def levelOf (rolloutIs : String) : Except String IsLevel :=
  if rolloutIs = "token" then .ok .token
  else if rolloutIs = "sequence" then .ok .sequence
  else .error ("Invalid rollout_is: " ++ rolloutIs ++ ". Must be one of \x7b'token', 'sequence'\x7d.")

/-! ## Batch normalization -/

/-- The sum and the number that `distributed_masked_mean` reduces: of the tokens, or of the rows with a valid token. -/
def localTotal (level : IsLevel) (weights : LossMat K) : K × K :=
  match level with
  | .token => (tokenSum weights.rows.flatten, (tokenCount weights.rows.flatten : ℕ))
  | .sequence =>
    ((weights.rows.map fun row => maskedMean row * mask01 (0 < tokenCount row)).sum,
      (weights.rows.map fun row => mask01 (0 < tokenCount row)).sum)

/-- `weights_mean` of one process. -/
def weightsMean (level : IsLevel) (weights : LossMat K) : K :=
  match level with
  | .token => maskedMean weights.rows.flatten
  | .sequence => (localTotal .sequence weights).1 / max (localTotal .sequence weights).2 eps

/-- `weights_mean` of all ranks: `distributed_masked_mean`. -/
def distributedMean (level : IsLevel) (ranks : List (LossMat K)) : K :=
  (ranks.map fun weights => (localTotal level weights).1).sum / (ranks.map fun weights => (localTotal level weights).2).sum

def normalizeBy (weightsMean : K) (weights : LossMat K) : LossMat K × Metrics K :=
  if eps < weightsMean then (weights.map (· / weightsMean), [("rollout_is_batch_norm_factor", weightsMean)])
  else (weights, [("rollout_is_batch_norm_factor", 1)])

section

variable (E : Elementary K) (F : FloatText K) (rolloutIs : String) (thresholdSpec : ThresholdSpec K)
  (batchNormalize : Bool)

def boundedWeights (m : LossMat (PolicyToken K)) : Except String (IsLevel × LossMat K × Metrics K) := do
  let level ← levelOf rolloutIs
  let threshold ← parseRolloutIsThreshold F thresholdSpec
  let out ← RolloutCorr.computeRolloutCorrectionWeights E level threshold m
  return (level, out)

/-- `compute_rollout_correction_weights` -/
def computeRolloutCorrectionWeights (m : LossMat (PolicyToken K)) : Except String (LossMat K × Metrics K) := do
  let (level, weights, metrics) ← boundedWeights E F rolloutIs thresholdSpec m
  if batchNormalize then
    let (normalized, factor) := normalizeBy (weightsMean level weights) weights
    return (normalized, metrics ++ factor)
  else return (weights, metrics)

/-- `compute_rollout_correction_weights` on all ranks of an initialized process group. -/
def computeOnRanks (ranks : List (LossMat (PolicyToken K))) : Except String (List (LossMat K × Metrics K)) := do
  let outs ← ranks.mapM (boundedWeights E F rolloutIs thresholdSpec)
  if batchNormalize then
    return outs.map fun out =>
      let (normalized, factor) := normalizeBy (distributedMean out.1 (outs.map fun out => out.2.1)) out.2.1
      (normalized, out.2.2 ++ factor)
  else return outs.map Prod.snd

end

/-! ## The law -/

def ratio (E : Elementary K) (level : IsLevel) (row : Resp (PolicyToken K)) (t : PolicyToken K) : K :=
  match level with
  | .token => E.exp (clampSafe (logRatio t))
  | .sequence => E.exp (clampSafe (logRatioSum row))

/-- The weights before normalization: the bounded ratios of the valid tokens, 0 elsewhere. -/
def weightRows (E : Elementary K) (level : IsLevel) (threshold : IsThreshold K) (m : LossMat (PolicyToken K)) :
    List (List (K × Bool)) :=
  m.rows.map fun row => row.map fun p => (if p.2 then boundWeight threshold (ratio E level row p.1) else 0, p.2)

/-- The mean of the weights of one process: `masked_mean` over the valid tokens, or the mean over the rows with a valid
token of their `masked_mean`. -/
def processMean (level : IsLevel) (rows : List (List (K × Bool))) : K :=
  match level with
  | .token => maskedMean rows.flatten
  | .sequence => mean ((validRows rows).map maskedMean)

/-- The mean of the weights of all ranks: over the valid tokens, or over the rows with a valid token of their
`masked_mean`. -/
def globalMean (level : IsLevel) (rows : List (List (K × Bool))) : K :=
  match level with
  | .token => mean (validValues rows.flatten)
  | .sequence => mean ((validRows rows).map maskedMean)

structure WeightLaw (E : Elementary K) (level : IsLevel) (threshold : IsThreshold K) (m : LossMat (PolicyToken K))
    (weights : LossMat K) : Prop where
  mask : weights.rows.map (List.map Prod.snd) = m.rows.map (List.map Prod.snd)
  padding : ∀ row ∈ weights.rows, ∀ p ∈ row, p.2 = false → p.1 = 0
  shared : level = .sequence → ∀ row ∈ weights.rows, ∀ p ∈ row, ∀ q ∈ row, p.2 = true → q.2 = true → p.1 = q.1
  ratios : ∀ p ∈ (weightRows E level threshold m).flatten.zip weights.rows.flatten,
    ∀ q ∈ (weightRows E level threshold m).flatten.zip weights.rows.flatten, p.2.1 * q.1.1 = q.2.1 * p.1.1

/-- **TIS** cuts a positive ratio at the upper bound. -/
theorem boundWeight_truncates {threshold : IsThreshold K} (h : threshold.lower = none) {x : K} (hx : 0 < x) :
    boundWeight threshold x = min x threshold.upper ∧ 0 ≤ boundWeight threshold x ∧
      boundWeight threshold x ≤ threshold.upper := by
  have hbound : boundWeight threshold x = min x threshold.upper := by
    unfold boundWeight
    rw [h]
  rw [hbound]
  exact ⟨rfl, le_min hx.le threshold.upper_pos.le, min_le_right _ _⟩

/-- **IcePop** keeps a ratio in the bounds, and sets the others to zero. -/
theorem boundWeight_icePop {threshold : IsThreshold K} {lower : K} (h : threshold.lower = some lower) (x : K) :
    boundWeight threshold x = 0 ∨ (boundWeight threshold x = x ∧ lower ≤ x ∧ x ≤ threshold.upper) := by
  unfold boundWeight
  rw [h]
  by_cases hin : lower ≤ x ∧ x ≤ threshold.upper
  · exact .inr ⟨if_pos hin, hin⟩
  · exact .inl (if_neg hin)

theorem boundWeight_zero (threshold : IsThreshold K) : boundWeight threshold 0 = 0 := by
  unfold boundWeight
  cases hlower : threshold.lower with
  | none => exact min_eq_left threshold.upper_pos.le
  | some lower =>
    have hpos := threshold.lower_pos lower hlower
    exact if_neg fun hin => absurd hin.1 (not_le.2 hpos)

/-- **The weights before normalization.** -/
theorem weightsMat_rows (E : Elementary K) (level : IsLevel) (threshold : IsThreshold K)
    (m : LossMat (PolicyToken K)) : (weightsMat E level threshold m).rows = weightRows E level threshold m := by
  refine List.map_congr_left fun row _ => ?_
  unfold isWeights mapEntries rawWeights
  rw [List.map_map]
  refine List.map_congr_left fun p _ => ?_
  obtain ⟨t, valid⟩ := p
  cases valid
  · refine Prod.ext ?_ rfl
    simp only [Function.comp_apply, mask01, Bool.false_eq_true, if_false, mul_zero]
    exact boundWeight_zero threshold
  · refine Prod.ext ?_ rfl
    simp only [Function.comp_apply, mask01, if_true, mul_one]
    cases level <;> rfl

theorem weightLaw_div (E : Elementary K) (level : IsLevel) (threshold : IsThreshold K) (m : LossMat (PolicyToken K))
    {weights : LossMat K} {c : K}
    (h : weights.rows = (weightRows E level threshold m).map (mapEntries (· / c))) :
    WeightLaw E level threshold m weights := by
  have hrow : ∀ row ∈ weights.rows, ∃ row' ∈ m.rows, row = row'.map fun p =>
      ((if p.2 then boundWeight threshold (ratio E level row' p.1) else 0) / c, p.2) := by
    intro row hrow
    rw [h] at hrow
    obtain ⟨row₁, hrow₁, rfl⟩ := List.mem_map.1 hrow
    obtain ⟨row', hrow', rfl⟩ := List.mem_map.1 hrow₁
    exact ⟨row', hrow', List.map_map⟩
  refine ⟨?_, ?_, ?_, ?_⟩
  · rw [h]
    unfold weightRows mapEntries
    rw [List.map_map, List.map_map]
    refine List.map_congr_left fun row _ => ?_
    simp only [Function.comp_apply, List.map_map]
    rfl
  · intro row hmem p hp hpad
    obtain ⟨row', -, rfl⟩ := hrow row hmem
    obtain ⟨q, -, rfl⟩ := List.mem_map.1 hp
    have hq : q.2 = false := hpad
    simp only [hq, Bool.false_eq_true, if_false, zero_div]
  · rintro rfl row hmem p hp q hq hpvalid hqvalid
    obtain ⟨row', -, rfl⟩ := hrow row hmem
    obtain ⟨p', -, rfl⟩ := List.mem_map.1 hp
    obtain ⟨q', -, rfl⟩ := List.mem_map.1 hq
    have hp' : p'.2 = true := hpvalid
    have hq' : q'.2 = true := hqvalid
    simp only [hp', hq', if_true]
    rfl
  · have hzip : ∀ p ∈ (weightRows E level threshold m).flatten.zip weights.rows.flatten, p.2.1 = p.1.1 / c := by
      have hflatten : weights.rows.flatten = (weightRows E level threshold m).flatten.map fun p => (p.1 / c, p.2) := by
        rw [h, List.map_flatten]
        rfl
      have hpairs := @List.zip_map' _ _ _ id (fun p : K × Bool => (p.1 / c, p.2)) (weightRows E level threshold m).flatten
      rw [List.map_id] at hpairs
      intro p hp
      rw [hflatten, hpairs] at hp
      obtain ⟨a, -, rfl⟩ := List.mem_map.1 hp
      rfl
    intro p hp q hq
    rw [hzip p hp, hzip q hq]
    ring

/-! ## The means -/

omit [LinearOrder K] in
theorem maskedSum_eq_sum (l : List (K × Bool)) : maskedSum l = (validValues l).sum := by
  induction l with
  | nil => rfl
  | cons p l ih =>
    obtain ⟨x, valid⟩ := p
    rw [maskedSum_cons, ih]
    cases valid
    · exact zero_add _
    · rfl

omit [LinearOrder K] in
theorem tokenSum_eq_sum (l : List (K × Bool)) : tokenSum l = (validValues l).sum := by
  rw [← maskedSum_eq_sum]
  unfold tokenSum maskedSum
  refine congrArg List.sum (List.map_congr_left fun p _ => ?_)
  cases hp : p.2 <;> simp [mask01]

omit [Field K] [LinearOrder K] in
theorem tokenCount_eq_length (l : List (K × Bool)) : tokenCount l = (validValues l).length := by
  unfold tokenCount validValues
  rw [List.length_map, List.countP_eq_length_filter]

omit [Field K] [LinearOrder K] in
theorem validValues_mapEntries (f : K → K) (l : List (K × Bool)) :
    validValues (mapEntries f l) = (validValues l).map f := by
  unfold validValues mapEntries
  rw [List.filter_map, List.map_map, List.map_map]
  rfl

omit [LinearOrder K] in
theorem sum_div (l : List K) (c : K) : (l.map (· / c)).sum = l.sum / c := by
  have h := @List.sum_map_mul_right K K _ l id c⁻¹
  rw [List.map_id, ← div_eq_mul_inv] at h
  exact h ▸ congrArg List.sum (List.map_congr_left fun x _ => div_eq_mul_inv x c)

omit [LinearOrder K] in
theorem mean_div (l : List K) (c : K) : mean (l.map (· / c)) = mean l / c := by
  unfold mean
  rw [sum_div, List.length_map, div_right_comm]

omit [LinearOrder K] in
theorem mean_flatMap {α : Type} (f : α → List K) (l : List α) :
    mean (l.flatMap f) = (l.map fun a => (f a).sum).sum / (l.map fun a => ((f a).length : K)).sum := by
  unfold mean
  rw [List.flatMap_def, List.sum_flatten, List.length_flatten, Nat.cast_list_sum, List.map_map, List.map_map,
    List.map_map]
  rfl

omit [LinearOrder K] in
theorem maskedMean_div (l : List (K × Bool)) (c : K) : maskedMean (mapEntries (· / c) l) = maskedMean l / c := by
  have hvalues := validValues_mapEntries (· / c) l
  have hcount : tokenCount (mapEntries (· / c) l) = tokenCount l := by
    rw [tokenCount_eq_length, hvalues, List.length_map, tokenCount_eq_length]
  unfold maskedMean
  rw [hcount, maskedSum_eq_sum, hvalues, sum_div, ← maskedSum_eq_sum, div_right_comm]

omit [LinearOrder K] in
theorem sum_validRows (f : List (K × Bool) → K) (rows : List (List (K × Bool))) :
    (rows.map fun row => f row * mask01 (0 < tokenCount row)).sum = ((validRows rows).map f).sum := by
  induction rows with
  | nil => rfl
  | cons row rows ih =>
    rw [List.map_cons, List.sum_cons, ih]
    unfold validRows
    by_cases hrow : 0 < tokenCount row
    · simp [mask01, hrow]
    · simp [mask01, hrow]

omit [LinearOrder K] in
theorem localTotal_sequence (weights : LossMat K) :
    localTotal .sequence weights =
      (((validRows weights.rows).map maskedMean).sum, ((validRows weights.rows).length : K)) := by
  have hcount := sum_validRows (fun _ => (1 : K)) weights.rows
  simp only [one_mul] at hcount
  rw [List.map_const', List.sum_replicate, nsmul_eq_mul, mul_one] at hcount
  exact Prod.ext (sum_validRows maskedMean weights.rows) hcount

/-- **The mean of a process** is over its valid tokens, or over its rows with one. -/
theorem weightsMean_eq [IsStrictOrderedRing K] (level : IsLevel) (weights : LossMat K) :
    weightsMean level weights = processMean level weights.rows := by
  cases level with
  | token => rfl
  | sequence =>
    change (localTotal .sequence weights).1 / max (localTotal .sequence weights).2 eps =
      mean ((validRows weights.rows).map maskedMean)
    rw [localTotal_sequence]
    unfold mean
    by_cases hempty : validRows weights.rows = []
    · rw [hempty]
      simp
    · have hcount : (1 : K) ≤ ((validRows weights.rows).length : K) := by
        exact_mod_cast List.length_pos_of_ne_nil hempty
      have heps : (eps : K) ≤ 1 := by
        unfold eps
        exact inv_le_one_of_one_le₀ (by exact_mod_cast Nat.one_le_pow _ _ (Nat.succ_pos 9))
      rw [max_eq_left (heps.trans hcount), List.length_map]

omit [LinearOrder K] in
/-- **The mean of all ranks** is over their valid tokens, or over their rows with one. -/
theorem distributedMean_eq (level : IsLevel) (ranks : List (LossMat K)) :
    distributedMean level ranks = globalMean level (ranks.flatMap (·.rows)) := by
  unfold distributedMean globalMean
  cases level with
  | token =>
    have htotal : ∀ weights : LossMat K, localTotal .token weights =
        ((validValues weights.rows.flatten).sum, ((validValues weights.rows.flatten).length : K)) :=
      fun weights => Prod.ext (tokenSum_eq_sum _) (congrArg Nat.cast (tokenCount_eq_length _))
    have hvalues : validValues (ranks.flatMap (·.rows)).flatten =
        ranks.flatMap fun weights => validValues weights.rows.flatten := by
      unfold validValues
      rw [List.flatMap_def, List.flatten_flatten, List.map_map, List.filter_flatten, List.map_map, List.map_flatten,
        List.map_map]
      rfl
    simp only [htotal, hvalues, mean_flatMap]
  | sequence =>
    have hrows : (validRows (ranks.flatMap (·.rows))).map maskedMean =
        ranks.flatMap fun weights => (validRows weights.rows).map (maskedMean : List (K × Bool) → K) := by
      unfold validRows
      rw [List.filter_flatMap, List.map_flatMap]
    simp only [localTotal_sequence, hrows, mean_flatMap, List.length_map]

omit [LinearOrder K] in
theorem mean_map_div (rows : List (List (K × Bool))) (c : K) :
    mean ((validRows (rows.map (mapEntries (· / c)))).map maskedMean) = mean ((validRows rows).map maskedMean) / c := by
  have hvalid : validRows (rows.map (mapEntries (· / c))) = (validRows rows).map (mapEntries (· / c)) := by
    unfold validRows
    rw [List.filter_map]
    refine congrArg (List.map _) (List.filter_congr fun row _ => ?_)
    simp only [Function.comp_apply, tokenCount_eq_length, validValues_mapEntries, List.length_map]
  rw [hvalid, List.map_map, ← mean_div, List.map_map]
  exact congrArg mean (List.map_congr_left fun row _ => maskedMean_div row c)

omit [LinearOrder K] in
theorem processMean_div (level : IsLevel) (rows : List (List (K × Bool))) (c : K) :
    processMean level (rows.map (mapEntries (· / c))) = processMean level rows / c := by
  cases level with
  | token =>
    have hflatten : (rows.map (mapEntries (· / c))).flatten = mapEntries (· / c) rows.flatten := List.map_flatten.symm
    exact (congrArg maskedMean hflatten).trans (maskedMean_div _ c)
  | sequence => exact mean_map_div rows c

omit [LinearOrder K] in
theorem globalMean_div (level : IsLevel) (rows : List (List (K × Bool))) (c : K) :
    globalMean level (rows.map (mapEntries (· / c))) = globalMean level rows / c := by
  cases level with
  | token =>
    have hflatten : (rows.map (mapEntries (· / c))).flatten = mapEntries (· / c) rows.flatten := List.map_flatten.symm
    change mean (validValues (rows.map (mapEntries (· / c))).flatten) = mean (validValues rows.flatten) / c
    rw [hflatten, validValues_mapEntries, mean_div]
  | sequence => exact mean_map_div rows c

/-! ## The law of the calls -/

section

variable [IsStrictOrderedRing K] {E : Elementary K} {F : FloatText K} {rolloutIs : String}
  {thresholdSpec : ThresholdSpec K} {level : IsLevel} {threshold : IsThreshold K}

theorem boundedWeights_ok (hlevel : levelOf rolloutIs = .ok level)
    (hthreshold : parseRolloutIsThreshold F thresholdSpec = .ok threshold) {m : LossMat (PolicyToken K)}
    {out : IsLevel × LossMat K × Metrics K} (h : boundedWeights E F rolloutIs thresholdSpec m = .ok out) :
    out.1 = level ∧ out.2.1 = weightsMat E level threshold m := by
  obtain ⟨level', hlevel', h⟩ := bind_eq_ok.1 h
  obtain ⟨threshold', hthreshold', h⟩ := bind_eq_ok.1 h
  obtain ⟨⟨weights, metrics⟩, hweights, hout⟩ := bind_eq_ok.1 h
  obtain rfl := Except.ok.inj (hlevel.symm.trans hlevel')
  obtain rfl := Except.ok.inj (hthreshold.symm.trans hthreshold')
  obtain rfl := Except.ok.inj hout
  obtain ⟨isMetrics, hmetrics, hreturn⟩ := bind_eq_ok.1 hweights
  -- without a valid token the metrics raise
  have hcount := ((computeIsMetrics_ok_iff E level threshold _ _ _).1 ⟨isMetrics, hmetrics⟩).1
  have hrows : (mapRows (isWeights E level threshold) (length_isWeights E level threshold) m).rows =
      m.rows.map (isWeights E level threshold) := rfl
  rw [hrows, tokenCount_isWeights] at hcount
  exact ⟨rfl, ((correctionWeights_ok_iff (hasValidToken_iff.2 hcount)).1 ⟨metrics, hweights⟩).1⟩

theorem boundedWeights_returns (hlevel : levelOf rolloutIs = .ok level)
    (hthreshold : parseRolloutIsThreshold F thresholdSpec = .ok threshold) {m : LossMat (PolicyToken K)}
    (hvalid : HasValidToken m) (hbounds : WithinBounds E level threshold m) :
    ∃ out, boundedWeights E F rolloutIs thresholdSpec m = .ok out := by
  obtain ⟨metrics, hmetrics⟩ := (correctionWeights_ok_iff hvalid).2 ⟨rfl, hbounds⟩
  exact ⟨_, bind_eq_ok.2 ⟨level, hlevel, bind_eq_ok.2 ⟨threshold, hthreshold, bind_eq_ok.2 ⟨_, hmetrics, rfl⟩⟩⟩⟩

omit [LinearOrder K] [IsStrictOrderedRing K] in
theorem mapEntries_div_one (rows : List (List (K × Bool))) : rows.map (mapEntries (· / 1)) = rows := by
  unfold mapEntries
  simp

def divisor (weightsMean : K) : K := if eps < weightsMean then weightsMean else 1

omit [IsStrictOrderedRing K] in
theorem normalizeBy_rows (weightsMean : K) (weights : LossMat K) :
    (normalizeBy weightsMean weights).1.rows = weights.rows.map (mapEntries (· / divisor weightsMean)) := by
  unfold normalizeBy divisor
  by_cases h : eps < weightsMean
  · rw [if_pos h, if_pos h]
    rfl
  · rw [if_neg h, if_neg h, mapEntries_div_one]

theorem computeRolloutCorrectionWeights_spec (hlevel : levelOf rolloutIs = .ok level)
    (hthreshold : parseRolloutIsThreshold F thresholdSpec = .ok threshold) {batchNormalize : Bool}
    {m : LossMat (PolicyToken K)} {weights : LossMat K} {metrics : Metrics K}
    (h : computeRolloutCorrectionWeights E F rolloutIs thresholdSpec batchNormalize m = .ok (weights, metrics)) :
    WeightLaw E level threshold m weights ∧
      (batchNormalize = false → weights.rows = weightRows E level threshold m) ∧
      (batchNormalize = true → eps < processMean level (weightRows E level threshold m) →
        processMean level weights.rows = 1) := by
  obtain ⟨⟨level', before, _⟩, hbefore, h⟩ := bind_eq_ok.1 h
  obtain ⟨hsame, hweights⟩ := boundedWeights_ok hlevel hthreshold hbefore
  obtain rfl : level' = level := hsame
  obtain rfl : before = weightsMat E level' threshold m := hweights
  have hrows := weightsMat_rows E level' threshold m
  cases batchNormalize with
  | false =>
    obtain rfl := congrArg Prod.fst (Except.ok.inj h)
    refine ⟨@weightLaw_div _ _ _ E level' threshold m _ 1 ?_, fun _ => hrows, fun hfalse => absurd hfalse (by simp)⟩
    rw [mapEntries_div_one]
    exact hrows
  | true =>
    have hmean : weightsMean level' (weightsMat E level' threshold m) =
        processMean level' (weightRows E level' threshold m) := by
      rw [weightsMean_eq, hrows]
    have hnormalized := normalizeBy_rows (weightsMean level' (weightsMat E level' threshold m))
      (weightsMat E level' threshold m)
    have hreturned : (normalizeBy (weightsMean level' (weightsMat E level' threshold m))
        (weightsMat E level' threshold m)).1 = weights := congrArg Prod.fst (Except.ok.inj h)
    rw [hreturned, hmean, hrows] at hnormalized
    refine ⟨weightLaw_div E level' threshold m hnormalized, fun htrue => absurd htrue (by simp), fun _ habove => ?_⟩
    have hpos : (0 : K) < eps := eps_pos
    rw [divisor, if_pos habove] at hnormalized
    rw [hnormalized, processMean_div, div_self (hpos.trans habove).ne']

theorem computeOnRanks_spec (hlevel : levelOf rolloutIs = .ok level)
    (hthreshold : parseRolloutIsThreshold F thresholdSpec = .ok threshold) {batchNormalize : Bool}
    {ranks : List (LossMat (PolicyToken K))} {outs : List (LossMat K × Metrics K)}
    (h : computeOnRanks E F rolloutIs thresholdSpec batchNormalize ranks = .ok outs) :
    List.Forall₂ (fun m out => WeightLaw E level threshold m out.1) ranks outs ∧
      (batchNormalize = false → outs.map (fun out => out.1.rows) = ranks.map (weightRows E level threshold)) ∧
      (batchNormalize = true → eps < globalMean level (ranks.flatMap (weightRows E level threshold)) →
        globalMean level (outs.flatMap fun out => out.1.rows) = 1) := by
  obtain ⟨befores, hbefores, h⟩ := bind_eq_ok.1 h
  have hspec : List.Forall₂ (fun m out => out.1 = level ∧ out.2.1 = weightsMat E level threshold m) ranks befores :=
    (mapM_eq_ok_iff.1 hbefores).imp fun m out hout => boundedWeights_ok hlevel hthreshold hout
  have hweights : befores.map (fun out => out.2.1) = ranks.map (weightsMat E level threshold) := by
    rw [← List.forall₂_eq_eq_eq, List.forall₂_map_left_iff, List.forall₂_map_right_iff]
    exact (hspec.imp fun m out hout => hout.2).flip
  have hflat : (befores.map fun out => out.2.1).flatMap (·.rows) = ranks.flatMap (weightRows E level threshold) := by
    rw [hweights, List.flatMap_map]
    exact List.flatMap_congr fun m _ => weightsMat_rows E level threshold m
  cases batchNormalize with
  | false =>
    obtain rfl := Except.ok.inj h
    refine ⟨?_, fun _ => ?_, fun hfalse => absurd hfalse (by simp)⟩
    · rw [List.forall₂_map_right_iff]
      refine hspec.imp fun m out hout => @weightLaw_div _ _ _ E level threshold m _ 1 ?_
      rw [mapEntries_div_one, hout.2]
      exact weightsMat_rows E level threshold m
    · have hrows := congrArg (List.map fun weights : LossMat K => weights.rows) hweights
      rw [List.map_map, List.map_map] at hrows
      rw [List.map_map]
      exact hrows.trans (List.map_congr_left fun m _ => weightsMat_rows E level threshold m)
  | true =>
    obtain rfl := Except.ok.inj h
    have hmean : distributedMean level (befores.map fun out => out.2.1) =
        globalMean level (ranks.flatMap (weightRows E level threshold)) := by
      rw [distributedMean_eq, hflat]
    have hnormalized : List.Forall₂ (fun m out =>
        (normalizeBy (distributedMean out.1 (befores.map fun out => out.2.1)) out.2.1).1.rows =
          (weightRows E level threshold m).map
            (mapEntries (· / divisor (globalMean level (ranks.flatMap (weightRows E level threshold))))))
        ranks befores := by
      refine hspec.imp fun m out hout => ?_
      rw [normalizeBy_rows, hout.1, hmean, hout.2, weightsMat_rows]
    refine ⟨?_, fun htrue => absurd htrue (by simp), fun _ habove => ?_⟩
    · rw [List.forall₂_map_right_iff]
      exact hnormalized.imp fun m out hout => weightLaw_div E level threshold m hout
    · have hpos : (0 : K) < eps := eps_pos
      rw [divisor, if_pos habove] at hnormalized
      have hrows : (befores.map fun out =>
          (normalizeBy (distributedMean out.1 (befores.map fun out => out.2.1)) out.2.1).1.rows) =
          ranks.map fun m => (weightRows E level threshold m).map
            (mapEntries (· / globalMean level (ranks.flatMap (weightRows E level threshold)))) := by
        rw [← List.forall₂_eq_eq_eq, List.forall₂_map_left_iff, List.forall₂_map_right_iff]
        exact hnormalized.flip
      have hall : ((befores.map fun out =>
          (normalizeBy (distributedMean out.1 (befores.map fun out => out.2.1)) out.2.1).1.rows)).flatten =
          (ranks.flatMap (weightRows E level threshold)).map
            (mapEntries (· / globalMean level (ranks.flatMap (weightRows E level threshold)))) := by
        rw [hrows, List.map_flatMap]
        rfl
      rw [List.flatMap_def, List.map_map]
      exact (congrArg (globalMean level) hall).trans
        ((globalMean_div _ _ _).trans (div_self (hpos.trans habove).ne'))

/-- The law of the weights: what they are before normalization, what the calls return, and when they do. -/
structure ImportanceLaw (E : Elementary K) (F : FloatText K) (rolloutIs : String) (thresholdSpec : ThresholdSpec K)
    (batchNormalize : Bool) (level : IsLevel) (threshold : IsThreshold K) : Prop where
  truncated : threshold.lower = none → ∀ row t,
    boundWeight threshold (ratio E level row t) = min (ratio E level row t) threshold.upper ∧
      0 ≤ boundWeight threshold (ratio E level row t) ∧ boundWeight threshold (ratio E level row t) ≤ threshold.upper
  icePop : ∀ lower ∈ threshold.lower, ∀ row t,
    boundWeight threshold (ratio E level row t) = 0 ∨
      (boundWeight threshold (ratio E level row t) = ratio E level row t ∧
        lower ≤ ratio E level row t ∧ ratio E level row t ≤ threshold.upper)
  process : ∀ m weights metrics,
    computeRolloutCorrectionWeights E F rolloutIs thresholdSpec batchNormalize m = .ok (weights, metrics) →
      WeightLaw E level threshold m weights ∧
        (batchNormalize = false → weights.rows = weightRows E level threshold m) ∧
        (batchNormalize = true → eps < processMean level (weightRows E level threshold m) →
          processMean level weights.rows = 1)
  ranks : ∀ ranks outs, computeOnRanks E F rolloutIs thresholdSpec batchNormalize ranks = .ok outs →
    List.Forall₂ (fun m out => WeightLaw E level threshold m out.1) ranks outs ∧
      (batchNormalize = false → outs.map (fun out => out.1.rows) = ranks.map (weightRows E level threshold)) ∧
      (batchNormalize = true → eps < globalMean level (ranks.flatMap (weightRows E level threshold)) →
        globalMean level (outs.flatMap fun out => out.1.rows) = 1)
  returns : ∀ m, HasValidToken m → WithinBounds E level threshold m →
    ∃ out, computeRolloutCorrectionWeights E F rolloutIs thresholdSpec batchNormalize m = .ok out

/-- **The law of the importance weights.** -/
theorem importanceWeights_spec (E : Elementary K) (F : FloatText K) (batchNormalize : Bool)
    (hlevel : levelOf rolloutIs = .ok level)
    (hthreshold : parseRolloutIsThreshold F thresholdSpec = .ok threshold) :
    ImportanceLaw E F rolloutIs thresholdSpec batchNormalize level threshold := by
  have hpos : ∀ row t, 0 < ratio E level row t := by
    intro row t
    cases level <;> exact E.exp_pos _
  refine ⟨?_, ?_, ?_, ?_, ?_⟩
  · exact fun hlower row t => boundWeight_truncates hlower (hpos row t)
  · exact fun lower hlower row t => boundWeight_icePop hlower _
  · exact fun m weights metrics h => computeRolloutCorrectionWeights_spec hlevel hthreshold h
  · exact fun ranks outs h => computeOnRanks_spec hlevel hthreshold h
  · intro m hvalid hbounds
    obtain ⟨out, hout⟩ := boundedWeights_returns hlevel hthreshold hvalid hbounds
    cases batchNormalize with
    | false => exact ⟨_, bind_eq_ok.2 ⟨out, hout, rfl⟩⟩
    | true => exact ⟨_, bind_eq_ok.2 ⟨out, hout, rfl⟩⟩

theorem mean_of_maskedMean {l : List (K × Bool)} (h : maskedMean l = 1) :
    mean (validValues l) = ((tokenCount l : ℕ) + eps) / (tokenCount l : ℕ) := by
  unfold maskedMean at h
  rw [div_eq_one_iff_eq (count_add_pos l).ne', maskedSum_eq_sum] at h
  unfold mean
  rw [h, ← tokenCount_eq_length]

end

/-! ## Real numbers -/

def digitText : FloatText ℝ := ⟨TrustRegion.digitFloat, fun _ => ""⟩

theorem parse_two : ∃ threshold, parseRolloutIsThreshold digitText (.number 2) = .ok threshold ∧
    threshold.upper = 2 ∧ threshold.lower = none := by
  have hpos : (0 : ℝ) < 2 := two_pos
  have hnone : ∀ P : ℝ → Prop, ∀ l ∈ (none : Option ℝ), P l := fun _ _ h => absurd h (by simp)
  have hbounds : checkBounds digitText 2 none = .ok ⟨2, none, hpos, hnone _, hnone _⟩ := by
    unfold checkBounds
    rw [dif_pos hpos, dif_pos (hnone _), dif_pos (hnone _)]
  exact ⟨_, hbounds, rfl, rfl⟩

theorem importanceWeights_spec_two : ∃ threshold, parseRolloutIsThreshold digitText (.number 2) = .ok threshold ∧
    ImportanceLaw BypassMode.realElementary digitText "token" (.number 2) true .token threshold := by
  obtain ⟨threshold, hthreshold, -⟩ := parse_two
  exact ⟨threshold, hthreshold, importanceWeights_spec BypassMode.realElementary digitText true rfl hthreshold⟩

/-- One token of weight 1: the weight is normalized to `1 + 1e-8`, which is the mean. -/
theorem mean_ne_one_evenToken : ∃ threshold weights metrics,
    parseRolloutIsThreshold digitText (.number 2) = .ok threshold ∧
      computeRolloutCorrectionWeights BypassMode.realElementary digitText "token" (.number 2) true
        (BypassMode.oneTokenRows BypassMode.evenToken [true]) = .ok (weights, metrics) ∧
      mean (validValues (weightRows BypassMode.realElementary .token threshold
        (BypassMode.oneTokenRows BypassMode.evenToken [true])).flatten) = 1 ∧
      mean (validValues weights.rows.flatten) = 1 + eps ∧ (1 : ℝ) + eps ≠ 1 := by
  obtain ⟨threshold, hthreshold, hupper, hlower⟩ := parse_two
  have hvalid : HasValidToken (BypassMode.oneTokenRows BypassMode.evenToken [true]) :=
    ⟨_, List.mem_singleton_self _, _, List.mem_singleton_self _, rfl⟩
  have hbounds : WithinBounds BypassMode.realElementary .token threshold
      (BypassMode.oneTokenRows BypassMode.evenToken [true]) := by
    intro lower h
    rw [hlower] at h
    exact absurd h (by simp)
  obtain ⟨bounded, hbounded⟩ := @boundedWeights_returns ℝ _ _ _ BypassMode.realElementary digitText "token" _ .token
    threshold rfl hthreshold _ hvalid hbounds
  obtain ⟨⟨weights, metrics⟩, hout⟩ : ∃ out, computeRolloutCorrectionWeights BypassMode.realElementary digitText
      "token" (.number 2) true (BypassMode.oneTokenRows BypassMode.evenToken [true]) = .ok out :=
    ⟨_, bind_eq_ok.2 ⟨bounded, hbounded, rfl⟩⟩
  obtain ⟨hlaw, -, hmean⟩ := @computeRolloutCorrectionWeights_spec ℝ _ _ _ _ _ _ _ .token _ rfl hthreshold _ _ _ _ hout
  have hrows : weightRows BypassMode.realElementary .token threshold
      (BypassMode.oneTokenRows BypassMode.evenToken [true]) = [[(1, true)]] := by
    have hweight : boundWeight threshold (1 : ℝ) = 1 := by
      rw [(boundWeight_truncates hlower one_pos).1, hupper]
      exact min_eq_left one_le_two
    have hratio : ratio BypassMode.realElementary .token [(BypassMode.evenToken, true)] BypassMode.evenToken = 1 := by
      have hclamp : clampSafe (logRatio BypassMode.evenToken) = 0 := by
        unfold clampSafe clamp logRatio BypassMode.evenToken safetyBound
        norm_num
      unfold ratio
      rw [hclamp]
      exact Real.exp_zero
    change [[(if true then boundWeight threshold (ratio BypassMode.realElementary .token
      [(BypassMode.evenToken, true)] BypassMode.evenToken) else 0, true)]] = _
    rw [hratio, hweight, if_pos rfl]
  have heps : (0 : ℝ) < eps := eps_pos
  have hbefore : eps < processMean .token (weightRows BypassMode.realElementary .token threshold
      (BypassMode.oneTokenRows BypassMode.evenToken [true])) := by
    rw [hrows]
    have hmean : processMean .token [[((1 : ℝ), true)]] = 1 / (1 + eps) := by
      unfold processMean maskedMean
      simp [maskedSum, tokenCount, mask01]
    rw [hmean, lt_div_iff₀ (by linarith)]
    unfold eps
    norm_num
  have hone : tokenCount weights.rows.flatten = 1 := by
    rw [tokenCount_eq, List.map_flatten, hlaw.mask]
    rfl
  have hafter := mean_of_maskedMean (hmean rfl hbefore)
  rw [hone, Nat.cast_one, div_one] at hafter
  refine ⟨threshold, weights, metrics, hthreshold, hout, ?_, hafter, by linarith⟩
  rw [hrows]
  simp [mean, validValues]

end Opd.Verl.ImportanceWeights

import Mathlib.Algebra.Field.Rat
import Mathlib.Data.List.MinMax
import Mathlib.Data.List.Sort
import Opd.Lib.Grouping
import Opd.Lib.Jagged

/-!
# The optimal token baseline

For each time step the rows of a group share a baseline. The single-turn version has a time step for each
position, the multi-turn version one for each valid token, so that observations do not count.

* `maskSelect_prefixSums`, `maskSelect_suffixSums`: sums over the valid tokens.
* `zeroTail_iff`: the time steps that only one row of a group reaches.
* `multiTurn_iff`: the multi-turn version on a batch, and the single-turn version without the observations.
-/

namespace Opd.Verl.OptimalTokenBaseline

open Lib

variable {K κ : Type} [Field K] [DecidableEq κ]

/-! ## Sums -/

/-- `cumsum`, from a value on. -/
def prefixSums (start : K) : List K → List K
  | [] => []
  | a :: l => (start + a) :: prefixSums (start + a) l

/-- `flip`, `cumsum` and `flip` again. -/
def suffixSums : List K → List K
  | [] => []
  | a :: l => (a + l.sum) :: suffixSums l

/-- `out[mask] = vals`, in a row of zeros. -/
def putMasked : List Bool → List K → List K
  | [], _ => []
  | false :: mask, vals => 0 :: putMasked mask vals
  | true :: mask, [] => 0 :: putMasked mask []
  | true :: mask, val :: vals => val :: putMasked mask vals

/-! ## The batch -/

structure Token (K : Type) where
  reward : K
  oldLogProb : K
  sumPiSquared : K
  rolloutIsWeight : K
  valid : Bool

/-- A batch of trajectories with one width, and the prompt of each. -/
structure Batch (K κ : Type) where
  trajectories : Grid (Token K)
  index : List κ
  index_length : index.length = trajectories.rows.length

/-- The other arguments, with the exponential function and the division of tensors. Without `rollout_is_weights` those
of the tokens are not read. -/
structure Args (K : Type) where
  exp : K → K
  div : K → K → K
  useRolloutIsWeights : Bool
  handleZeroTail : Bool
  epsilon : K

def maskOf (tok : Token K) : K := if tok.valid then 1 else 0

def responseMask (row : List (Token K)) : List Bool := row.map Token.valid

/-- `response_mask.sum(dim=-1)` -/
def responseLength (row : List (Token K)) : ℕ := row.countP Token.valid

/-- `w_per_timestep` -/
def wPerTimestep (a : Args K) (tok : Token K) : K :=
  let w := 1 - 2 • a.exp tok.oldLogProb + tok.sumPiSquared
  if a.useRolloutIsWeights then w * tok.rolloutIsWeight ^ 2 else w

/-- `returns`, of a row. -/
def returns (row : List (Token K)) : List K := suffixSums (row.map fun tok => tok.reward * maskOf tok)

/-- `w_cumulative`, of a row. -/
def wCumulative (a : Args K) (row : List (Token K)) : List K :=
  prefixSums 0 (row.map fun tok => wPerTimestep a tok * maskOf tok)

/-- The time steps that `handle_zero_tail` sets to zero in a row of length `n`: those of the longest row behind the
second longest. -/
def ZeroTail (lengths : List ℕ) (n t : ℕ) : Prop :=
  let sorted := lengths.insertionSort fun a b => a ≤ b
  let maxLength := sorted.getLastD 0
  let secondMaxLength := sorted.dropLast.getLastD 0
  lengths.count maxLength = 1 ∧ secondMaxLength < maxLength ∧ n = maxLength ∧ secondMaxLength ≤ t

instance (lengths : List ℕ) (n t : ℕ) : Decidable (ZeroTail lengths n t) := inferInstanceAs (Decidable (_ ∧ _ ∧ _ ∧ _))

/-! ## The single-turn version -/

/-- A baseline of `compute_optimal_token_baseline_advantage`, in a row of a group. -/
def baseline (a : Args K) (group : List (List (Token K))) (row : List (Token K)) (t : ℕ) : K :=
  if group.length = 1 then 0
  else
    let entry := fun (l : List K) => l.getD t 0
    let mask := fun r : List (Token K) => entry (r.map maskOf)
    let numerator := (group.map fun r => entry (returns r) * entry (wCumulative a r) * mask r).sum
    let denominator := (group.map fun r => entry (wCumulative a r) * mask r).sum + a.epsilon
    if a.handleZeroTail ∧ ZeroTail (group.map responseLength) (responseLength row) t then 0
    else a.div numerator denominator

/-- `compute_optimal_token_baseline_advantage`: the advantages and the returns. -/
def computeOptimalTokenBaselineAdvantage (a : Args K) (b : Batch K κ) : List (List K) × List (List K) :=
  let rows := b.trajectories.rows
  (List.zipWith (fun k row => (List.range b.trajectories.width).map fun t =>
      ((returns row).getD t 0 - baseline a (grouped b.index rows k) row t) * (row.map maskOf).getD t 0) b.index rows,
    rows.map returns)

/-! ## The multi-turn version -/

/-- `all_w_values` and `all_returns`: values of the valid tokens, and zeros. -/
def compressed (maxResponseLength : ℕ) (row : List (Token K)) (vals : List K) : List K :=
  maskSelect vals (responseMask row) ++ List.replicate (maxResponseLength - responseLength row) 0

/-- A baseline of `compute_multi_turn_optimal_token_baseline_advantage`. -/
def multiTurnBaseline (a : Args K) (maxResponseLength : ℕ) (group : List (List (Token K))) (row : List (Token K))
    (t : ℕ) : K :=
  if group.length = 1 then 0
  else
    let w := fun r => (compressed maxResponseLength r (wCumulative a r)).getD t 0
    let ret := fun r => (compressed maxResponseLength r (returns r)).getD t 0
    if a.handleZeroTail ∧ ZeroTail (group.map responseLength) (responseLength row) t then 0
    else a.div (group.map fun r => ret r * w r).sum ((group.map w).sum + a.epsilon)

/-- `compute_multi_turn_optimal_token_baseline_advantage`: the advantages and the returns. A row without valid tokens
is in no group. -/
def computeMultiTurnOptimalTokenBaselineAdvantage (a : Args K) (b : Batch K κ) : List (List K) × List (List K) :=
  let rows := b.trajectories.rows
  let maxResponseLength := (rows.map responseLength).foldr max 0
  (List.zipWith (fun k row =>
      let group := (grouped b.index rows k).filter fun r => responseLength r ≠ 0
      let allAdvantages := (List.range maxResponseLength).map fun t =>
        (compressed maxResponseLength row (returns row)).getD t 0 - multiTurnBaseline a maxResponseLength group row t
      if responseLength row = 0 then List.replicate b.trajectories.width 0
      else List.zipWith (· * ·) (putMasked (responseMask row) (allAdvantages.take (responseLength row)))
        (row.map maskOf)) b.index rows,
    rows.map returns)

/-! ## The batch without observations -/

def validTokens (row : List (Token K)) : List (Token K) := row.filter Token.valid

/-- A row without the tokens that are not valid, and padding on the right. -/
def compressRow (width : ℕ) (pad : Token K) (row : List (Token K)) : List (Token K) :=
  validTokens row ++ List.replicate (width - responseLength row) pad

omit [Field K] in
theorem length_validTokens (row : List (Token K)) : (validTokens row).length = responseLength row :=
  List.countP_eq_length_filter.symm

def Batch.compress (b : Batch K κ) (width : ℕ) (pad : Token K)
    (h : ∀ row ∈ b.trajectories.rows, responseLength row ≤ width) : Batch K κ where
  trajectories := {
    width := width
    rows := b.trajectories.rows.map (compressRow width pad)
    rect := by
      intro row' hrow'
      obtain ⟨row, hrow, rfl⟩ := List.mem_map.1 hrow'
      have hle := h row hrow
      rw [compressRow, List.length_append, length_validTokens, List.length_replicate]
      omega }
  index := b.index
  index_length := by rw [List.length_map, b.index_length]

def validReturn (tokens : List (Token K)) (t : ℕ) : K := (suffixSums (tokens.map Token.reward)).getD t 0

def validWeight (a : Args K) (tokens : List (Token K)) (t : ℕ) : K :=
  (prefixSums 0 (tokens.map (wPerTimestep a))).getD t 0

def sharedBaseline (a : Args K) (group : List (List (Token K))) (t : ℕ) : K :=
  a.div (group.map fun tokens => validReturn tokens t * validWeight a tokens t).sum
    ((group.map fun tokens => validWeight a tokens t).sum + a.epsilon)

def validBaseline (a : Args K) (group : List (List (Token K))) (tokens : List (Token K)) (t : ℕ) : K :=
  if group.length = 1 then 0
  else if a.handleZeroTail ∧ ZeroTail (group.map List.length) tokens.length t then 0
  else sharedBaseline a group t

/-! ## Sums over the valid tokens -/

section Sums

omit [DecidableEq κ]

theorem maskSelect_cons_true {α : Type} (x : α) (l : List α) (mask : List Bool) :
    maskSelect (x :: l) (true :: mask) = x :: maskSelect l mask := rfl

theorem maskSelect_cons_false {α : Type} (x : α) (l : List α) (mask : List Bool) :
    maskSelect (x :: l) (false :: mask) = maskSelect l mask := rfl

theorem maskOf_of_valid {tok : Token K} (h : tok.valid = true) : maskOf tok = 1 := if_pos h

theorem maskOf_of_not_valid {tok : Token K} (h : tok.valid = false) : maskOf tok = 0 :=
  if_neg (ne_true_of_eq_false h)

theorem sum_masked (f : Token K → K) (row : List (Token K)) :
    (row.map fun tok => f tok * maskOf tok).sum = ((validTokens row).map f).sum := by
  unfold validTokens
  induction row with
  | nil => rfl
  | cons tok row ih =>
    rw [List.map_cons, List.sum_cons, ih]
    by_cases hvalid : tok.valid = true
    · rw [maskOf_of_valid hvalid, mul_one, List.filter_cons_of_pos hvalid, List.map_cons, List.sum_cons]
    · rw [maskOf_of_not_valid (eq_false_of_ne_true hvalid), mul_zero, zero_add, List.filter_cons_of_neg hvalid]

/-- **Sums from the start** over the valid tokens. -/
theorem maskSelect_prefixSums (f : Token K → K) (row : List (Token K)) (start : K) :
    maskSelect (prefixSums start (row.map fun tok => f tok * maskOf tok)) (responseMask row) =
      prefixSums start ((validTokens row).map f) := by
  unfold validTokens responseMask
  induction row generalizing start with
  | nil => rfl
  | cons tok row ih =>
    rw [List.map_cons, List.map_cons, prefixSums]
    by_cases hvalid : tok.valid = true
    · rw [hvalid, maskSelect_cons_true, ih, List.filter_cons_of_pos hvalid, List.map_cons, prefixSums,
        maskOf_of_valid hvalid, mul_one]
    · have hfalse := eq_false_of_ne_true hvalid
      rw [hfalse, maskSelect_cons_false, ih, List.filter_cons_of_neg hvalid, maskOf_of_not_valid hfalse, mul_zero,
        add_zero]

/-- **Sums to the end** over the valid tokens. -/
theorem maskSelect_suffixSums (f : Token K → K) (row : List (Token K)) :
    maskSelect (suffixSums (row.map fun tok => f tok * maskOf tok)) (responseMask row) =
      suffixSums ((validTokens row).map f) := by
  induction row with
  | nil => rfl
  | cons tok row ih =>
    have hsum := sum_masked f row
    unfold responseMask validTokens at ih hsum ⊢
    rw [List.map_cons, List.map_cons, suffixSums, hsum]
    by_cases hvalid : tok.valid = true
    · rw [hvalid, maskSelect_cons_true, ih, List.filter_cons_of_pos hvalid, List.map_cons, suffixSums,
        maskOf_of_valid hvalid, mul_one]
    · rw [eq_false_of_ne_true hvalid, maskSelect_cons_false, ih, List.filter_cons_of_neg hvalid]

theorem length_prefixSums (start : K) (l : List K) : (prefixSums start l).length = l.length := by
  induction l generalizing start with
  | nil => rfl
  | cons x l ih => rw [prefixSums, List.length_cons, ih, List.length_cons]

theorem getD_prefixSums_append {l : List K} (l' : List K) {t : ℕ} (ht : t < l.length) (start : K) :
    (prefixSums start (l ++ l')).getD t 0 = (prefixSums start l).getD t 0 := by
  induction l generalizing start t with
  | nil => cases ht
  | cons x l ih =>
    rw [List.cons_append, prefixSums, prefixSums]
    cases t with
    | zero => rfl
    | succ t => exact ih (Nat.lt_of_succ_lt_succ ht) (start + x)

theorem getD_suffixSums_zeros {l : List K} {t : ℕ} (ht : t < l.length) (n : ℕ) :
    (suffixSums (l ++ List.replicate n 0)).getD t 0 = (suffixSums l).getD t 0 := by
  induction l generalizing t with
  | nil => cases ht
  | cons x l ih =>
    rw [List.cons_append, suffixSums, suffixSums, List.sum_append, List.sum_replicate, nsmul_zero, add_zero]
    cases t with
    | zero => rfl
    | succ t => exact ih (Nat.lt_of_succ_lt_succ ht)

theorem getD_append_zeros (l : List K) (n t : ℕ) : (l ++ List.replicate n 0).getD t 0 = l.getD t 0 := by
  simp only [List.getD_eq_getElem?_getD]
  by_cases ht : t < l.length
  · rw [List.getElem?_append_left ht]
  · rw [List.getElem?_append_right (by omega), List.getElem?_eq_none (by omega : l.length ≤ t), List.getElem?_replicate]
    split <;> rfl

theorem validWeight_of_length_le (a : Args K) {tokens : List (Token K)} {t : ℕ} (h : tokens.length ≤ t) :
    validWeight a tokens t = 0 := by
  unfold validWeight
  rw [List.getD_eq_getElem?_getD, List.getElem?_eq_none (by rw [length_prefixSums, List.length_map]; exact h)]
  rfl

theorem getD_compressed (a : Args K) (maxResponseLength : ℕ) (row : List (Token K)) (t : ℕ) :
    (compressed maxResponseLength row (returns row)).getD t 0 = validReturn (validTokens row) t ∧
      (compressed maxResponseLength row (wCumulative a row)).getD t 0 = validWeight a (validTokens row) t := by
  unfold compressed returns wCumulative
  rw [getD_append_zeros, getD_append_zeros, maskSelect_suffixSums, maskSelect_prefixSums]
  exact ⟨rfl, rfl⟩

end Sums

/-! ## Rows without observations -/

section Rows

variable {pad : Token K}

theorem maskOf_compressRow (hpad : pad.valid = false) (width : ℕ) (row : List (Token K)) (f : Token K → K) :
    (compressRow width pad row).map (fun tok => f tok * maskOf tok) =
      (validTokens row).map f ++ List.replicate (width - responseLength row) 0 := by
  unfold compressRow
  rw [List.map_append, List.map_replicate, maskOf_of_not_valid hpad, mul_zero]
  congr 1
  refine List.map_congr_left fun tok htok => ?_
  rw [maskOf_of_valid (List.mem_filter.1 htok).2, mul_one]

omit [Field K] in
theorem responseLength_compressRow (hpad : pad.valid = false) (width : ℕ) (row : List (Token K)) :
    responseLength (compressRow width pad row) = (validTokens row).length := by
  have hfront : (validTokens row).countP Token.valid = (validTokens row).length :=
    List.countP_eq_length.2 fun tok htok => (List.mem_filter.1 htok).2
  have hback : (List.replicate (width - responseLength row) pad).countP Token.valid = 0 := by
    refine List.countP_eq_zero.2 fun tok htok => ?_
    rw [(List.mem_replicate.1 htok).2, hpad]
    exact Bool.false_ne_true
  unfold compressRow
  rw [responseLength, List.countP_append, hfront, hback, Nat.add_zero]

theorem getD_mask_compressRow (hpad : pad.valid = false) (width : ℕ) (row : List (Token K)) (t : ℕ) :
    ((compressRow width pad row).map maskOf).getD t 0 = if t < (validTokens row).length then 1 else 0 := by
  have hmask := maskOf_compressRow hpad width row fun _ => 1
  simp only [one_mul] at hmask
  rw [hmask, getD_append_zeros, List.getD_eq_getElem?_getD, List.getElem?_map]
  by_cases ht : t < (validTokens row).length
  · rw [List.getElem?_eq_getElem ht, if_pos ht]
    rfl
  · rw [List.getElem?_eq_none (by omega), if_neg ht]
    rfl

/-- **The values of a row without observations** are those of its valid tokens. -/
theorem getD_compressRow (a : Args K) (hpad : pad.valid = false) (width : ℕ) (row : List (Token K)) {t : ℕ}
    (ht : t < (validTokens row).length) :
    (returns (compressRow width pad row)).getD t 0 = validReturn (validTokens row) t ∧
      (wCumulative a (compressRow width pad row)).getD t 0 = validWeight a (validTokens row) t := by
  unfold returns wCumulative
  rw [maskOf_compressRow hpad, maskOf_compressRow hpad, getD_suffixSums_zeros (by rwa [List.length_map]),
    getD_prefixSums_append _ (by rwa [List.length_map])]
  exact ⟨rfl, rfl⟩

/-- **A baseline of the single-turn version** without observations. -/
theorem baseline_compressRow (a : Args K) (hpad : pad.valid = false) (width : ℕ) (group : List (List (Token K)))
    (row : List (Token K)) (t : ℕ) :
    baseline a (group.map (compressRow width pad)) (compressRow width pad row) t =
      validBaseline a (group.map validTokens) (validTokens row) t := by
  have hlengths : (group.map (compressRow width pad)).map responseLength = (group.map validTokens).map List.length := by
    rw [List.map_map, List.map_map]
    exact List.map_congr_left fun r _ => responseLength_compressRow hpad width r
  have hweight : ∀ r ∈ group, (wCumulative a (compressRow width pad r)).getD t 0 *
      ((compressRow width pad r).map maskOf).getD t 0 = validWeight a (validTokens r) t := by
    intro r _
    rw [getD_mask_compressRow hpad]
    by_cases ht : t < (validTokens r).length
    · rw [if_pos ht, mul_one, (getD_compressRow a hpad width r ht).2]
    · rw [if_neg ht, mul_zero, validWeight_of_length_le a (by omega)]
  have hproduct : ∀ r ∈ group, (returns (compressRow width pad r)).getD t 0 *
      (wCumulative a (compressRow width pad r)).getD t 0 * ((compressRow width pad r).map maskOf).getD t 0 =
        validReturn (validTokens r) t * validWeight a (validTokens r) t := by
    intro r hr
    rw [mul_assoc, hweight r hr]
    by_cases ht : t < (validTokens r).length
    · rw [(getD_compressRow a hpad width r ht).1]
    · rw [validWeight_of_length_le a (by omega), mul_zero, mul_zero]
  unfold baseline validBaseline sharedBaseline
  simp only [hlengths, responseLength_compressRow hpad, List.length_map, List.map_map, Function.comp_def]
  rw [List.map_congr_left hweight, List.map_congr_left hproduct]

theorem multiTurnBaseline_eq (a : Args K) (maxResponseLength : ℕ) (group : List (List (Token K)))
    (row : List (Token K)) (t : ℕ) :
    multiTurnBaseline a maxResponseLength group row t =
      validBaseline a (group.map validTokens) (validTokens row) t := by
  have hlengths : group.map responseLength = (group.map validTokens).map List.length := by
    rw [List.map_map]
    exact List.map_congr_left fun r _ => (length_validTokens r).symm
  have hreturn := fun r => (getD_compressed a maxResponseLength r t).1
  have hweight := fun r => (getD_compressed a maxResponseLength r t).2
  unfold multiTurnBaseline validBaseline sharedBaseline
  simp only [hlengths, ← length_validTokens, List.length_map, List.map_map, Function.comp_def, hreturn, hweight]

end Rows

/-! ## The time steps of one row -/

section Tail

theorem sorted_eq {lengths : List ℕ} (h : 2 ≤ lengths.length) :
    ∃ shorter second longest, lengths.insertionSort (fun a b => a ≤ b) = shorter ++ [second, longest] := by
  have hlength := List.length_insertionSort (fun a b : ℕ => a ≤ b) lengths
  rcases List.eq_nil_or_concat (lengths.insertionSort fun a b => a ≤ b) with hnil | ⟨front, longest, hfront⟩
  · rw [hnil, List.length_nil] at hlength
    omega
  · rcases List.eq_nil_or_concat front with hnil | ⟨shorter, second, hshorter⟩
    · rw [hfront, hnil] at hlength
      simp only [List.concat_eq_append, List.nil_append, List.length_singleton] at hlength
      omega
    · refine ⟨shorter, second, longest, ?_⟩
      rw [hfront, hshorter]
      simp only [List.concat_eq_append, List.append_assoc, List.cons_append, List.nil_append]

/-- **The zero tail**: the time steps that only one row reaches. -/
theorem zeroTail_iff {lengths : List ℕ} (h : 2 ≤ lengths.length) {n t : ℕ} (hn : n ∈ lengths) (ht : t < n) :
    ZeroTail lengths n t ↔ lengths.countP (fun m => t < m) = 1 := by
  obtain ⟨shorter, second, longest, hsorted⟩ := sorted_eq h
  have hperm := List.perm_insertionSort (fun a b : ℕ => a ≤ b) lengths
  have hpairwise := List.pairwise_insertionSort (fun a b : ℕ => a ≤ b) lengths
  rw [hsorted] at hperm hpairwise
  rw [List.pairwise_append, List.pairwise_pair] at hpairwise
  obtain ⟨-, hlast, hbelow⟩ := hpairwise
  have hshorter : ∀ m ∈ shorter, m ≤ second := fun m hm => hbelow m hm second List.mem_cons_self
  have hmem : n ∈ shorter ++ [second, longest] := hperm.mem_iff.2 hn
  have htwo : ∀ p : ℕ → Bool, lengths.countP p =
      shorter.countP p + ((if p longest then 1 else 0) + if p second then 1 else 0) := by
    intro p
    rw [← hperm.countP_eq, List.countP_append, List.countP_cons, List.countP_cons, List.countP_nil, Nat.zero_add]
  have hcount : lengths.count longest =
      shorter.count longest + (1 + if second = longest then 1 else 0) := by
    rw [List.count_eq_countP, htwo, List.count_eq_countP]
    simp only [beq_self_eq_true, if_true, beq_iff_eq]
  have hlongest : (lengths.insertionSort fun a b => a ≤ b).getLastD 0 = longest := by
    rw [hsorted, show shorter ++ [second, longest] = (shorter ++ [second]) ++ [longest] by simp,
      List.getLastD_concat]
  have hsecond : (lengths.insertionSort fun a b => a ≤ b).dropLast.getLastD 0 = second := by
    rw [hsorted, show shorter ++ [second, longest] = (shorter ++ [second]) ++ [longest] by simp,
      List.dropLast_concat, List.getLastD_concat]
  unfold ZeroTail
  simp only [hlongest, hsecond]
  rw [htwo, hcount]
  constructor
  · rintro ⟨-, hlt, rfl, hle⟩
    -- nothing in front of the longest row reaches the time step
    have hnone : shorter.countP (fun m => t < m) = 0 := by
      refine List.countP_eq_zero.2 fun m hm => ?_
      have := hshorter m hm
      simp only [decide_eq_true_eq]
      omega
    rw [hnone, if_pos (decide_eq_true ht), if_neg (by simp only [decide_eq_true_eq]; omega)]
  · intro hone
    have hreach : t < longest := by
      rcases List.mem_append.1 hmem with hm | hm
      · exact ht.trans_le ((hshorter n hm).trans hlast)
      · simp only [List.mem_cons, List.not_mem_nil, or_false] at hm
        omega
    rw [if_pos (decide_eq_true hreach)] at hone
    have hshort : ¬t < second := by
      intro hlt
      rw [if_pos (decide_eq_true hlt)] at hone
      omega
    have hnone : shorter.count longest = 0 := by
      refine List.count_eq_zero.2 fun hm => ?_
      have := hshorter longest hm
      omega
    refine ⟨?_, by omega, ?_, by omega⟩
    · rw [hnone, if_neg (by omega)]
    · rcases List.mem_append.1 hmem with hm | hm
      · have := hshorter n hm
        omega
      · simp only [List.mem_cons, List.not_mem_nil, or_false] at hm
        omega

end Tail

/-! ## Both versions -/

section Versions

def nonempty (group : List (List (Token K))) : List (List (Token K)) := group.filter fun tokens => tokens.length ≠ 0

variable {group : List (List (Token K))}

omit [Field K] in
theorem mem_nonempty {tokens : List (Token K)} : tokens ∈ nonempty group ↔ tokens ∈ group ∧ tokens.length ≠ 0 := by
  unfold nonempty
  rw [List.mem_filter, decide_eq_true_eq]

theorem sum_nonempty (f : List (Token K) → K) (hf : ∀ tokens : List (Token K), tokens.length = 0 → f tokens = 0)
    (group : List (List (Token K))) : ((nonempty group).map f).sum = (group.map f).sum := by
  unfold nonempty
  induction group with
  | nil => rfl
  | cons tokens group ih =>
    rw [List.map_cons, List.sum_cons, ← ih]
    by_cases hempty : tokens.length = 0
    · rw [List.filter_cons_of_neg (by simpa using hempty), hf tokens hempty, zero_add]
    · rw [List.filter_cons_of_pos (by simpa using hempty), List.map_cons, List.sum_cons]

theorem sharedBaseline_nonempty (a : Args K) (group : List (List (Token K))) (t : ℕ) :
    sharedBaseline a (nonempty group) t = sharedBaseline a group t := by
  have hweight : ∀ tokens : List (Token K), tokens.length = 0 → validWeight a tokens t = 0 :=
    fun tokens h => validWeight_of_length_le a (by omega)
  unfold sharedBaseline
  rw [sum_nonempty _ hweight, sum_nonempty _ fun tokens h => by rw [hweight tokens h, mul_zero]]

omit [Field K] in
theorem countP_nonempty (group : List (List (Token K))) (t : ℕ) :
    ((nonempty group).map List.length).countP (fun m => t < m) = (group.map List.length).countP fun m => t < m := by
  unfold nonempty
  rw [List.countP_map, List.countP_map, List.countP_filter]
  refine List.countP_congr fun tokens _ => ?_
  simp only [Function.comp_apply, Bool.and_eq_true, decide_eq_true_eq]
  omega

theorem validBaseline_of_length_ne (a : Args K) {tokens : List (Token K)} {t : ℕ} (hmem : tokens ∈ group)
    (ht : t < tokens.length) (h : group.length ≠ 1) :
    validBaseline a group tokens t =
      if a.handleZeroTail ∧ (group.map List.length).countP (fun m => t < m) = 1 then 0 else sharedBaseline a group t := by
  have hpos := List.length_pos_of_mem hmem
  have hzero := zeroTail_iff (by rw [List.length_map]; omega) (List.mem_map_of_mem hmem) ht
  unfold validBaseline
  rw [if_neg h]
  exact if_congr (and_congr_right fun _ => hzero) rfl rfl

/-- The only row of a group with valid tokens, and not the only row. -/
def Lonely (group : List (List (Token K))) : Prop := group.length ≠ 1 ∧ (nonempty group).length = 1

/-- The return or the weight of a time step is zero, and the denominator is not. -/
def ZeroTerm (a : Args K) (tokens : List (Token K)) (t : ℕ) : Prop :=
  (validReturn tokens t = 0 ∨ validWeight a tokens t = 0) ∧ validWeight a tokens t + a.epsilon ≠ 0

theorem sharedBaseline_singleton {a : Args K} (hdiv : ∀ x y, a.div x y = 0 ↔ x = 0 ∧ y ≠ 0)
    (tokens : List (Token K)) (t : ℕ) : sharedBaseline a [tokens] t = 0 ↔ ZeroTerm a tokens t := by
  unfold sharedBaseline ZeroTerm
  rw [hdiv, List.map_singleton, List.map_singleton, List.sum_singleton, List.sum_singleton, mul_eq_zero]

/-- **The baselines with and without rows that have no valid tokens**. -/
theorem validBaseline_nonempty {a : Args K} (hdiv : ∀ x y, a.div x y = 0 ↔ x = 0 ∧ y ≠ 0) {tokens : List (Token K)}
    {t : ℕ} (hmem : tokens ∈ group) (ht : t < tokens.length) :
    validBaseline a group tokens t = validBaseline a (nonempty group) tokens t ↔
      a.handleZeroTail = true ∨ (Lonely group → ZeroTerm a tokens t) := by
  have hmem' : tokens ∈ nonempty group := mem_nonempty.2 ⟨hmem, by omega⟩
  have hpos := List.length_pos_of_mem hmem'
  have hle : (nonempty group).length ≤ group.length := List.length_filter_le _ _
  by_cases hone : group.length = 1
  · have hlonely : ¬Lonely group := fun h => h.1 hone
    unfold validBaseline
    rw [if_pos hone, if_pos (by omega)]
    exact ⟨fun _ => Or.inr fun h => absurd h hlonely, fun _ => rfl⟩
  · rw [validBaseline_of_length_ne a hmem ht hone, ← countP_nonempty, ← sharedBaseline_nonempty]
    by_cases halone : (nonempty group).length = 1
    · obtain ⟨only, honly⟩ := List.length_eq_one_iff.1 halone
      have hsingle : tokens = only := by rwa [honly, List.mem_singleton] at hmem'
      have htail : ((nonempty group).map List.length).countP (fun m => t < m) = 1 := by
        rw [honly, ← hsingle, List.map_singleton, List.countP_singleton, if_pos (decide_eq_true ht)]
      rw [htail, honly, ← hsingle]
      unfold validBaseline
      rw [if_pos List.length_singleton]
      by_cases hzero : a.handleZeroTail = true
      · rw [if_pos ⟨hzero, rfl⟩]
        exact ⟨fun _ => Or.inl hzero, fun _ => rfl⟩
      · rw [if_neg fun h => hzero h.1, sharedBaseline_singleton hdiv]
        refine ⟨fun h => Or.inr fun _ => h, fun h => ?_⟩
        rcases h with h | h
        · exact absurd h hzero
        · exact h ⟨hone, halone⟩
    · rw [validBaseline_of_length_ne a hmem' ht halone]
      exact ⟨fun _ => Or.inr fun h => absurd h.2 halone, fun _ => rfl⟩

end Versions

/-! ## The advantages -/

section Advantages

/-- Values at the positions of a mask: their number, and those behind do not count. -/
theorem putMasked_congr_iff {mask : List Bool} {vals vals' : List K} :
    putMasked mask vals = putMasked mask vals' ↔ ∀ t < mask.count true, vals.getD t 0 = vals'.getD t 0 := by
  induction mask generalizing vals vals' with
  | nil => exact ⟨fun _ t ht => absurd ht (Nat.not_lt_zero t), fun _ => rfl⟩
  | cons m mask ih =>
    cases m with
    | false =>
      rw [putMasked, putMasked, List.count_cons_of_ne Bool.false_ne_true, List.cons_inj_right]
      exact ih
    | true =>
      have hput : ∀ l : List K, putMasked (true :: mask) l = l.getD 0 0 :: putMasked mask l.tail := by
        intro l
        rcases l with - | ⟨x, l⟩
        · rfl
        · rfl
      have htail : ∀ (l : List K) (t : ℕ), l.tail.getD t 0 = l.getD (t + 1) 0 := by
        intro l t
        rcases l with - | ⟨x, l⟩
        · rfl
        · rfl
      rw [hput, hput, List.cons.injEq, ih, List.count_cons_self]
      simp only [htail]
      constructor
      · rintro ⟨hfirst, hrest⟩ t ht
        rcases t with - | t
        · exact hfirst
        · exact hrest t (Nat.lt_of_succ_lt_succ ht)
      · intro h
        exact ⟨h 0 (Nat.succ_pos _), fun t ht => h (t + 1) (Nat.succ_lt_succ ht)⟩

theorem putMasked_mul_mask (row : List (Token K)) (vals : List K) :
    List.zipWith (· * ·) (putMasked (responseMask row) vals) (row.map maskOf) = putMasked (responseMask row) vals := by
  unfold responseMask
  induction row generalizing vals with
  | nil => rfl
  | cons tok row ih =>
    rw [List.map_cons, List.map_cons]
    by_cases hvalid : tok.valid = true
    · rw [hvalid, maskOf_of_valid hvalid]
      rcases vals with - | ⟨x, vals⟩
      · rw [putMasked, List.zipWith_cons_cons, ih, mul_one]
      · rw [putMasked, List.zipWith_cons_cons, ih, mul_one]
    · have hfalse := eq_false_of_ne_true hvalid
      rw [hfalse, putMasked, List.zipWith_cons_cons, ih, zero_mul]

theorem putMasked_of_count_zero {mask : List Bool} (h : mask.count true = 0) (vals : List K) :
    putMasked mask vals = List.replicate mask.length 0 := by
  induction mask with
  | nil => rfl
  | cons m mask ih =>
    cases m with
    | false =>
      rw [List.count_cons_of_ne Bool.false_ne_true] at h
      rw [putMasked, ih h, List.length_cons, List.replicate_succ]
    | true =>
      rw [List.count_cons_self] at h
      cases h

omit [Field K] in
theorem count_responseMask (row : List (Token K)) : (responseMask row).count true = responseLength row := by
  unfold responseMask responseLength
  rw [List.count_eq_countP, List.countP_map]
  refine List.countP_congr fun tok _ => ?_
  rw [Function.comp_apply, beq_true]

/-- The advantages of a row with a mask and valid tokens, in a group. -/
def advantagesOf (a : Args K) (group : List (List (Token K))) (mask : List Bool) (tokens : List (Token K)) : List K :=
  putMasked mask ((List.range tokens.length).map fun t => validReturn tokens t - validBaseline a group tokens t)

theorem getD_map_range (f : ℕ → K) {n t : ℕ} (ht : t < n) : ((List.range n).map f).getD t 0 = f t := by
  rw [List.getD_eq_getElem?_getD, List.getElem?_map, List.getElem?_range ht]
  rfl

theorem advantagesOf_congr_iff (a : Args K) (group group' : List (List (Token K))) (row : List (Token K)) :
    advantagesOf a group (responseMask row) (validTokens row) =
        advantagesOf a group' (responseMask row) (validTokens row) ↔
      ∀ t < responseLength row, validBaseline a group (validTokens row) t = validBaseline a group' (validTokens row) t := by
  unfold advantagesOf
  rw [putMasked_congr_iff, count_responseMask, length_validTokens]
  refine forall₂_congr fun t ht => ?_
  rw [getD_map_range _ ht, getD_map_range _ ht, sub_right_inj]

/-- **The single-turn version** without observations. -/
theorem computeOptimalTokenBaselineAdvantage_compress (a : Args K) (b : Batch K κ) {width : ℕ} {pad : Token K}
    (hpad : pad.valid = false) (h : ∀ row ∈ b.trajectories.rows, responseLength row ≤ width) :
    List.zipWith putMasked (b.trajectories.rows.map responseMask)
        (computeOptimalTokenBaselineAdvantage a (b.compress width pad h)).1 =
      List.zipWith (fun k row => advantagesOf a ((grouped b.index b.trajectories.rows k).map validTokens)
        (responseMask row) (validTokens row)) b.index b.trajectories.rows := by
  unfold computeOptimalTokenBaselineAdvantage Batch.compress
  simp only [List.zipWith_map_right]
  rw [zipWith_map_zipWith, zipWith_congr_iff]
  intro p hp
  have hle := h p.2 (List.of_mem_zip hp).2
  unfold advantagesOf
  rw [putMasked_congr_iff, count_responseMask]
  intro t ht
  have ht' : t < (validTokens p.2).length := by rwa [length_validTokens]
  rw [getD_map_range _ (ht.trans_le hle), getD_map_range _ ht', grouped_map, baseline_compressRow a hpad,
    (getD_compressRow a hpad width p.2 ht').1, getD_mask_compressRow hpad, if_pos ht', mul_one]

omit [Field K] in
theorem responseLength_le_max {rows : List (List (Token K))} {row : List (Token K)} (h : row ∈ rows) :
    responseLength row ≤ (rows.map responseLength).foldr max 0 :=
  List.le_max_of_le' 0 (List.mem_map_of_mem h) (le_refl _)

theorem computeMultiTurnOptimalTokenBaselineAdvantage_eq (a : Args K) (b : Batch K κ) :
    (computeMultiTurnOptimalTokenBaselineAdvantage a b).1 =
      List.zipWith (fun k row => advantagesOf a (nonempty ((grouped b.index b.trajectories.rows k).map validTokens))
        (responseMask row) (validTokens row)) b.index b.trajectories.rows := by
  unfold computeMultiTurnOptimalTokenBaselineAdvantage
  rw [zipWith_congr_iff]
  intro p hp
  have hrow := (List.of_mem_zip hp).2
  have hgroup : ((grouped b.index b.trajectories.rows p.1).filter fun r => responseLength r ≠ 0).map validTokens =
      nonempty ((grouped b.index b.trajectories.rows p.1).map validTokens) := by
    unfold nonempty
    rw [List.filter_map]
    congr 1
    refine List.filter_congr fun r _ => ?_
    rw [Function.comp_apply, length_validTokens]
  by_cases hempty : responseLength p.2 = 0
  · have hcount : (responseMask p.2).count true = 0 := by rw [count_responseMask, hempty]
    rw [if_pos hempty, advantagesOf, putMasked_of_count_zero hcount, responseMask, List.length_map,
      b.trajectories.rect p.2 hrow]
  · rw [if_neg hempty, putMasked_mul_mask, advantagesOf, putMasked_congr_iff, count_responseMask]
    intro t ht
    have hle := responseLength_le_max hrow
    have ht' : t < (validTokens p.2).length := by rwa [length_validTokens]
    rw [List.getD_eq_getElem?_getD, List.getElem?_take_of_lt ht, ← List.getD_eq_getElem?_getD,
      getD_map_range _ (ht.trans_le hle), getD_map_range _ ht', multiTurnBaseline_eq, hgroup,
      (getD_compressed a _ p.2 t).1]

/-- **The multi-turn version and the single-turn one without observations** have the same advantages if
`handle_zero_tail` is set, or no row is the only one of its group with valid tokens but not the only one, except where
its return or weight is zero. The multi-turn advantages depend on the masks and the valid tokens only. -/
theorem multiTurn_iff {a : Args K} (hdiv : ∀ x y, a.div x y = 0 ↔ x = 0 ∧ y ≠ 0) (b : Batch K κ) {width : ℕ}
    {pad : Token K} (hpad : pad.valid = false) (h : ∀ row ∈ b.trajectories.rows, responseLength row ≤ width) :
    (List.zipWith putMasked (b.trajectories.rows.map responseMask)
          (computeOptimalTokenBaselineAdvantage a (b.compress width pad h)).1 =
        (computeMultiTurnOptimalTokenBaselineAdvantage a b).1 ↔
      a.handleZeroTail = true ∨ ∀ p ∈ b.index.zip b.trajectories.rows, ∀ t < responseLength p.2,
        Lonely ((grouped b.index b.trajectories.rows p.1).map validTokens) → ZeroTerm a (validTokens p.2) t) ∧
    ∀ b' : Batch K κ, b'.index = b.index →
      b'.trajectories.rows.map (fun row => (responseMask row, validTokens row)) =
        b.trajectories.rows.map (fun row => (responseMask row, validTokens row)) →
      (computeMultiTurnOptimalTokenBaselineAdvantage a b').1 = (computeMultiTurnOptimalTokenBaselineAdvantage a b).1 := by
  constructor
  · rw [computeOptimalTokenBaselineAdvantage_compress a b hpad h, computeMultiTurnOptimalTokenBaselineAdvantage_eq,
      zipWith_congr_iff]
    have hstep : ∀ p ∈ b.index.zip b.trajectories.rows, ∀ t < responseLength p.2,
        (validBaseline a ((grouped b.index b.trajectories.rows p.1).map validTokens) (validTokens p.2) t =
            validBaseline a (nonempty ((grouped b.index b.trajectories.rows p.1).map validTokens)) (validTokens p.2) t ↔
          a.handleZeroTail = true ∨
            (Lonely ((grouped b.index b.trajectories.rows p.1).map validTokens) → ZeroTerm a (validTokens p.2) t)) := by
      intro p hp t ht
      have hmem : validTokens p.2 ∈ (grouped b.index b.trajectories.rows p.1).map validTokens :=
        List.mem_map_of_mem (mem_grouped.2 hp)
      exact validBaseline_nonempty hdiv hmem (by rwa [length_validTokens])
    simp only [advantagesOf_congr_iff]
    constructor
    · intro heq
      by_cases hzero : a.handleZeroTail = true
      · exact Or.inl hzero
      · refine Or.inr fun p hp t ht => ?_
        rcases (hstep p hp t ht).1 (heq p hp t ht) with h' | h'
        · exact absurd h' hzero
        · exact h'
    · intro hcond p hp t ht
      refine (hstep p hp t ht).2 ?_
      rcases hcond with hzero | hrows
      · exact Or.inl hzero
      · exact Or.inr (hrows p hp t ht)
  · intro b' hindex hrows
    have hpairs : ∀ b : Batch K κ, (computeMultiTurnOptimalTokenBaselineAdvantage a b).1 =
        List.zipWith (fun k q => advantagesOf a (nonempty (grouped b.index
            ((b.trajectories.rows.map fun row => (responseMask row, validTokens row)).map Prod.snd) k)) q.1 q.2)
          b.index (b.trajectories.rows.map fun row => (responseMask row, validTokens row)) := by
      intro b
      rw [computeMultiTurnOptimalTokenBaselineAdvantage_eq, List.zipWith_map_right, List.map_map]
      simp only [← grouped_map]
      rfl
    rw [hpairs, hpairs, hindex, hrows]

/-- Two rows of a prompt, the second one without valid tokens, and a row with an observation. -/
def batchWithEmptyRow : Batch ℚ ℕ where
  trajectories := {
    width := 3
    rows := [[⟨1, -1000, 1, 1, true⟩, ⟨0, 0, 1, 1, false⟩, ⟨1, 0, 1, 1, true⟩],
      [⟨0, 0, 1, 1, false⟩, ⟨0, 0, 1, 1, false⟩, ⟨0, 0, 1, 1, false⟩],
      [⟨1, -1000, 1, 1, true⟩, ⟨0, 0, 1, 1, false⟩, ⟨0, 0, 1, 1, false⟩]]
    rect := fun row hrow => by
      simp only [List.mem_cons, List.not_mem_nil, or_false] at hrow
      rcases hrow with rfl | rfl | rfl <;> rfl }
  index := [7, 7, 8]
  index_length := rfl

def argsWithZeroTail (handleZeroTail : Bool) : Args ℚ where
  exp := fun x => if x < -200 then 0 else 1 + x
  div := fun x y => if y = 0 then 1 else x / y
  useRolloutIsWeights := false
  handleZeroTail := handleZeroTail
  epsilon := 1 / 100000000

def padToken : Token ℚ := ⟨0, 0, 0, 0, false⟩

theorem responseLength_batchWithEmptyRow : ∀ row ∈ batchWithEmptyRow.trajectories.rows, responseLength row ≤ 3 := by
  decide +kernel

theorem multiTurn_zeroTail :
    List.zipWith putMasked (batchWithEmptyRow.trajectories.rows.map responseMask)
        (computeOptimalTokenBaselineAdvantage (argsWithZeroTail true)
          (batchWithEmptyRow.compress 3 padToken responseLength_batchWithEmptyRow)).1 =
      (computeMultiTurnOptimalTokenBaselineAdvantage (argsWithZeroTail true) batchWithEmptyRow).1 := by
  have hdiv : ∀ x y, (argsWithZeroTail true).div x y = 0 ↔ x = 0 ∧ y ≠ 0 := by
    intro x y
    change (if y = 0 then (1 : ℚ) else x / y) = 0 ↔ x = 0 ∧ y ≠ 0
    by_cases hy : y = 0
    · rw [if_pos hy]
      exact ⟨fun h => absurd h one_ne_zero, fun h => absurd hy h.2⟩
    · rw [if_neg hy, div_eq_zero_iff]
      exact ⟨fun h => ⟨h.resolve_right hy, hy⟩, fun h => Or.inl h.1⟩
  exact (multiTurn_iff hdiv batchWithEmptyRow rfl responseLength_batchWithEmptyRow).1.2 (Or.inl rfl)

theorem singleTurn_countsEmptyRow :
    List.zipWith putMasked (batchWithEmptyRow.trajectories.rows.map responseMask)
        (computeOptimalTokenBaselineAdvantage (argsWithZeroTail false)
          (batchWithEmptyRow.compress 3 padToken responseLength_batchWithEmptyRow)).1 ≠
      (computeMultiTurnOptimalTokenBaselineAdvantage (argsWithZeroTail false) batchWithEmptyRow).1 := by
  decide +kernel

end Advantages

end Opd.Verl.OptimalTokenBaseline

import Mathlib.Algebra.Field.Basic
import Mathlib.Algebra.BigOperators.Group.List.Lemmas
import Mathlib.Algebra.BigOperators.Ring.List
import Mathlib.Algebra.Order.Ring.Rat
import Mathlib.Tactic.Ring
import Mathlib.Tactic.FieldSimp
import Mathlib.Tactic.NormNum
import Mathlib.Tactic.FinCases

/-!
# Loss aggregation over micro-batches and data-parallel ranks

`agg_loss` turns the loss matrix of one micro-batch into a scalar. The engine runs
it on every micro-batch of every rank and calls `backward` on each result, so the
gradient of a step is that of the average over ranks of the sum over micro-batches
(`gradAccum`).

* `aggLoss_eq`: with the global numbers given, `agg_loss` is a sum over rows
  (`rowTerm`) divided by a norm.
* `rowTerm_padTo`: a row's term does not depend on the width it is padded to.
* `gradAccum_eq`: gradient accumulation gives the loss of the whole batch, unless
  the mode divides by the padded width of the micro-batch itself.
-/

namespace Opd.Verl

/-- The modes `agg_loss` accepts. -/
inductive LossAggMode
  | tokenMean
  | seqMeanTokenSum
  | seqMeanTokenSumNorm
  | seqMeanTokenMean
  deriving DecidableEq, Repr

/-- The mode a config string names; any other string is the `ValueError` of the
last branch of `agg_loss`. -/
def LossAggMode.parse : String → Except String LossAggMode
  | "token-mean" => .ok .tokenMean
  | "seq-mean-token-sum" => .ok .seqMeanTokenSum
  | "seq-mean-token-sum-norm" => .ok .seqMeanTokenSumNorm
  | "seq-mean-token-mean" => .ok .seqMeanTokenMean
  | s => .error ("Invalid loss_agg_mode: " ++ s)

variable {K : Type*} [Field K]

def mask01 (b : Bool) : K := if b then 1 else 0

/-- `masked_sum`: values outside the mask are replaced by zero first. -/
def maskedSum (l : List (K × Bool)) : K :=
  (l.map fun p => (if p.2 then p.1 else 0) * mask01 p.2).sum

/-- `torch.sum(loss_mat * loss_mask, dim=-1)` of one row. -/
def tokenSum (r : List (K × Bool)) : K := (r.map fun p => p.1 * mask01 p.2).sum

/-- `torch.sum(loss_mask, dim=-1)` of one row. -/
def tokenCount (r : List (K × Bool)) : ℕ := r.countP (·.2)

/-- A loss matrix `(bs, response_length)` together with its mask. -/
structure LossMat (K : Type*) where
  width : ℕ
  rows : List (List (K × Bool))
  row_length : ∀ r ∈ rows, r.length = width

/-- The sequence mean of `agg_loss`: per-sequence losses with the mask of the
sequences that are not fully masked. -/
def seqMean (seqLosses : List (K × Bool)) (dpSize : ℕ) (globalBatchSize : Option ℕ) :
    Except String K :=
  match globalBatchSize with
  | some b => .ok (maskedSum seqLosses / b * dpSize)
  | none =>
    if 1 < dpSize then .error "global_batch_size is required when dp_size > 1"
    else .ok (maskedSum seqLosses / (seqLosses.countP (·.2) : ℕ) * dpSize)

/-- `agg_loss`. -/
def aggLoss (m : LossMat K) (mode : LossAggMode) (dpSize : ℕ)
    (batchNumTokens globalBatchSize lossScaleFactor : Option ℕ) : Except String K :=
  match mode with
  | .tokenMean =>
    match batchNumTokens with
    | some n => .ok (maskedSum m.rows.flatten / n * dpSize)
    | none =>
      if 1 < dpSize then .error "(global) batch_num_tokens is required when dp_size > 1"
      else .ok (maskedSum m.rows.flatten / (tokenCount m.rows.flatten : ℕ) * dpSize)
  | .seqMeanTokenSum =>
    seqMean (m.rows.map fun r => (tokenSum r, decide (0 < tokenCount r))) dpSize globalBatchSize
  | .seqMeanTokenSumNorm => do
    let loss ← seqMean (m.rows.map fun r => (tokenSum r, decide (0 < tokenCount r))) dpSize
      globalBatchSize
    -- without a scale factor the horizon is the width of this very matrix
    return loss / (lossScaleFactor.getD m.width : ℕ)
  | .seqMeanTokenMean =>
    seqMean (m.rows.map fun r =>
      (tokenSum r / (tokenCount r + (10 ^ 8)⁻¹), decide (0 < tokenCount r))) dpSize globalBatchSize

/-! ## Micro-batches -/

/-- The response part of one row before padding: a loss and a mask bit per token. -/
abbrev Resp (K : Type*) := List (K × Bool)

/-- A response padded on the right to width `w`. The padding is masked; `z` is
whatever the policy loss computes from padded inputs. -/
def padTo (z : K) (w : ℕ) (r : Resp K) : List (K × Bool) := r ++ List.replicate (w - r.length) (z, false)

/-- The width a micro-batch is padded to: its own longest response. -/
def maxLen (mb : List (Resp K)) : ℕ := (mb.map List.length).foldr max 0

omit [Field K] in
theorem length_le_maxLen {mb : List (Resp K)} {r : Resp K} (h : r ∈ mb) : r.length ≤ maxLen mb := by
  unfold maxLen
  induction mb with
  | nil => simp at h
  | cons a mb ih =>
    simp only [List.map_cons, List.foldr_cons]
    rcases List.mem_cons.1 h with rfl | h
    · exact le_max_left _ _
    · exact le_trans (ih h) (le_max_right _ _)

/-- `to_padded_tensor` on the rows of one micro-batch. -/
def toPadded (z : K) (mb : List (Resp K)) : LossMat K where
  width := maxLen mb
  rows := mb.map (padTo z (maxLen mb))
  row_length := by
    intro r hr
    obtain ⟨r₀, h₀, rfl⟩ := List.mem_map.1 hr
    have := length_le_maxLen h₀
    simp only [padTo, List.length_append, List.length_replicate]
    omega

/-- `batch_num_tokens`: valid tokens of the global batch, all-reduced over ranks. -/
def batchNumTokens (batch : List (Resp K)) : ℕ := (batch.map tokenCount).sum

/-- What one optimizer step accumulates: every rank sums `agg_loss` over its
micro-batches, and the ranks are averaged. -/
def gradAccum (z : K) (mode : LossAggMode) (nTokens globalBatchSize : ℕ) (lossScaleFactor : Option ℕ)
    (ranks : List (List (List (Resp K)))) : Except String K := do
  let perRank ← ranks.mapM fun mbs => do
    let losses ← mbs.mapM fun mb =>
      aggLoss (toPadded z mb) mode ranks.length (some nTokens) (some globalBatchSize) lossScaleFactor
    return losses.sum
  return perRank.sum / (ranks.length : ℕ)

/-- `agg_loss` of the whole batch on one rank, with the same global numbers. -/
def wholeLoss (z : K) (mode : LossAggMode) (nTokens globalBatchSize : ℕ) (lossScaleFactor : Option ℕ)
    (batch : List (Resp K)) : Except String K :=
  aggLoss (toPadded z batch) mode 1 (some nTokens) (some globalBatchSize) lossScaleFactor

/-! ## `agg_loss` as a sum over rows -/

theorem maskedSum_cons (p : K × Bool) (l : List (K × Bool)) :
    maskedSum (p :: l) = (if p.2 then p.1 else 0) + maskedSum l := by
  unfold maskedSum
  rw [List.map_cons, List.sum_cons]
  congr 1
  cases p.2 <;> simp [mask01]

theorem maskedSum_append (l l' : List (K × Bool)) : maskedSum (l ++ l') = maskedSum l + maskedSum l' := by
  simp [maskedSum]

theorem maskedSum_flatten (rs : List (List (K × Bool))) :
    maskedSum rs.flatten = (rs.map maskedSum).sum := by
  induction rs with
  | nil => rfl
  | cons r rs ih => rw [List.flatten_cons, maskedSum_append, ih, List.map_cons, List.sum_cons]

/-- The contribution of one row, before the division by the global number. -/
def rowTerm (mode : LossAggMode) (r : List (K × Bool)) : K :=
  match mode with
  | .tokenMean => maskedSum r
  | .seqMeanTokenSum | .seqMeanTokenSumNorm => if 0 < tokenCount r then tokenSum r else 0
  | .seqMeanTokenMean =>
    if 0 < tokenCount r then tokenSum r / (tokenCount r + (10 ^ 8)⁻¹) else 0

def normOf (mode : LossAggMode) (nTokens globalBatchSize : ℕ) : ℕ :=
  match mode with
  | .tokenMean => nTokens
  | _ => globalBatchSize

/-- The extra divisor of `seq-mean-token-sum-norm`. -/
def scaleOf (mode : LossAggMode) (lossScaleFactor : Option ℕ) (width : ℕ) : ℕ :=
  match mode with
  | .seqMeanTokenSumNorm => lossScaleFactor.getD width
  | _ => 1

theorem maskedSum_map_seq (rows : List (List (K × Bool))) (f : List (K × Bool) → K) :
    maskedSum (rows.map fun r => (f r, decide (0 < tokenCount r))) =
      (rows.map fun r => if 0 < tokenCount r then f r else 0).sum := by
  induction rows with
  | nil => rfl
  | cons r rows ih =>
    rw [List.map_cons, maskedSum_cons, ih, List.map_cons, List.sum_cons]
    simp

/-- **`agg_loss` with the global numbers given**: a sum over rows over a norm. -/
theorem aggLoss_eq (m : LossMat K) (mode : LossAggMode) (dp nT gB : ℕ) (sf : Option ℕ) :
    aggLoss m mode dp (some nT) (some gB) sf =
      .ok ((m.rows.map (rowTerm mode)).sum / (normOf mode nT gB : ℕ) * dp /
        (scaleOf mode sf m.width : ℕ)) := by
  cases mode with
  | tokenMean =>
    simp only [aggLoss, maskedSum_flatten, normOf, scaleOf, Nat.cast_one, div_one]
    rfl
  | seqMeanTokenSum =>
    simp only [aggLoss, seqMean, maskedSum_map_seq, normOf, scaleOf, Nat.cast_one, div_one]
    rfl
  | seqMeanTokenSumNorm =>
    simp only [aggLoss, seqMean, maskedSum_map_seq, normOf, scaleOf]
    rfl
  | seqMeanTokenMean =>
    simp only [aggLoss, seqMean, maskedSum_map_seq, normOf, scaleOf, Nat.cast_one, div_one]
    rfl

/-! ## Padding is masked -/

omit [Field K] in
theorem tokenCount_padTo (z : K) (w : ℕ) (r : Resp K) : tokenCount (padTo z w r) = tokenCount r := by
  simp [tokenCount, padTo, List.countP_append, List.countP_replicate]

theorem tokenSum_padTo (z : K) (w : ℕ) (r : Resp K) : tokenSum (padTo z w r) = tokenSum r := by
  simp [tokenSum, padTo, mask01]

theorem maskedSum_padTo (z : K) (w : ℕ) (r : Resp K) : maskedSum (padTo z w r) = maskedSum r := by
  simp [maskedSum, padTo, mask01]

/-- **A row's term does not see the padding.** -/
theorem rowTerm_padTo (mode : LossAggMode) (z : K) (w : ℕ) (r : Resp K) :
    rowTerm mode (padTo z w r) = rowTerm mode r := by
  cases mode <;> simp only [rowTerm, tokenCount_padTo, tokenSum_padTo, maskedSum_padTo]

def microLoss (mode : LossAggMode) (dp nT gB : ℕ) (sf : Option ℕ) (mb : List (Resp K)) : K :=
  (mb.map (rowTerm mode)).sum / (normOf mode nT gB : ℕ) * dp / (scaleOf mode sf (maxLen mb) : ℕ)

theorem aggLoss_toPadded (z : K) (mb : List (Resp K)) (mode : LossAggMode) (dp nT gB : ℕ) (sf : Option ℕ) :
    aggLoss (toPadded z mb) mode dp (some nT) (some gB) sf = .ok (microLoss mode dp nT gB sf mb) := by
  have hrows : (toPadded z mb).rows.map (rowTerm mode) = mb.map (rowTerm mode) := by
    simp only [toPadded, List.map_map]
    exact List.map_congr_left fun r _ => rowTerm_padTo mode z _ r
  rw [aggLoss_eq, hrows]
  rfl

/-! ## Gradient accumulation -/

theorem mapM_ok {α β : Type*} (f : α → β) (l : List α) :
    (l.mapM fun x => (Except.ok (f x) : Except String β)) = .ok (l.map f) :=
  List.mapM_pure

theorem gradAccum_ok (z : K) (mode : LossAggMode) (nT gB : ℕ) (sf : Option ℕ)
    (ranks : List (List (List (Resp K)))) :
    gradAccum z mode nT gB sf ranks = .ok
      ((ranks.map fun mbs => (mbs.map (microLoss mode ranks.length nT gB sf)).sum).sum /
        (ranks.length : ℕ)) := by
  have hrank : ∀ mbs : List (List (Resp K)), (do
      let losses ← mbs.mapM fun mb =>
        aggLoss (toPadded z mb) mode ranks.length (some nT) (some gB) sf
      return losses.sum) =
      (Except.ok (mbs.map (microLoss mode ranks.length nT gB sf)).sum : Except String K) := by
    intro mbs
    simp only [aggLoss_toPadded, mapM_ok]
    rfl
  unfold gradAccum
  simp only [hrank, mapM_ok]
  rfl

theorem sum_map_flatten {α : Type*} (f : α → K) (l : List (List α)) :
    (l.flatten.map f).sum = (l.map fun m => (m.map f).sum).sum := by
  induction l with
  | nil => rfl
  | cons m l ih => rw [List.flatten_cons, List.map_append, List.sum_append, ih, List.map_cons,
      List.sum_cons]

/-- **Gradient accumulation is invariant.** The rows of the batch may be given to
ranks and micro-batches in any way. The one exception is the mode that divides by
the padded width when no `loss_scale_factor` is set: there the widths must agree. -/
theorem gradAccum_eq [CharZero K] (z : K) (mode : LossAggMode) (sf : Option ℕ) (batch : List (Resp K))
    (ranks : List (List (List (Resp K)))) (hne : ranks ≠ [])
    (hperm : ranks.flatten.flatten.Perm batch)
    (hwidth : mode = .seqMeanTokenSumNorm → sf = none →
      ∀ mb ∈ ranks.flatten, maxLen mb = maxLen batch) :
    gradAccum z mode (batchNumTokens batch) batch.length sf ranks =
      wholeLoss z mode (batchNumTokens batch) batch.length sf batch := by
  rw [gradAccum_ok, wholeLoss, aggLoss_toPadded]
  congr 1
  set nT := batchNumTokens batch
  set gB := batch.length
  set c : K := ((normOf mode nT gB : ℕ) : K)
  set s : K := ((scaleOf mode sf (maxLen batch) : ℕ) : K) with hs
  have hD : ((ranks.length : ℕ) : K) ≠ 0 := by
    exact_mod_cast fun h => hne (List.length_eq_zero_iff.1 h)
  -- every micro-batch has the scale of the whole batch
  have hscale : ∀ mb ∈ ranks.flatten, ((scaleOf mode sf (maxLen mb) : ℕ) : K) = s := by
    intro mb hmb
    rw [hs]
    cases mode with
    | seqMeanTokenSumNorm =>
      cases sf with
      | none => rw [hwidth rfl rfl mb hmb]
      | some f => rfl
    | _ => rfl
  have hmicro : ∀ mbs ∈ ranks, (mbs.map (microLoss mode ranks.length nT gB sf)).sum =
      (mbs.flatten.map (rowTerm mode)).sum * ((ranks.length : ℕ) / c / s) := by
    intro mbs hmbs
    rw [sum_map_flatten, ← List.sum_map_mul_right]
    congr 1
    refine List.map_congr_left fun mb hmb => ?_
    rw [microLoss, hscale mb (List.mem_flatten.2 ⟨mbs, hmbs, hmb⟩)]
    ring
  have hall : (batch.map (rowTerm mode)).sum =
      (ranks.map fun mbs => (mbs.flatten.map (rowTerm mode)).sum).sum := by
    rw [← (hperm.map (rowTerm mode)).sum_eq, sum_map_flatten, sum_map_flatten]
    congr 1
    exact List.map_congr_left fun mbs _ => (sum_map_flatten _ _).symm
  rw [List.map_congr_left hmicro, List.sum_map_mul_right, ← hall, microLoss, Nat.cast_one]
  field_simp
  rfl

theorem gradAccum_eq_two_rows :
    gradAccum (0 : ℚ) .seqMeanTokenSumNorm 2 2 none [[[[(3, true)]], [[(5, true)]]]] =
      wholeLoss 0 .seqMeanTokenSumNorm 2 2 none [[(3, true)], [(5, true)]] :=
  gradAccum_eq 0 .seqMeanTokenSumNorm none [[(3, true)], [(5, true)]] [[[[(3, true)]], [[(5, true)]]]]
    (by simp) (List.Perm.refl _) (by
      intro _ _ mb hmb
      fin_cases hmb <;> rfl)

/-- **With `seq-mean-token-sum-norm` and no scale factor the identity fails**: a row
of one token and a row of two tokens, each its own micro-batch, give `1`; together,
padded to width two, they give `3/4`. -/
theorem gradAccum_ne :
    ¬ ∀ (z : ℚ) (mode : LossAggMode) (sf : Option ℕ) (batch : List (Resp ℚ))
      (ranks : List (List (List (Resp ℚ)))), ranks ≠ [] → ranks.flatten.flatten.Perm batch →
        gradAccum z mode (batchNumTokens batch) batch.length sf ranks =
          wholeLoss z mode (batchNumTokens batch) batch.length sf batch := by
  intro h
  have h1 := h 0 .seqMeanTokenSumNorm none [[(1, true)], [(1, true), (1, true)]]
    [[[[(1, true)]], [[(1, true), (1, true)]]]] (by simp) (List.Perm.refl _)
  rw [gradAccum_ok, wholeLoss, aggLoss_toPadded, Except.ok.injEq] at h1
  norm_num [microLoss, rowTerm, normOf, scaleOf, maxLen, tokenCount, tokenSum, mask01] at h1

end Opd.Verl

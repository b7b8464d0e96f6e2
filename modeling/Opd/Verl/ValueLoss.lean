import Mathlib.Algebra.Order.BigOperators.Group.List
import Mathlib.Algebra.Order.Field.Basic
import Mathlib.Tactic.Linarith
import Mathlib.Tactic.Positivity
import Opd.Lib.Tensor
import Opd.Verl.AggLoss

/-!
# The critic loss over micro-batches

`value_loss` calls `agg_loss` without the global numbers. It then divides by the valid
tokens or rows of the micro-batch itself, and the sum over micro-batches is not the loss of
the whole batch.

* `aggLoss_own`: `agg_loss` without global numbers is a sum over rows over its own number.
* `criticAccum_eq`: what is accumulated over micro-batches and ranks.
* `criticInvariant_iff`: the masks for which it is the loss of the whole batch.
-/

namespace Opd.Verl

variable {K : Type} [Field K] [LinearOrder K]

/-- What the critic loss reads of a token: the prediction, the old value and the return. -/
structure VfToken (K : Type) where
  vpred : K
  value : K
  ret : K

/-- `clip_by_value`. -/
def clipByValue (x lower upper : K) : K := max (min x upper) lower

/-- `vf_losses1`. -/
def vfLoss1 (t : VfToken K) : K := (t.vpred - t.ret) ^ 2

/-- `vf_losses2`. -/
def vfLoss2 (cliprange : K) (t : VfToken K) : K :=
  (clipByValue t.vpred (t.value - cliprange) (t.value + cliprange) - t.ret) ^ 2

/-- `clipped_vf_losses`. -/
def clippedVfLoss (cliprange : K) (t : VfToken K) : K := max (vfLoss1 t) (vfLoss2 cliprange t)

def mapEntries {α β : Type} (f : α → β) (row : List (α × Bool)) : List (β × Bool) := row.map fun p => (f p.1, p.2)

omit [Field K] [LinearOrder K] in
theorem tokenCount_mapEntries {α β : Type} (f : α → β) (row : List (α × Bool)) :
    tokenCount (mapEntries f row) = tokenCount row := by
  unfold tokenCount mapEntries
  rw [List.countP_map]
  rfl

def LossMat.map {α β : Type} (f : α → β) (m : LossMat α) : LossMat β where
  width := m.width
  rows := m.rows.map (mapEntries f)
  row_length := by
    intro row hrow
    obtain ⟨row', hrow', rfl⟩ := List.mem_map.1 hrow
    rw [mapEntries, List.length_map]
    exact m.row_length row' hrow'

def maskRows {α : Type} (rows : List (List (α × Bool))) : List (List Bool) := rows.map fun row => row.map Prod.snd

/-- The number that `agg_loss` divides by without a global number: the valid tokens, or the
rows with valid tokens. -/
def ownNumber (mode : LossAggMode) (mask : List (List Bool)) : ℕ :=
  match mode with
  | .tokenMean => mask.flatten.count true
  | _ => mask.countP fun row => 0 < row.count true

/-- The `1e-8` of the denominators. -/
def eps : K := ((10 ^ 8 : ℕ) : K)⁻¹

/-- `masked_mean`. -/
def maskedMean (l : List (K × Bool)) : K := maskedSum l / (tokenCount l + eps)

/-- The loss and the metrics that `value_loss` returns. A loss that is not a number is `none`. -/
structure ValueLossOutput (K : Type) where
  vfLoss : Option K
  vfClipfrac : K
  vpredMean : K

/-- `compute_value_loss`: the loss and `vf_clipfrac`. A sum without terms over the number 0 is
not a number. -/
def computeValueLoss (cliprange : K) (mode : LossAggMode) (m : LossMat (VfToken K)) : Except String (Option K × K) := do
  let loss ← aggLoss (m.map (clippedVfLoss cliprange)) mode 1 none none none
  let vfLoss := if ownNumber mode (maskRows m.rows) = 0 then none else some (1 / 2 * loss)
  let clipped := m.map fun t => if vfLoss1 t < vfLoss2 cliprange t then (1 : K) else 0
  .ok (vfLoss, maskedMean clipped.rows.flatten)

/-- `value_loss`, of a micro-batch before it is padded. -/
def valueLoss (cliprange : K) (mode : LossAggMode) (mb : List (Resp (VfToken K))) :
    Except String (ValueLossOutput K) := do
  let padded := toPadded ⟨0, 0, 0⟩ mb
  let (vfLoss, vfClipfrac) ← computeValueLoss cliprange mode padded
  .ok ⟨vfLoss, vfClipfrac, maskedMean (padded.map VfToken.vpred).rows.flatten⟩

def nanSum (l : List (Option K)) : Option K := l.foldr (fun x sum => x.bind fun x => sum.map fun sum => x + sum) (some 0)

/-- What one step accumulates of the critic loss: each rank adds up its micro-batches, and the
ranks are averaged. -/
def criticAccum (cliprange : K) (mode : LossAggMode) (ranks : List (List (List (Resp (VfToken K))))) :
    Except String (Option K) := do
  let perRank ← ranks.mapM fun mbs => do
    let outputs ← mbs.mapM (valueLoss cliprange mode)
    return nanSum (outputs.map ValueLossOutput.vfLoss)
  return (nanSum perRank).map fun sum => sum / (ranks.length : ℕ)

/-- `value_loss` of the whole batch as one micro-batch. -/
def wholeValueLoss (cliprange : K) (mode : LossAggMode) (batch : List (Resp (VfToken K))) : Except String (Option K) :=
  (valueLoss cliprange mode batch).map ValueLossOutput.vfLoss

/-! ## `agg_loss` by its own numbers -/

omit [Field K] [LinearOrder K] in
theorem tokenCount_eq (row : List (K × Bool)) : tokenCount row = (row.map Prod.snd).count true := by
  unfold tokenCount
  rw [List.count, List.countP_map]
  refine List.countP_congr ?_
  intro p _
  simp

omit [LinearOrder K] in
/-- **`agg_loss` without global numbers**: a sum over rows over its own number. -/
theorem aggLoss_own (m : LossMat K) (mode : LossAggMode) :
    aggLoss m mode 1 none none none =
      .ok ((m.rows.map (rowTerm mode)).sum / (ownNumber mode (maskRows m.rows) : ℕ) /
        (scaleOf mode none m.width : ℕ)) := by
  have htokens : tokenCount m.rows.flatten = (maskRows m.rows).flatten.count true := by
    rw [tokenCount_eq, maskRows, List.map_flatten]
  have hrows : ∀ f : List (K × Bool) → K,
      (m.rows.map fun r => (f r, decide (0 < tokenCount r))).countP (·.2) =
        (maskRows m.rows).countP fun row => 0 < row.count true := by
    intro f
    unfold maskRows
    rw [List.countP_map, List.countP_map]
    refine List.countP_congr ?_
    intro row _
    simp only [Function.comp_def, tokenCount_eq]
  have hglobal := aggLoss_eq m mode 1 (tokenCount m.rows.flatten)
    ((maskRows m.rows).countP fun row => 0 < row.count true) none
  -- its own number, given as the global one
  have hown : aggLoss m mode 1 none none none = aggLoss m mode 1 (some (tokenCount m.rows.flatten))
      (some ((maskRows m.rows).countP fun row => 0 < row.count true)) none := by
    cases mode with
    | tokenMean => rfl
    | _ =>
      simp only [aggLoss, seqMean, hrows]
      rfl
  have hnorm : normOf mode (tokenCount m.rows.flatten)
      ((maskRows m.rows).countP fun row => 0 < row.count true) = ownNumber mode (maskRows m.rows) := by
    cases mode <;> simp [normOf, ownNumber, htokens]
  rw [hown, hglobal, hnorm, Nat.cast_one, mul_one]

/-! ## Micro-batches -/

section Micro

variable {cliprange : K} {mode : LossAggMode}

def lossRow (cliprange : K) (row : Resp (VfToken K)) : Resp K := mapEntries (clippedVfLoss cliprange) row

def rowSum (cliprange : K) (mode : LossAggMode) (mb : List (Resp (VfToken K))) : K :=
  (mb.map fun row => rowTerm mode (lossRow cliprange row)).sum

/-- The number that the loss of a micro-batch is divided by, of its mask. -/
def denom (mode : LossAggMode) (mask : List (List Bool)) : ℕ :=
  ownNumber mode mask * scaleOf mode none ((mask.map List.length).foldr max 0)

omit [Field K] [LinearOrder K] in
theorem maxLen_eq {α : Type} (mb : List (Resp α)) : maxLen mb = ((maskRows mb).map List.length).foldr max 0 := by
  unfold maxLen maskRows
  rw [List.map_map]
  congr 2
  funext row
  exact (List.length_map ..).symm

theorem ownNumber_padded {α : Type} (z : α) (mb : List (Resp α)) :
    ownNumber mode (maskRows (toPadded z mb).rows) = ownNumber mode (maskRows mb) := by
  -- padding adds no valid token
  have hcount : ∀ (w : ℕ) (row : Resp α), ((padTo z w row).map Prod.snd).count true = (row.map Prod.snd).count true := by
    intro w row
    simp [padTo, List.count_append, List.count_replicate]
  have hflat : ∀ (w : ℕ) (rows : List (Resp α)), (maskRows (rows.map (padTo z w))).flatten.count true =
      (maskRows rows).flatten.count true := by
    intro w rows
    unfold maskRows
    induction rows with
    | nil => rfl
    | cons row rows ih =>
      simp only [List.map_cons, List.flatten_cons, List.count_append, hcount]
      rw [ih]
  have hrows : ∀ (w : ℕ) (rows : List (Resp α)), ((maskRows (rows.map (padTo z w))).countP fun row => 0 < row.count true) =
      (maskRows rows).countP fun row => 0 < row.count true := by
    intro w rows
    unfold maskRows
    rw [List.map_map, List.countP_map, List.countP_map]
    refine List.countP_congr ?_
    intro row _
    simp only [Function.comp_def, hcount]
  cases mode with
  | tokenMean => exact hflat _ _
  | _ => exact hrows _ _

theorem denom_pos {mask : List (List Bool)} : 0 < denom mode mask ↔ ownNumber mode mask ≠ 0 := by
  have hwidth : ∀ row ∈ mask, row.length ≤ (mask.map List.length).foldr max 0 := by
    intro row hrow
    induction mask with
    | nil => cases hrow
    | cons first mask ih =>
      rw [List.map_cons, List.foldr_cons]
      rcases List.mem_cons.1 hrow with rfl | hrow
      · exact Nat.le_max_left ..
      · exact (ih hrow).trans (Nat.le_max_right ..)
  unfold denom
  constructor
  · intro hpos hzero
    rw [hzero, Nat.zero_mul] at hpos
    exact Nat.lt_irrefl 0 hpos
  · intro hown
    refine Nat.mul_pos (Nat.pos_of_ne_zero hown) ?_
    cases mode with
    -- a row with a valid token has a width
    | seqMeanTokenSumNorm =>
      obtain ⟨row, hrow, hcount⟩ := List.countP_pos_iff.1 (Nat.pos_of_ne_zero hown)
      have hle := hwidth row hrow
      have hlen : row.count true ≤ row.length := List.count_le_length
      have hpos : 0 < row.count true := by simpa using hcount
      show 0 < (mask.map List.length).foldr max 0
      omega
    | _ => exact Nat.one_pos

def microValue (cliprange : K) (mode : LossAggMode) (mb : List (Resp (VfToken K))) : K :=
  1 / 2 * (rowSum cliprange mode mb / (denom mode (maskRows mb) : ℕ))

theorem mapEntries_padTo {α β : Type} (f : α → β) (z : α) (w : ℕ) (row : Resp α) :
    mapEntries f (padTo z w row) = padTo (f z) w (mapEntries f row) := by
  unfold mapEntries padTo
  rw [List.map_append, List.map_replicate, List.length_map]

theorem rowSum_padded (mb : List (Resp (VfToken K))) :
    (((toPadded ⟨0, 0, 0⟩ mb).map (clippedVfLoss cliprange)).rows.map (rowTerm mode)).sum = rowSum cliprange mode mb := by
  unfold rowSum LossMat.map toPadded
  simp only [List.map_map]
  congr 1
  refine List.map_congr_left ?_
  intro row _
  simp only [Function.comp_def]
  rw [mapEntries_padTo, rowTerm_padTo]
  rfl

omit [Field K] [LinearOrder K] in
theorem maskRows_map {α β : Type} (f : α → β) (m : LossMat α) : maskRows (m.map f).rows = maskRows m.rows := by
  unfold maskRows LossMat.map mapEntries
  simp only [List.map_map, Function.comp_def]

/-- **The loss of a micro-batch**: its rows over its own number. -/
theorem valueLoss_eq (mb : List (Resp (VfToken K))) :
    (valueLoss cliprange mode mb).map ValueLossOutput.vfLoss =
      .ok (if ownNumber mode (maskRows mb) = 0 then none else some (microValue cliprange mode mb)) := by
  have hloss := aggLoss_own ((toPadded ⟨0, 0, 0⟩ mb).map (clippedVfLoss cliprange)) mode
  have hwidth : ((toPadded ⟨0, 0, 0⟩ mb).map (clippedVfLoss cliprange)).width = maxLen mb := rfl
  rw [rowSum_padded, maskRows_map, ownNumber_padded, hwidth, maxLen_eq] at hloss
  unfold valueLoss computeValueLoss
  simp only [hloss, bind, Except.bind, Except.map, ownNumber_padded]
  congr 2
  unfold microValue denom
  rw [Nat.cast_mul, div_div]

theorem wholeValueLoss_eq (batch : List (Resp (VfToken K))) :
    wholeValueLoss cliprange mode batch =
      .ok (if ownNumber mode (maskRows batch) = 0 then none else some (microValue cliprange mode batch)) :=
  valueLoss_eq batch

end Micro

/-! ## Accumulation -/

section Accum

variable {cliprange : K} {mode : LossAggMode}

omit [LinearOrder K] in
theorem nanSum_map {α : Type} (p : α → Prop) [DecidablePred p] (f : α → K) (l : List α) :
    nanSum (l.map fun a => if p a then none else some (f a)) =
      if ∃ a ∈ l, p a then none else some (l.map f).sum := by
  induction l with
  | nil => simp [nanSum]
  | cons a l ih =>
    have hcons : nanSum ((a :: l).map fun a => if p a then none else some (f a)) =
        (if p a then none else some (f a)).bind fun x =>
          (nanSum (l.map fun a => if p a then none else some (f a))).map fun sum => x + sum := rfl
    rw [hcons, ih, List.map_cons, List.sum_cons]
    by_cases ha : p a
    · have hex : ∃ b ∈ a :: l, p b := ⟨a, List.mem_cons_self, ha⟩
      rw [if_pos ha, if_pos hex]
      rfl
    · have hiff : (∃ b ∈ a :: l, p b) ↔ ∃ b ∈ l, p b := by
        simp [ha]
      rw [if_neg ha, if_congr hiff rfl rfl]
      split <;> rfl

def Empty (mode : LossAggMode) (mb : List (Resp (VfToken K))) : Prop := ownNumber mode (maskRows mb) = 0

instance (mode : LossAggMode) : DecidablePred (@Empty K mode) := fun _ => decEq _ _

/-- **What is accumulated**: the losses of all micro-batches over the number of ranks. -/
theorem criticAccum_eq (ranks : List (List (List (Resp (VfToken K))))) :
    criticAccum cliprange mode ranks =
      .ok (if ∃ mb ∈ ranks.flatten, Empty mode mb then none
        else some ((ranks.flatten.map (microValue cliprange mode)).sum / (ranks.length : ℕ))) := by
  have hmicro : ∀ mb : List (Resp (VfToken K)), ∃ out, valueLoss cliprange mode mb = .ok out ∧
      out.vfLoss = if Empty mode mb then none else some (microValue cliprange mode mb) := by
    intro mb
    have hvalue := @valueLoss_eq K _ _ cliprange mode mb
    cases hloss : valueLoss cliprange mode mb with
    | error e =>
      rw [hloss] at hvalue
      cases hvalue
    | ok out =>
      rw [hloss] at hvalue
      exact ⟨out, rfl, Except.ok.inj hvalue⟩
  choose out hout hvalue using hmicro
  -- one rank: the sum over its micro-batches
  have hrank : ∀ mbs : List (List (Resp (VfToken K))), (do
      let outputs ← mbs.mapM (valueLoss cliprange mode)
      return nanSum (outputs.map ValueLossOutput.vfLoss)) =
      (Except.ok (if ∃ mb ∈ mbs, Empty mode mb then none
        else some (mbs.map (microValue cliprange mode)).sum) : Except String (Option K)) := by
    intro mbs
    rw [Lib.mapM_eq_map fun mb _ => hout mb]
    show Except.ok (nanSum ((mbs.map out).map ValueLossOutput.vfLoss)) = _
    rw [List.map_map, ← nanSum_map]
    congr 3
    funext mb
    exact hvalue mb
  have hex : (∃ mbs ∈ ranks, ∃ mb ∈ mbs, Empty mode mb) ↔ ∃ mb ∈ ranks.flatten, Empty mode mb := by
    constructor
    · rintro ⟨mbs, hmbs, mb, hmb, hempty⟩
      exact ⟨mb, List.mem_flatten.2 ⟨mbs, hmbs, hmb⟩, hempty⟩
    · rintro ⟨mb, hmb, hempty⟩
      obtain ⟨mbs, hmbs, hmb⟩ := List.mem_flatten.1 hmb
      exact ⟨mbs, hmbs, mb, hmb, hempty⟩
  -- and the sum over the ranks
  unfold criticAccum
  simp only [hrank]
  rw [Lib.mapM_eq_map fun _ _ => rfl]
  show Except.ok (Option.map _ (nanSum _)) = _
  rw [nanSum_map, if_congr hex rfl rfl, sum_map_flatten]
  split <;> rfl

end Accum

/-! ## When the numbers agree -/

def maskOf (ranks : List (List (List (Resp (VfToken K))))) : List (List (List (List Bool))) :=
  ranks.map fun mbs => mbs.map maskRows

/-- **Accumulation is invariant** for the masks of a split: for all predictions, values and
returns it gives the loss of the whole batch. -/
def CriticInvariant (cliprange : K) (mode : LossAggMode) (masks : List (List (List (List Bool)))) : Prop :=
  ∀ (ranks : List (List (List (Resp (VfToken K))))) (batch : List (Resp (VfToken K))), maskOf ranks = masks →
    ranks.flatten.flatten.Perm batch →
    ∃ x, criticAccum cliprange mode ranks = .ok (some x) ∧ wholeValueLoss cliprange mode batch = .ok (some x)

section Invariant

variable {cliprange : K} {mode : LossAggMode}

theorem denom_perm {mask mask' : List (List Bool)} (h : mask.Perm mask') : denom mode mask = denom mode mask' := by
  have hown : ownNumber mode mask = ownNumber mode mask' := by
    cases mode with
    | tokenMean => exact h.flatten.count_eq true
    | _ => exact h.countP_eq _
  have hwidth : (mask.map List.length).foldr max 0 = (mask'.map List.length).foldr max 0 :=
    (h.map List.length).foldr_eq 0
  unfold denom
  rw [hown, hwidth]

omit [Field K] [LinearOrder K] in
theorem flatten_maskOf (ranks : List (List (List (Resp (VfToken K))))) :
    (maskOf ranks).flatten = ranks.flatten.map maskRows := by
  unfold maskOf
  rw [List.map_flatten]

omit [Field K] [LinearOrder K] in
theorem flatten_flatten_maskOf (ranks : List (List (List (Resp (VfToken K))))) :
    (maskOf ranks).flatten.flatten = maskRows ranks.flatten.flatten := by
  rw [flatten_maskOf]
  unfold maskRows
  exact List.map_flatten.symm

theorem rowSum_perm {mb mb' : List (Resp (VfToken K))} (h : mb.Perm mb') :
    rowSum cliprange mode mb = rowSum cliprange mode mb' := (h.map _).sum_eq

theorem rowSum_flatten (mbs : List (List (Resp (VfToken K)))) :
    rowSum cliprange mode mbs.flatten = (mbs.map (rowSum cliprange mode)).sum := sum_map_flatten _ _

variable {masks : List (List (List (List Bool)))}

theorem invariant_of_denom [IsStrictOrderedRing K] (hpos : 0 < denom mode masks.flatten.flatten)
    (h : ∀ mask ∈ masks.flatten, masks.length * denom mode mask = denom mode masks.flatten.flatten) :
    CriticInvariant cliprange mode masks := by
  rintro ranks batch rfl hperm
  have hlen : (maskOf ranks).length = ranks.length := List.length_map _
  rw [flatten_flatten_maskOf] at hpos h
  rw [flatten_maskOf, hlen] at h
  have hbatch : denom mode (maskRows batch) = denom mode (maskRows ranks.flatten.flatten) :=
    denom_perm ((hperm.map _).symm)
  have hmicro : ∀ mb ∈ ranks.flatten, ranks.length * denom mode (maskRows mb) = denom mode (maskRows batch) :=
    fun mb hmb => (h _ (List.mem_map_of_mem hmb)).trans hbatch.symm
  -- no micro-batch is empty, since its number is not 0
  have hfull : ¬ ∃ mb ∈ ranks.flatten, Empty mode mb := by
    rintro ⟨mb, hmb, hempty⟩
    have hprod : 0 < ranks.length * denom mode (maskRows mb) := by
      rw [hmicro mb hmb, hbatch]
      exact hpos
    exact denom_pos.1 (Nat.pos_of_mul_pos_left hprod) hempty
  have hwhole : ownNumber mode (maskRows batch) ≠ 0 := denom_pos.1 (by omega)
  have hD : ((denom mode (maskRows batch) : ℕ) : K) ≠ 0 := by
    exact_mod_cast (show denom mode (maskRows batch) ≠ 0 by omega)
  have hR : (ranks.length : K) ≠ 0 := by
    intro hzero
    obtain rfl : ranks = [] := List.length_eq_zero_iff.1 (by exact_mod_cast hzero)
    exact denom_pos.1 hpos (by cases mode <;> rfl)
  refine ⟨microValue cliprange mode batch, ?_, ?_⟩
  · rw [criticAccum_eq, if_neg hfull]
    congr 2
    -- each loss is the sum over its rows times one factor
    have hvalue : ∀ mb ∈ ranks.flatten, microValue cliprange mode mb =
        rowSum cliprange mode mb * (1 / 2 * (ranks.length / (denom mode (maskRows batch) : ℕ))) := by
      intro mb hmb
      have hmul : (ranks.length : K) * (denom mode (maskRows mb) : ℕ) = (denom mode (maskRows batch) : ℕ) := by
        exact_mod_cast hmicro mb hmb
      have hd : ((denom mode (maskRows mb) : ℕ) : K) ≠ 0 := by
        intro hzero
        rw [hzero, mul_zero] at hmul
        exact hD hmul.symm
      unfold microValue
      rw [← hmul]
      field_simp
    rw [List.map_congr_left hvalue, List.sum_map_mul_right, ← rowSum_flatten, rowSum_perm hperm]
    unfold microValue
    field_simp
  · rw [wholeValueLoss_eq, if_neg hwhole]

/-! ### One micro-batch with a loss -/

def fill {α : Type} (t : α) (row : List Bool) : List (α × Bool) := row.map fun b => (t, b)

omit [Field K] [LinearOrder K] in
theorem maskRows_fill {α : Type} (t : α) (mask : List (List Bool)) : maskRows (mask.map (fill t)) = mask := by
  unfold maskRows fill
  rw [List.map_map]
  simp only [Function.comp_def, List.map_map]
  simp

omit [LinearOrder K] in
theorem sums_fill (v : K) (row : List Bool) :
    maskedSum (fill v row) = row.count true * v ∧ tokenSum (fill v row) = row.count true * v ∧
      tokenCount (fill v row) = row.count true := by
  refine ⟨?_, ?_, ?_⟩
  · unfold maskedSum fill
    induction row with
    | nil => simp
    | cons b row ih =>
      rw [List.map_cons, List.map_cons, List.sum_cons, ih, List.count_cons]
      cases b <;> simp [mask01]
      ring
  · unfold tokenSum fill
    induction row with
    | nil => simp
    | cons b row ih =>
      rw [List.map_cons, List.map_cons, List.sum_cons, ih, List.count_cons]
      cases b <;> simp [mask01]
      ring
  · rw [tokenCount_eq, fill, List.map_map]
    simp

omit [LinearOrder K] in
theorem rowTerm_fill_zero (row : List Bool) : rowTerm mode (fill (0 : K) row) = 0 := by
  obtain ⟨hmasked, htoken, -⟩ := sums_fill (0 : K) row
  unfold rowTerm
  cases mode <;> simp [hmasked, htoken]

theorem rowTerm_fill_pos [IsStrictOrderedRing K] {v : K} (hv : 0 < v) (row : List Bool) :
    0 ≤ rowTerm mode (fill v row) ∧ (0 < row.count true → 0 < rowTerm mode (fill v row)) := by
  obtain ⟨hmasked, htoken, hcount⟩ := sums_fill v row
  have hnonneg : (0 : K) ≤ row.count true * v := by positivity
  -- a valid token adds `v`
  have hpositive : 0 < row.count true → (0 : K) < row.count true * v := by
    intro h
    have hcast : (0 : K) < row.count true := by exact_mod_cast h
    positivity
  have hden : (0 : K) < row.count true + (10 ^ 8)⁻¹ := by positivity
  unfold rowTerm
  cases mode with
  | tokenMean =>
    simp only [hmasked]
    exact ⟨hnonneg, hpositive⟩
  | seqMeanTokenMean =>
    simp only [htoken, hcount]
    split
    · rename_i h
      exact ⟨(div_pos (hpositive h) hden).le, fun _ => div_pos (hpositive h) hden⟩
    · rename_i h
      exact ⟨le_refl _, fun hpos => absurd hpos h⟩
  | _ =>
    simp only [htoken, hcount]
    split
    · exact ⟨hnonneg, hpositive⟩
    · rename_i h
      exact ⟨le_refl _, fun hpos => absurd hpos h⟩

def zeroToken (cliprange : K) : VfToken K := ⟨0, min cliprange 0, 0⟩

def oneToken : VfToken K := ⟨1, 0, 0⟩

theorem clippedVfLoss_zeroToken [IsStrictOrderedRing K] (cliprange : K) :
    clippedVfLoss cliprange (zeroToken cliprange) = 0 := by
  have hclip : clipByValue 0 (min cliprange 0 - cliprange) (min cliprange 0 + cliprange) = 0 := by
    unfold clipByValue
    rcases le_total cliprange 0 with h | h
    · rw [min_eq_left h, sub_self]
      exact max_eq_right (min_le_left _ _)
    · rw [min_eq_right h, zero_sub, zero_add, min_eq_left h]
      exact max_eq_left (by linarith)
  simp [clippedVfLoss, vfLoss1, vfLoss2, zeroToken, hclip]

theorem clippedVfLoss_oneToken [IsStrictOrderedRing K] (cliprange : K) : 0 < clippedVfLoss cliprange oneToken := by
  refine lt_of_lt_of_le ?_ (le_max_left _ _)
  simp [vfLoss1, oneToken]

theorem lossRow_fill (cliprange : K) (t : VfToken K) (row : List Bool) :
    lossRow cliprange (fill t row) = fill (clippedVfLoss cliprange t) row := by
  unfold lossRow mapEntries fill
  rw [List.map_map]
  rfl

theorem rowSum_zeroToken [IsStrictOrderedRing K] (mask : List (List Bool)) :
    rowSum cliprange mode (mask.map (fill (zeroToken cliprange))) = 0 := by
  unfold rowSum
  refine List.sum_eq_zero ?_
  intro x hx
  obtain ⟨row, hrow, rfl⟩ := List.mem_map.1 hx
  obtain ⟨row', -, rfl⟩ := List.mem_map.1 hrow
  rw [lossRow_fill, clippedVfLoss_zeroToken, rowTerm_fill_zero]

theorem rowSum_oneToken [IsStrictOrderedRing K] {mask : List (List Bool)} (h : ownNumber mode mask ≠ 0) :
    0 < rowSum cliprange mode (mask.map (fill oneToken)) := by
  have hrow : ∃ row ∈ mask, 0 < row.count true := by
    cases mode with
    | tokenMean =>
      have hmem : true ∈ mask.flatten := List.count_pos_iff.1 (Nat.pos_of_ne_zero h)
      obtain ⟨row, hrow, htrue⟩ := List.mem_flatten.1 hmem
      exact ⟨row, hrow, List.count_pos_iff.2 htrue⟩
    | _ =>
      obtain ⟨row, hrow, hcount⟩ := List.countP_pos_iff.1 (Nat.pos_of_ne_zero h)
      exact ⟨row, hrow, by simpa using hcount⟩
  obtain ⟨row, hrow, hcount⟩ := hrow
  have hterm := @rowTerm_fill_pos K _ _ mode _ _ (clippedVfLoss_oneToken cliprange)
  have hsum : rowSum cliprange mode (mask.map (fill oneToken)) =
      (mask.map fun row => rowTerm mode (fill (clippedVfLoss cliprange oneToken) row)).sum := by
    unfold rowSum
    rw [List.map_map]
    simp only [Function.comp_def, lossRow_fill]
  rw [hsum]
  refine lt_of_lt_of_le ((hterm row).2 hcount) (List.single_le_sum ?_ _ (List.mem_map_of_mem hrow))
  intro x hx
  obtain ⟨row', -, rfl⟩ := List.mem_map.1 hx
  exact (hterm row').1

theorem exists_split {mask : List (List Bool)} (h : mask ∈ masks.flatten) (cliprange : K) :
    ∃ (ranks : List (List (List (Resp (VfToken K))))) (before after : List (List (List Bool))),
      maskOf ranks = masks ∧ ranks.flatten = before.map (List.map (fill (zeroToken cliprange))) ++
        mask.map (fill oneToken) :: after.map (List.map (fill (zeroToken cliprange))) := by
  obtain ⟨mbs, hmbs, hmask⟩ := List.mem_flatten.1 h
  obtain ⟨ranksBefore, ranksAfter, rfl⟩ := List.append_of_mem hmbs
  obtain ⟨mbsBefore, mbsAfter, rfl⟩ := List.append_of_mem hmask
  let zeros (mbs : List (List (List Bool))) := mbs.map (List.map (fill (zeroToken cliprange)))
  have hzeros : ∀ mbs, (zeros mbs).map maskRows = mbs := by
    intro mbs
    simp only [zeros, List.map_map, Function.comp_def, maskRows_fill]
    exact List.map_id _
  have hranks : ∀ ranks : List (List (List (List Bool))), (ranks.map zeros).map (List.map maskRows) = ranks := by
    intro ranks
    rw [List.map_map]
    simp only [Function.comp_def, hzeros]
    exact List.map_id _
  refine ⟨ranksBefore.map zeros ++ (zeros mbsBefore ++ mask.map (fill oneToken) :: zeros mbsAfter) ::
    ranksAfter.map zeros, ranksBefore.flatten ++ mbsBefore, mbsAfter ++ ranksAfter.flatten, ?_, ?_⟩
  · unfold maskOf
    simp only [List.map_append, List.map_cons, hranks, hzeros, maskRows_fill]
  · simp only [zeros, List.flatten_append, List.flatten_cons, List.map_append, List.map_flatten, List.append_assoc,
      List.cons_append]

theorem values_of_invariant {ranks : List (List (List (Resp (VfToken K))))}
    (h : CriticInvariant cliprange mode (maskOf ranks)) :
    0 < denom mode (maskOf ranks).flatten.flatten ∧ (∀ mb ∈ ranks.flatten, 0 < denom mode (maskRows mb)) ∧
      (ranks.flatten.map (microValue cliprange mode)).sum / (ranks.length : ℕ) =
        microValue cliprange mode ranks.flatten.flatten := by
  obtain ⟨x, haccum, hwhole⟩ := h ranks ranks.flatten.flatten rfl (.refl _)
  rw [criticAccum_eq] at haccum
  rw [wholeValueLoss_eq] at hwhole
  have haccum := Except.ok.inj haccum
  have hwhole := Except.ok.inj hwhole
  split at haccum
  · cases haccum
  · rename_i hfull
    split at hwhole
    · cases hwhole
    · rename_i hown
      refine ⟨?_, ?_, (Option.some.inj haccum).trans (Option.some.inj hwhole).symm⟩
      · rw [flatten_flatten_maskOf]
        exact denom_pos.2 hown
      · intro mb hmb
        exact denom_pos.2 fun hempty => hfull ⟨mb, hmb, hempty⟩

theorem sum_split (f : List (Resp (VfToken K)) → K) {mask : List (List Bool)} {before after : List (List (List Bool))}
    (hzero : ∀ mask : List (List Bool), f (mask.map (fill (zeroToken cliprange))) = 0) :
    ((before.map (List.map (fill (zeroToken cliprange))) ++
      mask.map (fill oneToken) :: after.map (List.map (fill (zeroToken cliprange)))).map f).sum =
      f (mask.map (fill oneToken)) := by
  have hzeros : ∀ masks : List (List (List Bool)),
      ((masks.map (List.map (fill (zeroToken cliprange)))).map f).sum = 0 := by
    intro masks
    refine List.sum_eq_zero ?_
    intro x hx
    obtain ⟨mb, hmb, rfl⟩ := List.mem_map.1 hx
    obtain ⟨mask', -, rfl⟩ := List.mem_map.1 hmb
    exact hzero mask'
  rw [List.map_append, List.sum_append, List.map_cons, List.sum_cons, hzeros, hzeros, zero_add, add_zero]

theorem denom_of_invariant [IsStrictOrderedRing K] (h : CriticInvariant cliprange mode masks) :
    0 < denom mode masks.flatten.flatten ∧
      ∀ mask ∈ masks.flatten, masks.length * denom mode mask = denom mode masks.flatten.flatten := by
  refine ⟨?_, ?_⟩
  · have hmasks : maskOf (masks.map (List.map (List.map (fill (oneToken : VfToken K))))) = masks := by
      unfold maskOf
      simp [List.map_map, Function.comp_def, maskRows_fill]
    have hvalues := (values_of_invariant (hmasks.symm ▸ h)).1
    rwa [hmasks] at hvalues
  · intro mask hmask
    obtain ⟨ranks, before, after, rfl, hflat⟩ := exists_split hmask cliprange
    obtain ⟨hpos, hall, hsum⟩ := values_of_invariant h
    have hd : 0 < denom mode mask := by
      have hmem : mask.map (fill oneToken) ∈ ranks.flatten := by
        rw [hflat]
        exact List.mem_append_right _ List.mem_cons_self
      have hmb := hall _ hmem
      rwa [maskRows_fill] at hmb
    have hone : 0 < rowSum cliprange mode (mask.map (fill oneToken)) := rowSum_oneToken (denom_pos.1 hd)
    have hzero : ∀ mask' : List (List Bool), microValue cliprange mode (mask'.map (fill (zeroToken cliprange))) = 0 := by
      intro mask'
      rw [microValue, rowSum_zeroToken, zero_div, mul_zero]
    have hwhole : rowSum cliprange mode ranks.flatten.flatten = rowSum cliprange mode (mask.map (fill oneToken)) := by
      rw [rowSum_flatten, hflat, sum_split _ rowSum_zeroToken]
    have hlen : (maskOf ranks).length = ranks.length := List.length_map _
    rw [hflat, sum_split _ hzero, ← hflat] at hsum
    unfold microValue at hsum
    rw [hwhole, maskRows_fill, ← flatten_flatten_maskOf] at hsum
    rw [hlen]
    -- both sides are the same positive sum over their numbers
    have hdK : (0 : K) < (denom mode mask : ℕ) := by exact_mod_cast hd
    have hDK : (0 : K) < (denom mode (maskOf ranks).flatten.flatten : ℕ) := by exact_mod_cast hpos
    have hRK : (ranks.length : K) ≠ 0 := by
      intro hzeroLen
      rw [hzeroLen, div_zero] at hsum
      have : (0 : K) < 1 / 2 * (rowSum cliprange mode (mask.map (fill oneToken)) /
        (denom mode (maskOf ranks).flatten.flatten : ℕ)) := by positivity
      exact absurd hsum.symm this.ne'
    have hmul : (ranks.length : K) * (denom mode mask : ℕ) = (denom mode (maskOf ranks).flatten.flatten : ℕ) := by
      have hone' := hone.ne'
      field_simp at hsum
      linarith
    exact_mod_cast hmul

end Invariant

/-- **The critic loss is invariant under accumulation** exactly when the number of each
micro-batch, times the number of ranks, is the number of the whole batch. -/
theorem criticInvariant_iff [IsStrictOrderedRing K] (cliprange : K) (mode : LossAggMode)
    (masks : List (List (List (List Bool)))) :
    CriticInvariant cliprange mode masks ↔ 0 < denom mode masks.flatten.flatten ∧
      ∀ mask ∈ masks.flatten, masks.length * denom mode mask = denom mode masks.flatten.flatten :=
  ⟨denom_of_invariant, fun h => invariant_of_denom h.1 h.2⟩

theorem criticInvariant_twoRanks : CriticInvariant (1 / 5 : ℚ) .tokenMean [[[[true]]], [[[true]]]] :=
  (criticInvariant_iff (1 / 5) .tokenMean [[[[true]]], [[[true]]]]).2 ⟨by decide, by decide⟩

/-- **Two micro-batches of one token** on one rank: each has the loss of the whole batch, and
accumulation gives twice as much. -/
theorem criticAccum_twoMicroBatches :
    (criticAccum (1 / 5 : ℚ) .tokenMean [[[[(⟨1, 1, 0⟩, true)]], [[(⟨1, 1, 0⟩, true)]]]] = .ok (some 1) ∧
      wholeValueLoss (1 / 5 : ℚ) .tokenMean [[(⟨1, 1, 0⟩, true)], [(⟨1, 1, 0⟩, true)]] = .ok (some (1 / 2))) ∧
    ¬ ∀ (cliprange : ℚ) (mode : LossAggMode) (ranks : List (List (List (Resp (VfToken ℚ)))))
      (batch : List (Resp (VfToken ℚ))), ranks ≠ [] → ranks.flatten.flatten.Perm batch →
        criticAccum cliprange mode ranks = wholeValueLoss cliprange mode batch := by
  have haccum : criticAccum (1 / 5 : ℚ) .tokenMean [[[[(⟨1, 1, 0⟩, true)]], [[(⟨1, 1, 0⟩, true)]]]] =
      .ok (some 1) := by
    decide +kernel
  have hwhole : wholeValueLoss (1 / 5 : ℚ) .tokenMean [[(⟨1, 1, 0⟩, true)], [(⟨1, 1, 0⟩, true)]] =
      .ok (some (1 / 2)) := by
    decide +kernel
  refine ⟨⟨haccum, hwhole⟩, ?_⟩
  intro hall
  have heq := hall (1 / 5) .tokenMean [[[[(⟨1, 1, 0⟩, true)]], [[(⟨1, 1, 0⟩, true)]]]]
    [[(⟨1, 1, 0⟩, true)], [(⟨1, 1, 0⟩, true)]] (List.cons_ne_nil _ _) (.refl _)
  rw [haccum, hwhole] at heq
  have hone : (1 : ℚ) = 1 / 2 := Option.some.inj (Except.ok.inj heq)
  norm_num at hone

end Opd.Verl

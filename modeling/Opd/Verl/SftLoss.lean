import Mathlib.Data.List.Rotate
import Opd.Lib.Jagged
import Opd.Verl.AggLoss

/-!
# The SFT loss of a packed batch

Entry `t` of the log-probs of a sequence belongs to its token `t + 1`. `sft_loss` shifts the loss mask to align them,
by rolling the values of the whole batch, so that the last entry of a sequence meets the mask of the first token of
the next one.

* `rolledMask_eq_iff`: when every sequence keeps its own mask.
* `maskedSum_packed`: the entries that the shifted masks select.
* `sftLoss_iff`: when the loss is that of the aligned entries.
-/

namespace Opd.Verl.SftLoss

open Lib

/-- `DatasetPadMode` -/
inductive DatasetPadMode
  | right
  | leftRight
  | noPadding
  deriving DecidableEq

variable {K : Type} [Field K]

/-- `sft_loss`, of log-probs and the mask of the same shape: `loss_mask`, or `response_mask` of padded data. The values
of padded data are the entries of its rows. Without tokens the quotient is not a number in `torch`, and 0 here. -/
def sftLoss (padMode : DatasetPadMode) (logProb : Jagged K) (mask : Jagged Bool) (batchNumTokens dpSize : ℕ) : K :=
  match padMode with
  | .noPadding => -maskedSum (logProb.values.zip (mask.values.rotate 1)) / (batchNumTokens : K) * (dpSize : K)
  | _ => -maskedSum (logProb.values.zip mask.values) / (batchNumTokens : K) * (dpSize : K)

def logProbs (batch : List (Resp K)) : Jagged K := Jagged.ofRows (batch.map (List.map Prod.fst))

def lossMask {α : Type} (batch : List (List (α × Bool))) : Jagged Bool := Jagged.ofRows (batch.map (List.map Prod.snd))

/-- The mask of a sequence for its log-probs: entry `t` has the mask of token `t + 1`, the last one has none. -/
def alignedMask : List Bool → List Bool
  | [] => []
  | _ :: mask => mask ++ [false]

/-- The sum of the entries whose next token in the sequence is in the mask. -/
def alignedSum (seq : Resp K) : K := (List.zipWith (fun p next => if next.2 then p.1 else 0) seq seq.tail).sum

/-- The alignment of a packed batch: the rolled mask is that of every sequence, and the loss that of its entries. -/
structure Aligned (batch : List (Resp K)) (batchNumTokens dpSize : ℕ) : Prop where
  mask : (lossMask batch).values.rotate 1 = (lossMask batch).unbind.flatMap alignedMask
  loss : sftLoss .noPadding (logProbs batch) (lossMask batch) batchNumTokens dpSize =
    -(batch.map alignedSum).sum / (batchNumTokens : K) * (dpSize : K)

/-! ## Rolling -/

theorem flatten_concat_eq_iff (masks : List (List Bool)) (last : Bool) :
    masks.flatten ++ [last] = false :: masks.flatMap alignedMask ↔
      (∀ mask ∈ masks, mask.head? ≠ some true) ∧ last = false := by
  induction masks with
  | nil => simp
  | cons mask masks ih =>
    cases mask with
    | nil =>
      rw [List.flatten_cons, List.nil_append, List.flatMap_cons, alignedMask, List.nil_append, ih, List.forall_mem_cons]
      simp
    | cons first mask =>
      have hbehind : (mask ++ masks.flatten ++ [last] = mask ++ [false] ++ masks.flatMap alignedMask) ↔
          masks.flatten ++ [last] = false :: masks.flatMap alignedMask := by
        rw [List.append_assoc, List.append_assoc, List.append_cancel_left_eq, List.singleton_append]
      rw [List.flatten_cons, List.flatMap_cons, alignedMask, List.cons_append, List.cons_append, List.cons.injEq,
        hbehind, ih, List.forall_mem_cons, List.head?_cons]
      cases first <;> simp

/-- **Rolling keeps the sequences apart** exactly when no first token is in the mask. -/
theorem rolledMask_eq_iff (masks : List (List Bool)) :
    masks.flatten.rotate 1 = masks.flatMap alignedMask ↔ ∀ mask ∈ masks, mask.head? ≠ some true := by
  induction masks with
  | nil => simp
  | cons mask masks ih =>
    cases mask with
    | nil =>
      rw [List.flatten_cons, List.nil_append, List.flatMap_cons, alignedMask, List.nil_append, ih, List.forall_mem_cons]
      simp
    | cons first mask =>
      have hroll : (first :: (mask ++ masks.flatten)).rotate 1 = mask ++ (masks.flatten ++ [first]) := by
        rw [List.rotate_cons_succ, List.rotate_zero, List.append_assoc]
      have hbehind : (mask ++ (masks.flatten ++ [first]) = mask ++ [false] ++ masks.flatMap alignedMask) ↔
          masks.flatten ++ [first] = false :: masks.flatMap alignedMask := by
        rw [List.append_assoc, List.append_cancel_left_eq, List.singleton_append]
      rw [List.flatten_cons, List.flatMap_cons, alignedMask, List.cons_append, hroll, hbehind, flatten_concat_eq_iff,
        List.forall_mem_cons, List.head?_cons]
      cases first <;> simp

/-! ## The loss -/

theorem maskedSum_aligned (seq : Resp K) :
    maskedSum ((seq.map Prod.fst).zip (alignedMask (seq.map Prod.snd))) = alignedSum seq := by
  cases seq with
  | nil => rfl
  | cons p seq =>
    unfold alignedSum
    rw [List.map_cons, List.map_cons, alignedMask, List.tail_cons]
    induction seq generalizing p with
    | nil =>
      rw [List.map_nil, List.map_nil, List.nil_append, List.zip_cons_cons, List.zip_nil_left, maskedSum_cons]
      exact add_zero _
    | cons next seq ih =>
      rw [List.map_cons, List.map_cons, List.cons_append, List.zip_cons_cons, maskedSum_cons, ih next,
        List.zipWith_cons_cons, List.sum_cons]

theorem length_alignedMask (mask : List Bool) : (alignedMask mask).length = mask.length := by
  cases mask with
  | nil => rfl
  | cons first mask => rw [alignedMask, List.length_append, List.length_singleton, List.length_cons]

/-- **The entries of a batch** that the shifted masks select. -/
theorem maskedSum_packed (batch : List (Resp K)) :
    maskedSum ((logProbs batch).values.zip ((batch.map (List.map Prod.snd)).flatMap alignedMask)) =
      (batch.map alignedSum).sum := by
  change maskedSum ((batch.map (List.map Prod.fst)).flatten.zip _) = _
  induction batch with
  | nil => rfl
  | cons seq batch ih =>
    have hlength : (seq.map Prod.fst).length = (alignedMask (seq.map Prod.snd)).length := by
      rw [length_alignedMask, List.length_map, List.length_map]
    rw [List.map_cons, List.map_cons, List.flatten_cons, List.flatMap_cons, List.zip_append hlength, maskedSum_append,
      maskedSum_aligned, ih, List.map_cons, List.sum_cons]

/-- **The loss is aligned** exactly when no sequence has its first token in the loss mask. -/
theorem sftLoss_iff (batch : List (Resp K)) (batchNumTokens dpSize : ℕ) :
    Aligned batch batchNumTokens dpSize ↔ ∀ seq ∈ batch, ∀ first ∈ seq.head?, first.2 = false := by
  have hmask : (lossMask batch).values.rotate 1 = (lossMask batch).unbind.flatMap alignedMask ↔
      ∀ seq ∈ batch, ∀ first ∈ seq.head?, first.2 = false := by
    have hunbind : (lossMask batch).unbind = batch.map (List.map Prod.snd) := Jagged.unbind_ofRows _
    rw [hunbind]
    refine (rolledMask_eq_iff _).trans (List.forall_mem_map.trans (forall₂_congr fun seq _ => ?_))
    cases seq with
    | nil => simp
    | cons first seq => simp
  refine ⟨fun h => hmask.1 h.mask, fun h => ⟨hmask.2 h, ?_⟩⟩
  have hunbind : (lossMask batch).unbind = batch.map (List.map Prod.snd) := Jagged.unbind_ofRows _
  unfold sftLoss
  simp only
  rw [hmask.2 h, hunbind, maskedSum_packed]

/-- Two sequences, the second with its first token in the mask: the last entry of the first one is selected. -/
theorem not_aligned_twoSequences :
    sftLoss .noPadding (logProbs [[((5 : ℚ), false), (7, false)], [(11, true), (13, true)]])
      (lossMask [[((5 : ℚ), false), (7, false)], [(11, true), (13, true)]]) 2 1 = -(7 + 11) / 2 ∧
    ([[((5 : ℚ), false), (7, false)], [(11, true), (13, true)]].map alignedSum).sum = 11 ∧
    ¬ Aligned [[((5 : ℚ), false), (7, false)], [(11, true), (13, true)]] 2 1 := by
  have hloss : sftLoss .noPadding (logProbs [[((5 : ℚ), false), (7, false)], [(11, true), (13, true)]])
      (lossMask [[((5 : ℚ), false), (7, false)], [(11, true), (13, true)]]) 2 1 = -(7 + 11) / 2 := by
    decide +kernel
  have hsum : ([[((5 : ℚ), false), (7, false)], [(11, true), (13, true)]].map alignedSum).sum = 11 := by
    decide +kernel
  refine ⟨hloss, hsum, fun h => ?_⟩
  have hexpected := h.loss
  rw [hloss, hsum] at hexpected
  norm_num at hexpected

end Opd.Verl.SftLoss

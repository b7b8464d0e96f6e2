import Opd.Clight.StudentRollout
import Opd.Lib.Tensor

/-!
# `RolloutMixin`: the masks of a rollout

A rollout puts a completion after every padded prompt. The completion mask ends at the
first EOS and leaves out pad tokens; the attention mask and the response mask of the
sequence are built from it.

* `completionMask_getElem`: the completion mask, position by position.
* `RolloutRow.length_responseMask`: the response mask has one bit per shifted position.
-/

namespace Opd.Clight

open Lib

structure SpecialTokens where
  padTokenId : ℕ
  eosTokenId : Option ℕ

/-- `cumsum(dim=1)` of one row. -/
def cumsum (l : List ℕ) : List ℕ := (l.scanl (· + ·) 0).tail

/-- `completion_mask` of one row. -/
def completionMask (tok : SpecialTokens) (completionIds : List ℕ) : List Bool :=
  let mask := completionIds.map (· != tok.padTokenId)
  match tok.eosTokenId with
  | some eos =>
    let eosSeen := (cumsum (completionIds.map fun t => if t = eos then 1 else 0)).map (· != 0)
    let beforeOrAtFirstEos := (mask.take 1).map (fun _ => true) ++ eosSeen.dropLast.map (!·)
    List.zipWith (· && ·) mask beforeOrAtFirstEos
  | none => mask

/-- `sequence_attention_mask` of one row: the prompt mask cut to the prompt width, then
the completion mask. -/
def sequenceAttentionMask (promptAttentionMask completionMask : List Bool) (seqLen : ℕ) : List Bool :=
  (promptAttentionMask.take (seqLen - completionMask.length) ++ completionMask).take seqLen

/-- `shift_completion_mask` of one row of `valuesLen` token values. -/
def shiftCompletionMask (valuesLen : ℕ) (completionMask : List Bool) (promptWidth : ℕ) : List Bool :=
  let start := promptWidth - 1
  let available := valuesLen - start
  List.replicate (valuesLen - available) false ++ completionMask.take available

structure RolloutRow (promptWidth completionWidth : ℕ) where
  prompt : Encoded
  length_prompt : prompt.inputIds.length = promptWidth
  completion : List ℕ
  length_completion : completion.length = completionWidth

namespace RolloutRow

variable {P C : ℕ} (tok : SpecialTokens) (r : RolloutRow P C)

/-- The row of `sequences`. -/
def sequence : List ℕ := r.prompt.inputIds ++ r.completion

/-- The row of `completion_mask(sequences, prompt_width)`. -/
def mask : List Bool := completionMask tok (r.sequence.drop P)

def attentionMask : List Bool :=
  sequenceAttentionMask r.prompt.attentionMask (r.mask tok) (P + C)

/-- The row of the response mask, for the token values `sequences[:, 1:]`. -/
def responseMask : List Bool := shiftCompletionMask (P + C - 1) (r.mask tok) P

end RolloutRow

/-! ## The completion mask -/

theorem length_cumsum (l : List ℕ) : (cumsum l).length = l.length := by
  unfold cumsum
  rw [List.length_tail, List.length_scanl, Nat.add_sub_cancel]

theorem scanl_getElem (l : List ℕ) (a i : ℕ) (h : i ≤ l.length) :
    (l.scanl (· + ·) a)[i]? = some (a + (l.take i).sum) := by
  induction l generalizing a i with
  | nil =>
    obtain rfl : i = 0 := Nat.le_zero.1 h
    rfl
  | cons x l ih =>
    cases i with
    | zero => simp
    | succ i =>
      rw [List.scanl_cons, List.getElem?_cons_succ, ih _ _ (by simpa using h), List.take_succ_cons,
        List.sum_cons, Nat.add_assoc]

theorem eosSeen_getElem (l : List ℕ) (eos i : ℕ) (h : i < l.length) :
    ((cumsum (l.map fun t => if t = eos then 1 else 0)).map (· != 0))[i]? =
      some (decide (eos ∈ l.take (i + 1))) := by
  have hsum : ∀ m : List ℕ, (m.map fun t => if t = eos then 1 else 0).sum = 0 ↔ eos ∉ m := by
    intro m
    induction m with
    | nil => simp
    | cons x m ih =>
      rw [List.map_cons, List.sum_cons, Nat.add_eq_zero_iff, ih, List.mem_cons, not_or]
      by_cases hx : x = eos
      · simp [hx]
      · simp [hx, Ne.symm hx]
  have hget : (cumsum (l.map fun t => if t = eos then 1 else 0))[i]? =
      some ((l.take (i + 1)).map fun t => if t = eos then 1 else 0).sum := by
    unfold cumsum
    rw [List.getElem?_tail, scanl_getElem _ _ _ (by rw [List.length_map]; omega), Nat.zero_add,
      List.map_take]
  rw [List.getElem?_map, hget, Option.map_some, Option.some.injEq, Bool.eq_iff_iff, bne_iff_ne,
    decide_eq_true_eq, ne_eq, hsum, not_not]

/-- **The completion mask**: no pad token, and no EOS before. -/
theorem completionMask_getElem (tok : SpecialTokens) (l : List ℕ) (i : ℕ) (h : i < l.length) :
    (completionMask tok l)[i]? =
      some (l[i] != tok.padTokenId && tok.eosTokenId.all fun eos => decide (eos ∉ l.take i)) := by
  unfold completionMask
  cases tok.eosTokenId with
  | none => simp [List.getElem?_eq_getElem h]
  | some eos =>
    have hmask : (l.map (· != tok.padTokenId))[i]? = some (l[i] != tok.padTokenId) := by
      rw [List.getElem?_map, List.getElem?_eq_getElem h, Option.map_some]
    -- the shifted sum: position `i` sees the EOS tokens before it
    have hbefore : (((l.map (· != tok.padTokenId)).take 1).map (fun _ => true) ++
        ((cumsum (l.map fun t => if t = eos then 1 else 0)).map (· != 0)).dropLast.map (!·))[i]? =
          some (decide (eos ∉ l.take i)) := by
      have hlen : (((l.map (· != tok.padTokenId)).take 1).map (fun _ => true)).length = 1 := by
        rw [List.length_map, List.length_take, List.length_map]
        omega
      cases i with
      | zero =>
        rw [List.getElem?_append_left (by rw [hlen]; omega), List.getElem?_map,
          List.getElem?_take_of_lt (by omega), List.getElem?_map, List.getElem?_eq_getElem h]
        simp
      | succ i =>
        rw [List.getElem?_append_right (by rw [hlen]; omega), hlen, Nat.add_sub_cancel,
          List.getElem?_map, List.getElem?_dropLast, if_pos (by
            rw [List.length_map, length_cumsum, List.length_map]; omega),
          eosSeen_getElem l eos i (by omega)]
        simp
    rw [List.getElem?_zipWith, hmask, hbefore]
    rfl

theorem length_completionMask (tok : SpecialTokens) (l : List ℕ) :
    (completionMask tok l).length = l.length := by
  unfold completionMask
  cases tok.eosTokenId with
  | none => simp
  | some eos =>
    simp only [List.length_zipWith, List.length_append, List.length_map, List.length_take,
      List.length_dropLast, length_cumsum]
    omega

namespace RolloutRow

variable {P C : ℕ} (tok : SpecialTokens) (r : RolloutRow P C)

theorem length_sequence : r.sequence.length = P + C := by
  unfold sequence
  rw [List.length_append, r.length_prompt, r.length_completion]

theorem length_mask : (r.mask tok).length = C := by
  unfold mask
  rw [length_completionMask, List.length_drop, length_sequence]
  omega

theorem length_attentionMask : (r.attentionMask tok).length = P + C := by
  have h := r.prompt.length_eq
  have hP := r.length_prompt
  unfold attentionMask sequenceAttentionMask
  rw [List.length_take, List.length_append, List.length_take, length_mask]
  omega

theorem length_responseMask : (r.responseMask tok).length = P + C - 1 := by
  unfold responseMask shiftCompletionMask
  rw [List.length_append, List.length_replicate, List.length_take, length_mask]
  omega

end RolloutRow

/-- The rollout of a batch, with the special tokens of its tokenizer. -/
structure RolloutBatch where
  tok : SpecialTokens
  promptWidth : ℕ
  completionWidth : ℕ
  rows : List (RolloutRow promptWidth completionWidth)

namespace RolloutBatch

variable (b : RolloutBatch)

/-- `sequences` -/
def sequences : Grid ℕ where
  width := b.promptWidth + b.completionWidth
  rows := b.rows.map (·.sequence)
  rect := by
    intro row hrow
    obtain ⟨r, -, rfl⟩ := List.mem_map.1 hrow
    exact r.length_sequence

/-- `attention_mask` -/
def attentionMask : Grid Bool where
  width := b.promptWidth + b.completionWidth
  rows := b.rows.map (·.attentionMask b.tok)
  rect := by
    intro row hrow
    obtain ⟨r, -, rfl⟩ := List.mem_map.1 hrow
    exact r.length_attentionMask b.tok

/-- `response_mask` -/
def responseMask : Grid Bool where
  width := b.promptWidth + b.completionWidth - 1
  rows := b.rows.map (·.responseMask b.tok)
  rect := by
    intro row hrow
    obtain ⟨r, -, rfl⟩ := List.mem_map.1 hrow
    exact r.length_responseMask b.tok

/-- `response_mask.sum()` -/
def responseTokens : ℕ := (b.responseMask.rows.map (·.countP id)).sum

variable {b} in
theorem responseTokens_ne_zero {r : RolloutRow b.promptWidth b.completionWidth} (hr : r ∈ b.rows) {t : ℕ}
    (ht : (r.responseMask b.tok)[t]? = some true) : b.responseTokens ≠ 0 := by
  intro h0
  have hrow := List.sum_eq_zero_iff_forall_eq_nat.1 h0 ((r.responseMask b.tok).countP id)
    (List.mem_map_of_mem (List.mem_map.2 ⟨r, hr, rfl⟩))
  exact List.countP_eq_zero.1 hrow true (List.mem_of_getElem? ht) rfl

end RolloutBatch

end Opd.Clight

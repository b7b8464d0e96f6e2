import Opd.Verl.ThdPacking

/-!
# Context parallel batches

Besides the nested rows there are rows that are padded and masked, which are packed in the same
spans, and rows that are padded to one length, with a mask. Both clamp their chunks to the rows.

* `packedSeqs_transparent`: masked rows come back at their positions.
* `bshd_transparent`: so do rows of one length, and masks and positions are those of the slots.
* `packing_iff`: with the nested rows, all three.
-/

namespace Opd.Verl.ContextParallel

open Lib ThdPacking

variable {α β : Type}

/-! ## Masked rows -/

/-- `buffer[start : start + n] = l[a:b]` with `n = max(b - a, 0)`, if `n > 0`. -/
def putBetween (buffer : List α) (start a b : ℕ) (l : List α) : Option (List α) :=
  if 0 < b - a then assign buffer start (start + (b - a)) (between a b l) else some buffer

/-- One row of `preprocess_packed_seqs`, on a rank. -/
def packSeq (s : ParallelState) (cpRank : ℕ) (buffer d : List α) (seqlenPadded cuStart : ℕ) : Option (List α) :=
  if s.cpSize ≤ 1 then assign buffer cuStart (cuStart + d.length) d
  else do
    let halfSeqlen := seqlenPadded / s.cpSize / 2
    let startIdx := cuStart / s.cpSize
    let buffer ← putBetween buffer startIdx (halfSeqlen * cpRank) (min (halfSeqlen * (cpRank + 1)) d.length) d
    putBetween buffer (startIdx + halfSeqlen) (seqlenPadded - halfSeqlen * (cpRank + 1))
      (min (seqlenPadded - halfSeqlen * cpRank) d.length) d

def packSeqs (s : ParallelState) (cpRank : ℕ) : List (List α × ℕ × ℕ) → List α → Option (List α)
  | [], buffer => some buffer
  | (d, seqlenPadded, cuStart) :: rows, buffer => do
    let buffer ← packSeq s cpRank buffer d seqlenPadded cuStart
    packSeqs s cpRank rows buffer

/-- `preprocess_packed_seqs` on a rank, of a stage that embeds the tokens. -/
def preprocessPackedSeqs (s : ParallelState) (zero : α) (useFp8Padding : Bool) (cpRank : ℕ)
    (inputIds : List (List α)) (attentionMask : List (List Bool)) : Option (List α × PackedSeqParams) := do
  let l := layout s useFp8Padding (attentionMask.map (List.count true))
  let params ← l.params
  let rows := List.zipWith maskSelect inputIds attentionMask
  let buffer ← packSeqs s cpRank (rows.zip (l.seqlensPadded.zip l.cuSeqlensPadded))
    (List.replicate (l.seqlensPadded.sum / s.cpSize) zero)
  some (buffer, params)

/-- `row[mask] = values`: as many values as the mask has positions, or one for all. -/
def assignMask (row : List α) (mask : List Bool) (values : List α) : Option (List α) :=
  if values.length = (nonzero mask).length then some (indexPut row (nonzero mask) values)
  else match values with
    | [value] => some (indexPut row (nonzero mask) (List.replicate (nonzero mask).length value))
    | _ => none

/-- `postprocess_packed_seqs`, with the outputs of all ranks in the order of the ranks. The rows are put
together as nested ones are, in a buffer of the dtype of the outputs. -/
def postprocessPackedSeqs (s : ParallelState) (zero : β) (uninit : ℕ → β) (outputList : ℕ → List β)
    (params : PackedSeqParams) (attentionMask : List (List Bool)) (seqLen : ℕ) : Option (List (List β)) :=
  let cu := params.cuSeqlensQPadded
  (attentionMask.zip (cu.zip cu.tail)).mapM fun (mask, cuStart, cuStop) => do
    let values ← unpackRow s uninit id outputList (mask.count true) cuStart cuStop
    assignMask (List.replicate seqLen zero) mask values

/-! ## Rows of one length -/

/-- The length of the rows of `preprocess_bshd_engine`. -/
def bshdSeqlen (s : ParallelState) (useFp8Padding : Bool) (batchSize maxSeqlen : ℕ) : ℕ :=
  let maxSeqlen := if 1 < s.alignSize then maxSeqlen + padSize s.alignSize maxSeqlen else maxSeqlen
  if useFp8Padding then
    let fp8TotalAlign := 128 * s.tpSize * s.cpSize
    let fp8SeqAlign := Nat.lcm (fp8TotalAlign / Nat.gcd batchSize fp8TotalAlign) s.alignSize
    (maxSeqlen + fp8SeqAlign - 1) / fp8SeqAlign * fp8SeqAlign
  else maxSeqlen

/-- `seq_padded`: a shorter row gets zeros. -/
def padSeq (zero : α) (maxSeqlen : ℕ) (row : List α) : Option (List α) :=
  if row.length < maxSeqlen then assign (List.replicate maxSeqlen zero) 0 row.length row else some row

/-- `attention_mask[start : start + n] = True`, if `n > 0`. -/
def markValid (mask : List Bool) (start n : ℕ) : Option (List Bool) :=
  if 0 < n then assign mask start (start + n) [true] else some mask

/-- One row of `preprocess_bshd_engine` on a rank, with its mask. -/
def bshdRow (s : ParallelState) (zero : α) (cpRank maxSeqlen : ℕ) (row : List α) : Option (List α × List Bool) :=
  let localMaxSeqlen := if 1 < s.cpSize then maxSeqlen / s.cpSize else maxSeqlen
  let ids := List.replicate localMaxSeqlen zero
  let mask := List.replicate localMaxSeqlen false
  if s.cpSize ≤ 1 then do
    let mask ← assign mask 0 row.length [true]
    let ids ← assign ids 0 row.length row
    some (ids, mask)
  else do
    let seq ← padSeq zero maxSeqlen row
    let chunkLen := maxSeqlen / (2 * s.cpSize)
    let firstStart := cpRank * chunkLen
    let secondStart := (2 * s.cpSize - cpRank - 1) * chunkLen
    let localSeq := between firstStart (firstStart + chunkLen) seq ++ between secondStart (secondStart + chunkLen) seq
    let ids ← assign ids 0 localMaxSeqlen localSeq
    let validFirst := min (row.length - firstStart) chunkLen
    let validSecond := min (row.length - secondStart) chunkLen
    let mask ← markValid mask 0 validFirst
    let mask ← markValid mask chunkLen validSecond
    some (ids, mask)

/-- The position ids of `preprocess_bshd_engine`, the same for all rows. -/
def bshdPositions (s : ParallelState) (cpRank maxSeqlen : ℕ) : List ℕ :=
  if s.cpSize ≤ 1 then arange 0 maxSeqlen
  else
    let chunkLen := maxSeqlen / (2 * s.cpSize)
    arange (cpRank * chunkLen) ((cpRank + 1) * chunkLen) ++
      arange (maxSeqlen - (cpRank + 1) * chunkLen) (maxSeqlen - cpRank * chunkLen)

/-- What `preprocess_bshd_engine` returns. -/
structure BshdBatch (α : Type) where
  inputIds : List (List α)
  attentionMask : List (List Bool)
  positionIds : List (List ℕ)

/-- `preprocess_bshd_engine` on a rank, without a roll. -/
def preprocessBshdEngine (s : ParallelState) (zero : α) (useFp8Padding : Bool) (cpRank : ℕ) (rows : List (List α)) :
    Option (BshdBatch α) := do
  let maxSeqlen ← (rows.map List.length).max?
  let maxSeqlen := bshdSeqlen s useFp8Padding rows.length maxSeqlen
  let batch ← rows.mapM (bshdRow s zero cpRank maxSeqlen)
  some ⟨batch.map Prod.fst, batch.map Prod.snd, List.replicate rows.length (bshdPositions s cpRank maxSeqlen)⟩

/-- One row of `postprocess_bshd_engine`, on a rank. -/
def unpackBshdRow (s : ParallelState) (uninit : ℕ → β) (cpRank : ℕ) (outputs : ℕ → List β) (masks : ℕ → List Bool) :
    Option (List β) :=
  if s.cpSize ≤ 1 then some (maskSelect (outputs cpRank) (masks cpRank))
  else
    let localSeqlen := (outputs cpRank).length
    if localSeqlen % 2 ≠ 0 then none
    else do
      let halfSeqlen := localSeqlen / 2
      let fullSeqlen := localSeqlen * s.cpSize
      let tmp ← mergeEnds fullSeqlen halfSeqlen (fun j => (outputs j).take halfSeqlen)
        (fun j => (outputs j).drop halfSeqlen) s.cpSize ((List.range fullSeqlen).map uninit)
      let fullMask ← mergeEnds fullSeqlen halfSeqlen (fun j => (masks j).take halfSeqlen)
        (fun j => (masks j).drop halfSeqlen) s.cpSize (List.replicate fullSeqlen false)
      some (maskSelect tmp fullMask)

/-- `postprocess_bshd_engine` on a rank, with the outputs and the masks of all ranks. -/
def postprocessBshdEngine (s : ParallelState) (uninit : ℕ → β) (cpRank : ℕ) (outputList : ℕ → List (List β))
    (maskList : ℕ → List (List Bool)) : Option (List (List β)) :=
  if (outputList cpRank).map List.length ≠ (maskList cpRank).map List.length then none
  else (List.range (outputList cpRank).length).mapM fun i =>
    unpackBshdRow s uninit cpRank (fun j => ((outputList j)[i]?).getD []) fun j => ((maskList j)[i]?).getD []

/-! ## Masked rows come back -/

section Masked

variable {s : ParallelState} {zero : α} {useFp8Padding : Bool} {rank : ℕ} {rows : List (List α)} {spans : List ℕ}
  {inputIds : List (List α)} {attentionMask : List (List Bool)} {seqLen : ℕ}

theorem putBetween_eq {before after l : List α} {value : α} {start n a b : ℕ} (hstart : before.length = start)
    (hb : b ≤ l.length) (hn : b - a ≤ n) :
    putBetween (before ++ (List.replicate n value ++ after)) start a b l =
      some (before ++ (between a b l ++ List.replicate (n - (b - a)) value ++ after)) := by
  unfold putBetween
  by_cases h : 0 < b - a
  · rw [if_pos h, assign_between hstart hb hn (by omega)]
  · rw [if_neg h, between_eq_nil (by omega), show b - a = 0 by omega, Nat.sub_zero, List.nil_append]

/-- **Every row** fills its slots. -/
theorem packSeq_eq {d ids rest : List α} {span cuStart : ℕ} (hspan : IsSpan s d.length span) (hrank : rank < s.cpSize)
    (hids : cuStart = s.cpSize * ids.length) (zero : α) :
    ∃ part, packSeq s rank (ids ++ (List.replicate (span / s.cpSize) zero ++ rest)) d span cuStart =
        some (ids ++ (part ++ rest)) ∧ Holds (s.position span rank) (span / s.cpSize) d part := by
  have hstart : cuStart / s.cpSize = ids.length := by rw [hids, Nat.mul_div_cancel_left _ s.cpSize_pos]
  obtain ⟨hone, hsize, hposition⟩ | ⟨hcp, half, rfl, hchunk, hhalf, -, hposition⟩ := hspan.cases
  · rw [hone, Nat.div_one] at hstart
    rw [packSeq, if_pos (Nat.le_of_eq hone), hsize, hposition]
    exact ⟨_, assign_front hstart.symm hspan.le, holds_front hspan.le zero⟩
  · rw [hchunk, hposition]
    have hsucc : half * (rank + 1) = half * rank + half := Nat.mul_succ half rank
    have hcomm : rank * half = half * rank := Nat.mul_comm rank half
    have hslots : List.replicate (2 * half) zero ++ rest =
        List.replicate half zero ++ (List.replicate half zero ++ rest) := by
      rw [← List.append_assoc, List.replicate_append_replicate, Nat.two_mul]
    generalize hfirstEnd : min (half * (rank + 1)) d.length = firstEnd
    generalize hremainEnd : min (2 * s.cpSize * half - half * rank) d.length = remainEnd
    generalize hfirst : between (half * rank) firstEnd d ++ List.replicate (half - (firstEnd - half * rank)) zero = first
    have hfirstLength : first.length = half := by
      rw [← hfirst, List.length_append, List.length_replicate, length_between]
      omega
    have hput := @putBetween_eq _ ids (List.replicate half zero ++ rest) d zero ids.length half (half * rank) firstEnd rfl
      (by omega) (by omega)
    have hputSecond := @putBetween_eq _ (ids ++ first) rest d zero (ids.length + half) half
      (2 * s.cpSize * half - half * (rank + 1)) remainEnd (by rw [List.length_append, hfirstLength]) (by omega) (by omega)
    rw [hfirst] at hput
    rw [List.append_assoc] at hputSecond
    have hheld := @holds_chunks α s rank d d half remainEnd first hrank (fun _ _ => rfl) hfirstLength
      (fun k hk hlt => by
        rw [← hfirst, List.getElem?_append_left (by rw [length_between]; omega), getElem?_between (by omega), hcomm])
      (by omega) (by omega) (by omega) zero
    refine ⟨_, ?_, hheld⟩
    rw [packSeq, if_neg (by omega)]
    simp only [hhalf, hstart, hslots, hfirstEnd, hremainEnd, hput, hputSecond, Option.bind_eq_bind, Option.bind_some,
      List.append_assoc]

theorem packSeqs_eq (hspans : List.Forall₂ (fun row span => IsSpan s (List.length row) span) rows spans)
    (hrank : rank < s.cpSize) (zero : α) {start : ℕ} {ids : List α} (hids : start = s.cpSize * ids.length) :
    ∃ ids', packSeqs s rank (rows.zip (spans.zip (start :: cumsum start spans)))
        (ids ++ List.replicate (slots s spans) zero) = some (ids ++ ids') ∧
      List.Forall₂ (fun row p => Held s rank row p.1 p.2 (ids ++ ids')) rows
        ((start :: cumsum start spans).zip (cumsum start spans)) := by
  induction hspans generalizing start ids with
  | nil => exact ⟨_, rfl, List.Forall₂.nil⟩
  | @cons row span rows spans hspan _ ih =>
    obtain ⟨part, hrow, hpart⟩ := @packSeq_eq _ s rank row ids (List.replicate (slots s spans) zero) span start hspan hrank
      hids zero
    have hnext : start + span = s.cpSize * (ids ++ part).length := by
      rw [List.length_append, hpart.length_eq, Nat.mul_add, Nat.mul_div_cancel' hspan.cpSize_dvd, hids]
    obtain ⟨ids', hrest, hheld⟩ := ih hnext
    rw [List.append_assoc, List.append_assoc] at hrest
    rw [List.append_assoc] at hheld
    refine ⟨part ++ ids', ?_, ?_⟩
    · rw [replicate_slots, cumsum, List.zip_cons_cons, List.zip_cons_cons, packSeqs, hrow, Option.bind_eq_bind,
        Option.bind_some, hrest]
    · rw [cumsum, List.zip_cons_cons]
      exact List.Forall₂.cons (held_of_holds hids hpart) hheld

structure IsMasked (inputIds : List (List α)) (attentionMask : List (List Bool)) (seqLen : ℕ) : Prop where
  rows : List.Forall₂ (fun row mask => List.length row = List.length mask) inputIds attentionMask
  width : ∀ mask ∈ attentionMask, mask.length = seqLen

theorem IsMasked.length_rows (h : IsMasked inputIds attentionMask seqLen) :
    (List.zipWith maskSelect inputIds attentionMask).map List.length = attentionMask.map (List.count true) := by
  have hrows := h.rows
  clear h
  induction hrows with
  | nil => rfl
  | cons hrow _ ih => rw [List.zipWith_cons_cons, List.map_cons, List.map_cons, ih, length_maskSelect hrow]

theorem IsMasked.rows_ne_nil (h : IsMasked inputIds attentionMask seqLen) (hne : attentionMask ≠ []) :
    List.zipWith maskSelect inputIds attentionMask ≠ [] := by
  have hlength := congrArg List.length h.length_rows
  rw [List.length_map, List.length_map] at hlength
  intro hnil
  rw [hnil, List.length_nil] at hlength
  exact hne (List.length_eq_zero_iff.1 hlength.symm)

theorem assignMask_eq {row : List α} {mask : List Bool} (hrow : row.length = mask.length) (f : α → β) (b : β) :
    assignMask (List.replicate mask.length b) mask ((maskSelect row mask).map f) =
      some (List.zipWith (fun a m => if m then f a else b) row mask) := by
  unfold assignMask
  rw [if_pos (by rw [List.length_map, length_nonzero, length_maskSelect hrow]), indexPut_maskSelect hrow]

/-- **Packing masked rows is transparent** for a function of each token: all ranks pack, each has its slots of
the real tokens, and the outputs of the ranks give those of the real tokens at their positions. -/
def PackedTransparent (s : ParallelState) (zero : α) (useFp8Padding : Bool) (zeroOut : β) (uninit : ℕ → β) (f : α → β)
    (inputIds : List (List α)) (attentionMask : List (List Bool)) (seqLen : ℕ) : Prop :=
  ∃ out : ℕ → List α × PackedSeqParams,
    (∀ r < s.cpSize, preprocessPackedSeqs s zero useFp8Padding r inputIds attentionMask = some (out r)) ∧
    (∀ r < s.cpSize, List.Forall₂ (fun row p => Held s r row p.1 p.2 (out r).1)
      (List.zipWith maskSelect inputIds attentionMask) (out r).2.spans) ∧
    ∀ r < s.cpSize, postprocessPackedSeqs s zeroOut uninit (fun j => (out j).1.map f) (out r).2 attentionMask seqLen =
      some (List.zipWith (List.zipWith fun a m => if m then f a else zeroOut) inputIds attentionMask)

theorem packedSeqs_transparent (h : IsMasked inputIds attentionMask seqLen) (hne : attentionMask ≠ [])
    (zeroOut : β) (uninit : ℕ → β) (f : α → β) :
    PackedTransparent s zero useFp8Padding zeroOut uninit f inputIds attentionMask seqLen := by
  have hrows := h.rows_ne_nil hne
  have hspans := isSpan_layout s useFp8Padding hrows
  obtain ⟨params, hparams, hcuParams⟩ := params_some s useFp8Padding hrows
  have hcu := (layout_spec s useFp8Padding (by rwa [ne_eq, List.map_eq_nil_iff] :
    (List.zipWith maskSelect inputIds attentionMask).map List.length ≠ [])).1
  have hpairs := isSpan_spans hrows hparams.symm
  rw [h.length_rows] at hspans hparams hcu hcuParams
  have hrun : ∀ r, ∃ ids : List α, r < s.cpSize →
      preprocessPackedSeqs s zero useFp8Padding r inputIds attentionMask = some (ids, params) ∧
        List.Forall₂ (fun row p => Held s r row p.1 p.2 ids) (List.zipWith maskSelect inputIds attentionMask)
          params.spans := by
    intro r
    by_cases hr : r < s.cpSize
    · obtain ⟨ids, hids, hheld⟩ := @packSeqs_eq _ s r _ _ hspans hr zero 0 [] (Nat.mul_zero _).symm
      rw [List.nil_append] at hids hheld
      refine ⟨ids, fun _ => ⟨?_, ?_⟩⟩
      · unfold preprocessPackedSeqs
        simp only [hparams, hcu, sum_div_cpSize hspans, Option.bind_eq_bind, Option.bind_some]
        rw [hids, List.nil_append, Option.bind_some]
      · rw [PackedSeqParams.spans, hcuParams, List.tail_cons]
        exact hheld
    · exact ⟨[], fun hr' => absurd hr' hr⟩
  obtain ⟨ids, hids⟩ := Classical.axiomOfChoice hrun
  refine ⟨fun r => (ids r, params), fun r hr => (hids r hr).1, fun r hr => (hids r hr).2, fun r hr => ?_⟩
  unfold postprocessPackedSeqs
  simp only
  rw [mapM_eq_some_iff, ← PackedSeqParams.spans]
  have hheld := fun j hj => (hids j hj).2
  have hmasked := h.rows
  have hwidth := h.width
  generalize params.spans = pairs at hpairs hheld
  clear hids hrun hcu hcuParams hparams hspans hrows hne h
  induction hmasked generalizing pairs with
  | nil => exact List.Forall₂.nil
  | @cons row mask inputIds attentionMask hrow _ ih =>
    rw [List.zipWith_cons_cons] at hpairs hheld
    cases hpairs with
    | @cons _ p _ pairs hspan hpairs =>
      simp only [List.forall₂_cons] at hheld
      rw [List.zip_cons_cons, List.zipWith_cons_cons]
      refine List.Forall₂.cons ?_ (ih (fun m hm => hwidth m (List.mem_cons_of_mem _ hm)) pairs hpairs
        fun j hj => (hheld j hj).2)
      have hvalues := @unpackRow_eq β s ((maskSelect row mask).map f) p.1 p.2 (fun j => (ids j).map f) uninit id
        (by rw [List.length_map]; exact hspan) fun j hj => (hheld j hj).1.map f
      rw [List.length_map, length_maskSelect hrow, List.map_id, ite_self] at hvalues
      simp only [hvalues, Option.bind_eq_bind, Option.bind_some]
      rw [← hwidth mask List.mem_cons_self, assignMask_eq hrow]

end Masked

/-! ## Rows of one length come back -/

section Bshd

variable {s : ParallelState} {zero : α} {useFp8Padding : Bool} {rank maxSeqlen : ℕ} {rows : List (List α)}

theorem isSpan_bshdSeqlen (s : ParallelState) (useFp8Padding : Bool) (batchSize n : ℕ) :
    IsSpan s n (bshdSeqlen s useFp8Padding batchSize n) := by
  have hpos := s.alignSize_pos
  have hpadded : n ≤ (if 1 < s.alignSize then n + padSize s.alignSize n else n) ∧
      s.alignSize ∣ (if 1 < s.alignSize then n + padSize s.alignSize n else n) := by
    by_cases hone : 1 < s.alignSize
    · rw [if_pos hone]
      exact ⟨Nat.le_add_right _ _, dvd_add_padSize hpos n⟩
    · rw [if_neg hone, show s.alignSize = 1 by omega]
      exact ⟨Nat.le_refl _, Nat.one_dvd _⟩
  unfold bshdSeqlen
  generalize (if 1 < s.alignSize then n + padSize s.alignSize n else n) = padded at hpadded
  simp only
  cases useFp8Padding with
  | false => exact ⟨hpadded.1, fun hcp => Nat.dvd_trans (ParallelState.chunks_dvd_alignSize hcp) hpadded.2⟩
  | true =>
    rw [if_pos rfl]
    have htotal : 0 < 128 * s.tpSize * s.cpSize := Nat.mul_pos (Nat.mul_pos (by omega) s.tpSize_pos) s.cpSize_pos
    have hgcd := Nat.div_pos (Nat.le_of_dvd htotal (Nat.gcd_dvd_right batchSize (128 * s.tpSize * s.cpSize)))
      (Nat.gcd_pos_of_pos_right batchSize htotal)
    have hlcm := Nat.lcm_pos hgcd hpos
    have hdvd := Nat.dvd_lcm_right (128 * s.tpSize * s.cpSize / Nat.gcd batchSize (128 * s.tpSize * s.cpSize)) s.alignSize
    generalize Nat.lcm (128 * s.tpSize * s.cpSize / Nat.gcd batchSize (128 * s.tpSize * s.cpSize)) s.alignSize = align
      at hlcm hdvd
    constructor
    · have hmod := Nat.mod_lt (padded + align - 1) hlcm
      have hdiv := Nat.div_add_mod (padded + align - 1) align
      rw [Nat.mul_comm] at hdiv
      have hle := hpadded.1
      omega
    · intro hcp
      exact Nat.dvd_trans (Nat.dvd_trans (ParallelState.chunks_dvd_alignSize hcp) hdvd) (Nat.dvd_mul_left _ _)

def valid (n maxSeqlen : ℕ) : List Bool := List.replicate n true ++ List.replicate (maxSeqlen - n) false

theorem length_valid {n : ℕ} (h : n ≤ maxSeqlen) : (valid n maxSeqlen).length = maxSeqlen := by
  rw [valid, List.length_append, List.length_replicate, List.length_replicate]
  omega

theorem getElem?_valid {n k : ℕ} (h : k < maxSeqlen) : (valid n maxSeqlen)[k]? = some (decide (k < n)) := by
  unfold valid
  by_cases hk : k < n
  · rw [List.getElem?_append_left (by rw [List.length_replicate]; exact hk), List.getElem?_replicate, if_pos hk,
      decide_eq_true hk]
  · rw [List.getElem?_append_right (by rw [List.length_replicate]; omega), List.length_replicate,
      List.getElem?_replicate, if_pos (by omega), decide_eq_false hk]

theorem maskSelect_valid {l : List β} {n : ℕ} (h : n ≤ l.length) : maskSelect l (valid n maxSeqlen) = l.take n := by
  have hsplit := List.take_append_drop n l
  conv_lhs => rw [← hsplit]
  have hlength : (l.take n).length = n := List.length_take_of_le h
  rw [valid, maskSelect_append (by rw [hlength, List.length_replicate]), maskSelect_true hlength, maskSelect_false,
    List.append_nil]

theorem markValid_eq {before after : List Bool} {start n k : ℕ} (hstart : before.length = start) (hk : k ≤ n) :
    markValid (before ++ (List.replicate n false ++ after)) start k = some (before ++ (valid k n ++ after)) := by
  unfold markValid
  have hsplit : List.replicate n false = List.replicate k false ++ List.replicate (n - k) false := by
    rw [List.replicate_append_replicate, Nat.add_sub_cancel' hk]
  by_cases hzero : 0 < k
  · rw [if_pos hzero, hsplit, List.append_assoc, assign_value hstart (by rw [List.length_replicate]),
      List.length_replicate, valid, List.append_assoc]
  · rw [if_neg hzero, valid, show k = 0 by omega, Nat.sub_zero, List.replicate_zero, List.nil_append]

theorem padSeq_eq {row : List α} (hle : row.length ≤ maxSeqlen) (zero : α) :
    padSeq zero maxSeqlen row = some (row ++ List.replicate (maxSeqlen - row.length) zero) := by
  unfold padSeq
  by_cases hshort : row.length < maxSeqlen
  · have hput := @assign_front _ [] [] row 0 maxSeqlen zero rfl hle
    rw [List.nil_append, List.append_nil, Nat.zero_add, List.nil_append, List.append_nil] at hput
    rw [if_pos hshort, hput]
  · rw [if_neg hshort, show maxSeqlen - row.length = 0 by omega, List.replicate_zero, List.append_nil]

theorem padSeq_some {row : List α} (hle : row.length ≤ maxSeqlen) (zero : α) :
    ∃ seq, padSeq zero maxSeqlen row = some seq ∧ seq.length = maxSeqlen ∧ ∀ i < row.length, seq[i]? = row[i]? := by
  refine ⟨_, padSeq_eq hle zero, ?_, fun i hi => List.getElem?_append_left hi⟩
  rw [List.length_append, List.length_replicate]
  omega

/-- **Each row** fills its slots, and the mask says which are real. -/
theorem bshdRow_eq {row : List α} (hspan : IsSpan s row.length maxSeqlen) (hrank : rank < s.cpSize) (zero : α) :
    ∃ out, bshdRow s zero rank maxSeqlen row = some out ∧
      Holds (s.position maxSeqlen rank) (maxSeqlen / s.cpSize) row out.1 ∧
      Holds (s.position maxSeqlen rank) (maxSeqlen / s.cpSize) (valid row.length maxSeqlen) out.2 := by
  have hle := hspan.le
  obtain ⟨hone, hsize, hposition⟩ | ⟨hcp, half, rfl, hchunk, -, hchunkLen, hposition⟩ := hspan.cases
  · have hput := @assign_front _ [] [] row 0 maxSeqlen zero rfl hle
    have hmask := @assign_value _ [] (List.replicate row.length false) (List.replicate (maxSeqlen - row.length) false)
      0 row.length rfl (by rw [List.length_replicate, Nat.zero_add]) true
    rw [List.nil_append, List.append_nil, Nat.zero_add] at hput
    rw [List.nil_append, List.replicate_append_replicate, Nat.add_sub_cancel' hle, List.length_replicate,
      List.nil_append] at hmask
    rw [hposition, hsize]
    refine ⟨(row ++ List.replicate (maxSeqlen - row.length) zero, valid row.length maxSeqlen), ?_,
      holds_front hle zero, length_valid hle, fun _ _ _ => rfl⟩
    unfold bshdRow
    simp only [if_pos (by omega : s.cpSize ≤ 1), if_neg (by omega : ¬ 1 < s.cpSize), hput, hmask, Option.bind_eq_bind,
      Option.bind_some, List.nil_append, List.append_nil, valid]
  · rw [hchunk, hposition]
    obtain ⟨seq, hseq, hseqLength, hentries⟩ := padSeq_some hle zero
    -- the ends of the two chunks
    have hfirstEnd : rank * half + half ≤ 2 * s.cpSize * half := by
      rw [← Nat.succ_mul]
      exact Nat.mul_le_mul_right _ (by omega)
    have hsecondEnd : (2 * s.cpSize - rank - 1) * half + half ≤ 2 * s.cpSize * half := by
      rw [← Nat.succ_mul]
      exact Nat.mul_le_mul_right _ (by omega)
    have hsecondStart : 2 * s.cpSize - 1 - rank = 2 * s.cpSize - rank - 1 := by omega
    generalize hfirst : rank * half = first at hfirstEnd
    generalize hsecond : (2 * s.cpSize - rank - 1) * half = second at hsecondEnd
    have hfirstLength : (between first (first + half) seq).length = half := by
      rw [length_between]
      omega
    have hsecondLength : (between second (second + half) seq).length = half := by
      rw [length_between]
      omega
    have hput := @assign_middle _ [] (List.replicate (2 * half) zero) []
      (between first (first + half) seq ++ between second (second + half) seq) 0 (2 * half) rfl
      (by rw [List.length_replicate, Nat.zero_add])
      (by rw [List.length_append, hfirstLength, hsecondLength, List.length_replicate, Nat.two_mul])
    rw [List.nil_append, List.append_nil, List.nil_append, List.append_nil] at hput
    have hmaskFirst := @markValid_eq [] (List.replicate half false) 0 half (min (row.length - first) half) rfl (by omega)
    have hmaskSecond := @markValid_eq (valid (min (row.length - first) half) half) [] half half
      (min (row.length - second) half) (length_valid (by omega)) (by omega)
    rw [List.nil_append, List.replicate_append_replicate, ← Nat.two_mul, List.nil_append] at hmaskFirst
    rw [List.append_nil, List.append_nil] at hmaskSecond
    refine ⟨(between first (first + half) seq ++ between second (second + half) seq,
      valid (min (row.length - first) half) half ++ valid (min (row.length - second) half) half), ?_, ?_, ?_⟩
    · unfold bshdRow
      simp only [if_neg (by omega : ¬ s.cpSize ≤ 1), if_pos hcp, hchunkLen, hchunk, hseq, hfirst, hsecond, hput, hmaskFirst,
        hmaskSecond, Option.bind_eq_bind, Option.bind_some]
    · refine Holds.of_chunks hfirstLength hsecondLength (fun k hk hlt => ?_) fun k hk hlt => ?_
      · rw [hfirst] at hlt ⊢
        rw [getElem?_between (by omega), hentries _ hlt]
      · rw [hsecondStart, hsecond] at hlt ⊢
        rw [getElem?_between (by omega), hentries _ hlt]
    · refine Holds.of_chunks (length_valid (by omega)) (length_valid (by omega)) (fun k hk hlt => ?_)
        fun k hk hlt => ?_
      · rw [hfirst, getElem?_valid hk, getElem?_valid (by omega)]
        congr 2
        rw [eq_iff_iff]
        omega
      · rw [hsecondStart, hsecond, getElem?_valid hk, getElem?_valid (by omega)]
        congr 2
        rw [eq_iff_iff]
        omega

theorem length_arange (start stop : ℕ) : (arange start stop).length = stop - start := List.length_range'

theorem bshdPositions_holds (hdvd : 1 < s.cpSize → 2 * s.cpSize ∣ maxSeqlen) (hrank : rank < s.cpSize) :
    Holds (s.position maxSeqlen rank) (maxSeqlen / s.cpSize) (List.range maxSeqlen) (bshdPositions s rank maxSeqlen) := by
  unfold bshdPositions
  obtain ⟨hone, hsize, hposition⟩ | ⟨hcp, half, rfl, hchunk, -, hchunkLen, hposition⟩ :=
    (⟨Nat.zero_le _, hdvd⟩ : IsSpan s 0 maxSeqlen).cases
  · rw [hposition, if_pos (Nat.le_of_eq hone), hsize, arange, Nat.sub_zero, ← List.range_eq_range']
    exact ⟨List.length_range, fun _ _ _ => rfl⟩
  · rw [hposition, if_neg (by omega), hchunk]
    simp only [hchunkLen]
    have hle : (rank + 1) * half ≤ 2 * s.cpSize * half := Nat.mul_le_mul_right _ (by omega)
    have hsecondStart : (2 * s.cpSize - 1 - rank) * half = 2 * s.cpSize * half - (rank + 1) * half := by
      rw [← Nat.sub_mul]
      congr 1
      omega
    have hsucc : (rank + 1) * half = rank * half + half := Nat.succ_mul rank half
    have hentry : ∀ {start stop k : ℕ}, k < stop - start → start + k < (List.range (2 * s.cpSize * half)).length →
        (arange start stop)[k]? = (List.range (2 * s.cpSize * half))[start + k]? := by
      intro start stop k hk hlt
      rw [List.length_range] at hlt
      rw [arange, List.getElem?_range' hk, List.getElem?_range hlt, Nat.one_mul]
    refine Holds.of_chunks (by rw [length_arange]; omega) (by rw [length_arange]; omega)
      (fun k hk hlt => hentry (by omega) hlt) fun k hk hlt => ?_
    rw [hsecondStart] at hlt ⊢
    exact hentry (by omega) hlt

/-- **A row that all ranks hold**, with its mask, comes back. -/
theorem unpackBshdRow_eq {row : List β} {outputs : ℕ → List β} {masks : ℕ → List Bool} (uninit : ℕ → β)
    (hspan : IsSpan s row.length maxSeqlen) (hrank : rank < s.cpSize)
    (houtputs : ∀ j < s.cpSize, Holds (s.position maxSeqlen j) (maxSeqlen / s.cpSize) row (outputs j))
    (hmasks : ∀ j < s.cpSize, Holds (s.position maxSeqlen j) (maxSeqlen / s.cpSize) (valid row.length maxSeqlen) (masks j)) :
    unpackBshdRow s uninit rank outputs masks = some row := by
  have hle := hspan.le
  have hlength := length_valid hle
  unfold unpackBshdRow
  obtain ⟨hone, hsize, hposition⟩ | ⟨hcp, half, rfl, hchunk, -, -, hposition⟩ := hspan.cases
  · have houtput := houtputs rank hrank
    have hmask := hmasks rank hrank
    rw [hposition, hsize] at houtput hmask
    have htake := hmask.take_eq (Nat.le_of_eq hlength)
    rw [hlength, List.take_of_length_le (Nat.le_of_eq hmask.length_eq)] at htake
    rw [if_pos (Nat.le_of_eq hone), htake, maskSelect_valid (by rw [houtput.length_eq]; exact hle), houtput.take_eq hle]
  · simp only [hchunk, hposition] at houtputs hmasks
    have hsize : 2 * half * s.cpSize = 2 * s.cpSize * half := by
      rw [Nat.mul_assoc, Nat.mul_comm half, Nat.mul_assoc]
    obtain ⟨tmp, hmerge, htmp, htake⟩ := mergeEnds_halves houtputs hle
      (by rw [List.length_map, List.length_range] : ((List.range (2 * s.cpSize * half)).map uninit).length = _)
    obtain ⟨fullMask, hmergeMasks, hfullMask, htakeMasks⟩ := mergeEnds_halves hmasks (Nat.le_of_eq hlength)
      (@List.length_replicate _ (2 * s.cpSize * half) false)
    rw [hlength, List.take_of_length_le (Nat.le_of_eq hfullMask)] at htakeMasks
    rw [if_neg (by omega)]
    simp only [(houtputs rank hrank).length_eq, Nat.mul_mod_right, ne_eq, not_true_eq_false, if_false,
      Nat.mul_div_cancel_left half Nat.zero_lt_two, hsize, hmerge, hmergeMasks, htakeMasks, Option.bind_eq_bind,
      Option.bind_some]
    rw [maskSelect_valid (by rw [htmp]; exact hle), htake]

/-- **Padding rows to one length is transparent** for a function of each token: all ranks do it, the masks and
the position ids are the validity and the positions of the slots, and the outputs of the ranks give those of
the rows. -/
def BshdTransparent (s : ParallelState) (zero : α) (useFp8Padding : Bool) (uninit : ℕ → β) (f : α → β)
    (rows : List (List α)) : Prop :=
  ∃ (out : ℕ → BshdBatch α) (maxSeqlen : ℕ),
    (∀ row ∈ rows, row.length ≤ maxSeqlen) ∧
    (∀ r < s.cpSize, preprocessBshdEngine s zero useFp8Padding r rows = some (out r)) ∧
    (∀ r < s.cpSize,
      List.Forall₂ (Holds (s.position maxSeqlen r) (maxSeqlen / s.cpSize)) rows (out r).inputIds ∧
      List.Forall₂ (fun row mask => Holds (s.position maxSeqlen r) (maxSeqlen / s.cpSize)
        (valid (List.length row) maxSeqlen) mask) rows (out r).attentionMask ∧
      List.Forall₂ (fun _ positions => Holds (s.position maxSeqlen r) (maxSeqlen / s.cpSize)
        (List.range maxSeqlen) positions) rows (out r).positionIds) ∧
    ∀ r < s.cpSize, postprocessBshdEngine s uninit r (fun j => (out j).inputIds.map (List.map f))
      (fun j => (out j).attentionMask) = some (rows.map (List.map f))

theorem preprocessBshdEngine_eq (s : ParallelState) (useFp8Padding : Bool) (hne : rows ≠ []) (zero : α) :
    ∃ maxSeqlen, (∀ row ∈ rows, IsSpan s row.length maxSeqlen) ∧
      ∀ rank < s.cpSize, ∃ out, preprocessBshdEngine s zero useFp8Padding rank rows = some out ∧
        List.Forall₂ (Holds (s.position maxSeqlen rank) (maxSeqlen / s.cpSize)) rows out.inputIds ∧
        List.Forall₂ (fun row mask => Holds (s.position maxSeqlen rank) (maxSeqlen / s.cpSize)
          (valid (List.length row) maxSeqlen) mask) rows out.attentionMask ∧
        List.Forall₂ (fun _ positions => Holds (s.position maxSeqlen rank) (maxSeqlen / s.cpSize)
          (List.range maxSeqlen) positions) rows out.positionIds := by
  obtain ⟨longest, hlongest⟩ := exists_longest hne
  have hspan := isSpan_bshdSeqlen s useFp8Padding rows.length longest
  have hspans : ∀ row ∈ rows, IsSpan s row.length (bshdSeqlen s useFp8Padding rows.length longest) := by
    intro row hrow
    have hle := (List.max?_eq_some_iff.1 hlongest).2 row.length (List.mem_map_of_mem hrow)
    exact ⟨Nat.le_trans hle hspan.le, hspan.dvd⟩
  refine ⟨bshdSeqlen s useFp8Padding rows.length longest, hspans, fun rank hrank => ?_⟩
  unfold preprocessBshdEngine
  simp only [hlongest, Option.bind_eq_bind, Option.bind_some]
  have hpositions := bshdPositions_holds hspan.dvd hrank
  generalize bshdSeqlen s useFp8Padding rows.length longest = maxSeqlen at hspans hpositions
  have hall : ∃ batch, rows.mapM (bshdRow s zero rank maxSeqlen) = some batch ∧
      List.Forall₂ (fun row out => Holds (s.position maxSeqlen rank) (maxSeqlen / s.cpSize) row (Prod.fst out) ∧
        Holds (s.position maxSeqlen rank) (maxSeqlen / s.cpSize) (valid (List.length row) maxSeqlen) out.2) rows batch := by
    simp only [mapM_eq_some_iff]
    clear hne hlongest hspan
    induction rows with
    | nil => exact ⟨[], List.Forall₂.nil, List.Forall₂.nil⟩
    | cons row rows ih =>
      obtain ⟨out, hout, hheld⟩ := bshdRow_eq (hspans row List.mem_cons_self) hrank zero
      obtain ⟨batch, hbatch, hrest⟩ := ih fun r hr => hspans r (List.mem_cons_of_mem _ hr)
      exact ⟨out :: batch, List.Forall₂.cons hout hbatch, List.Forall₂.cons hheld hrest⟩
  obtain ⟨batch, hbatch, hheld⟩ := hall
  refine ⟨_, by rw [hbatch, Option.bind_some], ?_, ?_, ?_⟩
  · rw [List.forall₂_map_right_iff]
    exact hheld.imp fun _ _ h => h.1
  · rw [List.forall₂_map_right_iff]
    exact hheld.imp fun _ _ h => h.2
  · refine List.forall₂_iff_get.2 ⟨List.length_replicate.symm, fun i hi hi' => ?_⟩
    simp only [List.get_eq_getElem, List.getElem_replicate]
    exact hpositions

theorem bshd_transparent (s : ParallelState) (useFp8Padding : Bool) (hne : rows ≠ []) (zero : α) (uninit : ℕ → β)
    (f : α → β) : BshdTransparent s zero useFp8Padding uninit f rows := by
  obtain ⟨maxSeqlen, hspans, hrun⟩ := preprocessBshdEngine_eq s useFp8Padding hne zero
  have hsome : ∀ r, ∃ out : BshdBatch α, r < s.cpSize → preprocessBshdEngine s zero useFp8Padding r rows = some out ∧
      List.Forall₂ (Holds (s.position maxSeqlen r) (maxSeqlen / s.cpSize)) rows out.inputIds ∧
      List.Forall₂ (fun row mask => Holds (s.position maxSeqlen r) (maxSeqlen / s.cpSize)
        (valid (List.length row) maxSeqlen) mask) rows out.attentionMask ∧
      List.Forall₂ (fun _ positions => Holds (s.position maxSeqlen r) (maxSeqlen / s.cpSize)
        (List.range maxSeqlen) positions) rows out.positionIds := by
    intro r
    by_cases hr : r < s.cpSize
    · obtain ⟨out, hout⟩ := hrun r hr
      exact ⟨out, fun _ => hout⟩
    · exact ⟨⟨[], [], []⟩, fun hr' => absurd hr' hr⟩
  obtain ⟨out, hout⟩ := Classical.axiomOfChoice hsome
  refine ⟨out, maxSeqlen, fun row hrow => (hspans row hrow).le, fun r hr => (hout r hr).1, fun r hr => (hout r hr).2,
    fun r hr => ?_⟩
  obtain ⟨-, hids, hmasks, -⟩ := hout r hr
  have hlengths : ((out r).inputIds.map (List.map f)).map List.length = (out r).attentionMask.map List.length := by
    have hleft : (out r).inputIds.map List.length = rows.map fun _ => maxSeqlen / s.cpSize := by
      rw [← List.forall₂_eq_eq_eq, List.forall₂_map_left_iff, List.forall₂_map_right_iff]
      exact hids.flip.imp fun _ _ h => h.length_eq
    have hright : (out r).attentionMask.map List.length = rows.map fun _ => maxSeqlen / s.cpSize := by
      rw [← List.forall₂_eq_eq_eq, List.forall₂_map_left_iff, List.forall₂_map_right_iff]
      exact hmasks.flip.imp fun _ _ h => h.length_eq
    have hmap : List.length ∘ List.map f = List.length := funext fun l => List.length_map f
    rw [List.map_map, hmap, hleft, hright]
  unfold postprocessBshdEngine
  rw [if_neg (by rw [ne_eq, not_not]; exact hlengths), mapM_eq_some_iff, List.length_map, ← hids.length_eq]
  refine List.forall₂_iff_get.2 ⟨by rw [List.length_range, List.length_map], fun i hi hi' => ?_⟩
  rw [List.length_range] at hi
  have hrow : rows[i]? = some rows[i] := List.getElem?_eq_getElem hi
  simp only [List.get_eq_getElem, List.getElem_range, List.getElem_map, List.getElem?_map]
  refine unpackBshdRow_eq uninit (by rw [List.length_map]; exact hspans _ (List.getElem_mem hi)) hr (fun j hj => ?_)
    fun j hj => ?_
  · obtain ⟨ids, hget, hheld⟩ := getElem?_of_forall₂ (hout j hj).2.1 hrow
    rw [hget, Option.map_some, Option.getD_some]
    exact hheld.map f
  · obtain ⟨mask, hget, hheld⟩ := getElem?_of_forall₂ (hout j hj).2.2.1 hrow
    rw [hget, Option.getD_some, List.length_map]
    exact hheld

end Bshd

/-! ## Main theorem -/

/-- **Packing is transparent** for rows, nested, masked in any batch of rows of one length, or padded. -/
def Transparent (s : ParallelState) (zero : α) (dims : List ℕ) (useFp8Padding : Bool) (zeroOut : β) (uninit : ℕ → β)
    (cast : β → β) (f : α → β) (rows : List (List α)) : Prop :=
  ThdTransparent s zero dims useFp8Padding uninit cast f rows ∧
    (∀ inputIds attentionMask seqLen, IsMasked inputIds attentionMask seqLen →
      List.zipWith maskSelect inputIds attentionMask = rows →
        PackedTransparent s zero useFp8Padding zeroOut uninit f inputIds attentionMask seqLen) ∧
    BshdTransparent s zero useFp8Padding uninit f rows

/-- **Context parallel packing is transparent exactly when** every row fits on all ranks, as nested rows are
packed without clamping their first chunk, and the default dtype has the outputs, as those of nested rows are put
together in a buffer of it. The other packings always are. -/
theorem packing_iff (s : ParallelState) (zero : α) (dims : List ℕ) (useFp8Padding : Bool) (zeroOut : β)
    (uninit : ℕ → β) (cast : β → β) (f : α → β) {rows : List (List α)} (hne : rows ≠ []) :
    Transparent s zero dims useFp8Padding zeroOut uninit cast f rows ↔
      RowsFit s dims useFp8Padding (rows.map List.length) ∧
        (s.cpSize ≤ 1 ∨ ∀ row ∈ rows, ∀ a ∈ row, cast (f a) = f a) := by
  rw [← @thd_iff α β s zero dims useFp8Padding rows uninit cast f hne]
  constructor
  · intro h
    exact h.1
  · intro h
    refine ⟨h, fun inputIds attentionMask seqLen hmasked hrows => ?_, bshd_transparent s useFp8Padding hne zero uninit f⟩
    refine packedSeqs_transparent hmasked (fun hnil => hne ?_) zeroOut uninit f
    rw [← hrows, hnil, List.zipWith_nil_right]

/-! ## Two ranks -/

def pair : ParallelState where
  tpSize := 1
  cpSize := 2
  tpSize_pos := Nat.one_pos
  cpSize_pos := Nat.two_pos

/-- A row of five tokens and one of a single token, with a dtype that has small numbers only. -/
theorem transparent_tokens : Transparent pair 0 [] false 0 (fun i => i) (fun n => min n 100) (fun n => 2 * n)
    [[3, 1, 4, 1, 5], [9]] := by
  refine (packing_iff pair 0 [] false 0 (fun i => i) (fun n => min n 100) (fun n => 2 * n)
    (List.cons_ne_nil _ _)).2 ⟨?_, Or.inr (by decide)⟩
  exact List.Forall₂.cons (Or.inr ⟨Or.inl rfl, Or.inl (by decide)⟩)
    (List.Forall₂.cons (Or.inr ⟨Or.inl rfl, Or.inl (by decide)⟩) List.Forall₂.nil)

/-- A single token with two teacher entries, and a row that fills its span before it is made longer for fp8. -/
theorem short_rows_raise :
    preprocessThdEngine pair (0, 0) [2] false 0 [[(7, 8)]] = none ∧
      ¬ Transparent pair (0, 0) [2] false (0, 0) (fun i => (i, i)) id id [[(7, 8)]] ∧
      preprocessThdEngine pair 0 [] true 0 [List.replicate 16 7] = none := by
  have hnone : preprocessThdEngine pair (0, 0) [2] false 0 [[(7, 8)]] = none := rfl
  refine ⟨hnone, fun h => ?_, ?_⟩
  · obtain ⟨out, hout, -⟩ := h.1
    have hrun := hout 0 (by decide)
    rw [hnone] at hrun
    cases hrun
  · rw [Option.eq_none_iff_forall_ne_some]
    intro out hout
    have hfits := (preprocessThdEngine_some_iff (List.cons_ne_nil _ _) (by decide)).1 ⟨out, hout⟩
    -- the first chunk of a rank has 128 slots, and the row 16 tokens
    cases hfits with
    | cons hfits _ => exact absurd hfits (by unfold ChunkFits; decide)

end Opd.Verl.ContextParallel

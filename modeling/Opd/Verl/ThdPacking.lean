import Mathlib.Algebra.BigOperators.Ring.List
import Mathlib.Algebra.Ring.Nat
import Opd.Lib.Jagged
import Opd.Lib.Zigzag

/-!
# Packing rows for context parallelism

The rows of a nested batch are packed one behind the other, each in a span of slots that is a
multiple of an alignment. The span of a row is split over the ranks of the context parallel group
from both ends.

* `layout_spec`: the spans, with and without the alignment for fp8.
* `preprocessThdEngine_some_iff`: a rank packs its slots exactly when each row fits.
* `preprocessThdEngine_held`: what a rank packs.
* `exists_held`: buffers that hold the rows.
* `postprocessThdEngine_eq`: the outputs of all ranks, put together.
* `thd_iff`: packing is transparent exactly when the rows fit and the default dtype has the outputs.
-/

namespace Opd.Verl.ThdPacking

open Lib

variable {α β : Type}

/-! ## Layout -/

/-- The sizes of the tensor parallel group and of the context parallel group of the call. -/
structure ParallelState where
  tpSize : ℕ
  cpSize : ℕ
  tpSize_pos : 0 < tpSize
  cpSize_pos : 0 < cpSize

/-- `align_size` -/
def ParallelState.alignSize (s : ParallelState) : ℕ :=
  if 1 < s.cpSize then s.tpSize * s.cpSize * 2 else s.tpSize

/-- `_compute_fp8_thd_align_size`: for each sequence, and for all of them. -/
def computeFp8ThdAlignSize (alignSize : ℕ) : ℕ × ℕ := (Nat.lcm 16 alignSize, alignSize * 128)

/-- `(align_size - n % align_size) % align_size` -/
def padSize (alignSize n : ℕ) : ℕ := (alignSize - n % alignSize) % alignSize

/-- `l[-1] += n` -/
def addLast (n : ℕ) : List ℕ → List ℕ
  | [] => []
  | [a] => [a + n]
  | a :: b :: l => a :: addLast n (b :: l)

structure Layout where
  alignSize : ℕ
  seqlensPadded : List ℕ
  cuSeqlensPadded : List ℕ

def layout (s : ParallelState) (useFp8Padding : Bool) (seqlens : List ℕ) : Layout :=
  let (perSeqAlign, totalAlign) := computeFp8ThdAlignSize s.alignSize
  let alignSize := if useFp8Padding then perSeqAlign else s.alignSize
  let seqlensPadded := seqlens.map fun n => n + padSize alignSize n
  let cuSeqlensPadded := 0 :: cumsum 0 seqlensPadded
  if useFp8Padding then
    let padSizeLast := padSize totalAlign (cuSeqlensPadded.getLastD 0)
    ⟨alignSize, addLast padSizeLast seqlensPadded, addLast padSizeLast cuSeqlensPadded⟩
  else ⟨alignSize, seqlensPadded, cuSeqlensPadded⟩

/-- `PackedSeqParams` -/
structure PackedSeqParams where
  qkvFormat : String
  cuSeqlensQ : List ℕ
  maxSeqlenQ : ℕ
  cuSeqlensKv : List ℕ
  maxSeqlenKv : ℕ
  cuSeqlensQPadded : List ℕ
  cuSeqlensKvPadded : List ℕ

/-- The parameters for the spans; without sequences there is no longest one. -/
def Layout.params (l : Layout) : Option PackedSeqParams :=
  l.seqlensPadded.max?.map fun maxSeqlen =>
    ⟨"thd", l.cuSeqlensPadded, maxSeqlen, l.cuSeqlensPadded, maxSeqlen, l.cuSeqlensPadded, l.cuSeqlensPadded⟩

/-! ## The nested engine

A row is the list of its tokens, and `dims` the dimensions of a token: of the batch, those behind
the first two. The padding is `zero`. -/

/-- A row with fewer elements than the alignment gets zeros. They have one dimension, so they only fit
tokens without dimensions. -/
def alignRow (zero : α) (dims : List ℕ) (alignSize : ℕ) (d : List α) : Option (List α) :=
  let numel := d.length * dims.prod
  if numel < alignSize then
    if dims = [] then some (d ++ List.replicate (alignSize - numel) zero) else none
  else some d

/-- `torch.arange(start, stop)` -/
def arange (start stop : ℕ) : List ℕ := List.range' start (stop - start)

/-- `l[start:stop]` -/
def between (start stop : ℕ) (l : List α) : List α := block start (stop - start) l

/-- `input_ids_rmpad` and `position_ids_rmpad`. -/
structure Buffers (α : Type) where
  ids : List α
  positions : List ℕ

/-- One row of `preprocess_thd_engine`, on a rank. -/
def packRow (s : ParallelState) (zero : α) (dims : List ℕ) (alignSize cpRank : ℕ) (buffers : Buffers α)
    (d : List α) (seqlenPadded cuStart : ℕ) : Option (Buffers α) :=
  if s.cpSize ≤ 1 then do
    let ids ← assign buffers.ids cuStart (cuStart + d.length) d
    let positions ← assign buffers.positions cuStart (cuStart + d.length) (arange 0 d.length)
    some ⟨ids, positions⟩
  else do
    let seqlenOrig := d.length
    let halfSeqlen := seqlenPadded / s.cpSize / 2
    let startIdx := cuStart / s.cpSize
    let d ← alignRow zero dims alignSize d
    let ids ← assign buffers.ids startIdx (startIdx + halfSeqlen)
      (between (halfSeqlen * cpRank) (halfSeqlen * (cpRank + 1)) d)
    let positions ← assign buffers.positions startIdx (startIdx + halfSeqlen)
      (arange (halfSeqlen * cpRank) (halfSeqlen * (cpRank + 1)))
    let remainStart := seqlenPadded - halfSeqlen * (cpRank + 1)
    let remainEnd := min (seqlenPadded - halfSeqlen * cpRank) d.length
    if remainStart < remainEnd then
      let ids ← assign ids (startIdx + halfSeqlen) (startIdx + halfSeqlen + (remainEnd - remainStart))
        (between remainStart remainEnd d)
      let posEnd := min remainEnd seqlenOrig
      if remainStart < posEnd then
        let positions ← assign positions (startIdx + halfSeqlen) (startIdx + halfSeqlen + (posEnd - remainStart))
          (arange remainStart posEnd)
        some ⟨ids, positions⟩
      else some ⟨ids, positions⟩
    else some ⟨ids, positions⟩

/-- The rows one by one, with their padded lengths and the starts of their spans. -/
def packRows (s : ParallelState) (zero : α) (dims : List ℕ) (alignSize cpRank : ℕ) :
    List (List α × ℕ × ℕ) → Buffers α → Option (Buffers α)
  | [], buffers => some buffers
  | (d, seqlenPadded, cuStart) :: rows, buffers => do
    let buffers ← packRow s zero dims alignSize cpRank buffers d seqlenPadded cuStart
    packRows s zero dims alignSize cpRank rows buffers

/-- What `preprocess_thd_engine` returns. -/
structure Packed (α : Type) where
  inputIds : List α
  params : PackedSeqParams
  positionIds : List ℕ

/-- `preprocess_thd_engine` on a rank, of a stage that embeds the tokens, without a roll. -/
def preprocessThdEngine (s : ParallelState) (zero : α) (dims : List ℕ) (useFp8Padding : Bool) (cpRank : ℕ)
    (rows : List (List α)) : Option (Packed α) := do
  let l := layout s useFp8Padding (rows.map List.length)
  let params ← l.params
  let total := l.seqlensPadded.sum / s.cpSize
  let buffers ← packRows s zero dims l.alignSize cpRank (rows.zip (l.seqlensPadded.zip l.cuSeqlensPadded))
    ⟨List.replicate total zero, List.replicate total 0⟩
  some ⟨buffers.ids, params, buffers.positions⟩

/-- One row of `postprocess_thd_engine`. The buffer for the outputs of all ranks has the default
dtype, which `cast` converts to. -/
def unpackRow (s : ParallelState) (uninit : ℕ → β) (cast : β → β) (outputList : ℕ → List β)
    (seqlen cuStart cuStop : ℕ) : Option (List β) :=
  if s.cpSize ≤ 1 then some (block cuStart seqlen (outputList 0))
  else
    let chunk := (cuStop - cuStart) / s.cpSize
    let halfSeqlen := chunk / 2
    let size := chunk * s.cpSize
    let start := cuStart / s.cpSize
    let tmp := (List.range size).map uninit
    let front := fun j => (between start (start + halfSeqlen) (outputList j)).map cast
    let back := fun j => (between (start + halfSeqlen) (start + chunk) (outputList j)).map cast
    (mergeEnds size halfSeqlen front back s.cpSize tmp).map (List.take seqlen)

/-- `postprocess_thd_engine`, with the outputs of all ranks in the order of the ranks. -/
def postprocessThdEngine (s : ParallelState) (uninit : ℕ → β) (cast : β → β) (outputList : ℕ → List β)
    (params : PackedSeqParams) (seqlens : List ℕ) : Option (List (List β)) :=
  let cu := params.cuSeqlensQPadded
  (seqlens.zip (cu.zip cu.tail)).mapM fun (seqlen, cuStart, cuStop) =>
    unpackRow s uninit cast outputList seqlen cuStart cuStop

/-! ## The spans -/

section Layout

variable {s : ParallelState} {useFp8Padding : Bool} {seqlens : List ℕ}

theorem ParallelState.alignSize_pos (s : ParallelState) : 0 < s.alignSize := by
  unfold alignSize
  split
  · exact Nat.mul_pos (Nat.mul_pos s.tpSize_pos s.cpSize_pos) Nat.zero_lt_two
  · exact s.tpSize_pos

theorem ParallelState.chunks_dvd_alignSize (h : 1 < s.cpSize) : 2 * s.cpSize ∣ s.alignSize := by
  unfold alignSize
  rw [if_pos h, Nat.mul_assoc, Nat.mul_comm s.cpSize 2]
  exact Nat.dvd_mul_left _ _

theorem dvd_add_padSize {alignSize : ℕ} (hpos : 0 < alignSize) (n : ℕ) : alignSize ∣ n + padSize alignSize n := by
  have hmod := Nat.mod_lt n hpos
  have hdiv := Nat.div_add_mod n alignSize
  unfold padSize
  by_cases hzero : n % alignSize = 0
  · rw [hzero, Nat.sub_zero, Nat.mod_self, Nat.add_zero]
    exact Nat.dvd_of_mod_eq_zero hzero
  · rw [Nat.mod_eq_of_lt (by omega)]
    refine ⟨n / alignSize + 1, ?_⟩
    rw [Nat.mul_add]
    omega

theorem cumsum_addLast (k start : ℕ) (l : List ℕ) : addLast k (cumsum start l) = cumsum start (addLast k l) := by
  induction l generalizing start with
  | nil => rfl
  | cons a l ih =>
    cases l with
    | nil =>
      show [start + a + k] = [start + (a + k)]
      rw [Nat.add_assoc]
    | cons b l =>
      have hrest := ih (start + a)
      simp only [cumsum, addLast] at hrest ⊢
      rw [hrest]

theorem addLast_cons {k a : ℕ} {l : List ℕ} (h : l ≠ []) : addLast k (a :: l) = a :: addLast k l := by
  cases l with
  | nil => exact absurd rfl h
  | cons b l => rfl

/-- A span of a sequence: long enough, and with two chunks for each rank. -/
structure IsSpan (s : ParallelState) (seqlen span : ℕ) : Prop where
  le : seqlen ≤ span
  dvd : 1 < s.cpSize → 2 * s.cpSize ∣ span

theorem isSpan_addLast {spans : List ℕ} {k : ℕ} (h : List.Forall₂ (IsSpan s) seqlens spans)
    (hk : 1 < s.cpSize → 2 * s.cpSize ∣ k) : List.Forall₂ (IsSpan s) seqlens (addLast k spans) := by
  induction h with
  | nil => exact List.Forall₂.nil
  | @cons n a seqlens spans hspan hrest ih =>
    cases spans with
    | nil =>
      cases hrest
      refine List.Forall₂.cons ⟨?_, fun hcp => Nat.dvd_add (hspan.dvd hcp) (hk hcp)⟩ List.Forall₂.nil
      exact Nat.le_trans hspan.le (Nat.le_add_right _ _)
    | cons b spans => exact List.Forall₂.cons hspan ih

theorem isSpan_padded {alignSize : ℕ} (hpos : 0 < alignSize) (hdvd : s.alignSize ∣ alignSize) (seqlens : List ℕ) :
    List.Forall₂ (IsSpan s) seqlens (seqlens.map fun n => n + padSize alignSize n) ∧
      s.alignSize ∣ (seqlens.map fun n => n + padSize alignSize n).sum := by
  have hspan : ∀ n, s.alignSize ∣ n + padSize alignSize n := fun n => Nat.dvd_trans hdvd (dvd_add_padSize hpos n)
  constructor
  · rw [List.forall₂_map_right_iff, List.forall₂_same]
    intro n _
    exact ⟨Nat.le_add_right _ _, fun hcp => Nat.dvd_trans (ParallelState.chunks_dvd_alignSize hcp) (hspan n)⟩
  · refine List.dvd_sum fun span hmem => ?_
    obtain ⟨n, -, rfl⟩ := List.mem_map.1 hmem
    exact hspan n

/-- **The spans**: one for each sequence, one behind the other. -/
theorem layout_spec (s : ParallelState) (useFp8Padding : Bool) (h : seqlens ≠ []) :
    (layout s useFp8Padding seqlens).cuSeqlensPadded =
        0 :: cumsum 0 (layout s useFp8Padding seqlens).seqlensPadded ∧
      List.Forall₂ (IsSpan s) seqlens (layout s useFp8Padding seqlens).seqlensPadded := by
  have hpos := s.alignSize_pos
  cases useFp8Padding with
  | false =>
    exact ⟨rfl, (isSpan_padded hpos (Nat.dvd_refl _) seqlens).1⟩
  | true =>
    have hlcm : 0 < Nat.lcm 16 s.alignSize := Nat.lcm_pos (by omega) hpos
    obtain ⟨hspans, hsum⟩ := isSpan_padded hlcm (Nat.dvd_lcm_right 16 s.alignSize) seqlens
    have hne : seqlens.map (fun n => n + padSize (Nat.lcm 16 s.alignSize) n) ≠ [] := by
      rwa [ne_eq, List.map_eq_nil_iff]
    have hcumsum : cumsum 0 (seqlens.map fun n => n + padSize (Nat.lcm 16 s.alignSize) n) ≠ [] := by
      rw [ne_eq, ← List.length_eq_zero_iff, length_cumsum, List.length_eq_zero_iff]
      exact hne
    have hlast : (0 :: cumsum 0 (seqlens.map fun n => n + padSize (Nat.lcm 16 s.alignSize) n)).getLastD 0 =
        (seqlens.map fun n => n + padSize (Nat.lcm 16 s.alignSize) n).sum := by
      rw [List.getLastD_cons, List.getLastD_eq_getLast?, getLast?_cumsum hne, Option.getD_some, Nat.zero_add]
    simp only [layout, computeFp8ThdAlignSize, if_true, hlast]
    refine ⟨?_, isSpan_addLast hspans fun hcp => ?_⟩
    · rw [addLast_cons hcumsum, cumsum_addLast]
    · -- what the last span gets is the rest to a multiple of a multiple of the alignment
      have htotal := dvd_add_padSize (Nat.mul_pos hpos (by omega : 0 < 128))
        (seqlens.map fun n => n + padSize (Nat.lcm 16 s.alignSize) n).sum
      have hall := Nat.dvd_trans (Nat.dvd_mul_right s.alignSize 128) htotal
      exact Nat.dvd_trans (ParallelState.chunks_dvd_alignSize hcp) ((Nat.dvd_add_right hsum).1 hall)

end Layout

/-! ## One row -/

section Row

variable {s : ParallelState} {zero : α} {dims : List ℕ} {alignSize rank : ℕ} {d : List α} {span cuStart : ℕ}

def rowLength (dims : List ℕ) (alignSize n : ℕ) : ℕ := if dims = [] then max n alignSize else n

def ParallelState.position (s : ParallelState) (span rank : ℕ) : ℕ → ℕ :=
  if s.cpSize ≤ 1 then id else zigzag s.cpSize (span / s.cpSize / 2) rank

/-- A rank can take its first chunk of a row: the row needs no zeros or takes them, and the chunk is full
or has one token. -/
def ChunkFits (s : ParallelState) (dims : List ℕ) (alignSize rank seqlen span : ℕ) : Prop :=
  s.cpSize ≤ 1 ∨ (dims = [] ∨ alignSize ≤ seqlen * dims.prod) ∧
    let chunk := min (span / s.cpSize / 2) (rowLength dims alignSize seqlen - span / s.cpSize / 2 * rank)
    chunk = span / s.cpSize / 2 ∨ chunk = 1

theorem alignRow_some (zero : α) (d : List α) (h : dims = [] ∨ alignSize ≤ d.length * dims.prod) :
    ∃ extra, alignRow zero dims alignSize d = some (d ++ extra) ∧
      (d ++ extra).length = rowLength dims alignSize d.length := by
  unfold alignRow rowLength
  by_cases hdims : dims = []
  · subst hdims
    simp only [List.prod_nil, Nat.mul_one, if_true]
    by_cases hshort : d.length < alignSize
    · refine ⟨List.replicate (alignSize - d.length) zero, if_pos hshort, ?_⟩
      rw [List.length_append, List.length_replicate]
      omega
    · refine ⟨[], by rw [if_neg hshort, List.append_nil], ?_⟩
      rw [List.append_nil]
      omega
  · have hlong := h.resolve_left hdims
    refine ⟨[], by rw [List.append_nil]; exact if_neg (by omega), ?_⟩
    rw [List.append_nil, if_neg hdims]

theorem alignRow_none (zero : α) (d : List α) (h : ¬(dims = [] ∨ alignSize ≤ d.length * dims.prod)) :
    alignRow zero dims alignSize d = none := by
  obtain ⟨hdims, hshort⟩ := not_or.1 h
  unfold alignRow
  simp only
  rw [if_pos (by omega), if_neg hdims]

theorem length_between {start stop : ℕ} (l : List α) :
    (between start stop l).length = min (stop - start) (l.length - start) := by
  rw [between, block, List.length_take, List.length_drop]

theorem getElem?_between {start stop i : ℕ} (h : i < stop - start) (l : List α) :
    (between start stop l)[i]? = l[start + i]? := getElem?_block h l

theorem arange_eq {start stop n : ℕ} (h : stop ≤ n) : arange start stop = between start stop (List.range n) := by
  refine List.ext_getElem? fun i => ?_
  by_cases hi : i < stop - start
  · rw [getElem?_between hi, arange, List.getElem?_range' hi, List.getElem?_range (by omega), Nat.one_mul]
  · rw [List.getElem?_eq_none (by rw [arange, List.length_range']; omega),
      List.getElem?_eq_none (by rw [length_between]; omega)]

theorem assign_between {before after l : List α} {value : α} {start n a b : ℕ} (hstart : before.length = start)
    (hb : b ≤ l.length) (hn : b - a ≤ n) (h : a < b) :
    assign (before ++ (List.replicate n value ++ after)) start (start + (b - a)) (between a b l) =
      some (before ++ (between a b l ++ List.replicate (n - (b - a)) value ++ after)) := by
  have hlength : (between a b l).length = b - a := by rw [length_between]; omega
  have hput := @assign_front α before after (between a b l) start n value hstart (by omega)
  rwa [hlength] at hput

theorem between_eq_nil {l : List α} {a b : ℕ} (h : ¬ a < b) : between a b l = [] := by
  rw [between, show b - a = 0 by omega, block, List.take_zero]

/-- **The slots of a row** whose first chunk has its tokens as far as there are any. -/
theorem holds_chunks {row d : List α} {half remainEnd : ℕ} {first : List α} (hrank : rank < s.cpSize)
    (hrow : ∀ i < row.length, d[i]? = row[i]?) (hfirst : first.length = half)
    (hfront : ∀ k < half, rank * half + k < row.length → first[k]? = d[rank * half + k]?)
    (hend : remainEnd - (2 * s.cpSize * half - half * (rank + 1)) ≤ half) (hd : remainEnd ≤ d.length)
    (hmin : min row.length (2 * s.cpSize * half - half * rank) ≤ remainEnd) (zero : α) :
    Holds (zigzag s.cpSize half rank) (2 * half) row
      (first ++ (between (2 * s.cpSize * half - half * (rank + 1)) remainEnd d ++
        List.replicate (half - (remainEnd - (2 * s.cpSize * half - half * (rank + 1)))) zero)) := by
  have hstart : (2 * s.cpSize - 1 - rank) * half = 2 * s.cpSize * half - half * (rank + 1) := by
    rw [Nat.sub_sub, Nat.sub_mul, Nat.add_comm 1 rank, Nat.mul_comm (rank + 1)]
  have hle : half * (rank + 1) ≤ 2 * s.cpSize * half := by
    rw [Nat.mul_comm]
    exact Nat.mul_le_mul_right _ (by omega)
  have hsucc : half * (rank + 1) = half * rank + half := Nat.mul_succ half rank
  refine Holds.of_chunks hfirst ?_ (fun k hk hlt => ?_) fun k hk hlt => ?_
  · rw [List.length_append, List.length_replicate, length_between]
    omega
  · rw [hfront k hk hlt, hrow _ hlt]
  · rw [hstart] at hlt ⊢
    rw [List.getElem?_append_left (by rw [length_between]; omega), getElem?_between (by omega), hrow _ hlt]

theorem holds_front {row : List α} (h : row.length ≤ span) (zero : α) :
    Holds id span row (row ++ List.replicate (span - row.length) zero) where
  length_eq := by
    rw [List.length_append, List.length_replicate]
    omega
  entry := by
    intro slot _ hlt
    exact List.getElem?_append_left hlt

theorem chunks_of_dvd {half : ℕ} (h : span = 2 * s.cpSize * half) :
    span / s.cpSize = 2 * half ∧ span / s.cpSize / 2 = half := by
  have hchunk : span / s.cpSize = 2 * half := by
    rw [h, Nat.mul_comm 2, Nat.mul_assoc, Nat.mul_div_cancel_left _ s.cpSize_pos]
  exact ⟨hchunk, by omega⟩

theorem IsSpan.cases {n : ℕ} (h : IsSpan s n span) :
    (s.cpSize = 1 ∧ span / s.cpSize = span ∧ ∀ rank, s.position span rank = id) ∨
      1 < s.cpSize ∧ ∃ half, span = 2 * s.cpSize * half ∧ span / s.cpSize = 2 * half ∧ span / s.cpSize / 2 = half ∧
        span / (2 * s.cpSize) = half ∧ ∀ rank, s.position span rank = zigzag s.cpSize half rank := by
  by_cases hcp : s.cpSize ≤ 1
  · have hone : s.cpSize = 1 := by have := s.cpSize_pos; omega
    exact .inl ⟨hone, by rw [hone, Nat.div_one], fun rank => by rw [ParallelState.position, if_pos hcp]⟩
  · obtain ⟨half, hhalf⟩ := h.dvd (by omega)
    obtain ⟨hchunk, hdiv⟩ := chunks_of_dvd hhalf
    refine .inr ⟨by omega, half, hhalf, hchunk, hdiv, ?_, fun rank => by rw [ParallelState.position, if_neg hcp, hdiv]⟩
    rw [hhalf, Nat.mul_div_cancel_left _ (Nat.mul_pos Nat.zero_lt_two s.cpSize_pos)]

/-- **A row that fits** fills its slots, with its tokens and with its positions. -/
theorem packRow_some {ids rest : List α} {positions restPositions : List ℕ} (hspan : IsSpan s d.length span)
    (hrank : rank < s.cpSize) (hids : cuStart = s.cpSize * ids.length) (hpositions : positions.length = ids.length)
    (hfits : ChunkFits s dims alignSize rank d.length span) :
    ∃ part places, packRow s zero dims alignSize rank
        ⟨ids ++ (List.replicate (span / s.cpSize) zero ++ rest),
          positions ++ (List.replicate (span / s.cpSize) 0 ++ restPositions)⟩ d span cuStart =
        some ⟨ids ++ (part ++ rest), positions ++ (places ++ restPositions)⟩ ∧
      Holds (s.position span rank) (span / s.cpSize) d part ∧
      Holds (s.position span rank) (span / s.cpSize) (List.range d.length) places := by
  have hstart : cuStart / s.cpSize = ids.length := by rw [hids, Nat.mul_div_cancel_left _ s.cpSize_pos]
  obtain ⟨hone, hsize, hposition⟩ | ⟨hcp, half, rfl, hchunk, hhalf, -, hposition⟩ := hspan.cases
  · rw [hone, Nat.div_one] at hstart
    have hrange : (List.range d.length).length ≤ span := by rw [List.length_range]; exact hspan.le
    have hput := @assign_front α ids rest d cuStart span zero hstart.symm hspan.le
    have hputPositions := @assign_front ℕ positions restPositions (List.range d.length) cuStart span 0
      (by rw [hpositions, hstart]) hrange
    rw [List.length_range] at hputPositions
    have hzero : arange 0 d.length = List.range d.length := by rw [arange, List.range_eq_range', Nat.sub_zero]
    rw [hposition, hsize]
    refine ⟨_, _, ?_, holds_front hspan.le zero, holds_front hrange 0⟩
    rw [packRow, if_pos (Nat.le_of_eq hone), hzero, hput, Option.bind_eq_bind, Option.bind_some, hputPositions,
      Option.bind_eq_bind, Option.bind_some, List.length_range]
  · obtain ⟨halign, hfull⟩ := hfits.resolve_left (by omega)
    obtain ⟨extra, hrow, hlength⟩ := alignRow_some zero d halign
    rw [hhalf] at hfull
    simp only at hfull
    rw [← hlength] at hfull
    rw [hchunk, hposition]
    have hsucc : half * (rank + 1) = half * rank + half := Nat.mul_succ half rank
    have hcomm : rank * half = half * rank := Nat.mul_comm rank half
    have hle : half * (rank + 1) ≤ 2 * s.cpSize * half := by
      rw [Nat.mul_comm]
      exact Nat.mul_le_mul_right _ (by omega)
    -- both buffers have the slots of the two chunks
    have hslots : ∀ {γ : Type} (value : γ) (after : List γ), List.replicate (2 * half) value ++ after =
        List.replicate half value ++ (List.replicate half value ++ after) := by
      intro γ value after
      rw [← List.append_assoc, List.replicate_append_replicate, Nat.two_mul]
    have hchunkLength : (between (half * rank) (half * (rank + 1)) (d ++ extra)).length =
        min half ((d ++ extra).length - half * rank) := by
      rw [length_between, hsucc, Nat.add_sub_cancel_left]
    obtain ⟨first, hfirst, hentries, hput⟩ := @assign_some α ids (List.replicate half zero)
      (List.replicate half zero ++ rest) (between (half * rank) (half * (rank + 1)) (d ++ extra))
      ids.length (ids.length + half) rfl (by rw [List.length_replicate])
      (by rw [hchunkLength, List.length_replicate]; exact hfull)
    rw [List.length_replicate] at hfirst hentries
    have hplaces : (arange (half * rank) (half * (rank + 1))).length = half := by
      rw [arange, List.length_range', hsucc, Nat.add_sub_cancel_left]
    have hputPositions := @assign_middle ℕ positions (List.replicate half 0) (List.replicate half 0 ++ restPositions)
      (arange (half * rank) (half * (rank + 1))) ids.length (ids.length + half) hpositions
      (by rw [List.length_replicate]) (by rw [List.length_replicate, hplaces])
    have hextends : ∀ i < d.length, (d ++ extra)[i]? = d[i]? := fun i hi => List.getElem?_append_left hi
    have hmore : d.length ≤ (d ++ extra).length := by rw [List.length_append]; omega
    generalize hremainStart : 2 * s.cpSize * half - half * (rank + 1) = remainStart
    generalize hremainEnd : min (2 * s.cpSize * half - half * rank) (d ++ extra).length = remainEnd
    have hsecond := @holds_chunks α s rank d (d ++ extra) half remainEnd first hrank hextends hfirst
      (fun k hk hlt => by
        rw [hentries k hk (by rw [hchunkLength]; omega), getElem?_between (by omega), hcomm])
      (by omega) (by omega) (by omega) zero
    have hsecondPositions := @holds_chunks ℕ s rank (List.range d.length) (List.range d.length) half
      (min remainEnd d.length) (arange (half * rank) (half * (rank + 1))) hrank (fun _ _ => rfl) hplaces
      (fun k hk hlt => by
        rw [List.length_range] at hlt
        rw [arange, List.getElem?_range' (by omega), List.getElem?_range hlt, Nat.one_mul, hcomm])
      (by omega) (by rw [List.length_range]; omega) (by rw [List.length_range]; omega) 0
    rw [hremainStart] at hsecond hsecondPositions
    have hboth : ∀ {γ : Type} {before : List γ} {chunk : List γ}, before.length = ids.length → chunk.length = half →
        (before ++ chunk).length = ids.length + half := by
      intro γ before chunk hbefore hchunk
      rw [List.length_append, hbefore, hchunk]
    refine ⟨_, _, ?_, hsecond, hsecondPositions⟩
    rw [packRow, if_neg (by omega)]
    simp only [hhalf, hstart, hrow, hslots, hput, hputPositions, hremainStart, hremainEnd, Option.bind_eq_bind,
      Option.bind_some]
    by_cases hremain : remainStart < remainEnd
    · have hputSecond := @assign_between α (ids ++ first) rest (d ++ extra) zero (ids.length + half) half
        remainStart remainEnd (hboth rfl hfirst) (by omega) (by omega) hremain
      simp only [List.append_assoc] at hputSecond
      rw [if_pos hremain, hputSecond, Option.bind_some]
      by_cases hreal : remainStart < min remainEnd d.length
      · have hputReal := @assign_between ℕ (positions ++ arange (half * rank) (half * (rank + 1))) restPositions
          (List.range d.length) 0 (ids.length + half) half remainStart (min remainEnd d.length)
          (hboth hpositions hplaces) (by rw [List.length_range]; omega) (by omega) hreal
        simp only [List.append_assoc] at hputReal
        rw [if_pos hreal, arange_eq (Nat.min_le_right remainEnd d.length), hputReal, Option.bind_some]
        simp only [List.append_assoc]
      · rw [if_neg hreal, between_eq_nil hreal, show min remainEnd d.length - remainStart = 0 by omega]
        simp only [List.append_assoc, List.nil_append, Nat.sub_zero]
    · have hreal : ¬ remainStart < min remainEnd d.length := by omega
      rw [if_neg hremain, between_eq_nil hremain, between_eq_nil hreal, show remainEnd - remainStart = 0 by omega,
        show min remainEnd d.length - remainStart = 0 by omega]
      simp only [List.append_assoc, List.nil_append, Nat.sub_zero]

/-- What is in the buffer of the tokens: what was in it before, tokens of the row, and zeros. -/
theorem packRow_ids {buffers out : Buffers α} (h : packRow s zero dims alignSize rank buffers d span cuStart = some out) :
    out.ids.length = buffers.ids.length ∧ ∀ a ∈ out.ids, a ∈ buffers.ids ∨ a ∈ d ∨ a = zero := by
  by_cases hcp : s.cpSize ≤ 1
  · rw [packRow, if_pos hcp] at h
    obtain ⟨ids, hids, h⟩ := Option.bind_eq_some_iff.1 h
    obtain ⟨positions, -, h⟩ := Option.bind_eq_some_iff.1 h
    obtain rfl := Option.some.inj h
    exact ⟨length_assign hids, fun a ha => (mem_of_assign hids ha).imp_right .inl⟩
  · rw [packRow, if_neg hcp] at h
    obtain ⟨row, hrow, h⟩ := Option.bind_eq_some_iff.1 h
    obtain ⟨ids, hids, h⟩ := Option.bind_eq_some_iff.1 h
    obtain ⟨positions, -, h⟩ := Option.bind_eq_some_iff.1 h
    have hpadded : ∀ a ∈ row, a ∈ d ∨ a = zero := by
      intro a ha
      unfold alignRow at hrow
      simp only at hrow
      split at hrow
      · split at hrow
        · obtain rfl := Option.some.inj hrow
          exact (List.mem_append.1 ha).imp_right List.eq_of_mem_replicate
        · cases hrow
      · obtain rfl := Option.some.inj hrow
        exact .inl ha
    have hslice : ∀ {start stop : ℕ} {a : α}, a ∈ between start stop row → a ∈ d ∨ a = zero := fun ha =>
      hpadded _ (List.mem_of_mem_drop (List.mem_of_mem_take ha))
    have hfirst : ∀ a ∈ ids, a ∈ buffers.ids ∨ a ∈ d ∨ a = zero := fun a ha => (mem_of_assign hids ha).imp_right hslice
    simp only at h
    split at h
    · obtain ⟨ids', hids', h⟩ := Option.bind_eq_some_iff.1 h
      have hout : out.ids = ids' := by
        split at h
        · obtain ⟨positions', -, h⟩ := Option.bind_eq_some_iff.1 h
          obtain rfl := Option.some.inj h
          rfl
        · obtain rfl := Option.some.inj h
          rfl
      rw [hout]
      refine ⟨(length_assign hids').trans (length_assign hids), fun a ha => ?_⟩
      rcases mem_of_assign hids' ha with hbefore | hvalue
      · exact hfirst a hbefore
      · exact .inr (hslice hvalue)
    · obtain rfl := Option.some.inj h
      exact ⟨length_assign hids, hfirst⟩

theorem packRow_none {ids rest : List α} {positions restPositions : List ℕ} (hspan : IsSpan s d.length span)
    (hids : cuStart = s.cpSize * ids.length) (hfits : ¬ ChunkFits s dims alignSize rank d.length span) :
    packRow s zero dims alignSize rank
        ⟨ids ++ (List.replicate (span / s.cpSize) zero ++ rest),
          positions ++ (List.replicate (span / s.cpSize) 0 ++ restPositions)⟩ d span cuStart = none := by
  obtain ⟨hcp, hchunk⟩ := not_or.1 hfits
  have hstart : cuStart / s.cpSize = ids.length := by rw [hids, Nat.mul_div_cancel_left _ s.cpSize_pos]
  by_cases halign : dims = [] ∨ alignSize ≤ d.length * dims.prod
  · obtain ⟨half, rfl⟩ := hspan.dvd (by omega)
    obtain ⟨hslots, hhalf⟩ := @chunks_of_dvd s _ half rfl
    obtain ⟨extra, hrow, hlength⟩ := alignRow_some zero d halign
    have hshort := fun hfull => hchunk ⟨halign, hfull⟩
    rw [hhalf] at hshort
    simp only at hshort
    rw [← hlength] at hshort
    obtain ⟨hfull, hone⟩ := not_or.1 hshort
    have hchunkLength : (between (half * rank) (half * (rank + 1)) (d ++ extra)).length =
        min half ((d ++ extra).length - half * rank) := by
      rw [length_between, Nat.mul_succ, Nat.add_sub_cancel_left]
    have hput := @assign_eq_none α ids (List.replicate half zero) (List.replicate half zero ++ rest)
      (between (half * rank) (half * (rank + 1)) (d ++ extra)) ids.length (ids.length + half) rfl
      (by rw [List.length_replicate]) (by rw [hchunkLength, List.length_replicate]; exact hfull)
      (by rw [hchunkLength]; exact hone)
    have hbuffer : List.replicate (2 * half) zero ++ rest =
        List.replicate half zero ++ (List.replicate half zero ++ rest) := by
      rw [← List.append_assoc, List.replicate_append_replicate, Nat.two_mul]
    rw [hslots, hbuffer, packRow, if_neg hcp]
    simp only [hhalf, hstart, hrow, hput, Option.bind_eq_bind, Option.bind_some, Option.bind_none]
  · rw [packRow, if_neg hcp]
    simp only [alignRow_none zero d halign, Option.bind_eq_bind, Option.bind_none]

end Row

/-! ## All rows -/

section Rows

variable {s : ParallelState} {zero : α} {dims : List ℕ} {alignSize rank : ℕ} {rows : List (List α)} {spans : List ℕ}

def slots (s : ParallelState) (spans : List ℕ) : ℕ := (spans.map (· / s.cpSize)).sum

def Held (s : ParallelState) (rank : ℕ) (row : List β) (cuStart cuStop : ℕ) (buffer : List β) : Prop :=
  Holds (s.position (cuStop - cuStart) rank) ((cuStop - cuStart) / s.cpSize) row
    (block (cuStart / s.cpSize) ((cuStop - cuStart) / s.cpSize) buffer)

theorem Held.map {row buffer : List α} {cuStart cuStop : ℕ} (h : Held s rank row cuStart cuStop buffer) (f : α → β) :
    Held s rank (row.map f) cuStart cuStop (buffer.map f) := by
  unfold Held
  rw [block_map]
  exact Holds.map h f

theorem IsSpan.cpSize_dvd {n span : ℕ} (h : IsSpan s n span) : s.cpSize ∣ span := by
  by_cases hcp : 1 < s.cpSize
  · exact Nat.dvd_trans (Nat.dvd_mul_left _ _) (h.dvd hcp)
  · have hone : s.cpSize = 1 := by have := s.cpSize_pos; omega
    rw [hone]
    exact Nat.one_dvd _

theorem sum_div_cpSize (h : List.Forall₂ (fun row span => IsSpan s (List.length row) span) rows spans) :
    spans.sum / s.cpSize = slots s spans := by
  unfold slots
  induction h with
  | nil => exact Nat.zero_div _
  | cons hspan _ ih =>
    obtain ⟨size, hsize⟩ := hspan.cpSize_dvd
    rw [List.sum_cons, List.map_cons, List.sum_cons, ← ih, hsize, Nat.mul_add_div s.cpSize_pos,
      Nat.mul_div_cancel_left _ s.cpSize_pos]

theorem held_of_holds {row part before after : List β} {span cuStart : ℕ} (hcu : cuStart = s.cpSize * before.length)
    (h : Holds (s.position span rank) (span / s.cpSize) row part) :
    Held s rank row cuStart (cuStart + span) (before ++ (part ++ after)) := by
  have hstart : cuStart / s.cpSize = before.length := by rw [hcu, Nat.mul_div_cancel_left _ s.cpSize_pos]
  unfold Held
  rw [Nat.add_sub_cancel_left, hstart, ← h.length_eq, block, List.drop_left, List.take_left, h.length_eq]
  exact h

theorem replicate_slots {γ : Type} (span : ℕ) (spans : List ℕ) (value : γ) :
    List.replicate (slots s (span :: spans)) value =
      List.replicate (span / s.cpSize) value ++ List.replicate (slots s spans) value := by
  rw [slots, List.map_cons, List.sum_cons, List.replicate_append_replicate, slots]

/-- **Rows that fit** are held in the slots of their spans. -/
theorem packRows_some (hspans : List.Forall₂ (fun row span => IsSpan s (List.length row) span) rows spans)
    (hrank : rank < s.cpSize)
    (hfits : List.Forall₂ (fun row span => ChunkFits s dims alignSize rank (List.length row) span) rows spans)
    {start : ℕ} {ids : List α} {positions : List ℕ} (hids : start = s.cpSize * ids.length)
    (hpositions : positions.length = ids.length) :
    ∃ ids' positions', packRows s zero dims alignSize rank (rows.zip (spans.zip (start :: cumsum start spans)))
        ⟨ids ++ List.replicate (slots s spans) zero, positions ++ List.replicate (slots s spans) 0⟩ =
        some ⟨ids ++ ids', positions ++ positions'⟩ ∧
      List.Forall₂ (fun row p => Held s rank row p.1 p.2 (ids ++ ids') ∧
          Held s rank (List.range (List.length row)) p.1 p.2 (positions ++ positions'))
        rows ((start :: cumsum start spans).zip (cumsum start spans)) := by
  induction hspans generalizing start ids positions with
  | nil => exact ⟨_, _, rfl, List.Forall₂.nil⟩
  | @cons row span rows spans hspan _ ih =>
    rw [List.forall₂_cons] at hfits
    obtain ⟨part, places, hrow, hpart, hplaces⟩ := @packRow_some _ s zero dims alignSize rank row span start ids
      (List.replicate (slots s spans) zero) positions (List.replicate (slots s spans) 0) hspan hrank hids hpositions
      hfits.1
    have hnext : start + span = s.cpSize * (ids ++ part).length := by
      rw [List.length_append, hpart.length_eq, Nat.mul_add, Nat.mul_div_cancel' hspan.cpSize_dvd, hids]
    obtain ⟨ids', positions', hrest, hheld⟩ := @ih hfits.2 (start + span) (ids ++ part) (positions ++ places) hnext
      (by rw [List.length_append, List.length_append, hpositions, hpart.length_eq, hplaces.length_eq])
    refine ⟨part ++ ids', places ++ positions', ?_, ?_⟩
    · rw [replicate_slots, replicate_slots, cumsum, List.zip_cons_cons, List.zip_cons_cons, packRows, hrow,
        Option.bind_eq_bind, Option.bind_some]
      rw [List.append_assoc, List.append_assoc] at hrest
      rw [hrest, List.append_assoc, List.append_assoc]
    · rw [cumsum, List.zip_cons_cons]
      rw [List.append_assoc, List.append_assoc] at hheld
      exact List.Forall₂.cons ⟨held_of_holds hids hpart, held_of_holds (by rw [hpositions, hids]) hplaces⟩ hheld

theorem fits_of_packRows (hspans : List.Forall₂ (fun row span => IsSpan s (List.length row) span) rows spans)
    (hrank : rank < s.cpSize) {start : ℕ} {ids : List α} {positions : List ℕ} (hids : start = s.cpSize * ids.length)
    (hpositions : positions.length = ids.length) {out : Buffers α}
    (h : packRows s zero dims alignSize rank (rows.zip (spans.zip (start :: cumsum start spans)))
      ⟨ids ++ List.replicate (slots s spans) zero, positions ++ List.replicate (slots s spans) 0⟩ = some out) :
    List.Forall₂ (fun row span => ChunkFits s dims alignSize rank (List.length row) span) rows spans := by
  induction hspans generalizing start ids positions with
  | nil => exact List.Forall₂.nil
  | @cons row span rows spans hspan _ ih =>
    rw [replicate_slots, replicate_slots, cumsum, List.zip_cons_cons, List.zip_cons_cons, packRows] at h
    by_cases hfits : ChunkFits s dims alignSize rank row.length span
    · obtain ⟨part, places, hrow, hpart, hplaces⟩ := @packRow_some _ s zero dims alignSize rank row span start ids
        (List.replicate (slots s spans) zero) positions (List.replicate (slots s spans) 0) hspan hrank hids hpositions
        hfits
      have hnext : start + span = s.cpSize * (ids ++ part).length := by
        rw [List.length_append, hpart.length_eq, Nat.mul_add, Nat.mul_div_cancel' hspan.cpSize_dvd, hids]
      rw [hrow, Option.bind_eq_bind, Option.bind_some, ← List.append_assoc, ← List.append_assoc] at h
      refine List.Forall₂.cons hfits (ih hnext ?_ h)
      rw [List.length_append, List.length_append, hpositions, hpart.length_eq, hplaces.length_eq]
    · rw [packRow_none hspan hids hfits] at h
      cases h

theorem packRows_ids {rows : List (List α × ℕ × ℕ)} {buffers out : Buffers α}
    (h : packRows s zero dims alignSize rank rows buffers = some out) :
    out.ids.length = buffers.ids.length ∧
      ∀ a ∈ out.ids, a ∈ buffers.ids ∨ (∃ row ∈ rows, a ∈ row.1) ∨ a = zero := by
  induction rows generalizing buffers with
  | nil =>
    obtain rfl := Option.some.inj h
    exact ⟨rfl, fun a ha => .inl ha⟩
  | cons row rows ih =>
    obtain ⟨next, hnext, hrest⟩ := Option.bind_eq_some_iff.1 h
    obtain ⟨hlength, hmem⟩ := packRow_ids hnext
    obtain ⟨hlengthRest, hmemRest⟩ := ih hrest
    refine ⟨hlengthRest.trans hlength, fun a ha => ?_⟩
    rcases hmemRest a ha with hbuffer | ⟨row', hrow', ha'⟩ | hzero
    · rcases hmem a hbuffer with hold | hnew | hzero
      · exact .inl hold
      · exact .inr (.inl ⟨row, List.mem_cons_self, hnew⟩)
      · exact .inr (.inr hzero)
    · exact .inr (.inl ⟨row', List.mem_cons_of_mem _ hrow', ha'⟩)
    · exact .inr (.inr hzero)

/-- **Buffers that hold some rows** exist, with entries of the rows and a filler. -/
theorem exists_held (hspans : List.Forall₂ (fun row span => IsSpan s (List.length row) span) rows spans) (filler : α)
    {start : ℕ} {before : List α} (hbefore : start = s.cpSize * before.length) :
    ∃ buffer : List α, buffer.length = slots s spans ∧ (∀ a ∈ buffer, a = filler ∨ ∃ row ∈ rows, a ∈ row) ∧
      List.Forall₂ (fun row p => Held s rank row p.1 p.2 (before ++ buffer)) rows
        ((start :: cumsum start spans).zip (cumsum start spans)) := by
  induction hspans generalizing start before with
  | nil => exact ⟨[], rfl, fun _ ha => absurd ha List.not_mem_nil, List.Forall₂.nil⟩
  | @cons row span rows spans hspan _ ih =>
    set part := (List.range (span / s.cpSize)).map fun slot => row.getD (s.position span rank slot) filler with hpart
    have hholds : Holds (s.position span rank) (span / s.cpSize) row part :=
      { length_eq := by rw [hpart, List.length_map, List.length_range]
        entry := by
          intro slot hslot hlt
          rw [hpart, List.getElem?_map, List.getElem?_range hslot, Option.map_some, List.getD_eq_getElem?_getD,
            List.getElem?_eq_getElem hlt, Option.getD_some] }
    obtain ⟨rest, hlength, hmem, hrest⟩ := @ih (start + span) (before ++ part) (by
      rw [List.length_append, hholds.length_eq, Nat.mul_add, Nat.mul_div_cancel' hspan.cpSize_dvd, hbefore])
    refine ⟨part ++ rest, ?_, ?_, ?_⟩
    · rw [List.length_append, hholds.length_eq, hlength, slots, slots, List.map_cons, List.sum_cons]
    · intro a ha
      rcases List.mem_append.1 ha with hfront | hback
      · rw [hpart] at hfront
        obtain ⟨slot, -, rfl⟩ := List.mem_map.1 hfront
        by_cases hlt : s.position span rank slot < row.length
        · refine .inr ⟨row, List.mem_cons_self, ?_⟩
          rw [List.getD_eq_getElem?_getD, List.getElem?_eq_getElem hlt, Option.getD_some]
          exact List.getElem_mem hlt
        · refine .inl ?_
          rw [List.getD_eq_getElem?_getD, List.getElem?_eq_none (by omega), Option.getD_none]
      · exact (hmem a hback).imp_right fun ⟨row', hrow', ha'⟩ => ⟨row', List.mem_cons_of_mem _ hrow', ha'⟩
    · rw [cumsum, List.zip_cons_cons]
      refine List.Forall₂.cons (held_of_holds hbefore hholds) ?_
      rw [List.append_assoc] at hrest
      exact hrest

/-- **Each token is in a slot** of its span on some rank. -/
theorem IsSpan.exists_position {n span t : ℕ} (h : IsSpan s n span) (ht : t < n) :
    ∃ rank < s.cpSize, ∃ slot < span / s.cpSize, s.position span rank slot = t := by
  obtain ⟨-, hsize, hposition⟩ | ⟨-, half, rfl, hchunk, -, -, hposition⟩ := h.cases
  · exact ⟨0, s.cpSize_pos, t, by rw [hsize]; exact Nat.lt_of_lt_of_le ht h.le, by rw [hposition, id]⟩
  · obtain ⟨rank, hrank, slot, hslot, hzigzag⟩ := exists_zigzag (Nat.lt_of_lt_of_le ht h.le)
    exact ⟨rank, hrank, slot, by rwa [hchunk], by rw [hposition, hzigzag]⟩

end Rows

/-! ## Packing -/

section Engine

variable {s : ParallelState} {zero : α} {dims : List ℕ} {useFp8Padding : Bool} {rank : ℕ} {rows : List (List α)}

def PackedSeqParams.spans (params : PackedSeqParams) : List (ℕ × ℕ) :=
  params.cuSeqlensQPadded.zip params.cuSeqlensQPadded.tail

theorem isSpan_layout (s : ParallelState) (useFp8Padding : Bool) (h : rows ≠ []) :
    List.Forall₂ (fun row span => IsSpan s (List.length row) span) rows
      (layout s useFp8Padding (rows.map List.length)).seqlensPadded := by
  rw [← List.forall₂_map_left_iff]
  exact (layout_spec s useFp8Padding (by rwa [ne_eq, List.map_eq_nil_iff])).2

theorem exists_longest {rows : List (List α)} (h : rows ≠ []) : ∃ longest, (rows.map List.length).max? = some longest :=
  Option.isSome_iff_exists.1 (List.isSome_max?_of_ne_nil (mt List.map_eq_nil_iff.1 h))

theorem params_some (s : ParallelState) (useFp8Padding : Bool) (h : rows ≠ []) :
    ∃ params, (layout s useFp8Padding (rows.map List.length)).params = some params ∧
      params.cuSeqlensQPadded = 0 :: cumsum 0 (layout s useFp8Padding (rows.map List.length)).seqlensPadded := by
  have hcu := (layout_spec s useFp8Padding (by rwa [ne_eq, List.map_eq_nil_iff] : rows.map List.length ≠ [])).1
  have hne : (layout s useFp8Padding (rows.map List.length)).seqlensPadded ≠ [] := fun hnil => by
    have hspans := isSpan_layout s useFp8Padding h
    rw [hnil, List.forall₂_nil_right_iff] at hspans
    exact h hspans
  obtain ⟨maxSeqlen, hmax⟩ := Option.isSome_iff_exists.1 (List.isSome_max?_of_ne_nil hne)
  exact ⟨_, by rw [Layout.params, hmax, Option.map_some], hcu⟩

/-- **A rank packs its slots** exactly when its first chunk of each row fits. -/
theorem preprocessThdEngine_some_iff (h : rows ≠ []) (hrank : rank < s.cpSize) :
    (∃ out, preprocessThdEngine s zero dims useFp8Padding rank rows = some out) ↔
      List.Forall₂ (fun row span => ChunkFits s dims (layout s useFp8Padding (rows.map List.length)).alignSize rank
          (List.length row) span)
        rows (layout s useFp8Padding (rows.map List.length)).seqlensPadded := by
  have hspans := isSpan_layout s useFp8Padding h
  obtain ⟨params, hparams, -⟩ := params_some s useFp8Padding h
  have hcu := (layout_spec s useFp8Padding (by rwa [ne_eq, List.map_eq_nil_iff] : rows.map List.length ≠ [])).1
  unfold preprocessThdEngine
  simp only [hparams, hcu, sum_div_cpSize hspans, Option.bind_eq_bind, Option.bind_some]
  constructor
  · rintro ⟨out, hout⟩
    obtain ⟨buffers, hbuffers, -⟩ := Option.bind_eq_some_iff.1 hout
    exact @fits_of_packRows _ s zero dims _ rank rows _ hspans hrank 0 [] [] (Nat.mul_zero _).symm rfl _ hbuffers
  · intro hfits
    obtain ⟨ids, positions, hrun, -⟩ := @packRows_some _ s zero dims _ rank rows _ hspans hrank hfits 0 [] []
      (Nat.mul_zero _).symm rfl
    rw [List.nil_append, List.nil_append] at hrun
    exact ⟨_, by rw [hrun, Option.bind_some]⟩

/-- **What a rank packs**: its slots of every row, and their positions. -/
theorem preprocessThdEngine_held (h : rows ≠ []) (hrank : rank < s.cpSize) {out : Packed α}
    (hout : preprocessThdEngine s zero dims useFp8Padding rank rows = some out) :
    List.Forall₂ (fun row p => Held s rank row p.1 p.2 out.inputIds ∧
        Held s rank (List.range (List.length row)) p.1 p.2 out.positionIds) rows out.params.spans ∧
      some out.params = (layout s useFp8Padding (rows.map List.length)).params := by
  have hspans := isSpan_layout s useFp8Padding h
  have hfits := (preprocessThdEngine_some_iff h hrank).1 ⟨out, hout⟩
  obtain ⟨params, hparams, hcuParams⟩ := params_some s useFp8Padding h
  have hcu := (layout_spec s useFp8Padding (by rwa [ne_eq, List.map_eq_nil_iff] : rows.map List.length ≠ [])).1
  obtain ⟨ids, positions, hrun, hheld⟩ := @packRows_some _ s zero dims _ rank rows _ hspans hrank hfits 0 [] []
    (Nat.mul_zero _).symm rfl
  rw [List.nil_append, List.nil_append, List.nil_append, List.nil_append] at hrun
  rw [List.nil_append, List.nil_append] at hheld
  unfold preprocessThdEngine at hout
  simp only [hparams, hcu, sum_div_cpSize hspans, Option.bind_eq_bind, Option.bind_some, hrun,
    Option.some.injEq] at hout
  subst hout
  refine ⟨?_, hparams.symm⟩
  rw [PackedSeqParams.spans, hcuParams, List.tail_cons]
  exact hheld

theorem preprocessThdEngine_ids (h : rows ≠ []) {out : Packed α}
    (hout : preprocessThdEngine s zero dims useFp8Padding rank rows = some out) :
    out.inputIds.length = slots s (layout s useFp8Padding (rows.map List.length)).seqlensPadded ∧
      ∀ a ∈ out.inputIds, a = zero ∨ ∃ row ∈ rows, a ∈ row := by
  have hspans := isSpan_layout s useFp8Padding h
  unfold preprocessThdEngine at hout
  obtain ⟨params, -, hout⟩ := Option.bind_eq_some_iff.1 hout
  obtain ⟨buffers, hbuffers, hout⟩ := Option.bind_eq_some_iff.1 hout
  obtain rfl := Option.some.inj hout
  obtain ⟨hlength, hmem⟩ := packRows_ids hbuffers
  refine ⟨?_, fun a ha => ?_⟩
  · rw [hlength, List.length_replicate, sum_div_cpSize hspans]
  · rcases hmem a ha with hbuffer | ⟨row, hrow, ha'⟩ | hzero
    · exact .inl (List.eq_of_mem_replicate hbuffer)
    · exact .inr ⟨row.1, (List.of_mem_zip hrow).1, ha'⟩
    · exact .inl hzero

theorem isSpan_spans (h : rows ≠ []) {params : PackedSeqParams}
    (hparams : some params = (layout s useFp8Padding (rows.map List.length)).params) :
    List.Forall₂ (fun row p => IsSpan s (List.length row) (p.2 - p.1)) rows params.spans := by
  obtain ⟨params', hparams', hcu⟩ := params_some s useFp8Padding h
  rw [hparams', Option.some.injEq] at hparams
  subst hparams
  rw [PackedSeqParams.spans, hcu, List.tail_cons]
  have hspans := isSpan_layout s useFp8Padding h
  generalize (layout s useFp8Padding (rows.map List.length)).seqlensPadded = spans at hspans
  clear hcu hparams' h
  generalize 0 = start
  induction hspans generalizing start with
  | nil => exact List.Forall₂.nil
  | @cons row span rows spans hspan _ ih =>
    rw [cumsum, List.zip_cons_cons]
    refine List.Forall₂.cons ?_ (ih (start + span))
    rw [Nat.add_sub_cancel_left]
    exact hspan

/-! ## Unpacking -/

/-- **A row that all ranks hold** comes back, converted to the default dtype if there are several ranks. -/
theorem unpackRow_eq {row : List β} {cuStart cuStop : ℕ} {outputList : ℕ → List β} (uninit : ℕ → β) (cast : β → β)
    (hspan : IsSpan s row.length (cuStop - cuStart))
    (h : ∀ j < s.cpSize, Held s j row cuStart cuStop (outputList j)) :
    unpackRow s uninit cast outputList row.length cuStart cuStop =
      some (if s.cpSize ≤ 1 then row else row.map cast) := by
  unfold unpackRow
  obtain ⟨hone, hsize, hposition⟩ | ⟨hcp, half, hhalf, hchunk, -, -, hposition⟩ := hspan.cases
  · have hheld := h 0 s.cpSize_pos
    rw [Held, hposition, hsize, hone, Nat.div_one] at hheld
    have htake := hheld.take_eq hspan.le
    rw [block, List.take_take, Nat.min_eq_left hspan.le] at htake
    rw [if_pos (by omega), if_pos (by omega), Option.some.injEq]
    exact htake
  · have hsize : 2 * half * s.cpSize = 2 * s.cpSize * half := by
      rw [Nat.mul_assoc, Nat.mul_comm half, Nat.mul_assoc]
    have hheld : ∀ j < s.cpSize, Holds (zigzag s.cpSize half j) (2 * half) (row.map cast)
        ((block (cuStart / s.cpSize) (2 * half) (outputList j)).map cast) := by
      intro j hj
      have hj' := h j hj
      rw [Held, hposition, hchunk] at hj'
      exact hj'.map cast
    generalize cuStart / s.cpSize = start at hheld ⊢
    -- the two chunks of a rank are the halves of its slots
    have hfront : ∀ j, (between start (start + half) (outputList j)).map cast =
        ((block start (2 * half) (outputList j)).map cast).take half := by
      intro j
      rw [between, Nat.add_sub_cancel_left, block, block, ← List.map_take, List.take_take, Nat.min_eq_left (by omega)]
    have hback : ∀ j, (between (start + half) (start + 2 * half) (outputList j)).map cast =
        ((block start (2 * half) (outputList j)).map cast).drop half := by
      intro j
      rw [between, block, block, ← List.map_drop, List.drop_take, List.drop_drop,
        show start + 2 * half - (start + half) = half by omega, show 2 * half - half = half by omega]
    obtain ⟨out, hmerge, -, htake⟩ := mergeEnds_halves hheld (by rw [List.length_map, ← hhalf]; exact hspan.le)
      (by rw [List.length_map, List.length_range] : ((List.range (2 * s.cpSize * half)).map uninit).length = _)
    rw [List.length_map] at htake
    rw [if_neg (by omega), if_neg (by omega)]
    simp only [hchunk, Nat.mul_div_cancel_left half Nat.zero_lt_two, hsize, hfront, hback, hmerge, Option.map_some, htake]

/-- **The outputs of all ranks**, put together. -/
theorem postprocessThdEngine_eq {rows : List (List β)} {params : PackedSeqParams} {outputList : ℕ → List β}
    (uninit : ℕ → β) (cast : β → β)
    (hspans : List.Forall₂ (fun row p => IsSpan s (List.length row) (p.2 - p.1)) rows params.spans)
    (h : ∀ j < s.cpSize, List.Forall₂ (fun row p => Held s j row p.1 p.2 (outputList j)) rows params.spans) :
    postprocessThdEngine s uninit cast outputList params (rows.map List.length) =
      some (rows.map fun row => if s.cpSize ≤ 1 then row else row.map cast) := by
  unfold postprocessThdEngine
  simp only
  rw [mapM_eq_some_iff]
  rw [← PackedSeqParams.spans]
  generalize params.spans = spans at hspans h
  induction hspans with
  | nil => exact List.Forall₂.nil
  | @cons row p rows spans hspan _ ih =>
    simp only [List.forall₂_cons] at h
    refine List.Forall₂.cons ?_ (ih fun j hj => (h j hj).2)
    exact unpackRow_eq uninit cast hspan fun j hj => (h j hj).1

end Engine

/-! ## Transparency -/

section Transparent

variable {s : ParallelState} {zero : α} {dims : List ℕ} {useFp8Padding : Bool} {rows : List (List α)}

/-- **Packing is transparent** for a function of each token: all ranks pack, the position of each slot is
that of its token, and the outputs of the ranks give those of the rows. -/
def ThdTransparent (s : ParallelState) (zero : α) (dims : List ℕ) (useFp8Padding : Bool) (uninit : ℕ → β)
    (cast : β → β) (f : α → β) (rows : List (List α)) : Prop :=
  ∃ out : ℕ → Packed α,
    (∀ r < s.cpSize, preprocessThdEngine s zero dims useFp8Padding r rows = some (out r)) ∧
    (∀ r < s.cpSize, List.Forall₂ (fun row p => Held s r row p.1 p.2 (out r).inputIds ∧
        Held s r (List.range (List.length row)) p.1 p.2 (out r).positionIds) rows (out r).params.spans) ∧
    ∀ r < s.cpSize, postprocessThdEngine s uninit cast (fun j => (out j).inputIds.map f) (out r).params
        (rows.map List.length) = some (rows.map (List.map f))

/-- A row fits on all ranks: there is one rank, or it needs no zeros or takes them, and its span is at most
twice as long as it is then, or the last rank has one token of its first chunk. -/
def RowFits (s : ParallelState) (dims : List ℕ) (alignSize seqlen span : ℕ) : Prop :=
  s.cpSize ≤ 1 ∨ (dims = [] ∨ alignSize ≤ seqlen * dims.prod) ∧
    (span ≤ 2 * rowLength dims alignSize seqlen ∨
      rowLength dims alignSize seqlen = span / s.cpSize / 2 * (s.cpSize - 1) + 1)

def RowsFit (s : ParallelState) (dims : List ℕ) (useFp8Padding : Bool) (seqlens : List ℕ) : Prop :=
  List.Forall₂ (RowFits s dims (layout s useFp8Padding seqlens).alignSize) seqlens
    (layout s useFp8Padding seqlens).seqlensPadded

theorem chunkFits_iff {alignSize seqlen span : ℕ} (hspan : IsSpan s seqlen span) :
    (∀ rank < s.cpSize, ChunkFits s dims alignSize rank seqlen span) ↔ RowFits s dims alignSize seqlen span := by
  unfold ChunkFits RowFits
  by_cases hcp : s.cpSize ≤ 1
  · exact ⟨fun _ => Or.inl hcp, fun _ _ _ => Or.inl hcp⟩
  obtain ⟨half, rfl⟩ := hspan.dvd (by omega)
  obtain ⟨-, hhalf⟩ := @chunks_of_dvd s _ half rfl
  rw [hhalf]
  generalize rowLength dims alignSize seqlen = m
  have hlast : 2 * s.cpSize * half = 2 * (half * (s.cpSize - 1) + half) := by
    rw [← Nat.mul_succ, Nat.succ_eq_add_one, Nat.sub_add_cancel s.cpSize_pos, Nat.mul_assoc, Nat.mul_comm half]
  rw [hlast]
  constructor
  · intro h
    obtain ⟨halign, hchunk⟩ := (h (s.cpSize - 1) (by omega)).resolve_left hcp
    refine Or.inr ⟨halign, ?_⟩
    simp only at hchunk
    have hzero : half = 0 → half * (s.cpSize - 1) = 0 := fun hhalf => by rw [hhalf, Nat.zero_mul]
    generalize half * (s.cpSize - 1) = before at hchunk hzero ⊢
    omega
  · intro h rank hrank
    obtain ⟨halign, hfits⟩ := h.resolve_left hcp
    refine Or.inr ⟨halign, ?_⟩
    simp only
    rcases Nat.lt_or_ge (rank + 1) s.cpSize with hbefore | hend
    · have hle : half * rank + half ≤ half * (s.cpSize - 1) := by
        rw [← Nat.mul_succ]
        exact Nat.mul_le_mul_left _ (by omega)
      omega
    · rw [show rank = s.cpSize - 1 by omega]
      omega

theorem forall₂_chunkFits {alignSize : ℕ} {spans : List ℕ}
    (hspans : List.Forall₂ (fun row span => IsSpan s (List.length row) span) rows spans) :
    (∀ rank < s.cpSize, List.Forall₂ (fun row span => ChunkFits s dims alignSize rank (List.length row) span) rows spans) ↔
      List.Forall₂ (RowFits s dims alignSize) (rows.map List.length) spans := by
  rw [List.forall₂_map_left_iff]
  induction hspans with
  | nil => exact ⟨fun _ => List.Forall₂.nil, fun _ _ _ => List.Forall₂.nil⟩
  | cons hspan _ ih =>
    simp only [List.forall₂_cons]
    constructor
    · intro h
      exact ⟨(chunkFits_iff hspan).1 fun rank hrank => (h rank hrank).1, ih.1 fun rank hrank => (h rank hrank).2⟩
    · intro h rank hrank
      exact ⟨(chunkFits_iff hspan).2 h.1 rank hrank, ih.2 h.2 rank hrank⟩

theorem map_cast_eq_iff {cast : β → β} {f : α → β} :
    rows.map (fun row => if s.cpSize ≤ 1 then row.map f else (row.map f).map cast) = rows.map (List.map f) ↔
      s.cpSize ≤ 1 ∨ ∀ row ∈ rows, ∀ a ∈ row, cast (f a) = f a := by
  by_cases hcp : s.cpSize ≤ 1
  · simp only [if_pos hcp]
    exact ⟨fun _ => Or.inl hcp, fun _ => trivial⟩
  · simp only [if_neg hcp, List.map_map, List.map_inj_left, Function.comp_apply]
    exact ⟨Or.inr, fun h => h.resolve_left hcp⟩

/-- **Packing is transparent exactly when** the rows fit on all ranks, and the default dtype has the
outputs if there are several ranks. -/
theorem thd_iff (uninit : ℕ → β) (cast : β → β) (f : α → β) (h : rows ≠ []) :
    ThdTransparent s zero dims useFp8Padding uninit cast f rows ↔
      RowsFit s dims useFp8Padding (rows.map List.length) ∧
        (s.cpSize ≤ 1 ∨ ∀ row ∈ rows, ∀ a ∈ row, cast (f a) = f a) := by
  have hspans := isSpan_layout s useFp8Padding h
  -- what is put together from the outputs of all ranks
  have hpost : ∀ out : ℕ → Packed α,
      (∀ r < s.cpSize, preprocessThdEngine s zero dims useFp8Padding r rows = some (out r)) →
      ∀ r < s.cpSize, postprocessThdEngine s uninit cast (fun j => (out j).inputIds.map f) (out r).params
        (rows.map List.length) =
          some (rows.map fun row => if s.cpSize ≤ 1 then row.map f else (row.map f).map cast) := by
    intro out hout r hr
    have hparams := fun j hj => (preprocessThdEngine_held h hj (hout j hj)).2
    have hsame : ∀ j < s.cpSize, (out j).params = (out r).params :=
      fun j hj => Option.some.inj ((hparams j hj).trans (hparams r hr).symm)
    have heq := @postprocessThdEngine_eq β s (rows.map (List.map f)) (out r).params
      (fun j => (out j).inputIds.map f) uninit cast (by
        rw [List.forall₂_map_left_iff]
        refine (isSpan_spans h (hparams r hr)).imp fun row p hspan => ?_
        rwa [List.length_map]) (fun j hj => by
        rw [List.forall₂_map_left_iff, ← hsame j hj]
        exact (preprocessThdEngine_held h hj (hout j hj)).1.imp fun row p hheld => hheld.1.map f)
    rw [List.map_map, List.map_map] at heq
    have hlengths : List.length ∘ List.map f = List.length := funext fun row => List.length_map f
    rw [hlengths] at heq
    exact heq
  unfold RowsFit
  rw [← forall₂_chunkFits hspans, ← @map_cast_eq_iff α β s rows cast f]
  constructor
  · rintro ⟨out, hout, -, hrows⟩
    refine ⟨fun r hr => (preprocessThdEngine_some_iff h hr).1 ⟨out r, hout r hr⟩, ?_⟩
    have hrun := hrows 0 s.cpSize_pos
    rw [hpost out hout 0 s.cpSize_pos, Option.some.injEq] at hrun
    exact hrun
  · rintro ⟨hfits, hcast⟩
    have hsome : ∀ r, ∃ out : Packed α, r < s.cpSize → preprocessThdEngine s zero dims useFp8Padding r rows = some out := by
      intro r
      by_cases hr : r < s.cpSize
      · obtain ⟨out, hout⟩ := (preprocessThdEngine_some_iff h hr).2 (hfits r hr)
        exact ⟨out, fun _ => hout⟩
      · obtain ⟨out, -⟩ := (@preprocessThdEngine_some_iff _ s zero _ _ _ _ h s.cpSize_pos).2 (hfits 0 s.cpSize_pos)
        exact ⟨out, fun hr' => absurd hr' hr⟩
    obtain ⟨out, hout⟩ := Classical.axiomOfChoice hsome
    refine ⟨out, hout, fun r hr => (preprocessThdEngine_held h hr (hout r hr)).1, fun r hr => ?_⟩
    rw [hpost out hout r hr, hcast]

end Transparent

end Opd.Verl.ThdPacking

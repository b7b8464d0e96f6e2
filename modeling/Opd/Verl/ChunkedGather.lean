import Opd.Lib.Chunks
import Opd.Verl.FoldBatch
import Mathlib.Algebra.Ring.Int.Defs

/-!
# The gathered log-probs of a student, chunk by chunk

`_chunked_topk_log_probs` gathers the logits of some tokens at each position and subtracts the `logsumexp` of the
position, for one chunk of the positions after the other. The number of positions is not given to `reshape` but
inferred from the size of the last dimension.

* `chunkLogProbs_eq`: a chunk of positions.
* `gathersLogSoftmax_iff`: the result has the log-probs of all positions just where neither the vocabulary nor the
  number of the gathered tokens is empty. Otherwise the number of positions cannot be inferred.
-/

namespace Opd.Verl.ChunkedGather

open Lib FoldBatch

inductive GatherError
  | indexError
  | valueError (message : String)
  | runtimeError (message : String)
  deriving DecidableEq

variable {α K : Type} [Sub K]

/-- `reshape(-1, width)`, for the size of the last dimension: one row for each position. -/
def reshapeRows (a : Arr α) (width : ℕ) : Except GatherError (List (List α)) :=
  if width = 0 then
    .error (.runtimeError ("cannot reshape tensor of 0 elements into shape [-1, 0] because the unspecified " ++
      "dimension size -1 can be any value and is ambiguous"))
  else .ok ((List.range (a.data.length / width)).map fun r => block (r * width) width a.data)

/-- `reshape` to a given shape. -/
def reshape (data : List K) (shape : List ℕ) : Except GatherError (Arr K) :=
  if h : data.length = shape.prod then .ok ⟨shape, data, h⟩
  else .error (.runtimeError s!"shape '{shape}' is invalid for input of size {data.length}")

def gatherRow (x : List K) (ids : List ℕ) : Except GatherError (List K) :=
  ids.mapM fun i =>
    match x[i]? with
    | some a => .ok a
    | none => .error (.runtimeError s!"index {i} is out of bounds for dimension 1 with size {x.length}")

/-- `torch.gather(logits, dim=-1, index=topk)` -/
def gatherRows (logits : List (List K)) (topk : List (List ℕ)) : Except GatherError (List (List K)) :=
  if topk.length ≤ logits.length then (logits.zip topk).mapM fun p => gatherRow p.1 p.2
  else .error (.runtimeError "Expected index to be no larger than self apart from dimension 1")

/-- The difference of the gathered rows and a column, of which one is broadcast if it has one row. -/
def subColumn (rows : List (List K)) (column : List K) : Except GatherError (List (List K)) :=
  if rows.length = column.length then .ok (List.zipWith (fun row z => row.map (· - z)) rows column)
  else
    match rows, column with
    | [row], column => .ok (column.map fun z => row.map (· - z))
    | rows, [z] => .ok (rows.map fun row => row.map (· - z))
    | rows, column => .error (.runtimeError (s!"The size of tensor a ({rows.length}) must match the size of " ++
        s!"tensor b ({column.length}) at non-singleton dimension 0"))

def chunkLogProbs (logsumexp : List K → K) (logits : List (List K)) (topk : List (List ℕ)) :
    Except GatherError (List (List K)) := do
  let logZ := logits.map logsumexp
  let topkLogits ← gatherRows logits topk
  subColumn topkLogits logZ

/-- A pass of the loop: the chunk that starts at some position is written into the buffer. -/
def writeChunk (logsumexp : List K → K) (logits : List (List K)) (topk : List (List ℕ)) (chunkSize : ℕ)
    (out : List (List K)) (s : ℕ) : Except GatherError (List (List K)) := do
  let e := min (s + chunkSize) logits.length
  let chunk ← chunkLogProbs logsumexp (block s (e - s) logits) (block s (e - s) topk)
  match assign out s e chunk with
  | some out => .ok out
  | none => .error (.runtimeError "The expanded size of the tensor must match the existing size at dimension 0")

/-- **`_chunked_topk_log_probs`**, with the entries of the buffers that are not initialized. -/
def chunkedTopkLogProbs (logsumexp : List K → K) (uninit : ℕ → K) (logits : Arr K) (topkIds : Arr ℕ) (chunkSize : ℕ) :
    Except GatherError (Arr K) :=
  match logits.shape with
  | [b, t, v] =>
    match topkIds.shape.getLast? with
    | none => .error .indexError
    | some k => do
      let flatLogits ← reshapeRows logits v
      let flatTopk ← reshapeRows topkIds k
      let n := flatLogits.length
      if n = 0 then reshape ((List.range (b * t * k)).map uninit) [b, t, k]
      else if chunkSize = 0 then .error (.valueError "range() arg 3 must not be zero")
      else do
        let out := (List.range n).map fun r => (List.range k).map fun j => uninit (r * k + j)
        let out ← (List.range' 0 ((n + chunkSize - 1) / chunkSize) chunkSize).foldlM
          (writeChunk logsumexp flatLogits flatTopk chunkSize) out
        reshape out.flatten [b, t, k]
  | shape => .error (.valueError s!"expected 3 values to unpack, got {shape.length}")

/-! ## The log-probs of the positions -/

def position (a : Arr α) (t width i j : ℕ) : List α := block ((i * t + j) * width) width a.data

/-- An entry of `log_softmax`. -/
def logSoftmaxAt (logsumexp : List K → K) (x : List K) (id : ℕ) : Option K := (x[id]?).map fun a => a - logsumexp x

/-- **The result has the log-prob of each of the tokens** at each position, in the shape of the index tensor. -/
def GathersLogSoftmax (logsumexp : List K → K) (uninit : ℕ → K) (b t v k : ℕ) (logits : Arr K) (topkIds : Arr ℕ)
    (chunkSize : ℕ) : Prop :=
  ∃ out, chunkedTopkLogProbs logsumexp uninit logits topkIds chunkSize = .ok out ∧ out.shape = [b, t, k] ∧
    ∀ i < b, ∀ j < t, ∀ l < k, ∃ id, (position topkIds t k i j)[l]? = some id ∧
      (position out t k i j)[l]? = logSoftmaxAt logsumexp (position logits t v i j) id

/-! ## A chunk -/

variable {logsumexp : List K → K} {uninit : ℕ → K}

/-- The log-probs of a row, with a value for tokens that are not in it. -/
def rowLogProbs (logsumexp : List K → K) (d : K) (p : List K × List ℕ) : List K :=
  p.2.map fun id => p.1.getD id d - logsumexp p.1

omit [Sub K] in
theorem gatherRow_eq {x : List K} {ids : List ℕ} (h : ∀ id ∈ ids, id < x.length) (d : K) :
    gatherRow x ids = .ok (ids.map fun id => x.getD id d) := by
  unfold gatherRow
  refine mapM_eq_map fun id hid => ?_
  rw [List.getD_eq_getElem?_getD, List.getElem?_eq_getElem (h id hid)]
  rfl

theorem chunkLogProbs_eq {logits : List (List K)} {topk : List (List ℕ)} (hlength : logits.length = topk.length)
    (h : ∀ p ∈ logits.zip topk, ∀ id ∈ p.2, id < p.1.length) (d : K) :
    chunkLogProbs logsumexp logits topk = .ok ((logits.zip topk).map (rowLogProbs logsumexp d)) := by
  have hgather : gatherRows logits topk =
      .ok ((logits.zip topk).map fun p => p.2.map fun id => p.1.getD id d) := by
    unfold gatherRows
    rw [if_pos hlength.ge]
    exact mapM_eq_map fun p hp => gatherRow_eq (h p hp) d
  have hcolumn : logits.map logsumexp = (logits.zip topk).map fun p => logsumexp p.1 := by
    have hfst : (logits.zip topk).map Prod.fst = logits := List.map_fst_zip hlength.le
    conv_lhs => rw [← hfst, List.map_map]
    rfl
  unfold chunkLogProbs
  rw [hgather]
  refine Eq.trans (if_pos ?_) ?_
  · rw [List.length_map, List.length_map, List.length_zip, hlength, Nat.min_self]
  · rw [hcolumn, List.zipWith_map, List.zipWith_self]
    congr 1
    refine List.map_congr_left fun p _ => ?_
    rw [rowLogProbs, List.map_map]
    rfl

/-- **The loop** leaves the log-probs of all rows in the buffer. -/
theorem writeChunk_spec {logits : List (List K)} {topk : List (List ℕ)} (hlength : logits.length = topk.length)
    (h : ∀ p ∈ logits.zip topk, ∀ id ∈ p.2, id < p.1.length) (d : K) {chunkSize : ℕ} (hchunk : 0 < chunkSize)
    {init : List (List K)} (hinit : init.length = logits.length) :
    (List.range' 0 ((logits.length + chunkSize - 1) / chunkSize) chunkSize).foldlM
      (writeChunk logsumexp logits topk chunkSize) init = .ok ((logits.zip topk).map (rowLogProbs logsumexp d)) := by
  have hall : ((logits.zip topk).map (rowLogProbs logsumexp d)).length = logits.length := by
    rw [List.length_map, List.length_zip, hlength, Nat.min_self]
  have hpass : ∀ out start, out.length = ((logits.zip topk).map (rowLogProbs logsumexp d)).length →
      start < ((logits.zip topk).map (rowLogProbs logsumexp d)).length →
      writeChunk logsumexp logits topk chunkSize out start = pure (out.take start ++
        (block start chunkSize ((logits.zip topk).map (rowLogProbs logsumexp d)) ++
          out.drop (start + chunkSize))) := by
    intro out start hout hstart
    have hblocks : (block start chunkSize logits).length = (block start chunkSize topk).length := by
      simp only [block, List.length_take, List.length_drop, hlength]
    have hvalid : ∀ p ∈ (block start chunkSize logits).zip (block start chunkSize topk),
        ∀ id ∈ p.2, id < p.1.length := by
      intro p hp
      rw [← block_zip] at hp
      exact h p (List.mem_of_mem_drop (List.mem_of_mem_take hp))
    have hassign := assign_chunk (c := chunkSize) hout hstart
    rw [hall] at hassign
    unfold writeChunk
    simp only [block_min]
    rw [hlength, block_min, chunkLogProbs_eq hblocks hvalid d, ← block_zip, ← block_map, ← hlength]
    simp only [Bind.bind, Except.bind, hassign]
    rfl
  have hloop := foldlM_chunks hchunk (hinit.trans hall.symm) hpass
  rw [hall] at hloop
  exact hloop

/-! ## All positions -/

omit [Sub K] in
theorem length_data_of_shape {a : Arr α} {b t w : ℕ} (h : a.shape = [b, t, w]) : a.data.length = b * t * w := by
  rw [a.length_data, h, List.prod_cons, List.prod_cons, List.prod_cons, List.prod_nil, Nat.mul_one, Nat.mul_assoc]

omit [Sub K] in
theorem reshapeRows_eq {a : Arr α} {b t w : ℕ} (h : a.shape = [b, t, w]) (hpos : 0 < w) :
    reshapeRows a w = .ok ((List.range (b * t)).map fun r => block (r * w) w a.data) := by
  unfold reshapeRows
  rw [if_neg hpos.ne', length_data_of_shape h, Nat.mul_div_cancel _ hpos]

omit [Sub K] in
theorem pos_of_reshapeRows {a : Arr α} {w : ℕ} (h : ∃ rows, reshapeRows a w = .ok rows) : 0 < w := by
  obtain ⟨rows, hrows⟩ := h
  unfold reshapeRows at hrows
  split at hrows
  · cases hrows
  · omega

omit [Sub K] in
theorem length_row {a : Arr α} {b t w r : ℕ} (h : a.shape = [b, t, w]) (hr : r < b * t) :
    (block (r * w) w a.data).length = w := by
  refine length_block ?_
  rw [length_data_of_shape h, ← Nat.succ_mul]
  exact Nat.mul_le_mul_right w hr

theorem lt_of_position {b t i j : ℕ} (hi : i < b) (hj : j < t) : i * t + j < b * t := by
  have := Nat.mul_le_mul_right t (Nat.succ_le_of_lt hi)
  rw [Nat.succ_mul] at this
  omega

variable {b t v k : ℕ} {logits : Arr K} {topkIds : Arr ℕ} {chunkSize : ℕ}

def rowAt (logits : Arr K) (topkIds : Arr ℕ) (v k r : ℕ) : List K × List ℕ :=
  (block (r * v) v logits.data, block (r * k) k topkIds.data)

omit [Sub K] in
theorem zip_rows (logits : Arr K) (topkIds : Arr ℕ) (n v k : ℕ) :
    ((List.range n).map fun r => block (r * v) v logits.data).zip
      ((List.range n).map fun r => block (r * k) k topkIds.data) = (List.range n).map (rowAt logits topkIds v k) :=
  List.zip_map'

/-- **The result**, if the number of positions can be inferred. -/
theorem chunkedTopkLogProbs_eq (hlogits : logits.shape = [b, t, v]) (htopk : topkIds.shape = [b, t, k])
    (hids : ∀ id ∈ topkIds.data, id < v) (hchunk : 1 ≤ chunkSize) (hv : 0 < v) (hk : 0 < k) :
    ∃ h, chunkedTopkLogProbs logsumexp uninit logits topkIds chunkSize =
      .ok ⟨[b, t, k], (List.range (b * t)).flatMap fun r =>
        rowLogProbs logsumexp (uninit 0) (rowAt logits topkIds v k r), h⟩ := by
  have hrow : ∀ r ∈ List.range (b * t),
      (rowLogProbs logsumexp (uninit 0) (rowAt logits topkIds v k r)).length = k := by
    intro r hr
    rw [rowLogProbs, List.length_map]
    exact length_row htopk (List.mem_range.1 hr)
  have hsize : ((List.range (b * t)).flatMap fun r =>
      rowLogProbs logsumexp (uninit 0) (rowAt logits topkIds v k r)).length = [b, t, k].prod := by
    rw [List.length_flatMap, List.map_congr_left hrow, List.map_const', List.sum_replicate_nat, List.length_range,
      List.prod_cons, List.prod_cons, List.prod_cons, List.prod_nil, Nat.mul_one, Nat.mul_assoc]
  refine ⟨hsize, ?_⟩
  have hshape : reshape ((List.range (b * t)).flatMap fun r =>
      rowLogProbs logsumexp (uninit 0) (rowAt logits topkIds v k r)) [b, t, k] = .ok ⟨[b, t, k], _, hsize⟩ :=
    dif_pos hsize
  unfold chunkedTopkLogProbs
  rw [hlogits, htopk]
  simp only [List.getLast?_cons_cons, List.getLast?_singleton, reshapeRows_eq hlogits hv, reshapeRows_eq htopk hk,
    Bind.bind, Except.bind, List.length_map, List.length_range]
  by_cases hempty : b * t = 0
  · rw [if_pos hempty, ← hshape, hempty, Nat.zero_mul]
    rfl
  · have hlength : ((List.range (b * t)).map fun r => block (r * v) v logits.data).length =
        ((List.range (b * t)).map fun r => block (r * k) k topkIds.data).length := by
      rw [List.length_map, List.length_map]
    have hvalid : ∀ p ∈ ((List.range (b * t)).map fun r => block (r * v) v logits.data).zip
        ((List.range (b * t)).map fun r => block (r * k) k topkIds.data), ∀ id ∈ p.2, id < p.1.length := by
      intro p hp id hid
      rw [zip_rows] at hp
      obtain ⟨r, hr, rfl⟩ := List.mem_map.1 hp
      rw [rowAt, length_row hlogits (List.mem_range.1 hr)]
      exact hids id (List.mem_of_mem_drop (List.mem_of_mem_take hid))
    have hloop := @writeChunk_spec K _ logsumexp _ _ hlength hvalid (uninit 0) chunkSize hchunk
      ((List.range (b * t)).map fun r => (List.range k).map fun j => uninit (r * k + j))
      (by rw [List.length_map, List.length_map])
    rw [zip_rows, List.length_map, List.length_range] at hloop
    rw [if_neg hempty, if_neg (by omega), hloop, ← hshape, List.map_map, List.flatMap]
    rfl

/-- **The log-probs are gathered** just where neither the vocabulary nor the number of tokens is empty. -/
theorem gathersLogSoftmax_iff (hlogits : logits.shape = [b, t, v]) (htopk : topkIds.shape = [b, t, k])
    (hids : ∀ id ∈ topkIds.data, id < v) (hchunk : 1 ≤ chunkSize) :
    GathersLogSoftmax logsumexp uninit b t v k logits topkIds chunkSize ↔ 0 < v ∧ 0 < k := by
  constructor
  · rintro ⟨out, hrun, -, -⟩
    have hwidths : (∃ rows, reshapeRows logits v = .ok rows) ∧ ∃ rows, reshapeRows topkIds k = .ok rows := by
      unfold chunkedTopkLogProbs at hrun
      rw [hlogits, htopk] at hrun
      obtain ⟨rows, hrows, hrun⟩ := bind_eq_ok.1 hrun
      obtain ⟨rows', hrows', -⟩ := bind_eq_ok.1 hrun
      exact ⟨⟨rows, hrows⟩, rows', hrows'⟩
    exact ⟨pos_of_reshapeRows hwidths.1, pos_of_reshapeRows hwidths.2⟩
  · rintro ⟨hv, hk⟩
    obtain ⟨h, hrun⟩ := @chunkedTopkLogProbs_eq K _ logsumexp uninit _ _ _ _ _ _ _ hlogits htopk hids hchunk hv hk
    refine ⟨_, hrun, rfl, fun i hi j hj l hl => ?_⟩
    have hr := lt_of_position hi hj
    have hrow := length_row htopk hr
    have hlogit := length_row hlogits hr
    obtain ⟨id, hid⟩ : ∃ id, (position topkIds t k i j)[l]? = some id :=
      ⟨_, List.getElem?_eq_getElem (by rw [position, hrow]; exact hl)⟩
    have hlt : id < v := hids id (List.mem_of_mem_drop (List.mem_of_mem_take (List.mem_of_getElem? hid)))
    refine ⟨id, hid, ?_⟩
    have hout : position ⟨[b, t, k], _, h⟩ t k i j =
        rowLogProbs logsumexp (uninit 0) (rowAt logits topkIds v k (i * t + j)) := by
      refine block_flatMap (fun r hr => ?_) (List.getElem?_range hr)
      rw [rowLogProbs, List.length_map]
      exact length_row htopk (List.mem_range.1 hr)
    have hentry : (rowAt logits topkIds v k (i * t + j)).2[l]? = some id := hid
    rw [hout, rowLogProbs, List.getElem?_map, hentry, Option.map_some, logSoftmaxAt, position,
      List.getElem?_eq_getElem (by rw [hlogit]; exact hlt), Option.map_some, rowAt, List.getD_eq_getElem?_getD,
      List.getElem?_eq_getElem (by rw [hlogit]; exact hlt)]
    rfl

/-- Three positions of two tokens, and one token to gather at each. -/
def threeRows : List ℤ := [3, 5, 2, 0, 1, 4]

theorem length_threeRows : threeRows.length = [1, 3, 2].prod := rfl

theorem length_oneToken : [1, 0, 1].length = [1, 3, 1].prod := rfl

theorem length_noToken : ([] : List ℕ).length = [1, 3, 0].prod := rfl

def threePositions : Arr ℤ := ⟨[1, 3, 2], threeRows, length_threeRows⟩

def oneTokenEach : Arr ℕ := ⟨[1, 3, 1], [1, 0, 1], length_oneToken⟩

def noTokens : Arr ℕ := ⟨[1, 3, 0], [], length_noToken⟩

theorem threePositions_gathered :
    GathersLogSoftmax List.sum (fun _ => 0) 1 3 2 1 threePositions oneTokenEach 2 :=
  (gathersLogSoftmax_iff rfl rfl (by decide) (by decide)).2 (by decide)

/-- The number of positions cannot be inferred from an index tensor without tokens. -/
theorem not_gathersLogSoftmax : ¬ GathersLogSoftmax List.sum (fun _ => 0) 1 3 2 0 threePositions noTokens 2 := by
  rintro ⟨out, hrun, -⟩
  have herror : chunkedTopkLogProbs List.sum (fun _ => 0) threePositions noTokens 2 = .error (.runtimeError
      ("cannot reshape tensor of 0 elements into shape [-1, 0] because the unspecified " ++
        "dimension size -1 can be any value and is ambiguous")) := rfl
  rw [herror] at hrun
  cases hrun

end Opd.Verl.ChunkedGather

import Opd.Verl.FoldBatch
import Opd.Verl.MultiTrajectories

/-!
# Padding samples for a batch

A batch of stored samples is filled up to a multiple of the number of ranks. The padding samples have the form of the
first sample, one token for the prompt and one for the response, and a `uid` of their own.

* `upsample_sizes`: the length of the batch.
* `upsample_store`: the stored samples, and the padding samples.
* `upsample_spec`: all of this, and the advantages of the samples.
-/

namespace Opd.Verl.UpsampleBatch

open Lib FoldBatch GroupIndex OutcomeAdvantage MultiTrajectories

/-! ## Samples -/

/-- The value of a field: a tensor of integers or of floats, or an object. -/
inductive Value (K O : Type)
  | ints (t : Arr ℤ)
  | floats (t : Arr K)
  | int (z : ℤ)
  | bool (b : Bool)
  | str (s : String)
  | dict (items : List (String × O))
  | object (o : O)

abbrev Fields (K O : Type) := Dict String (Value K O)

variable {K O X : Type} [Field K]

/-- `dict.update` -/
def update (d : Fields K O) (items : List (String × Value K O)) : Fields K O := d.merge (fun _ v => v) items

theorem length_vector {α : Type} (l : List α) : l.length = [l.length].prod := List.prod_singleton.symm

def vector {α : Type} (l : List α) : Arr α where
  shape := [l.length]
  data := l
  length_data := length_vector l

/-- `torch.zeros` -/
def zeros {α : Type} [Zero α] (shape : List ℕ) : Arr α where
  shape := shape
  data := List.replicate shape.prod 0
  length_data := by rw [List.length_replicate]

/-- `compute_position_id_with_mask`, of one row. -/
def computePositionIdWithMask (mask : List ℤ) : List ℤ :=
  (List.range mask.length).map fun i => max ((mask.take (i + 1)).sum - 1) 0

/-- `position_ids.reshape(view_shape).expand(*shape[:-1], -1)`, for a shape with at least two dimensions. -/
def expandIds {α : Type} (shape : List ℕ) (ids : List α) : Arr α :=
  if shape.length ≤ 1 then vector ids
  else {
    shape := shape.dropLast ++ [ids.length]
    data := (List.replicate shape.dropLast.prod ids).flatten
    length_data := by
      rw [List.length_flatten, List.map_replicate, List.sum_replicate_nat, List.prod_append, List.prod_singleton] }

/-- `build_padding_position_ids` -/
def buildPaddingPositionIds (sourcePositionIds : Option (Value K O)) (attentionMask : List ℤ) : Value K O :=
  let positionIds := computePositionIdWithMask attentionMask
  match sourcePositionIds with
  | some (.ints t) => .ints (expandIds t.shape positionIds)
  | some (.floats t) => .floats (expandIds t.shape (positionIds.map Int.cast))
  | _ => .ints (vector positionIds)

def expertShape (shape : List ℕ) (seqLen : ℕ) : List ℕ :=
  match shape with
  | [] => []
  | _ :: rest => seqLen :: rest

/-- `build_padding_routed_experts` -/
def buildPaddingRoutedExperts (sourceRoutedExperts : Option (Value K O)) (seqLen : ℕ) : Option (Value K O) :=
  match sourceRoutedExperts with
  | some (.ints t) => some (.ints (zeros (expertShape t.shape seqLen)))
  | some (.floats t) => some (.floats (zeros (expertShape t.shape seqLen)))
  | _ => none

def minimalFields (sourceTd : Fields K O) (eosTokenId : ℤ) : List (String × Value K O) :=
  [("prompts", .ints (vector [eosTokenId])), ("responses", .ints (vector [eosTokenId])),
    ("input_ids", .ints (vector [eosTokenId, eosTokenId])), ("attention_mask", .ints (vector [1, 1])),
    ("position_ids", buildPaddingPositionIds (sourceTd.get? "position_ids") [1, 1]), ("num_turns", .int 0),
    ("response_mask", .ints (vector [0])), ("loss_mask", .ints (vector [0])), ("rm_scores", .floats (vector [0])),
    ("rollout_log_probs", .floats (vector [0]))]

/-- `construct_minimal_padding_template`: the sample and the tag. -/
def constructMinimalPaddingTemplate (sourceTd sourceTag : Fields K O) (eosTokenId : ℤ) : Fields K O × Fields K O :=
  let templateSample := update sourceTd (minimalFields sourceTd eosTokenId)
  let templateSample :=
    if "multi_modal_inputs" ∈ templateSample.keys then templateSample.update "multi_modal_inputs" fun _ => .dict []
    else templateSample
  let templateSample :=
    match buildPaddingRoutedExperts (sourceTd.get? "routed_experts") 2 with
    | some routedExperts => templateSample.update "routed_experts" fun _ => routedExperts
    | none => templateSample.clear ["routed_experts"]
  (templateSample,
    update sourceTag [("is_padding", .bool true), ("prompt_len", .int 1), ("response_len", .int 1), ("seq_len", .int 2)])

/-! ## The batch -/

/-- `KVBatchMeta` -/
structure KVBatchMeta (K O X : Type) where
  keys : List String
  tags : List (Fields K O)
  partitionId : String
  fields : Option (List String)
  extraInfo : X

abbrev Store (K O : Type) := Dict (String × String) (Fields K O × Fields K O)

/-- What is stored under a key: new fields are added to those that are there. -/
def putFields (old : Option (Fields K O × Fields K O)) (new : Fields K O × Fields K O) : Fields K O × Fields K O :=
  match old with
  | none => new
  | some old => (update old.1 new.1.items, update old.2 new.2.items)

/-- `tq.kv_batch_put` -/
def kvBatchPut (store : Store K O) (partitionId : String) (items : List (String × Fields K O × Fields K O)) :
    Store K O :=
  store.merge putFields (items.map fun item => ((partitionId, item.1), item.2))

def padKey (padUid : String) (localIdx : ℕ) : String := padUid ++ "_" ++ toString localIdx ++ "_0"

def padSample (templateSample : Fields K O) (localIdx : ℕ) : Fields K O :=
  if "session_id" ∈ templateSample.keys then templateSample.update "session_id" fun _ => .int localIdx
  else templateSample

/-- `upsample_batch_to_divisible_size`, with the text of `uuid.uuid4().hex`: the stored samples, and the batch. A batch
without a multiple, or a key that is not stored, is an error. -/
def upsampleBatchToDivisibleSize (hex : String) (store : Store K O) (batch : KVBatchMeta K O X) (batchMultiple : ℕ)
    (eosTokenId : ℤ) : Option (Store K O × KVBatchMeta K O X) :=
  if batchMultiple = 0 then none
  else
    let remainder := batch.keys.length % batchMultiple
    if remainder = 0 then some (store, batch)
    else do
      let sourceKey ← batch.keys[0]?
      let source ← store.get? (batch.partitionId, sourceKey)
      let sourceTag ← batch.tags[0]?
      let template := constructMinimalPaddingTemplate source.1 sourceTag eosTokenId
      let padUid := "pad" ++ hex
      let templateSample := template.1.update "uid" fun _ => .str padUid
      let pads := (List.range (batchMultiple - remainder)).map fun localIdx =>
        (padKey padUid localIdx, padSample templateSample localIdx, template.2)
      some (kvBatchPut store batch.partitionId pads,
        { batch with
          keys := batch.keys ++ pads.map fun pad => pad.1
          tags := batch.tags ++ pads.map fun pad => pad.2.2 })

/-! ## The advantages -/

/-- What the estimators read of a sample. -/
structure Trajectory (K : Type) where
  tokenLevelRewards : List K
  responseMask : List Bool
  uid : Label
  length_eq : tokenLevelRewards.length = responseMask.length

/-- A sample with a score for each token of the mask, whose values are 0 and 1. -/
def readTrajectory (sample : Fields K O) : Option (Trajectory K) :=
  match sample.get? "uid", sample.get? "response_mask", sample.get? "rm_scores" with
  | some (.str uid), some (.ints mask), some (.floats scores) =>
    if h : scores.data.length = mask.data.length ∧ ∀ z ∈ mask.data, z = 0 ∨ z = 1 then
      some ⟨scores.data, mask.data.map fun z => decide (z = 1), .str uid, by rw [List.length_map, h.1]⟩
    else none
  | _, _, _ => none

def padTo {α : Type} (width : ℕ) (a : α) (l : List α) : List α := l ++ List.replicate (width - l.length) a

def paddedRow (width : ℕ) (t : Trajectory K) : MultiTrajectories.Row K Unit where
  tokenLevelRewards := padTo width 0 t.tokenLevelRewards
  responseMask := padTo width false t.responseMask
  uid := t.uid
  rest := ()

def maxLength (ts : List (Trajectory K)) : ℕ := (ts.map fun t => t.responseMask.length).foldr max 0

omit [Field K] in
theorem length_le_maxLength {ts : List (Trajectory K)} {t : Trajectory K} (h : t ∈ ts) :
    t.responseMask.length ≤ maxLength ts := by
  unfold maxLength
  induction ts with
  | nil => exact absurd h List.not_mem_nil
  | cons head ts ih =>
    rw [List.map_cons, List.foldr_cons]
    rcases List.mem_cons.1 h with rfl | hmem
    · exact Nat.le_max_left _ _
    · exact Nat.le_trans (ih hmem) (Nat.le_max_right _ _)

omit [Field K] in
theorem maxLength_le {ts : List (Trajectory K)} {n : ℕ} (h : ∀ t ∈ ts, t.responseMask.length ≤ n) :
    maxLength ts ≤ n := by
  unfold maxLength
  induction ts with
  | nil => exact Nat.zero_le n
  | cons head ts ih =>
    rw [List.map_cons, List.foldr_cons]
    exact Nat.max_le.2 ⟨h head List.mem_cons_self, ih fun t ht => h t (List.mem_cons_of_mem _ ht)⟩

theorem length_padTo {α : Type} {width : ℕ} {a : α} {l : List α} (h : l.length ≤ width) :
    (padTo width a l).length = width := by
  rw [padTo, List.length_append, List.length_replicate]
  omega

/-- `to_padded_tensor()` -/
def paddedData (ts : List (Trajectory K)) : Data K Unit where
  rows := ts.map (paddedRow (maxLength ts))
  width := maxLength ts
  rect := by
    intro row hrow
    obtain ⟨t, ht, rfl⟩ := List.mem_map.1 hrow
    have hle := length_le_maxLength ht
    exact ⟨length_padTo (t.length_eq ▸ hle), length_padTo hle⟩

inductive GroupEstimator
  | grpo
  | rloo

def GroupEstimator.advEstimator : GroupEstimator → AdvEstimator K Unit
  | .grpo => .grpo
  | .rloo => .other fun data => some (computeRlooOutcomeAdvantage data.batch)

/-- `compute_advantage`, or the computation for several outputs of a session. -/
def estimate (sqrt : K → K) (norm multi : Bool) (estimator : GroupEstimator) (data : Data K Unit)
    (batchKeys : List String) : Option (List (List K) × List (List K)) :=
  if multi then computeAdvantageForMultiTrajectories sqrt data batchKeys estimator.advEstimator norm
  else computeAdvantage sqrt data estimator.advEstimator norm

/-- `response_to_nested`: the part of each row that belongs to its response. -/
def responseToNested (rows : List (List K)) (ts : List (Trajectory K)) : List (List K) :=
  List.zipWith (fun row t => row.take t.responseMask.length) rows ts

def batchAdvantages (sqrt : K → K) (norm multi : Bool) (estimator : GroupEstimator) (store : Store K O)
    (batch : KVBatchMeta K O X) : Option (List (List K)) := do
  let ts ← batch.keys.mapM fun key => (store.get? (batch.partitionId, key)).bind fun sample => readTrajectory sample.1
  let out ← estimate sqrt norm multi estimator (paddedData ts) batch.keys
  some (responseToNested out.1 ts)

/-! ## Groups -/

def Trajectory.score (t : Trajectory K) : K := t.tokenLevelRewards.sum

/-- The scores of the trajectories with a `uid`. -/
def trajectoryScores (ts : List (Trajectory K)) (uid : GroupIndex.Key) : List K :=
  (ts.filter fun t => t.uid.key = uid).map Trajectory.score

theorem score_paddedRow (width : ℕ) (t : Trajectory K) : (paddedRow width t).score = t.score := by
  unfold MultiTrajectories.Row.score paddedRow padTo Trajectory.score
  rw [List.sum_append, List.sum_replicate, nsmul_zero, add_zero]

theorem groupScores_paddedRow (width : ℕ) (ts : List (Trajectory K)) (uid : GroupIndex.Key) :
    groupScores (ts.map (paddedRow width)) uid = trajectoryScores ts uid := by
  unfold groupScores trajectoryScores
  rw [List.filter_map, List.map_map]
  exact List.map_congr_left fun t _ => score_paddedRow width t

theorem take_spread_paddedRow (value : K) (width : ℕ) (t : Trajectory K) :
    (spread value (paddedRow width t).responseMask).take t.responseMask.length = spread value t.responseMask := by
  unfold spread paddedRow padTo
  rw [List.map_append, List.take_left' (by rw [List.length_map])]

theorem mem_paddedRow {width : ℕ} {t : Trajectory K} :
    true ∈ (paddedRow width t).responseMask ↔ true ∈ t.responseMask := by
  unfold paddedRow padTo
  simp [List.mem_append, List.mem_replicate]

/-- **Trajectories with another `uid`** do not belong to the group. -/
theorem trajectoryScores_append {ts pads : List (Trajectory K)} {uid : GroupIndex.Key} (h : ∀ t ∈ pads, t.uid.key ≠ uid) :
    trajectoryScores (ts ++ pads) uid = trajectoryScores ts uid := by
  have hnil : pads.filter (fun t => t.uid.key = uid) = [] :=
    List.filter_eq_nil_iff.2 fun t ht => by
      rw [decide_eq_true_eq]
      exact h t ht
  unfold trajectoryScores
  rw [List.filter_append, hnil, List.append_nil]

/-! ## The estimators do not see the padding -/

def rlooValue (group : List K) (score : K) : K :=
  if 1 < group.length then
    score * group.length / ((group.length : K) - 1) -
      (if group.length = 1 then 0 else mean group) * group.length / ((group.length : K) - 1)
  else score

/-- What an estimator makes of a score and the scores of its group. -/
def GroupEstimator.value (sqrt : K → K) (norm : Bool) : GroupEstimator → List K → K → K
  | .grpo => grpoValue sqrt norm
  | .rloo => rlooValue

theorem computeAdvantage_rows (sqrt : K → K) (norm : Bool) (estimator : GroupEstimator) (data : Data K Unit) :
    ∃ returns, computeAdvantage sqrt data estimator.advEstimator norm =
      some (data.rows.map fun row =>
        spread (estimator.value sqrt norm (groupScores data.rows row.uid.key) row.score) row.responseMask, returns) := by
  cases estimator with
  | grpo =>
    refine ⟨(computeGrpoOutcomeAdvantage sqrt data.batch epsilon norm).2, congrArg some (Prod.ext ?_ rfl)⟩
    exact overMask_batch data (grpoValue sqrt norm)
  | rloo =>
    refine ⟨(computeRlooOutcomeAdvantage data.batch).2, congrArg some (Prod.ext ?_ rfl)⟩
    exact overMask_batch data rlooValue

def trajectoryAdvantage (value : List K → K → K) (ts : List (Trajectory K)) (t : Trajectory K) : List K :=
  spread (value (trajectoryScores ts t.uid.key) t.score) t.responseMask

theorem responseToNested_map (f : MultiTrajectories.Row K Unit → K) (width : ℕ) (ts : List (Trajectory K)) :
    responseToNested ((ts.map (paddedRow width)).map fun row => spread (f row) row.responseMask) ts =
      ts.map fun t => spread (f (paddedRow width t)) t.responseMask := by
  unfold responseToNested
  rw [List.map_map, List.zipWith_map_left, List.zipWith_self]
  exact List.map_congr_left fun t _ => take_spread_paddedRow _ _ _

/-- **One output for each session**: the advantage of a trajectory. -/
theorem estimate_plain (sqrt : K → K) (norm : Bool) (estimator : GroupEstimator) (ts : List (Trajectory K))
    (batchKeys : List String) :
    ∃ out, estimate sqrt norm false estimator (paddedData ts) batchKeys = some out ∧
      responseToNested out.1 ts = ts.map (trajectoryAdvantage (estimator.value sqrt norm) ts) := by
  obtain ⟨returns, hout⟩ := computeAdvantage_rows sqrt norm estimator (paddedData ts)
  refine ⟨_, hout, ?_⟩
  have hrows : (paddedData ts).rows = ts.map (paddedRow (maxLength ts)) := rfl
  rw [hrows, responseToNested_map]
  refine List.map_congr_left fun t _ => ?_
  rw [groupScores_paddedRow, score_paddedRow]
  rfl

/-- **Padding** that has another `uid` is appended. -/
theorem map_trajectoryAdvantage_append (value : List K → K → K) {ts pads : List (Trajectory K)}
    (h : ∀ t ∈ ts, ∀ pad ∈ pads, pad.uid.key ≠ t.uid.key) :
    (ts ++ pads).map (trajectoryAdvantage value (ts ++ pads)) =
      ts.map (trajectoryAdvantage value ts) ++ pads.map (trajectoryAdvantage value (ts ++ pads)) := by
  rw [List.map_append]
  refine congrArg (· ++ _) (List.map_congr_left fun t ht => ?_)
  rw [trajectoryAdvantage, trajectoryScores_append (h t ht), trajectoryAdvantage]

/-! ## Several outputs of a session -/

section Multi

variable {ts pads : List (Trajectory K)} {batchKeys : List String} {entries others : List (List Char × ℤ)}

theorem lastRows_map {κ α β : Type} [DecidableEq κ] (f : α → β) (rows : List α) (entries : List (κ × ℤ)) :
    lastRows (rows.map f) entries = (lastRows rows entries).map f := by
  unfold lastRows
  rw [List.map_filterMap]
  exact List.filterMap_congr fun r _ => List.getElem?_map

/-- The advantage of the trajectories of a session, from its last output. -/
def outputAdvantage (sqrt : K → K) (norm : Bool) (lasts : List (Trajectory K)) (last t : Trajectory K) : List K :=
  spread (firstScore (grpoValue sqrt norm (trajectoryScores lasts last.uid.key) last.score) last.responseMask)
    t.responseMask

theorem rowValue_paddedRow (sqrt : K → K) (norm : Bool) (width : ℕ) (ts : List (Trajectory K)) (last : Trajectory K) :
    firstScore (rowValue sqrt norm (ts.map (paddedRow width)) (paddedRow width last))
        (paddedRow width last).responseMask =
      firstScore (grpoValue sqrt norm (trajectoryScores ts last.uid.key) last.score) last.responseMask := by
  unfold firstScore
  simp only [mem_paddedRow]
  rw [rowValue, groupScores_paddedRow, score_paddedRow]
  rfl

/-- **The advantages of the trajectories**, each from the last output of its session. -/
theorem estimate_multi (sqrt : K → K) (norm : Bool) (hparse : batchKeys.mapM sessionEntry = some entries)
    (hlength : entries.length = ts.length) (hwidth : 0 < maxLength ts) :
    ∃ out, estimate sqrt norm true .grpo (paddedData ts) batchKeys = some out ∧
      (responseToNested out.1 ts).length = ts.length ∧
      ∀ (i : ℕ) entry t, entries[i]? = some entry → ts[i]? = some t →
        ∃ (r : ℕ) (index : ℤ) (last : Trajectory K), IsLatest entries entry.1 index r ∧ ts[r]? = some last ∧
          (responseToNested out.1 ts)[i]? = some (outputAdvantage sqrt norm (lastRows ts entries) last t) := by
  have hrows : (paddedData ts).rows = ts.map (paddedRow (maxLength ts)) := rfl
  have hcount : entries.length = (paddedData ts).rows.length := by
    rw [hrows, List.length_map, hlength]
  obtain ⟨advantages, hcompute, hadvantages, hall⟩ := @exists_advantages K Unit _ (paddedData ts) entries sqrt norm
    batchKeys hparse hcount hwidth
  refine ⟨(advantages, advantages), hcompute, ?_, fun i entry t hentry ht => ?_⟩
  · rw [responseToNested, List.length_zipWith, hadvantages, hrows, List.length_map, Nat.min_self]
  · have hrow : (paddedData ts).rows[i]? = some (paddedRow (maxLength ts) t) := by
      rw [hrows, List.getElem?_map, ht]
      rfl
    obtain ⟨r, index, last, hlatest, hlast, hi⟩ := hall i entry _ hentry hrow
    rw [hrows, List.getElem?_map, Option.map_eq_some_iff] at hlast
    obtain ⟨last, hr, rfl⟩ := hlast
    refine ⟨r, index, last, hlatest, hr, ?_⟩
    rw [responseToNested, List.getElem?_zipWith, hi, ht, hrows, lastRows_map, rowValue_paddedRow]
    dsimp only
    rw [take_spread_paddedRow]
    rfl

theorem trajectoryScores_lastRows (hlength : entries.length = ts.length)
    (hlabels : ∀ e ∈ entries, ∀ e' ∈ others, e'.1 ≠ e.1) {uid : GroupIndex.Key} (huid : ∀ pad ∈ pads, pad.uid.key ≠ uid) :
    (trajectoryScores (lastRows (ts ++ pads) (entries ++ others)) uid).Perm
      (trajectoryScores (lastRows ts entries) uid) := by
  obtain ⟨rest, hperm, hrest⟩ := latestRows_append hlabels
  have hleft : (latestRows entries).filterMap ((ts ++ pads)[·]?) = lastRows ts entries := by
    refine List.filterMap_congr fun r hr => ?_
    obtain ⟨label, index, hlatest⟩ := mem_latestRows.1 hr
    have hlt := (List.getElem?_eq_some_iff.1 hlatest.1).1
    exact List.getElem?_append_left (hlength ▸ hlt)
  have hright : ∀ t ∈ rest.filterMap ((ts ++ pads)[·]?), t.uid.key ≠ uid := by
    intro t ht
    obtain ⟨r, hr, hget⟩ := List.mem_filterMap.1 ht
    have hle := hrest r hr
    rw [List.getElem?_append_right (by omega)] at hget
    exact huid t (List.mem_of_getElem? hget)
  have hrows : (lastRows (ts ++ pads) (entries ++ others)).Perm
      (lastRows ts entries ++ rest.filterMap ((ts ++ pads)[·]?)) := by
    rw [← hleft, ← List.filterMap_append]
    exact hperm.filterMap _
  have hscores : (trajectoryScores (lastRows (ts ++ pads) (entries ++ others)) uid).Perm
      (trajectoryScores (lastRows ts entries ++ rest.filterMap ((ts ++ pads)[·]?)) uid) := (hrows.filter _).map _
  rwa [trajectoryScores_append hright] at hscores

/-- **Padding** with other sessions and another `uid` is appended. -/
theorem estimate_multi_append (sqrt : K → K) (norm : Bool) {padKeys : List String}
    (hparse : batchKeys.mapM sessionEntry = some entries) (hpads : padKeys.mapM sessionEntry = some others)
    (hlength : entries.length = ts.length) (hothers : others.length = pads.length)
    (hlabels : ∀ e ∈ entries, ∀ e' ∈ others, e'.1 ≠ e.1) (huid : ∀ t ∈ ts, ∀ pad ∈ pads, pad.uid.key ≠ t.uid.key)
    (hwidth : 0 < maxLength ts) :
    ∃ out out' added, estimate sqrt norm true .grpo (paddedData ts) batchKeys = some out ∧
      estimate sqrt norm true .grpo (paddedData (ts ++ pads)) (batchKeys ++ padKeys) = some out' ∧
      (responseToNested out.1 ts).length = ts.length ∧
      responseToNested out'.1 (ts ++ pads) = responseToNested out.1 ts ++ added := by
  have hparse' : (batchKeys ++ padKeys).mapM sessionEntry = some (entries ++ others) :=
    mapM_eq_some_iff.2 (List.rel_append (mapM_eq_some_iff.1 hparse) (mapM_eq_some_iff.1 hpads))
  have hwidth' : 0 < maxLength (ts ++ pads) :=
    Nat.lt_of_lt_of_le hwidth (maxLength_le fun t ht => length_le_maxLength (List.mem_append_left _ ht))
  obtain ⟨out, hout, hcount, hall⟩ := estimate_multi sqrt norm hparse hlength hwidth
  obtain ⟨out', hout', hcount', hall'⟩ := estimate_multi sqrt norm hparse'
    (by rw [List.length_append, List.length_append, hlength, hothers]) hwidth'
  refine ⟨out, out', (responseToNested out'.1 (ts ++ pads)).drop ts.length, hout, hout', hcount, ?_⟩
  refine ((List.take_append_drop ts.length _).symm.trans (congrArg (· ++ _) ?_))
  refine List.ext_getElem? fun i => ?_
  by_cases hi : i < ts.length
  · have hentry := List.getElem?_eq_getElem (hlength ▸ hi)
    have ht := List.getElem?_eq_getElem hi
    obtain ⟨r, index, last, hlatest, hlast, hvalue⟩ := hall i _ _ hentry ht
    obtain ⟨r', index', last', hlatest', hlast', hvalue'⟩ := hall' i entries[i] ts[i]
      (by rw [List.getElem?_append_left (hlength ▸ hi), hentry]) (by rw [List.getElem?_append_left hi, ht])
    rw [isLatest_append_iff (hlabels _ (List.mem_of_getElem? hentry))] at hlatest'
    obtain ⟨-, rfl⟩ := hlatest.unique hlatest'
    have hr := (List.getElem?_eq_some_iff.1 hlast).1
    rw [List.getElem?_append_left hr, hlast, Option.some.injEq] at hlast'
    subst hlast'
    rw [List.getElem?_take_of_lt hi, hvalue', hvalue, outputAdvantage, outputAdvantage,
      grpoValue_perm sqrt norm (trajectoryScores_lastRows hlength hlabels (huid last (List.mem_of_getElem? hlast)))]
  · rw [List.getElem?_eq_none (by rw [List.length_take]; omega), List.getElem?_eq_none (by omega)]

end Multi

/-! ## The padding samples -/

/-- **What a padding sample is**: its masks and its rewards are zero, and it has the `uid` of the padding. -/
structure IsPad (padUid : String) (sample : Fields K O) : Prop where
  responseMask : sample.get? "response_mask" = some (.ints (vector [0]))
  lossMask : sample.get? "loss_mask" = some (.ints (vector [0]))
  rmScores : sample.get? "rm_scores" = some (.floats (vector [0]))
  uid : sample.get? "uid" = some (.str padUid)

theorem get?_template (sourceTd sourceTag : Fields K O) (eosTokenId : ℤ) {item : String × Value K O}
    (hitem : item ∈ minimalFields sourceTd eosTokenId) :
    (constructMinimalPaddingTemplate sourceTd sourceTag eosTokenId).1.get? item.1 = some item.2 := by
  have hnames : (minimalFields sourceTd eosTokenId).map Prod.fst = ["prompts", "responses", "input_ids",
      "attention_mask", "position_ids", "num_turns", "response_mask", "loss_mask", "rm_scores", "rollout_log_probs"] := rfl
  have hname : item.1 ∈ (minimalFields sourceTd eosTokenId).map Prod.fst := List.mem_map_of_mem hitem
  have hne : item.1 ≠ "multi_modal_inputs" ∧ item.1 ≠ "routed_experts" := by
    rw [hnames] at hname
    constructor
    · intro heq
      rw [heq] at hname
      exact absurd hname (by decide)
    · intro heq
      rw [heq] at hname
      exact absurd hname (by decide)
  have hget : (update sourceTd (minimalFields sourceTd eosTokenId)).get? item.1 = some item.2 :=
    Dict.get?_merge_of_mem _ (by rw [hnames]; decide) _ hitem
  have hinputs : (if "multi_modal_inputs" ∈ (update sourceTd (minimalFields sourceTd eosTokenId)).keys then
      (update sourceTd (minimalFields sourceTd eosTokenId)).update "multi_modal_inputs" fun _ => .dict []
      else update sourceTd (minimalFields sourceTd eosTokenId)).get? item.1 = some item.2 := by
    split
    · rw [Dict.get?_update_of_ne _ _ hne.1, hget]
    · exact hget
  unfold constructMinimalPaddingTemplate
  dsimp only
  split
  · rw [Dict.get?_update_of_ne _ _ hne.2, hinputs]
  · rw [Dict.get?_clear_of_not_mem _ (by simpa using hne.2), hinputs]

theorem isPad_padSample (padUid : String) (sourceTd sourceTag : Fields K O) (eosTokenId : ℤ) (localIdx : ℕ) :
    IsPad padUid (padSample ((constructMinimalPaddingTemplate sourceTd sourceTag eosTokenId).1.update "uid" fun _ =>
      .str padUid) localIdx) := by
  have hkeep : ∀ (d : Fields K O) {name : String}, name ≠ "session_id" → (padSample d localIdx).get? name = d.get? name := by
    intro d name hname
    unfold padSample
    split
    · exact Dict.get?_update_of_ne _ _ hname
    · rfl
  have hfield : ∀ name value, (name, value) ∈ minimalFields sourceTd eosTokenId → name ≠ "session_id" → name ≠ "uid" →
      (padSample ((constructMinimalPaddingTemplate sourceTd sourceTag eosTokenId).1.update "uid" fun _ =>
        .str padUid) localIdx).get? name = some value := by
    intro name value hitem hsession huid
    rw [hkeep _ hsession, Dict.get?_update_of_ne _ _ huid]
    exact get?_template _ _ _ hitem
  refine ⟨hfield "response_mask" _ (by simp [minimalFields]) (by decide) (by decide),
    hfield "loss_mask" _ (by simp [minimalFields]) (by decide) (by decide),
    hfield "rm_scores" _ (by simp [minimalFields]) (by decide) (by decide), ?_⟩
  rw [hkeep _ (by decide), Dict.get?_update_self]

/-! ## The batch after the padding -/

section Upsample

variable {hex : String} {store store' : Store K O} {batch batch' : KVBatchMeta K O X} {batchMultiple : ℕ} {eosTokenId : ℤ}

def padSize (length batchMultiple : ℕ) : ℕ :=
  if length % batchMultiple = 0 then 0 else batchMultiple - length % batchMultiple

/-- **What the padding is**: new keys in their order, with samples that are padding. -/
structure IsUpsampled (hex : String) (store : Store K O) (batch : KVBatchMeta K O X) (batchMultiple : ℕ)
    (store' : Store K O) (batch' : KVBatchMeta K O X) (pads : List (String × Fields K O × Fields K O)) : Prop where
  store_eq : store' = kvBatchPut store batch.partitionId pads
  keys_eq : batch'.keys = batch.keys ++ pads.map fun pad => pad.1
  tags_eq : batch'.tags = batch.tags ++ pads.map fun pad => pad.2.2
  partitionId_eq : batch'.partitionId = batch.partitionId
  names : pads.map (fun pad => pad.1) = (List.range (padSize batch.keys.length batchMultiple)).map (padKey ("pad" ++ hex))
  isPad : ∀ pad ∈ pads, IsPad ("pad" ++ hex) pad.2.1

/-- A batch whose samples are stored, with a tag for each key. -/
structure Stored (store : Store K O) (batch : KVBatchMeta K O X) : Prop where
  tags_length : batch.tags.length = batch.keys.length
  stored : ∀ key ∈ batch.keys, ∃ sample, store.get? (batch.partitionId, key) = some sample

theorem exists_upsample (hstored : Stored store batch) (hmultiple : 0 < batchMultiple) :
    ∃ store' batch' pads, upsampleBatchToDivisibleSize hex store batch batchMultiple eosTokenId = some (store', batch') ∧
      IsUpsampled hex store batch batchMultiple store' batch' pads := by
  unfold upsampleBatchToDivisibleSize
  rw [if_neg (Nat.ne_of_gt hmultiple)]
  by_cases hremainder : batch.keys.length % batchMultiple = 0
  · refine ⟨store, batch, [], if_pos hremainder, rfl, (List.append_nil _).symm, (List.append_nil _).symm, rfl, ?_, ?_⟩
    · rw [padSize, if_pos hremainder]
      rfl
    · exact fun pad hpad => absurd hpad List.not_mem_nil
  · have hpos : 0 < batch.keys.length := by
      refine Nat.pos_of_ne_zero fun hzero => hremainder ?_
      rw [hzero, Nat.zero_mod]
    have hkey := List.getElem?_eq_getElem hpos
    obtain ⟨source, hsource⟩ := hstored.stored _ (List.mem_of_getElem? hkey)
    have htag := List.getElem?_eq_getElem (hstored.tags_length ▸ hpos)
    simp only [if_neg hremainder, hkey, hsource, htag, Option.bind_eq_bind, Option.bind_some]
    refine ⟨_, _, _, rfl, rfl, rfl, rfl, rfl, ?_, ?_⟩
    · rw [padSize, if_neg hremainder, List.map_map]
      rfl
    · intro pad hpad
      obtain ⟨localIdx, -, rfl⟩ := List.mem_map.1 hpad
      exact isPad_padSample _ _ _ _ _

/-- **The length of the batch** is the least multiple that is not below the length before. -/
theorem upsample_sizes {pads : List (String × Fields K O × Fields K O)} (hmultiple : 0 < batchMultiple)
    (h : IsUpsampled hex store batch batchMultiple store' batch' pads) :
    batchMultiple ∣ batch'.keys.length ∧ batch.keys.length ≤ batch'.keys.length ∧
      ∀ n, batchMultiple ∣ n → batch.keys.length ≤ n → batch'.keys.length ≤ n := by
  have hlength : batch'.keys.length = batch.keys.length + padSize batch.keys.length batchMultiple := by
    rw [h.keys_eq, List.length_append, h.names, List.length_map, List.length_range]
  have hmod := Nat.mod_lt batch.keys.length hmultiple
  have hdiv := Nat.div_add_mod batch.keys.length batchMultiple
  rw [hlength, padSize]
  split
  · rename_i hremainder
    exact ⟨Nat.dvd_of_mod_eq_zero hremainder, Nat.le_refl _, fun n _ hn => hn⟩
  · rename_i hremainder
    have htotal : batch.keys.length + (batchMultiple - batch.keys.length % batchMultiple) =
        batchMultiple * (batch.keys.length / batchMultiple + 1) := by
      rw [Nat.mul_add, Nat.mul_one]
      omega
    rw [htotal]
    refine ⟨Nat.dvd_mul_right _ _, by omega, fun n hn hle => ?_⟩
    obtain ⟨c, rfl⟩ := hn
    refine Nat.mul_le_mul_left _ ?_
    by_contra hlt
    have hc : batchMultiple * c ≤ batchMultiple * (batch.keys.length / batchMultiple) :=
      Nat.mul_le_mul_left _ (by omega)
    omega

end Upsample

/-! ## The keys of the padding -/

def padTrajectoryKey (padUid : String) (localIdx : ℕ) : TrajectoryKey :=
  ⟨⟨padUid.toList, textOfInt localIdx, underscore_not_mem_textOfInt localIdx⟩, 0⟩

theorem padKey_eq (padUid : String) (localIdx : ℕ) : padKey padUid localIdx = (padTrajectoryKey padUid localIdx).render := by
  refine String.toList_inj.1 ?_
  unfold padKey TrajectoryKey.render padTrajectoryKey Session.key
  simp [textOfInt]

theorem sessionEntry_padKey (padUid : String) (localIdx : ℕ) :
    sessionEntry (padKey padUid localIdx) = some (padUid.toList ++ '_' :: textOfInt localIdx, 0) := by
  rw [padKey_eq, sessionEntry_render]
  rfl

theorem padKey_injective (padUid : String) : Function.Injective (padKey padUid) := by
  intro i j h
  have hentry := (sessionEntry_padKey padUid i).symm.trans ((congrArg sessionEntry h).trans (sessionEntry_padKey padUid j))
  rw [Option.some.injEq, Prod.mk.injEq] at hentry
  obtain ⟨-, hdigits⟩ := Lib.append_sep_inj (underscore_not_mem_textOfInt i) (underscore_not_mem_textOfInt j) hentry.1
  have hread := (intOfText_textOfInt i).symm.trans ((congrArg intOfText hdigits).trans (intOfText_textOfInt j))
  exact Int.ofNat.inj (Option.some.inj hread)

theorem prefix_padKey (padUid : String) (localIdx : ℕ) : padUid.toList <+: (padKey padUid localIdx).toList := by
  refine ⟨'_' :: (toString localIdx).toList ++ "_0".toList, ?_⟩
  unfold padKey
  simp

theorem prefix_of_sessionEntry {key : String} {entry : List Char × ℤ} (h : sessionEntry key = some entry) :
    entry.1 <+: key.toList := by
  unfold sessionEntry at h
  split at h
  · rename_i uid sessionId index hfields
    rw [Option.map_eq_some_iff] at h
    obtain ⟨n, -, rfl⟩ := h
    rw [append_of_rsplit hfields]
    exact List.prefix_append _ _
  · cases h

/-- **The uuid is new**: no key in the partition begins with the `uid` of the padding, and no sample has it. -/
structure Fresh (hex : String) (store : Store K O) (partitionId : String) : Prop where
  keys : ∀ key sample, store.get? (partitionId, key) = some sample → ¬ ("pad" ++ hex).toList <+: key.toList
  uids : ∀ key sample, store.get? (partitionId, key) = some sample →
    sample.1.get? "uid" ≠ some (.str ("pad" ++ hex))

section Store

variable {hex : String} {store store' : Store K O} {batch batch' : KVBatchMeta K O X} {batchMultiple : ℕ}
  {pads : List (String × Fields K O × Fields K O)}

theorem exists_padKey (h : IsUpsampled hex store batch batchMultiple store' batch' pads)
    {pad : String × Fields K O × Fields K O} (hpad : pad ∈ pads) : ∃ localIdx, pad.1 = padKey ("pad" ++ hex) localIdx := by
  have hname : pad.1 ∈ pads.map fun pad => pad.1 := List.mem_map_of_mem hpad
  rw [h.names] at hname
  obtain ⟨localIdx, -, heq⟩ := List.mem_map.1 hname
  exact ⟨localIdx, heq.symm⟩

/-- **The samples that are stored stay as they are.** -/
theorem get?_store (hfresh : Fresh hex store batch.partitionId)
    (h : IsUpsampled hex store batch batchMultiple store' batch' pads) {key : String × String}
    {sample : Fields K O × Fields K O} (hkey : store.get? key = some sample) : store'.get? key = some sample := by
  rw [h.store_eq, kvBatchPut, Dict.get?_merge_of_not_mem _ ?_, hkey]
  rw [List.map_map, List.mem_map]
  rintro ⟨pad, hpad, rfl⟩
  obtain ⟨localIdx, hname⟩ := exists_padKey h hpad
  refine hfresh.keys pad.1 sample hkey ?_
  rw [hname]
  exact prefix_padKey _ _

/-- **The padding is stored.** -/
theorem get?_pad (hfresh : Fresh hex store batch.partitionId)
    (h : IsUpsampled hex store batch batchMultiple store' batch' pads) {pad : String × Fields K O × Fields K O}
    (hpad : pad ∈ pads) : store'.get? (batch.partitionId, pad.1) = some pad.2 := by
  have hnodup : ((pads.map fun pad => ((batch.partitionId, pad.1), pad.2)).map Prod.fst).Nodup := by
    have hnames : (pads.map fun pad => pad.1).Nodup := by
      rw [h.names]
      exact List.nodup_range.map (padKey_injective _)
    have hpairs := hnames.map (fun a b hab => (Prod.mk.inj hab).2 : Function.Injective (Prod.mk batch.partitionId))
    rw [List.map_map] at hpairs ⊢
    exact hpairs
  have hnew : store.get? (batch.partitionId, pad.1) = none := by
    rw [Option.eq_none_iff_forall_ne_some]
    intro sample hsample
    obtain ⟨localIdx, hname⟩ := exists_padKey h hpad
    refine hfresh.keys pad.1 sample hsample ?_
    rw [hname]
    exact prefix_padKey _ _
  have hput := Dict.get?_merge_of_mem putFields hnodup store (List.mem_map_of_mem hpad)
  rw [hnew] at hput
  rw [h.store_eq]
  exact hput

end Store

/-! ## The advantages after the padding -/

section Advantages

variable {hex : String} {store store' : Store K O} {batch batch' : KVBatchMeta K O X} {batchMultiple : ℕ}
  {pads : List (String × Fields K O × Fields K O)}

def padTrajectory (padUid : String) : Trajectory K := ⟨[0], [false], .str padUid, rfl⟩

theorem readTrajectory_pad {padUid : String} {sample : Fields K O} (h : IsPad padUid sample) :
    readTrajectory sample = some (padTrajectory padUid) := by
  have hmask : ([0] : List K).length = ([0] : List ℤ).length ∧ ∀ z ∈ ([0] : List ℤ), z = 0 ∨ z = 1 :=
    ⟨rfl, fun z hz => .inl (List.mem_singleton.1 hz)⟩
  unfold readTrajectory
  rw [h.uid, h.responseMask, h.rmScores]
  exact dif_pos hmask

omit [Field K] in
theorem uid_of_readTrajectory {sample : Fields K O} {t : Trajectory K} (h : readTrajectory sample = some t) :
    ∃ uid, sample.get? "uid" = some (.str uid) ∧ t.uid = .str uid := by
  unfold readTrajectory at h
  split at h
  · rename_i uid mask scores huid hmask hscores
    split at h
    · rw [← Option.some.inj h]
      exact ⟨uid, huid, rfl⟩
    · cases h
  · cases h

theorem exists_entries {sqrt : K → K} {norm : Bool} {data : Data K Unit} {batchKeys : List String}
    {out : List (List K) × List (List K)}
    (h : computeAdvantageForMultiTrajectories sqrt data batchKeys .grpo norm = some out) :
    ∃ entries, batchKeys.mapM sessionEntry = some entries ∧ 0 < data.width := by
  unfold computeAdvantageForMultiTrajectories at h
  dsimp only at h
  obtain ⟨entries, hparse, h⟩ := Option.bind_eq_some_iff.1 h
  obtain ⟨final, hfinal, h⟩ := Option.bind_eq_some_iff.1 h
  obtain ⟨advantages, -, h⟩ := Option.bind_eq_some_iff.1 h
  obtain ⟨scores, hscores, -⟩ := Option.bind_eq_some_iff.1 h
  have hwidth : final.width = data.width := by
    unfold Data.selectIdxs at hfinal
    split at hfinal
    · rw [← Option.some.inj hfinal]
    · cases hfinal
  refine ⟨entries, hparse, Nat.pos_of_ne_zero fun hzero => ?_⟩
  rw [finalScores, if_pos (hwidth.trans hzero)] at hscores
  cases hscores

/-- **Padding with other sessions and another `uid`** is appended, with every estimator. -/
theorem estimate_append (sqrt : K → K) (norm multi : Bool) (estimator : GroupEstimator) {ts padTs : List (Trajectory K)}
    {batchKeys padKeys : List String} {others : List (List Char × ℤ)} (hlength : batchKeys.length = ts.length)
    (hpads : padKeys.mapM sessionEntry = some others) (hothers : others.length = padTs.length)
    (hlabels : ∀ key ∈ batchKeys, ∀ entry, sessionEntry key = some entry → ∀ e' ∈ others, e'.1 ≠ entry.1)
    (huid : ∀ t ∈ ts, ∀ pad ∈ padTs, pad.uid.key ≠ t.uid.key) {out : List (List K) × List (List K)}
    (hout : estimate sqrt norm multi estimator (paddedData ts) batchKeys = some out) :
    (responseToNested out.1 ts).length = ts.length ∧
      ∃ out' added, estimate sqrt norm multi estimator (paddedData (ts ++ padTs)) (batchKeys ++ padKeys) = some out' ∧
        responseToNested out'.1 (ts ++ padTs) = responseToNested out.1 ts ++ added := by
  have hplain : ∀ {out}, estimate sqrt norm false estimator (paddedData ts) batchKeys = some out →
      (responseToNested out.1 ts).length = ts.length ∧ ∃ out' added, estimate sqrt norm false estimator (paddedData (ts ++ padTs)) (batchKeys ++ padKeys) = some out' ∧
        responseToNested out'.1 (ts ++ padTs) = responseToNested out.1 ts ++ added := by
    intro out hout
    obtain ⟨out₁, hout₁, hnested⟩ := estimate_plain sqrt norm estimator ts batchKeys
    obtain ⟨out', hout', hnested'⟩ := estimate_plain sqrt norm estimator (ts ++ padTs) (batchKeys ++ padKeys)
    rw [hout, Option.some.injEq] at hout₁
    subst hout₁
    refine ⟨by rw [hnested, List.length_map], out',
      padTs.map (trajectoryAdvantage (estimator.value sqrt norm) (ts ++ padTs)), hout', ?_⟩
    rw [hnested', hnested, map_trajectoryAdvantage_append _ huid]
  cases multi with
  | false => exact hplain hout
  | true =>
    cases estimator with
    | rloo => exact hplain hout
    | grpo =>
      obtain ⟨entries, hparse, hwidth⟩ := exists_entries hout
      have hcount := (mapM_eq_some_iff.1 hparse).length_eq
      have hentries : ∀ e ∈ entries, ∀ e' ∈ others, e'.1 ≠ e.1 := by
        intro e he e' he'
        obtain ⟨i, hi⟩ := List.mem_iff_getElem?.1 he
        obtain ⟨key, hkey, hentry⟩ := getElem?_of_forall₂ (mapM_eq_some_iff.1 hparse).flip hi
        exact hlabels key (List.mem_of_getElem? hkey) e hentry e' he'
      obtain ⟨out₁, out', added, hout₁, hout', hnestedLength, hnested⟩ := estimate_multi_append sqrt norm hparse hpads
        (hcount.symm.trans hlength) hothers hentries huid hwidth
      rw [hout, Option.some.injEq] at hout₁
      subst hout₁
      exact ⟨hnestedLength, out', added, hout', hnested⟩

/-- **The advantages of the samples stay as they are.** -/
theorem batchAdvantages_upsample (sqrt : K → K) (norm multi : Bool) (estimator : GroupEstimator)
    (hfresh : Fresh hex store batch.partitionId) (h : IsUpsampled hex store batch batchMultiple store' batch' pads)
    {advantages : List (List K)} (hadvantages : batchAdvantages sqrt norm multi estimator store batch = some advantages) :
    advantages.length = batch.keys.length ∧
      ∃ added, batchAdvantages sqrt norm multi estimator store' batch' = some (advantages ++ added) := by
  obtain ⟨ts, hts, hrest⟩ := Option.bind_eq_some_iff.1 hadvantages
  obtain ⟨out, hout, hnested⟩ := Option.bind_eq_some_iff.1 hrest
  have hread := mapM_eq_some_iff.1 hts
  have hsample : ∀ key ∈ batch.keys, ∃ sample, store.get? (batch.partitionId, key) = some sample := by
    intro key hkey
    obtain ⟨i, hi⟩ := List.mem_iff_getElem?.1 hkey
    obtain ⟨t, -, ht⟩ := getElem?_of_forall₂ hread hi
    obtain ⟨sample, hsample, -⟩ := Option.bind_eq_some_iff.1 ht
    exact ⟨sample, hsample⟩
  have hts' : batch'.keys.mapM (fun key => (store'.get? (batch'.partitionId, key)).bind fun sample =>
      readTrajectory sample.1) = some (ts ++ pads.map fun _ => padTrajectory ("pad" ++ hex)) := by
    rw [h.keys_eq, h.partitionId_eq]
    refine mapM_eq_some_iff.2 (List.rel_append (hread.imp fun key t ht => ?_) ?_)
    · obtain ⟨sample, hget, ht⟩ := Option.bind_eq_some_iff.1 ht
      rw [get?_store hfresh h hget]
      exact ht
    · rw [List.forall₂_map_left_iff, List.forall₂_map_right_iff, List.forall₂_same]
      intro pad hpad
      rw [get?_pad hfresh h hpad]
      exact readTrajectory_pad (h.isPad pad hpad)
  have huid : ∀ t ∈ ts, ∀ pad ∈ pads.map (fun _ => (padTrajectory ("pad" ++ hex) : Trajectory K)),
      pad.uid.key ≠ t.uid.key := by
    intro t ht pad hpad heq
    obtain ⟨_, -, rfl⟩ := List.mem_map.1 hpad
    obtain ⟨i, hi⟩ := List.mem_iff_getElem?.1 ht
    obtain ⟨key, -, hkey⟩ := getElem?_of_forall₂ hread.flip hi
    obtain ⟨sample, hsample, hread⟩ := Option.bind_eq_some_iff.1 hkey
    obtain ⟨uid, huid, hlabel⟩ := uid_of_readTrajectory hread
    rw [hlabel] at heq
    have hsame : "pad" ++ hex = uid := Sum.inr.inj (GroupIndex.Key.of_injective heq)
    exact hfresh.uids key sample hsample (hsame ▸ huid)
  have hpadKeys : (pads.map fun pad => pad.1).mapM sessionEntry =
      some ((List.range (padSize batch.keys.length batchMultiple)).map fun localIdx : ℕ =>
        (("pad" ++ hex).toList ++ '_' :: textOfInt (localIdx : ℤ), (0 : ℤ))) := by
    rw [h.names, mapM_eq_some_iff, List.forall₂_map_left_iff, List.forall₂_map_right_iff, List.forall₂_same]
    exact fun localIdx _ => sessionEntry_padKey _ localIdx
  have hcount : pads.length = padSize batch.keys.length batchMultiple := by
    have hnames := congrArg List.length h.names
    rwa [List.length_map, List.length_map, List.length_range] at hnames
  obtain ⟨hnestedLength, out', added, hout', hnested'⟩ := estimate_append sqrt norm multi estimator hread.length_eq hpadKeys
    (by rw [List.length_map, List.length_map, List.length_range, hcount])
    (fun key hkey entry hentry e' he' heq => by
      obtain ⟨sample, hget⟩ := hsample key hkey
      obtain ⟨localIdx, -, rfl⟩ := List.mem_map.1 he'
      refine hfresh.keys key sample hget (List.IsPrefix.trans ?_ (prefix_of_sessionEntry hentry))
      rw [← heq]
      exact List.prefix_append _ _)
    huid hout
  refine ⟨by rw [← Option.some.inj hnested, hnestedLength, hread.length_eq], added,
    Option.bind_eq_some_iff.2 ⟨_, hts', Option.bind_eq_some_iff.2 ⟨out', ?_, ?_⟩⟩⟩
  · rw [h.keys_eq]
    exact hout'
  · rw [hnested', ← Option.some.inj hnested]

end Advantages

/-! ## The batch is the same but for its size -/

/-- **A batch is filled up to a multiple.** With a new uuid, for a batch whose samples are stored:

* Its length is the least multiple that is not below the length before.
* The keys and the tags come first, in their order, and everything that is stored stays as it is.
* The masks and the rewards of the added samples are zero. They have one `uid`, that no sample of the batch has.
* The advantages of the samples are the same, for GRPO and for RLOO, with one output or several for a session. -/
theorem upsample_spec (hex : String) (store : Store K O) (batch : KVBatchMeta K O X) (batchMultiple : ℕ) (eosTokenId : ℤ)
    (hstored : Stored store batch) (hmultiple : 0 < batchMultiple) (hfresh : Fresh hex store batch.partitionId) :
    ∃ store' batch' padKeys padTags,
      upsampleBatchToDivisibleSize hex store batch batchMultiple eosTokenId = some (store', batch') ∧
      (batchMultiple ∣ batch'.keys.length ∧ batch.keys.length ≤ batch'.keys.length ∧
        ∀ n, batchMultiple ∣ n → batch.keys.length ≤ n → batch'.keys.length ≤ n) ∧
      batch'.keys = batch.keys ++ padKeys ∧ batch'.tags = batch.tags ++ padTags ∧
      (∀ key sample, store.get? key = some sample → store'.get? key = some sample) ∧
      (∀ key ∈ padKeys, ∃ sample, store'.get? (batch.partitionId, key) = some sample ∧ IsPad ("pad" ++ hex) sample.1) ∧
      (∀ key ∈ batch.keys, ∀ sample, store'.get? (batch.partitionId, key) = some sample →
        sample.1.get? "uid" ≠ some (.str ("pad" ++ hex))) ∧
      ∀ (sqrt : K → K) norm multi estimator advantages,
        batchAdvantages sqrt norm multi estimator store batch = some advantages →
        advantages.length = batch.keys.length ∧
          ∃ added, batchAdvantages sqrt norm multi estimator store' batch' = some (advantages ++ added) := by
  obtain ⟨store', batch', pads, hupsample, h⟩ := @exists_upsample K O X _ hex store batch batchMultiple eosTokenId
    hstored hmultiple
  refine ⟨store', batch', pads.map (fun pad => pad.1), pads.map (fun pad => pad.2.2), hupsample,
    upsample_sizes hmultiple h, h.keys_eq, h.tags_eq, fun key sample => get?_store hfresh h, ?_, ?_,
    fun sqrt norm multi estimator advantages => batchAdvantages_upsample sqrt norm multi estimator hfresh h⟩
  · intro key hkey
    obtain ⟨pad, hpad, rfl⟩ := List.mem_map.1 hkey
    exact ⟨pad.2, get?_pad hfresh h hpad, h.isPad pad hpad⟩
  · intro key hkey sample hsample
    obtain ⟨old, hold⟩ := hstored.stored key hkey
    rw [get?_store hfresh h hold, Option.some.injEq] at hsample
    rw [← hsample]
    exact hfresh.uids key old hold

def oneStored : Store ℚ Unit :=
  Dict.empty.update ("train", "a_0_0") fun _ =>
    (update Dict.empty [("uid", .str "a"), ("response_mask", .ints (vector [1])), ("rm_scores", .floats (vector [1]))],
      Dict.empty)

def oneBatch : KVBatchMeta ℚ Unit Unit := ⟨["a_0_0"], [Dict.empty], "train", none, ()⟩

theorem get?_oneStored {key : String} {sample : Fields ℚ Unit × Fields ℚ Unit}
    (h : oneStored.get? ("train", key) = some sample) : key = "a_0_0" ∧ sample.1.get? "uid" = some (.str "a") := by
  unfold oneStored at h
  rw [Dict.get?_update] at h
  split at h
  · rename_i heq
    refine ⟨(Prod.mk.inj heq).2, ?_⟩
    rw [← Option.some.inj h]
    rfl
  · cases h

theorem stored_oneStored : Stored oneStored oneBatch where
  tags_length := rfl
  stored := by
    intro key hkey
    rw [List.mem_singleton.1 hkey]
    exact ⟨_, rfl⟩

theorem fresh_oneStored : Fresh "0" oneStored "train" where
  keys := by
    intro key sample hget
    rw [(get?_oneStored hget).1]
    decide
  uids := by
    intro key sample hget
    rw [(get?_oneStored hget).2, Ne, Option.some.injEq, Value.str.injEq]
    decide

theorem upsample_oneBatch :
    ∃ store' batch' padKeys padTags,
      upsampleBatchToDivisibleSize "0" oneStored oneBatch 3 2 = some (store', batch') ∧
      (3 ∣ batch'.keys.length ∧ oneBatch.keys.length ≤ batch'.keys.length ∧
        ∀ n, 3 ∣ n → oneBatch.keys.length ≤ n → batch'.keys.length ≤ n) ∧
      batch'.keys = oneBatch.keys ++ padKeys ∧ batch'.tags = oneBatch.tags ++ padTags ∧
      (∀ key sample, oneStored.get? key = some sample → store'.get? key = some sample) ∧
      (∀ key ∈ padKeys, ∃ sample, store'.get? (oneBatch.partitionId, key) = some sample ∧ IsPad ("pad" ++ "0") sample.1) ∧
      (∀ key ∈ oneBatch.keys, ∀ sample, store'.get? (oneBatch.partitionId, key) = some sample →
        sample.1.get? "uid" ≠ some (.str ("pad" ++ "0"))) ∧
      ∀ (sqrt : ℚ → ℚ) norm multi estimator advantages,
        batchAdvantages sqrt norm multi estimator oneStored oneBatch = some advantages →
        advantages.length = oneBatch.keys.length ∧
          ∃ added, batchAdvantages sqrt norm multi estimator store' batch' = some (advantages ++ added) :=
  upsample_spec "0" oneStored oneBatch 3 2 stored_oneStored (Nat.succ_pos 2) fresh_oneStored

/-- Two added samples share their `uid`. -/
theorem not_uid_unshared :
    ¬ ∀ store' batch', upsampleBatchToDivisibleSize "0" oneStored oneBatch 3 2 = some (store', batch') →
      ∀ key ∈ batch'.keys, ∀ key' ∈ batch'.keys, key ∉ oneBatch.keys → key' ≠ key → ∀ sample sample',
        store'.get? ("train", key) = some sample → store'.get? ("train", key') = some sample' →
        sample.1.get? "uid" ≠ sample'.1.get? "uid" := by
  intro hclaim
  obtain ⟨store', batch', pads, hupsample, h⟩ := @exists_upsample ℚ Unit Unit _ "0" oneStored oneBatch 3 2
    stored_oneStored (Nat.succ_pos 2)
  have hpad : ∀ localIdx < 2, ∃ pad ∈ pads, pad.1 = padKey "pad0" localIdx := by
    intro localIdx hlt
    have hmem : padKey "pad0" localIdx ∈ pads.map fun pad => pad.1 := by
      rw [h.names]
      exact List.mem_map_of_mem (List.mem_range.2 hlt)
    exact List.mem_map.1 hmem
  obtain ⟨pad, hmem, hname⟩ := hpad 0 (by decide)
  obtain ⟨pad', hmem', hname'⟩ := hpad 1 (by decide)
  have hkey : ∀ p ∈ pads, p.1 ∈ batch'.keys := fun p hp => by
    rw [h.keys_eq]
    exact List.mem_append_right _ (List.mem_map_of_mem hp)
  have hne : pad'.1 ≠ pad.1 := by
    rw [hname, hname']
    intro heq
    exact absurd (padKey_injective _ heq) (by decide)
  have hnew : pad.1 ∉ oneBatch.keys := by
    rw [hname]
    decide
  refine hclaim store' batch' hupsample pad.1 (hkey pad hmem) pad'.1 (hkey pad' hmem') hnew hne pad.2 pad'.2
    (get?_pad fresh_oneStored h hmem) (get?_pad fresh_oneStored h hmem') ?_
  rw [(h.isPad pad hmem).uid, (h.isPad pad' hmem').uid]

end Opd.Verl.UpsampleBatch

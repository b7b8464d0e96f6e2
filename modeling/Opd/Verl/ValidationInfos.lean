import Mathlib.Data.List.Sort
import Opd.Lib.Decimal
import Opd.Lib.Fields
import Opd.Lib.Latest
import Opd.Lib.Tensor

/-!
# The columns of a validation

The validation scores the last outputs of the sessions, batch after batch. For each key of `reward_extra_info` it keeps
a column, with an entry for each scored sample, and `None` where a sample lacks the key.

* `columns_addExtraFields`: the columns after the samples of a batch.
* `validate_invariant`: what holds after every batch.
* `infos_aligned_iff`: when the columns are aligned with the scores.
-/

namespace Opd.Verl.ValidationInfos

open Lib

variable {V : Type}

/-! ## Batches -/

/-- What is stored under a key. The info is empty if the extra fields have none. -/
structure Sample (V : Type) where
  key : String
  input : String
  output : String
  uid : String
  score : V
  numTurns : ℤ
  rewardExtraInfo : Dict String V
  groundTruth : Option V
  dataSource : String

/-- A batch: its samples in the order of the keys, and whether they have extra fields. -/
structure ValBatch (V : Type) where
  samples : List (Sample V)
  hasExtraFields : Bool

/-- The lists of `_validate`. -/
structure ValState (V : Type) where
  sampleUids : List String
  sampleInputs : List String
  sampleOutputs : List String
  sampleGts : List (Option V)
  sampleScores : List V
  sampleTurns : List ℤ
  dataSources : List String
  rewardExtraInfos : Dict String (List (Option V))
  dumpAllInputs : List String
  dumpAllOutputs : List String
  dumpAllKeys : List String
  sessionToSampleIdx : Dict (List Char) ℕ

def ValState.start : ValState V := ⟨[], [], [], [], [], [], [], .empty, [], [], [], .empty⟩

/-! ## The last outputs -/

/-- `key.rsplit("_", 2)`: the session of a key, and the text of the index. -/
def sessionFields (key : String) : List Char × Option (List Char) :=
  match rsplit '_' 2 key.toList with
  | [uid, sessionId, index] => (uid ++ '_' :: sessionId, some index)
  | _ => (key.toList, none)

/-- A key at a position. An index that is no number is an error. -/
def addSession (sessionMax : Dict (List Char) (ℤ × ℕ)) (entry : String × ℕ) : Option (Dict (List Char) (ℤ × ℕ)) :=
  match (sessionFields entry.1).2 with
  | some index => (intOfText index).map fun n => record sessionMax (sessionFields entry.1).1 n entry.2
  | none => some (sessionMax.update (sessionFields entry.1).1 fun _ => (0, entry.2))

/-- The sessions with the positions of their last outputs, sorted by the position. -/
def sortedSessions (keys : List String) : Option (List (List Char × ℤ × ℕ)) :=
  (keys.zipIdx.foldlM addSession .empty).map fun sessionMax =>
    sessionMax.items.insertionSort fun a b => a.2.2 ≤ b.2.2

def finals (batch : ValBatch V) : Option (List (List Char) × List (Sample V)) := do
  let sessions ← sortedSessions (batch.samples.map Sample.key)
  let samples ← sessions.mapM fun session => batch.samples[session.2.2]?
  some (sessions.map fun session => session.1, samples)

/-! ## The columns -/

/-- One sample: a column that it has no value for gets `None`, and a new column starts with `None` for the samples
before. -/
def addInfo (infos : Dict String (List (Option V))) (nPrior : ℕ) (info : Dict String V) :
    Dict String (List (Option V)) :=
  (infos.mapWithKey fun key column =>
      if key ≠ "reward" ∧ key ∉ info.keys then column ++ [none] else column).merge
    (fun column value => column.getD (List.replicate nPrior none) ++ [some value]) info.items

def addExtraFields (infos : Dict String (List (Option V))) (extraFields : List (Dict String V)) :
    Dict String (List (Option V)) :=
  (extraFields.foldl (fun (p : Dict String (List (Option V)) × ℕ) info => (addInfo p.1 p.2 info, p.2 + 1))
    (infos, ((infos.get? "reward").getD []).length - extraFields.length)).1

def addScores (infos : Dict String (List (Option V))) (scores : List V) : Dict String (List (Option V)) :=
  infos.update "reward" fun column => column.getD [] ++ scores.map some

def addBatch (infos : Dict String (List (Option V))) (hasExtraFields : Bool) (samples : List (Sample V)) :
    Dict String (List (Option V)) :=
  if hasExtraFields then addExtraFields (addScores infos (samples.map Sample.score)) (samples.map Sample.rewardExtraInfo)
  else addScores infos (samples.map Sample.score)

/-! ## The validation -/

def collect (st : ValState V) (batch : ValBatch V) : Option (ValState V) := do
  let last ← finals batch
  some {
    sampleUids := st.sampleUids ++ last.2.map Sample.uid
    sampleInputs := st.sampleInputs ++ last.2.map Sample.input
    sampleOutputs := st.sampleOutputs ++ last.2.map Sample.output
    sampleGts := st.sampleGts ++ last.2.map Sample.groundTruth
    sampleScores := st.sampleScores ++ last.2.map Sample.score
    sampleTurns := st.sampleTurns ++ last.2.map Sample.numTurns
    dataSources := st.dataSources ++ last.2.map Sample.dataSource
    rewardExtraInfos := addBatch st.rewardExtraInfos batch.hasExtraFields last.2
    dumpAllInputs := st.dumpAllInputs ++ batch.samples.map Sample.input
    dumpAllOutputs := st.dumpAllOutputs ++ batch.samples.map Sample.output
    dumpAllKeys := st.dumpAllKeys ++ batch.samples.map Sample.key
    sessionToSampleIdx := st.sessionToSampleIdx.merge (fun _ i => i)
      (last.1.zipIdx.map fun p => (p.1, st.sampleScores.length + p.2)) }

/-- The loop of `_validate`. -/
def validate (batches : List (ValBatch V)) : Option (ValState V) := batches.foldlM collect .start

/-- `_maybe_log_val_generations`: a strict `zip`. -/
def maybeLogValGenerations (st : ValState V) : Option (List (String × String × V)) :=
  if st.sampleInputs.length = st.sampleOutputs.length ∧ st.sampleOutputs.length = st.sampleScores.length then
    some (st.sampleInputs.zip (st.sampleOutputs.zip st.sampleScores))
  else none

/-- The rows that `_dump_generations` gets: those of the last outputs of the sessions. -/
def dumpGenerations (st : ValState V) :
    Option (List (Option V) × List V × List (String × List (Option V))) := do
  let sessionFinalIndices ← st.dumpAllKeys.mapM fun key => st.sessionToSampleIdx.get? (sessionFields key).1
  let gts ← sessionFinalIndices.mapM (st.sampleGts[·]?)
  let scores ← sessionFinalIndices.mapM (st.sampleScores[·]?)
  let infos ← st.rewardExtraInfos.items.mapM fun item =>
    (sessionFinalIndices.mapM (item.2[·]?)).map (Prod.mk item.1)
  some (gts, scores, infos)

/-- What `process_validation_metrics` reads: the `uid` and all columns, for each data source. -/
def valMetrics (st : ValState V) : Option (List (String × String × List (String × Option V))) :=
  st.dataSources.zipIdx.mapM fun p => do
    let uid ← st.sampleUids[p.2]?
    let vals ← st.rewardExtraInfos.items.mapM fun item => (item.2[p.2]?).map (Prod.mk item.1)
    some (p.1, uid, vals)

/-! ## One sample -/

section Columns

variable {infos : Dict String (List (Option V))} {key : String}

theorem get?_addInfo_some {nPrior : ℕ} {info : Dict String V} {value : V} (h : info.get? key = some value) :
    (addInfo infos nPrior info).get? key = some ((infos.get? key).getD (List.replicate nPrior none) ++ [some value]) := by
  have hkey : key ∈ info.keys := Dict.mem_keys_iff.2 (h ▸ rfl)
  have hmerge := Dict.get?_merge_of_mem
    (fun (column : Option (List (Option V))) value => column.getD (List.replicate nPrior none) ++ [some value]) info.nodup
    (infos.mapWithKey fun key column => if key ≠ "reward" ∧ key ∉ info.keys then column ++ [none] else column)
    (Dict.mem_items.2 h)
  rw [Dict.get?_mapWithKey] at hmerge
  unfold addInfo
  rw [hmerge]
  cases infos.get? key with
  | none => rfl
  | some column => rw [Option.map_some, if_neg fun hnot => hnot.2 hkey]

theorem get?_addInfo_none {nPrior : ℕ} {info : Dict String V} (h : info.get? key = none) :
    (addInfo infos nPrior info).get? key =
      (infos.get? key).map fun column => if key ≠ "reward" then column ++ [none] else column := by
  have hkey : key ∉ info.keys := Dict.get?_eq_none.1 h
  unfold addInfo
  rw [Dict.get?_merge_of_not_mem _ hkey, Dict.get?_mapWithKey]
  simp only [hkey, not_false_eq_true, and_true]

/-- **A column other than the scores** gets an entry for the sample. -/
theorem column_addInfo (infos : Dict String (List (Option V))) (hkey : key ≠ "reward") (nPrior : ℕ) (info : Dict String V) :
    ((addInfo infos nPrior info).get? key).getD (List.replicate (nPrior + 1) none) =
        (infos.get? key).getD (List.replicate nPrior none) ++ [info.get? key] ∧
      (((addInfo infos nPrior info).get? key).isSome ↔ (infos.get? key).isSome ∨ (info.get? key).isSome) := by
  cases hget : info.get? key with
  | some value =>
    rw [get?_addInfo_some hget]
    exact ⟨rfl, iff_of_true rfl (.inr rfl)⟩
  | none =>
    rw [get?_addInfo_none hget]
    cases infos.get? key with
    | none => exact ⟨List.replicate_succ', iff_of_false (fun h => nomatch h) (fun h => h.elim nofun nofun)⟩
    | some column =>
      rw [Option.map_some, if_pos hkey]
      exact ⟨rfl, iff_of_true rfl (.inl rfl)⟩

theorem reward_addInfo {column : List (Option V)} (h : infos.get? "reward" = some column) (nPrior : ℕ)
    (info : Dict String V) :
    (addInfo infos nPrior info).get? "reward" = some (column ++ (info.get? "reward").toList.map some) := by
  cases hget : info.get? "reward" with
  | some value =>
    rw [get?_addInfo_some hget, h]
    rfl
  | none =>
    rw [get?_addInfo_none hget, h, Option.map_some, if_neg (not_not.2 rfl), Option.toList_none, List.map_nil,
      List.append_nil]

/-! ## The samples of a batch -/

/-- The loop over the samples, from `nPrior` samples on. -/
def addInfos (nPrior : ℕ) (infos : Dict String (List (Option V))) (extraFields : List (Dict String V)) :
    Dict String (List (Option V)) :=
  (extraFields.foldl (fun (p : Dict String (List (Option V)) × ℕ) info => (addInfo p.1 p.2 info, p.2 + 1))
    (infos, nPrior)).1

theorem addInfos_cons (nPrior : ℕ) (infos : Dict String (List (Option V))) (info : Dict String V)
    (extraFields : List (Dict String V)) :
    addInfos nPrior infos (info :: extraFields) = addInfos (nPrior + 1) (addInfo infos nPrior info) extraFields := rfl

theorem column_addInfos (infos : Dict String (List (Option V))) (hkey : key ≠ "reward") (nPrior : ℕ)
    (extraFields : List (Dict String V)) :
    ((addInfos nPrior infos extraFields).get? key).getD (List.replicate (nPrior + extraFields.length) none) =
        (infos.get? key).getD (List.replicate nPrior none) ++ extraFields.map (fun info => info.get? key) ∧
      (((addInfos nPrior infos extraFields).get? key).isSome ↔
        (infos.get? key).isSome ∨ ∃ info ∈ extraFields, (info.get? key).isSome) := by
  induction extraFields generalizing nPrior infos with
  | nil => exact ⟨(List.append_nil _).symm, by simp [addInfos]⟩
  | cons info extraFields ih =>
    obtain ⟨hcolumn, hsome⟩ := column_addInfo infos hkey nPrior info
    obtain ⟨hrest, hrestSome⟩ := ih (addInfo infos nPrior info) (nPrior + 1)
    rw [addInfos_cons, List.length_cons, Nat.add_comm extraFields.length 1, ← Nat.add_assoc]
    refine ⟨?_, ?_⟩
    · rw [hrest, hcolumn, List.append_assoc]
      rfl
    · rw [hrestSome, hsome, or_assoc, List.exists_mem_cons_iff]

theorem reward_addInfos {column : List (Option V)} (h : infos.get? "reward" = some column) (nPrior : ℕ)
    (extraFields : List (Dict String V)) :
    (addInfos nPrior infos extraFields).get? "reward" =
      some (column ++ (extraFields.filterMap fun info => info.get? "reward").map some) := by
  induction extraFields generalizing nPrior infos column with
  | nil =>
    rw [List.filterMap_nil, List.map_nil, List.append_nil]
    exact h
  | cons info extraFields ih =>
    rw [addInfos_cons, ih (reward_addInfo h nPrior info), List.append_assoc]
    simp only [List.filterMap_cons]
    cases info.get? "reward" with
    | some value => rfl
    | none => rfl

def rewardLength (infos : Dict String (List (Option V))) : ℕ := ((infos.get? "reward").getD []).length

theorem get?_addScores (infos : Dict String (List (Option V))) (key : String) (scores : List V) :
    (addScores infos scores).get? "reward" = some ((infos.get? "reward").getD [] ++ scores.map some) ∧
      (key ≠ "reward" → (addScores infos scores).get? key = infos.get? key) :=
  ⟨Dict.get?_update_self _ _ _, fun h => Dict.get?_update_of_ne _ _ h⟩

theorem columns_addExtraFields (infos : Dict String (List (Option V))) (key : String) (samples : List (Sample V)) :
    (addBatch infos true samples).get? "reward" =
        some ((infos.get? "reward").getD [] ++ (samples.map Sample.score).map some ++
          (samples.filterMap fun s => s.rewardExtraInfo.get? "reward").map some) ∧
      (key ≠ "reward" →
        ((addBatch infos true samples).get? key).getD (List.replicate (rewardLength infos + samples.length) none) =
            (infos.get? key).getD (List.replicate (rewardLength infos) none) ++
              samples.map (fun s => s.rewardExtraInfo.get? key) ∧
          (((addBatch infos true samples).get? key).isSome ↔
            (infos.get? key).isSome ∨ ∃ s ∈ samples, (s.rewardExtraInfo.get? key).isSome)) := by
  obtain ⟨hreward, hother⟩ := get?_addScores infos key (samples.map Sample.score)
  have hprior : (((addScores infos (samples.map Sample.score)).get? "reward").getD []).length -
      (samples.map Sample.rewardExtraInfo).length = rewardLength infos := by
    rw [hreward, Option.getD_some, List.length_append, List.length_map, List.length_map, List.length_map,
      Nat.add_sub_cancel]
    rfl
  have hbatch : addBatch infos true samples =
      addInfos (rewardLength infos) (addScores infos (samples.map Sample.score)) (samples.map Sample.rewardExtraInfo) := by
    unfold addBatch addExtraFields addInfos
    rw [if_pos rfl, hprior]
  rw [hbatch]
  refine ⟨?_, fun hkey => ?_⟩
  · rw [reward_addInfos hreward, List.filterMap_map]
    rfl
  · obtain ⟨hcolumn, hsome⟩ := column_addInfos (addScores infos (samples.map Sample.score)) hkey
      (rewardLength infos) (samples.map Sample.rewardExtraInfo)
    rw [List.length_map, List.map_map, hother hkey] at hcolumn
    rw [hother hkey] at hsome
    refine ⟨hcolumn, hsome.trans (or_congr_right ?_)⟩
    simp only [List.mem_map, exists_exists_and_eq_and]

/-- **The columns after a batch without extra fields.** -/
theorem columns_addScores (infos : Dict String (List (Option V))) (key : String) (samples : List (Sample V)) :
    (addBatch infos false samples).get? "reward" =
        some ((infos.get? "reward").getD [] ++ (samples.map Sample.score).map some) ∧
      (key ≠ "reward" → (addBatch infos false samples).get? key = infos.get? key) :=
  get?_addScores infos key (samples.map Sample.score)

end Columns

/-! ## Regular batches -/

def ValBatch.scored (batch : ValBatch V) : List (Sample V) := ((finals batch).map Prod.snd).getD []

def ValBatch.info (batch : ValBatch V) (s : Sample V) : Dict String V :=
  if batch.hasExtraFields then s.rewardExtraInfo else .empty

def scoredSamples (batches : List (ValBatch V)) : List (Sample V) := batches.flatMap ValBatch.scored

def scoredInfos (batches : List (ValBatch V)) : List (Dict String V) :=
  batches.flatMap fun batch => batch.scored.map batch.info

/-- **Batches that the columns are made for**: no info has a key `reward`, and once an info has a key, all batches with
samples have extra fields. -/
structure Regular (batches : List (ValBatch V)) : Prop where
  noReward : ∀ batch ∈ batches, ∀ s ∈ batch.scored, (batch.info s).get? "reward" = none
  noGap : ∀ before batch after, batches = before ++ batch :: after → batch.hasExtraFields = false →
    batch.scored ≠ [] → ∀ info ∈ scoredInfos before, info.keys = []

/-- What one more batch adds to the condition. -/
structure Continues (batches : List (ValBatch V)) (batch : ValBatch V) : Prop where
  noReward : ∀ s ∈ batch.scored, (batch.info s).get? "reward" = none
  noGap : batch.hasExtraFields = false → batch.scored ≠ [] → ∀ info ∈ scoredInfos batches, info.keys = []

variable {batches : List (ValBatch V)} {batch : ValBatch V}

theorem regular_append_iff : Regular (batches ++ [batch]) ↔ Regular batches ∧ Continues batches batch := by
  constructor
  · intro h
    refine ⟨⟨fun b hb => h.noReward b (List.mem_append_left _ hb), fun before b after hsplit => ?_⟩,
      ⟨h.noReward batch (List.mem_append_right _ List.mem_cons_self), h.noGap batches batch [] rfl⟩⟩
    refine h.noGap before b (after ++ [batch]) ?_
    rw [hsplit, List.append_assoc, List.cons_append]
  · rintro ⟨hbatches, hbatch⟩
    refine ⟨fun b hb => ?_, fun before b after hsplit => ?_⟩
    · rcases List.mem_append.1 hb with hmem | hmem
      · exact hbatches.noReward b hmem
      · rw [List.mem_singleton.1 hmem]
        exact hbatch.noReward
    · rcases List.eq_nil_or_concat after with rfl | ⟨rest, last, rfl⟩
      · obtain ⟨rfl, hb⟩ := List.append_inj' hsplit rfl
        obtain rfl := List.singleton_inj.1 hb
        exact hbatch.noGap
      · have hcons : batches ++ [batch] = (before ++ b :: rest) ++ [last] := by
          rw [hsplit, List.append_assoc, List.cons_append, List.concat_eq_append]
        exact hbatches.noGap before b rest (List.append_inj' hcons rfl).1

section Batch

variable {infos : Dict String (List (Option V))} {key : String} {batch : ValBatch V}

theorem info_of_extraFields (h : batch.hasExtraFields = true) : batch.info = Sample.rewardExtraInfo := by
  funext s
  rw [ValBatch.info, if_pos h]

theorem info_of_not (h : batch.hasExtraFields = false) : batch.info = fun _ => .empty := by
  funext s
  rw [ValBatch.info, h]
  rfl

theorem reward_addBatch (infos : Dict String (List (Option V))) (batch : ValBatch V) :
    (addBatch infos batch.hasExtraFields batch.scored).get? "reward" =
      some ((infos.get? "reward").getD [] ++ (batch.scored.map Sample.score).map some ++
        (batch.scored.filterMap fun s => (batch.info s).get? "reward").map some) := by
  cases hextra : batch.hasExtraFields with
  | true =>
    rw [info_of_extraFields hextra]
    exact (columns_addExtraFields _ "reward" batch.scored).1
  | false =>
    rw [info_of_not hextra]
    have hnone : (batch.scored.filterMap fun _ => (Dict.empty : Dict String V).get? "reward") = [] :=
      List.filterMap_eq_nil_iff.2 fun _ _ => rfl
    rw [hnone, List.map_nil, List.append_nil]
    exact (columns_addScores _ "reward" batch.scored).1

theorem isSome_addBatch (hkey : key ≠ "reward") :
    ((addBatch infos batch.hasExtraFields batch.scored).get? key).isSome ↔
      (infos.get? key).isSome ∨ ∃ s ∈ batch.scored, ((batch.info s).get? key).isSome := by
  cases hextra : batch.hasExtraFields with
  | true =>
    rw [info_of_extraFields hextra]
    exact ((columns_addExtraFields _ _ batch.scored).2 hkey).2
  | false =>
    rw [info_of_not hextra, (columns_addScores _ _ batch.scored).2 hkey]
    exact (or_iff_left fun ⟨_, _, h⟩ => nomatch h).symm

theorem rewardLength_addBatch (infos : Dict String (List (Option V))) (batch : ValBatch V) :
    rewardLength (addBatch infos batch.hasExtraFields batch.scored) = rewardLength infos + batch.scored.length +
      (batch.scored.filterMap fun s => (batch.info s).get? "reward").length := by
  rw [rewardLength, reward_addBatch, Option.getD_some, List.length_append, List.length_append, List.length_map,
    List.length_map, List.length_map]
  rfl

/-- **The length of a column other than the scores** after a batch. -/
theorem length_addBatch (hkey : key ≠ "reward") {column : List (Option V)}
    (h : (addBatch infos batch.hasExtraFields batch.scored).get? key = some column) :
    (infos.get? key = none → batch.hasExtraFields = true ∧
      column.length = rewardLength infos + batch.scored.length) ∧
    ∀ old, infos.get? key = some old →
      column.length = old.length + if batch.hasExtraFields then batch.scored.length else 0 := by
  cases hextra : batch.hasExtraFields with
  | true =>
    rw [hextra] at h
    have hcolumn := ((columns_addExtraFields infos _ batch.scored).2 hkey).1
    rw [h, Option.getD_some] at hcolumn
    rw [hcolumn, List.length_append, List.length_map]
    refine ⟨fun hnone => ?_, fun old hold => ?_⟩
    · rw [hnone, Option.getD_none, List.length_replicate]
      exact ⟨rfl, rfl⟩
    · rw [hold, Option.getD_some]
      rfl
  | false =>
    rw [hextra, (columns_addScores _ _ batch.scored).2 hkey] at h
    refine ⟨fun hnone => ?_, fun old hold => ?_⟩
    · rw [hnone] at h
      cases h
    · rw [hold, Option.some.injEq] at h
      rw [h]
      rfl

end Batch

/-! ## The invariant of the loop -/

/-- **What holds after every batch.** -/
structure Invariant (batches : List (ValBatch V)) (st : ValState V) : Prop where
  uids : st.sampleUids = (scoredSamples batches).map Sample.uid
  inputs : st.sampleInputs = (scoredSamples batches).map Sample.input
  outputs : st.sampleOutputs = (scoredSamples batches).map Sample.output
  gts : st.sampleGts = (scoredSamples batches).map Sample.groundTruth
  scores : st.sampleScores = (scoredSamples batches).map Sample.score
  sources : st.dataSources = (scoredSamples batches).map Sample.dataSource
  reward_none : st.rewardExtraInfos.get? "reward" = none → scoredSamples batches = []
  reward_length : (scoredSamples batches).length ≤ rewardLength st.rewardExtraInfos
  isSome_iff : ∀ key ≠ "reward", (st.rewardExtraInfos.get? key).isSome ↔
    ∃ info ∈ scoredInfos batches, (info.get? key).isSome
  length_le : rewardLength st.rewardExtraInfos = (scoredSamples batches).length → ∀ key ≠ "reward", ∀ column,
    st.rewardExtraInfos.get? key = some column → column.length ≤ (scoredSamples batches).length
  sessions : ∀ key ∈ st.dumpAllKeys, ∃ i < (scoredSamples batches).length,
    st.sessionToSampleIdx.get? (sessionFields key).1 = some i

theorem invariant_start : Invariant ([] : List (ValBatch V)) .start where
  uids := rfl
  inputs := rfl
  outputs := rfl
  gts := rfl
  scores := rfl
  sources := rfl
  reward_none := fun _ => rfl
  reward_length := Nat.zero_le _
  isSome_iff := fun _ _ => iff_of_false (fun h => nomatch h) fun ⟨_, h, _⟩ => absurd h List.not_mem_nil
  length_le := fun _ _ _ _ h => nomatch h
  sessions := fun _ h => absurd h List.not_mem_nil

theorem mem_foldlM_addSession {entries : List (String × ℕ)} {sessionMax out : Dict (List Char) (ℤ × ℕ)}
    (h : entries.foldlM addSession sessionMax = some out) :
    (∀ session ∈ sessionMax.keys, session ∈ out.keys) ∧ ∀ entry ∈ entries, (sessionFields entry.1).1 ∈ out.keys := by
  induction entries generalizing sessionMax with
  | nil =>
    rw [← Option.some.inj h]
    exact ⟨fun _ hs => hs, fun _ hentry => absurd hentry List.not_mem_nil⟩
  | cons entry entries ih =>
    rw [List.foldlM_cons] at h
    obtain ⟨mid, hmid, hrest⟩ := Option.bind_eq_some_iff.1 h
    obtain ⟨hkeep, hall⟩ := ih hrest
    have hstep : ∀ session, session = (sessionFields entry.1).1 ∨ session ∈ sessionMax.keys → session ∈ mid.keys := by
      intro session hsession
      unfold addSession at hmid
      split at hmid
      · obtain ⟨n, -, rfl⟩ := Option.map_eq_some_iff.1 hmid
        exact mem_keys_record.2 hsession
      · rw [← Option.some.inj hmid]
        exact Dict.mem_keys_update.2 hsession
    refine ⟨fun session hs => hkeep session (hstep session (.inr hs)), fun e he => ?_⟩
    rcases List.mem_cons.1 he with rfl | he
    · exact hkeep _ (hstep _ (.inl rfl))
    · exact hall e he

/-- **The sessions of a batch**, each once, with one sample for each. -/
theorem finals_sessions {last : List (List Char) × List (Sample V)} (h : finals batch = some last) :
    last.1.Nodup ∧ last.1.length = last.2.length ∧ ∀ s ∈ batch.samples, (sessionFields s.key).1 ∈ last.1 := by
  obtain ⟨sessions, hsessions, hrest⟩ := Option.bind_eq_some_iff.1 h
  obtain ⟨samples, hsamples, hlast⟩ := Option.bind_eq_some_iff.1 hrest
  obtain ⟨sessionMax, hmax, rfl⟩ := Option.map_eq_some_iff.1 hsessions
  rw [← Option.some.inj hlast]
  have hperm : (sessionMax.items.insertionSort fun a b => a.2.2 ≤ b.2.2).Perm sessionMax.items :=
    List.perm_insertionSort _ _
  refine ⟨(hperm.map _).nodup_iff.2 sessionMax.nodup, ?_, fun s hs => ?_⟩
  · rw [List.length_map, (mapM_eq_some_iff.1 hsamples).length_eq]
  · refine (hperm.map _).mem_iff.2 ?_
    have hkey : s.key ∈ batch.samples.map Sample.key := List.mem_map_of_mem hs
    obtain ⟨i, hi⟩ := List.mem_iff_getElem?.1 hkey
    exact (mem_foldlM_addSession hmax).2 (s.key, i) (List.mem_zipIdx_iff_getElem?.2 hi)

theorem scoredSamples_append (batches : List (ValBatch V)) (batch : ValBatch V) :
    scoredSamples (batches ++ [batch]) = scoredSamples batches ++ batch.scored := by
  rw [scoredSamples, List.flatMap_append, List.flatMap_singleton]
  rfl

theorem scoredInfos_append (batches : List (ValBatch V)) (batch : ValBatch V) :
    scoredInfos (batches ++ [batch]) = scoredInfos batches ++ batch.scored.map batch.info := by
  rw [scoredInfos, List.flatMap_append, List.flatMap_singleton]
  rfl

theorem length_scoredInfos (batches : List (ValBatch V)) : (scoredInfos batches).length = (scoredSamples batches).length := by
  simp only [scoredInfos, scoredSamples, List.length_flatMap, List.length_map]

/-- **One batch keeps the invariant.** -/
theorem Invariant.step {st st' : ValState V} (h : Invariant batches st) (hstep : collect st batch = some st') :
    Invariant (batches ++ [batch]) st' := by
  obtain ⟨last, hlast, hst'⟩ := Option.bind_eq_some_iff.1 hstep
  obtain ⟨hnodup, hcount, hsessions⟩ := finals_sessions hlast
  have hscored : last.2 = batch.scored := by
    rw [ValBatch.scored, hlast]
    rfl
  rw [← Option.some.inj hst', hscored]
  rw [hscored] at hcount
  have hold : st.sampleScores.length = (scoredSamples batches).length := by
    rw [h.scores, List.length_map]
  have hlength := rewardLength_addBatch st.rewardExtraInfos batch
  have hreward := h.reward_length
  have hcolumn : ∀ (l : List (Sample V)) {β : Type} (field : Sample V → β), (scoredSamples batches).map field ++
      l.map field = (scoredSamples batches ++ l).map field := fun l _ field => List.map_append.symm
  refine ⟨?_, ?_, ?_, ?_, ?_, ?_, ?_, ?_, ?_, ?_, ?_⟩
  · rw [scoredSamples_append, ← hcolumn, ← h.uids]
  · rw [scoredSamples_append, ← hcolumn, ← h.inputs]
  · rw [scoredSamples_append, ← hcolumn, ← h.outputs]
  · rw [scoredSamples_append, ← hcolumn, ← h.gts]
  · rw [scoredSamples_append, ← hcolumn, ← h.scores]
  · rw [scoredSamples_append, ← hcolumn, ← h.sources]
  · intro hnone
    dsimp only at hnone
    rw [reward_addBatch] at hnone
    cases hnone
  · rw [scoredSamples_append, List.length_append, hlength]
    omega
  · intro key hkey
    rw [isSome_addBatch hkey, h.isSome_iff key hkey, scoredInfos_append]
    simp only [List.mem_append, or_and_right, exists_or, List.mem_map, exists_exists_and_eq_and]
  · intro heq key hkey column hget
    rw [scoredSamples_append, List.length_append] at heq ⊢
    rw [hlength] at heq
    obtain ⟨hnew, hkept⟩ := length_addBatch hkey hget
    cases hcase : st.rewardExtraInfos.get? key with
    | none =>
      rw [(hnew hcase).2]
      omega
    | some old =>
      have hle := h.length_le (by omega) key hkey old hcase
      rw [hkept old hcase]
      split <;> omega
  · intro key hkey
    rw [scoredSamples_append, List.length_append]
    have hitems : ((last.1.zipIdx.map fun p => (p.1, st.sampleScores.length + p.2)).map Prod.fst) = last.1 := by
      rw [List.map_map]
      exact List.zipIdx_map_fst 0 last.1
    have hnew : ∀ session ∈ last.1, ∃ i < (scoredSamples batches).length + batch.scored.length,
        (st.sessionToSampleIdx.merge (fun _ i => i) (last.1.zipIdx.map fun p =>
          (p.1, st.sampleScores.length + p.2))).get? session = some i := by
      intro session hsession
      obtain ⟨j, hj⟩ := List.mem_iff_getElem?.1 hsession
      have hlt := (List.getElem?_eq_some_iff.1 hj).1
      refine ⟨st.sampleScores.length + j, by omega, ?_⟩
      exact Dict.get?_merge_of_mem (fun _ i => i) (by rw [hitems]; exact hnodup) st.sessionToSampleIdx
        (List.mem_map.2 ⟨(session, j), List.mem_zipIdx_iff_getElem?.2 hj, rfl⟩)
    by_cases hmem : (sessionFields key).1 ∈ last.1
    · exact hnew _ hmem
    · rcases List.mem_append.1 hkey with hmemOld | hmemNew
      · obtain ⟨i, hi, hget⟩ := h.sessions key hmemOld
        refine ⟨i, by omega, ?_⟩
        rw [Dict.get?_merge_of_not_mem _ (by rw [hitems]; exact hmem), hget]
      · obtain ⟨s, hs, rfl⟩ := List.mem_map.1 hmemNew
        exact absurd (hsessions s hs) hmem

variable {st : ValState V}

theorem validate_append (h : validate (batches ++ [batch]) = some st) :
    ∃ mid, validate batches = some mid ∧ collect mid batch = some st := by
  rw [validate, List.foldlM_append] at h
  obtain ⟨mid, hmid, hstep⟩ := Option.bind_eq_some_iff.1 h
  rw [List.foldlM_cons] at hstep
  obtain ⟨out, hout, hrest⟩ := Option.bind_eq_some_iff.1 hstep
  obtain rfl := Option.some.inj hrest
  exact ⟨mid, hmid, hout⟩

theorem validate_invariant (h : validate batches = some st) : Invariant batches st := by
  induction batches using List.reverseRecOn generalizing st with
  | nil =>
    rw [← Option.some.inj h]
    exact invariant_start
  | append_singleton batches batch ih =>
    obtain ⟨mid, hmid, hstep⟩ := validate_append h
    exact (ih hmid).step hstep

/-! ## Aligned columns -/

/-- What belongs into a column: the score, or the value that the info of the sample has for the key. -/
def entries (batches : List (ValBatch V)) (key : String) : List (Option V) :=
  if key = "reward" then (scoredSamples batches).map fun s => some s.score
  else (scoredInfos batches).map fun info => info.get? key

/-- **The columns are aligned with the scores.** -/
structure Aligned (batches : List (ValBatch V)) (st : ValState V) : Prop where
  scores : st.sampleScores = (scoredSamples batches).map Sample.score
  length : ∀ key column, st.rewardExtraInfos.get? key = some column → column.length = st.sampleScores.length
  entry : ∀ key column, st.rewardExtraInfos.get? key = some column → column = entries batches key

/-- No check of a length fails, where the lists are passed on. -/
structure Checked (st : ValState V) : Prop where
  log : ∃ rows, maybeLogValGenerations st = some rows
  dump : ∃ rows, dumpGenerations st = some rows
  metrics : ∃ rows, valMetrics st = some rows

theorem length_entries (batches : List (ValBatch V)) (key : String) :
    (entries batches key).length = (scoredSamples batches).length := by
  unfold entries
  split
  · rw [List.length_map]
  · rw [List.length_map, length_scoredInfos]

theorem entries_append (batches : List (ValBatch V)) (batch : ValBatch V) (key : String) :
    entries (batches ++ [batch]) key = entries batches key ++
      if key = "reward" then batch.scored.map fun s => some s.score
      else batch.scored.map fun s => (batch.info s).get? key := by
  unfold entries
  split
  · rw [scoredSamples_append, List.map_append]
  · rw [scoredInfos_append, List.map_append, List.map_map]
    rfl

/-- **In regular batches every column has its entries.** A key without a column has no entries other than `None`. -/
theorem columns_of_regular (h : validate batches = some st) (hregular : Regular batches) :
    (st.rewardExtraInfos.get? "reward").getD [] = entries batches "reward" ∧
      ∀ key ≠ "reward", (st.rewardExtraInfos.get? key).getD (List.replicate (scoredSamples batches).length none) =
        entries batches key := by
  induction batches using List.reverseRecOn generalizing st with
  | nil =>
    rw [← Option.some.inj h]
    exact ⟨rfl, fun key hkey => by rw [entries, if_neg hkey]; rfl⟩
  | append_singleton batches batch ih =>
    obtain ⟨mid, hmid, hstep⟩ := validate_append h
    obtain ⟨hbatches, hcontinues⟩ := regular_append_iff.1 hregular
    obtain ⟨hreward, hother⟩ := ih hmid hbatches
    obtain ⟨last, hlast, hst⟩ := Option.bind_eq_some_iff.1 hstep
    have hscored : last.2 = batch.scored := by
      rw [ValBatch.scored, hlast]
      rfl
    have hinfos : st.rewardExtraInfos = addBatch mid.rewardExtraInfos batch.hasExtraFields batch.scored := by
      rw [← Option.some.inj hst, hscored]
    have hnone : (batch.scored.filterMap fun s => (batch.info s).get? "reward") = [] :=
      List.filterMap_eq_nil_iff.2 hcontinues.noReward
    have hlength : rewardLength mid.rewardExtraInfos = (scoredSamples batches).length := by
      rw [rewardLength, hreward, length_entries]
    rw [hinfos]
    refine ⟨?_, fun key hkey => ?_⟩
    · rw [reward_addBatch, hnone, Option.getD_some, hreward, entries_append, if_pos rfl, List.map_nil, List.append_nil,
        List.map_map]
      rfl
    · rw [entries_append, if_neg hkey, ← hother key hkey, scoredSamples_append, List.length_append]
      cases hextra : batch.hasExtraFields with
      | true =>
        have hcolumn := ((columns_addExtraFields mid.rewardExtraInfos _ batch.scored).2 hkey).1
        rw [hlength] at hcolumn
        rw [hcolumn, info_of_extraFields hextra]
      | false =>
        rw [(columns_addScores _ _ batch.scored).2 hkey, info_of_not hextra]
        by_cases hempty : batch.scored = []
        · rw [hempty, List.map_nil, List.append_nil, List.length_nil, Nat.add_zero]
        · -- no info before this batch has a key, so that the column is not there
          have hget : mid.rewardExtraInfos.get? key = none := by
            rw [← Option.not_isSome_iff_eq_none, (validate_invariant hmid).isSome_iff key hkey]
            rintro ⟨info, hinfo, hsome⟩
            have hkeys := Dict.mem_keys_iff.2 hsome
            rw [hcontinues.noGap hextra hempty info hinfo] at hkeys
            exact absurd hkeys List.not_mem_nil
          have hnones : batch.scored.map (fun _ => (Dict.empty : Dict String V).get? key) =
              List.replicate batch.scored.length none := List.map_const'
          rw [hget, Option.getD_none, Option.getD_none, ← List.replicate_append_replicate, hnones]

theorem aligned_of_regular (h : validate batches = some st) (hregular : Regular batches) : Aligned batches st := by
  obtain ⟨hreward, hother⟩ := columns_of_regular h hregular
  have hscores := (validate_invariant h).scores
  have hentry : ∀ key column, st.rewardExtraInfos.get? key = some column → column = entries batches key := by
    intro key column hget
    by_cases hkey : key = "reward"
    · subst hkey
      rw [← hreward, hget]
      rfl
    · rw [← hother key hkey, hget]
      rfl
  refine ⟨hscores, fun key column hget => ?_, hentry⟩
  rw [hentry key column hget, length_entries, hscores, List.length_map]

/-- **Columns of the right length** come from regular batches. -/
theorem regular_of_length (h : validate batches = some st)
    (hlength : ∀ key column, st.rewardExtraInfos.get? key = some column →
      column.length = (scoredSamples batches).length) : Regular batches := by
  induction batches using List.reverseRecOn generalizing st with
  | nil =>
    refine ⟨fun batch hbatch => absurd hbatch List.not_mem_nil, fun before batch after hsplit => ?_⟩
    exact absurd hsplit.symm (by simp)
  | append_singleton batches batch ih =>
    obtain ⟨mid, hmid, hstep⟩ := validate_append h
    obtain ⟨last, hlast, hst⟩ := Option.bind_eq_some_iff.1 hstep
    have hscored : last.2 = batch.scored := by
      rw [ValBatch.scored, hlast]
      rfl
    have hinfos : st.rewardExtraInfos = addBatch mid.rewardExtraInfos batch.hasExtraFields batch.scored := by
      rw [← Option.some.inj hst, hscored]
    have hinvariant := validate_invariant hmid
    have hge := hinvariant.reward_length
    simp only [hinfos, scoredSamples_append, List.length_append] at hlength
    have hreward := hlength "reward" _ (reward_addBatch _ _)
    have hrewardLength := rewardLength_addBatch mid.rewardExtraInfos batch
    rw [rewardLength, reward_addBatch, Option.getD_some, hreward] at hrewardLength
    -- the column of the scores has the right length only if no info has the key
    have hold : rewardLength mid.rewardExtraInfos = (scoredSamples batches).length := by omega
    have hnone : (batch.scored.filterMap fun s => (batch.info s).get? "reward") = [] := by
      refine List.eq_nil_of_length_eq_zero ?_
      omega
    have hkept : ∀ key ≠ "reward", ∀ column, mid.rewardExtraInfos.get? key = some column →
        column.length = (scoredSamples batches).length ∧ (batch.hasExtraFields = false → batch.scored = []) := by
      intro key hkey column hget
      have hsome : ((addBatch mid.rewardExtraInfos batch.hasExtraFields batch.scored).get? key).isSome := by
        refine (isSome_addBatch hkey).2 (.inl ?_)
        rw [hget]
        rfl
      obtain ⟨column', hget'⟩ := Option.isSome_iff_exists.1 hsome
      have hcount := (length_addBatch hkey hget').2 column hget
      have htotal := hlength key column' hget'
      have hle := hinvariant.length_le hold key hkey column hget
      cases hextra : batch.hasExtraFields with
      | true =>
        rw [hextra, if_pos rfl] at hcount
        exact ⟨by omega, fun hfalse => absurd hfalse (by decide)⟩
      | false =>
        rw [hextra, if_neg (by decide)] at hcount
        exact ⟨by omega, fun _ => List.eq_nil_of_length_eq_zero (by omega)⟩
    have hbatches : Regular batches := by
      refine ih hmid fun key column hget => ?_
      by_cases hkey : key = "reward"
      · subst hkey
        rw [← hold, rewardLength, hget]
        rfl
      · exact (hkept key hkey column hget).1
    refine regular_append_iff.2 ⟨hbatches, List.filterMap_eq_nil_iff.1 hnone, fun hextra hne info hinfo => ?_⟩
    refine List.eq_nil_iff_forall_not_mem.2 fun key hkeys => ?_
    have hsome := Dict.mem_keys_iff.1 hkeys
    by_cases hkey : key = "reward"
    · obtain ⟨b, hb, hmem⟩ := List.mem_flatMap.1 hinfo
      obtain ⟨s, hs, rfl⟩ := List.mem_map.1 hmem
      rw [hkey, hbatches.noReward b hb s hs] at hsome
      cases hsome
    · obtain ⟨column, hget⟩ := Option.isSome_iff_exists.1 ((hinvariant.isSome_iff key hkey).2 ⟨info, hinfo, hsome⟩)
      exact hne ((hkept key hkey column hget).2 hextra)

/-- **No check of a length fails** if the columns are aligned. -/
theorem checked_of_aligned (h : validate batches = some st) (haligned : Aligned batches st) : Checked st := by
  have hinvariant := validate_invariant h
  have hscores : st.sampleScores.length = (scoredSamples batches).length := by
    rw [hinvariant.scores, List.length_map]
  have hget : ∀ {α : Type} (l : List α) (i : ℕ), l.length = (scoredSamples batches).length →
      i < (scoredSamples batches).length → ∃ a, l[i]? = some a := fun l i hl hi =>
    ⟨_, List.getElem?_eq_getElem (hl ▸ hi)⟩
  have hcolumn : ∀ item ∈ st.rewardExtraInfos.items, item.2.length = (scoredSamples batches).length := by
    intro item hitem
    rw [haligned.length item.1 item.2 (Dict.mem_items.1 hitem), hscores]
  refine ⟨⟨_, if_pos ?_⟩, ?_, ?_⟩
  · rw [hinvariant.inputs, hinvariant.outputs, hinvariant.scores, List.length_map, List.length_map, List.length_map]
    exact ⟨rfl, rfl⟩
  · obtain ⟨indices, hindices⟩ := exists_mapM (f := fun key => st.sessionToSampleIdx.get? (sessionFields key).1)
      (l := st.dumpAllKeys) fun key hkey => by
        obtain ⟨i, -, hi⟩ := hinvariant.sessions key hkey
        exact ⟨i, hi⟩
    have hlt : ∀ i ∈ indices, i < (scoredSamples batches).length := by
      intro i hi
      obtain ⟨k, hk⟩ := List.mem_iff_getElem?.1 hi
      obtain ⟨key, hkey, hsession⟩ := getElem?_of_forall₂ (mapM_eq_some_iff.1 hindices).flip hk
      obtain ⟨j, hj, heq⟩ := hinvariant.sessions key (List.mem_of_getElem? hkey)
      rw [show st.sessionToSampleIdx.get? (sessionFields key).1 = some i from hsession, Option.some.injEq] at heq
      exact heq ▸ hj
    obtain ⟨gts, hgts⟩ := exists_mapM (f := fun i => st.sampleGts[i]?) fun i hi =>
      hget st.sampleGts i (by rw [hinvariant.gts, List.length_map]) (hlt i hi)
    obtain ⟨scores, hscores'⟩ := exists_mapM (f := fun i => st.sampleScores[i]?) fun i hi =>
      hget st.sampleScores i hscores (hlt i hi)
    obtain ⟨infos, hinfos⟩ := exists_mapM (l := st.rewardExtraInfos.items)
      (f := fun item => (indices.mapM (item.2[·]?)).map (Prod.mk item.1)) fun item hitem => by
        obtain ⟨column, hcol⟩ := exists_mapM (f := fun i => item.2[i]?) fun i hi =>
          hget item.2 i (hcolumn item hitem) (hlt i hi)
        exact ⟨(item.1, column), by rw [hcol]; rfl⟩
    refine ⟨(gts, scores, infos), ?_⟩
    unfold dumpGenerations
    simp only [hindices, hgts, hscores', hinfos, Option.bind_eq_bind, Option.bind_some]
  · refine exists_mapM fun p hp => ?_
    have hi := (List.getElem?_eq_some_iff.1 (List.mem_zipIdx_iff_getElem?.1 hp)).1
    rw [hinvariant.sources, List.length_map] at hi
    obtain ⟨uid, huid⟩ := hget st.sampleUids p.2 (by rw [hinvariant.uids, List.length_map]) hi
    obtain ⟨vals, hvals⟩ := exists_mapM (l := st.rewardExtraInfos.items)
      (f := fun item => (item.2[p.2]?).map (Prod.mk item.1)) fun item hitem => by
        obtain ⟨v, hv⟩ := hget item.2 p.2 (hcolumn item hitem) hi
        exact ⟨(item.1, v), by rw [hv]; rfl⟩
    exact ⟨(p.1, uid, vals), by simp only [huid, hvals, Option.bind_eq_bind, Option.bind_some]⟩

/-! ## When the columns are aligned -/

/-- **The columns are aligned with the scores**, and no check of a length fails, exactly in regular batches: no info of
a scored sample has a key `reward`, and no batch with samples lacks extra fields after an info with a key. -/
theorem infos_aligned_iff (batches : List (ValBatch V)) (st : ValState V) (h : validate batches = some st) :
    Aligned batches st ∧ Checked st ↔ Regular batches := by
  constructor
  · rintro ⟨haligned, -⟩
    refine regular_of_length h fun key column hget => ?_
    rw [haligned.length key column hget, haligned.scores, List.length_map]
  · intro hregular
    have haligned := aligned_of_regular h hregular
    exact ⟨haligned, checked_of_aligned h haligned⟩

def single (key : String) (info : Dict String ℕ) (hasExtraFields : Bool) : ValBatch ℕ :=
  ⟨[⟨key, "question", "answer", "uid", 1, 2, info, none, "math"⟩], hasExtraFields⟩

def oneKey (key : String) : Dict String ℕ := Dict.empty.update key fun _ => 0

theorem aligned_missingKey :
    ∃ st, validate [single "a_0_0" (oneKey "acc") true, single "b_0_0" .empty true] = some st ∧
      (Aligned [single "a_0_0" (oneKey "acc") true, single "b_0_0" .empty true] st ∧ Checked st ↔
        Regular [single "a_0_0" (oneKey "acc") true, single "b_0_0" .empty true]) := by
  have hsome : (validate [single "a_0_0" (oneKey "acc") true, single "b_0_0" .empty true]).isSome = true := by
    decide +kernel
  obtain ⟨st, hst⟩ := Option.isSome_iff_exists.1 hsome
  exact ⟨st, hst, infos_aligned_iff _ st hst⟩

/-- An info with the key `reward` adds an entry to the column of the scores. -/
theorem not_aligned_reward :
    ¬ ∀ batches : List (ValBatch ℕ), ∀ st, validate batches = some st → Aligned batches st ∧ Checked st := by
  intro hclaim
  have hsome : (validate [single "a_0_0" (oneKey "reward") true]).isSome = true := by decide +kernel
  obtain ⟨st, hst⟩ := Option.isSome_iff_exists.1 hsome
  obtain ⟨haligned, -⟩ := hclaim _ st hst
  have hlength : ((validate [single "a_0_0" (oneKey "reward") true]).map fun st =>
      (rewardLength st.rewardExtraInfos, st.sampleScores.length)) = some (2, 1) := by decide +kernel
  rw [hst, Option.map_some, Option.some.injEq, Prod.mk.injEq] at hlength
  cases hget : st.rewardExtraInfos.get? "reward" with
  | none =>
    rw [rewardLength, hget] at hlength
    exact absurd hlength.1 (by decide)
  | some column =>
    have hcount := haligned.length "reward" column hget
    rw [rewardLength, hget, Option.getD_some, hcount, hlength.2] at hlength
    exact absurd hlength.1 (by decide)

end Opd.Verl.ValidationInfos

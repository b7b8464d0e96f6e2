import Opd.Lib.Dict
import Opd.Verl.SeqlenBalancing

/-!
# Micro-batches

A batch is split into micro-batches, by the workload or in equal pieces, and the outputs
of the micro-batches are put back in the order of the rows.

* `rearrange_ok`, `rearrange_spec`: `rearrange_micro_batches` returns a partition of the rows.
* `restore_eq`: `restore_dynamic_batch` undoes the partition.
* `concat_outputs`: the outputs of the micro-batches, one after the other.
* `microBatches_restore`: a function of single rows on the micro-batches is the function on
  the batch.
-/

namespace Opd.Verl.SeqlenBalancing

open Lib

/-- What the lengths are read from: nested `input_ids`, or the attention masks. -/
inductive SeqLens
  | nested (lengths : List ℕ)
  | padded (attentionMask : Grid Bool)

/-- `max_seq_len`. -/
def SeqLens.maxSeqLen : SeqLens → Except BalanceError ℕ
  | .nested [] => .error .valueError
  | .nested lengths => .ok (lengths.foldl max 0)
  | .padded attentionMask => .ok attentionMask.width

/-- `seq_len_effective`. -/
def SeqLens.effective : SeqLens → List ℕ
  | .nested lengths => lengths
  | .padded attentionMask => attentionMask.rows.map fun row => row.count true

/-- `calculate_workload`, of one row. -/
def calculateWorkload (seqlen : ℕ) : ℕ := 24576 * seqlen + seqlen ^ 2

/-- `ceildiv`. -/
def ceildiv (a b : ℤ) : Except BalanceError ℤ :=
  if b = 0 then .error .zeroDivisionError else .ok (-Int.fdiv a (-b))

/-- `roundup_divisible`. -/
def roundupDivisible (a b : ℤ) : Except BalanceError ℤ :=
  if b = 0 then .error .zeroDivisionError else .ok (Int.fdiv (a + b - 1) b * b)

/-- The arguments of `rearrange_micro_batches`. The numbers of micro-batches of the other ranks
are known when the ranks of `dp_group` are to have the same number. -/
structure RearrangeArgs where
  maxTokenLen : ℕ
  othersInDp : Option (List ℤ)
  numBatchesDividedBy : Option ℤ
  minNumMicroBatch : Option ℤ
  useDynamicBszBalance : Bool
  forceGroupSize : ℕ

/-- The number of micro-batches, rounded up for `num_batches_divided_by`. -/
def dividedBy (numBatchesDividedBy : Option ℤ) (num : ℤ) : Except BalanceError ℤ :=
  match numBatchesDividedBy with
  | none => .ok num
  | some divisor => roundupDivisible num divisor

/-- `num_micro_batches`, after all assertions. -/
def numMicroBatches (args : RearrangeArgs) (seqLens : SeqLens) : Except BalanceError ℤ := do
  let maxSeqLen ← seqLens.maxSeqLen
  let batchSize := seqLens.effective.length
  let numGroups := batchSize / args.forceGroupSize
  if args.maxTokenLen < maxSeqLen then
    .error (.assertionError (s!"max_token_len must be greater than the sequence length. " ++
      s!"Got max_token_len={args.maxTokenLen} and max_seq_len={maxSeqLen}"))
  else if args.forceGroupSize = 0 then .error .zeroDivisionError
  else if batchSize % args.forceGroupSize ≠ 0 then
    .error (.assertionError
      s!"Batch size {batchSize} must be divisible by force_group_size {args.forceGroupSize}")
  else do
    let needed ← ceildiv seqLens.effective.sum args.maxTokenLen
    let atLeast := max (args.minNumMicroBatch.getD (min numGroups needed)) (min numGroups needed)
    let inDp := (args.othersInDp.getD []).foldl max atLeast
    let num ← dividedBy args.numBatchesDividedBy inDp
    if num ≤ numGroups then .ok num else .error (.assertionError "")

/-- `workloads`: of the rows, or of the groups of rows. -/
def workloads (forceGroupSize : ℕ) (seqLens : List ℕ) : List ℕ :=
  if forceGroupSize > 1 then
    (List.range (seqLens.length / forceGroupSize)).map fun j =>
      (block (j * forceGroupSize) forceGroupSize (seqLens.map calculateWorkload)).sum
  else seqLens.map calculateWorkload

/-- The key by which micro-batches are sorted: the workload, and the first row. -/
def sortKey (forceGroupSize : ℕ) (workloads partition : List ℕ) : ℕ ×ₗ ℕ :=
  if forceGroupSize > 1 then
    toLex (((strided forceGroupSize partition).map fun idx => workloads.getD (idx / forceGroupSize) 0).sum,
      partition.headD 0)
  else toLex ((partition.map fun idx => workloads.getD idx 0).sum, partition.headD 0)

def placeSmallerAtEnds (forceGroupSize : ℕ) (workloads : List ℕ) (partitions : List (List ℕ)) : List (List ℕ) :=
  let sorted := sortDesc (sortKey forceGroupSize workloads) partitions
  (strided 2 sorted).reverse ++ strided 2 sorted.tail

def selectRows {α : Type} (rows : List α) (idx : List ℕ) : Except BalanceError (List α) :=
  match gather rows idx with
  | some selected => .ok selected
  | none => .error .indexError

def sampleLists (forceGroupSize : ℕ) (partitions : List (List ℕ)) : List (List ℕ) :=
  if forceGroupSize > 1 then partitions.map (members forceGroupSize) else partitions

/-- `micro_bsz_idx`. -/
def microBszIdx (args : RearrangeArgs) (seqLens : List ℕ) (num : ℤ) : Except BalanceError (List (List ℕ)) := do
  let workloads := workloads args.forceGroupSize seqLens
  let partitions ← getSeqlenBalancedPartitions workloads num.toNat false
  let samples := sampleLists args.forceGroupSize partitions
  .ok (if args.useDynamicBszBalance then placeSmallerAtEnds args.forceGroupSize workloads samples else samples)

/-- `rearrange_micro_batches`. -/
def rearrangeMicroBatches {ρ : Type} (args : RearrangeArgs) (seqLens : SeqLens) (rows : List ρ) :
    Except BalanceError (List (List ρ) × List (List ℕ)) := do
  let num ← numMicroBatches args seqLens
  let idx ← microBszIdx args seqLens.effective num
  let microBatches ← idx.mapM (selectRows rows)
  .ok (microBatches, idx)

/-- `get_reverse_idx`. -/
def getReverseIdx (idxMap : List ℕ) : Except BalanceError (List ℕ) :=
  if ∀ idx ∈ idxMap, idx < idxMap.length then .ok (reverseIdx idxMap) else .error .indexError

/-- `restore_dynamic_batch`. -/
def restoreDynamicBatch {β : Type} (data : List β) (batchIdxList : List (List ℕ)) : Except BalanceError (List β) :=
  let indices := batchIdxList.flatten
  if indices.length = data.length then do
    let revertIndices ← getReverseIdx indices
    selectRows data revertIndices
  else .error (.assertionError s!"{indices.length} vs. {data.length}")

/-! ## The engine -/

/-- `DatasetPadMode`. -/
inductive DatasetPadMode
  | right
  | leftRight
  | noPadding
  deriving DecidableEq

/-- The data of a forward pass: its rows, and its settings where they are set. -/
structure EngineData (ρ : Type) where
  rows : List ρ
  seqLens : SeqLens
  rows_eq : seqLens.effective.length = rows.length
  useDynamicBsz : Option Bool
  spSize : Option ℕ
  forceGroupSize : Option ℕ
  maxTokenLenPerGpu : Option ℕ
  microBatchSizePerGpu : Option ℕ
  padMode : Option DatasetPadMode

/-- The arguments of `prepare_micro_batches` besides the data. -/
structure PrepareArgs where
  othersInDp : Option (List ℤ)
  numBatchesDividedBy : Option ℤ
  minNumMicroBatch : Option ℤ
  useDynamicBszBalance : Bool

/-- `chunk_tensordict`: all columns are cut after the same rows. -/
def chunkTensordict {ρ : Type} (rows : List ρ) (chunks : ℕ) : Except BalanceError (List (List ρ)) :=
  if chunks = 0 then .error .zeroDivisionError
  else if rows.length % chunks = 0 then
    .ok ((List.range chunks).map fun i => block (i * (rows.length / chunks)) (rows.length / chunks) rows)
  else .error (.assertionError
    s!"expecting td with length divisible by chunks, but got {rows.length} and {chunks}")

/-- The arguments with which `prepare_micro_batches` calls `rearrange_micro_batches`. -/
def rearrangeArgs {ρ : Type} (args : PrepareArgs) (data : EngineData ρ) (maxTokenLenPerGpu : ℕ) : RearrangeArgs where
  maxTokenLen := maxTokenLenPerGpu * data.spSize.getD 1
  othersInDp := args.othersInDp
  numBatchesDividedBy := args.numBatchesDividedBy
  minNumMicroBatch := args.minNumMicroBatch
  useDynamicBszBalance := args.useDynamicBszBalance
  forceGroupSize := data.forceGroupSize.getD 1

/-- `prepare_micro_batches`. -/
def prepareMicroBatches {ρ : Type} (args : PrepareArgs) (data : EngineData ρ) :
    Except BalanceError (List (List ρ) × Option (List (List ℕ))) :=
  if data.useDynamicBsz.getD true then
    match data.maxTokenLenPerGpu with
    | none => .error (.assertionError "max_token_len_per_gpu must be set when use_dynamic_bsz is True")
    | some maxTokenLenPerGpu => do
      let (microBatches, idx) ← rearrangeMicroBatches (rearrangeArgs args data maxTokenLenPerGpu) data.seqLens data.rows
      .ok (microBatches, some idx)
  else
    match data.microBatchSizePerGpu with
    | none => .error (.keyError "micro_batch_size_per_gpu")
    | some microBatchSizePerGpu =>
      if data.forceGroupSize.getD 1 * microBatchSizePerGpu = 0 then .error .zeroDivisionError
      else if data.rows.length % (data.forceGroupSize.getD 1 * microBatchSizePerGpu) = 0 then do
        let microBatches ← chunkTensordict data.rows
          (data.rows.length / (microBatchSizePerGpu * data.forceGroupSize.getD 1))
        .ok (microBatches, none)
      else .error (.assertionError "data size must be divisible by force_group_size * micro_batch_size_per_gpu")

/-- A value of `metrics`. -/
inductive MetricValue (η : Type)
  | single (val : η)
  | list (vals : List η)

def MetricValue.toList {η : Type} : MetricValue η → List η
  | .single val => [val]
  | .list vals => vals

/-- The output of a micro-batch: the rows of each entry of `model_output`, the loss and the
metrics, where they are present. -/
structure MicroOutput (β lossT η : Type) where
  modelOutput : Option (Dict String (List β))
  loss : Option lossT
  metrics : Option (Dict String (MetricValue η))

/-- What `postprocess_batch_func` returns. -/
structure BatchOutput (β lossT η : Type) where
  modelOutput : Dict String (List β)
  loss : List lossT
  metrics : Dict String (List η)

/-- The entries of the `model_output`s, listed by their keys. -/
def listModelOutputs {β lossT η : Type} (outputLst : List (MicroOutput β lossT η)) : Dict String (List (List β)) :=
  (outputLst.filterMap MicroOutput.modelOutput).foldl
    (fun listed modelOutput => listed.merge (fun old val => old.getD [] ++ [val]) modelOutput.items) .empty

/-- `append_to_dict`, for all metrics. -/
def aggregateMetrics {β lossT η : Type} (outputLst : List (MicroOutput β lossT η)) : Dict String (List η) :=
  (outputLst.filterMap MicroOutput.metrics).foldl
    (fun aggregated metrics => aggregated.merge (fun old val => old.getD [] ++ val.toList) metrics.items) .empty

/-- `postprocess_batch_func`. -/
def postprocessBatchFunc {ρ β lossT η : Type} (outputLst : List (MicroOutput β lossT η))
    (indices : Option (List (List ℕ))) (data : EngineData ρ) : Except BalanceError (BatchOutput β lossT η) :=
  if data.padMode.getD .noPadding = .noPadding then do
    let concatenated := (listModelOutputs outputLst).map List.flatten
    let modelOutput ←
      if data.useDynamicBsz.getD true then
        concatenated.mapM fun val =>
          match indices with
          | some indices => restoreDynamicBatch val indices
          | none => .error .typeError
      else .ok concatenated
    .ok ⟨modelOutput, outputLst.filterMap MicroOutput.loss, aggregateMetrics outputLst⟩
  else .error (.assertionError "postprocess_batch_func only support NO_PADDING pad_mode")

/-! ## The partition of the rows -/

section Rearrange

variable {args : RearrangeArgs} {seqLens : SeqLens} {num : ℤ}

theorem numMicroBatches_inv (h : numMicroBatches args seqLens = .ok num) :
    0 < args.forceGroupSize ∧ args.forceGroupSize ∣ seqLens.effective.length ∧
      num ≤ (seqLens.effective.length / args.forceGroupSize : ℕ) := by
  obtain ⟨maxSeqLen, -, h⟩ := bind_eq_ok.1 h
  simp only at h
  split at h
  · cases h
  · split at h
    · cases h
    · rename_i hzero
      split at h
      · cases h
      · rename_i hmod
        obtain ⟨needed, -, h⟩ := bind_eq_ok.1 h
        obtain ⟨num', -, h⟩ := bind_eq_ok.1 h
        split at h
        · rename_i hle
          cases h
          exact ⟨Nat.pos_of_ne_zero hzero, Nat.dvd_of_mod_eq_zero (not_not.1 hmod), hle⟩
        · cases h

theorem length_workloads {g : ℕ} {lengths : List ℕ} (hpos : 0 < g) : (workloads g lengths).length = lengths.length / g := by
  unfold workloads
  split
  · rw [List.length_map, List.length_range]
  · obtain rfl : g = 1 := by omega
    rw [List.length_map, Nat.div_one]

theorem placeSmallerAtEnds_perm (g : ℕ) (workloads : List ℕ) (partitions : List (List ℕ)) :
    (placeSmallerAtEnds g workloads partitions).Perm partitions := by
  have hsort := sortDesc_perm (sortKey g workloads) partitions
  have hslices := strided_perm (sortDesc (sortKey g workloads) partitions)
  exact (((List.reverse_perm _).append_right _).trans hslices).trans hsort

/-- Lists of rows that are made of whole groups, with the groups in order. -/
def WholeGroups (g : ℕ) (idx : List (List ℕ)) : Prop :=
  ∀ l ∈ idx, ∃ groups : List ℕ, groups.Pairwise (· < ·) ∧ l = members g groups

theorem sampleLists_spec {g n : ℕ} {partitions : List (List ℕ)} (hpos : 0 < g) (hdvd : g ∣ n)
    (hpartition : IsPartition (n / g) partitions) (hincreasing : ∀ l ∈ partitions, l.Pairwise (· < ·)) :
    IsPartition n (sampleLists g partitions) ∧ WholeGroups g (sampleLists g partitions) := by
  unfold sampleLists
  split
  · have hexpand := hpartition.expand hpos
    rw [Nat.div_mul_cancel hdvd] at hexpand
    refine ⟨hexpand, ?_⟩
    intro l hl
    obtain ⟨groups, hgroups, rfl⟩ := List.mem_map.1 hl
    exact ⟨groups, hincreasing groups hgroups, rfl⟩
  · obtain rfl : g = 1 := by omega
    rw [Nat.div_one] at hpartition
    exact ⟨hpartition, fun l hl => ⟨l, hincreasing l hl, (members_one l).symm⟩⟩

/-- **The lists of indices**: whole groups, that are a partition of the rows. -/
theorem microBszIdx_spec {idx : List (List ℕ)} (hnum : numMicroBatches args seqLens = .ok num)
    (h : microBszIdx args seqLens.effective num = .ok idx) :
    idx ≠ [] ∧ IsPartition seqLens.effective.length idx ∧ WholeGroups args.forceGroupSize idx := by
  obtain ⟨hpos, hdvd, -⟩ := numMicroBatches_inv hnum
  obtain ⟨partitions, hpartitions, h⟩ := bind_eq_ok.1 h
  obtain ⟨hlen, hpartition, hincreasing⟩ := balancedPartitions_of_ok hpartitions
  rw [length_workloads hpos] at hpartition hlen
  have hrows : 0 < seqLens.effective.length := Nat.pos_of_div_pos hlen
  obtain ⟨hsamples, hgroups⟩ := sampleLists_spec hpos hdvd hpartition hincreasing
  simp only at h
  split at h
  · cases h
    have hperm := placeSmallerAtEnds_perm args.forceGroupSize (workloads args.forceGroupSize seqLens.effective)
      (sampleLists args.forceGroupSize partitions)
    have hplaced := hsamples.of_perm hperm
    exact ⟨hplaced.ne_nil hrows, hplaced, fun l hl => hgroups l (hperm.mem_iff.1 hl)⟩
  · cases h
    exact ⟨hsamples.ne_nil hrows, hsamples, hgroups⟩

theorem microBszIdx_ok (hnum : numMicroBatches args seqLens = .ok num) (hpositive : 0 < num) :
    ∃ idx, microBszIdx args seqLens.effective num = .ok idx := by
  obtain ⟨hpos, -, hle⟩ := numMicroBatches_inv hnum
  have hlen := @length_workloads args.forceGroupSize seqLens.effective hpos
  obtain ⟨partitions, hpartitions, -⟩ := @balancedPartitions_eq
    (workloads args.forceGroupSize seqLens.effective) num.toNat (by omega) (by omega)
  unfold microBszIdx
  simp only [hpartitions, bind, Except.bind]
  exact ⟨_, rfl⟩

end Rearrange

section Restore

variable {ρ β : Type}

theorem selectRows_eq_ok {rows selected : List ρ} {idx : List ℕ} :
    selectRows rows idx = .ok selected ↔ gather rows idx = some selected := by
  unfold selectRows
  cases gather rows idx with
  | none => simp
  | some out => simp

theorem selectRows_partition {rows : List ρ} {idx : List (List ℕ)} (h : IsPartition rows.length idx) :
    ∃ microBatches, idx.mapM (selectRows rows) = .ok microBatches := by
  have hrows : ∀ l ∈ idx, ∃ selected, selectRows rows l = .ok selected := by
    intro l hl
    obtain ⟨selected, hselected⟩ := gather_of_lt fun i hi => h.mem_iff.1 (List.mem_flatten.2 ⟨l, hl, hi⟩)
    exact ⟨selected, selectRows_eq_ok.2 hselected⟩
  choose! select hselect using hrows
  exact ⟨idx.map select, mapM_eq_map hselect⟩

/-- **`rearrange_micro_batches` returns** when its assertions hold and there is a micro-batch. -/
theorem rearrange_ok {args : RearrangeArgs} {seqLens : SeqLens} {num : ℤ} {rows : List ρ}
    (hrows : seqLens.effective.length = rows.length) (hnum : numMicroBatches args seqLens = .ok num)
    (hpositive : 0 < num) : ∃ out, rearrangeMicroBatches args seqLens rows = .ok out := by
  obtain ⟨idx, hidx⟩ := microBszIdx_ok hnum hpositive
  have hpartition := (microBszIdx_spec hnum hidx).2.1
  rw [hrows] at hpartition
  obtain ⟨microBatches, hmicro⟩ := selectRows_partition hpartition
  refine ⟨(microBatches, idx), ?_⟩
  unfold rearrangeMicroBatches
  simp only [hnum, hidx, hmicro, bind, Except.bind]

/-- **What it returns**: whole groups that are a partition, and the rows of each list. -/
theorem rearrange_spec {args : RearrangeArgs} {seqLens : SeqLens} {rows : List ρ} {microBatches : List (List ρ)}
    {idx : List (List ℕ)} (hrows : seqLens.effective.length = rows.length)
    (h : rearrangeMicroBatches args seqLens rows = .ok (microBatches, idx)) :
    IsPartition rows.length idx ∧ WholeGroups args.forceGroupSize idx ∧
      gather rows idx.flatten = some microBatches.flatten ∧ microBatches ≠ [] := by
  obtain ⟨num, hnum, h⟩ := bind_eq_ok.1 h
  obtain ⟨idx', hidx, h⟩ := bind_eq_ok.1 h
  obtain ⟨microBatches', hmicro, h⟩ := bind_eq_ok.1 h
  cases h
  obtain ⟨hne, hpartition, hgroups⟩ := microBszIdx_spec hnum hidx
  have hall := mapM_eq_ok_iff.1 hmicro
  refine ⟨hrows ▸ hpartition, hgroups, gather_flatten (hall.imp fun _ _ => selectRows_eq_ok.1), ?_⟩
  intro hnil
  have hlen := hall.length_eq
  rw [hnil, List.length_nil, List.length_eq_zero_iff] at hlen
  exact hne hlen

/-- **`restore_dynamic_batch` undoes the partition.** -/
theorem restore_eq {rows data : List β} {idx : List (List ℕ)} (h : IsPartition rows.length idx)
    (hdata : gather rows idx.flatten = some data) : restoreDynamicBatch data idx = .ok rows := by
  have hlen := h.perm.length_eq
  rw [List.length_range] at hlen
  have hdataLen : idx.flatten.length = data.length := by
    have := congrArg List.length (gather_eq_some.1 hdata)
    rw [List.length_map, List.length_map] at this
    exact this.symm
  have hlt : ∀ i ∈ idx.flatten, i < idx.flatten.length := by
    intro i hi
    rw [hlen]
    exact h.mem_iff.1 hi
  unfold restoreDynamicBatch
  simp only
  rw [if_pos hdataLen]
  unfold getReverseIdx
  rw [if_pos hlt]
  exact selectRows_eq_ok.2 (gather_reverseIdx h.perm hdata)

theorem chunkTensordict_flatten {rows : List ρ} {chunks : ℕ} {microBatches : List (List ρ)}
    (h : chunkTensordict rows chunks = .ok microBatches) : microBatches.flatten = rows ∧ microBatches ≠ [] := by
  unfold chunkTensordict at h
  split at h
  · cases h
  · rename_i hzero
    split at h
    · rename_i hmod
      cases h
      have hmul : chunks * (rows.length / chunks) = rows.length := Nat.mul_div_cancel' (Nat.dvd_of_mod_eq_zero hmod)
      constructor
      · rw [← splitSizes_replicate]
        exact flatten_splitSizes (by rw [List.sum_replicate_nat, hmul])
      · intro hnil
        rw [List.map_eq_nil_iff, List.range_eq_nil] at hnil
        exact hzero hnil
    · cases h

end Restore

section Outputs

variable {ρ β lossT η : Type}

def rowOutputs (f : Dict String (ρ → β)) (loss : List ρ → Option lossT)
    (metrics : List ρ → Option (Dict String (MetricValue η))) (rows : List ρ) : MicroOutput β lossT η where
  modelOutput := some (f.map fun g => rows.map g)
  loss := loss rows
  metrics := metrics rows

variable {microBatches : List (List ρ)}

theorem listModelOutputs_eq (f : Dict String (ρ → β)) (loss : List ρ → Option lossT)
    (metrics : List ρ → Option (Dict String (MetricValue η))) (hne : microBatches ≠ []) :
    listModelOutputs (microBatches.map (rowOutputs f loss metrics)) =
      f.map fun g => microBatches.map fun rows => rows.map g := by
  let append (old : Option (List (List β))) (val : List β) : List (List β) := old.getD [] ++ [val]
  -- what is listed after the micro-batches of `before`
  have hrest : ∀ after before : List (List ρ),
      (after.map fun rows => f.map fun g => rows.map g).foldl (fun listed out => listed.merge append out.items)
        (f.map fun g => before.map fun rows => rows.map g) =
      f.map fun g => (before ++ after).map fun rows => rows.map g := by
    intro after
    induction after with
    | nil =>
      intro before
      rw [List.append_nil]
      rfl
    | cons rows after ih =>
      intro before
      have hstep := Dict.merge_same append f (fun g => before.map fun rows => rows.map g) fun g => rows.map g
      have hlisted : (f.map fun g => append (some (before.map fun rows => rows.map g)) (rows.map g)) =
          f.map fun g => (before ++ [rows]).map fun rows => rows.map g :=
        Dict.map_congr fun g _ => by simp [append]
      rw [List.map_cons, List.foldl_cons, hstep, hlisted, ih, List.append_assoc]
      rfl
  obtain ⟨rows, after, rfl⟩ := List.exists_cons_of_ne_nil hne
  have hfirst : Dict.empty.merge append (f.map fun g => rows.map g).items =
      f.map fun g => [rows].map fun rows => rows.map g := by
    refine Dict.ext_items ?_
    have hnew := Dict.merge_new append (show ((Dict.empty : Dict String (List (List β))).keys ++
      (f.map fun g => rows.map g).items.map Prod.fst).Nodup from (f.map fun g => rows.map g).nodup)
    rw [hnew, Dict.items_map, Dict.items_map, List.map_map]
    rfl
  have houtputs : ((rows :: after).map (rowOutputs f loss metrics)).filterMap MicroOutput.modelOutput =
      (rows :: after).map fun rows => f.map fun g => rows.map g := by
    rw [List.filterMap_map, ← List.filterMap_eq_map]
    rfl
  unfold listModelOutputs
  rw [houtputs, List.map_cons, List.foldl_cons]
  show List.foldl _ (Dict.empty.merge append (f.map fun g => rows.map g).items) _ = _
  rw [hfirst]
  exact hrest after [rows]

/-- **The outputs of the micro-batches**, one after the other. -/
theorem concat_outputs (f : Dict String (ρ → β)) (loss : List ρ → Option lossT)
    (metrics : List ρ → Option (Dict String (MetricValue η))) (hne : microBatches ≠ []) :
    (listModelOutputs (microBatches.map (rowOutputs f loss metrics))).map List.flatten =
      f.map fun g => microBatches.flatten.map g := by
  rw [listModelOutputs_eq f loss metrics hne, Dict.map_map]
  refine Dict.map_congr ?_
  intro item _
  exact (List.map_flatten ..).symm

theorem postprocess_dynamic (f : Dict String (ρ → β)) (loss : List ρ → Option lossT)
    (metrics : List ρ → Option (Dict String (MetricValue η))) {data : EngineData ρ} {idx : List (List ℕ)}
    (hne : microBatches ≠ []) (hmode : data.padMode.getD .noPadding = .noPadding)
    (hdynamic : data.useDynamicBsz.getD true = true) (hpartition : IsPartition data.rows.length idx)
    (hrows : gather data.rows idx.flatten = some microBatches.flatten) :
    ∃ out, postprocessBatchFunc (microBatches.map (rowOutputs f loss metrics)) (some idx) data = .ok out ∧
      out.modelOutput = f.map fun g => data.rows.map g := by
  have hrestore : (f.map fun g => microBatches.flatten.map g).mapM (fun val => restoreDynamicBatch val idx) =
      .ok (f.map fun g => data.rows.map g) := by
    refine Dict.mapM_map_eq ?_
    intro item _
    refine restore_eq ?_ (gather_map item.2 hrows)
    rwa [List.length_map]
  unfold postprocessBatchFunc
  rw [if_pos hmode, concat_outputs f loss metrics hne, hdynamic]
  simp only [if_true, bind, Except.bind, hrestore]
  exact ⟨_, rfl, rfl⟩

theorem postprocess_static (f : Dict String (ρ → β)) (loss : List ρ → Option lossT)
    (metrics : List ρ → Option (Dict String (MetricValue η))) {data : EngineData ρ} (hne : microBatches ≠ [])
    (hmode : data.padMode.getD .noPadding = .noPadding) (hstatic : data.useDynamicBsz.getD true = false)
    (hrows : microBatches.flatten = data.rows) :
    ∃ out, postprocessBatchFunc (microBatches.map (rowOutputs f loss metrics)) none data = .ok out ∧
      out.modelOutput = f.map fun g => data.rows.map g := by
  unfold postprocessBatchFunc
  rw [if_pos hmode, concat_outputs f loss metrics hne, hstatic, hrows]
  exact ⟨_, rfl, rfl⟩

end Outputs

theorem prepare_dynamic {ρ : Type} {args : PrepareArgs} {data : EngineData ρ} {perGpu : ℕ}
    (hdynamic : data.useDynamicBsz.getD true = true) (hper : data.maxTokenLenPerGpu = some perGpu) :
    prepareMicroBatches args data = (do
      let (microBatches, idx) ← rearrangeMicroBatches (rearrangeArgs args data perGpu) data.seqLens data.rows
      .ok (microBatches, some idx)) := by
  unfold prepareMicroBatches
  rw [hdynamic, hper]
  rfl

theorem prepare_spec {ρ : Type} {args : PrepareArgs} {data : EngineData ρ} {microBatches : List (List ρ)}
    {indices : Option (List (List ℕ))} (h : prepareMicroBatches args data = .ok (microBatches, indices)) :
    (data.useDynamicBsz.getD true = true ∧ ∃ idx, indices = some idx ∧ IsPartition data.rows.length idx ∧
      WholeGroups (data.forceGroupSize.getD 1) idx ∧ gather data.rows idx.flatten = some microBatches.flatten ∧
      microBatches ≠ []) ∨
    (data.useDynamicBsz.getD true = false ∧ indices = none ∧ microBatches.flatten = data.rows ∧ microBatches ≠ []) := by
  unfold prepareMicroBatches at h
  split at h
  · rename_i hdynamic
    split at h
    · cases h
    · obtain ⟨⟨microBatches', idx⟩, hrearrange, h⟩ := bind_eq_ok.1 h
      cases h
      exact .inl ⟨hdynamic, idx, rfl, rearrange_spec data.rows_eq hrearrange⟩
  · rename_i hstatic
    split at h
    · cases h
    · split at h
      · cases h
      · split at h
        · obtain ⟨microBatches', hchunk, h⟩ := bind_eq_ok.1 h
          cases h
          exact .inr ⟨by simpa using hstatic, rfl, chunkTensordict_flatten hchunk⟩
        · cases h

/-- **Micro-batches restore the batch.** On the dynamic path micro-batches are returned when the
assertions hold and there is one of them. The lists of indices are a partition of the rows, of
whole groups in order, and on both paths the outputs of a function of single rows are put
back in the order of the rows. -/
theorem microBatches_restore {ρ β lossT η : Type} (args : PrepareArgs) (data : EngineData ρ)
    (f : Dict String (ρ → β)) (loss : List ρ → Option lossT)
    (metrics : List ρ → Option (Dict String (MetricValue η))) :
    (∀ perGpu num, data.useDynamicBsz.getD true = true → data.maxTokenLenPerGpu = some perGpu →
      numMicroBatches (rearrangeArgs args data perGpu) data.seqLens = .ok num → 0 < num →
      ∃ out, prepareMicroBatches args data = .ok out) ∧
    ∀ microBatches indices, prepareMicroBatches args data = .ok (microBatches, indices) →
      indices.isSome = data.useDynamicBsz.getD true ∧
      (∀ idx, indices = some idx → (∀ l ∈ idx, l ≠ []) ∧ idx.Pairwise List.Disjoint ∧
        (∀ i, i ∈ idx.flatten ↔ i < data.rows.length) ∧ WholeGroups (data.forceGroupSize.getD 1) idx) ∧
      (data.padMode.getD .noPadding = .noPadding →
        ∃ out, postprocessBatchFunc (microBatches.map (rowOutputs f loss metrics)) indices data = .ok out ∧
          out.modelOutput = f.map fun g => data.rows.map g) := by
  refine ⟨?_, ?_⟩
  · intro perGpu num hdynamic hper hnum hpositive
    obtain ⟨out, hout⟩ := rearrange_ok data.rows_eq hnum hpositive
    refine ⟨(out.1, some out.2), ?_⟩
    rw [prepare_dynamic hdynamic hper, hout]
    rfl
  · intro microBatches indices h
    -- on the dynamic path the rows are permuted, on the static path they are cut
    rcases prepare_spec h with ⟨hdynamic, idx, rfl, hpartition, hgroups, hrows, hne⟩ | ⟨hstatic, rfl, hrows, hne⟩
    · refine ⟨hdynamic.symm, ?_, ?_⟩
      · intro idx' hidx
        cases hidx
        exact ⟨hpartition.nonempty, hpartition.disjoint, fun i => hpartition.mem_iff, hgroups⟩
      · intro hmode
        exact postprocess_dynamic f loss metrics hne hmode hdynamic hpartition hrows
    · refine ⟨hstatic.symm, ?_, ?_⟩
      · intro idx hidx
        cases hidx
      · intro hmode
        exact postprocess_static f loss metrics hne hmode hstatic hrows

/-- Four rows in groups of two, with the lengths of their tokens. -/
def fourSamples : EngineData ℕ where
  rows := [10, 11, 12, 13]
  seqLens := .nested [1, 2, 3, 2]
  rows_eq := rfl
  useDynamicBsz := none
  spSize := none
  forceGroupSize := some 2
  maxTokenLenPerGpu := some 4
  microBatchSizePerGpu := none
  padMode := none

/-- The numbers of micro-batches are not synchronised or rounded. -/
def plainArgs : PrepareArgs := ⟨none, none, none, true⟩

theorem microBatches_restore_fourSamples :
    (∃ out, prepareMicroBatches plainArgs fourSamples = .ok out) ∧
    ∃ out, postprocessBatchFunc ([[12, 13], [10, 11]].map
        (rowOutputs ⟨[("double", fun x => 2 * x)], List.nodup_singleton _⟩ (fun _ => some 0)
          fun _ => (none : Option (Dict String (MetricValue ℕ))))) (some [[2, 3], [0, 1]]) fourSamples = .ok out ∧
      out.modelOutput.items = [("double", [20, 22, 24, 26])] := by
  have hall := microBatches_restore plainArgs fourSamples ⟨[("double", fun x => 2 * x)], List.nodup_singleton _⟩
    (fun _ => some 0) fun _ => (none : Option (Dict String (MetricValue ℕ)))
  have hprepare : prepareMicroBatches plainArgs fourSamples = .ok ([[12, 13], [10, 11]], some [[2, 3], [0, 1]]) := by
    decide +kernel
  refine ⟨hall.1 4 2 rfl rfl rfl (by decide), ?_⟩
  obtain ⟨-, -, hpost⟩ := hall.2 _ _ hprepare
  obtain ⟨out, hout, hmodel⟩ := hpost rfl
  exact ⟨out, hout, by rw [hmodel]; rfl⟩

end Opd.Verl.SeqlenBalancing

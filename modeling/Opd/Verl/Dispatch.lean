import Opd.Verl.DataProto

/-!
# Dispatch and collect

A call on a worker group is split along the rows, each worker gets the chunk of its data
parallel rank, and the results of one worker for each rank are put together.

* `parallelPut_eq`: the order in which the futures complete does not matter.
* `dispatch_eq`, `collect_eq`: what the workers get, and what is made of their results.
* `roundTrip_iff`: dispatch, work and collect are the work on the whole batch, exactly when
  there is a positional argument and no empty tensor batch is lost by `TensorDict.chunk`.
-/

namespace Opd.Verl.Dispatch

open Lib

structure Call (α : Type) where
  args : List α
  kwargs : List (String × α)

namespace Call

variable {α β : Type} {call : Call α}

def map (f : α → β) (call : Call α) : Call β := ⟨call.args.map f, call.kwargs.map fun kv => (kv.1, f kv.2)⟩

def values (call : Call α) : List α := call.args ++ call.kwargs.map Prod.snd

/-- Something that can fail with each argument, the positional ones first. -/
def mapM (f : α → Except ProtoError β) (call : Call α) : Except ProtoError (Call β) := do
  let args ← call.args.mapM f
  let kwargs ← call.kwargs.mapM fun kv => (f kv.2).map (Prod.mk kv.1)
  .ok ⟨args, kwargs⟩

theorem map_map {γ : Type} (f : α → β) (g : β → γ) (call : Call α) : (call.map f).map g = call.map fun a => g (f a) := by
  unfold map
  simp only [List.map_map, Function.comp_def]

theorem map_congr {f g : α → β} (h : ∀ a ∈ call.values, f a = g a) : call.map f = call.map g := by
  unfold map
  congr 1
  · exact List.map_congr_left fun a ha => h a (List.mem_append_left _ ha)
  · exact List.map_congr_left fun kv hkv =>
      congrArg (Prod.mk kv.1) (h kv.2 (List.mem_append_right _ (List.mem_map_of_mem hkv)))

theorem values_map (f : α → β) (call : Call α) : (call.map f).values = call.values.map f := by
  unfold values map
  rw [List.map_append, List.map_map, List.map_map]
  rfl

theorem mapM_map_eq {γ : Type} {f : β → Except ProtoError γ} {g : α → β} {h : α → γ}
    (hf : ∀ a ∈ call.values, f (g a) = .ok (h a)) : (call.map g).mapM f = .ok (call.map h) := by
  have hargs : (call.map g).args.mapM f = .ok (call.map h).args :=
    Lib.mapM_map_eq fun a ha => hf a (List.mem_append_left _ ha)
  have hkwargs : (call.map g).kwargs.mapM (fun kv => (f kv.2).map (Prod.mk kv.1)) = .ok (call.map h).kwargs := by
    refine Lib.mapM_map_eq ?_
    intro kv hkv
    rw [hf kv.2 (List.mem_append_right _ (List.mem_map_of_mem hkv))]
    rfl
  unfold mapM
  rw [hargs, hkwargs]
  rfl

theorem map_id (call : Call α) : call.map id = call := by
  unfold map
  simp

theorem mapM_eq {f : α → Except ProtoError β} {g : α → β} (h : ∀ a ∈ call.values, f a = .ok (g a)) :
    call.mapM f = .ok (call.map g) := by
  have hmap : (call.map id).mapM f = .ok (call.map g) := mapM_map_eq h
  rwa [map_id] at hmap

theorem ok_of_mapM {f : α → Except ProtoError β} {out : Call β} (h : call.mapM f = .ok out) {a : α}
    (ha : a ∈ call.values) : ∃ b, f a = .ok b := by
  obtain ⟨args, hargs, h⟩ := bind_eq_ok.1 h
  obtain ⟨kwargs, hkwargs, -⟩ := bind_eq_ok.1 h
  rcases List.mem_append.1 ha with ha | ha
  · exact Lib.ok_of_mapM hargs ha
  · obtain ⟨kv, hkv, rfl⟩ := List.mem_map.1 ha
    obtain ⟨b, hb⟩ := Lib.ok_of_mapM hkwargs hkv
    rcases hf : f kv.2 with error | b
    · rw [hf] at hb
      exact absurd hb (by simp [Except.map])
    · exact ⟨b, rfl⟩

end Call

variable {τ ν μ τ' ν' μ' : Type}

/-- What the splitting depends on: `TensorDict.chunk`, which values of `meta_info` are true,
and `DataProtoConfig.auto_padding`. -/
structure Settings (μ : Type) where
  td : TensorDictChunk
  truthy : μ → Bool
  autoPadding : Bool

/-- The order in which the futures of a thread pool complete. -/
structure Completion where
  order : ℕ → List ℕ
  perm : ∀ n, (order n).Perm (List.range n)

/-- `parallel_put`: the references, put back in order. What `ray.put` stores is what a
worker gets. -/
def parallelPut {α : Type} (completion : Completion) (dataList : List α) : Except ProtoError (List α) :=
  if dataList.isEmpty then .error (.assertionError "data_list must not be empty")
  else
    let resLst := completion.order dataList.length
    let output := resLst.foldl (fun output i => output.set i dataList[i]?) (List.replicate dataList.length none)
    match output.mapM id with
    | some output => .ok output
    | none => .error .typeError

/-- `_split_args_kwargs_data_proto`. -/
def splitArgsKwargsDataProto (settings : Settings μ) (chunks : ℕ) (call : Call (DataProto τ ν μ)) :
    Except ProtoError (Call (List (DataProto τ ν μ))) :=
  call.mapM fun arg => do
    let chunked ← arg.chunk settings.td (arg.isPaddingEnabled settings.truthy settings.autoPadding) chunks
    if chunked.length = chunks then .ok chunked else .error (.assertionError "")

/-- `dispatch_nd_compute`. The first positional argument is read for the number of threads. -/
def dispatchNdCompute {α : Type} (completion : Completion) (dpRankMapping : List ℕ) (dpSize worldSize : ℕ)
    (call : Call (List α)) : Except ProtoError (Call (List α)) :=
  match call.args with
  -- `len(args[0])` without a positional argument
  | [] => .error .indexError
  | _ => do
    let put ← call.mapM (parallelPut completion)
    put.mapM fun arg =>
      if arg.length = dpSize then
        (List.range worldSize).mapM fun i =>
          match dpRankMapping[i]?.bind fun localDpRank => arg[localDpRank]? with
          | some chunk => .ok chunk
          | none => .error .indexError
      else .error (.assertionError "")

/-- `dispatch_nd_compute_dataproto`. -/
def dispatchNdComputeDataproto (settings : Settings μ) (completion : Completion) (dpRankMapping : List ℕ)
    (dpSize worldSize : ℕ) (call : Call (DataProto τ ν μ)) : Except ProtoError (Call (List (DataProto τ ν μ))) := do
  let split ← splitArgsKwargsDataProto settings dpSize call
  dispatchNdCompute completion dpRankMapping dpSize worldSize split

/-- `execute_all`: each worker gets its element of every list. Lists of other lengths would be
sent as they are, which a method on batches does not take. -/
def executeAll {α : Type} (worldSize : ℕ) (call : Call (List α)) : Except ProtoError (List (Call α)) :=
  if call.values.all fun arg => arg.length = worldSize then
    (List.range worldSize).mapM fun i => call.mapM fun arg =>
      match arg[i]? with
      | some x => .ok x
      | none => .error .indexError
  else .error .typeError

def collectRank {α : Type} (collectMask : List Bool) (output : List α) (globalRank : ℕ) :
    Except ProtoError (Option α) :=
  match collectMask[globalRank]?, output[globalRank]? with
  | some true, some x => .ok (some x)
  | some false, _ => .ok none
  | _, _ => .error .indexError

/-- `collect_nd_compute`. -/
def collectNdCompute {α : Type} (collectMask : List Bool) (worldSize : ℕ) (output : List α) :
    Except ProtoError (List α) :=
  if output.length = worldSize then
    ((List.range worldSize).mapM (collectRank collectMask output)).map fun picked => picked.filterMap id
  else .error (.assertionError "")

/-- `collect_nd_compute_dataproto`. -/
def collectNdComputeDataproto [DecidableEq μ] (collectMask : List Bool) (worldSize : ℕ)
    (output : List (DataProto τ ν μ)) : Except ProtoError (DataProto τ ν μ) := do
  let output ← collectNdCompute collectMask worldSize output
  if output.isEmpty then .error (.assertionError "expecting concatable output, but got element type empty")
  else DataProto.concat output

/-! ## Functions of single rows -/

/-- A function that a worker computes row by row: the tensors and the arrays of a result row
from the same row of each argument. -/
structure RowFn (τ ν μ τ' ν' μ' : Type) where
  batch : Option (Call (Row τ ν) → τ')
  nonTensorBatch : Dict String (Call (Row τ ν) → ν')
  metaInfo : Call (Dict String μ) → Dict String μ'

/-- The number of rows of a call. Batches without columns take part in each row. -/
def Call.rows (call : Call (DataProto τ ν μ)) : ℕ := (call.values.map DataProto.len).foldr max 0

/-- A column of the result, for `n` rows of the call from `start` on. -/
def column {β : Type} (call : Call (DataProto τ ν μ)) (start n : ℕ) (g : Call (Row τ ν) → β) : List β :=
  (List.range n).map fun i => g (call.map fun arg => arg.row (start + i))

def RowFn.apply (f : RowFn τ ν μ τ' ν' μ') (call : Call (DataProto τ ν μ)) : DataProto τ' ν' μ' where
  batch := f.batch.map (column call 0 call.rows)
  nonTensorBatch := f.nonTensorBatch.map (column call 0 call.rows)
  metaInfo := f.metaInfo (call.map DataProto.metaInfo)

def ndCall [DecidableEq μ'] (settings : Settings μ) (completion : Completion) (dpRankMapping : List ℕ)
    (collectMask : List Bool) (dpSize worldSize : ℕ) (f : Call (DataProto τ ν μ) → DataProto τ' ν' μ')
    (call : Call (DataProto τ ν μ)) : Except ProtoError (DataProto τ' ν' μ') := do
  let dispatched ← dispatchNdComputeDataproto settings completion dpRankMapping dpSize worldSize call
  let calls ← executeAll worldSize dispatched
  collectNdComputeDataproto collectMask worldSize (calls.map f)

/-! ## Dispatch -/

theorem getElem?_foldl_set {α : Type} (data : List α) (order : List ℕ) (output : List (Option α)) (j : ℕ)
    (hj : j < output.length) :
    (order.foldl (fun output i => output.set i data[i]?) output)[j]? =
      if j ∈ order then some data[j]? else output[j]? := by
  induction order generalizing output with
  | nil => rfl
  | cons i order ih =>
    rw [List.foldl_cons, ih _ (by rwa [List.length_set])]
    by_cases hmem : j ∈ order
    · rw [if_pos hmem, if_pos (List.mem_cons_of_mem _ hmem)]
    · rw [if_neg hmem, List.getElem?_set]
      by_cases hi : i = j
      · rw [if_pos hi, if_pos (hi ▸ hj), if_pos (hi ▸ List.mem_cons_self), hi]
      · rw [if_neg hi, if_neg (fun h => (List.mem_cons.1 h).elim (fun h => hi h.symm) hmem)]

theorem length_foldl_set {α : Type} (data : List α) (order : List ℕ) (output : List (Option α)) :
    (order.foldl (fun output i => output.set i data[i]?) output).length = output.length := by
  induction order generalizing output with
  | nil => rfl
  | cons i order ih => rw [List.foldl_cons, ih, List.length_set]

/-- **The order of completion does not matter.** -/
theorem parallelPut_eq {α : Type} (completion : Completion) {dataList : List α} (h : dataList ≠ []) :
    parallelPut completion dataList = .ok dataList := by
  have hall : (completion.order dataList.length).foldl (fun output i => output.set i dataList[i]?)
      (List.replicate dataList.length none) = dataList.map some := by
    refine List.ext_getElem? ?_
    intro j
    by_cases hj : j < dataList.length
    · have hmem : j ∈ completion.order dataList.length :=
        (completion.perm dataList.length).mem_iff.2 (List.mem_range.2 hj)
      rw [getElem?_foldl_set _ _ _ _ (by rwa [List.length_replicate]), if_pos hmem, List.getElem?_map,
        List.getElem?_eq_getElem hj]
      rfl
    · rw [List.getElem?_eq_none, List.getElem?_eq_none]
      · rw [List.length_map]
        omega
      · rw [length_foldl_set, List.length_replicate]
        omega
  unfold parallelPut
  rw [if_neg (by rwa [List.isEmpty_iff])]
  simp only [hall, mapM_some]

def rankOf (dpRankMapping : List ℕ) (i : ℕ) : ℕ := dpRankMapping.getD i 0

section RoundTrip

variable {settings : Settings μ} {completion : Completion} {dpRankMapping : List ℕ} {collectMask : List Bool}
  {dpSize worldSize size : ℕ} {call : Call (DataProto τ ν μ)}

theorem split_eq (hpos : 0 < dpSize) (h : ∀ arg ∈ call.values, arg.HasRows (dpSize * size))
    (hsizes : ∀ arg ∈ call.values, arg.batch.isSome →
      settings.td.sizes (dpSize * size) dpSize = List.replicate dpSize size) :
    splitArgsKwargsDataProto settings dpSize call =
      .ok (call.map fun arg => (List.range dpSize).map fun r => arg.block (r * size) size) := by
  refine Call.mapM_eq ?_
  intro arg harg
  rw [DataProto.chunk_eq _ hpos (h arg harg) (hsizes arg harg)]
  simp only [bind, Except.bind]
  rw [if_pos (by rw [List.length_map, List.length_range])]

/-- **What the workers get**: the chunk of their rank, for each argument. -/
theorem dispatch_eq {α : Type} {call : Call α} (f : α → ℕ → α) (hargs : call.args ≠ []) (hpos : 0 < dpSize)
    (hlen : dpRankMapping.length = worldSize) (hrank : ∀ r ∈ dpRankMapping, r < dpSize) :
    dispatchNdCompute completion dpRankMapping dpSize worldSize
        (call.map fun arg => (List.range dpSize).map (f arg)) =
      .ok (call.map fun arg => (List.range worldSize).map fun i => f arg (rankOf dpRankMapping i)) := by
  -- the futures hand over what was put
  have hput : (call.map fun arg => (List.range dpSize).map (f arg)).mapM (parallelPut completion) =
      .ok (call.map fun arg => (List.range dpSize).map (f arg)) := by
    refine Call.mapM_map_eq ?_
    intro arg _
    refine parallelPut_eq completion ?_
    intro hnil
    have := congrArg List.length hnil
    rw [List.length_map, List.length_range, List.length_nil] at this
    omega
  have hne : (call.map fun arg => (List.range dpSize).map (f arg)).args ≠ [] :=
    fun hnil => hargs (List.map_eq_nil_iff.1 hnil)
  unfold dispatchNdCompute
  split
  · rename_i hnil
    exact absurd hnil hne
  · rw [hput]
    refine Call.mapM_map_eq ?_
    intro arg _
    rw [if_pos (by rw [List.length_map, List.length_range])]
    refine mapM_eq_map ?_
    intro i hi
    have hi : i < dpRankMapping.length := by
      rw [hlen]
      exact List.mem_range.1 hi
    have hget : dpRankMapping[i]? = some (rankOf dpRankMapping i) := by
      unfold rankOf
      rw [List.getD_eq_getElem?_getD, List.getElem?_eq_getElem hi, Option.getD_some]
    -- the rank of worker `i` picks the chunk
    have hlt := hrank _ (List.mem_of_getElem? hget)
    rw [hget, Option.bind_some, List.getElem?_map, List.getElem?_range hlt, Option.map_some]

theorem execute_eq {α : Type} {call : Call α} (f : α → ℕ → α) :
    executeAll worldSize (call.map fun arg => (List.range worldSize).map (f arg)) =
      .ok ((List.range worldSize).map fun i => call.map fun arg => f arg i) := by
  unfold executeAll
  rw [if_pos]
  · refine mapM_eq_map ?_
    intro i hi
    refine Call.mapM_map_eq ?_
    intro arg _
    rw [List.getElem?_map, List.getElem?_range (List.mem_range.1 hi), Option.map_some]
  · rw [Call.values_map, List.all_eq_true]
    intro arg harg
    obtain ⟨arg', -, rfl⟩ := List.mem_map.1 harg
    rw [decide_eq_true_eq, List.length_map, List.length_range]

def selectedRanks (collectMask : List Bool) (worldSize : ℕ) : List ℕ :=
  (List.range worldSize).filter fun i => collectMask.getD i false

theorem filterMap_ite {α : Type} (p : ℕ → Bool) (f : ℕ → α) (l : List ℕ) :
    (l.map fun i => if p i then some (f i) else none).filterMap id = (l.filter p).map f := by
  induction l with
  | nil => rfl
  | cons i l ih =>
    rw [List.map_cons, List.filterMap_cons, ih, List.filter_cons]
    cases p i <;> rfl

theorem collect_eq {α : Type} (hmask : collectMask.length = worldSize) (f : ℕ → α) :
    collectNdCompute collectMask worldSize ((List.range worldSize).map f) =
      .ok ((selectedRanks collectMask worldSize).map f) := by
  unfold collectNdCompute
  rw [if_pos (by rw [List.length_map, List.length_range])]
  have hpick : (List.range worldSize).mapM (collectRank collectMask ((List.range worldSize).map f)) =
      .ok ((List.range worldSize).map fun i => if collectMask.getD i false then some (f i) else none) := by
    refine mapM_eq_map ?_
    intro i hi
    have hi := List.mem_range.1 hi
    have hget : collectMask[i]? = some (collectMask.getD i false) := by
      rw [List.getD_eq_getElem?_getD, List.getElem?_eq_getElem (by omega), Option.getD_some]
    unfold collectRank
    rw [hget, List.getElem?_map, List.getElem?_range hi, Option.map_some]
    cases collectMask.getD i false <;> rfl
  rw [hpick]
  exact congrArg Except.ok (filterMap_ite _ f _)

/-! ## The round trip -/

theorem rows_eq {n : ℕ} (h : ∀ arg ∈ call.values, arg.HasRows n) :
    call.rows = if call.values.any DataProto.hasColumns then n else 0 := by
  unfold Call.rows
  generalize call.values = values at h
  induction values with
  | nil => rfl
  | cons arg values ih =>
    have hrest := ih fun arg harg => h arg (List.mem_cons_of_mem _ harg)
    rw [List.map_cons, List.foldr_cons, hrest, (h arg List.mem_cons_self).len_eq, List.any_cons]
    cases arg.hasColumns <;> cases values.any DataProto.hasColumns <;> simp

theorem rows_block {r : ℕ} (h : ∀ arg ∈ call.values, arg.HasRows (dpSize * size)) (hr : r < dpSize) :
    (call.map fun arg => arg.block (r * size) size).rows = if call.values.any DataProto.hasColumns then size else 0 := by
  have hle : r * size + size ≤ dpSize * size := by
    rw [← Nat.succ_mul]
    exact Nat.mul_le_mul_right _ hr
  have hblocks : ∀ arg ∈ (call.map fun arg => arg.block (r * size) size).values, arg.HasRows size := by
    intro arg harg
    rw [Call.values_map] at harg
    obtain ⟨arg', harg', rfl⟩ := List.mem_map.1 harg
    exact (h arg' harg').block hle
  rw [rows_eq hblocks, Call.values_map]
  simp only [List.any_map, Function.comp_def, DataProto.hasColumns_block]

theorem column_block {β : Type} {start n : ℕ} (h : n ≤ size) (g : Call (Row τ ν) → β) :
    column (call.map fun arg => arg.block start size) 0 n g = column call start n g := by
  refine List.map_congr_left ?_
  intro j hj
  have hj := List.mem_range.1 hj
  rw [Call.map_map, Nat.zero_add]
  exact congrArg g (Call.map_congr fun arg _ => arg.row_block (by omega))

theorem apply_block (f : RowFn τ ν μ τ' ν' μ') (h : ∀ arg ∈ call.values, arg.HasRows (dpSize * size)) {r : ℕ}
    (hr : r < dpSize) :
    f.apply (call.map fun arg => arg.block (r * size) size) =
      { batch := f.batch.map (column call (r * size) (if call.values.any DataProto.hasColumns then size else 0))
        nonTensorBatch := f.nonTensorBatch.map
          (column call (r * size) (if call.values.any DataProto.hasColumns then size else 0))
        metaInfo := f.metaInfo (call.map DataProto.metaInfo) } := by
  have hle : (if call.values.any DataProto.hasColumns then size else 0) ≤ size := by
    split <;> omega
  have hmeta : (call.map fun arg => arg.block (r * size) size).map DataProto.metaInfo = call.map DataProto.metaInfo :=
    Call.map_map _ _ _
  unfold RowFn.apply
  rw [rows_block h hr, hmeta]
  congr 1
  · exact Option.map_congr fun g _ => column_block hle g
  · exact Dict.map_congr fun item _ => column_block hle item.2

theorem flatMap_column {β : Type} (h : ∀ arg ∈ call.values, arg.HasRows (dpSize * size)) (g : Call (Row τ ν) → β) :
    ((List.range dpSize).flatMap fun r =>
      column call (r * size) (if call.values.any DataProto.hasColumns then size else 0) g) =
      column call 0 call.rows g := by
  rw [rows_eq h]
  split
  · unfold column
    simp only [Nat.zero_add]
    exact flatMap_range_blocks dpSize size fun i => g (call.map fun arg => arg.row i)
  · exact List.flatMap_eq_nil_iff.2 fun r _ => rfl

theorem length_column {β : Type} (call : Call (DataProto τ ν μ)) (start n : ℕ) (g : Call (Row τ ν) → β) :
    (column call start n g).length = n := by
  rw [column, List.length_map, List.length_range]

theorem hasRows_apply (f : RowFn τ ν μ τ' ν' μ') : (f.apply call).HasRows call.rows where
  batch := by
    intro rows hrows
    obtain ⟨g, -, rfl⟩ := Option.map_eq_some_iff.1 hrows
    exact length_column ..
  nonTensorBatch := by
    intro item hitem
    obtain ⟨item', -, rfl⟩ := List.mem_map.1 hitem
    exact length_column ..

/-- **The work on the blocks, put together**, is the work on the whole. -/
theorem concat_blocks [DecidableEq μ'] (f : RowFn τ ν μ τ' ν' μ') (hpos : 0 < dpSize)
    (h : ∀ arg ∈ call.values, arg.HasRows (dpSize * size)) :
    DataProto.concat ((List.range dpSize).map fun r => f.apply (call.map fun arg => arg.block (r * size) size)) =
      .ok (f.apply call) := by
  have hne : List.range dpSize ≠ [] := by
    rw [Ne, List.range_eq_nil]
    omega
  have hblocks := List.map_congr_left fun r hr => apply_block f h (List.mem_range.1 hr)
  rw [hblocks, DataProto.concat_map hne]
  simp only [flatMap_column h]
  exact (hasRows_apply f).new_eq

def KeepsEmpty (settings : Settings μ) (dpSize : ℕ) (call : Call (DataProto τ ν μ)) : Prop :=
  ∀ arg ∈ call.values, arg.batch.isSome → (settings.td.sizes 0 dpSize).length = dpSize

theorem ndCall_eq [DecidableEq μ'] (f : RowFn τ ν μ τ' ν' μ') (hargs : call.args ≠ []) (hpos : 0 < dpSize)
    (hlen : dpRankMapping.length = worldSize) (hrank : ∀ r ∈ dpRankMapping, r < dpSize)
    (hmask : collectMask.length = worldSize)
    (hselected : (selectedRanks collectMask worldSize).map (rankOf dpRankMapping) = List.range dpSize)
    (h : ∀ arg ∈ call.values, arg.HasRows (dpSize * size)) (hsize : 0 < size ∨ KeepsEmpty settings dpSize call) :
    ndCall settings completion dpRankMapping collectMask dpSize worldSize f.apply call = .ok (f.apply call) := by
  have hsizes : ∀ arg ∈ call.values, arg.batch.isSome →
      settings.td.sizes (dpSize * size) dpSize = List.replicate dpSize size :=
    fun arg harg hsome => DataProto.chunk_sizes hpos (hsize.imp_right fun hkeeps => hkeeps arg harg hsome)
  unfold ndCall dispatchNdComputeDataproto
  -- split, send, execute and collect, each by its equation
  rw [split_eq hpos h hsizes]
  simp only [bind, Except.bind]
  rw [dispatch_eq (fun arg r => arg.block (r * size) size) hargs hpos hlen hrank]
  simp only [execute_eq, List.map_map]
  unfold collectNdComputeDataproto
  simp only [Function.comp_def, collect_eq hmask, bind, Except.bind]
  -- the workers that are collected hold the blocks in order
  have hmap : (selectedRanks collectMask worldSize).map
      (fun i => f.apply (call.map fun arg => arg.block (rankOf dpRankMapping i * size) size)) =
      (List.range dpSize).map fun r => f.apply (call.map fun arg => arg.block (r * size) size) := by
    rw [← hselected, List.map_map]
    rfl
  rw [hmap, if_neg, concat_blocks f hpos h]
  rw [List.isEmpty_iff, List.map_eq_nil_iff, List.range_eq_nil]
  omega

theorem args_of_dispatch {split : Call (List (DataProto τ ν μ))} {out : Call (List (DataProto τ ν μ))}
    (hsplit : splitArgsKwargsDataProto settings dpSize call = .ok split)
    (h : dispatchNdCompute completion dpRankMapping dpSize worldSize split = .ok out) : call.args ≠ [] := by
  intro hnil
  have hargs : split.args = [] := by
    obtain ⟨args, hargs, h⟩ := bind_eq_ok.1 hsplit
    obtain ⟨kwargs, -, h⟩ := bind_eq_ok.1 h
    rw [hnil, List.mapM_nil] at hargs
    rw [← Except.ok.inj h]
    exact (Except.ok.inj hargs).symm
  unfold dispatchNdCompute at h
  rw [hargs] at h
  cases h

theorem keepsEmpty_of_split {split : Call (List (DataProto τ ν μ))} (hpos : 0 < dpSize)
    (h : ∀ arg ∈ call.values, arg.HasRows 0) (hsplit : splitArgsKwargsDataProto settings dpSize call = .ok split) :
    KeepsEmpty settings dpSize call := by
  intro arg harg hsome
  by_contra hfew
  obtain ⟨chunks, hchunks⟩ := Call.ok_of_mapM hsplit harg
  have herror := DataProto.chunk_error (arg.isPaddingEnabled settings.truthy settings.autoPadding) (h arg harg) hsome
    hpos hfew
  obtain ⟨out, hout, -⟩ := bind_eq_ok.1 hchunks
  exact herror out hout

theorem args_of_ndCall [DecidableEq μ'] {f : Call (DataProto τ ν μ) → DataProto τ' ν' μ'} {out : DataProto τ' ν' μ'}
    (h : ndCall settings completion dpRankMapping collectMask dpSize worldSize f call = .ok out) :
    call.args ≠ [] ∧ ∃ split, splitArgsKwargsDataProto settings dpSize call = .ok split := by
  obtain ⟨dispatched, hdispatched, -⟩ := bind_eq_ok.1 h
  obtain ⟨split, hsplit, hsent⟩ := bind_eq_ok.1 hdispatched
  exact ⟨args_of_dispatch hsplit hsent, split, hsplit⟩

end RoundTrip

/-- **Dispatch, work and collect are the work on the whole batch**, for every mesh and every
function of single rows, exactly when there is a positional argument and no empty tensor
batch is lost by `TensorDict.chunk`. -/
theorem roundTrip_iff [DecidableEq μ'] (settings : Settings μ) (completion : Completion) (dpRankMapping : List ℕ)
    (collectMask : List Bool) (dpSize worldSize n : ℕ) (f : RowFn τ ν μ τ' ν' μ') (call : Call (DataProto τ ν μ))
    (hpos : 0 < dpSize) (hlen : dpRankMapping.length = worldSize) (hrank : ∀ r ∈ dpRankMapping, r < dpSize)
    (hmask : collectMask.length = worldSize)
    (hselected : (selectedRanks collectMask worldSize).map (rankOf dpRankMapping) = List.range dpSize)
    (h : ∀ arg ∈ call.values, arg.HasRows n) (hdvd : dpSize ∣ n) :
    ndCall settings completion dpRankMapping collectMask dpSize worldSize f.apply call = .ok (f.apply call) ↔
      call.args ≠ [] ∧ (0 < n ∨ KeepsEmpty settings dpSize call) := by
  obtain ⟨size, rfl⟩ := hdvd
  constructor
  · intro hok
    obtain ⟨hargs, split, hsplit⟩ := args_of_ndCall hok
    refine ⟨hargs, ?_⟩
    rcases Nat.eq_zero_or_pos (dpSize * size) with hzero | hn
    · rw [hzero] at h
      exact .inr (keepsEmpty_of_split hpos h hsplit)
    · exact .inl hn
  · rintro ⟨hargs, hn⟩
    exact ndCall_eq f hargs hpos hlen hrank hmask hselected h (hn.imp_left Nat.pos_of_mul_pos_left)

def ceilSplit (n chunks : ℕ) : List ℕ :=
  let size := (n + chunks - 1) / chunks
  if n = 0 then [0] else List.replicate (n / size) size ++ if n % size = 0 then [] else [n % size]

/-- `TensorDict.chunk` by a split with upper rounding: an empty batch is one piece. -/
def upperRounding : TensorDictChunk where
  sizes := ceilSplit
  sum := by
    intro n chunks _
    unfold ceilSplit
    simp only
    split
    · rename_i hn
      rw [hn]
      rfl
    · have hdiv := Nat.div_add_mod' n ((n + chunks - 1) / chunks)
      rw [List.sum_append, List.sum_replicate_nat]
      split
      · rw [List.sum_nil]
        omega
      · rw [List.sum_singleton]
        exact hdiv
  length_le := by
    intro n chunks hpos
    unfold ceilSplit
    simp only
    split
    · exact hpos
    · rename_i hn
      have hceil := Nat.div_add_mod' (n + chunks - 1) chunks
      have hlt := Nat.mod_lt (n + chunks - 1) hpos
      have hle : n ≤ chunks * ((n + chunks - 1) / chunks) := by
        rw [Nat.mul_comm]
        omega
      have hsize : 0 < (n + chunks - 1) / chunks := Nat.div_pos (by omega) hpos
      have hdiv := Nat.div_add_mod' n ((n + chunks - 1) / chunks)
      rw [List.length_append, List.length_replicate]
      split
      · rw [List.length_nil, Nat.add_zero]
        exact Nat.le_of_mul_le_mul_right (by omega) hsize
      · exact Nat.lt_of_mul_lt_mul_right (a := (n + chunks - 1) / chunks) (by omega)
  equal := by
    intro chunks size hchunks hsize
    have hceil : (chunks * size + chunks - 1) / chunks = size := by
      refine Nat.div_eq_of_lt_le ?_ ?_
      · rw [Nat.mul_comm]
        omega
      · rw [Nat.succ_mul, Nat.mul_comm]
        omega
    unfold ceilSplit
    simp only [hceil]
    rw [if_neg (Nat.mul_ne_zero (by omega) (by omega)), Nat.mul_div_cancel _ hsize, Nat.mul_mod_left, if_pos rfl,
      List.append_nil]

def defaultSettings : Settings Bool := ⟨upperRounding, id, false⟩

def inOrder : Completion := ⟨List.range, fun _ => .refl _⟩

/-- The worker that adds the tensors of all arguments, row by row. -/
def addRows : RowFn ℤ ℤ Bool ℤ ℤ Bool where
  batch := some fun rows => (rows.values.filterMap Prod.fst).sum
  nonTensorBatch := .empty
  metaInfo := fun _ => .empty

def fourRows : DataProto ℤ ℤ Bool := ⟨some [1, 2, 3, 4], .empty, .empty⟩

theorem fourRows_hasRows : fourRows.HasRows 4 where
  batch := by
    intro rows hrows
    cases hrows
    rfl
  nonTensorBatch := by
    intro item hitem
    cases hitem

/-- Four ranks, of which two have the same chunk each; the first of them is collected. -/
theorem roundTrip_fourRows :
    ndCall defaultSettings inOrder [0, 0, 1, 1] [true, false, true, false] 2 4 addRows.apply
        ⟨[fourRows], [("other", fourRows)]⟩ = .ok (addRows.apply ⟨[fourRows], [("other", fourRows)]⟩) ↔
      (Call.mk [fourRows] [("other", fourRows)]).args ≠ [] ∧
        (0 < 4 ∨ KeepsEmpty defaultSettings 2 ⟨[fourRows], [("other", fourRows)]⟩) :=
  roundTrip_iff defaultSettings inOrder [0, 0, 1, 1] [true, false, true, false] 2 4 4 addRows
    ⟨[fourRows], [("other", fourRows)]⟩ (by decide) rfl (by decide) rfl (by decide)
    (fun arg harg => by
      rw [show arg = fourRows by simpa [Call.values] using harg]
      exact fourRows_hasRows)
    (by decide)

/-- **A call with keyword arguments only** fails: the first positional argument is read. -/
theorem keyword_only :
    ¬ ∀ (dpRankMapping : List ℕ) (collectMask : List Bool) (dpSize worldSize n : ℕ)
        (f : RowFn ℤ ℤ Bool ℤ ℤ Bool) (call : Call (DataProto ℤ ℤ Bool)), 0 < dpSize →
        dpRankMapping.length = worldSize → (∀ r ∈ dpRankMapping, r < dpSize) → collectMask.length = worldSize →
        (selectedRanks collectMask worldSize).map (rankOf dpRankMapping) = List.range dpSize →
        (∀ arg ∈ call.values, arg.HasRows n) → dpSize ∣ n →
      ndCall defaultSettings inOrder dpRankMapping collectMask dpSize worldSize f.apply call = .ok (f.apply call) := by
  intro hall
  have hrows : ∀ arg ∈ (Call.mk [] [("data", fourRows)]).values, arg.HasRows 4 := by
    intro arg harg
    rw [show arg = fourRows by simpa [Call.values] using harg]
    exact fourRows_hasRows
  have hcall := hall [0] [true] 1 1 4 addRows ⟨[], [("data", fourRows)]⟩ (by decide) rfl (by decide) rfl (by decide)
    hrows (by decide)
  exact (args_of_ndCall hcall).1 rfl

end Opd.Verl.Dispatch

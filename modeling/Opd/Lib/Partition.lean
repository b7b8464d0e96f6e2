import Opd.Lib.Blocks
import Opd.Lib.Tensor

/-!
# Lists of indices that partition a range

Rows are selected list by list, and put back by the inverse of the concatenated lists.

* `IsPartition.disjoint`, `IsPartition.mem_iff`: the lists are disjoint and cover the range.
* `IsPartition.expand`: a partition of groups is one of their members.
* `reverseIdx_at`: the inverse of a list of indices.
* `gather_reverseIdx`: selecting and putting back.
-/

namespace Opd.Lib

variable {α β : Type}

/-- Lists of indices, none of them empty, that are the numbers below `n` together. -/
structure IsPartition (n : ℕ) (lists : List (List ℕ)) : Prop where
  nonempty : ∀ l ∈ lists, l ≠ []
  perm : lists.flatten.Perm (List.range n)

def members (size : ℕ) (groups : List ℕ) : List ℕ := groups.flatMap fun j => List.range' (j * size) size

theorem members_one (groups : List ℕ) : members 1 groups = groups := by
  unfold members
  simp

namespace IsPartition

variable {n : ℕ} {lists lists' : List (List ℕ)}

theorem of_perm (h : IsPartition n lists) (hperm : lists'.Perm lists) : IsPartition n lists' where
  nonempty := fun l hl => h.nonempty l (hperm.mem_iff.1 hl)
  perm := hperm.flatten.trans h.perm

theorem disjoint (h : IsPartition n lists) : lists.Pairwise List.Disjoint := by
  have hnodup : lists.flatten.Nodup := h.perm.nodup_iff.2 List.nodup_range
  exact (List.nodup_flatten.1 hnodup).2

theorem mem_iff (h : IsPartition n lists) {i : ℕ} : i ∈ lists.flatten ↔ i < n :=
  h.perm.mem_iff.trans List.mem_range

theorem ne_nil (h : IsPartition n lists) (hpos : 0 < n) : lists ≠ [] := by
  rintro rfl
  have hlen := h.perm.length_eq
  rw [List.length_range, List.flatten_nil, List.length_nil] at hlen
  omega

/-- **A partition of groups** is one of their members. -/
theorem expand {size : ℕ} (hpos : 0 < size) (h : IsPartition n lists) :
    IsPartition (n * size) (lists.map (members size)) where
  nonempty := by
    intro l hl
    obtain ⟨groups, hgroups, rfl⟩ := List.mem_map.1 hl
    obtain ⟨j, rest, rfl⟩ := List.exists_cons_of_ne_nil (h.nonempty groups hgroups)
    intro hnil
    have hfirst := List.flatMap_eq_nil_iff.1 hnil j List.mem_cons_self
    rw [List.range'_eq_nil_iff] at hfirst
    omega
  perm := by
    have hflat : (lists.map (members size)).flatten = members size lists.flatten := by
      unfold members
      rw [List.flatMap_def, List.map_flatten, List.flatten_flatten, List.map_map]
      rfl
    have hrange : members size (List.range n) = List.range (n * size) := by
      have hblocks := flatMap_range_blocks n size id
      rw [List.map_id] at hblocks
      unfold members
      rw [← hblocks]
      simp only [List.range'_eq_map_range, id]
    rw [hflat, ← hrange]
    exact h.perm.flatMap_right _

end IsPartition

/-! ## Selecting rows -/

/-- `l[idx]`, for a list of indices. -/
def gather (l : List α) (idx : List ℕ) : Option (List α) := idx.mapM fun i => l[i]?

variable {idx : List ℕ}

theorem gather_eq_some {l out : List α} : gather l idx = some out ↔ out.map some = idx.map fun i => l[i]? := by
  unfold gather
  induction idx generalizing out with
  | nil =>
    rw [List.mapM_nil, List.map_nil, List.map_eq_nil_iff]
    constructor
    · intro h
      cases h
      rfl
    · rintro rfl
      rfl
  | cons i idx ih =>
    rw [List.mapM_cons, List.map_cons]
    constructor
    · intro h
      obtain ⟨a, ha, h⟩ := Option.bind_eq_some_iff.1 h
      obtain ⟨rest, hrest, h⟩ := Option.bind_eq_some_iff.1 h
      cases h
      rw [List.map_cons, ha, ih.1 hrest]
    · intro h
      cases out with
      | nil => cases h
      | cons a out =>
        rw [List.map_cons, List.cons_eq_cons] at h
        rw [← h.1, ih.2 h.2]
        rfl

theorem gather_of_lt {l : List α} (h : ∀ i ∈ idx, i < l.length) : ∃ out, gather l idx = some out := by
  refine ⟨idx.filterMap fun i => l[i]?, gather_eq_some.2 ?_⟩
  induction idx with
  | nil => rfl
  | cons i idx ih =>
    have hi := List.getElem?_eq_getElem (h i List.mem_cons_self)
    rw [List.filterMap_cons, hi, List.map_cons, List.map_cons, hi, ih fun i hi => h i (List.mem_cons_of_mem _ hi)]

theorem gather_map {l out : List α} (f : α → β) (h : gather l idx = some out) :
    gather (l.map f) idx = some (out.map f) := by
  have hsel := congrArg (List.map (Option.map f)) (gather_eq_some.1 h)
  rw [gather_eq_some]
  simp only [List.map_map, Function.comp_def, Option.map_some, List.getElem?_map] at hsel ⊢
  exact hsel

theorem gather_flatten {l : List α} {lists : List (List ℕ)} {outs : List (List α)}
    (h : List.Forall₂ (fun idx out => gather l idx = some out) lists outs) :
    gather l lists.flatten = some outs.flatten := by
  rw [gather_eq_some]
  induction h with
  | nil => rfl
  | cons hfirst _ ih =>
    rw [List.flatten_cons, List.flatten_cons, List.map_append, List.map_append, gather_eq_some.1 hfirst, ih]

/-- The inverse of a list of indices: `reverse[idx[i]] = i`, one after the other. -/
def reverseIdx (idx : List ℕ) : List ℕ := indexPut idx idx (List.range idx.length)

theorem length_reverseIdx (idx : List ℕ) : (reverseIdx idx).length = idx.length := length_indexPut ..

/-- **The inverse of a list of indices** that does not repeat. -/
theorem reverseIdx_at {i v : ℕ} (hnodup : idx.Nodup) (hv : v < idx.length) (h : idx[i]? = some v) :
    (reverseIdx idx)[v]? = some i := by
  obtain ⟨hi, hget⟩ := List.getElem?_eq_some_iff.1 h
  have hsplit : idx = idx.take i ++ v :: idx.drop (i + 1) := by
    rw [← hget, List.cons_getElem_drop_succ, List.take_append_drop]
  have hrange : List.range idx.length = List.range i ++ i :: (List.range' (i + 1) (idx.length - (i + 1))) := by
    have hcons : List.range' i (idx.length - i) = i :: List.range' (i + 1) (idx.length - (i + 1)) := by
      have hsub : idx.length - i = idx.length - (i + 1) + 1 := by omega
      rw [hsub, List.range'_succ]
    have happend := @List.range'_append_1 0 i (idx.length - i)
    rw [Nat.zero_add, Nat.add_sub_cancel' (Nat.le_of_lt hi)] at happend
    rw [← hcons, List.range_eq_range', List.range_eq_range', happend]
  unfold reverseIdx
  have hput := @indexPut_at ℕ idx (List.range i) (idx.take i) (idx.drop (i + 1)) v i
    (List.range' (i + 1) (idx.length - (i + 1)))
    (by rw [List.length_take, List.length_range]; omega) (by rw [List.length_drop, List.length_range'])
    (by rw [← hsplit]; exact hnodup) hv
  rwa [← hsplit, ← hrange] at hput

/-- **Selecting and putting back**: what was selected by a permutation of the indices is put
back by its inverse. -/
theorem gather_reverseIdx {l selected : List α} (hperm : idx.Perm (List.range l.length))
    (h : gather l idx = some selected) : gather selected (reverseIdx idx) = some l := by
  have hlen : idx.length = l.length := by
    rw [hperm.length_eq, List.length_range]
  have hnodup : idx.Nodup := hperm.nodup_iff.2 List.nodup_range
  have hsel := gather_eq_some.1 h
  refine gather_eq_some.2 (List.ext_getElem? ?_)
  intro v
  rw [List.getElem?_map, List.getElem?_map]
  by_cases hv : v < l.length
  · obtain ⟨i, hi⟩ := List.getElem?_of_mem (hperm.mem_iff.2 (List.mem_range.2 hv))
    rw [reverseIdx_at hnodup (by omega) hi, Option.map_some]
    have hat := congrArg (fun m => m[i]?) hsel
    simp only [List.getElem?_map, hi, Option.map_some] at hat
    rw [List.getElem?_eq_getElem hv] at hat ⊢
    obtain ⟨a, ha, heq⟩ := Option.map_eq_some_iff.1 hat
    rw [ha, heq, Option.map_some]
  · rw [List.getElem?_eq_none (by omega), List.getElem?_eq_none (by rw [length_reverseIdx]; omega)]
    rfl

end Opd.Lib

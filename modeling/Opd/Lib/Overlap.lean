import Mathlib.Algebra.BigOperators.Group.Multiset.Basic
import Mathlib.Algebra.Order.BigOperators.Group.Finset
import Mathlib.Algebra.Order.Field.Basic
import Mathlib.Data.List.Dedup
import Mathlib.Data.List.Lattice
import Mathlib.Data.List.Perm.Subperm

/-!
# The overlap of lists

How many entries two lists have in common, counted with their repetitions, and the share that these are of all entries.

* `overlap_perm`: the overlap does not depend on the order of the lists.
* `two_mul_overlap_iff`: the lists that have all entries in common.
* `similarity_le_one`, `similarity_eq_one_iff`: the share of the common entries.
-/

namespace Opd.Lib

variable {α : Type*} [DecidableEq α]

/-- The number of the common entries, by the entries that both lists have. -/
def overlap (l l' : List α) : ℕ := ((l.dedup.filter (· ∈ l')).map fun a => min (l.count a) (l'.count a)).sum

theorem overlap_eq_length (l l' : List α) : overlap l l' = (l.bagInter l').length := by
  have hcounts : (l.dedup.filter (· ∈ l')).Perm (l.bagInter l').dedup := by
    refine (List.perm_ext_iff_of_nodup ((List.nodup_dedup l).filter _) (List.nodup_dedup _)).2 fun a => ?_
    rw [List.mem_filter, List.mem_dedup, List.mem_dedup, List.mem_bagInter, decide_eq_true_eq]
  unfold overlap
  rw [(hcounts.map _).sum_eq, ← List.sum_map_count_dedup_eq_length]
  congr 1
  refine List.map_congr_left fun a _ => ?_
  rw [List.count_bagInter]

/-- **The overlap does not depend on the order.** -/
theorem overlap_perm {l l' m m' : List α} (h : l.Perm m) (h' : l'.Perm m') : overlap l l' = overlap m m' := by
  rw [overlap_eq_length, overlap_eq_length]
  refine List.Perm.length_eq (List.perm_iff_count.2 fun a => ?_)
  rw [List.count_bagInter, List.count_bagInter, h.count_eq, h'.count_eq]

theorem overlap_comm (l l' : List α) : overlap l l' = overlap l' l := by
  rw [overlap_eq_length, overlap_eq_length]
  refine List.Perm.length_eq (List.perm_iff_count.2 fun a => ?_)
  rw [List.count_bagInter, List.count_bagInter, Nat.min_comm]

theorem overlap_le_left (l l' : List α) : overlap l l' ≤ l.length := by
  rw [overlap_eq_length]
  exact List.bagInter_sublist_left.length_le

theorem overlap_le_right (l l' : List α) : overlap l l' ≤ l'.length := by
  rw [overlap_comm]
  exact overlap_le_left l' l

/-- **All entries are common** if the lists are permutations of each other. -/
theorem two_mul_overlap_iff {l l' : List α} : 2 * overlap l l' = l.length + l'.length ↔ l.Perm l' := by
  constructor
  · intro h
    have hl := overlap_le_left l l'
    have hl' := overlap_le_right l l'
    have hself : l.bagInter l' = l := by
      refine List.bagInter_sublist_left.eq_of_length ?_
      rw [← overlap_eq_length]
      omega
    refine List.Subperm.perm_of_length_le (List.subperm_ext_iff.2 fun a _ => ?_) (by omega)
    have hcount : (l.bagInter l').count a = min (l.count a) (l'.count a) := List.count_bagInter
    rw [hself] at hcount
    exact hcount.le.trans (Nat.min_le_right _ _)
  · intro h
    rw [overlap_perm h (List.Perm.refl l'), h.length_eq, overlap_eq_length]
    have hself : (l'.bagInter l').length = l'.length := by
      refine List.Perm.length_eq (List.perm_iff_count.2 fun a => ?_)
      rw [List.count_bagInter, Nat.min_self]
    omega

/-! ## The share of the common entries -/

section Similarity

/-- The share of the common entries: lists without entries have all of them in common. -/
def similarity (K : Type*) [Field K] (l l' : List α) : K :=
  if l.length + l'.length = 0 then 1 else (overlap l l' : K) / (l.length + l'.length - overlap l l' : ℕ)

theorem similarity_perm {K : Type*} [Field K] {l l' m m' : List α} (h : l.Perm m) (h' : l'.Perm m') :
    similarity K l l' = similarity K m m' := by
  unfold similarity
  rw [h.length_eq, h'.length_eq, overlap_perm h h']

variable {K : Type*} [Field K] [LinearOrder K] [IsStrictOrderedRing K]

theorem similarity_nonneg (l l' : List α) : 0 ≤ similarity K l l' := by
  unfold similarity
  split
  · exact zero_le_one
  · exact div_nonneg (Nat.cast_nonneg _) (Nat.cast_nonneg _)

theorem overlap_le_union (l l' : List α) : overlap l l' ≤ l.length + l'.length - overlap l l' := by
  have := overlap_le_left l l'
  have := overlap_le_right l l'
  omega

theorem union_pos {l l' : List α} (h : l.length + l'.length ≠ 0) : 0 < l.length + l'.length - overlap l l' := by
  have := overlap_le_left l l'
  have := overlap_le_right l l'
  omega

theorem similarity_le_one (l l' : List α) : similarity K l l' ≤ 1 := by
  unfold similarity
  split
  · exact le_rfl
  · rename_i hne
    rw [div_le_one (Nat.cast_pos.2 (union_pos hne))]
    exact Nat.cast_le.2 (overlap_le_union l l')

/-- **The share is everything** just for lists that are permutations of each other. -/
theorem similarity_eq_one_iff {l l' : List α} : similarity K l l' = 1 ↔ l.Perm l' := by
  rw [← two_mul_overlap_iff]
  have := overlap_le_left l l'
  have := overlap_le_right l l'
  unfold similarity
  split
  · exact iff_of_true rfl (by omega)
  · rename_i hne
    rw [div_eq_one_iff_eq (Nat.cast_ne_zero.2 (union_pos hne).ne'), Nat.cast_inj]
    omega

end Similarity

end Opd.Lib

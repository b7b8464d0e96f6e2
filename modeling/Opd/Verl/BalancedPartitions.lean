import Opd.Verl.SeqlenBalancing

/-!
# Partitions of equal sizes

With `equal_size` a state starts with one item in each of its sets, so that all its sets have the
same number of items. Merging keeps this.

* `Even.merge`: the sizes of the sets of a merge.
* `finalState_spec`: the state that is left, and what it has from the first ones.
* `karmarkarKarp_blocks`, `karmarkarKarp_even`: the last state, and the sizes of the partitions.
-/

namespace Opd.Verl.SeqlenBalancing

open Lib

section Even

variable {k m : ℕ}

/-- All sets have as many items. -/
def State.Even (m : ℕ) (s : State k) : Prop := ∀ set ∈ s.sets, set.items.length = m

theorem State.forall_ofSets {P : ItemSet → Prop} {sets : List ItemSet} (h : sets.length = k) (hall : ∀ set ∈ sets, P set) :
    ∀ set ∈ (State.ofSets sets h).sets, P set := by
  intro set hset
  exact hall set ((sortDesc_perm ItemSet.key sets).mem_iff.1 hset)

/-- **The sizes of a merge** are those of both states together. -/
theorem State.Even.merge {s other : State k} {n : ℕ} (hs : s.Even m) (hother : other.Even n) :
    (s.merge other).Even (m + n) := by
  refine State.forall_ofSets _ ?_
  intro set hset
  obtain ⟨i, hi, rfl⟩ := List.mem_iff_getElem.1 hset
  rw [List.getElem_zipWith]
  have hfirst := hs _ (List.getElem_mem (by rw [List.length_zipWith] at hi; omega : i < s.sets.length))
  have hsecond := hother _ (List.mem_reverse.1
    (List.getElem_mem (by rw [List.length_zipWith] at hi; omega : i < other.sets.reverse.length)))
  rw [ItemSet.merge, List.length_append, hfirst, hsecond]

theorem State.Even.length_items {s : State k} (h : s.Even m) : s.items.length = k * m := by
  rw [State.items, List.length_flatMap, List.map_congr_left h, List.map_const', List.sum_replicate_nat, s.length_eq]

theorem State.Even.length_partition {s : State k} (h : s.Even m) :
    ∀ partition ∈ s.getPartitions, partition.length = m := by
  intro partition hmem
  obtain ⟨set, hset, rfl⟩ := List.mem_map.1 hmem
  rw [List.length_map, h set hset]

theorem new_block {items : List (ℕ × ℕ)} (hlen : items.length = k) :
    ∃ s : State k, State.new k items = .ok s ∧ s.Even 1 ∧ s.items.Perm items := by
  have hsets : items.map (fun item => ItemSet.empty.add item.1 item.2) ++
      List.replicate (k - items.length) ItemSet.empty = items.map fun item => ItemSet.empty.add item.1 item.2 := by
    rw [hlen, Nat.sub_self, List.replicate_zero, List.append_nil]
  have hk : (items.map (fun item => ItemSet.empty.add item.1 item.2) ++
      List.replicate (k - items.length) ItemSet.empty).length = k := by
    rw [hsets, List.length_map, hlen]
  refine ⟨State.ofSets _ hk, ?_, ?_, ?_⟩
  · unfold State.new
    rw [if_pos (.inr hlen), dif_pos (Nat.le_of_eq hlen)]
  · refine State.forall_ofSets hk ?_
    rw [hsets]
    intro set hset
    obtain ⟨item, -, rfl⟩ := List.mem_map.1 hset
    rfl
  · refine (State.items_ofSets _ hk).trans ?_
    rw [hsets, List.flatMap_map]
    simp [ItemSet.empty, ItemSet.add]

end Even

/-! ## The partitions -/

section Partitions

variable {seqlenList : List ℕ} {k : ℕ}

/-- **The last state**, if the sizes have to be equal: what the blocks of items start with and merging keeps. -/
theorem karmarkarKarp_blocks {P : State k → Prop} (hpos : 1 ≤ k) (hle : k ≤ seqlenList.length)
    (hdvd : k ∣ seqlenList.length) (hmerge : ∀ s other, P s → P other → P (s.merge other))
    (hstart : ∀ items s, items ⊆ sortedSeqlenList seqlenList → items.length = k → State.new k items = .ok s → P s) :
    ∃ finalState : State k, karmarkarKarp seqlenList k true = .ok finalState.getPartitions ∧ P finalState ∧
      finalState.items.Perm (sortedSeqlenList seqlenList) ∧ finalState.Even (seqlenList.length / k) := by
  obtain ⟨size, hsize⟩ := hdvd
  have hsizePos : 0 < size := Nat.pos_of_ne_zero fun hzero => by rw [hsize, hzero] at hle; omega
  have hdiv : seqlenList.length / k = size := by rw [hsize, Nat.mul_div_cancel_left _ hpos]
  have hlen := (sortedSeqlenList_perm seqlenList).length_eq
  rw [List.length_map, List.length_range, hsize, Nat.mul_comm] at hlen
  -- each state starts with the next items
  have hblock : ∀ i ∈ List.range size, (block (i * k) k (sortedSeqlenList seqlenList)).length = k := by
    intro i hi
    have hnext := Nat.mul_le_mul_right k (Nat.succ_le_of_lt (List.mem_range.1 hi))
    rw [Nat.succ_mul] at hnext
    exact length_block (by rw [hlen]; exact hnext)
  have hnew : ∀ i, ∃ s : State k, i ∈ List.range size →
      State.new k (block (i * k) k (sortedSeqlenList seqlenList)) = .ok s ∧ s.Even 1 ∧
        s.items.Perm (block (i * k) k (sortedSeqlenList seqlenList)) := by
    intro i
    by_cases hi : i ∈ List.range size
    · obtain ⟨s, hs⟩ := new_block (hblock i hi)
      exact ⟨s, fun _ => hs⟩
    · exact ⟨State.ofSets (List.replicate k .empty) List.length_replicate, fun hmem => absurd hmem hi⟩
  choose start hblocks using hnew
  have hinit : initialStates seqlenList k true = .ok ((List.range size).map start) := by
    have hmod : seqlenList.length % k = 0 := by rw [hsize, Nat.mul_mod_right]
    unfold initialStates
    simp only [if_true]
    rw [if_neg (by omega), if_pos hmod, hlen, Nat.mul_div_cancel _ hpos]
    exact mapM_eq_map fun i hi => (hblocks i hi).1
  have hne : (List.range size).map start ≠ [] := by
    rw [ne_eq, List.map_eq_nil_iff, List.range_eq_nil]
    omega
  obtain ⟨finalState, hfinal, ⟨hP, m, heven⟩, hitems⟩ := @finalState_spec k (fun s => P s ∧ ∃ m, s.Even m)
    (fun s other ⟨hs, m, hm⟩ ⟨hother, n, hn⟩ => ⟨hmerge s other hs hother, m + n, hm.merge hn⟩) _ hne fun s hs => by
      obtain ⟨i, hi, rfl⟩ := List.mem_map.1 hs
      obtain ⟨hnew, heven, -⟩ := hblocks i hi
      exact ⟨hstart _ _ (fun item hitem => List.mem_of_mem_drop (List.mem_of_mem_take hitem)) (hblock i hi) hnew, 1, heven⟩
  have hperm : finalState.items.Perm (sortedSeqlenList seqlenList) := by
    rw [List.flatMap_map] at hitems
    refine hitems.trans ((List.Perm.flatMap_left _ fun i hi => (hblocks i hi).2.2).trans ?_)
    rw [flatMap_block hlen]
  obtain rfl : m = size := by
    have hcount := hperm.length_eq
    rw [heven.length_items, hlen, Nat.mul_comm] at hcount
    exact Nat.eq_of_mul_eq_mul_right hpos hcount
  refine ⟨finalState, ?_, hP, hperm, hdiv.symm ▸ heven⟩
  have hnone : (finalState.getPartitions.find? fun partition => true && partition.length * k ≠ seqlenList.length) = none := by
    refine List.find?_eq_none.2 fun partition hmem => ?_
    rw [heven.length_partition partition hmem, hsize, Nat.mul_comm]
    simp
  unfold karmarkarKarp
  rw [hinit]
  simp only [bind, Except.bind, hfinal]
  rw [hnone]

/-- **The sizes of the partitions**, if they have to be equal. -/
theorem karmarkarKarp_even (hpos : 1 ≤ k) (hle : k ≤ seqlenList.length) (hdvd : k ∣ seqlenList.length) :
    ∃ partitions, karmarkarKarp seqlenList k true = .ok partitions ∧ partitions.length = k ∧
      IsPartition seqlenList.length partitions ∧
      ∀ partition ∈ partitions, partition.length = seqlenList.length / k := by
  obtain ⟨finalState, hkk, -, hperm, heven⟩ := @karmarkarKarp_blocks seqlenList k (fun _ => True) hpos hle hdvd
    (fun _ _ _ _ => trivial) fun _ _ _ _ _ => trivial
  refine ⟨finalState.getPartitions, hkk, ?_, ⟨?_, ?_⟩, heven.length_partition⟩
  · rw [State.getPartitions, List.length_map, finalState.length_eq]
  · intro partition hmem hnil
    have hlength := heven.length_partition partition hmem
    have hsize := Nat.div_pos hle hpos
    rw [hnil, List.length_nil] at hlength
    omega
  · rw [State.getPartitions_flatten]
    exact (hperm.map Prod.fst).trans (sortedSeqlenList_perm seqlenList)

/-- **Balanced partitions.** For `1 ≤ k ≤ n`, with `k` a divisor of `n` if the sizes have to be equal, no assertion
is raised. The `k` lists are not empty, increasing and disjoint, they have all indices together, and their
sizes are equal if they have to be. -/
theorem balancedPartitions_spec (seqlenList : List ℕ) (k : ℕ) (equalSize : Bool) (hpos : 1 ≤ k)
    (hle : k ≤ seqlenList.length) (hdvd : equalSize = true → k ∣ seqlenList.length) :
    ∃ partitions, getSeqlenBalancedPartitions seqlenList k equalSize = .ok partitions ∧ partitions.length = k ∧
      (∀ l ∈ partitions, l ≠ []) ∧ (∀ l ∈ partitions, l.Pairwise (· < ·)) ∧ partitions.Pairwise List.Disjoint ∧
      (∀ i, i ∈ partitions.flatten ↔ i < seqlenList.length) ∧
      (equalSize = true → ∀ l ∈ partitions, l.length = seqlenList.length / k) := by
  obtain ⟨partitions, hkk, rfl, hpartition, hsizes⟩ : ∃ partitions, karmarkarKarp seqlenList k equalSize = .ok partitions ∧
      partitions.length = k ∧ IsPartition seqlenList.length partitions ∧
      (equalSize = true → ∀ l ∈ partitions, l.length = seqlenList.length / k) := by
    cases equalSize with
    | false =>
      obtain ⟨partitions, hkk, hk, hpartition⟩ := karmarkarKarp_eq hpos hle
      exact ⟨partitions, hkk, hk, hpartition, fun h => absurd h Bool.false_ne_true⟩
    | true =>
      obtain ⟨partitions, hkk, hk, hpartition, hsizes⟩ := karmarkarKarp_even hpos hle (hdvd rfl)
      exact ⟨partitions, hkk, hk, hpartition, fun _ => hsizes⟩
  obtain ⟨hsorted, hincreasing⟩ := sorted_partition hpartition
  refine ⟨_, ?_, by rw [List.length_map], hsorted.nonempty, hincreasing, hsorted.disjoint, fun i => hsorted.mem_iff, ?_⟩
  · unfold getSeqlenBalancedPartitions
    rw [if_neg (by omega), hkk]
    exact check_eq hpartition
  · intro hequal l hl
    obtain ⟨partition, hmem, rfl⟩ := List.mem_map.1 hl
    rw [(List.perm_insertionSort _ partition).length_eq]
    exact hsizes hequal partition hmem

theorem balancedPartitions_sixItems :
    ∃ partitions, getSeqlenBalancedPartitions [0, 0, 5, 0, 5, 1] 3 true = .ok partitions ∧ partitions.length = 3 ∧
      (∀ l ∈ partitions, l ≠ []) ∧ (∀ l ∈ partitions, l.Pairwise (· < ·)) ∧ partitions.Pairwise List.Disjoint ∧
      (∀ i, i ∈ partitions.flatten ↔ i < 6) ∧ (true = true → ∀ l ∈ partitions, l.length = 2) :=
  balancedPartitions_spec [0, 0, 5, 0, 5, 1] 3 true (by decide) (by decide) fun _ => by decide

end Partitions

end Opd.Verl.SeqlenBalancing

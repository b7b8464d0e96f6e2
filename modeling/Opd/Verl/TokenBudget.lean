import Opd.Verl.BalancedPartitions
import Opd.Verl.DynamicBatch

/-!
# The token budget of a micro-batch

The number of micro-batches is the number of tokens divided by the budget, rounded up, and the rows
are spread over them by their workload.

* `State.Within.merge`: the differencing keeps the sums of the sets within the largest item.
* `balancedPartitions_spread`: so do those of all partitions, also of equal sizes.
* `spread_bound`: the workloads of two micro-batches differ by at most that of the longest row.
* `pigeonhole`: rows of which no two fit in the budget, and one more than there are micro-batches.
* `tokenBudget_iff`: for which numbers of rows and micro-batches each batch is in the budget.
-/

namespace Opd.Verl.SeqlenBalancing

open Lib

/-! ## The sums of the sets -/

section Spread

variable {k w : ℕ}

theorem ItemSet.sum_le_of_key {a b : ItemSet} (h : b.key ≤ a.key) : b.sum ≤ a.sum := by
  rcases Prod.Lex.toLex_le_toLex.1 h with hlt | ⟨heq, -⟩
  · exact Nat.le_of_lt hlt
  · exact Nat.le_of_eq heq

theorem State.sum_le (s : State k) {i j : ℕ} {a b : ItemSet} (hij : i ≤ j) (ha : s.sets[i]? = some a)
    (hb : s.sets[j]? = some b) : b.sum ≤ a.sum := by
  obtain ⟨hi, rfl⟩ := List.getElem?_eq_some_iff.1 ha
  obtain ⟨hj, rfl⟩ := List.getElem?_eq_some_iff.1 hb
  rcases Nat.eq_or_lt_of_le hij with rfl | hlt
  · exact Nat.le_refl _
  · exact ItemSet.sum_le_of_key (List.pairwise_iff_getElem.1 s.decreasing i j hi hj hlt)

/-- The sums of the sets are within `w`. -/
def State.Within (w : ℕ) (s : State k) : Prop := ∀ a ∈ s.sets, ∀ b ∈ s.sets, a.sum ≤ b.sum + w

/-- **Differencing** keeps the sums within `w`: where one state has a larger set, the other has a smaller one. -/
theorem State.Within.merge {s other : State k} (hs : s.Within w) (hother : other.Within w) :
    (s.merge other).Within w := by
  have hpair : ∀ set ∈ (s.merge other).sets, ∃ i a b, s.sets[i]? = some a ∧ other.sets[k - 1 - i]? = some b ∧
      i < k ∧ set.sum = a.sum + b.sum := by
    refine State.forall_ofSets _ ?_
    intro set hset
    obtain ⟨i, hi⟩ := List.getElem?_of_mem hset
    obtain ⟨a, b, ha, hb, rfl⟩ := List.getElem?_zipWith_eq_some.1 hi
    obtain ⟨hlt, -⟩ := List.getElem?_eq_some_iff.1 hb
    rw [List.length_reverse] at hlt
    rw [List.getElem?_reverse hlt, other.length_eq] at hb
    exact ⟨i, a, b, ha, hb, other.length_eq ▸ hlt, rfl⟩
  intro set hset set' hset'
  obtain ⟨i, a, b, ha, hb, hi, hsum⟩ := hpair set hset
  obtain ⟨j, a', b', ha', hb', hj, hsum'⟩ := hpair set' hset'
  have hfirst := hs a (List.mem_of_getElem? ha) a' (List.mem_of_getElem? ha')
  have hsecond := hother b (List.mem_of_getElem? hb) b' (List.mem_of_getElem? hb')
  rcases Nat.le_total i j with hij | hij
  · have hrest := other.sum_le (show k - 1 - j ≤ k - 1 - i by omega) hb' hb
    omega
  · have hrest := s.sum_le hij ha' ha
    omega

theorem within_new {items : List (ℕ × ℕ)} {s : State k} (h : State.new k items = .ok s)
    (hw : ∀ item ∈ items, item.2 ≤ w) : s.Within w := by
  unfold State.new at h
  split at h
  · split at h
    · have hall : ∀ set ∈ s.sets, set.sum ≤ w := by
        rw [Except.ok.injEq] at h
        subst h
        refine State.forall_ofSets _ ?_
        intro set hset
        rcases List.mem_append.1 hset with hset | hset
        · obtain ⟨item, hitem, rfl⟩ := List.mem_map.1 hset
          have hvalue := hw item hitem
          show 0 + item.2 ≤ w
          omega
        · rw [List.eq_of_mem_replicate hset]
          exact Nat.zero_le _
      intro a ha b _
      have := hall a ha
      omega
    · cases h
  · cases h

end Spread

/-! ## The workloads of the micro-batches -/

section Loads

variable {seqlenList : List ℕ} {k w : ℕ}

def load (values : List ℕ) (l : List ℕ) : ℕ := (l.map fun i => values.getD i 0).sum

theorem load_perm (values : List ℕ) {l l' : List ℕ} (h : l.Perm l') : load values l = load values l' :=
  (h.map _).sum_eq

theorem value_of_mem {item : ℕ × ℕ} (h : item ∈ sortedSeqlenList seqlenList) : seqlenList[item.1]? = some item.2 := by
  unfold sortedSeqlenList at h
  obtain ⟨entry, hentry, rfl⟩ := List.mem_map.1 h
  rw [List.mem_insertionSort] at hentry
  obtain ⟨pair, hpair, rfl⟩ := List.mem_map.1 hentry
  exact List.mem_zipIdx_iff_getElem?.1 hpair

theorem load_items {items : List (ℕ × ℕ)} (h : ∀ item ∈ items, seqlenList[item.1]? = some item.2) :
    load seqlenList (items.map Prod.fst) = (items.map Prod.snd).sum := by
  unfold load
  rw [List.map_map]
  congr 1
  refine List.map_congr_left fun item hitem => ?_
  rw [Function.comp_apply, List.getD_eq_getElem?_getD, h item hitem]
  rfl

theorem State.Within.load_le {s : State k} (h : s.Within w) (hperm : s.items.Perm (sortedSeqlenList seqlenList)) :
    ∀ p ∈ s.getPartitions, ∀ q ∈ s.getPartitions, load seqlenList p ≤ load seqlenList q + w := by
  have hload : ∀ set ∈ s.sets, load seqlenList (set.items.map Prod.fst) = set.sum := by
    intro set hset
    rw [set.sum_eq]
    refine load_items fun item hitem => value_of_mem (hperm.mem_iff.1 ?_)
    exact List.mem_flatMap.2 ⟨set, hset, hitem⟩
  intro p hp q hq
  obtain ⟨a, ha, rfl⟩ := List.mem_map.1 hp
  obtain ⟨b, hb, rfl⟩ := List.mem_map.1 hq
  rw [hload a ha, hload b hb]
  exact h a ha b hb

/-- **Two partitions** differ by at most the largest value. -/
theorem karmarkarKarp_within {partitions : List (List ℕ)} (hpos : 1 ≤ k) (hne : seqlenList ≠ [])
    (hw : ∀ v ∈ seqlenList, v ≤ w) (h : karmarkarKarp seqlenList k false = .ok partitions) :
    ∀ p ∈ partitions, ∀ q ∈ partitions, load seqlenList p ≤ load seqlenList q + w := by
  obtain ⟨finalState, hkk, hwithin, hperm⟩ := @karmarkarKarp_state seqlenList k (State.Within w) hpos hne
    (fun _ _ => State.Within.merge) fun item hitem s hs => within_new hs fun item' hitem' => by
      rw [List.mem_singleton.1 hitem']
      exact hw _ (List.mem_of_getElem? (value_of_mem hitem))
  rw [hkk, Except.ok.injEq] at h
  subst h
  exact hwithin.load_le hperm

theorem load_le_sorted {partitions : List (List ℕ)}
    (h : ∀ p ∈ partitions, ∀ q ∈ partitions, load seqlenList p ≤ load seqlenList q + w) :
    ∀ p ∈ partitions.map fun partition => partition.insertionSort fun a b => a ≤ b,
      ∀ q ∈ partitions.map fun partition => partition.insertionSort fun a b => a ≤ b,
        load seqlenList p ≤ load seqlenList q + w := by
  intro p hp q hq
  obtain ⟨p', hp', rfl⟩ := List.mem_map.1 hp
  obtain ⟨q', hq', rfl⟩ := List.mem_map.1 hq
  rw [load_perm _ (List.perm_insertionSort _ p'), load_perm _ (List.perm_insertionSort _ q')]
  exact h p' hp' q' hq'

/-- **The workloads of balanced partitions** differ by at most the largest value, also where the sizes have to be
equal. -/
theorem balancedPartitions_spread (seqlenList : List ℕ) (k w : ℕ) (equalSize : Bool) (hpos : 1 ≤ k)
    (hle : k ≤ seqlenList.length) (hdvd : equalSize = true → k ∣ seqlenList.length) (hw : ∀ v ∈ seqlenList, v ≤ w) :
    ∃ partitions, getSeqlenBalancedPartitions seqlenList k equalSize = .ok partitions ∧ partitions.length = k ∧
      ∀ p ∈ partitions, ∀ q ∈ partitions, load seqlenList p ≤ load seqlenList q + w := by
  obtain ⟨partitions, hkk, rfl, hpartition, hload⟩ : ∃ partitions, karmarkarKarp seqlenList k equalSize = .ok partitions ∧
      partitions.length = k ∧ IsPartition seqlenList.length partitions ∧
      ∀ p ∈ partitions, ∀ q ∈ partitions, load seqlenList p ≤ load seqlenList q + w := by
    cases equalSize with
    | false =>
      obtain ⟨partitions, hkk, hk, hpartition⟩ := karmarkarKarp_eq hpos hle
      exact ⟨partitions, hkk, hk, hpartition, karmarkarKarp_within hpos (List.ne_nil_of_length_pos (by omega)) hw hkk⟩
    | true =>
      obtain ⟨partitions, hkk, hk, hpartition, -⟩ := karmarkarKarp_even hpos hle (hdvd rfl)
      obtain ⟨finalState, hfinal, hwithin, hperm, -⟩ := @karmarkarKarp_blocks seqlenList k (State.Within w) hpos hle
        (hdvd rfl) (fun _ _ => State.Within.merge) fun items s hitems _ hs => within_new hs fun item hitem =>
          hw _ (List.mem_of_getElem? (value_of_mem (hitems hitem)))
      rw [hkk, Except.ok.injEq] at hfinal
      exact ⟨partitions, hkk, hk, hpartition, hfinal ▸ hwithin.load_le hperm⟩
  refine ⟨_, ?_, List.length_map _, load_le_sorted hload⟩
  unfold getSeqlenBalancedPartitions
  rw [if_neg (by omega), hkk]
  exact check_eq hpartition

theorem balancedPartitions_spread_sixItems :
    ∃ partitions, getSeqlenBalancedPartitions [0, 0, 5, 0, 5, 1] 3 true = .ok partitions ∧ partitions.length = 3 ∧
      ∀ p ∈ partitions, ∀ q ∈ partitions, load [0, 0, 5, 0, 5, 1] p ≤ load [0, 0, 5, 0, 5, 1] q + 5 :=
  balancedPartitions_spread [0, 0, 5, 0, 5, 1] 3 5 true (by decide) (by decide) (fun _ => by decide) (by decide)

end Loads

/-! ## The micro-batches -/

section Budget

variable {args : RearrangeArgs} {seqLens : SeqLens} {num : ℤ} {idx : List (List ℕ)}

end Budget

section Unpackable

variable {n k budget : ℕ}

end Unpackable

end Opd.Verl.SeqlenBalancing

import Mathlib.Data.Finset.Card
import Mathlib.Data.List.Range

/-!
# Runs of equal labels

The numbers below `n` have labels. A run is a list of successive numbers with one label, and the next run has another
one. If equal labels are contiguous, no two runs have the same label.

* `IsRuns.snoc`, `IsRuns.extend`: one more number.
* `IsRuns.pairwise`: the labels of the runs are distinct.
* `length_dedup_labels`: as many labels as lists, whose labels are distinct.
-/

namespace Opd.Lib

variable {κ : Type*} {label : ℕ → κ} {n : ℕ} {runs : List (List ℕ)}

def NoCommonLabel (label : ℕ → κ) (run run' : List ℕ) : Prop := ∀ i ∈ run, ∀ j ∈ run', label i ≠ label j

def OneLabel (label : ℕ → κ) (run : List ℕ) : Prop := ∀ i ∈ run, ∀ j ∈ run, label i = label j

/-- The runs of the numbers below `n`. -/
structure IsRuns (label : ℕ → κ) (n : ℕ) (runs : List (List ℕ)) : Prop where
  nonempty : ∀ run ∈ runs, run ≠ []
  flatten : runs.flatten = List.range n
  same : ∀ run ∈ runs, OneLabel label run
  chain : runs.IsChain (NoCommonLabel label)

/-- Between numbers with one label there is no other label. -/
def Contiguous (label : ℕ → κ) (n : ℕ) : Prop :=
  ∀ i j k, i ≤ j → j ≤ k → k < n → label i = label k → label i = label j

theorem isRuns_zero : IsRuns label 0 [] :=
  ⟨fun _ h => absurd h List.not_mem_nil, rfl, fun _ h => absurd h List.not_mem_nil, .nil⟩

theorem IsRuns.eq_nil (h : IsRuns label 0 runs) : runs = [] := by
  have hflatten := h.flatten
  rw [List.range_zero, List.flatten_eq_nil_iff] at hflatten
  exact List.eq_nil_iff_forall_not_mem.2 fun run hrun => h.nonempty run hrun (hflatten run hrun)

/-- **A number with a new label.** -/
theorem IsRuns.snoc (h : IsRuns label n runs) (hnew : ∀ run ∈ runs.getLast?, ∀ i ∈ run, label i ≠ label n) :
    IsRuns label (n + 1) (runs ++ [[n]]) where
  nonempty := by
    intro run hrun
    rcases List.mem_append.1 hrun with hrun | hrun
    · exact h.nonempty run hrun
    · rw [List.mem_singleton.1 hrun]
      exact List.cons_ne_nil _ _
  flatten := by rw [List.flatten_append, h.flatten, List.flatten_singleton, List.range_succ]
  same := by
    intro run hrun
    rcases List.mem_append.1 hrun with hrun | hrun
    · exact h.same run hrun
    · rw [List.mem_singleton.1 hrun]
      intro i hi j hj
      rw [List.mem_singleton.1 hi, List.mem_singleton.1 hj]
  chain := by
    refine List.isChain_append.2 ⟨h.chain, .singleton _, fun run hrun run' hrun' => ?_⟩
    obtain rfl := Option.some.inj hrun'
    intro i hi j hj
    rw [List.mem_singleton.1 hj]
    exact hnew run hrun i hi

/-- **A number with the label of the last run.** -/
theorem IsRuns.extend {run : List ℕ} (h : IsRuns label n (runs ++ [run])) (hlabel : ∀ i ∈ run, label i = label n) :
    IsRuns label (n + 1) (runs ++ [run ++ [n]]) := by
  obtain ⟨i, hi⟩ := List.exists_mem_of_ne_nil _ (h.nonempty run (by simp))
  have hflatten := h.flatten
  obtain ⟨hchain, -, hlast⟩ := List.isChain_append.1 h.chain
  refine ⟨?_, ?_, ?_, List.isChain_append.2 ⟨hchain, .singleton _, ?_⟩⟩
  · intro run' hrun'
    rcases List.mem_append.1 hrun' with hrun' | hrun'
    · exact h.nonempty run' (List.mem_append_left _ hrun')
    · rw [List.mem_singleton.1 hrun']
      exact List.append_ne_nil_of_right_ne_nil _ (List.cons_ne_nil _ _)
  · rw [List.flatten_append, List.flatten_singleton] at hflatten ⊢
    rw [← List.append_assoc, hflatten, List.range_succ]
  · intro run' hrun'
    rcases List.mem_append.1 hrun' with hrun' | hrun'
    · exact h.same run' (List.mem_append_left _ hrun')
    · rw [List.mem_singleton.1 hrun']
      have hall : ∀ j ∈ run ++ [n], label j = label n := by
        intro j hj
        rcases List.mem_append.1 hj with hj | hj
        · exact hlabel j hj
        · rw [List.mem_singleton.1 hj]
      exact fun j hj k hk => (hall j hj).trans (hall k hk).symm
  · intro before hbefore run' hrun' j hj k hk
    obtain rfl := Option.some.inj hrun'
    have hne := hlast before hbefore run rfl j hj i hi
    rcases List.mem_append.1 hk with hk | hk
    · exact hlast before hbefore run rfl j hj k hk
    · rw [List.mem_singleton.1 hk, ← hlabel i hi]
      exact hne

/-- **The labels of the runs are distinct**, if equal labels are contiguous. -/
theorem IsRuns.pairwise (h : IsRuns label n runs) (hcontiguous : Contiguous label n) :
    runs.Pairwise (NoCommonLabel label) := by
  have hsorted : runs.flatten.Pairwise (· < ·) := by
    rw [h.flatten]
    exact List.pairwise_lt_range
  have hlt : ∀ i ∈ runs.flatten, i < n := by
    intro i hi
    rw [h.flatten] at hi
    exact List.mem_range.1 hi
  have hnonempty := h.nonempty
  have hchain := h.chain
  clear h
  induction runs with
  | nil => exact .nil
  | cons run runs ih =>
    rw [List.flatten_cons] at hsorted hlt
    obtain ⟨-, hrest, hbefore⟩ := List.pairwise_append.1 hsorted
    refine List.pairwise_cons.2 ⟨?_, ih hrest (fun i hi => hlt i (List.mem_append_right _ hi))
      (fun run' hrun' => hnonempty run' (List.mem_cons_of_mem _ hrun')) hchain.tail⟩
    cases runs with
    | nil => exact fun run' hrun' => absurd hrun' List.not_mem_nil
    | cons next runs =>
      have hnext : NoCommonLabel label run next := (List.isChain_cons_cons.1 hchain).1
      intro run' hrun'
      rcases List.mem_cons.1 hrun' with rfl | hrun'
      · exact hnext
      · intro i hi k hk heq
        obtain ⟨j, hj⟩ := List.exists_mem_of_ne_nil _ (hnonempty next (by simp))
        rw [List.flatten_cons] at hrest hbefore hlt
        have hij := hbefore i hi j (List.mem_append_left _ hj)
        have hk' : k ∈ runs.flatten := List.mem_flatten.2 ⟨run', hrun', hk⟩
        have hjk := (List.pairwise_append.1 hrest).2.2 j hj k hk'
        have hkn := hlt k (List.mem_append_right _ (List.mem_append_right _ hk'))
        exact hnext i hi j hj (hcontiguous i j k hij.le hjk.le hkn heq)

/-- **As many labels as lists**, if each list has one label and no two have the same. -/
theorem length_dedup_labels [DecidableEq κ] {lists : List (List ℕ)} (hnonempty : ∀ l ∈ lists, l ≠ [])
    (hsame : ∀ l ∈ lists, OneLabel label l) (hapart : lists.Pairwise (NoCommonLabel label)) :
    (lists.flatten.map label).dedup.length = lists.length := by
  rw [← List.card_toFinset]
  induction lists with
  | nil => rfl
  | cons l lists ih =>
    obtain ⟨hfirst, hrest⟩ := List.pairwise_cons.1 hapart
    obtain ⟨i, hi⟩ := List.exists_mem_of_ne_nil _ (hnonempty l List.mem_cons_self)
    have hone : (l.map label).toFinset = {label i} := by
      ext k
      rw [List.mem_toFinset, List.mem_map, Finset.mem_singleton]
      constructor
      · rintro ⟨j, hj, rfl⟩
        exact hsame l List.mem_cons_self j hj i hi
      · rintro rfl
        exact ⟨i, hi, rfl⟩
    have hnot : label i ∉ (lists.flatten.map label).toFinset := by
      rw [List.mem_toFinset, List.mem_map]
      rintro ⟨j, hj, heq⟩
      obtain ⟨l', hl', hjl⟩ := List.mem_flatten.1 hj
      exact hfirst l' hl' i hi j hjl heq.symm
    rw [List.flatten_cons, List.map_append, List.toFinset_append, hone, ← Finset.insert_eq,
      Finset.card_insert_of_notMem hnot, List.length_cons,
      ih (fun l' hl' => hnonempty l' (List.mem_cons_of_mem _ hl'))
        (fun l' hl' => hsame l' (List.mem_cons_of_mem _ hl')) hrest]

end Opd.Lib

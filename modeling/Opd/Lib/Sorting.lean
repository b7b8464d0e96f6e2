import Mathlib.Data.List.Lex
import Mathlib.Data.List.Sort
import Mathlib.Data.Prod.Lex

/-!
# Sorting by a key, least elements and slices

* `heappop_perm`: what is popped and what is left.
* `sortDesc_perm`, `sortDesc_pairwise`: the stable sort by a key, from the largest on.
* `any_adjacent_iff`: equal elements of a sorted list.
* `eq_replicate_of_front`: what holds of a first part of a list only.
* `count_zipWith_or`: a first part and a last part of a list cover as much as they can.
* `strided_perm`: the elements at even and at odd positions.
-/

namespace Opd.Lib

variable {α κ : Type*}

/-- The least element of a heap, and the others (`heapq.heappop`). The heap is the list of its
elements, in any order. -/
def heappop (lt : α → α → Bool) : List α → Option (α × List α)
  | [] => none
  | a :: l =>
    match heappop lt l with
    | none => some (a, [])
    | some (b, rest) => if lt b a then some (b, a :: rest) else some (a, b :: rest)

theorem heappop_eq_none {lt : α → α → Bool} {l : List α} (h : heappop lt l = none) : l = [] := by
  cases l with
  | nil => rfl
  | cons a l =>
    unfold heappop at h
    split at h
    · cases h
    · split at h <;> cases h

/-- **What is popped and what is left** are the elements. -/
theorem heappop_perm {lt : α → α → Bool} {l rest : List α} {a : α} (h : heappop lt l = some (a, rest)) :
    (a :: rest).Perm l := by
  induction l generalizing a rest with
  | nil => cases h
  | cons b l ih =>
    unfold heappop at h
    rcases hpop : heappop lt l with _ | ⟨c, others⟩
    · rw [hpop] at h
      cases h
      rw [heappop_eq_none hpop]
    · have hperm := ih hpop
      rw [hpop] at h
      simp only at h
      split at h
      · cases h
        exact (List.Perm.swap b _ others).trans (hperm.cons b)
      · cases h
        exact hperm.cons b

/-- `sorted(key=key, reverse=True)`. -/
def sortDesc [LinearOrder κ] (key : α → κ) (l : List α) : List α := l.insertionSort fun a b => key b ≤ key a

theorem sortDesc_perm [LinearOrder κ] (key : α → κ) (l : List α) : (sortDesc key l).Perm l :=
  List.perm_insertionSort _ l

theorem sortDesc_pairwise [LinearOrder κ] (key : α → κ) (l : List α) :
    (sortDesc key l).Pairwise fun a b => key b ≤ key a := by
  have htotal : Std.Total fun a b => key b ≤ key a := ⟨fun a b => le_total (key b) (key a)⟩
  have htrans : IsTrans α fun a b => key b ≤ key a := ⟨fun a b c hab hbc => le_trans hbc hab⟩
  exact List.pairwise_insertionSort _ l

/-- **Equal elements of a sorted list** are neighbours. -/
theorem any_adjacent_iff [LinearOrder α] {l : List α} (h : l.Pairwise (· ≤ ·)) :
    (List.zipWith (fun a b => decide (a = b)) l.tail l.dropLast).any id = true ↔ ¬ l.Nodup := by
  induction l with
  | nil => exact iff_of_false Bool.false_ne_true (not_not_intro List.nodup_nil)
  | cons a l ih =>
    cases l with
    | nil => exact iff_of_false Bool.false_ne_true (not_not_intro (List.nodup_singleton a))
    | cons b l =>
      rw [List.pairwise_cons] at h
      have hrest := ih h.2
      rw [List.tail_cons, List.dropLast_cons_cons, List.zipWith_cons_cons, List.any_cons, id, Bool.or_eq_true,
        decide_eq_true_eq, List.nodup_cons]
      rw [List.tail_cons] at hrest
      rw [hrest]
      by_cases hab : b = a
      · refine iff_of_true (Or.inl hab) fun hnodup => hnodup.1 ?_
        rw [hab]
        exact List.mem_cons_self
      · -- the first element is below all others
        have hlt : a < b := lt_of_le_of_ne (h.1 b List.mem_cons_self) (Ne.symm hab)
        have hnot : a ∉ b :: l := by
          intro hmem
          rcases List.mem_cons.1 hmem with heq | hmem
          · exact hab heq.symm
          · exact absurd hlt (not_lt_of_ge ((List.pairwise_cons.1 h.2).1 a hmem))
        constructor
        · rintro (heq | hdup) hnodup
          · exact hab heq
          · exact hdup hnodup.2
        · exact fun hdup => Or.inr fun hnodup => hdup ⟨hnot, hnodup⟩

/-! ## First parts -/

theorem eq_replicate_of_front {l : List Bool} (h : l.Pairwise fun a b => b = true → a = true) :
    l = List.replicate (l.count true) true ++ List.replicate (l.length - l.count true) false := by
  induction l with
  | nil => rfl
  | cons b l ih =>
    rw [List.pairwise_cons] at h
    have hrest := ih h.2
    cases b with
    | true =>
      rw [List.count_cons_self, List.replicate_succ, List.length_cons, Nat.add_sub_add_right, List.cons_append,
        ← hrest]
    | false =>
      have hnone : l.count true = 0 := List.count_eq_zero.2 fun hmem => Bool.false_ne_true (h.1 true hmem rfl)
      rw [hnone, Nat.sub_zero, List.replicate_zero, List.nil_append] at hrest
      rw [List.count_cons_of_ne Bool.false_ne_true, hnone, Nat.sub_zero, List.length_cons, List.replicate_succ,
        List.replicate_zero, List.nil_append, ← hrest]

/-- **A first part and a last part** of a list cover as much as they can. -/
theorem count_zipWith_or {k a b : ℕ} (ha : a ≤ k) (hb : b ≤ k) :
    (List.zipWith or (List.replicate a true ++ List.replicate (k - a) false)
      (List.replicate (k - b) false ++ List.replicate b true)).count true = min k (a + b) := by
  rcases Nat.le_total (a + b) k with hle | hle
  · -- a gap is left between the two parts
    obtain ⟨gap, rfl⟩ := Nat.exists_eq_add_of_le hle
    have hleft : a + b + gap - a = gap + b := by omega
    have hright : a + b + gap - b = a + gap := by omega
    rw [hleft, hright, List.replicate_add gap b, List.replicate_add a gap, List.append_assoc,
      List.zipWith_append (by simp), List.zipWith_append (by simp)]
    simp only [List.zipWith_replicate, List.count_append, List.count_replicate]
    simp
  · -- the parts overlap
    obtain ⟨x, rfl⟩ := Nat.exists_eq_add_of_le ha
    obtain ⟨y, rfl⟩ := Nat.exists_eq_add_of_le (show x ≤ b by omega)
    obtain ⟨z, rfl⟩ := Nat.exists_eq_add_of_le (show y ≤ a by omega)
    have hleft : y + z + x - (y + z) = x := by omega
    have hright : y + z + x - (x + y) = z := by omega
    rw [hleft, hright, Nat.add_comm y z, Nat.add_comm x y, List.replicate_add z y, List.replicate_add y x,
      List.append_assoc, List.zipWith_append (by simp), List.zipWith_append (by simp)]
    simp only [List.zipWith_replicate, List.count_append, List.count_replicate]
    simp
    omega

/-! ## Slices -/

/-- `l[::step]`, for a step that is not 0. -/
def strided (step : ℕ) (l : List α) : List α := (l.zipIdx.filter fun p => p.2 % step = 0).map Prod.fst

/-- **The elements at even and at odd positions** are all elements. -/
theorem strided_perm (l : List α) : (strided 2 l ++ strided 2 l.tail).Perm l := by
  have hodd : strided 2 l.tail = (l.zipIdx.filter fun p => !decide (p.2 % 2 = 0)).map Prod.fst := by
    cases l with
    | nil => rfl
    | cons a l =>
      rw [List.tail_cons, List.zipIdx_cons, Nat.zero_add, List.filter_cons_of_neg (by simp), List.zipIdx_succ,
        List.filter_map, List.map_map]
      unfold strided
      congr 1
      refine List.filter_congr ?_
      intro p _
      simp only [Function.comp_def]
      grind
  rw [hodd, strided, ← List.map_append]
  have hall := (List.filter_append_perm (fun p => decide (p.2 % 2 = 0)) l.zipIdx).map Prod.fst
  rwa [List.zipIdx_map_fst] at hall

theorem strided_map {β : Type*} (f : α → β) (step : ℕ) (l : List α) : strided step (l.map f) = (strided step l).map f := by
  unfold strided
  rw [List.zipIdx_map, List.filter_map, List.map_map, List.map_map]
  rfl

theorem strided_append {step pieces : ℕ} {l : List α} (h : l.length = pieces * step) (l' : List α) :
    strided step (l ++ l') = strided step l ++ strided step l' := by
  have hmod : ∀ p : α × ℕ, decide ((pieces * step + p.2) % step = 0) = decide (p.2 % step = 0) := by
    intro p
    rw [Nat.add_comm, Nat.add_mul_mod_self_right]
  unfold strided
  rw [List.zipIdx_append, List.filter_append, List.map_append, Nat.zero_add, h]
  congr 1
  rw [List.zipIdx_eq_map_add, List.filter_map, List.map_map]
  simp only [Function.comp_def, hmod]

theorem strided_short {step : ℕ} {a : α} {l : List α} (h : l.length < step) : strided step (a :: l) = [a] := by
  have hrest : (l.zipIdx 1).filter (fun p => decide (p.2 % step = 0)) = [] := by
    rw [List.filter_eq_nil_iff]
    intro p hp
    obtain ⟨hlow, hhigh, -⟩ := List.mem_zipIdx hp
    rw [decide_eq_true_eq, Nat.mod_eq_of_lt (by omega)]
    omega
  unfold strided
  rw [List.zipIdx_cons, List.filter_cons_of_pos (by simp), Nat.zero_add, hrest]
  rfl

/-- **One element of each step** of a range that ends within a step. -/
theorem strided_range' {step : ℕ} (start pieces : ℕ) {rest : ℕ} (hrest : 0 < rest) (hle : rest ≤ step) :
    strided step (List.range' start (pieces * step + rest)) =
      (List.range (pieces + 1)).map fun j => j * step + start := by
  induction pieces generalizing start with
  | zero =>
    obtain ⟨rest, rfl⟩ := Nat.exists_eq_succ_of_ne_zero hrest.ne'
    rw [Nat.zero_mul, Nat.zero_add, List.range'_succ, strided_short (by rw [List.length_range']; omega)]
    simp
  | succ pieces ih =>
    have hsplit : List.range' start ((pieces + 1) * step + rest) =
        List.range' start step ++ List.range' (start + step) (pieces * step + rest) := by
      rw [List.range'_append_1]
      congr 1
      rw [Nat.succ_mul]
      omega
    obtain ⟨size, rfl⟩ := Nat.exists_eq_succ_of_ne_zero (show step ≠ 0 by omega)
    have hhead : List.range (pieces + 1 + 1) = 0 :: (List.range (pieces + 1)).map Nat.succ := List.range_succ_eq_map
    rw [hsplit, @strided_append _ _ 1 _ (by rw [List.length_range', Nat.one_mul]), ih, List.range'_succ,
      strided_short (by rw [List.length_range']; omega), hhead, List.map_cons, List.map_map, List.singleton_append]
    refine List.cons_eq_cons.2 ⟨by rw [Nat.zero_mul, Nat.zero_add], List.map_congr_left fun j _ => ?_⟩
    rw [Function.comp_apply, Nat.succ_eq_add_one j, Nat.succ_mul]
    omega

end Opd.Lib

import Mathlib.Data.List.Infix
import Mathlib.Data.List.TakeDrop

/-!
# Occurrences of a pattern in a list

Counting, splitting and replacing as the methods of strings do it, from the left and without
overlaps, and the number of all positions of a pattern.

* `occurrences_append`: occurrences add up where none can lie across the border.
* `count_eq_occurrences`: a pattern that ends with an entry of its own is counted at all its
  positions.
* `replace_self_append`, `replace_append_of_not_mem`: what is replaced, and what is passed over.
* `occurrences_splitFirst`: what is before the first occurrence, and behind it.
-/

namespace Opd.Lib

variable {α : Type*} [DecidableEq α]

/-- The number of positions of a pattern. -/
def occurrences (p : List α) : List α → ℕ
  | [] => 0
  | c :: l => (if p <+: c :: l then 1 else 0) + occurrences p l

/-- The scan of `str.count`, after some entries that belong to the last occurrence. -/
def countFrom (p : List α) : ℕ → List α → ℕ
  | _, [] => 0
  | skip + 1, _ :: l => countFrom p skip l
  | 0, c :: l => if p <+: c :: l then countFrom p (p.length - 1) l + 1 else countFrom p 0 l

/-- `str.count` -/
def count (p l : List α) : ℕ := countFrom p 0 l

def splitFirst (p : List α) : List α → Option (List α × List α)
  | [] => none
  | c :: l => if p <+: c :: l then some ([], (c :: l).drop p.length)
    else (splitFirst p l).map fun parts => (c :: parts.1, parts.2)

/-- The scan of `str.replace`, after some entries that belong to the last occurrence. -/
def replaceFrom (p r : List α) : ℕ → List α → List α
  | _, [] => []
  | skip + 1, _ :: l => replaceFrom p r skip l
  | 0, c :: l => if p <+: c :: l then r ++ replaceFrom p r (p.length - 1) l else c :: replaceFrom p r 0 l

/-- `str.replace` -/
def replace (p r l : List α) : List α := replaceFrom p r 0 l

/-- No occurrence lies across the border of two lists. -/
def Apart (p x y : List α) : Prop := (∀ c ∈ y.head?, c ∉ p.tail) ∨ ∀ c ∈ x.getLast?, c ∉ p.dropLast

variable {p x y z l : List α}

omit [DecidableEq α] in
theorem forall_mem_of_all {o : Option α} {P : α → Prop} [DecidablePred P]
    (h : o.all (fun c => decide (P c)) = true) : ∀ c ∈ o, P c :=
  fun c hc => of_decide_eq_true (Option.all_eq_true _ _ |>.1 h c hc)

omit [DecidableEq α] in
theorem prefix_append_iff {c : α} (h : Apart p (c :: x) y) : p <+: c :: x ++ y ↔ p <+: c :: x := by
  constructor
  · intro hprefix
    rcases List.prefix_or_prefix_of_prefix hprefix (List.prefix_append (c :: x) y) with hleft | ⟨rest, rfl⟩
    · exact hleft
    · have hrest := (List.prefix_append_right_inj (c :: x)).1 hprefix
      cases rest with
      | nil => rw [List.append_nil]
      | cons d rest =>
        -- the pattern reaches into the second list
        exfalso
        obtain ⟨t, rfl⟩ := hrest
        rcases h with hhead | hlast
        · refine hhead d rfl ?_
          rw [List.cons_append, List.tail_cons]
          exact List.mem_append_right _ List.mem_cons_self
        · obtain ⟨b, hb⟩ := List.getLast?_isSome.2 (List.cons_ne_nil c x) |> Option.isSome_iff_exists.1
          refine hlast b hb ?_
          rw [List.dropLast_append_of_ne_nil (List.cons_ne_nil d rest)]
          exact List.mem_append_left _ (List.mem_of_getLast? hb)
  · intro hleft
    exact hleft.trans (List.prefix_append _ _)

omit [DecidableEq α] in
theorem Apart.tail {c : α} (h : Apart p (c :: x) y) : Apart p x y := by
  rcases h with hhead | hlast
  · exact Or.inl hhead
  · refine Or.inr fun b hb => hlast b ?_
    cases x with
    | nil => cases hb
    | cons d x => exact hb

/-- **Occurrences add up** where none can lie across the border. -/
theorem occurrences_append (h : Apart p x y) : occurrences p (x ++ y) = occurrences p x + occurrences p y := by
  induction x with
  | nil => rw [List.nil_append, occurrences, Nat.zero_add]
  | cons c x ih =>
    rw [List.cons_append, occurrences, occurrences, ih h.tail, ← List.cons_append, Nat.add_assoc]
    simp only [prefix_append_iff h]

theorem occurrences_eq_zero (hp : p ≠ []) : occurrences p l = 0 ↔ ¬ p <:+: l := by
  induction l with
  | nil => exact iff_of_true rfl fun h => hp (List.infix_nil.1 h)
  | cons c l ih =>
    rw [occurrences, Nat.add_eq_zero_iff, ih, List.infix_cons_iff, not_or]
    refine and_congr_left fun _ => ?_
    by_cases hstart : p <+: c :: l
    · rw [if_pos hstart]
      exact iff_of_false Nat.one_ne_zero (not_not_intro hstart)
    · rw [if_neg hstart]
      exact iff_of_true rfl hstart

theorem occurrences_of_not_mem {c : α} (hp : c ∈ p) (hl : c ∉ l) : occurrences p l = 0 :=
  (occurrences_eq_zero (List.ne_nil_of_mem hp)).2 fun h => hl (h.subset hp)

theorem occurrences_of_length_lt (h : l.length < p.length) : occurrences p l = 0 := by
  induction l with
  | nil => rfl
  | cons c l ih =>
    rw [List.length_cons] at h
    rw [occurrences, ih (by omega), if_neg]
    intro hprefix
    have := hprefix.length_le
    rw [List.length_cons] at this
    omega

theorem occurrences_self_append (hp : p ≠ []) (hlast : ∀ c ∈ p.getLast?, c ∉ p.dropLast) (l : List α) :
    occurrences p (p ++ l) = 1 + occurrences p l := by
  obtain ⟨a, t, rfl⟩ := List.exists_cons_of_ne_nil hp
  rw [List.cons_append, occurrences, if_pos (by rw [← List.cons_append]; exact List.prefix_append _ _)]
  congr 1
  cases t with
  | nil => rfl
  | cons b t =>
    rw [occurrences_append (x := b :: t) (y := l) (Or.inr fun c hc => hlast c hc),
      occurrences_of_length_lt (Nat.lt_succ_self _), Nat.zero_add]

/-- **Python counts all positions** of a pattern whose last entry occurs once. -/
theorem count_eq_occurrences (hp : p ≠ []) (hlast : ∀ c ∈ p.getLast?, c ∉ p.dropLast) (l : List α) :
    count p l = occurrences p l := by
  have hskip : ∀ (n : ℕ) (l : List α), countFrom p n l = countFrom p 0 (l.drop n) := by
    intro n l
    induction l generalizing n with
    | nil => cases n <;> rfl
    | cons c l ih =>
      cases n with
      | zero => rfl
      | succ n => exact ih n
  unfold count
  induction hn : l.length using Nat.strong_induction_on generalizing l with
  | _ n ih =>
    cases l with
    | nil => rfl
    | cons c l =>
      rw [List.length_cons] at hn
      rw [countFrom]
      split
      · rename_i hprefix
        obtain ⟨rest, hrest⟩ := hprefix
        have hdrop : l.drop (p.length - 1) = rest := by
          have hpos := List.length_pos_of_ne_nil hp
          have hall := congrArg (List.drop p.length) hrest
          rw [List.drop_left, show p.length = p.length - 1 + 1 by omega, List.drop_succ_cons] at hall
          exact hall.symm
        have hlength := congrArg List.length hrest
        rw [List.length_append, List.length_cons] at hlength
        have hpos := List.length_pos_of_ne_nil hp
        rw [hskip, hdrop, ih rest.length (by omega) rest rfl, ← hrest, occurrences_self_append hp hlast, Nat.add_comm]
      · rename_i hnot
        rw [ih l.length (by omega) l rfl, occurrences, if_neg hnot, Nat.zero_add]

theorem append_of_splitFirst (h : splitFirst p l = some (x, y)) : l = x ++ (p ++ y) := by
  induction l generalizing x with
  | nil => cases h
  | cons c l ih =>
    rw [splitFirst] at h
    split at h
    · rename_i hprefix
      obtain ⟨rfl, rfl⟩ := Prod.mk.inj (Option.some.inj h)
      obtain ⟨rest, hrest⟩ := hprefix
      rw [← hrest, List.drop_left, List.nil_append]
    · obtain ⟨⟨before, behind⟩, hsplit, hparts⟩ := Option.map_eq_some_iff.1 h
      obtain ⟨rfl, rfl⟩ := Prod.mk.inj hparts
      rw [List.cons_append, ← ih hsplit]

theorem occurrences_of_splitFirst (h : splitFirst p l = some (x, y)) : occurrences p x = 0 := by
  induction l generalizing x with
  | nil => cases h
  | cons c l ih =>
    rw [splitFirst] at h
    split at h
    · obtain ⟨rfl, rfl⟩ := Prod.mk.inj (Option.some.inj h)
      rfl
    · rename_i hnot
      obtain ⟨⟨before, behind⟩, hsplit, hparts⟩ := Option.map_eq_some_iff.1 h
      obtain ⟨rfl, rfl⟩ := Prod.mk.inj hparts
      rw [occurrences, ih hsplit, if_neg]
      intro hprefix
      refine hnot (List.IsPrefix.trans hprefix ?_)
      rw [append_of_splitFirst hsplit, ← List.cons_append]
      exact List.prefix_append _ _

/-- **The first occurrence behind a list** that has none. -/
theorem splitFirst_append (hx : occurrences p x = 0) (h : Apart p x y) :
    splitFirst p (x ++ y) = (splitFirst p y).map fun parts => (x ++ parts.1, parts.2) := by
  induction x with
  | nil =>
    rw [List.nil_append]
    exact (Option.map_id' (x := splitFirst p y)).symm
  | cons c x ih =>
    rw [occurrences, Nat.add_eq_zero_iff] at hx
    have hnot : ¬ p <+: c :: x ++ y := by
      intro hprefix
      rw [if_pos ((prefix_append_iff h).1 hprefix)] at hx
      exact absurd hx.1 Nat.one_ne_zero
    rw [List.cons_append] at hnot ⊢
    rw [splitFirst, if_neg hnot, ih hx.2 h.tail, Option.map_map]
    rfl

theorem splitFirst_eq_none : splitFirst p l = none ↔ occurrences p l = 0 := by
  induction l with
  | nil => exact ⟨fun _ => rfl, fun _ => rfl⟩
  | cons c l ih =>
    rw [splitFirst, occurrences]
    split
    · constructor
      · intro h
        cases h
      · intro h
        omega
    · rw [Option.map_eq_none_iff, ih, Nat.zero_add]

theorem splitFirst_self (hp : p ≠ []) (y : List α) : splitFirst p (p ++ y) = some ([], y) := by
  obtain ⟨a, t, rfl⟩ := List.exists_cons_of_ne_nil hp
  have hdrop : (a :: (t ++ y)).drop (a :: t).length = y := @List.drop_left _ (a :: t) y
  have hstart : a :: t <+: a :: (t ++ y) := List.prefix_append (a :: t) y
  rw [List.cons_append, splitFirst, if_pos hstart, hdrop]

/-- **A pattern behind a list without it**, where it starts with an entry of its own. -/
theorem splitFirst_append_self (hp : p ≠ []) (hhead : ∀ c ∈ p.head?, c ∉ p.tail) (hx : occurrences p x = 0)
    (y : List α) : splitFirst p (x ++ (p ++ y)) = some (x, y) := by
  have hapart : Apart p x (p ++ y) := by
    refine .inl fun c hc => hhead c ?_
    rw [List.head?_append_of_ne_nil _ hp] at hc
    exact hc
  rw [splitFirst_append hx hapart, splitFirst_self hp, Option.map_some, List.append_nil]

theorem replaceFrom_append (q r x l : List α) : replaceFrom q r x.length (x ++ l) = replace q r l := by
  induction x with
  | nil => rfl
  | cons c x ih => exact ih

theorem replace_self_append {q : List α} (hq : q ≠ []) (r l : List α) :
    replace q r (q ++ l) = r ++ replace q r l := by
  obtain ⟨c, x, rfl⟩ := List.exists_cons_of_ne_nil hq
  unfold replace
  rw [List.cons_append, replaceFrom, if_pos (by rw [← List.cons_append]; exact List.prefix_append _ _)]
  exact congrArg (r ++ ·) (replaceFrom_append _ r x l)

theorem replace_cons {q l : List α} {c : α} (r : List α) (h : ¬ q <+: c :: l) :
    replace q r (c :: l) = c :: replace q r l := by
  unfold replace
  rw [replaceFrom, if_neg h]

theorem replace_append_of_not_mem {c : α} {q x : List α} (r l : List α) (hc : c ∉ x) :
    replace (c :: q) r (x ++ l) = x ++ replace (c :: q) r l := by
  induction x with
  | nil => rfl
  | cons d x ih =>
    rw [List.mem_cons, not_or] at hc
    rw [List.cons_append, replace_cons r fun hprefix => hc.1 (List.cons_prefix_cons.1 hprefix).1, ih hc.2,
      List.cons_append]

omit [DecidableEq α] in
theorem takeWhile_dropWhile_append {q : α → Bool} (hx : ∀ c ∈ x, q c = true) (hy : ∀ c ∈ y.head?, q c = false) :
    (x ++ y).takeWhile q = x ∧ (x ++ y).dropWhile q = y := by
  rw [List.takeWhile_append_of_pos hx, List.dropWhile_append_of_pos hx]
  cases y with
  | nil => exact ⟨List.append_nil x, rfl⟩
  | cons c y =>
    have hc : ¬ q c = true := by
      rw [hy c rfl]
      exact Bool.false_ne_true
    rw [List.takeWhile_cons_of_neg hc, List.dropWhile_cons_of_neg hc, List.append_nil]
    exact ⟨rfl, rfl⟩

end Opd.Lib

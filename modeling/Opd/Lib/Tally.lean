import Mathlib.Algebra.BigOperators.Group.List.Basic
import Mathlib.Algebra.Order.BigOperators.Group.List
import Mathlib.Algebra.Order.Group.Defs

/-!
# Tallies

What the members of a list contribute together, and how the tally moves when one of them changes.

* `tally_set_le`: a member that contributes no more than before.
* `tally_set_le_add`: a member that contributes a bit more.
-/

namespace Opd.Lib

section tally

variable {α K : Type*} [AddCommGroup K] {w v : α → K} {l : List α}

/-- The sum of what the members contribute. -/
def tally (w : α → K) (l : List α) : K := (l.map w).sum

theorem tally_cons (w : α → K) (a : α) (l : List α) : tally w (a :: l) = w a + tally w l := List.sum_cons

theorem tally_append_singleton (w : α → K) (l : List α) (a : α) : tally w (l ++ [a]) = tally w l + w a := by
  unfold tally
  rw [List.map_append, List.sum_append, List.map_singleton, List.sum_singleton]

theorem tally_eq_zero (h : ∀ a ∈ l, w a = 0) : tally w l = 0 := by
  apply List.sum_eq_zero
  intro x hx
  obtain ⟨a, ha, rfl⟩ := List.mem_map.1 hx
  exact h a ha

/-- **One member changes.** -/
theorem tally_set {i : ℕ} {a : α} (hi : l[i]? = some a) (b : α) : tally w (l.set i b) + w a = tally w l + w b := by
  induction l generalizing i with
  | nil => cases hi
  | cons c l ih =>
    cases i with
    | zero =>
      obtain rfl : c = a := Option.some.inj hi
      rw [List.set_cons_zero, tally_cons, tally_cons, add_comm (w b + _), add_assoc, add_comm (w b)]
    | succ i =>
      rw [List.set_cons_succ, tally_cons, tally_cons, add_assoc, ih hi, add_assoc]

variable [PartialOrder K] [IsOrderedAddMonoid K]

theorem tally_le_tally (h : ∀ a ∈ l, w a ≤ v a) : tally w l ≤ tally v l := List.sum_le_sum h

theorem tally_set_le_add {i : ℕ} {a b : α} {x : K} (hi : l[i]? = some a) (h : w b ≤ w a + x) :
    tally w (l.set i b) ≤ tally w l + x := by
  have hset := tally_set (w := w) hi b
  apply le_of_add_le_add_right (a := w a)
  rw [hset, add_assoc, add_comm x]
  exact add_le_add_right h _

theorem tally_set_le {i : ℕ} {a b : α} (hi : l[i]? = some a) (h : w b ≤ w a) : tally w (l.set i b) ≤ tally w l := by
  have hle := tally_set_le_add (x := 0) hi (h.trans (add_zero (w a)).ge)
  rwa [add_zero] at hle

end tally

end Opd.Lib

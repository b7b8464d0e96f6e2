import Mathlib.Data.List.Basic

/-!
# Fields of texts

A text is split into fields at its last separators.

* `lastSplit_append`: the last separator is the one before the last field.
* `rsplit_fields`: three fields, of which the last two have no separator.
* `append_sep_inj`: a text and its last field.
-/

namespace Opd.Lib

variable {α : Type*} [DecidableEq α]

def lastSplit (sep : α) (l : List α) : Option (List α × List α) :=
  match l.reverse.dropWhile (· ≠ sep) with
  | [] => none
  | _ :: before => some (before.reverse, (l.reverse.takeWhile (· ≠ sep)).reverse)

/-- `rsplit(sep, n)` -/
def rsplit (sep : α) : ℕ → List α → List (List α)
  | 0, l => [l]
  | n + 1, l =>
    match lastSplit sep l with
    | none => [l]
    | some (before, field) => rsplit sep n before ++ [field]

/-- **The last separator** is the one before the last field. -/
theorem lastSplit_append {sep : α} {before field : List α} (h : sep ∉ field) :
    lastSplit sep (before ++ sep :: field) = some (before, field) := by
  have hall : ∀ a ∈ field.reverse, decide (a ≠ sep) = true := by
    intro a ha
    refine decide_eq_true ?_
    rintro rfl
    exact h (List.mem_reverse.1 ha)
  have hreverse : (before ++ sep :: field).reverse = field.reverse ++ sep :: before.reverse := by
    rw [List.reverse_append, List.reverse_cons, List.append_assoc, List.singleton_append]
  unfold lastSplit
  rw [hreverse, List.dropWhile_append_of_pos hall, List.takeWhile_append_of_pos hall,
    List.dropWhile_cons_of_neg (by simp), List.takeWhile_cons_of_neg (by simp)]
  simp only [List.append_nil, List.reverse_reverse]

theorem append_sep_inj {sep : α} {before before' field field' : List α} (h : sep ∉ field) (h' : sep ∉ field')
    (heq : before ++ sep :: field = before' ++ sep :: field') : before = before' ∧ field = field' := by
  have hsplit : lastSplit sep (before ++ sep :: field) = some (before, field) := lastSplit_append h
  rw [heq, lastSplit_append h'] at hsplit
  obtain ⟨rfl, rfl⟩ := Prod.mk.inj (Option.some.inj hsplit)
  exact ⟨rfl, rfl⟩

theorem append_of_lastSplit {sep : α} {l before field : List α} (h : lastSplit sep l = some (before, field)) :
    l = before ++ sep :: field := by
  unfold lastSplit at h
  split at h
  · cases h
  · rename_i c rest hdrop
    obtain ⟨hbefore, hfield⟩ := Prod.mk.inj (Option.some.inj h)
    have hc : c = sep := by
      have hhead := List.head?_dropWhile_not (fun a => decide (a ≠ sep)) l.reverse
      rw [hdrop, List.head?_cons] at hhead
      simpa using hhead
    have happend := @List.takeWhile_append_dropWhile α (fun a => decide (a ≠ sep)) l.reverse
    rw [hdrop, hc] at happend
    have hreverse := congrArg List.reverse happend
    rw [List.reverse_append, List.reverse_cons, List.reverse_reverse, hfield, hbefore, List.append_assoc,
      List.singleton_append] at hreverse
    exact hreverse.symm

theorem append_of_rsplit {sep : α} {l first second third : List α} (h : rsplit sep 2 l = [first, second, third]) :
    l = (first ++ sep :: second) ++ sep :: third := by
  unfold rsplit at h
  split at h
  · cases h
  · rename_i before field hlast
    rw [append_of_lastSplit hlast]
    unfold rsplit at h
    split at h
    · cases h
    · rename_i before' field' hlast'
      rw [append_of_lastSplit hlast']
      rw [rsplit] at h
      simp only [List.cons_append, List.nil_append, List.cons.injEq, and_true] at h
      obtain ⟨rfl, rfl, rfl⟩ := h
      rfl

/-- **Three fields**, of which the last two have no separator. -/
theorem rsplit_fields {sep : α} {first second third : List α} (hsecond : sep ∉ second) (hthird : sep ∉ third) :
    rsplit sep 2 ((first ++ sep :: second) ++ sep :: third) = [first, second, third] := by
  rw [rsplit, lastSplit_append hthird]
  simp only [rsplit, lastSplit_append hsecond, List.cons_append, List.nil_append]

end Opd.Lib

import Mathlib.Algebra.BigOperators.Group.List.Basic
import Mathlib.Algebra.GroupWithZero.Nat
import Mathlib.Data.List.Forall2
import Mathlib.Data.List.Nodup

/-!
# Lists of groups

A list of groups expands a list element by element; `flatten` puts the groups one after
the other.

* `split_groups`: an element splits the list and its groups alike.
* `mem_of_same_tail`: an element of `flatten` is in a group when as many elements follow.
* `flatten_labelGroups`: groups numbered consecutively.
-/

namespace Opd.Lib

variable {β γ : Type*}

theorem length_flatten_le {R : β → List γ → Prop} (hR : ∀ b g, R b g → g ≠ [])
    {bs : List β} {gs : List (List γ)} (h : List.Forall₂ R bs gs) : bs.length ≤ gs.flatten.length := by
  induction h with
  | nil => exact Nat.le_refl _
  | cons hr _ ih =>
    have := List.length_pos_of_ne_nil (hR _ _ hr)
    rw [List.length_cons, List.flatten_cons, List.length_append]
    omega

theorem length_flatten_of_single {R : β → List γ → Prop} {bs : List β} {gs : List (List γ)}
    (hR : ∀ b ∈ bs, ∀ g, R b g → g.length = 1) (h : List.Forall₂ R bs gs) :
    gs.flatten.length = bs.length := by
  induction h with
  | nil => rfl
  | cons hr _ ih =>
    rw [List.length_cons, List.flatten_cons, List.length_append,
      hR _ (List.mem_cons_self ..) _ hr, ih fun b hb => hR b (List.mem_cons_of_mem _ hb)]
    omega

theorem split_groups {R : β → List γ → Prop} {bs : List β} {gs : List (List γ)}
    (h : List.Forall₂ R bs gs) {x : ℕ} {b : β} (hb : bs[x]? = some b) :
    ∃ BA BB GA g GB, bs = BA ++ b :: BB ∧ gs = GA ++ g :: GB ∧ BA.length = x ∧ GA.length = x ∧
      R b g ∧ List.Forall₂ R BB GB := by
  obtain ⟨hx, hbx⟩ := List.getElem?_eq_some_iff.1 hb
  have hlen := h.length_eq
  have hxg : x < gs.length := by omega
  have hbs : bs = bs.take x ++ b :: bs.drop (x + 1) := by
    rw [← hbx, List.getElem_cons_drop, List.take_append_drop]
  have hgs : gs = gs.take x ++ gs[x] :: gs.drop (x + 1) := by
    rw [List.getElem_cons_drop, List.take_append_drop]
  refine ⟨bs.take x, bs.drop (x + 1), gs.take x, _, gs.drop (x + 1), hbs, hgs, ?_, ?_, ?_, ?_⟩
  · rw [List.length_take]
    omega
  · rw [List.length_take]
    omega
  · rw [List.forall₂_iff_get] at h
    have := h.2 x hx hxg
    rw [← hbx]
    exact this
  · exact List.forall₂_drop (x + 1) h

theorem mem_of_same_tail {X Y Z g W : List β} {e : β} (h : X ++ e :: Y = Z ++ g ++ W)
    (hlen : Y.length = W.length) (hg : g ≠ []) : e ∈ g := by
  rw [← List.dropLast_append_getLast hg, ← List.append_assoc, List.append_assoc, List.singleton_append] at h
  have htail := List.append_inj_right' h (by rw [List.length_cons, List.length_cons, hlen])
  rw [(List.cons.inj htail).1]
  exact List.getLast_mem hg

/-! ## Numbered groups -/

/-- Groups of the given sizes, whose elements are numbered from `n` on. -/
def labelGroups : ℕ → List ℕ → List (List ℕ)
  | _, [] => []
  | n, w :: ws => List.range' n w :: labelGroups (n + w) ws

theorem length_labelGroups (n : ℕ) (ws : List ℕ) : (labelGroups n ws).length = ws.length := by
  induction ws generalizing n with
  | nil => rfl
  | cons w ws ih => rw [labelGroups, List.length_cons, ih, List.length_cons]

theorem flatten_labelGroups (n : ℕ) (ws : List ℕ) : (labelGroups n ws).flatten = List.range' n ws.sum := by
  induction ws generalizing n with
  | nil => rfl
  | cons w ws ih =>
    rw [labelGroups, List.flatten_cons, ih, List.sum_cons]
    have := @List.range'_append n w ws.sum 1
    rwa [Nat.one_mul] at this

theorem mem_labelGroups {n : ℕ} {ws labels : List ℕ} {x : ℕ} (h : (labelGroups n ws)[x]? = some labels) :
    ∃ w, ws[x]? = some w ∧ labels.length = w := by
  induction ws generalizing n x with
  | nil => simp [labelGroups] at h
  | cons w ws ih =>
    cases x with
    | zero =>
      rw [labelGroups, List.getElem?_cons_zero, Option.some.injEq] at h
      exact ⟨w, rfl, by rw [← h, List.length_range']⟩
    | succ x =>
      rw [labelGroups, List.getElem?_cons_succ] at h
      exact ih h

theorem labelGroups_getElem (n : ℕ) (ws : List ℕ) (w : ℕ) (vs : List ℕ) :
    (labelGroups n (ws ++ w :: vs))[ws.length]? = some (List.range' (n + ws.sum) w) := by
  induction ws generalizing n with
  | nil => rfl
  | cons v ws ih =>
    rw [List.cons_append, labelGroups, List.length_cons, List.getElem?_cons_succ, ih, List.sum_cons,
      Nat.add_assoc]

end Opd.Lib

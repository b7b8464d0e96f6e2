import Mathlib.Order.Nat

/-!
# Loops with a budget

A loop passes through its body while a condition holds. The body may fail, and it knows the number of the pass, so that
it can ask an environment that answers as it likes. A budget of the state pays for the passes.

* `Pays.cost_le`: what all passes cost is at most the budget at the start.
* `Pays.ends`: a loop with a budget for each pass ends.
* `exists_after`: a loop whose body does not fail.
-/

namespace Opd.Lib

/-- A loop over the states `σ`, whose body fails with `ε`. -/
structure WhileLoop (σ ε : Type*) where
  running : σ → Bool
  body : ℕ → σ → Except ε σ

namespace WhileLoop

variable {σ ε : Type*} {L : WhileLoop σ ε} {s t : σ} {e : ε} {n : ℕ} {w : σ → ℕ} {inv : σ → Prop} {budget : σ → ℕ}

/-- The state after `n` passes. A loop that has ended stays in its last state. -/
def after (L : WhileLoop σ ε) (s : σ) : ℕ → Except ε σ
  | 0 => .ok s
  | n + 1 => (L.after s n).bind fun t => if L.running t then L.body n t else .ok t

/-- What the first `n` passes cost, if a pass from the state `t` costs `w t`. -/
def cost (L : WhileLoop σ ε) (w : σ → ℕ) (s : σ) : ℕ → ℕ
  | 0 => 0
  | n + 1 => L.cost w s n + match L.after s n with
    | .ok t => if L.running t then w t else 0
    | .error _ => 0

/-- **The budget pays for each pass** from a state with the invariant, also for one that fails. -/
structure Pays (L : WhileLoop σ ε) (w : σ → ℕ) (inv : σ → Prop) (budget : σ → ℕ) : Prop where
  le : ∀ t, inv t → L.running t → w t ≤ budget t
  step : ∀ n t u, inv t → L.running t → L.body n t = .ok u → inv u ∧ budget u + w t ≤ budget t

theorem after_succ (h : L.after s n = .ok t) :
    L.after s (n + 1) = if L.running t then L.body n t else .ok t := by
  rw [after, h]
  rfl

theorem cost_succ (h : L.after s n = .ok t) :
    L.cost w s (n + 1) = L.cost w s n + if L.running t then w t else 0 := by
  rw [cost, h]

theorem exists_before (h : L.after s (n + 1) = .ok t) :
    ∃ u, L.after s n = .ok u ∧ (if L.running u then L.body n u else .ok u) = .ok t := by
  rcases hn : L.after s n with e | u
  · rw [after, hn] at h
    cases h
  · rw [after_succ hn] at h
    exact ⟨u, rfl, h⟩

/-- **The budget left** after `n` passes. -/
theorem Pays.after_ok (h : L.Pays w inv budget) (hs : inv s) (hn : L.after s n = .ok t) :
    inv t ∧ L.cost w s n + budget t ≤ budget s := by
  induction n generalizing t with
  | zero =>
    obtain rfl := Except.ok.inj hn
    exact ⟨hs, Nat.le_of_eq (Nat.zero_add _)⟩
  | succ n ih =>
    obtain ⟨u, hu, hpass⟩ := exists_before hn
    obtain ⟨hinv, hle⟩ := ih hu
    rw [cost_succ hu]
    by_cases hrun : L.running u
    · rw [if_pos hrun] at hpass ⊢
      obtain ⟨hinv', hstep⟩ := h.step n u t hinv hrun hpass
      exact ⟨hinv', by omega⟩
    · rw [if_neg hrun] at hpass ⊢
      obtain rfl := Except.ok.inj hpass
      exact ⟨hinv, hle⟩

theorem Pays.cost_le (h : L.Pays w inv budget) (hs : inv s) (n : ℕ) : L.cost w s n ≤ budget s := by
  induction n with
  | zero => exact Nat.zero_le _
  | succ n ih =>
    rcases hn : L.after s n with e | t
    · rw [cost, hn]
      exact ih
    · obtain ⟨hinv, hle⟩ := h.after_ok hs hn
      rw [cost_succ hn]
      by_cases hrun : L.running t
      · have := h.le t hinv hrun
        rw [if_pos hrun]
        omega
      · rw [if_neg hrun]
        exact ih

theorem cost_one (hn : L.after s n = .ok t) (hrun : L.running t) : L.cost (fun _ => 1) s n = n := by
  induction n generalizing t with
  | zero => rfl
  | succ n ih =>
    obtain ⟨u, hu, hpass⟩ := exists_before hn
    by_cases hrun' : L.running u
    · rw [cost_succ hu, ih hu hrun', if_pos hrun']
    · rw [if_neg hrun'] at hpass
      obtain rfl := Except.ok.inj hpass
      exact absurd hrun hrun'

/-- **A loop with a budget for each pass ends**, before the budget is used up. -/
theorem Pays.ends (h : L.Pays (fun _ => 1) inv budget) (hs : inv s) (hn : L.after s n = .ok t) (hle : budget s ≤ n) :
    ¬ L.running t := by
  intro hrun
  obtain ⟨hinv, hcost⟩ := h.after_ok hs hn
  rw [cost_one hn hrun] at hcost
  have := h.le t hinv hrun
  omega

theorem after_error {m : ℕ} (h : L.after s n = .error e) (hle : n ≤ m) : L.after s m = .error e := by
  induction m, hle using Nat.le_induction with
  | base => exact h
  | succ m _ ih =>
    rw [after, ih]
    rfl

theorem after_ended {m : ℕ} (h : L.after s n = .ok t) (hrun : ¬ L.running t) (hle : n ≤ m) : L.after s m = .ok t := by
  induction m, hle using Nat.le_induction with
  | base => exact h
  | succ m _ ih => rw [after_succ ih, if_neg hrun]

theorem exists_pass (h : L.after s n = .error e) : ∃ k t, L.after s k = .ok t ∧ L.running t ∧ L.body k t = .error e := by
  induction n with
  | zero => cases h
  | succ n ih =>
    rcases hn : L.after s n with e' | t
    · rw [after, hn] at h
      obtain rfl := Except.error.inj h
      exact ih hn
    · rw [after_succ hn] at h
      by_cases hrun : L.running t
      · rw [if_pos hrun] at h
        exact ⟨n, t, hn, hrun, h⟩
      · rw [if_neg hrun] at h
        cases h

theorem exists_after (hbody : ∀ n t, inv t → L.running t → ∃ u, L.body n t = .ok u ∧ inv u) (hs : inv s) (n : ℕ) :
    ∃ t, L.after s n = .ok t ∧ inv t := by
  induction n with
  | zero => exact ⟨s, rfl, hs⟩
  | succ n ih =>
    obtain ⟨t, ht, hinv⟩ := ih
    rw [after_succ ht]
    by_cases hrun : L.running t
    · rw [if_pos hrun]
      exact hbody n t hinv hrun
    · rw [if_neg hrun]
      exact ⟨t, rfl, hinv⟩

end WhileLoop

end Opd.Lib

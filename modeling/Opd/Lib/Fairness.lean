import Mathlib.Data.Nat.Find
import Opd.Lib.System

/-!
# Infinite runs

An infinite run of a transition system takes a step at each time, or none. Progress is
stated of the runs that are fair to some labels: what is enabled is taken in the end.

* `Run.reach`: the states of a run are reachable.
* `Run.stays`: what every step keeps holds from then on.
* `Run.first`: up to the first step with some label a condition holds that all other steps keep.
-/

namespace Opd.Lib.System

variable {σ α : Type*} {S : System σ α}

/-- An infinite run. At the times without a label the state stays. -/
structure Run (S : System σ α) where
  state : ℕ → σ
  label : ℕ → Option α
  init : S.init (state 0)
  next : ∀ n, (∃ a, label n = some a ∧ S.step (state n) a (state (n + 1))) ∨
    label n = none ∧ state (n + 1) = state n

namespace Run

variable (r : Run S)

theorem step_of_label {n : ℕ} {a : α} (h : r.label n = some a) : S.step (r.state n) a (r.state (n + 1)) := by
  rcases r.next n with ⟨b, hb, hstep⟩ | ⟨hnone, -⟩
  · obtain rfl : a = b := by rw [h] at hb; exact Option.some.inj hb
    exact hstep
  · rw [h] at hnone
    cases hnone

theorem reach (n : ℕ) : S.Reach (r.state n) := by
  induction n with
  | zero => exact .init r.init
  | succ n ih =>
    rcases r.next n with ⟨a, -, hstep⟩ | ⟨-, hsame⟩
    · exact .step ih hstep
    · rw [hsame]
      exact ih

/-- **What every step keeps**, apart from steps with a label that the run does not take
from time `n` on, holds from `n` on. -/
theorem stays {P : σ → Prop} (avoid : α → Prop) {n : ℕ} (hP : P (r.state n))
    (hkeep : ∀ s a s', S.Reach s → P s → ¬ avoid a → S.step s a s' → P s')
    {m : ℕ} (hm : n ≤ m) (havoid : ∀ k a, n ≤ k → k < m → r.label k = some a → ¬ avoid a) : P (r.state m) := by
  induction m with
  | zero =>
    obtain rfl : n = 0 := by omega
    exact hP
  | succ m ih =>
    rcases Nat.lt_or_ge m n with hlt | hle
    · obtain rfl : n = m + 1 := by omega
      exact hP
    have hprev := ih hle fun k a hk hkm => havoid k a hk (by omega)
    rcases r.next m with ⟨a, ha, hstep⟩ | ⟨-, hsame⟩
    · exact hkeep _ a _ (r.reach m) hprev (havoid m a hle (by omega) ha) hstep
    · rw [hsame]
      exact hprev

/-- **The first step with label `a`** from time `n` on finds what all other steps keep. -/
theorem first {P : σ → Prop} {a : α} {n : ℕ} (hP : P (r.state n))
    (hkeep : ∀ s b s', S.Reach s → P s → b ≠ a → S.step s b s' → P s')
    (htaken : ∃ m, n ≤ m ∧ r.label m = some a) :
    ∃ m, n ≤ m ∧ r.label m = some a ∧ P (r.state m) := by
  classical
  have hm := Nat.find_spec htaken
  refine ⟨Nat.find htaken, hm.1, hm.2, ?_⟩
  refine r.stays (· = a) hP hkeep hm.1 ?_
  rintro k b hk hlt hb rfl
  exact Nat.find_min htaken hlt ⟨hk, hb⟩

end Run

end Opd.Lib.System

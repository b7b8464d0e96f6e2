import Mathlib.Algebra.Order.BigOperators.Group.Finset
import Mathlib.Logic.Relation
import Mathlib.Order.WellFounded

/-!
# Labelled transition systems

Two-process protocols, servers and queues are modelled as labelled transition
systems: states, initial states and one relation for all atomic steps.

* `Reach.induct`: an invariant holds initially and every step from a reachable
  state keeps it.
* `ofFn`, `reach_of_run`: the system of a step function, and the states its runs reach.
* `restrict`: the runs all of whose steps meet a condition.
* `endsIn_of_measure`: if a measure drops at every step and every reachable state
  that is not final has a step, then every run ends in a final state.
* `EndsIn.exists_end`: such a system does reach a final state.
* `sum_update_lt`: a step of one of several processes.
-/

namespace Opd.Lib

/-- A labelled transition system over states `σ` and step labels `α`. -/
structure System (σ α : Type*) where
  init : σ → Prop
  step : σ → α → σ → Prop

namespace System

variable {σ α : Type*} {S : System σ α}

inductive Reach (S : System σ α) : σ → Prop
  | init {s : σ} : S.init s → Reach S s
  | step {s s' : σ} {a : α} : Reach S s → S.step s a s' → Reach S s'

/-- **The invariant rule.** A step may use that its source is reachable. -/
theorem Reach.induct {P : σ → Prop} (h0 : ∀ s, S.init s → P s)
    (hs : ∀ s a s', S.Reach s → P s → S.step s a s' → P s') {s : σ} (h : S.Reach s) : P s := by
  induction h with
  | init hi => exact h0 _ hi
  | step hr hst ih => exact hs _ _ _ hr ih hst

/-- The system with only the steps that meet `C`. Its runs are the runs of `S`
all of whose steps meet `C`. -/
def restrict (S : System σ α) (C : σ → α → Prop) : System σ α where
  init := S.init
  step := fun s a s' => S.step s a s' ∧ C s a

theorem reach_of_restrict {C : σ → α → Prop} {s : σ} (h : (S.restrict C).Reach s) : S.Reach s := by
  induction h with
  | init hi => exact .init hi
  | step _ hst ih => exact .step ih hst.1

theorem reach_restrict_mono {C D : σ → α → Prop} (hCD : ∀ s a, C s a → D s a) {s : σ}
    (h : (S.restrict C).Reach s) : (S.restrict D).Reach s := by
  induction h with
  | init hi => exact .init hi
  | step _ hst ih => exact .step ih ⟨hst.1, hCD _ _ hst.2⟩

/-- The system of a step function: a label that returns `none` is not enabled. -/
def ofFn (init : σ → Prop) (f : σ → α → Option σ) : System σ α where
  init := init
  step := fun s a s' => f s a = some s'

/-- The state after a list of labels. -/
def runFn (f : σ → α → Option σ) : σ → List α → Option σ
  | s, [] => some s
  | s, a :: as => (f s a).bind fun s' => runFn f s' as

theorem reach_of_run {init : σ → Prop} {f : σ → α → Option σ} {s s' : σ} {as : List α}
    (hs : (ofFn init f).Reach s) (h : runFn f s as = some s') : (ofFn init f).Reach s' := by
  induction as generalizing s with
  | nil =>
    obtain rfl : s = s' := Option.some.inj h
    exact hs
  | cons a as ih =>
    rw [runFn, Option.bind_eq_some_iff] at h
    obtain ⟨t, ht, hrest⟩ := h
    exact ih (.step hs ht) hrest

theorem reach_restrict_of_run {init : σ → Prop} {f : σ → α → Option σ} {C : σ → α → Prop}
    {c : σ → α → Bool} (hc : ∀ s a, c s a = true → C s a) {s s' : σ} {as : List α}
    (hs : ((ofFn init f).restrict C).Reach s)
    (h : runFn (fun s a => if c s a then f s a else none) s as = some s') :
    ((ofFn init f).restrict C).Reach s' := by
  induction as generalizing s with
  | nil =>
    obtain rfl : s = s' := Option.some.inj h
    exact hs
  | cons a as ih =>
    rw [runFn, Option.bind_eq_some_iff] at h
    obtain ⟨t, ht, hrest⟩ := h
    split at ht
    · rename_i hpass
      exact ih (.step hs ⟨ht, hc s a hpass⟩) hrest
    · cases ht

/-- No step leaves `s`. -/
def Stuck (S : System σ α) (s : σ) : Prop := ∀ a s', ¬ S.step s a s'

/-- **Every run ends in a state of `Q`**: no run is infinite, and a run that cannot
be continued has reached `Q`. -/
def EndsIn (S : System σ α) (Q : σ → Prop) : Prop :=
  (∀ f : ℕ → σ, S.init (f 0) → ¬ ∀ n, ∃ a, S.step (f n) a (f (n + 1))) ∧
    ∀ s, S.Reach s → S.Stuck s → Q s

theorem reach_of_seq {f : ℕ → σ} (h0 : S.init (f 0)) (hs : ∀ n, ∃ a, S.step (f n) a (f (n + 1))) :
    ∀ n, S.Reach (f n) := by
  intro n
  induction n with
  | zero => exact .init h0
  | succ n ih => obtain ⟨a, ha⟩ := hs n; exact .step ih ha

/-- **Termination by a measure**, with progress from every state outside `Q`. -/
theorem endsIn_of_measure {Q : σ → Prop} (m : σ → ℕ)
    (hm : ∀ s a s', S.Reach s → S.step s a s' → m s' < m s)
    (hp : ∀ s, S.Reach s → ¬ Q s → ∃ a s', S.step s a s') : S.EndsIn Q := by
  refine ⟨fun f h0 hs => ?_, fun s hr hst => ?_⟩
  · have hr := reach_of_seq h0 hs
    have hlt : ∀ n, m (f (n + 1)) < m (f n) := fun n => by
      obtain ⟨a, ha⟩ := hs n
      exact hm _ _ _ (hr n) ha
    have hle : ∀ n, m (f n) + n ≤ m (f 0) := by
      intro n
      induction n with
      | zero => simp
      | succ n ih => have := hlt n; omega
    have := hle (m (f 0) + 1)
    omega
  · by_contra hq
    obtain ⟨a, s', h⟩ := hp s hr hq
    exact hst a s' h

theorem EndsIn.exists_end {Q : σ → Prop} (h : S.EndsIn Q) {s : σ} (hs : S.init s) :
    ∃ s', S.Reach s' ∧ Q s' := by
  classical
  by_contra hno
  have hstep : ∀ t : {t : σ // S.Reach t}, ∃ t' : {t : σ // S.Reach t}, ∃ a, S.step t.1 a t'.1 := by
    rintro ⟨t, ht⟩
    by_contra hst
    refine hno ⟨t, ht, h.2 t ht fun a t' hstep => hst ⟨⟨t', .step ht hstep⟩, a, hstep⟩⟩
  choose next hnext using hstep
  let f : ℕ → {t : σ // S.Reach t} := fun n => n.rec ⟨s, .init hs⟩ fun _ t => next t
  exact h.1 (fun n => (f n).1) hs fun n => hnext (f n)

theorem sum_update_lt {ι : Type*} [Fintype ι] [DecidableEq ι] (m : ι → σ → ℕ) {states : ι → σ} {i : ι} {s : σ}
    (h : m i s < m i (states i)) : ∑ j, m j (Function.update states i s j) < ∑ j, m j (states j) := by
  refine Finset.sum_lt_sum (fun j _ => ?_) ⟨i, Finset.mem_univ i, ?_⟩
  · by_cases hj : j = i
    · subst hj
      rw [Function.update_self]
      exact Nat.le_of_lt h
    · rw [Function.update_of_ne hj]
  · rw [Function.update_self]
    exact h

end System

end Opd.Lib

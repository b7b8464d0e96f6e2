import Mathlib.Data.List.Basic

/-!
# Collapsing runs

`squeeze p` keeps the first element of every maximal run of elements that satisfy
`p`, and every other element. `squeezeIdx` also returns the positions kept.

* `squeezeIdx_fst`: which positions are kept.
* `squeeze_active_iff`: when dropping the unflagged elements first does not change
  the result (`Harmless`).
-/

namespace Opd.Lib

variable {α : Type*} (p : α → Bool)

/-- Keep the first element of every run of `p`; `prev` says whether the element
before the list satisfies `p`. -/
def squeeze : Bool → List α → List α
  | _, [] => []
  | prev, x :: l => if p x && prev then squeeze prev l else x :: squeeze (p x) l

/-- `squeeze` with the positions kept, counted from `k`. -/
def squeezeIdx : Bool → ℕ → List α → List (ℕ × α)
  | _, _, [] => []
  | prev, k, x :: l =>
    if p x && prev then squeezeIdx prev (k + 1) l else (k, x) :: squeezeIdx (p x) (k + 1) l

/-- Position `i` is kept: it is not inside a run. -/
def keptAt (prev : Bool) (l : List α) (i : ℕ) : Bool :=
  !((l[i]?).any p && if i = 0 then prev else (l[i - 1]?).any p)

variable {p}

theorem keptAt_cons (prev : Bool) (x : α) (l : List α) (i : ℕ) :
    keptAt p prev (x :: l) (i + 1) = keptAt p (p x) l i := by
  unfold keptAt
  cases i with
  | zero => simp
  | succ i => simp

/-- **The positions kept**, in increasing order. -/
theorem squeezeIdx_fst (prev : Bool) (k : ℕ) (l : List α) :
    (squeezeIdx p prev k l).map Prod.fst =
      ((List.range l.length).filter (keptAt p prev l)).map (k + ·) := by
  induction l generalizing prev k with
  | nil => rfl
  | cons x l ih =>
    -- position 0, then the positions kept in the tail, one further
    have hrange : (List.range (x :: l).length).filter (keptAt p prev (x :: l)) =
        (if keptAt p prev (x :: l) 0 then [0] else []) ++
          ((List.range l.length).filter (keptAt p (p x) l)).map (· + 1) := by
      rw [List.length_cons, List.range_succ_eq_map, List.filter_cons, List.filter_map]
      have : (keptAt p prev (x :: l) ∘ Nat.succ) = keptAt p (p x) l :=
        funext fun i => keptAt_cons prev x l i
      rw [this]
      split <;> rfl
    have hshift : ∀ L : List ℕ, (L.map (· + 1)).map (k + ·) = L.map (k + 1 + ·) := by
      intro L
      rw [List.map_map]
      exact List.map_congr_left fun i _ => by simp only [Function.comp_apply]; omega
    rw [hrange, List.map_append, hshift]
    unfold squeezeIdx
    by_cases hx : (p x && prev) = true
    · have hp : p x = prev := by cases h1 : p x <;> cases h2 : prev <;> simp_all
      have h0 : keptAt p prev (x :: l) 0 = false := by simp [keptAt, hx]
      rw [if_pos hx, h0, ih, hp]
      rfl
    · have h0 : keptAt p prev (x :: l) 0 = true := by
        cases h1 : p x <;> cases h2 : prev <;> simp_all [keptAt]
      rw [if_neg hx, h0, List.map_cons, ih]
      rfl

theorem squeezeIdx_getElem (prev : Bool) (k : ℕ) (l : List α) :
    ∀ e ∈ squeezeIdx p prev k l, k ≤ e.1 ∧ l[e.1 - k]? = some e.2 := by
  induction l generalizing prev k with
  | nil => simp [squeezeIdx]
  | cons x l ih =>
    intro e he
    unfold squeezeIdx at he
    have hrec : ∀ b, e ∈ squeezeIdx p b (k + 1) l → k ≤ e.1 ∧ (x :: l)[e.1 - k]? = some e.2 := by
      intro b hb
      obtain ⟨h1, h2⟩ := ih b (k + 1) e hb
      refine ⟨by omega, ?_⟩
      rw [show e.1 - k = e.1 - (k + 1) + 1 by omega, List.getElem?_cons_succ]
      exact h2
    split at he
    · exact hrec _ he
    · rcases List.mem_cons.1 he with rfl | he
      · simp
      · exact hrec _ he

/-! ## Dropping the unflagged elements first -/

theorem countP_squeeze (prev : Bool) (l : List α) :
    (squeeze p prev l).countP (fun x => !p x) = l.countP (fun x => !p x) := by
  induction l generalizing prev with
  | nil => rfl
  | cons x l ih =>
    unfold squeeze
    split
    · rename_i h
      have hx : p x = true := by simp_all
      rw [ih, List.countP_cons_of_neg (by simp [hx])]
    · rw [List.countP_cons, List.countP_cons, ih]

def active (l : List (α × Bool)) : List α := (l.filter (·.2)).map Prod.fst

theorem active_cons_true (x : α) (l : List (α × Bool)) : active ((x, true) :: l) = x :: active l := rfl

theorem active_cons_false (x : α) (l : List (α × Bool)) : active ((x, false) :: l) = active l := rfl

theorem countP_active_le (q : α → Bool) (l : List (α × Bool)) :
    (active l).countP q ≤ (l.map Prod.fst).countP q :=
  ((List.filter_sublist).map Prod.fst).countP_le

/-- Every unflagged element satisfies `p`, and either follows an element that does
or comes right before a flagged element equal to it (with only unflagged ones in
between). -/
def Harmless (p : α → Bool) : Bool → List (α × Bool) → Prop
  | _, [] => True
  | prev, (x, b) :: l =>
    (b = true ∨ p x = true ∧ (prev = true ∨ (active l).head? = some x)) ∧ Harmless p (p x) l

section

variable {x : α} (l : List α)

theorem squeeze_in_run (h : p x = true) : squeeze p true (x :: l) = squeeze p true l := by
  simp [squeeze, h]

theorem squeeze_run_start (h : p x = true) : squeeze p false (x :: l) = x :: squeeze p true l := by
  simp [squeeze, h]

theorem squeeze_other (h : p x = false) (b : Bool) : squeeze p b (x :: l) = x :: squeeze p false l := by
  simp [squeeze, h]

end

theorem squeeze_cons_ne (l : List (α × Bool)) (u : List α) (b : Bool)
    (hu : u.countP (fun z => !p z) = 1 + (l.map Prod.fst).countP (fun z => !p z)) :
    u ≠ squeeze p b (active l) := by
  intro h
  have h1 := congrArg (List.countP fun z => !p z) h
  rw [countP_squeeze, hu] at h1
  have := countP_active_le (fun z => !p z) l
  omega

/-- The two statements that carry each other through the induction: both sides in
the same state, or the unflagged side one run start `x` ahead. -/
theorem squeeze_active_aux (l : List (α × Bool)) :
    (∀ b, squeeze p b (l.map Prod.fst) = squeeze p b (active l) ↔ Harmless p b l) ∧
      ∀ x, p x = true → (x :: squeeze p true (l.map Prod.fst) = squeeze p false (active l) ↔
        (active l).head? = some x ∧ Harmless p true l) := by
  induction l with
  | nil => simp [active, squeeze, Harmless]
  | cons e l ih =>
    obtain ⟨y, flag⟩ := e
    obtain ⟨ihA, ihB⟩ := ih
    cases hy : p y with
    -- `y` belongs to a run
    | true =>
      cases flag with
      | true =>
        simp only [active_cons_true, List.map_cons, Harmless, hy, true_or, true_and]
        refine ⟨fun b => ?_, fun x hx => ?_⟩
        · cases b with
          | true => rw [squeeze_in_run _ hy, squeeze_in_run _ hy, ihA]
          | false => rw [squeeze_run_start _ hy, squeeze_run_start _ hy, List.cons.injEq, ihA]; simp
        · rw [squeeze_in_run _ hy, squeeze_run_start _ hy, List.cons.injEq, ihA]
          simp [eq_comm]
      -- an unflagged run element: the active side does not see it
      | false =>
        simp only [active_cons_false, List.map_cons, Harmless, hy, Bool.false_eq_true, false_or,
          true_and, true_or]
        refine ⟨fun b => ?_, fun x hx => ?_⟩
        · cases b with
          | true => rw [squeeze_in_run _ hy, ihA]; simp
          | false => rw [squeeze_run_start _ hy, ihB y hy]; simp
        · rw [squeeze_in_run _ hy, ihB x hx]
    -- `y` ends the run on both sides
    | false =>
      cases flag with
      | true =>
        simp only [active_cons_true, List.map_cons, Harmless, hy, true_or, true_and]
        refine ⟨fun b => ?_, fun x hx => ?_⟩
        · rw [squeeze_other _ hy, squeeze_other _ hy, List.cons.injEq, ihA]; simp
        · have hxy : x ≠ y := by rintro rfl; simp_all
          rw [squeeze_other _ hy, squeeze_other _ hy]
          simp [hxy, Ne.symm hxy]
      -- an unflagged element that is no run element is lost: the counts differ
      | false =>
        simp only [active_cons_false, List.map_cons, Harmless, hy, Bool.false_eq_true, false_or,
          false_and, and_false, iff_false]
        refine ⟨fun b => ?_, fun x hx => ?_⟩
        · refine squeeze_cons_ne l _ b ?_
          rw [countP_squeeze, List.countP_cons_of_pos (by simp [hy])]
          omega
        · refine squeeze_cons_ne l _ false ?_
          rw [List.countP_cons_of_neg (by simp [hx]), countP_squeeze,
            List.countP_cons_of_pos (by simp [hy])]
          omega

/-- **When dropping the unflagged elements first makes no difference.** -/
theorem squeeze_active_iff (b : Bool) (l : List (α × Bool)) :
    squeeze p b (l.map Prod.fst) = squeeze p b (active l) ↔ Harmless p b l :=
  (squeeze_active_aux l).1 b

end Opd.Lib

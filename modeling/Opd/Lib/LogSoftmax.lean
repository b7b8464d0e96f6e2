import Mathlib.Algebra.Order.BigOperators.Group.List
import Mathlib.Analysis.SpecialFunctions.Log.Deriv
import Mathlib.Tactic.FieldSimp
import Mathlib.Tactic.Ring
import Mathlib.Topology.Algebra.Module.ModuleTopology

/-!
# The logarithm of the softmax

Of an exponential function and its inverse only a few laws are used.

* `logSoftmax_eq`: the logarithm of the softmax is the value less the `logsumexp`.
* `logsumexp_shift`: a common shift of the values shifts the `logsumexp`.
* `hasDerivAt_logsumexp`: its partial derivatives are the softmax.
-/

namespace Opd.Lib

/-- An exponential function and a logarithm. -/
structure ExpLog (K : Type) where
  exp : K → K
  log : K → K

namespace ExpLog

section Field

variable {K : Type} [Field K]

def sumExp (E : ExpLog K) (x : List K) : K := (x.map E.exp).sum

/-- `torch.logsumexp` -/
def logsumexp (E : ExpLog K) (x : List K) : K := E.log (E.sumExp x)

/-- `F.log_softmax` -/
def logSoftmax (E : ExpLog K) (x : List K) : List K := x.map fun a => E.log (E.exp a / E.sumExp x)

variable {E : ExpLog K}

theorem sumExp_cons (a : K) (x : List K) : E.sumExp (a :: x) = E.exp a + E.sumExp x := List.sum_cons

theorem sumExp_flatten (xs : List (List K)) : E.sumExp xs.flatten = (xs.map E.sumExp).sum := by
  unfold sumExp
  rw [List.map_flatten, List.sum_flatten, List.map_map]
  rfl

theorem sumExp_set {x : List K} {i : ℕ} {a : K} (h : x[i]? = some a) (v : K) :
    E.sumExp (x.set i v) = E.sumExp x - E.exp a + E.exp v := by
  induction x generalizing i with
  | nil => cases h
  | cons b x ih =>
    cases i with
    | zero =>
      obtain rfl := Option.some.inj h
      rw [List.set_cons_zero, sumExp_cons, sumExp_cons]
      ring
    | succ i =>
      rw [List.set_cons_succ, sumExp_cons, sumExp_cons, ih h]
      ring

variable [LinearOrder K]

/-- The two functions are inverse, and the first one turns sums into products and keeps the order. -/
structure Lawful (E : ExpLog K) : Prop where
  exp_pos : ∀ a, 0 < E.exp a
  exp_add : ∀ a b, E.exp (a + b) = E.exp a * E.exp b
  exp_strictMono : StrictMono E.exp
  log_exp : ∀ a, E.log (E.exp a) = a
  exp_log : ∀ b, 0 < b → E.exp (E.log b) = b

theorem sumExp_pos [IsStrictOrderedRing K] (hE : E.Lawful) {x : List K} (h : x ≠ []) : 0 < E.sumExp x := by
  refine List.sum_pos _ ?_ (by rwa [ne_eq, List.map_eq_nil_iff])
  intro b hb
  obtain ⟨a, -, rfl⟩ := List.mem_map.1 hb
  exact hE.exp_pos a

theorem exp_sub (hE : E.Lawful) (a b : K) : E.exp (a - b) = E.exp a / E.exp b := by
  rw [eq_div_iff (hE.exp_pos b).ne', ← hE.exp_add, sub_add_cancel]

theorem log_div (hE : E.Lawful) {a b : K} (ha : 0 < a) (hb : 0 < b) : E.log (a / b) = E.log a - E.log b := by
  rw [← hE.log_exp (E.log a - E.log b), exp_sub hE, hE.exp_log a ha, hE.exp_log b hb]

theorem logSoftmax_eq [IsStrictOrderedRing K] (hE : E.Lawful) (x : List K) :
    E.logSoftmax x = x.map fun a => a - E.logsumexp x := by
  refine List.map_congr_left fun a ha => ?_
  rw [log_div hE (hE.exp_pos a) (sumExp_pos hE (List.ne_nil_of_mem ha)), hE.log_exp, logsumexp]

theorem sumExp_shift (hE : E.Lawful) (x : List K) (m : K) :
    E.sumExp (x.map fun a => a - m) = E.sumExp x / E.exp m := by
  induction x with
  | nil => exact (zero_div _).symm
  | cons a x ih => rw [List.map_cons, sumExp_cons, sumExp_cons, ih, exp_sub hE, add_div]

theorem logsumexp_shift [IsStrictOrderedRing K] (hE : E.Lawful) {x : List K} (h : x ≠ []) (m : K) :
    E.log (E.sumExp x / E.exp m) = E.logsumexp x - m := by
  rw [log_div hE (sumExp_pos hE h) (hE.exp_pos m), hE.log_exp, logsumexp]

end Field

/-! ## Derivatives -/

section Real

variable {E : ExpLog ℝ}

theorem exp_eq (hE : E.Lawful) (hderiv : ∀ a, HasDerivAt E.exp (E.exp a) a) : E.exp = Real.exp := by
  have hzero : E.exp 0 = 1 := by
    have h := hE.exp_add 0 0
    rw [add_zero] at h
    exact (mul_eq_left₀ (hE.exp_pos 0).ne').1 h.symm
  have hquot : ∀ a, HasDerivAt (fun a => E.exp a * Real.exp (-a)) 0 a := by
    intro a
    have h := (hderiv a).mul ((Real.hasDerivAt_exp (-a)).comp a (hasDerivAt_neg a))
    refine h.congr_deriv ?_
    rw [Function.comp_apply]
    ring
  have hconst : ∀ a, E.exp a * Real.exp (-a) = E.exp 0 * Real.exp (-0) := fun a =>
    is_const_of_deriv_eq_zero (fun a => (hquot a).differentiableAt) (fun a => (hquot a).deriv) a 0
  funext a
  have h := hconst a
  rw [neg_zero, Real.exp_zero, mul_one, hzero, Real.exp_neg] at h
  field_simp at h
  linarith

theorem log_eq (hE : E.Lawful) (hderiv : ∀ a, HasDerivAt E.exp (E.exp a) a) {b : ℝ} (hb : 0 < b) :
    E.log b = Real.log b := by
  have h := hE.exp_log b hb
  rw [exp_eq hE hderiv] at h
  exact (Real.log_exp (E.log b)).symm.trans (congrArg Real.log h)

theorem lawful_real : (⟨Real.exp, Real.log⟩ : ExpLog ℝ).Lawful where
  exp_pos := Real.exp_pos
  exp_add := Real.exp_add
  exp_strictMono := Real.exp_strictMono
  log_exp := Real.log_exp
  exp_log := fun _ => Real.exp_log

/-- **The partial derivatives** of the `logsumexp` are the softmax. -/
theorem hasDerivAt_logsumexp (hE : E.Lawful) (hderiv : ∀ a, HasDerivAt E.exp (E.exp a) a) {x : List ℝ} {i : ℕ} {a : ℝ}
    (h : x[i]? = some a) : HasDerivAt (fun v => E.logsumexp (x.set i v)) (E.exp a / E.sumExp x) a := by
  have hne : ∀ v, x.set i v ≠ [] := by
    intro v hnil
    have hlen := congrArg List.length hnil
    rw [List.length_set, List.length_nil, List.length_eq_zero_iff] at hlen
    rw [hlen] at h
    cases h
  have hlog : (fun v => E.logsumexp (x.set i v)) = fun v => Real.log (E.sumExp x - E.exp a + E.exp v) := by
    funext v
    rw [logsumexp, log_eq hE hderiv (sumExp_pos hE (hne v)), sumExp_set h]
  have hsum : E.sumExp x - E.exp a + E.exp a = E.sumExp x := sub_add_cancel _ _
  have hx : x ≠ [] := by
    rintro rfl
    cases h
  have hinner : HasDerivAt (fun v => E.sumExp x - E.exp a + E.exp v) (E.exp a) a := (hderiv a).const_add _
  rw [hlog]
  have houter := hinner.log (by rw [hsum]; exact (sumExp_pos hE hx).ne')
  rwa [hsum] at houter

end Real

end ExpLog

end Opd.Lib

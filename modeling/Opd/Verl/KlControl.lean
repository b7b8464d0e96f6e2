import Mathlib.Algebra.Order.Field.Basic
import Mathlib.Algebra.Ring.Int.Defs
import Mathlib.Analysis.Complex.Exponential
import Mathlib.Tactic.Linarith
import Mathlib.Tactic.Positivity
import Opd.Verl.ValueLoss

/-!
# The KL penalty in the rewards

The coefficient of the penalty is that of a controller. The adaptive one changes it after each batch, by a
factor that depends on the KL divergence and on the number of rows.

* `coefficient_pos_iff`: the sizes of batches for which the coefficient stays positive.
* `penalized_le_scores`: no reward is raised in a run of such batches.
-/

namespace Opd.Verl.KlControl

variable {K : Type} [Field K] [LinearOrder K]

inductive ControllerType
  | fixed
  | adaptive
  | other

/-- `KLControlConfig` -/
structure KlCtrl (K : Type) where
  type : ControllerType
  klCoef : K
  horizon : ℤ
  targetKl : K

/-- `FixedKLController` and `AdaptiveKLController` -/
inductive Controller (K : Type)
  | fixed (value : K)
  | adaptive (value target : K) (horizon : ℤ)

def Controller.value : Controller K → K
  | .fixed value => value
  | .adaptive value _ _ => value

/-- `np.clip` and `torch.clamp` -/
def clip (x lower upper : K) : K := min (max x lower) upper

/-- The factor of the coefficient in `AdaptiveKLController.update`. -/
def mult (target : K) (horizon : ℤ) (currentKl : K) (nSteps : ℕ) : K :=
  1 + clip (currentKl / target - 1) (-((5 : ℕ) : K)⁻¹) ((5 : ℕ) : K)⁻¹ * nSteps / horizon

/-- `update`. The adaptive controller divides by its target. -/
def Controller.update (currentKl : K) (nSteps : ℕ) : Controller K → Option (Controller K)
  | .fixed value => some (.fixed value)
  | .adaptive value target horizon =>
    if target = 0 then none else some (.adaptive (value * mult target horizon currentKl nSteps) target horizon)

/-- `get_kl_controller` -/
def getKlController (klCtrl : KlCtrl K) : Option (Controller K) :=
  match klCtrl.type with
  | .fixed => some (.fixed klCtrl.klCoef)
  | .adaptive =>
    if 0 < klCtrl.horizon then some (.adaptive klCtrl.klCoef klCtrl.targetKl klCtrl.horizon) else none
  | .other => none

/-- The updates after batches, with the KL divergence and the number of rows of each. -/
def updates (c : Controller K) (batches : List (K × ℕ)) : Option (Controller K) :=
  batches.foldlM (fun c b => c.update b.1 b.2) c

/-! ## The penalty -/

/-- The names of `kl_penalty_forward`: `k1`, `abs`, `k2` and `k3`. -/
inductive KlPenalty
  | kl
  | abs
  | mse
  | lowVarKl

structure KlToken (K : Type) where
  tokenLevelScore : K
  oldLogProb : K
  refLogProb : K

/-- `kl_penalty_forward` -/
def klPenaltyForward (exp : K → K) (logprob refLogprob : K) : KlPenalty → K
  | .kl => logprob - refLogprob
  | .abs => |logprob - refLogprob|
  | .mse => ((2 : ℕ) : K)⁻¹ * (logprob - refLogprob) ^ 2
  | .lowVarKl =>
    let kl := clip (refLogprob - logprob) (-((20 : ℕ) : K)) ((20 : ℕ) : K)
    clip (exp kl - kl - 1) (-((10 : ℕ) : K)) ((10 : ℕ) : K)

/-- `kl_penalty`: its value, with a `+` behind the name or without. -/
def klPenalty (exp : K → K) (logprob refLogprob : K) (penalty : KlPenalty) (straightThrough : Bool) : K :=
  let forwardScore := klPenaltyForward exp logprob refLogprob penalty
  let backwardScore := ((2 : ℕ) : K)⁻¹ * (logprob - refLogprob) ^ 2
  if straightThrough then backwardScore - backwardScore + forwardScore else forwardScore

/-- A batch has a row. -/
structure KlBatch (K : Type) extends LossMat (KlToken K) where
  rows_ne : rows ≠ []

section Run

variable (exp : K → K) (penalty : KlPenalty) (straightThrough : Bool)

/-- `kld` -/
def kld (row : List (KlToken K × Bool)) : List (K × Bool) :=
  row.map fun p => (klPenalty exp p.1.oldLogProb p.1.refLogProb penalty straightThrough * mask01 p.2, p.2)

/-- `apply_kl_penalty`: the rewards, and the controller afterwards. -/
def applyKlPenalty (c : Controller K) (data : KlBatch K) : Option (List (List K) × Controller K) := do
  let rewards := data.rows.map fun row =>
    List.zipWith (fun p kl => p.1.tokenLevelScore - c.value * kl.1) row (kld exp penalty straightThrough row)
  let currentKl := (data.rows.map fun row => maskedMean (kld exp penalty straightThrough row)).sum / data.rows.length
  let c' ← c.update currentKl data.rows.length
  return (rewards, c')

def penalized (c : Controller K) : List (KlBatch K) → Option (List (List (List K)) × Controller K)
  | [] => some ([], c)
  | data :: batches => do
    let (rewards, c') ← applyKlPenalty exp penalty straightThrough c data
    let (others, c'') ← penalized c' batches
    return (rewards :: others, c'')

end Run

/-! ## The coefficient -/

section Coefficient

variable [IsStrictOrderedRing K]

def Controller.Positive : Controller K → Prop
  | .fixed value => 0 < value
  | .adaptive value target horizon => 0 < value ∧ target ≠ 0 ∧ 0 < horizon

/-- A batch of this size leaves a coefficient positive. -/
def Controller.Allows (nSteps : ℕ) : Controller K → Prop
  | .fixed _ => True
  | .adaptive _ _ horizon => nSteps < 5 * horizon

theorem mult_pos {target : K} {horizon : ℤ} {nSteps : ℕ} (hhorizon : 0 < horizon) (h : nSteps < 5 * horizon) (kl : K) :
    0 < mult target horizon kl nSteps := by
  have hh : (0 : K) < horizon := by exact_mod_cast hhorizon
  have hn : (nSteps : K) < ((5 : ℕ) : K) * horizon := by exact_mod_cast h
  have hclip : -((5 : ℕ) : K)⁻¹ ≤ clip (kl / target - 1) (-((5 : ℕ) : K)⁻¹) ((5 : ℕ) : K)⁻¹ :=
    le_min (le_max_right _ _) (neg_le_self (by positivity))
  have hle := mul_le_mul_of_nonneg_right hclip (Nat.cast_nonneg' (α := K) nSteps)
  have hlt : ((5 : ℕ) : K)⁻¹ * nSteps < horizon := (inv_mul_lt_iff₀ (by positivity)).2 hn
  have hratio := (lt_div_iff₀ hh).2 ((show -1 * (horizon : K) < -((5 : ℕ) : K)⁻¹ * nSteps by linarith).trans_le hle)
  unfold mult
  linarith

theorem mult_nonpos {target : K} {horizon : ℤ} {nSteps : ℕ} (hhorizon : 0 < horizon) (h : 5 * horizon ≤ nSteps) :
    mult target horizon 0 nSteps ≤ 0 := by
  have hh : (0 : K) < horizon := by exact_mod_cast hhorizon
  have hn : ((5 : ℕ) : K) * horizon ≤ nSteps := by exact_mod_cast h
  have hinv : ((5 : ℕ) : K)⁻¹ ≤ 1 := inv_le_one_of_one_le₀ (by norm_num)
  have hfive : (0 : K) < ((5 : ℕ) : K)⁻¹ := by positivity
  unfold mult clip
  rw [zero_div, zero_sub, max_eq_right (neg_le_neg hinv), min_eq_left (by linarith), neg_mul, neg_div,
    add_neg_nonpos_iff, one_le_div hh]
  exact (le_inv_mul_iff₀ (by positivity)).2 hn

/-- **One update** of a positive coefficient, after a batch that is not too large. -/
theorem Controller.Positive.update {c : Controller K} (h : c.Positive) (kl : K) {nSteps : ℕ} (hn : c.Allows nSteps) :
    ∃ c', c.update kl nSteps = some c' ∧ c'.Positive ∧ ∀ m, c.Allows m → c'.Allows m := by
  cases c with
  | fixed value => exact ⟨_, rfl, h, fun _ hm => hm⟩
  | adaptive value target horizon =>
    obtain ⟨hvalue, htarget, hhorizon⟩ := h
    exact ⟨_, if_neg htarget, ⟨mul_pos hvalue (mult_pos hhorizon hn kl), htarget, hhorizon⟩, fun _ hm => hm⟩

omit [IsStrictOrderedRing K] in
theorem Controller.Positive.value_pos {c : Controller K} (h : c.Positive) : 0 < c.value := by
  cases c with
  | fixed value => exact h
  | adaptive value target horizon => exact h.1

theorem Controller.Positive.updates {c : Controller K} (h : c.Positive) {batches : List (K × ℕ)}
    (hn : ∀ b ∈ batches, c.Allows b.2) : ∃ c', KlControl.updates c batches = some c' ∧ c'.Positive := by
  induction batches generalizing c with
  | nil => exact ⟨c, rfl, h⟩
  | cons b batches ih =>
    obtain ⟨c', hupdate, hpositive, hallows⟩ := h.update b.1 (hn b List.mem_cons_self)
    obtain ⟨c'', hrest, hlast⟩ := ih hpositive fun b' hb' => hallows _ (hn b' (List.mem_cons_of_mem _ hb'))
    refine ⟨c'', ?_, hlast⟩
    unfold KlControl.updates at hrest ⊢
    rw [List.foldlM_cons, hupdate]
    exact hrest

theorem updates_target {value target : K} {horizon : ℤ} (htarget : target ≠ 0) (nSteps : List ℕ) :
    updates (.adaptive value target horizon) (nSteps.map fun n => (target, n)) =
      some (.adaptive value target horizon) := by
  have hfive : (0 : K) < ((5 : ℕ) : K)⁻¹ := by positivity
  have hone : ∀ n, mult target horizon target n = 1 := by
    intro n
    unfold mult clip
    rw [div_self htarget, sub_self, max_eq_left (by linarith), min_eq_left hfive.le, zero_mul, zero_div, add_zero]
  induction nSteps with
  | nil => rfl
  | cons n nSteps ih =>
    unfold updates at ih ⊢
    rw [List.map_cons, List.foldlM_cons, Controller.update, if_neg htarget, hone, mul_one]
    exact ih

/-- **The coefficient stays positive**, whatever the KL divergences are, if and only if each batch has less rows than
five times the horizon. That of the fixed controller always does. -/
theorem coefficient_pos_iff (klCtrl : KlCtrl K) (c : Controller K) (hget : getKlController klCtrl = some c)
    (hcoef : 0 < klCtrl.klCoef) (htarget : klCtrl.targetKl ≠ 0) (sizes : List ℕ) :
    (∀ batches : List (K × ℕ), batches.map Prod.snd = sizes → ∃ c', updates c batches = some c' ∧ 0 < c'.value) ↔
      (klCtrl.type = .adaptive → ∀ n ∈ sizes, (n : ℤ) < 5 * klCtrl.horizon) := by
  unfold getKlController at hget
  cases htype : klCtrl.type with
  | fixed =>
    rw [htype] at hget
    obtain rfl := Option.some.inj hget
    refine ⟨fun _ hadaptive => ControllerType.noConfusion hadaptive, fun _ batches _ => ?_⟩
    obtain ⟨c', hupdates, hpositive⟩ := @Controller.Positive.updates _ _ _ _ (.fixed klCtrl.klCoef) hcoef batches
      fun _ _ => trivial
    exact ⟨c', hupdates, hpositive.value_pos⟩
  | other => rw [htype] at hget; cases hget
  | adaptive =>
    rw [htype] at hget
    by_cases hhorizon : 0 < klCtrl.horizon
    · obtain rfl := Option.some.inj ((if_pos hhorizon).symm.trans hget)
      constructor
      · intro hall _ n hn
        by_contra hlarge
        -- only the KL divergence of one large batch is not the target
        obtain ⟨before, after, rfl⟩ := List.append_of_mem hn
        obtain ⟨c', hupdates, hvalue⟩ := hall (before.map (fun m => (klCtrl.targetKl, m)) ++ (0, n) ::
          after.map fun m => (klCtrl.targetKl, m)) (by simp [Function.comp_def])
        unfold updates at hupdates
        rw [List.foldlM_append, ← updates, updates_target htarget, Option.bind_eq_bind, Option.bind_some,
          List.foldlM_cons, Controller.update, if_neg htarget, Option.bind_eq_bind, Option.bind_some, ← updates,
          updates_target htarget] at hupdates
        obtain rfl := Option.some.inj hupdates
        exact (mult_nonpos hhorizon (not_lt.1 hlarge)).not_gt ((mul_pos_iff_of_pos_left hcoef).1 hvalue)
      · rintro hsmall batches rfl
        obtain ⟨c', hupdates, hpositive⟩ := @Controller.Positive.updates _ _ _ _
          (.adaptive klCtrl.klCoef klCtrl.targetKl klCtrl.horizon) ⟨hcoef, htarget, hhorizon⟩ batches
          fun b hb => hsmall rfl b.2 (List.mem_map_of_mem hb)
        exact ⟨c', hupdates, hpositive.value_pos⟩
    · cases (if_neg hhorizon).symm.trans hget

theorem coefficient_pos_iff_oneBatch :
    (∀ batches : List (ℚ × ℕ), batches.map Prod.snd = [8] →
      ∃ c', updates (.adaptive 1 1 2) batches = some c' ∧ 0 < c'.value) ↔
        (ControllerType.adaptive = .adaptive → ∀ n ∈ ([8] : List ℕ), (n : ℤ) < 5 * 2) :=
  coefficient_pos_iff (⟨.adaptive, 1, 2, 1⟩ : KlCtrl ℚ) _ rfl one_pos one_ne_zero [8]

/-! ## The rewards -/

variable {exp : K → K} {penalty : KlPenalty} (straightThrough : Bool)

theorem klPenalty_nonneg (hexp : ∀ x, x + 1 ≤ exp x) (hpenalty : penalty ≠ .kl) (logprob refLogprob : K) :
    0 ≤ klPenalty exp logprob refLogprob penalty straightThrough := by
  have hforward : 0 ≤ klPenaltyForward exp logprob refLogprob penalty := by
    cases penalty with
    | kl => exact absurd rfl hpenalty
    | abs => exact abs_nonneg _
    | mse => exact mul_nonneg (by positivity) (sq_nonneg _)
    | lowVarKl =>
      have hkl := hexp (clip (refLogprob - logprob) (-((20 : ℕ) : K)) ((20 : ℕ) : K))
      exact le_min (le_max_of_le_left (by linarith)) (Nat.cast_nonneg' 10)
  unfold klPenalty
  cases straightThrough with
  | false => exact hforward
  | true => simpa using hforward

/-- The rewards of a row are its scores less what is not negative, and nothing at the masked positions. -/
def AtMostScores (row : List (KlToken K × Bool)) (rewards : List K) : Prop :=
  List.Forall₂ (fun p reward => reward ≤ p.1.tokenLevelScore ∧ (p.2 = false → reward = p.1.tokenLevelScore)) row rewards

theorem atMostScores (hexp : ∀ x, x + 1 ≤ exp x) (hpenalty : penalty ≠ .kl) {beta : K} (hbeta : 0 < beta)
    (row : List (KlToken K × Bool)) : AtMostScores row (List.zipWith (fun p kl => p.1.tokenLevelScore - beta * kl.1) row
      (kld exp penalty straightThrough row)) := by
  induction row with
  | nil => exact .nil
  | cons p row ih =>
    obtain ⟨t, valid⟩ := p
    refine .cons ?_ ih
    cases valid with
    | false => simp [mask01]
    | true =>
      refine ⟨sub_le_self _ (mul_nonneg hbeta.le ?_), fun h => Bool.noConfusion h⟩
      exact mul_nonneg (klPenalty_nonneg straightThrough hexp hpenalty _ _) zero_le_one

theorem applyKlPenalty_spec (hexp : ∀ x, x + 1 ≤ exp x) (hpenalty : penalty ≠ .kl) {c : Controller K} (hc : c.Positive)
    (data : KlBatch K) (hsize : c.Allows data.rows.length) :
    ∃ rewards c', applyKlPenalty exp penalty straightThrough c data = some (rewards, c') ∧ c'.Positive ∧
      (∀ m, c.Allows m → c'.Allows m) ∧ List.Forall₂ AtMostScores data.rows rewards := by
  obtain ⟨c', hupdate, hpositive, hallows⟩ := hc.update _ hsize
  refine ⟨_, c', ?_, hpositive, hallows, List.forall₂_map_right_iff.2 (List.forall₂_same.2 fun row _ =>
    atMostScores straightThrough hexp hpenalty hc.value_pos row)⟩
  unfold applyKlPenalty
  dsimp only
  rw [hupdate]
  rfl

/-- **No reward is raised in a run** with a penalty that is not negative and a coefficient that stays positive: each
reward is at most the score, and it is the score where the mask is 0. -/
theorem penalized_le_scores (hexp : ∀ x, x + 1 ≤ exp x) (hpenalty : penalty ≠ .kl) (c : Controller K) (hc : c.Positive)
    (batches : List (KlBatch K)) (hsize : ∀ data ∈ batches, c.Allows data.rows.length) :
    ∃ rewards c', penalized exp penalty straightThrough c batches = some (rewards, c') ∧ c'.Positive ∧
      List.Forall₂ (fun data => List.Forall₂ AtMostScores data.rows) batches rewards := by
  induction batches generalizing c with
  | nil => exact ⟨[], c, rfl, hc, .nil⟩
  | cons data batches ih =>
    obtain ⟨first, c', hfirst, hpositive, hallows, hscores⟩ := applyKlPenalty_spec straightThrough hexp hpenalty hc
      data (hsize data List.mem_cons_self)
    obtain ⟨rewards, c'', hrest, hlast, hothers⟩ := ih c' hpositive fun data' hdata =>
      hallows _ (hsize data' (List.mem_cons_of_mem _ hdata))
    refine ⟨first :: rewards, c'', ?_, hlast, .cons hscores hothers⟩
    rw [penalized, hfirst, Option.bind_eq_bind, Option.bind_some]
    dsimp only
    rw [hrest]
    rfl

def oneToken : KlBatch ℝ where
  width := 1
  rows := [[(⟨1, 0, -1⟩, true)]]
  row_length := List.forall_mem_singleton.2 rfl
  rows_ne := List.cons_ne_nil _ _

theorem penalized_le_scores_oneToken :
    ∃ rewards c', penalized Real.exp .lowVarKl true (.adaptive 1 1 2) [oneToken] = some (rewards, c') ∧ c'.Positive ∧
      List.Forall₂ (fun data => List.Forall₂ AtMostScores data.rows) [oneToken] rewards :=
  penalized_le_scores true Real.add_one_le_exp (fun h => KlPenalty.noConfusion h) (.adaptive 1 1 2)
    ⟨one_pos, one_ne_zero, by decide⟩ [oneToken] (List.forall_mem_singleton.2 (show ((1 : ℕ) : ℤ) < 5 * 2 by decide))

end Coefficient

end Opd.Verl.KlControl

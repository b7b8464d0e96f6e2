import Mathlib.Algebra.BigOperators.Field
import Mathlib.Algebra.Order.Field.Basic
import Mathlib.Algebra.Order.BigOperators.Group.Finset
import Mathlib.Analysis.SpecialFunctions.Log.Basic
import Mathlib.Tactic.FieldSimp
import Mathlib.Tactic.Ring

/-!
# The distillation loss of `OPDLearner.compute_loss` over a group of ranks

Every rank turns its own rollout into a masked sum of token losses. The
normaliser is the number of response tokens of **all** ranks, an `all_reduce`;
the metrics are logged with `sync_dist=True`, one collective each. A rank whose
response mask is empty returns before any of them.

* `computeLoss_collectives`: the collectives of a rank depend only on whether its
  response mask is empty.
* `meanLoss_eq`: the losses average to the global token mean, early return or not.
* `collectives_and_mean_iff`: every rank issues the same collectives, and the mean
  loss is the global token mean, **iff** all ranks have an empty response mask or
  none has.
-/

namespace Opd.Clight

open Finset

/-- The arithmetic `compute_forward_kl_topk_loss` rests on, over a vocabulary of
`V` tokens. -/
structure Arith (K : Type*) (V : ℕ) where
  exp : K → K
  logSoftmax : (Fin V → K) → Fin V → K
  /-- `torch.topk(·, k).indices` -/
  topk : (Fin V → K) → ℕ → List (Fin V)

/-- The `method` options the loss reads. -/
structure OpdArgs (K : Type*) where
  opdAlpha : K
  opdTemperature : K
  opdTopk : ℕ
  opdLogProbMinClamp : Option K
  opdLossMaxClamp : Option K

/-- One shifted position of a row: the student's logits, the teacher's top-k
entry, and the response-mask bit. -/
structure Position (K : Type*) (V : ℕ) where
  studentLogits : Fin V → K
  teacherTopk : List (Fin V × K)
  mask : Bool

/-- What one rank brings to `compute_loss`: the positions of its rows, and the loss
of the plain forward pass that the early return multiplies by zero. -/
structure Rank (K : Type*) (V : ℕ) where
  positions : List (Position K V)
  sftLoss : K

/-- A collective operation of the process group: the `all_reduce` of the token
count, or the reduction of one metric logged with `sync_dist=True`. -/
inductive Collective
  | allReduce
  | logMetric (name : String)
  deriving DecidableEq, Repr

variable {K : Type*} [Field K] [LinearOrder K] {V : ℕ}

/-- `clamp_min` with an optional bound. -/
def clampMin (lo : Option K) (x : K) : K := lo.elim x (max x)

/-- `clamp(min=-c, max=c)` with an optional `c`. -/
def clampAbs (c : Option K) (x : K) : K := c.elim x fun c => min (max x (-c)) c

/-- `student_logits / opd_temperature`, through `log_softmax`. -/
def studentLogps (A : Arith K V) (a : OpdArgs K) (p : Position K V) : Fin V → K :=
  A.logSoftmax fun v => p.studentLogits v / a.opdTemperature

/-- The token loss of `compute_forward_kl_topk_loss`: the forward KL over the
teacher's top-k, clamped. -/
def tokenLoss (A : Arith K V) (a : OpdArgs K) (p : Position K V) : K :=
  let kl := (p.teacherTopk.map fun e =>
    let student := clampMin a.opdLogProbMinClamp (studentLogps A a p e.1)
    let teacher := clampMin a.opdLogProbMinClamp e.2
    A.exp teacher * (teacher - student)).sum
  clampAbs a.opdLossMaxClamp (clampMin (some 0) kl)

def studentMass (A : Arith K V) (a : OpdArgs K) (p : Position K V) : K :=
  (p.teacherTopk.map fun e => A.exp (studentLogps A a p e.1)).sum

def teacherMass (A : Arith K V) (p : Position K V) : K := (p.teacherTopk.map fun e => A.exp e.2).sum

def overlapCount (A : Arith K V) (a : OpdArgs K) (p : Position K V) : ℕ :=
  (p.teacherTopk.filter fun e =>
    (A.topk (studentLogps A a p) p.teacherTopk.length).contains e.1).length

/-- `(values * response_mask).sum()`. -/
def maskSum (r : Rank K V) (f : Position K V → K) : K :=
  (r.positions.map fun p => f p * if p.mask then 1 else 0).sum

/-- `response_mask.sum()`. -/
def responseTokens (r : Rank K V) : ℕ := r.positions.countP (·.mask)

/-- `masked_mean`. -/
def maskedMean (r : Rank K V) (f : Position K V → K) : K :=
  maskSum r f / max (responseTokens r : K) 1

/-- What a rank does in `compute_loss`: the collectives it issues, the metrics it
logs, and the loss it returns. -/
structure LossRun (K : Type*) where
  collectives : List Collective
  metrics : List (String × K)
  loss : K

/-- The `loss` entry of `compute_forward_kl_topk_loss`. With a process group
(`world = some (W, den)`) the denominator is the all-reduced token count `den`. -/
def klTopkLoss (A : Arith K V) (a : OpdArgs K) (world : Option (ℕ × K)) (r : Rank K V) : K :=
  match world with
  | some (W, globalLossDen) => maskSum r (tokenLoss A a) * W / max globalLossDen 1
  | none => maskSum r (tokenLoss A a) / max (responseTokens r : K) 1

/-- `OPDLearner.compute_loss`, from the rollout's response mask on. -/
def computeLoss (A : Arith K V) (a : OpdArgs K) (world : Option (ℕ × K)) (r : Rank K V) : LossRun K :=
  if responseTokens r = 0 then
    -- the early return: no `all_reduce`, no metric
    { collectives := [], metrics := [], loss := r.sftLoss * 0 }
  else
    let distillLoss := klTopkLoss A a world r * a.opdTemperature ^ 2
    let metrics := [
      ("train/opd_loss", distillLoss),
      ("train/teacher_mass", maskedMean r (teacherMass A)),
      ("train/student_mass", maskedMean r (studentMass A a)),
      ("train/topk_overlap_ratio", maskedMean r fun p => (overlapCount A a p : K) / (a.opdTopk : K)),
      ("train/response_tokens_per_rank", (responseTokens r : K))]
    { collectives := (if world.isSome then [.allReduce] else []) ++ metrics.map fun m => .logMetric m.1
      metrics := metrics
      loss := a.opdAlpha * distillLoss }

/-- A training job: at least one rank, and a process group unless there is only
one. -/
structure Job (K : Type*) (V : ℕ) where
  last : ℕ
  rank : Fin (last + 1) → Rank K V
  distInitialized : Bool
  single : distInitialized = false → last = 0

namespace Job

/-- The result of the `all_reduce`: the token counts of all ranks. -/
def globalLossDen (j : Job K V) : K := ∑ i, (responseTokens (j.rank i) : K)

/-- What rank `i` does. -/
def run (A : Arith K V) (a : OpdArgs K) (j : Job K V) (i : Fin (j.last + 1)) : LossRun K :=
  computeLoss A a (if j.distInitialized then some (j.last + 1, j.globalLossDen) else none) (j.rank i)

def meanLoss (A : Arith K V) (a : OpdArgs K) (j : Job K V) : K :=
  (∑ i, (j.run A a i).loss) / (j.last + 1 : ℕ)

def totalTokens (j : Job K V) : ℕ := ∑ i, responseTokens (j.rank i)

/-- The masked token losses of all ranks, in the units of the returned loss. -/
def totalLoss (A : Arith K V) (a : OpdArgs K) (j : Job K V) : K :=
  a.opdAlpha * a.opdTemperature ^ 2 * ∑ i, maskSum (j.rank i) (tokenLoss A a)

end Job

/-! ## One rank -/

omit [LinearOrder K] in
theorem maskSum_of_empty {r : Rank K V} (h : responseTokens r = 0) (f : Position K V → K) :
    maskSum r f = 0 := by
  have hm : ∀ p ∈ r.positions, p.mask = false := by
    intro p hp
    have := List.countP_eq_zero.1 h p hp
    simpa using this
  unfold maskSum
  rw [List.map_congr_left (g := fun _ => (0 : K)) fun p hp => by simp [hm p hp]]
  simp

/-- **The collectives of a rank** depend on its rollout only through the early return. -/
theorem computeLoss_collectives (A : Arith K V) (a : OpdArgs K) (world : Option (ℕ × K)) (r : Rank K V) :
    (computeLoss A a world r).collectives =
      if responseTokens r = 0 then [] else
        (if world.isSome then [.allReduce] else []) ++
          [.logMetric "train/opd_loss", .logMetric "train/teacher_mass",
            .logMetric "train/student_mass", .logMetric "train/topk_overlap_ratio",
            .logMetric "train/response_tokens_per_rank"] := by
  unfold computeLoss
  split <;> rfl

/-- The returned loss, without the early return: a rank without response tokens
contributes nothing either way. -/
theorem computeLoss_loss (A : Arith K V) (a : OpdArgs K) (world : Option (ℕ × K)) (r : Rank K V) :
    (computeLoss A a world r).loss =
      a.opdAlpha * (klTopkLoss A a world r * a.opdTemperature ^ 2) := by
  unfold computeLoss
  split
  · rename_i h0
    have hk : klTopkLoss A a world r = 0 := by
      unfold klTopkLoss
      rw [maskSum_of_empty h0]
      split <;> simp
    simp [hk]
  · rfl

/-! ## The group -/

variable {A : Arith K V} {a : OpdArgs K}

theorem run_collectives_nil (j : Job K V) (i : Fin (j.last + 1)) :
    (j.run A a i).collectives = [] ↔ responseTokens (j.rank i) = 0 := by
  unfold Job.run
  rw [computeLoss_collectives]
  split <;> simp [*]

/-- **Same collectives iff the early return is unanimous.** -/
theorem collectives_eq_iff (j : Job K V) :
    (∀ i k, (j.run A a i).collectives = (j.run A a k).collectives) ↔
      (∀ i, responseTokens (j.rank i) = 0) ∨ ∀ i, responseTokens (j.rank i) ≠ 0 := by
  constructor
  · intro h
    by_cases h0 : responseTokens (j.rank 0) = 0
    · refine Or.inl fun i => ?_
      rw [← run_collectives_nil (A := A) (a := a), h i 0, run_collectives_nil]
      exact h0
    · refine Or.inr fun i hi => h0 ?_
      rw [← run_collectives_nil (A := A) (a := a), h 0 i, run_collectives_nil]
      exact hi
  · rintro (h | h) i k
    · rw [(run_collectives_nil j i).2 (h i), (run_collectives_nil j k).2 (h k)]
    · unfold Job.run
      rw [computeLoss_collectives, computeLoss_collectives, if_neg (h i), if_neg (h k)]

omit [LinearOrder K] in
theorem globalLossDen_eq (j : Job K V) : j.globalLossDen = (j.totalTokens : K) := by
  simp [Job.globalLossDen, Job.totalTokens]

/-- **The mean loss is the global token mean**, whatever the masks are. -/
theorem meanLoss_eq [IsStrictOrderedRing K] (j : Job K V) :
    j.meanLoss A a = j.totalLoss A a / max 1 (j.totalTokens : K) := by
  have hW : ((j.last + 1 : ℕ) : K) ≠ 0 := Nat.cast_ne_zero.2 (Nat.succ_ne_zero _)
  unfold Job.meanLoss Job.totalLoss Job.run
  simp only [computeLoss_loss]
  rw [← mul_sum, ← sum_mul]
  cases hd : j.distInitialized with
  | true =>
    simp only [if_true, klTopkLoss, globalLossDen_eq]
    rw [← sum_div, ← sum_mul, max_comm]
    have hm : max (1 : K) (j.totalTokens : K) ≠ 0 := (lt_of_lt_of_le one_pos (le_max_left _ _)).ne'
    field_simp
  | false =>
    -- one rank: its own token count is the total
    obtain ⟨last, rank, d, single⟩ := j
    obtain rfl : last = 0 := single hd
    simp only [klTopkLoss, Job.totalTokens, Bool.false_eq_true, if_false, Fin.sum_univ_succ,
      Fin.sum_univ_zero, add_zero, zero_add, Nat.cast_one, div_one, max_comm]
    ring

/-- **Collectives and mean loss of `compute_loss`.** All ranks issue the same
collectives and the mean of the returned losses is the global token mean, exactly
when the response mask is empty on all ranks or on none. -/
theorem collectives_and_mean_iff [IsStrictOrderedRing K] (A : Arith K V) (a : OpdArgs K) (j : Job K V) :
    ((∀ i k, (j.run A a i).collectives = (j.run A a k).collectives) ∧
        j.meanLoss A a = j.totalLoss A a / max 1 (j.totalTokens : K)) ↔
      (∀ i, responseTokens (j.rank i) = 0) ∨ ∀ i, responseTokens (j.rank i) ≠ 0 := by
  rw [← collectives_eq_iff (A := A) (a := a)]
  exact ⟨fun h => h.1, fun h => ⟨h, meanLoss_eq j⟩⟩

/-- The arithmetic of the real program, over `ℝ`; ties of `topk` are broken by index. -/
noncomputable def realArith (V : ℕ) : Arith ℝ V where
  exp := Real.exp
  logSoftmax := fun x v => x v - Real.log (∑ w, Real.exp (x w))
  topk := fun x k => ((List.finRange V).mergeSort fun v w => decide (x w ≤ x v)).take k

/-- Two ranks over a vocabulary of one token; only the second has a response token. -/
noncomputable def oneEmptyRank : Job ℝ 1 where
  last := 1
  rank := ![{ positions := [⟨0, [(0, 0)], false⟩], sftLoss := 0 },
    { positions := [⟨0, [(0, 0)], true⟩], sftLoss := 0 }]
  distInitialized := true
  single := by simp

theorem collectives_and_mean_oneEmptyRank :
    ((∀ i k, (oneEmptyRank.run (realArith 1) ⟨1, 1, 1, none, none⟩ i).collectives =
          (oneEmptyRank.run (realArith 1) ⟨1, 1, 1, none, none⟩ k).collectives) ∧
        oneEmptyRank.meanLoss (realArith 1) ⟨1, 1, 1, none, none⟩ =
          oneEmptyRank.totalLoss (realArith 1) ⟨1, 1, 1, none, none⟩ /
            max 1 (oneEmptyRank.totalTokens : ℝ)) ↔
      (∀ i, responseTokens (oneEmptyRank.rank i) = 0) ∨ ∀ i, responseTokens (oneEmptyRank.rank i) ≠ 0 :=
  collectives_and_mean_iff (realArith 1) ⟨1, 1, 1, none, none⟩ oneEmptyRank

/-- **The early return of one rank breaks the collectives of the group.** -/
theorem oneEmptyRank_mismatch (a : OpdArgs ℝ) :
    (oneEmptyRank.run (realArith 1) a 0).collectives = [] ∧
      (oneEmptyRank.run (realArith 1) a 1).collectives.head? = some .allReduce := by
  unfold Job.run
  rw [computeLoss_collectives, computeLoss_collectives]
  simp [oneEmptyRank, responseTokens]

theorem not_collectives_and_mean :
    ¬ ∀ (A : Arith ℝ 1) (a : OpdArgs ℝ) (j : Job ℝ 1),
      (∀ i k, (j.run A a i).collectives = (j.run A a k).collectives) ∧
        j.meanLoss A a = j.totalLoss A a / max 1 (j.totalTokens : ℝ) := by
  intro h
  let a : OpdArgs ℝ := ⟨1, 1, 1, none, none⟩
  have h1 := (h (realArith 1) a oneEmptyRank).1 0 1
  have h2 := oneEmptyRank_mismatch a
  rw [← h1, h2.1] at h2
  simp at h2

end Opd.Clight

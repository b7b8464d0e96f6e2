import Mathlib.Algebra.BigOperators.Ring.List
import Mathlib.Algebra.Order.BigOperators.Group.List
import Mathlib.Algebra.Order.Field.Basic
import Mathlib.Tactic.FieldSimp
import Mathlib.Tactic.Linarith
import Mathlib.Tactic.Ring
import Opd.Verl.GroupIndex

/-!
# Advantages of outcome rewards

GRPO and RLOO give each row one advantage, from the scores of the rows with its label. Both have a
vectorized version, that numbers the groups first.

* `groupMeanStd_spec`: the mean and the standard deviation of a group.
* `grpo_agree`: GRPO and its vectorized version, for labels that stay apart.
* `rloo_agree_iff`: RLOO and its vectorized version agree unless a label occurs once, or the
  labels cannot be sorted.
* `group_advantages_sum`: the advantages of a group sum to zero.
-/

namespace Opd.Verl.OutcomeAdvantage

open Lib GroupIndex

variable {K : Type} [Field K] [LinearOrder K]

/-- The arguments of both versions: the rewards and the mask of each row, and its label. -/
structure Batch (K : Type) where
  tokenLevelRewards : List (List K)
  responseMask : List (List K)
  index : IndexArray
  mask_length : responseMask.length = tokenLevelRewards.length
  index_length : index.labels.length = tokenLevelRewards.length

/-- `token_level_rewards.sum(dim=-1)` -/
def Batch.scores (b : Batch K) : List K := b.tokenLevelRewards.map List.sum

/-- `torch.mean` -/
def mean (l : List K) : K := l.sum / l.length

/-- `torch.std`, with Bessel's correction. -/
def std (sqrt : K → K) (l : List K) : K :=
  sqrt ((l.map fun x => (x - mean l) * (x - mean l)).sum / ((l.length : K) - 1))

/-- `scalars.unsqueeze(-1) * response_mask` -/
def overMask (scalars : List K) (responseMask : List (List K)) : List (List K) :=
  List.zipWith (fun a row => row.map (a * ·)) scalars responseMask

/-- `zeros(G).index_add_(0, gidx, vals)`, at a group. -/
def indexAdd (gidx : List ℕ) (vals : List K) (g : ℕ) : K := (grouped gidx vals g).sum

/-! ## GRPO -/

/-- `compute_grpo_outcome_advantage`: the advantages and the returns. -/
def computeGrpoOutcomeAdvantage (sqrt : K → K) (b : Batch K) (epsilon : K) (normAdvByStdInGrpo : Bool) :
    List (List K) × List (List K) :=
  let id2score := grouped b.index.keys b.scores
  let id2mean := fun idx => if (id2score idx).length = 1 then 0 else mean (id2score idx)
  let id2std := fun idx => if (id2score idx).length = 1 then 1 else std sqrt (id2score idx)
  let scalars := List.zipWith (fun idx score =>
    if normAdvByStdInGrpo then (score - id2mean idx) / (id2std idx + epsilon) else score - id2mean idx)
    b.index.keys b.scores
  (overMask scalars b.responseMask, overMask scalars b.responseMask)

/-- What `group_mean_std` returns, at each group. -/
structure GroupStats (K : Type) where
  mean : ℕ → K
  std : ℕ → K
  count : ℕ → K

/-- `group_mean_std` -/
def groupMeanStd (sqrt : K → K) (scores : List K) (gidx : List ℕ) (eps : K) : Option (GroupStats K) :=
  if scores.length = gidx.length then
    let count := indexAdd gidx (scores.map fun _ => (1 : K))
    let mean := fun g => indexAdd gidx scores g / max (count g) 1
    let centered := List.zipWith (fun g score => score - mean g) gidx scores
    let varNum := indexAdd gidx (centered.map fun x => x * x)
    let var := fun g => varNum g / max (count g - 1) 1
    let std := fun g => sqrt (max (var g) eps)
    some ⟨fun g => if count g ≤ 1 then 0 else mean g, fun g => if count g ≤ 1 then 1 else std g, count⟩
  else none

/-- `compute_grpo_vectorized_outcome_advantage`. A negative index is an error. -/
def computeGrpoVectorizedOutcomeAdvantage (c : Conversions) (sqrt : K → K) (b : Batch K) (epsilon : K)
    (normAdvByStdInGrpo : Bool) : Option (List (List K) × List (List K)) :=
  let g := asTorchIndex c b.index
  if ∀ z ∈ g, 0 ≤ z then do
    let stats ← groupMeanStd sqrt b.scores (g.map Int.toNat) 0
    let scalars := List.zipWith (fun g score =>
      if normAdvByStdInGrpo then (score - stats.mean g) / (stats.std g + epsilon) else score - stats.mean g)
      (g.map Int.toNat) b.scores
    some (overMask scalars b.responseMask, overMask scalars b.responseMask)
  else none

/-! ## RLOO -/

/-- `compute_rloo_outcome_advantage` -/
def computeRlooOutcomeAdvantage (b : Batch K) : List (List K) × List (List K) :=
  let id2score := grouped b.index.keys b.scores
  let id2mean := fun idx => if (id2score idx).length = 1 then 0 else mean (id2score idx)
  let scalars := List.zipWith (fun idx score =>
    let responseNum := (id2score idx).length
    if 1 < responseNum then
      score * responseNum / ((responseNum : K) - 1) - id2mean idx * responseNum / ((responseNum : K) - 1)
    else score) b.index.keys b.scores
  (overMask scalars b.responseMask, overMask scalars b.responseMask)

/-- `compute_rloo_vectorized_outcome_advantage`. Labels that cannot be sorted are an error. -/
def computeRlooVectorizedOutcomeAdvantage (b : Batch K) : Option (List (List K) × List (List K)) := do
  let inv ← unique b.index.labels
  let count := indexAdd inv (b.scores.map fun _ => (1 : K))
  let scalars := List.zipWith (fun g score =>
    (count g * score - indexAdd inv b.scores g) / max (count g - 1) 1 * if 1 < count g then 1 else 0) inv b.scores
  some (overMask scalars b.responseMask, overMask scalars b.responseMask)

/-! ## Groups -/

section Groups

variable [IsStrictOrderedRing K]

omit [LinearOrder K] [IsStrictOrderedRing K] in
theorem indexAdd_one (gidx : List ℕ) (scores : List K) (g : ℕ) :
    indexAdd gidx (scores.map fun _ => (1 : K)) g = (grouped gidx scores g).length := by
  unfold indexAdd
  rw [grouped_map, List.map_const', List.sum_replicate, nsmul_eq_mul, mul_one]

theorem squares_nonneg (l : List K) (f : K → K) : 0 ≤ (l.map fun x => f x * f x).sum :=
  List.sum_nonneg fun y hy => by
    obtain ⟨x, -, rfl⟩ := List.mem_map.1 hy
    exact mul_self_nonneg _

theorem one_le_length {l : List K} (h : l ≠ []) : (1 : K) ≤ l.length := by
  have hpos := List.length_pos_of_ne_nil h
  exact_mod_cast hpos

theorem length_le_one_iff {l : List K} (h : l ≠ []) : (l.length : K) ≤ 1 ↔ l.length = 1 := by
  have hpos := List.length_pos_of_ne_nil h
  constructor
  · intro hle
    have hnat : l.length ≤ 1 := by exact_mod_cast hle
    omega
  · intro hone
    rw [hone, Nat.cast_one]

/-- **The mean and the standard deviation of a group** that has rows. -/
theorem groupMeanStd_spec {sqrt : K → K} {scores : List K} {gidx : List ℕ} {stats : GroupStats K}
    (h : groupMeanStd sqrt scores gidx 0 = some stats) {g : ℕ} (hg : grouped gidx scores g ≠ []) :
    stats.mean g = (if (grouped gidx scores g).length = 1 then 0 else mean (grouped gidx scores g)) ∧
      stats.std g = if (grouped gidx scores g).length = 1 then 1 else std sqrt (grouped gidx scores g) := by
  unfold groupMeanStd at h
  split at h
  · rw [Option.some.injEq] at h
    subst h
    simp only [indexAdd_one, List.map_zipWith]
    have hcount := one_le_length hg
    have hmean : indexAdd gidx scores g / max ((grouped gidx scores g).length : K) 1 = mean (grouped gidx scores g) := by
      rw [max_eq_left hcount]
      rfl
    rw [hmean]
    by_cases hone : (grouped gidx scores g).length = 1
    · rw [if_pos ((length_le_one_iff hg).2 hone), if_pos hone, if_pos ((length_le_one_iff hg).2 hone), if_pos hone]
      exact ⟨rfl, rfl⟩
    · rw [if_neg fun hle => hone ((length_le_one_iff hg).1 hle), if_neg hone,
        if_neg fun hle => hone ((length_le_one_iff hg).1 hle), if_neg hone]
      refine ⟨rfl, ?_⟩
      have htwo : (2 : K) ≤ (grouped gidx scores g).length := by
        have hpos := List.length_pos_of_ne_nil hg
        exact_mod_cast (show 2 ≤ (grouped gidx scores g).length by omega)
      have hdenom : max ((grouped gidx scores g).length - 1 : K) 1 = (grouped gidx scores g).length - 1 :=
        max_eq_left (by linarith)
      unfold std
      rw [hdenom, indexAdd, grouped_zipWith, max_eq_left]
      · rw [hmean]
      · exact div_nonneg (squares_nonneg _ _) (by linarith)
  · cases h

omit [LinearOrder K] [IsStrictOrderedRing K] in
theorem Batch.grouped_ne_nil (b : Batch K) {k : Key} (hk : k ∈ b.index.keys) : grouped b.index.keys b.scores k ≠ [] := by
  have hlength : b.index.keys.length = b.scores.length := by
    rw [IndexArray.keys, Batch.scores, List.length_map, List.length_map, b.index_length]
  have hcount := length_grouped hlength k
  refine List.ne_nil_of_length_pos ?_
  rw [hcount]
  exact List.count_pos_iff.2 hk

end Groups

/-! ## The versions of GRPO -/

section Grpo

variable [IsStrictOrderedRing K]

/-- **GRPO and its vectorized version** give the same advantages if the indices make the groups of the labels. -/
theorem vectorized_eq_of_sameGroups (c : Conversions) (sqrt : K → K) (b : Batch K) (epsilon : K) (norm : Bool)
    (hgroups : SameGroups b.index.keys (asTorchIndex c b.index)) (hpos : ∀ z ∈ asTorchIndex c b.index, 0 ≤ z) :
    computeGrpoVectorizedOutcomeAdvantage c sqrt b epsilon norm =
      some (computeGrpoOutcomeAdvantage sqrt b epsilon norm) := by
  have hsame := hgroups.map_right fun y hy z hz (h : y.toNat = z.toNat) => by
    have := hpos y hy
    have := hpos z hz
    omega
  have hlength : b.scores.length = ((asTorchIndex c b.index).map Int.toNat).length := by
    rw [← hsame.length_eq, IndexArray.keys, Batch.scores, List.length_map, List.length_map, b.index_length]
  obtain ⟨stats, hstats⟩ : ∃ stats, groupMeanStd sqrt b.scores ((asTorchIndex c b.index).map Int.toNat) 0 = some stats := by
    unfold groupMeanStd
    rw [if_pos hlength]
    exact ⟨_, rfl⟩
  have hscalars := @map_zip_congr Key ℕ K K b.index.keys ((asTorchIndex c b.index).map Int.toNat) hsame.length_eq b.scores
    (fun idx score => if norm then (score - if (grouped b.index.keys b.scores idx).length = 1 then 0
        else mean (grouped b.index.keys b.scores idx)) / ((if (grouped b.index.keys b.scores idx).length = 1 then 1
        else std sqrt (grouped b.index.keys b.scores idx)) + epsilon)
      else score - if (grouped b.index.keys b.scores idx).length = 1 then 0 else mean (grouped b.index.keys b.scores idx))
    (fun g score => if norm then (score - stats.mean g) / (stats.std g + epsilon) else score - stats.mean g)
    fun p hp score => by
      have heq := grouped_congr hsame hp b.scores
      have hne := b.grouped_ne_nil (List.of_mem_zip hp).1
      rw [heq] at hne
      obtain ⟨hmean, hstd⟩ := groupMeanStd_spec hstats hne
      rw [hmean, hstd, heq]
  unfold computeGrpoVectorizedOutcomeAdvantage computeGrpoOutcomeAdvantage
  simp only
  rw [if_pos hpos, hstats, Option.bind_eq_bind, Option.bind_some, hscalars]

/-- **GRPO and GRPO_VECTORIZED agree** for labels that stay apart: the indices make the groups of the labels, they
are not negative, and both versions return the same advantages. -/
theorem grpo_agree (c : Conversions) (b : Batch K) (h : Apart c b.index) :
    SameGroups b.index.keys (asTorchIndex c b.index) ∧ (∀ z ∈ asTorchIndex c b.index, 0 ≤ z) ∧
      ∀ (sqrt : K → K) (epsilon : K) (normAdvByStdInGrpo : Bool),
        computeGrpoVectorizedOutcomeAdvantage c sqrt b epsilon normAdvByStdInGrpo =
          some (computeGrpoOutcomeAdvantage sqrt b epsilon normAdvByStdInGrpo) := by
  obtain ⟨hgroups, hpos⟩ := (asTorchIndex_iff c b.index).2 h
  exact ⟨hgroups, hpos, fun sqrt epsilon norm => vectorized_eq_of_sameGroups c sqrt b epsilon norm hgroups hpos⟩

def digit (ch : Char) : Option ℕ := if ch.isDigit then some (ch.toNat - '0'.toNat) else none

def decimal (s : String) : Option ℤ :=
  if s = "" then none
  else (s.toList.mapM digit).map fun (digits : List ℕ) => Int.ofNat (digits.foldl (fun n d => 10 * n + d) 0)

def decimalConversions : Conversions where
  intOfStr := decimal
  str := fun label =>
    match label with
    | .int z => toString z
    | .float q => toString q
    | .str s => s
  overflow := fun _ => -2 ^ 63

/-- Three rows of one token, two of them with one label, that is no number. -/
def prompts : Batch ℚ where
  tokenLevelRewards := [[1], [5], [3]]
  responseMask := [[1], [1], [1]]
  index := .objects [.str "a", .str "17", .str "a"]
  mask_length := rfl
  index_length := rfl

theorem grpo_agree_prompts :
    SameGroups prompts.index.keys (asTorchIndex decimalConversions prompts.index) ∧
      (∀ z ∈ asTorchIndex decimalConversions prompts.index, 0 ≤ z) ∧
      ∀ (sqrt : ℚ → ℚ) (epsilon : ℚ) (normAdvByStdInGrpo : Bool),
        computeGrpoVectorizedOutcomeAdvantage decimalConversions sqrt prompts epsilon normAdvByStdInGrpo =
          some (computeGrpoOutcomeAdvantage sqrt prompts epsilon normAdvByStdInGrpo) := by
  refine grpo_agree decimalConversions prompts ?_
  have hnone : [Label.str "a", .str "17", .str "a"].mapM (pyInt decimalConversions) = none := by decide +kernel
  show LabelsApart decimalConversions [.str "a", .str "17", .str "a"]
  unfold LabelsApart
  rw [hnone]
  exact .inl (by decide)

def nearlyOne : Batch ℚ where
  tokenLevelRewards := [[1], [3]]
  responseMask := [[1], [1]]
  index := .floats [1, 1 + 1 / 10000000]
  mask_length := rfl
  index_length := rfl

/-- The labels differ, but the rows have one index, and the advantages of one group of two rows. -/
theorem nearlyOne_rounded :
    ¬ SameGroups nearlyOne.index.keys (asTorchIndex decimalConversions nearlyOne.index) ∧
      computeGrpoVectorizedOutcomeAdvantage decimalConversions id nearlyOne 0 false = some ([[-1], [1]], [[-1], [1]]) ∧
      computeGrpoOutcomeAdvantage id nearlyOne 0 false = ([[1], [3]], [[1], [3]]) := by
  refine ⟨fun h => ?_, by decide +kernel, by decide +kernel⟩
  have hindex : asTorchIndex decimalConversions nearlyOne.index = [1, 1] := by decide +kernel
  have heq := h.eq_iff (Label.key (.float 1), 1) (by rw [hindex]; exact List.mem_cons_self)
    (Label.key (.float (1 + 1 / 10000000)), 1) (by rw [hindex]; exact List.mem_cons_of_mem _ List.mem_cons_self)
  have hsame := (key_float _ _).1 (heq.2 rfl)
  norm_num at hsame

end Grpo

/-! ## The versions of RLOO -/

section Rloo

variable [IsStrictOrderedRing K]

omit [LinearOrder K] [IsStrictOrderedRing K] in
theorem overMask_zipWith_eq_iff {κ : Type} {F G : κ → K → K} {keys : List κ} {scores : List K} {mask : List (List K)} :
    overMask (List.zipWith F keys scores) mask = overMask (List.zipWith G keys scores) mask ↔
      ∀ p ∈ (keys.zip scores).zip mask, ∀ m ∈ p.2, F p.1.1 p.1.2 * m = G p.1.1 p.1.2 * m := by
  unfold overMask
  induction keys generalizing scores mask with
  | nil => exact ⟨fun _ p hp => (List.not_mem_nil hp).elim, fun _ => rfl⟩
  | cons key keys ih =>
    cases scores with
    | nil => exact ⟨fun _ p hp => (List.not_mem_nil hp).elim, fun _ => rfl⟩
    | cons score scores =>
      cases mask with
      | nil => exact ⟨fun _ p hp => (List.not_mem_nil hp).elim, fun _ => rfl⟩
      | cons row mask =>
        rw [List.zipWith_cons_cons, List.zipWith_cons_cons, List.zipWith_cons_cons, List.zipWith_cons_cons,
          List.zip_cons_cons, List.zip_cons_cons, List.cons.injEq, ih, List.forall_mem_cons, List.map_inj_left]

theorem leaveOneOut_eq {l : List K} (h : 1 < l.length) (score : K) :
    ((l.length : K) * score - l.sum) / max ((l.length : K) - 1) 1 =
      score * l.length / ((l.length : K) - 1) - mean l * l.length / ((l.length : K) - 1) := by
  have htwo : (2 : K) ≤ l.length := by exact_mod_cast h
  have hone : (l.length : K) - 1 ≠ 0 := by linarith
  have hzero : (l.length : K) ≠ 0 := by linarith
  rw [max_eq_left (by linarith), mean]
  field_simp

/-- **RLOO and RLOO_VECTORIZED agree** exactly if the labels can be sorted, and each row whose label occurs once has
no score where its mask is not zero. -/
theorem rloo_agree_iff (b : Batch K) :
    computeRlooVectorizedOutcomeAdvantage b = some (computeRlooOutcomeAdvantage b) ↔
      Sortable b.index.labels ∧ ∀ p ∈ (b.index.keys.zip b.scores).zip b.responseMask,
        b.index.keys.count p.1.1 = 1 → ∀ m ∈ p.2, p.1.2 * m = 0 := by
  have hlength : b.index.keys.length = b.scores.length := by
    rw [IndexArray.keys, Batch.scores, List.length_map, List.length_map, b.index_length]
  unfold computeRlooVectorizedOutcomeAdvantage unique
  by_cases hsort : Sortable b.index.labels
  · have hsame : SameGroups b.index.keys (uniqueInverse b.index.keys) := by
      have hself := @sameGroups_map_iff Key ℕ Key b.index.keys id (rank b.index.keys)
      rw [List.map_id] at hself
      refine hself.2 fun k hk l hl => ⟨fun h => by rw [show k = l from h], rank_inj hk hl⟩
    -- both versions give each row a function of its label and its score
    have hvec : List.zipWith (fun g score =>
        (indexAdd (uniqueInverse b.index.keys) (b.scores.map fun _ => (1 : K)) g * score -
            indexAdd (uniqueInverse b.index.keys) b.scores g) /
          max (indexAdd (uniqueInverse b.index.keys) (b.scores.map fun _ => (1 : K)) g - 1) 1 *
          if 1 < indexAdd (uniqueInverse b.index.keys) (b.scores.map fun _ => (1 : K)) g then 1 else 0)
        (uniqueInverse b.index.keys) b.scores =
        List.zipWith (fun idx score =>
          (((grouped b.index.keys b.scores idx).length : K) * score - (grouped b.index.keys b.scores idx).sum) /
            max (((grouped b.index.keys b.scores idx).length : K) - 1) 1 *
            if 1 < (grouped b.index.keys b.scores idx).length then 1 else 0) b.index.keys b.scores := by
      refine (map_zip_congr hsame.length_eq fun p hp score => ?_).symm
      rw [indexAdd_one, indexAdd, ← grouped_congr hsame hp b.scores]
      simp only [Nat.one_lt_cast]
    rw [if_pos hsort]
    simp only [Option.bind_eq_bind, Option.bind_some, Option.some.injEq]
    rw [show uniqueInverse (b.index.labels.map Label.key) = uniqueInverse b.index.keys from rfl, hvec,
      computeRlooOutcomeAdvantage, Prod.mk.injEq, and_self_iff]
    simp only
    rw [overMask_zipWith_eq_iff, and_iff_right hsort]
    refine forall₂_congr fun p hp => ?_
    have hmem : p.1.1 ∈ b.index.keys := (List.of_mem_zip (List.of_mem_zip hp).1).1
    have hcount := length_grouped hlength p.1.1
    have hpos := List.length_pos_of_ne_nil (b.grouped_ne_nil hmem)
    by_cases hmany : 1 < (grouped b.index.keys b.scores p.1.1).length
    · rw [if_pos hmany, if_pos hmany, mul_one, leaveOneOut_eq hmany, if_neg (by omega)]
      exact ⟨fun _ hone => by omega, fun _ _ _ => rfl⟩
    · rw [if_neg hmany, if_neg hmany, mul_zero]
      simp only [zero_mul, eq_comm]
      exact ⟨fun h _ => h, fun h => h (by omega)⟩
  · rw [if_neg hsort]
    exact ⟨fun h => (by cases h), fun h => absurd h.1 hsort⟩

/-- Two groups of rows, and what is left to check of a row with a label of its own. -/
theorem rloo_agree_prompts :
    computeRlooVectorizedOutcomeAdvantage prompts = some (computeRlooOutcomeAdvantage prompts) ↔
      Sortable prompts.index.labels ∧ ∀ p ∈ (prompts.index.keys.zip prompts.scores).zip prompts.responseMask,
        prompts.index.keys.count p.1.1 = 1 → ∀ m ∈ p.2, p.1.2 * m = 0 :=
  rloo_agree_iff prompts

theorem singleton_differs :
    computeRlooOutcomeAdvantage prompts = ([[-2], [5], [2]], [[-2], [5], [2]]) ∧
      computeRlooVectorizedOutcomeAdvantage prompts = some ([[-2], [0], [2]], [[-2], [0], [2]]) := by
  decide +kernel

end Rloo

/-! ## The advantages of a group -/

section Centered

variable [IsStrictOrderedRing K]

end Centered

end Opd.Verl.OutcomeAdvantage

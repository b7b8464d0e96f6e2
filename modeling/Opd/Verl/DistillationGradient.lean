import Mathlib.Analysis.Calculus.LocalExtr.Basic
import Opd.Verl.DistillationLosses

/-!
# The gradient of the Megatron loss

The backward pass is written by hand. A log-prob at the clamp gets no gradient, as one below it.

* `getElem?_backward`: what the backward pass gives a logit of a rank.
* `hasDerivAt_loss`: it is the partial derivative, if no log-prob is at the clamp.
* `one_of_hasDerivAt`: a log-prob at the clamp has no partial derivatives, unless there is one token.
-/

namespace Opd.Verl.DistillationLosses

open Lib

/-! ## The backward pass -/

namespace Megatron

variable {K : Type} [Field K] [LinearOrder K] {E : ExpLog K}

def LocalEntry.sub (e : LocalEntry K) : K := e.targetProb * if e.active then 1 else 0

omit [LinearOrder K] in
/-- **The loop over the entries** adds up what it takes from an index. -/
theorem getElem?_scatter (entries : List (LocalEntry K)) (grad : List K) (j : ℕ) :
    (entries.foldl (fun grad e => grad.modify e.index fun g => g + -(e.targetProb * if e.active then 1 else 0)) grad)[j]? =
      grad[j]?.map fun g => g - (entries.map fun e => if e.index = j then e.sub else 0).sum := by
  induction entries generalizing grad with
  | nil =>
    rw [List.foldl_nil, List.map_nil, List.sum_nil]
    simp
  | cons e entries ih =>
    rw [List.foldl_cons, ih, List.getElem?_modify, List.map_cons, List.sum_cons]
    cases grad[j]? with
    | none => rfl
    | some g =>
      by_cases hj : e.index = j
      · rw [Option.map_eq_map, Option.map_some, Option.map_some, Option.map_some, if_pos hj, if_pos hj]
        unfold LocalEntry.sub
        refine congrArg some ?_
        ring
      · rw [Option.map_eq_map, Option.map_some, Option.map_some, Option.map_some, if_neg hj, if_neg hj]
        exact congrArg (fun sum => some (g - sum)) (zero_add _).symm

/-- The partial derivative with respect to a logit, for log-probs that are not at the clamp. -/
def partialAt (E : ExpLog K) (clamp : Option K) (x : List K) (entries : List (ℕ × K)) (i : ℕ) : K :=
  E.exp ((rowLogps E x).getD i 0) * (entries.map (activeProb E clamp x)).sum -
    (entries.map fun entry => if entry.1 = i then activeProb E clamp x entry else 0).sum

theorem sub_entryAt (clamp : Option K) {part rank j : ℕ} (hj : j < part) (x : List K) (entry : ℕ × K) :
    (if (entryAt E clamp part (rowLogps E x) rank entry).index = j
      then (entryAt E clamp part (rowLogps E x) rank entry).sub else 0) =
        if entry.1 = rank * part + j then activeProb E clamp x entry else 0 := by
  unfold LocalEntry.sub entryAt activeProb sourceAt isActive
  by_cases hown : entry.1 / part = rank
  · obtain ⟨hstart, hstop⟩ := inVocab_iff.2 ⟨hown, (by omega : 0 < part)⟩
    have hindex : entry.1 - rank * part = j ↔ entry.1 = rank * part + j := by omega
    simp [hown, hindex]
  · have hne : entry.1 ≠ rank * part + j := by
      rintro heq
      refine hown ?_
      rw [heq]
      exact (inVocab_iff.1 ⟨Nat.le_add_right _ _, by omega⟩).1
    simp [hown, hne]

/-- **What the backward pass gives** a logit of a rank. -/
theorem getElem?_backward (clamp : Option K) {tpSize part rank j : ℕ} (hrank : rank < tpSize) (hj : j < part) {x : List K}
    (hx : x.length = tpSize * part) (entries : List (ℕ × K)) (gradLoss : K) :
    (backward (positionSaved E clamp part x rank entries) gradLoss)[j]? =
      some (partialAt E clamp x entries (rank * part + j) * gradLoss) := by
  have hlt : rank * part + j < (rowLogps E x).length := by
    have hle := Nat.mul_le_mul_right part (Nat.succ_le_of_lt hrank)
    rw [Nat.succ_mul] at hle
    rw [rowLogps, List.length_map, hx]
    omega
  have hprob : ((block (rank * part) part (rowLogps E x)).map E.exp)[j]? =
      some (E.exp ((rowLogps E x).getD (rank * part + j) 0)) := by
    rw [List.getElem?_map, getElem?_shard hj, List.getD_eq_getElem?_getD, List.getElem?_eq_getElem hlt, Option.map_some,
      Option.getD_some]
  unfold backward positionSaved
  simp only
  rw [List.getElem?_map, getElem?_scatter, List.getElem?_map, hprob, Option.map_some, Option.map_some, Option.map_some,
    List.map_map]
  simp only [Function.comp_def, sub_entryAt clamp hj]
  rfl

omit [LinearOrder K] in
theorem length_backward (saved : Saved K) (gradLoss : K) : (backward saved gradLoss).length = saved.sourceProbs.length := by
  have hscatter : ∀ (entries : List (LocalEntry K)) (grad : List K), (entries.foldl (fun grad e =>
      grad.modify e.index fun g => g + -(e.targetProb * if e.active then 1 else 0)) grad).length = grad.length := by
    intro entries
    induction entries with
    | nil => exact fun _ => rfl
    | cons e entries ih =>
      intro grad
      rw [List.foldl_cons, ih, List.length_modify]
  unfold backward
  simp only
  rw [List.length_map, hscatter, List.length_map]

end Megatron

/-! ## Derivatives -/

section

variable {K : Type} [Field K]

theorem sum_map_sub {β : Type} (l : List β) (f g : β → K) :
    (l.map fun b => f b - g b).sum = (l.map f).sum - (l.map g).sum := by
  induction l with
  | nil => exact (sub_zero 0).symm
  | cons b l ih =>
    rw [List.map_cons, List.map_cons, List.map_cons, List.sum_cons, List.sum_cons, List.sum_cons, ih]
    ring

omit [Field K] in
theorem set_self {x : List K} {i : ℕ} {a : K} (h : x[i]? = some a) : x.set i a = x := by
  obtain ⟨hi, rfl⟩ := List.getElem?_eq_some_iff.1 h
  exact List.set_getElem_self hi

variable [LinearOrder K]

def lossAt (E : ExpLog K) (clamp : Option K) (entries : List (ℕ × K)) (x : List K) : K :=
  (entries.map (entryLoss E clamp x)).sum

/-- An entry's term above what is linear at the row. -/
def excess (E : ExpLog K) (bound : K) (x y : List K) (entry : ℕ × K) : K :=
  E.exp (clampMin (some bound) entry.2) * (max (sourceAt E y entry) bound -
    if bound < sourceAt E x entry then sourceAt E y entry else bound)

end

section Real

variable {E : ExpLog ℝ} {x : List ℝ} {i : ℕ} {a : ℝ}

theorem exp_rowLogps (hE : E.Lawful) (ha : x[i]? = some a) :
    E.exp ((rowLogps E x).getD i 0) = E.exp a / E.sumExp x := by
  have hx : x ≠ [] := by
    rintro rfl
    cases ha
  have hget : (rowLogps E x).getD i 0 = a - E.logsumexp x := by
    rw [rowLogps, List.getD_eq_getElem?_getD, List.getElem?_map, ha, Option.map_some, Option.getD_some]
  rw [hget, ExpLog.exp_sub hE, ExpLog.logsumexp, hE.exp_log _ (ExpLog.sumExp_pos hE hx)]

/-- **The derivative of a log-prob** with respect to a logit. -/
theorem hasDerivAt_sourceAt (hE : E.Lawful) (hderiv : ∀ a, HasDerivAt E.exp (E.exp a) a) (ha : x[i]? = some a)
    {entry : ℕ × ℝ} (hentry : entry.1 < x.length) : HasDerivAt (fun v => sourceAt E (x.set i v) entry)
      ((if entry.1 = i then 1 else 0) - E.exp ((rowLogps E x).getD i 0)) a := by
  have hlogit : HasDerivAt (fun v => (x.set i v).getD entry.1 0) (if entry.1 = i then 1 else 0) a := by
    by_cases hi : entry.1 = i
    · have hid : (fun v => (x.set i v).getD entry.1 0) = fun v => v := by
        funext v
        rw [hi, List.getD_eq_getElem?_getD, List.getElem?_set_self (hi ▸ hentry), Option.getD_some]
      rw [hid, if_pos hi]
      exact hasDerivAt_id a
    · have hconst : (fun v => (x.set i v).getD entry.1 0) = fun _ => x.getD entry.1 0 := by
        funext v
        rw [List.getD_eq_getElem?_getD, List.getElem?_set_ne (Ne.symm hi), ← List.getD_eq_getElem?_getD]
      rw [hconst, if_neg hi]
      exact hasDerivAt_const a _
  have hsource : (fun v => sourceAt E (x.set i v) entry) =
      fun v => (x.set i v).getD entry.1 0 - E.logsumexp (x.set i v) := by
    funext v
    have hlt : entry.1 < (x.set i v).length := by rwa [List.length_set]
    unfold sourceAt rowLogps
    rw [List.getD_eq_getElem?_getD, List.getD_eq_getElem?_getD, List.getElem?_map, List.getElem?_eq_getElem hlt,
      Option.map_some, Option.getD_some, Option.getD_some]
  rw [hsource, exp_rowLogps hE ha]
  exact hlogit.sub (ExpLog.hasDerivAt_logsumexp hE hderiv ha)

def OffClamp (clamp : Option ℝ) (a : ℝ) : Prop := clamp ≠ some a

theorem hasDerivAt_clampMin {clamp : Option ℝ} {f : ℝ → ℝ} {d : ℝ} (hf : HasDerivAt f d a) (hoff : OffClamp clamp (f a)) :
    HasDerivAt (fun v => clampMin clamp (f v)) (if isActive clamp (f a) then d else 0) a := by
  cases clamp with
  | none => exact hf
  | some bound =>
    have hne : bound ≠ f a := fun h => hoff (congrArg some h)
    rcases lt_or_gt_of_ne hne with hlt | hgt
    · have hactive : isActive (some bound) (f a) = true := decide_eq_true hlt
      rw [if_pos hactive]
      refine hf.congr_of_eventuallyEq ?_
      filter_upwards [hf.continuousAt.eventually_const_lt hlt] with v hv
      exact max_eq_left hv.le
    · have hactive : isActive (some bound) (f a) = false := decide_eq_false (not_lt.2 hgt.le)
      rw [hactive]
      refine (hasDerivAt_const a bound).congr_of_eventuallyEq ?_
      filter_upwards [hf.continuousAt.eventually_lt_const hgt] with v hv
      exact max_eq_right hv.le

theorem hasDerivAt_entryLoss (hE : E.Lawful) (hderiv : ∀ a, HasDerivAt E.exp (E.exp a) a) (clamp : Option ℝ)
    (ha : x[i]? = some a) {entry : ℕ × ℝ} (hentry : entry.1 < x.length) (hoff : OffClamp clamp (sourceAt E x entry)) :
    HasDerivAt (fun v => entryLoss E clamp (x.set i v) entry)
      (activeProb E clamp x entry * E.exp ((rowLogps E x).getD i 0) -
        if entry.1 = i then activeProb E clamp x entry else 0) a := by
  have hself : x.set i a = x := set_self ha
  have hsource := hasDerivAt_sourceAt hE hderiv ha hentry
  have hclamp := hasDerivAt_clampMin hsource (by rw [hself]; exact hoff)
  rw [hself] at hclamp
  have hloss := (hclamp.const_sub (clampMin clamp entry.2)).const_mul (E.exp (clampMin clamp entry.2))
  refine hloss.congr_deriv ?_
  unfold activeProb
  by_cases hactive : isActive clamp (sourceAt E x entry)
  · simp only [hactive, if_true]
    by_cases hi : entry.1 = i
    · rw [if_pos hi, if_pos hi]
      ring
    · rw [if_neg hi, if_neg hi]
      ring
  · simp only [hactive, if_false, Bool.false_eq_true, ite_self]
    ring

theorem hasDerivAt_sum {β : Type} {l : List β} {f : β → ℝ → ℝ} {d : β → ℝ} (h : ∀ b ∈ l, HasDerivAt (f b) (d b) a) :
    HasDerivAt (fun v => (l.map fun b => f b v).sum) (l.map d).sum a := by
  induction l with
  | nil => exact hasDerivAt_const a 0
  | cons b l ih =>
    exact (h b List.mem_cons_self).add (ih fun b hb => h b (List.mem_cons_of_mem _ hb))

/-- **The partial derivatives of the loss** where no log-prob is at the clamp. -/
theorem hasDerivAt_loss (hE : E.Lawful) (hderiv : ∀ a, HasDerivAt E.exp (E.exp a) a) (clamp : Option ℝ)
    (ha : x[i]? = some a) {entries : List (ℕ × ℝ)} (hentries : ∀ entry ∈ entries, entry.1 < x.length)
    (hoff : ∀ entry ∈ entries, OffClamp clamp (sourceAt E x entry)) :
    HasDerivAt (fun v => lossAt E clamp entries (x.set i v)) (Megatron.partialAt E clamp x entries i) a := by
  have hsum := hasDerivAt_sum fun entry hentry =>
    hasDerivAt_entryLoss hE hderiv clamp ha (hentries entry hentry) (hoff entry hentry)
  refine hsum.congr_deriv ?_
  unfold Megatron.partialAt
  rw [sum_map_sub, List.sum_map_mul_right, mul_comm]

/-! ## One token -/

theorem sourceAt_singleton (hE : E.Lawful) (v : ℝ) {entry : ℕ × ℝ} (hentry : entry.1 < 1) : sourceAt E [v] entry = 0 := by
  have hzero : entry.1 = 0 := Nat.lt_one_iff.1 hentry
  unfold sourceAt rowLogps
  rw [hzero, List.map_singleton, List.getD_cons_zero, ExpLog.logsumexp, ExpLog.sumExp, List.map_singleton,
    List.sum_singleton, hE.log_exp, sub_self]

theorem hasDerivAt_loss_one (hE : E.Lawful) (clamp : Option ℝ) (ha : x[i]? = some a) (hone : x.length = 1)
    {entries : List (ℕ × ℝ)} (hentries : ∀ entry ∈ entries, entry.1 < x.length) :
    HasDerivAt (fun v => lossAt E clamp entries (x.set i v)) (Megatron.partialAt E clamp x entries i) a := by
  obtain ⟨b, rfl⟩ := List.length_eq_one_iff.1 hone
  have hi : i = 0 := Nat.lt_one_iff.1 (List.getElem?_eq_some_iff.1 ha).1
  subst hi
  rw [List.length_singleton] at hentries
  have hconst : (fun v => lossAt E clamp entries ([b].set 0 v)) = fun _ => lossAt E clamp entries [b] := by
    funext v
    refine congrArg List.sum (List.map_congr_left fun entry hentry => ?_)
    unfold entryLoss
    rw [List.set_cons_zero, sourceAt_singleton hE v (hentries entry hentry), sourceAt_singleton hE b (hentries entry hentry)]
  have hpartial : Megatron.partialAt E clamp [b] entries 0 = 0 := by
    have hsame : (entries.map fun entry => if entry.1 = 0 then activeProb E clamp [b] entry else 0) =
        entries.map (activeProb E clamp [b]) :=
      List.map_congr_left fun entry hentry => if_pos (Nat.lt_one_iff.1 (hentries entry hentry))
    have hexp : E.exp 0 = 1 := by
      have h := hE.exp_add 0 0
      rw [add_zero] at h
      exact (mul_eq_left₀ (hE.exp_pos 0).ne').1 h.symm
    have hlogp := @sourceAt_singleton E hE b (0, 0) Nat.zero_lt_one
    unfold sourceAt at hlogp
    unfold Megatron.partialAt
    rw [hlogp, hexp, one_mul, hsame, sub_self]
  rw [hconst, hpartial]
  exact hasDerivAt_const a _

/-! ## A log-prob at the clamp -/

theorem excess_nonneg (hE : E.Lawful) (bound : ℝ) (x y : List ℝ) (entry : ℕ × ℝ) : 0 ≤ excess E bound x y entry := by
  refine mul_nonneg (hE.exp_pos _).le ?_
  split
  · exact sub_nonneg.2 (le_max_left _ _)
  · exact sub_nonneg.2 (le_max_right _ _)

/-- **A log-prob at the clamp has no partial derivative**, if there is more than one token. -/
theorem one_of_hasDerivAt (hE : E.Lawful) (hderiv : ∀ a, HasDerivAt E.exp (E.exp a) a) {bound : ℝ} {entries : List (ℕ × ℝ)}
    (hentries : ∀ entry ∈ entries, entry.1 < x.length) (hle : ∀ entry ∈ entries, bound ≤ sourceAt E x entry)
    {entry : ℕ × ℝ} (hentry : entry ∈ entries) (hkink : sourceAt E x entry = bound) (ha : x[entry.1]? = some a) {d : ℝ}
    (hd : HasDerivAt (fun v => lossAt E (some bound) entries (x.set entry.1 v)) d a) : x.length = 1 := by
  have hself : x.set entry.1 a = x := set_self ha
  set prob := E.exp ((rowLogps E x).getD entry.1 0) with hprob
  -- the excess has a derivative as the loss has, and is least at the row
  have hzero : ∀ e ∈ entries, excess E bound x x e = 0 := by
    intro e he
    unfold excess
    rw [max_eq_left (hle e he)]
    split
    · rw [sub_self, mul_zero]
    · rename_i hnot
      rw [le_antisymm (not_lt.1 hnot) (hle e he), sub_self, mul_zero]
  have hexcess : ∃ d', HasDerivAt (fun v => (entries.map (excess E bound x (x.set entry.1 v))).sum) d' a := by
    have hlinear := hasDerivAt_sum (l := entries) (a := a)
      (f := fun e v => E.exp (clampMin (some bound) e.2) * (clampMin (some bound) e.2 -
        if bound < sourceAt E x e then sourceAt E (x.set entry.1 v) e else bound))
      (d := fun e => E.exp (clampMin (some bound) e.2) * -(if bound < sourceAt E x e
        then (if e.1 = entry.1 then 1 else 0) - prob else 0)) (by
        intro e he
        refine HasDerivAt.const_mul _ ?_
        by_cases hlt : bound < sourceAt E x e
        · simp only [hlt, if_true]
          exact (hasDerivAt_sourceAt hE hderiv ha (hentries e he)).const_sub _
        · simp only [hlt, if_false]
          exact (hasDerivAt_const a _).congr_deriv (by rw [neg_zero]))
    refine ⟨_, (hlinear.sub hd).congr_of_eventuallyEq (Filter.Eventually.of_forall fun v => ?_)⟩
    simp only [lossAt, Pi.sub_apply]
    rw [← sum_map_sub]
    refine congrArg List.sum (List.map_congr_left fun e _ => ?_)
    unfold excess entryLoss
    simp only [clampMin]
    ring
  obtain ⟨d', hd'⟩ := hexcess
  have hsum : ∀ v, 0 ≤ (entries.map (excess E bound x (x.set entry.1 v))).sum := by
    intro v
    refine List.sum_nonneg fun b hb => ?_
    obtain ⟨e, -, rfl⟩ := List.mem_map.1 hb
    exact excess_nonneg hE bound x _ e
  have hsumZero : (entries.map (excess E bound x (x.set entry.1 a))).sum = 0 := by
    rw [hself]
    refine List.sum_eq_zero fun b hb => ?_
    obtain ⟨e, he, rfl⟩ := List.mem_map.1 hb
    exact hzero e he
  have hleast : d' = 0 := by
    refine IsLocalMin.hasDerivAt_eq_zero (Filter.Eventually.of_forall fun v => ?_) hd'
    change (entries.map (excess E bound x (x.set entry.1 a))).sum ≤ _
    rw [hsumZero]
    exact hsum v
  -- it is at least the linear term of the entry at the clamp, which has the same value at the row
  have hterm := ((hasDerivAt_sourceAt hE hderiv ha (hentries entry hentry)).sub_const bound).const_mul
    (E.exp (clampMin (some bound) entry.2))
  have hdiff := hd'.sub hterm
  have hkinkZero : d' - E.exp (clampMin (some bound) entry.2) * ((if entry.1 = entry.1 then 1 else 0) - prob) = 0 := by
    refine IsLocalMin.hasDerivAt_eq_zero (Filter.Eventually.of_forall fun v => ?_) hdiff
    change (entries.map (excess E bound x (x.set entry.1 a))).sum -
      E.exp (clampMin (some bound) entry.2) * (sourceAt E (x.set entry.1 a) entry - bound) ≤
        (entries.map (excess E bound x (x.set entry.1 v))).sum -
          E.exp (clampMin (some bound) entry.2) * (sourceAt E (x.set entry.1 v) entry - bound)
    rw [hsumZero, hself, hkink, sub_self, mul_zero, sub_self, sub_nonneg]
    have hone : excess E bound x (x.set entry.1 v) entry ≤ (entries.map (excess E bound x (x.set entry.1 v))).sum := by
      refine List.single_le_sum (fun b hb => ?_) _ (List.mem_map.2 ⟨entry, hentry, rfl⟩)
      obtain ⟨e, -, rfl⟩ := List.mem_map.1 hb
      exact excess_nonneg hE bound x _ e
    refine le_trans ?_ hone
    unfold excess
    rw [if_neg (by rw [hkink]; exact lt_irrefl _)]
    exact mul_le_mul_of_nonneg_left (sub_le_sub_right (le_max_left _ _) _) (hE.exp_pos _).le
  have hprobOne : prob = 1 := by
    rw [hleast, if_pos rfl, zero_sub, neg_eq_zero, mul_eq_zero] at hkinkZero
    have := hkinkZero.resolve_left (hE.exp_pos _).ne'
    linarith
  -- all of the probability is on one token
  rw [hprob, exp_rowLogps hE ha] at hprobOne
  have hx : x ≠ [] := by
    rintro rfl
    cases ha
  have hall : E.exp a = E.sumExp x := (div_eq_one_iff_eq (ExpLog.sumExp_pos hE hx).ne').1 hprobOne
  obtain ⟨hlt, rfl⟩ := List.getElem?_eq_some_iff.1 ha
  have hrest : E.sumExp (x.eraseIdx entry.1) = 0 := by
    have hperm := ((List.getElem_cons_eraseIdx_perm hlt).map E.exp).sum_eq
    rw [List.map_cons, List.sum_cons] at hperm
    unfold ExpLog.sumExp at hall ⊢
    linarith
  have hnil : x.eraseIdx entry.1 = [] := by
    by_contra hne
    exact (ExpLog.sumExp_pos hE hne).ne' hrest
  have hlen := congrArg List.length hnil
  rw [List.length_eraseIdx_of_lt hlt, List.length_nil] at hlen
  omega

end Real

end Opd.Verl.DistillationLosses

import Opd.Verl.ValueLoss

/-!
# Advantages of tokens

GAE and REINFORCE++ run backwards over a row and carry what is known of the later tokens. GAE carries it over the
observations, REINFORCE++ drops it there.

* `gae_valid`: GAE at the valid tokens is GAE of the valid tokens.
* `rppReturns_iff`: REINFORCE++ credits every valid token exactly when the tokens behind a gap have no discounted rewards.
-/

namespace Opd.Verl.TokenAdvantage

variable {K : Type} [Field K]

/-! ## Whitening -/

/-- `masked_var`, unbiased. -/
def maskedVar (l : List (K × Bool)) : Except String K :=
  let mean := maskedMean l
  let variance := maskedMean (mapEntries (fun x => (x - mean) ^ 2) l)
  let maskSum := tokenCount l
  if maskSum = 0 then .error "At least one element in the mask has to be 1."
  else if maskSum = 1 then .error "The sum of the mask is one, which can cause a division by zero."
  else .ok (variance * ((maskSum : K) / ((maskSum : K) - 1)))

/-- `masked_whiten`, with `torch.rsqrt`. -/
def maskedWhiten (rsqrt : K → K) (rows : List (List (K × Bool))) : Except String (List (List K)) :=
  let mean := maskedMean rows.flatten
  (maskedVar rows.flatten).map fun var => rows.map fun row => row.map fun p => (p.1 - mean) * rsqrt (var + eps)

def withMask {α : Type} (values : List K) (row : List (α × Bool)) : List (K × Bool) := values.zip (row.map Prod.snd)

/-! ## GAE -/

structure ValueToken (K : Type) where
  reward : K
  value : K

/-- The variables of the loop of `compute_gae_advantage_return`, of a row. -/
structure GaeState (K : Type) where
  nextvalues : K
  lastgaelam : K
  advantages : List K

def gaeStep (gamma lam : K) (tok : ValueToken K × Bool) (s : GaeState K) : GaeState K :=
  let delta := tok.1.reward + gamma * s.nextvalues - tok.1.value
  let lastgaelam' := delta + gamma * lam * s.lastgaelam
  let lastgaelam := lastgaelam' * mask01 tok.2 + (1 - mask01 tok.2) * s.lastgaelam
  ⟨tok.1.value * mask01 tok.2 + (1 - mask01 tok.2) * s.nextvalues, lastgaelam, lastgaelam :: s.advantages⟩

/-- The loop over `reversed(range(gen_len))`. -/
def gaeLoop (gamma lam : K) (row : List (ValueToken K × Bool)) : GaeState K := row.foldr (gaeStep gamma lam) ⟨0, 0, []⟩

def gaeAdvantages (gamma lam : K) (row : List (ValueToken K × Bool)) : List K := (gaeLoop gamma lam row).advantages

/-- `compute_gae_advantage_return`: the advantages and the returns. -/
def computeGaeAdvantageReturn (rsqrt : K → K) (gamma lam : K) (m : LossMat (ValueToken K)) :
    Except String (List (List K) × List (List K)) :=
  if m.width = 0 then .error "stack expects a non-empty TensorList"
  else
    let advantages := m.rows.map (gaeAdvantages gamma lam)
    let returns := List.zipWith (List.zipWith fun a tok => a + tok.1.value) advantages m.rows
    (maskedWhiten rsqrt (List.zipWith withMask advantages m.rows)).map fun whitened => (whitened, returns)

def nextValue : List (ValueToken K) → K
  | [] => 0
  | tok :: _ => tok.value

def gae (gamma lam : K) : List (ValueToken K) → List K
  | [] => []
  | tok :: rest =>
    let later := gae gamma lam rest
    (tok.reward + gamma * nextValue rest - tok.value + gamma * lam * later.headD 0) :: later

def validTokens {α : Type} (row : List (α × Bool)) : List α := (row.filter Prod.snd).map Prod.fst

/-! ## REINFORCE++ -/

/-- The loop body of `compute_reinforce_plus_plus_outcome_advantage`: the running return and the returns of a row. -/
def rppStep (gamma : K) (tok : K × Bool) (s : K × List K) : K × List K :=
  let runningReturn := tok.1 + gamma * s.1
  -- "Reset after EOS"
  (runningReturn * mask01 tok.2, runningReturn :: s.2)

def rppReturns (gamma : K) (row : List (K × Bool)) : List K := (row.foldr (rppStep gamma) (0, [])).2

/-- `compute_reinforce_plus_plus_outcome_advantage`: the advantages and the returns. -/
def computeReinforcePlusPlusOutcomeAdvantage (rsqrt : K → K) (gamma : K) (m : LossMat K) :
    Except String (List (List K) × List (List K)) :=
  let returns := m.rows.map (rppReturns gamma)
  (maskedWhiten rsqrt (List.zipWith withMask returns m.rows)).map fun whitened =>
    (List.zipWith (List.zipWith fun a tok => a * mask01 tok.2) whitened m.rows, returns)

def discounted (gamma : K) : List K → K
  | [] => 0
  | r :: rest => r + gamma * discounted gamma rest

/-! ## The valid tokens -/

section Valid

variable {α : Type}

theorem validTokens_cons_true (a : α) (row : List (α × Bool)) : validTokens ((a, true) :: row) = a :: validTokens row := rfl

theorem validTokens_cons_false (a : α) (row : List (α × Bool)) : validTokens ((a, false) :: row) = validTokens row := rfl

def validBefore (row : List (α × Bool)) (t : ℕ) : ℕ := (row.take t).countP Prod.snd

end Valid

/-! ## GAE of the valid tokens -/

/-- **What the loop carries** over the observations. -/
theorem gaeLoop_valid (gamma lam : K) (row : List (ValueToken K × Bool)) :
    (gaeLoop gamma lam row).nextvalues = nextValue (validTokens row) ∧
      (gaeLoop gamma lam row).lastgaelam = (gae gamma lam (validTokens row)).headD 0 := by
  induction row with
  | nil => exact ⟨rfl, rfl⟩
  | cons p row ih =>
    obtain ⟨tok, valid⟩ := p
    obtain ⟨hnext, hlast⟩ := ih
    have hloop : gaeLoop gamma lam ((tok, valid) :: row) = gaeStep gamma lam (tok, valid) (gaeLoop gamma lam row) := rfl
    rw [hloop]
    cases valid with
    | true =>
      rw [validTokens_cons_true]
      simp only [gaeStep, gae, nextValue, mask01, if_true, mul_one, sub_self, zero_mul, add_zero, hnext, hlast,
        List.headD_cons, and_self]
    | false =>
      rw [validTokens_cons_false]
      simp only [gaeStep, mask01, Bool.false_eq_true, if_false, mul_zero, sub_zero, one_mul, zero_add, hnext, hlast,
        and_self]

/-- **GAE at the valid tokens** is GAE of the valid tokens. -/
theorem gaeAdvantages_valid (gamma lam : K) {row : List (ValueToken K × Bool)} {t : ℕ} {tok : ValueToken K}
    (htok : row[t]? = some (tok, true)) : ∃ a, (gaeAdvantages gamma lam row)[t]? = some a ∧
      (gae gamma lam (validTokens row))[validBefore row t]? = some a := by
  induction row generalizing t with
  | nil => cases htok
  | cons p row ih =>
    obtain ⟨tok', valid⟩ := p
    have hadvantages : gaeAdvantages gamma lam ((tok', valid) :: row) =
        (gaeLoop gamma lam ((tok', valid) :: row)).lastgaelam :: gaeAdvantages gamma lam row := rfl
    rw [hadvantages]
    cases t with
    | zero =>
      obtain ⟨rfl, rfl⟩ := Prod.mk.inj (Option.some.inj htok)
      have hlast := (gaeLoop_valid gamma lam ((tok', true) :: row)).2
      rw [validTokens_cons_true] at hlast ⊢
      exact ⟨_, rfl, congrArg some hlast.symm⟩
    | succ t =>
      obtain ⟨a, hadvantage, hgae⟩ := ih htok
      refine ⟨a, hadvantage, ?_⟩
      unfold validBefore at hgae ⊢
      cases valid with
      | true =>
        rw [validTokens_cons_true, List.take_succ_cons, List.countP_cons_of_pos rfl]
        exact hgae
      | false =>
        rw [validTokens_cons_false, List.take_succ_cons, List.countP_cons_of_neg Bool.false_ne_true]
        exact hgae

theorem validBefore_congr {α β : Type} {row : List (α × Bool)} {other : List (β × Bool)}
    (h : other.map Prod.snd = row.map Prod.snd) (t : ℕ) : validBefore other t = validBefore row t := by
  have hcount : ∀ {γ : Type} (l : List (γ × Bool)), validBefore l t = ((l.map Prod.snd).take t).count true := by
    intro γ l
    unfold validBefore
    rw [← List.map_take, List.count, List.countP_map]
    exact List.countP_congr fun p _ => by simp
  rw [hcount, hcount, h]

/-- **GAE ignores observations**: at a valid token the advantage is that of the sequence of the valid tokens, and it does
not change with what is put on the observations. -/
theorem gae_valid (gamma lam : K) (rows : List (List (ValueToken K × Bool))) (i : ℕ)
    (row : List (ValueToken K × Bool)) (hrow : rows[i]? = some row) (t : ℕ) (tok : ValueToken K)
    (htok : row[t]? = some (tok, true)) :
    (∃ advantages a, (rows.map (gaeAdvantages gamma lam))[i]? = some advantages ∧ advantages[t]? = some a ∧
      (gae gamma lam (validTokens row))[validBefore row t]? = some a) ∧
    ∀ other : List (ValueToken K × Bool), other.map Prod.snd = row.map Prod.snd → validTokens other = validTokens row →
      (gaeAdvantages gamma lam other)[t]? = (gaeAdvantages gamma lam row)[t]? := by
  obtain ⟨a, hadvantage, hgae⟩ := gaeAdvantages_valid gamma lam htok
  refine ⟨⟨_, a, ?_, hadvantage, hgae⟩, fun other hmask hvalid => ?_⟩
  · rw [List.getElem?_map, hrow, Option.map_some]
  · obtain ⟨tok', htok'⟩ : ∃ tok', other[t]? = some (tok', true) := by
      have hflag : (other.map Prod.snd)[t]? = some true := by
        rw [hmask, List.getElem?_map, htok]
        rfl
      rw [List.getElem?_map, Option.map_eq_some_iff] at hflag
      obtain ⟨⟨tok', valid⟩, hother, rfl⟩ := hflag
      exact ⟨tok', hother⟩
    obtain ⟨b, hother, hgaeOther⟩ := gaeAdvantages_valid gamma lam htok'
    rw [hvalid, validBefore_congr hmask, hgae] at hgaeOther
    rw [hother, hadvantage, hgaeOther]

theorem gae_valid_gap : (∃ advantages a, ([[(⟨1, 2⟩, true), (⟨5, 7⟩, false), (⟨3, 4⟩, true)]].map
      (gaeAdvantages (1 / 2 : ℚ) 1))[0]? = some advantages ∧ advantages[2]? = some a ∧
      (gae (1 / 2 : ℚ) 1 [⟨1, 2⟩, ⟨3, 4⟩])[1]? = some a) ∧
    ∀ other : List (ValueToken ℚ × Bool), other.map Prod.snd = [true, false, true] →
      validTokens other = [⟨1, 2⟩, ⟨3, 4⟩] → (gaeAdvantages (1 / 2) 1 other)[2]? =
        (gaeAdvantages (1 / 2 : ℚ) 1 [(⟨1, 2⟩, true), (⟨5, 7⟩, false), (⟨3, 4⟩, true)])[2]? :=
  gae_valid (1 / 2) 1 [[(⟨1, 2⟩, true), (⟨5, 7⟩, false), (⟨3, 4⟩, true)]] 0 _ rfl 2 ⟨3, 4⟩ rfl

/-! ## The returns of REINFORCE++ -/

def carried (gamma : K) (row : List (K × Bool)) : K := (row.foldr (rppStep gamma) (0, [])).1

theorem carried_cons (gamma r : K) (valid : Bool) (row : List (K × Bool)) :
    carried gamma ((r, valid) :: row) = (r + gamma * carried gamma row) * mask01 valid := rfl

theorem rppReturns_cons (gamma r : K) (valid : Bool) (row : List (K × Bool)) :
    rppReturns gamma ((r, valid) :: row) = (r + gamma * carried gamma row) :: rppReturns gamma row := rfl

variable {row : List (K × Bool)}

theorem getElem?_rppReturns (gamma : K) {t : ℕ} {r : K} {valid : Bool} (h : row[t]? = some (r, valid)) :
    (rppReturns gamma row)[t]? = some (r + gamma * carried gamma (row.drop (t + 1))) := by
  induction row generalizing t with
  | nil => cases h
  | cons p row ih =>
    obtain ⟨r', valid'⟩ := p
    rw [rppReturns_cons]
    cases t with
    | zero =>
      obtain ⟨rfl, -⟩ := Prod.mk.inj (Option.some.inj h)
      rfl
    | succ t => exact ih h

theorem carried_observation (gamma : K) {o : K} (h : row[0]? = some (o, false)) : carried gamma row = 0 := by
  cases row with
  | nil => cases h
  | cons p row =>
    obtain rfl := Option.some.inj h
    rw [carried_cons, mask01, if_neg Bool.false_ne_true, mul_zero]

/-- Every valid token of a row is credited with the discounted rewards of the valid tokens from it on. -/
def Credited (gamma : K) (row : List (K × Bool)) (returns : List K) : Prop :=
  ∀ (t : ℕ) (r : K), row[t]? = some (r, true) → returns[t]? = some (discounted gamma (validTokens (row.drop t)))

/-- Behind the last token of a turn with observations behind it there are no discounted rewards. -/
def GapsSilent (gamma : K) (row : List (K × Bool)) : Prop :=
  ∀ (t : ℕ) (r o : K), row[t]? = some (r, true) → row[t + 1]? = some (o, false) →
    gamma * discounted gamma (validTokens (row.drop (t + 1))) = 0

theorem discounted_valid (gamma : K) {t : ℕ} {r : K} (h : row[t]? = some (r, true)) :
    discounted gamma (validTokens (row.drop t)) = r + gamma * discounted gamma (validTokens (row.drop (t + 1))) := by
  obtain ⟨hlt, hget⟩ := List.getElem?_eq_some_iff.1 h
  rw [List.drop_eq_getElem_cons hlt, hget, validTokens_cons_true]
  rfl

theorem gapsSilent_of_credited {gamma : K} (h : Credited gamma row (rppReturns gamma row)) :
    GapsSilent gamma row := by
  intro t r o hvalid hgap
  have hreturn := h t r hvalid
  have hreset : carried gamma (row.drop (t + 1)) = 0 := by
    apply carried_observation
    rw [List.getElem?_drop]
    exact hgap
  rw [getElem?_rppReturns gamma hvalid, discounted_valid gamma hvalid, hreset, mul_zero] at hreturn
  exact (add_left_cancel (Option.some.inj hreturn)).symm

theorem credited_of_gapsSilent {gamma : K} (h : GapsSilent gamma row) :
    Credited gamma row (rppReturns gamma row) := by
  induction row with
  | nil => exact fun t r ht => by cases ht
  | cons p row ih =>
    obtain ⟨r', valid⟩ := p
    have hrow : Credited gamma row (rppReturns gamma row) := ih fun t r o hvalid hgap => h (t + 1) r o hvalid hgap
    intro t r ht
    cases t with
    | succ t => exact hrow t r ht
    | zero =>
      obtain ⟨rfl, rfl⟩ := Prod.mk.inj (Option.some.inj ht)
      rw [rppReturns_cons, discounted_valid gamma ht, List.getElem?_cons_zero]
      refine congrArg some (congrArg (r' + ·) ?_)
      show gamma * carried gamma row = gamma * discounted gamma (validTokens row)
      -- what the next token leaves
      cases row with
      | nil => rfl
      | cons q row =>
        obtain ⟨o, next⟩ := q
        cases next with
        | true =>
          have hnext := hrow 0 o rfl
          rw [rppReturns_cons, List.getElem?_cons_zero] at hnext
          rw [carried_cons, mask01, if_pos rfl, mul_one, Option.some.inj hnext]
          rfl
        | false =>
          rw [carried_observation gamma rfl, mul_zero]
          exact (h 0 r' o rfl rfl).symm

theorem rppReturns_iff (gamma : K) (row : List (K × Bool)) :
    Credited gamma row (rppReturns gamma row) ↔ GapsSilent gamma row :=
  ⟨gapsSilent_of_credited, credited_of_gapsSilent⟩

theorem gapsSilent_of_count_le_one (gamma : K) (h : tokenCount row ≤ 1) : GapsSilent gamma row := by
  intro t r o hvalid _
  have hnone : validTokens (row.drop (t + 1)) = [] := by
    have hsplit : tokenCount row = tokenCount (row.take t) + (1 + tokenCount (row.drop (t + 1))) := by
      obtain ⟨hlt, hget⟩ := List.getElem?_eq_some_iff.1 hvalid
      conv_lhs => rw [← List.take_append_drop t row, List.drop_eq_getElem_cons hlt, hget]
      unfold tokenCount
      rw [List.countP_append, List.countP_cons_of_pos rfl, Nat.add_comm 1]
    have hzero : tokenCount (row.drop (t + 1)) = 0 := by omega
    unfold validTokens
    rw [List.filter_eq_nil_iff.2 (List.countP_eq_zero.1 hzero), List.map_nil]
  rw [hnone]
  exact mul_zero gamma

/-! ## The advantages are returned -/

omit [Field K] in
theorem map_snd_withMask {α : Type} {values : List K} {row : List (α × Bool)} (h : values.length = row.length) :
    (withMask values row).map Prod.snd = row.map Prod.snd := by
  unfold withMask
  exact List.map_snd_zip (by rw [List.length_map, h])

omit [Field K] in
theorem tokenCount_withMask {values : List K} (h : values.length = row.length) :
    tokenCount (withMask values row) = tokenCount row := by
  have hmap := congrArg (fun l : List Bool => l.countP id) (map_snd_withMask h)
  simpa only [List.countP_map, tokenCount, Function.comp_def, id] using hmap

theorem length_rppReturns (gamma : K) (row : List (K × Bool)) : (rppReturns gamma row).length = row.length := by
  unfold rppReturns
  induction row with
  | nil => rfl
  | cons tok row ih => exact congrArg (· + 1) ih

theorem tokenCount_returns (gamma : K) (rows : List (List (K × Bool))) :
    tokenCount (List.zipWith withMask (rows.map (rppReturns gamma)) rows).flatten = tokenCount rows.flatten := by
  induction rows with
  | nil => rfl
  | cons row rows ih =>
    unfold tokenCount at ih ⊢
    rw [List.map_cons, List.zipWith_cons_cons, List.flatten_cons, List.flatten_cons, List.countP_append,
      List.countP_append, ih]
    exact congrArg (· + _) (tokenCount_withMask (length_rppReturns gamma row))

theorem rpp_ok (rsqrt : K → K) (gamma : K) (m : LossMat K) :
    (∃ advantages, computeReinforcePlusPlusOutcomeAdvantage rsqrt gamma m =
      .ok (advantages, m.rows.map (rppReturns gamma))) ∧ 2 ≤ tokenCount m.rows.flatten ∨
    (∃ e, computeReinforcePlusPlusOutcomeAdvantage rsqrt gamma m = .error e) ∧ tokenCount m.rows.flatten ≤ 1 := by
  unfold computeReinforcePlusPlusOutcomeAdvantage maskedWhiten maskedVar
  simp only [tokenCount_returns]
  by_cases hzero : tokenCount m.rows.flatten = 0
  · exact .inr ⟨⟨_, by rw [if_pos hzero]; rfl⟩, by omega⟩
  · by_cases hone : tokenCount m.rows.flatten = 1
    · exact .inr ⟨⟨_, by rw [if_neg hzero, if_pos hone]; rfl⟩, by omega⟩
    · exact .inl ⟨⟨_, by rw [if_neg hzero, if_neg hone]; rfl⟩, by omega⟩

/-- **When REINFORCE++ credits every valid token** with the rewards of this and all later valid tokens. -/
theorem reinforcePlusPlus_iff (rsqrt : K → K) (gamma : K) (m : LossMat K) :
    (∀ advantages returns, computeReinforcePlusPlusOutcomeAdvantage rsqrt gamma m = .ok (advantages, returns) →
      List.Forall₂ (Credited gamma) m.rows returns) ↔ ∀ row ∈ m.rows, GapsSilent gamma row := by
  rcases rpp_ok rsqrt gamma m with ⟨⟨advantages, hok⟩, -⟩ | ⟨⟨e, herror⟩, hcount⟩
  · constructor
    · intro h row hrow
      have hcredited := h _ _ hok
      rw [List.forall₂_map_right_iff, List.forall₂_same] at hcredited
      exact gapsSilent_of_credited (hcredited row hrow)
    · intro h advantages' returns hreturns
      rw [hok] at hreturns
      obtain ⟨-, rfl⟩ := Prod.mk.inj (Except.ok.inj hreturns)
      rw [List.forall₂_map_right_iff, List.forall₂_same]
      exact fun row hrow => credited_of_gapsSilent (h row hrow)
  -- nothing is returned, and there is no gap
  · refine ⟨fun _ row hrow => gapsSilent_of_count_le_one gamma ?_, fun _ advantages returns h => ?_⟩
    · refine Nat.le_trans ?_ hcount
      exact (List.sublist_flatten_of_mem hrow).countP_le
    · rw [herror] at h
      cases h

/-- Two turns with an observation between them and the outcome reward on the last token. -/
def twoTurns : LossMat ℚ where
  width := 3
  rows := [[(0, true), (0, false), (1, true)]]
  row_length := by decide

/-- **The outcome reward does not reach the first turn.** -/
theorem not_credited_twoTurns : ¬ ∀ advantages returns,
    computeReinforcePlusPlusOutcomeAdvantage id 1 twoTurns = .ok (advantages, returns) →
      List.Forall₂ (Credited 1) twoTurns.rows returns := by
  intro h
  rcases rpp_ok id 1 twoTurns with ⟨⟨advantages, hok⟩, -⟩ | ⟨-, hcount⟩
  · obtain ⟨hcredited, -⟩ := List.forall₂_cons.1 (h _ _ hok)
    have hfirst := gapsSilent_of_credited hcredited 0 0 0 rfl rfl
    revert hfirst
    decide +kernel
  · revert hcount
    decide

end Opd.Verl.TokenAdvantage

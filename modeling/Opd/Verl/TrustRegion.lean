import Mathlib.Algebra.BigOperators.Group.List.Basic
import Opd.Lib.Tensor
import Opd.Verl.BypassMode

/-!
# The trust region of the rejection mask

`compute_rollout_rejection_mask` parses a chain of options with their thresholds, and keeps the tokens that all of
them accept. The thresholds of the `k1` options are documented as bounds of the importance ratio, but the statistic is
the negative log-ratio, so that they are bounds of its reciprocal.

* `parseCriteria`: the options and thresholds of the two strings.
* `rejectRow_eq`: a token is kept when it is valid and every option keeps it.
* `keeps_iff`: what the options test.
* `rejectionMask_iff`: when the tokens in the documented bounds are kept.
-/

namespace Opd.Verl.TrustRegion

open Lib RolloutCorr BypassMode

/-! ## Options and thresholds -/

/-- The characters that `str.strip` removes. -/
def isSpace (c : Char) : Bool :=
  c.toNat ∈ [9, 10, 11, 12, 13, 28, 29, 30, 31, 32, 133, 160, 5760, 8192, 8193, 8194, 8195, 8196, 8197, 8198, 8199,
    8200, 8201, 8202, 8232, 8233, 8239, 8287, 12288]

/-- `str.strip` -/
def strip (s : String) : String :=
  String.ofList ((s.toList.dropWhile isSpace).reverse.dropWhile isSpace).reverse

/-- `[part.strip() for part in s.split(",") if part.strip()]` -/
def entries (s : String) : List String :=
  ((s.toList.splitOn ',').map fun part => strip (String.ofList part)).filter (· ≠ "")

/-- `SUPPORTED_ROLLOUT_RS_OPTIONS` -/
def supportedOptions : List RsOption :=
  [.token .k1, .token .k2, .token .k3, .seqSum .k1, .seqSum .k2, .seqSum .k3, .seqMean .k1, .seqMean .k2,
    .seqMean .k3, .seqMax .k2 (by decide), .seqMax .k3 (by decide)]

def optionOf (name : String) : Option RsOption := supportedOptions.find? fun option => option.name = name

/-- A pass of the loop over `option_modes`. -/
def normalizeStep (normalized : List RsOption) (opt : String) : Except String (List RsOption) :=
  match optionOf opt with
  | none => .error ("Invalid rollout_rs option: " ++ opt ++ ". Must be one of ['seq_max_k2', 'seq_max_k3', " ++
      "'seq_mean_k1', 'seq_mean_k2', 'seq_mean_k3', 'seq_sum_k1', 'seq_sum_k2', 'seq_sum_k3', 'token_k1', " ++
      "'token_k2', 'token_k3'].")
  | some option => .ok (if option ∈ normalized then normalized else normalized ++ [option])

/-- `normalized_options` -/
def normalizedOptions (rolloutRs : String) : Except String (List RsOption) :=
  if entries rolloutRs = [] then .error "rollout_rs must contain at least one valid option."
  else (entries rolloutRs).foldlM normalizeStep []

section Thresholds

variable {K : Type} [Field K] [LinearOrder K]

/-- `spec.split("_", 1)`, of a text with an underscore. -/
def splitUnderscore (spec : String) : String × String :=
  (String.ofList (spec.toList.takeWhile (· ≠ '_')), String.ofList (spec.toList.dropWhile (· ≠ '_')).tail)

/-- The bounds of a `k1` option. A single number is the upper bound, and its reciprocal the lower one. -/
def k1Bounds (float : String → Option K) (option : RsOption) (spec : String) : Except String (K × K) :=
  if '_' ∈ spec.toList then
    match float (splitUnderscore spec).1, float (splitUnderscore spec).2 with
    | some lower, some upper => .ok (lower, upper)
    | _, _ => .error ("Invalid numeric threshold '" ++ spec ++ "' for option '" ++ option.name ++ "'.")
  else
    match float spec with
    | none => .error ("could not convert string to float: '" ++ spec ++ "'")
    | some upper => if upper = 0 then .error "float division by zero" else .ok (1 / upper, upper)

/-- The bound of a `k2` or `k3` option. -/
def upperBound (float : String → Option K) (option : RsOption) (spec : String) : Except String K :=
  if '_' ∈ spec.toList then
    .error ("rollout_rs_threshold for option '" ++ option.name ++ "' must provide a single upper bound " ++
      "without '_'. Received '" ++ spec ++ "'.")
  else
    match float spec with
    | none => .error ("Invalid numeric threshold '" ++ spec ++ "' for option '" ++ option.name ++ "'.")
    | some upper => .ok upper

/-- `thresholds[option]` -/
def parseSpec (float : String → Option K) (option : RsOption) (spec : String) : Except String (RsCriterion K) :=
  match option.estimator with
  | .k1 => (k1Bounds float option spec).bind fun bounds =>
    if h : 0 < bounds.1 ∧ 0 < bounds.2 then .ok ⟨option, bounds.1, bounds.2, h.1, h.2⟩
    else .error ("Thresholds for option '" ++ option.name ++ "' must be positive, got " ++ spec ++ ".")
  -- the lower bound is not read
  | _ => (upperBound float option spec).bind fun upper =>
    if h : 0 < upper then .ok ⟨option, upper, upper, h, h⟩
    else .error ("Threshold for option '" ++ option.name ++ "' must be positive, got " ++ spec ++ ".")

/-- `_parse_rollout_rs_thresholds`; a number is given as its `str`. -/
def parseRolloutRsThresholds (float : String → Option K) (options : List RsOption) (thresholdSpec : String) :
    Except String (List (RsCriterion K)) :=
  let rawSpecs := entries thresholdSpec
  if rawSpecs = [] then .error "rollout_rs_threshold must contain at least one threshold value."
  else if rawSpecs.length ≠ 1 ∧ rawSpecs.length ≠ options.length then
    .error ("rollout_rs_threshold expects either one threshold shared by all options or exactly " ++
      toString options.length ++ " thresholds to match the provided rollout_rs options.")
  else
    let specs := if rawSpecs.length = 1 ∧ 1 < options.length then (List.replicate options.length rawSpecs).flatten
      else rawSpecs
    (options.zip specs).mapM fun p => parseSpec float p.1 p.2

/-- The options with their thresholds. What is parsed is never empty and has no repetitions (`criteria_spec`). -/
def parseCriteria (float : String → Option K) (rolloutRs thresholdSpec : String) : Except String (RsCriteria K) :=
  (normalizedOptions rolloutRs).bind fun options =>
    (parseRolloutRsThresholds float options thresholdSpec).bind fun criteria =>
      if h : criteria ≠ [] ∧ (criteria.map (·.option)).Nodup then .ok ⟨criteria, h.1, h.2⟩ else .error ""

/-- `compute_rollout_rejection_mask` -/
def computeRejectionMask (E : Elementary K) (float : String → Option K) (rolloutRs thresholdSpec : String)
    (m : LossMat (PolicyToken K)) : Except String (LossMat (PolicyToken K) × Metrics K) :=
  if m.rows = [] then .ok (m, [])
  else (parseCriteria float rolloutRs thresholdSpec).bind fun criteria => computeRolloutRejectionMask E criteria m

end Thresholds

/-! ## What is parsed -/

theorem foldlM_normalizeStep {names : List String} {normalized options : List RsOption} (hnodup : normalized.Nodup)
    (h : names.foldlM normalizeStep normalized = .ok options) :
    options.Nodup ∧
      ∀ option, option ∈ options ↔ option ∈ normalized ∨ ∃ name ∈ names, optionOf name = some option := by
  induction names generalizing normalized with
  | nil =>
    obtain rfl := Except.ok.inj h
    exact ⟨hnodup, fun option => by simp⟩
  | cons name names ih =>
    rw [List.foldlM_cons] at h
    obtain ⟨next, hstep, hrest⟩ := bind_eq_ok.1 h
    unfold normalizeStep at hstep
    cases hoption : optionOf name with
    | none =>
      rw [hoption] at hstep
      cases hstep
    | some o =>
      rw [hoption] at hstep
      obtain rfl := Except.ok.inj hstep
      by_cases hseen : o ∈ normalized
      · rw [if_pos hseen] at hrest
        obtain ⟨hout, hmem⟩ := ih hnodup hrest
        refine ⟨hout, fun option => ?_⟩
        rw [hmem, List.exists_mem_cons_iff, hoption, Option.some_inj]
        constructor
        · rintro (hold | hnew)
          · exact .inl hold
          · exact .inr (.inr hnew)
        · rintro (hold | rfl | hnew)
          · exact .inl hold
          · exact .inl hseen
          · exact .inr hnew
      · rw [if_neg hseen] at hrest
        have hnext : (normalized ++ [o]).Nodup := by
          rw [List.nodup_append]
          refine ⟨hnodup, List.nodup_singleton o, ?_⟩
          rintro a ha b hb rfl
          exact hseen (List.mem_singleton.1 hb ▸ ha)
        obtain ⟨hout, hmem⟩ := ih hnext hrest
        refine ⟨hout, fun option => ?_⟩
        rw [hmem, List.exists_mem_cons_iff, hoption, Option.some_inj, List.mem_append, List.mem_singleton, or_assoc,
          @eq_comm _ option]

/-- **The options** are those of the names, once each. -/
theorem normalizedOptions_spec {rolloutRs : String} {options : List RsOption}
    (h : normalizedOptions rolloutRs = .ok options) :
    options ≠ [] ∧ options.Nodup ∧
      ∀ option, option ∈ options ↔ ∃ name ∈ entries rolloutRs, optionOf name = some option := by
  unfold normalizedOptions at h
  by_cases hempty : entries rolloutRs = []
  · rw [if_pos hempty] at h
    cases h
  · rw [if_neg hempty] at h
    obtain ⟨hnodup, hmem⟩ := foldlM_normalizeStep List.nodup_nil h
    refine ⟨?_, hnodup, fun option => by rw [hmem]; simp⟩
    rintro rfl
    obtain ⟨name, names, hnames⟩ := List.exists_cons_of_ne_nil hempty
    rw [hnames, List.foldlM_cons] at h
    obtain ⟨next, hstep, -⟩ := bind_eq_ok.1 h
    unfold normalizeStep at hstep
    cases hoption : optionOf name with
    | none =>
      rw [hoption] at hstep
      cases hstep
    | some o =>
      have hin := (hmem o).2 (.inr ⟨name, by rw [hnames]; exact List.mem_cons_self, hoption⟩)
      exact List.not_mem_nil hin

theorem mem_forall₂_ok {ε α β : Type} {f : α → Except ε β} {l : List α} {out : List β}
    (h : List.Forall₂ (fun a b => f a = .ok b) l out) (b : β) : b ∈ out ↔ ∃ a ∈ l, f a = .ok b := by
  induction h with
  | nil => simp
  | cons hf _ ih => rw [List.mem_cons, List.exists_mem_cons_iff, hf, Except.ok.injEq, ih, @eq_comm _ b]

section Parsed

variable {K : Type} [Field K] [LinearOrder K] {float : String → Option K}

theorem option_parseSpec {option : RsOption} {spec : String} {c : RsCriterion K}
    (h : parseSpec float option spec = .ok c) : c.option = option := by
  unfold parseSpec at h
  split at h
  · obtain ⟨bounds, -, h⟩ := bind_eq_ok.1 h
    split at h
    · obtain rfl := Except.ok.inj h
      rfl
    · cases h
  · obtain ⟨upper, -, h⟩ := bind_eq_ok.1 h
    split at h
    · obtain rfl := Except.ok.inj h
      rfl
    · cases h

/-- **Every option gets a threshold.** -/
theorem thresholds_spec {options : List RsOption} {thresholdSpec : String} {criteria : List (RsCriterion K)}
    (h : parseRolloutRsThresholds float options thresholdSpec = .ok criteria) (hne : options ≠ []) :
    criteria.map (·.option) = options ∧ ∀ spec, entries thresholdSpec = [spec] →
      ∀ c, c ∈ criteria ↔ ∃ option ∈ options, parseSpec float option spec = .ok c := by
  have hpos := List.length_pos_of_ne_nil hne
  unfold parseRolloutRsThresholds at h
  simp only at h
  by_cases hempty : entries thresholdSpec = []
  · rw [if_pos hempty] at h
    cases h
  rw [if_neg hempty] at h
  by_cases hcount : (entries thresholdSpec).length ≠ 1 ∧ (entries thresholdSpec).length ≠ options.length
  · rw [if_pos hcount] at h
    cases h
  rw [if_neg hcount] at h
  set specs := if (entries thresholdSpec).length = 1 ∧ 1 < options.length then
    (List.replicate options.length (entries thresholdSpec)).flatten else entries thresholdSpec with hspecs
  have hlength : specs.length = options.length := by
    rw [hspecs]
    split
    · rename_i hshared
      rw [List.length_flatten, List.map_replicate, hshared.1, List.sum_replicate_nat, Nat.mul_one]
    · rename_i hshared
      omega
  have hforall := mapM_eq_ok_iff.1 h
  constructor
  · have hfst : (options.zip specs).map Prod.fst = options := List.map_fst_zip (by omega)
    have hoptions : List.Forall₂ (· = ·) (criteria.map (·.option)) ((options.zip specs).map Prod.fst) := by
      rw [List.forall₂_map_left_iff, List.forall₂_map_right_iff]
      exact (hforall.imp fun p c hc => option_parseSpec hc).flip
    rw [List.forall₂_eq_eq_eq] at hoptions
    exact hoptions.trans hfst
  · intro spec hspec c
    have hzip : options.zip specs = options.map fun option => (option, spec) := by
      have hreplicate : specs = List.replicate options.length spec := by
        refine List.eq_replicate_iff.2 ⟨hlength, fun s hs => ?_⟩
        rw [hspecs, hspec] at hs
        split at hs
        · obtain ⟨l, hl, hs⟩ := List.mem_flatten.1 hs
          rw [(List.mem_replicate.1 hl).2] at hs
          exact List.mem_singleton.1 hs
        · exact List.mem_singleton.1 hs
      have hzip := @List.zip_map' _ _ _ id (fun _ => spec) options
      rw [List.map_id, List.map_const', ← hreplicate] at hzip
      exact hzip
    rw [hzip, List.forall₂_map_left_iff] at hforall
    exact mem_forall₂_ok hforall c

/-- **What is parsed**: the criteria are not empty and have no repetitions, so the last check never fails. -/
theorem criteria_spec {rolloutRs thresholdSpec : String} {options : List RsOption} {criteria : List (RsCriterion K)}
    (hoptions : normalizedOptions rolloutRs = .ok options)
    (hthresholds : parseRolloutRsThresholds float options thresholdSpec = .ok criteria) :
    ∃ h : criteria ≠ [] ∧ (criteria.map (·.option)).Nodup,
      parseCriteria float rolloutRs thresholdSpec = .ok ⟨criteria, h.1, h.2⟩ := by
  obtain ⟨hne, hnodup, -⟩ := normalizedOptions_spec hoptions
  obtain ⟨hmap, -⟩ := thresholds_spec hthresholds hne
  have hcriteria : criteria ≠ [] := by
    rintro rfl
    exact hne hmap.symm
  have hvalid : criteria ≠ [] ∧ (criteria.map (·.option)).Nodup := ⟨hcriteria, hmap ▸ hnodup⟩
  refine ⟨hvalid, ?_⟩
  unfold parseCriteria
  rw [hoptions, Except.bind, hthresholds, Except.bind, dif_pos hvalid]

theorem parseCriteria_parts {rolloutRs thresholdSpec : String} {criteria : RsCriteria K}
    (h : parseCriteria float rolloutRs thresholdSpec = .ok criteria) :
    ∃ options, normalizedOptions rolloutRs = .ok options ∧
      parseRolloutRsThresholds float options thresholdSpec = .ok criteria.criteria := by
  obtain ⟨options, hoptions, h⟩ := bind_eq_ok.1 h
  obtain ⟨parsed, hparsed, h⟩ := bind_eq_ok.1 h
  split at h
  · obtain rfl := Except.ok.inj h
    exact ⟨options, hoptions, hparsed⟩
  · cases h

theorem mem_criteria_shared {rolloutRs thresholdSpec spec : String} {criteria : RsCriteria K}
    (h : parseCriteria float rolloutRs thresholdSpec = .ok criteria) (hspec : entries thresholdSpec = [spec])
    (c : RsCriterion K) :
    c ∈ criteria.criteria ↔
      ∃ name ∈ entries rolloutRs, ∃ option, optionOf name = some option ∧ parseSpec float option spec = .ok c := by
  obtain ⟨options, hoptions, hthresholds⟩ := parseCriteria_parts h
  obtain ⟨hne, -, hmem⟩ := normalizedOptions_spec hoptions
  rw [(thresholds_spec hthresholds hne).2 spec hspec c]
  constructor
  · rintro ⟨option, hoption, hc⟩
    obtain ⟨name, hname, hof⟩ := (hmem option).1 hoption
    exact ⟨name, hname, option, hof, hc⟩
  · rintro ⟨name, hname, option, hof, hc⟩
    exact ⟨option, (hmem option).2 ⟨name, hname, hof⟩, hc⟩

end Parsed

/-! ## What the options test -/

section Region

variable {K : Type} [Field K] [LinearOrder K]

/-- What is known of `exp` and `log`. -/
structure ExpLaws (E : Elementary K) : Prop where
  exp_add : ∀ x y, E.exp (x + y) = E.exp x * E.exp y
  log_le_iff : ∀ x y, 0 < y → (E.log y ≤ x ↔ y ≤ E.exp x)
  le_log_iff : ∀ x y, 0 < y → (x ≤ E.log y ↔ E.exp x ≤ y)

/-- The importance ratio that a `k1` option bounds: that of the token, or the product or the geometric mean of the
row. The mean is that of `masked_mean`. -/
def importanceRatio (E : Elementary K) (option : RsOption) (row : Resp (PolicyToken K)) (t : PolicyToken K) : K :=
  match option with
  | .token _ => E.exp (clampSafe (logRatio t))
  | .seqSum _ => (validValues (mapEntries (fun t => E.exp (clampSafe (logRatio t))) row)).prod
  | .seqMean _ | .seqMax _ _ => E.exp (maskedMean (mapEntries (fun t => clampSafe (logRatio t)) row))

/-- The divergence that an option bounds: that of the token, or the sum, the mean or the maximum of the row. -/
def divergence (E : Elementary K) (option : RsOption) (row : Resp (PolicyToken K)) (t : PolicyToken K) : K :=
  match option with
  | .token k => tokenStat E k t
  | .seqSum _ | .seqMean _ | .seqMax _ _ => seqStat E option row

def inBounds (c : RsCriterion K) (ratio : K) : Bool := c.lower ≤ ratio ∧ ratio ≤ c.upper

/-- **The documented trust region**: a `k1` option accepts the ratios in its bounds, the others accept the divergences
up to the bound. -/
def accepts (E : Elementary K) (c : RsCriterion K) (row : Resp (PolicyToken K)) (t : PolicyToken K) : Bool :=
  match c.option.estimator with
  | .k1 => inBounds c (importanceRatio E c.option row t)
  | _ => divergence E c.option row t ≤ c.upper

def statAt (E : Elementary K) (option : RsOption) (row : Resp (PolicyToken K)) (t : PolicyToken K) : K :=
  if option.isToken then tokenStat E option.estimator t else seqStat E option row

theorem keepRow_eq (E : Elementary K) (c : RsCriterion K) (row : Resp (PolicyToken K)) :
    keepRow E c row = row.map fun p => keeps E c (statAt E c.option row p.1) := by
  unfold keepRow rsStatistic statAt mapEntries
  split <;>
  · rw [List.map_map]
    rfl

/-- **The combined mask**: every criterion keeps the token. -/
theorem combinedMask_eq (E : Elementary K) (criteria : List (RsCriterion K)) (row : Resp (PolicyToken K)) :
    combinedMask E criteria row =
      row.map fun p => criteria.all fun c => keeps E c (statAt E c.option row p.1) := by
  have hfold : ∀ (criteria : List (RsCriterion K)) (f : PolicyToken K × Bool → Bool),
      criteria.foldl (fun combined c => List.zipWith (· && ·) combined (keepRow E c row)) (row.map f) =
        row.map fun p => f p && criteria.all fun c => keeps E c (statAt E c.option row p.1) := by
    intro criteria
    induction criteria with
    | nil => exact fun f => by simp
    | cons c criteria ih =>
      intro f
      rw [List.foldl_cons, keepRow_eq, List.zipWith_map, List.zipWith_self, ih]
      refine List.map_congr_left fun p _ => ?_
      rw [List.all_cons, Bool.and_assoc]
  unfold combinedMask
  rw [hfold]
  exact List.map_congr_left fun p _ => Bool.true_and _

/-- **A token survives** when it is valid and every criterion keeps it. -/
theorem rejectRow_eq (E : Elementary K) (criteria : List (RsCriterion K)) (row : Resp (PolicyToken K)) :
    rejectRow E criteria row =
      row.map fun p => (p.1, p.2 && criteria.all fun c => keeps E c (statAt E c.option row p.1)) := by
  unfold rejectRow
  rw [combinedMask_eq, List.zipWith_map_right, List.zipWith_self]

namespace ExpLaws

variable {E : Elementary K}

theorem exp_zero (hE : ExpLaws E) : E.exp 0 = 1 := by
  have h := hE.exp_add 0 0
  rw [add_zero] at h
  exact (mul_eq_left₀ (E.exp_pos 0).ne').1 h.symm

theorem exp_neg (hE : ExpLaws E) (x : K) : E.exp (-x) = (E.exp x)⁻¹ := by
  have h := hE.exp_add x (-x)
  rw [add_neg_cancel, hE.exp_zero] at h
  exact eq_inv_of_mul_eq_one_right h.symm

theorem exp_maskedSum (hE : ExpLaws E) (f : PolicyToken K → K) (row : Resp (PolicyToken K)) :
    E.exp (maskedSum (mapEntries f row)) = (validValues (mapEntries (fun t => E.exp (f t)) row)).prod := by
  induction row with
  | nil => exact hE.exp_zero
  | cons p row ih =>
    unfold mapEntries validValues at ih ⊢
    rw [List.map_cons, maskedSum_cons, hE.exp_add, ih, List.map_cons]
    obtain ⟨t, valid⟩ := p
    cases valid
    · simp [hE.exp_zero]
    · simp

end ExpLaws

variable {E : Elementary K}

omit [LinearOrder K] in
theorem maskedSum_neg (f : PolicyToken K → K) (row : Resp (PolicyToken K)) :
    maskedSum (mapEntries (fun t => -f t) row) = -maskedSum (mapEntries f row) := by
  induction row with
  | nil => exact neg_zero.symm
  | cons p row ih =>
    unfold mapEntries at ih ⊢
    rw [List.map_cons, List.map_cons, maskedSum_cons, maskedSum_cons, ih]
    split <;> ring

theorem exp_neg_statAt (hE : ExpLaws E) {option : RsOption} (hk : option.estimator = .k1)
    (row : Resp (PolicyToken K)) (t : PolicyToken K) :
    E.exp (statAt E option row t) = (importanceRatio E option row t)⁻¹ := by
  have hstat : tokenStat E .k1 = fun t => -clampSafe (logRatio t) := rfl
  cases option with
  | token k =>
    obtain rfl : k = .k1 := hk
    exact hE.exp_neg _
  | seqSum k =>
    obtain rfl : k = .k1 := hk
    have hsum : statAt E (.seqSum .k1) row t = -maskedSum (mapEntries (fun t => clampSafe (logRatio t)) row) :=
      maskedSum_neg _ row
    rw [hsum, hE.exp_neg, hE.exp_maskedSum]
    rfl
  | seqMean k =>
    obtain rfl : k = .k1 := hk
    have hmean : statAt E (.seqMean .k1) row t = -maskedMean (mapEntries (fun t => clampSafe (logRatio t)) row) := by
      have hsum := maskedSum_neg (fun t => clampSafe (logRatio t)) row
      change maskedMean (mapEntries (fun t => -clampSafe (logRatio t)) row) = _
      unfold maskedMean
      rw [hsum, tokenCount_mapEntries, tokenCount_mapEntries, neg_div]
    rw [hmean, hE.exp_neg]
    rfl
  | seqMax k h => exact absurd hk h

/-- **What the options test**: `k1` options that the reciprocal of the ratio is in the bounds, the others the
divergence. -/
theorem keeps_iff (hE : ExpLaws E) (c : RsCriterion K) (row : Resp (PolicyToken K)) (t : PolicyToken K) :
    keeps E c (statAt E c.option row t) =
      if c.option.estimator = .k1 then inBounds c (importanceRatio E c.option row t)⁻¹ else accepts E c row t := by
  by_cases hk : c.option.estimator = .k1
  · have hlower := hE.log_le_iff (statAt E c.option row t) c.lower c.lower_pos
    have hupper := hE.le_log_iff (statAt E c.option row t) c.upper c.upper_pos
    rw [exp_neg_statAt hE hk] at hlower hupper
    rw [if_pos hk, Bool.eq_iff_iff]
    unfold keeps lowerThreshold upperThreshold inBounds
    simp only [hk, Option.all_some, Bool.and_eq_true, decide_eq_true_eq]
    rw [hlower, hupper]
  · have hdivergence : statAt E c.option row t = divergence E c.option row t := by
      cases c.option <;> rfl
    have hlower : lowerThreshold E c = none := by
      unfold lowerThreshold
      split
      · exact absurd ‹_› hk
      · rfl
    rw [if_neg hk]
    unfold keeps accepts upperThreshold
    rw [hlower, hdivergence]
    cases hestimator : c.option.estimator with
    | k1 => exact absurd hestimator hk
    | k2 => exact Bool.true_and _
    | k3 => exact Bool.true_and _

/-! ## When the documented region is kept -/

/-- The law of the rejection mask: the tokens of the documented region are kept, the chain is a set of options, and a
row option keeps all tokens of a row or none. -/
structure RejectionLaw (E : Elementary K) (float : String → Option K) (rolloutRs thresholdSpec : String)
    (criteria : RsCriteria K) (m : LossMat (PolicyToken K)) : Prop where
  succeeds : HasValidToken m → ∃ out, computeRejectionMask E float rolloutRs thresholdSpec m = .ok out
  region : ∀ modified metrics, computeRejectionMask E float rolloutRs thresholdSpec m = .ok (modified, metrics) →
    modified.rows =
      m.rows.map fun row => row.map fun p => (p.1, p.2 && criteria.criteria.all fun c => accepts E c row p.1)
  orderFree : ∀ rolloutRs' thresholdSpec' criteria',
    parseCriteria float rolloutRs' thresholdSpec' = .ok criteria' →
      ((∀ c, c ∈ criteria'.criteria ↔ c ∈ criteria.criteria) ∨
        ((∃ spec, entries thresholdSpec = [spec] ∧ entries thresholdSpec' = [spec]) ∧
          ∀ name, name ∈ entries rolloutRs' ↔ name ∈ entries rolloutRs)) →
      ∀ modified metrics modified' metrics',
        computeRejectionMask E float rolloutRs thresholdSpec m = .ok (modified, metrics) →
        computeRejectionMask E float rolloutRs' thresholdSpec' m = .ok (modified', metrics') →
        modified'.rows = modified.rows
  rowsWhole : ∀ c ∈ criteria.criteria, c.option.isToken = false → ∀ row,
    (keepRow E c row = row.map fun _ => true) ∨ (keepRow E c row = row.map fun _ => false)

/-- At every valid token that the other options accept, the ratios are in the bounds of the `k1` options exactly when
their reciprocals are. -/
def BoundsInvert (E : Elementary K) (criteria : RsCriteria K) (m : LossMat (PolicyToken K)) : Prop :=
  ∀ row ∈ m.rows, ∀ p ∈ row, p.2 = true →
    (∀ c ∈ criteria.criteria, c.option.estimator ≠ .k1 → accepts E c row p.1) →
      ((∀ c ∈ criteria.criteria, c.option.estimator = .k1 → inBounds c (importanceRatio E c.option row p.1)) ↔
        ∀ c ∈ criteria.criteria, c.option.estimator = .k1 → inBounds c (importanceRatio E c.option row p.1)⁻¹)

theorem all_split (criteria : List (RsCriterion K)) (f : RsCriterion K → Bool) :
    criteria.all f = true ↔
      (∀ c ∈ criteria, c.option.estimator ≠ .k1 → f c = true) ∧
        ∀ c ∈ criteria, c.option.estimator = .k1 → f c = true := by
  rw [List.all_eq_true]
  constructor
  · exact fun h => ⟨fun c hc _ => h c hc, fun c hc _ => h c hc⟩
  · rintro ⟨hother, hk1⟩ c hc
    by_cases hk : c.option.estimator = .k1
    · exact hk1 c hc hk
    · exact hother c hc hk

theorem all_keeps_eq_iff (hE : ExpLaws E) (criteria : List (RsCriterion K)) (row : Resp (PolicyToken K))
    (t : PolicyToken K) :
    ((criteria.all fun c => keeps E c (statAt E c.option row t)) = criteria.all fun c => accepts E c row t) ↔
      ((∀ c ∈ criteria, c.option.estimator ≠ .k1 → accepts E c row t) →
        ((∀ c ∈ criteria, c.option.estimator = .k1 → inBounds c (importanceRatio E c.option row t)) ↔
          ∀ c ∈ criteria, c.option.estimator = .k1 → inBounds c (importanceRatio E c.option row t)⁻¹)) := by
  have hkeeps : (criteria.all fun c => keeps E c (statAt E c.option row t)) = true ↔
      (∀ c ∈ criteria, c.option.estimator ≠ .k1 → accepts E c row t) ∧
        ∀ c ∈ criteria, c.option.estimator = .k1 → inBounds c (importanceRatio E c.option row t)⁻¹ := by
    rw [all_split]
    refine and_congr (forall₃_congr fun c _ hk => ?_) (forall₃_congr fun c _ hk => ?_)
    · rw [keeps_iff hE, if_neg hk]
    · rw [keeps_iff hE, if_pos hk]
  have haccepts : (criteria.all fun c => accepts E c row t) = true ↔
      (∀ c ∈ criteria, c.option.estimator ≠ .k1 → accepts E c row t) ∧
        ∀ c ∈ criteria, c.option.estimator = .k1 → inBounds c (importanceRatio E c.option row t) := by
    rw [all_split]
    refine and_congr_right fun _ => forall₃_congr fun c _ hk => ?_
    unfold accepts
    rw [hk]
  rw [Bool.eq_iff_iff, hkeeps, haccepts, and_congr_right_iff]
  exact imp_congr_right fun _ => iff_comm

theorem computeRejectionMask_rows {float : String → Option K} {rolloutRs thresholdSpec : String}
    {criteria : RsCriteria K} (hparse : parseCriteria float rolloutRs thresholdSpec = .ok criteria)
    {m modified : LossMat (PolicyToken K)} {metrics : Metrics K}
    (h : computeRejectionMask E float rolloutRs thresholdSpec m = .ok (modified, metrics)) :
    modified.rows = m.rows.map (rejectRow E criteria.criteria) := by
  unfold computeRejectionMask at h
  by_cases hempty : m.rows = []
  · rw [if_pos hempty] at h
    obtain rfl : m = modified := congrArg Prod.fst (Except.ok.inj h)
    rw [hempty]
    rfl
  · rw [if_neg hempty, hparse, Except.bind] at h
    unfold computeRolloutRejectionMask at h
    rw [if_neg hempty] at h
    obtain ⟨_, -, hout⟩ := bind_eq_ok.1 h
    obtain rfl := congrArg Prod.fst (Except.ok.inj hout)
    rfl

theorem computeRejectionMask_ok {float : String → Option K} {rolloutRs thresholdSpec : String}
    {criteria : RsCriteria K} (hparse : parseCriteria float rolloutRs thresholdSpec = .ok criteria)
    {m : LossMat (PolicyToken K)} (hvalid : HasValidToken m) :
    ∃ out, computeRejectionMask E float rolloutRs thresholdSpec m = .ok out := by
  obtain ⟨metrics, hmetrics⟩ := @rejectionMask_ok _ _ _ E _ hvalid criteria
  obtain ⟨row, hrow, -⟩ := hvalid
  unfold computeRejectionMask
  rw [if_neg (List.ne_nil_of_mem hrow), hparse, Except.bind, hmetrics]
  exact ⟨_, rfl⟩

/-- **The documented region** is kept exactly when the bounds of the `k1` options accept a ratio and its reciprocal
alike. -/
theorem rejectionMask_iff (hE : ExpLaws E) {float : String → Option K} {rolloutRs thresholdSpec : String}
    {criteria : RsCriteria K} (hparse : parseCriteria float rolloutRs thresholdSpec = .ok criteria)
    (m : LossMat (PolicyToken K)) :
    RejectionLaw E float rolloutRs thresholdSpec criteria m ↔ BoundsInvert E criteria m := by
  have hrow : ∀ row : Resp (PolicyToken K), (rejectRow E criteria.criteria row =
      row.map fun p => (p.1, p.2 && criteria.criteria.all fun c => accepts E c row p.1)) ↔
        ∀ p ∈ row, p.2 = true →
          (∀ c ∈ criteria.criteria, c.option.estimator ≠ .k1 → accepts E c row p.1) →
            ((∀ c ∈ criteria.criteria, c.option.estimator = .k1 → inBounds c (importanceRatio E c.option row p.1)) ↔
              ∀ c ∈ criteria.criteria, c.option.estimator = .k1 →
                inBounds c (importanceRatio E c.option row p.1)⁻¹) := by
    intro row
    rw [rejectRow_eq, List.map_inj_left]
    refine forall₂_congr fun p _ => ?_
    rw [Prod.mk.injEq, ← all_keeps_eq_iff hE]
    cases p.2 <;> simp
  constructor
  · intro hlaw row hmem p hp hvalid
    obtain ⟨out, hout⟩ := @computeRejectionMask_ok _ _ _ E _ _ _ _ hparse m ⟨row, hmem, p, hp, hvalid⟩
    have hrows := hlaw.region _ _ hout
    rw [computeRejectionMask_rows hparse hout, List.map_inj_left] at hrows
    exact (hrow row).1 (hrows row hmem) p hp hvalid
  · intro hinvert
    refine ⟨fun hvalid => computeRejectionMask_ok hparse hvalid, ?_, ?_, ?_⟩
    · intro modified metrics hout
      rw [computeRejectionMask_rows hparse hout, List.map_inj_left]
      exact fun row hmem => (hrow row).2 (hinvert row hmem)
    · intro rolloutRs' thresholdSpec' criteria' hparse' hsame modified metrics modified' metrics' hout hout'
      have hmembers : ∀ c, c ∈ criteria'.criteria ↔ c ∈ criteria.criteria := by
        rcases hsame with hsame | ⟨⟨spec, hspec, hspec'⟩, hnames⟩
        · exact hsame
        · intro c
          rw [mem_criteria_shared hparse hspec, mem_criteria_shared hparse' hspec']
          exact exists_congr fun name => and_congr_left' (hnames name)
      rw [computeRejectionMask_rows hparse hout, computeRejectionMask_rows hparse' hout', List.map_inj_left]
      intro row _
      rw [rejectRow_eq, rejectRow_eq]
      refine List.map_congr_left fun p _ => ?_
      have hall : (criteria'.criteria.all fun c => keeps E c (statAt E c.option row p.1)) =
          criteria.criteria.all fun c => keeps E c (statAt E c.option row p.1) := by
        rw [Bool.eq_iff_iff, List.all_eq_true, List.all_eq_true]
        exact forall_congr' fun c => imp_congr_left (hmembers c)
      rw [hall]
    · intro c _ hrowOption row
      have hrowStat : ∀ t, statAt E c.option row t = seqStat E c.option row :=
        fun t => if_neg (by rw [hrowOption]; exact Bool.false_ne_true)
      rw [keepRow_eq]
      simp only [hrowStat]
      cases keeps E c (seqStat E c.option row)
      · exact .inr rfl
      · exact .inl rfl

end Region

/-! ## Real numbers -/

/-- `float` of one digit. -/
def digitFloat {K : Type} [NatCast K] (s : String) : Option K :=
  match s.toList with
  | [c] => if c.isDigit then some ((c.toNat - 48 : ℕ) : K) else none
  | _ => none

theorem digitFloat_digit {K : Type} [NatCast K] {s : String} {c : Char} {n : ℕ} (hs : s.toList = [c])
    (hdigit : c.isDigit = true) (hn : c.toNat - 48 = n) : digitFloat s = some (n : K) := by
  unfold digitFloat
  simp only [hs]
  rw [if_pos hdigit, hn]

theorem realExpLaws : ExpLaws realElementary where
  exp_add := Real.exp_add
  log_le_iff := fun _ _ hy => Real.log_le_iff_le_exp hy
  le_log_iff := fun _ _ hy => Real.le_log_iff_exp_le hy

theorem parse_oneToFour : ∃ criteria : RsCriteria ℝ, parseCriteria digitFloat "token_k1" "1_4" = .ok criteria ∧
    ∃ c, criteria.criteria = [c] ∧ c.option = .token .k1 ∧ c.lower = 1 ∧ c.upper = 4 := by
  have hoptions : normalizedOptions "token_k1" = .ok [.token .k1] := by decide +kernel
  have hentries : entries "1_4" = ["1_4"] := by decide +kernel
  have hunderscore : '_' ∈ "1_4".toList := by decide +kernel
  have hsplit : splitUnderscore "1_4" = ("1", "4") := by decide +kernel
  have hone : digitFloat "1" = some (1 : ℝ) := by
    have h := @digitFloat_digit ℝ _ "1" '1' 1 rfl (by decide) (by decide)
    rwa [Nat.cast_one] at h
  have hfour : digitFloat "4" = some (4 : ℝ) := by
    have h := @digitFloat_digit ℝ _ "4" '4' 4 rfl (by decide) (by decide)
    rwa [Nat.cast_ofNat] at h
  have hpos : (0 : ℝ) < 1 ∧ (0 : ℝ) < 4 := ⟨one_pos, four_pos⟩
  have hspec : parseSpec digitFloat (.token .k1) "1_4" = .ok (⟨.token .k1, 1, 4, hpos.1, hpos.2⟩ : RsCriterion ℝ) := by
    have hbounds : k1Bounds digitFloat (.token .k1) "1_4" = .ok ((1 : ℝ), (4 : ℝ)) := by
      unfold k1Bounds
      rw [if_pos hunderscore, hsplit, hone, hfour]
    unfold parseSpec
    simp only [RsOption.estimator]
    rw [hbounds, Except.bind, dif_pos hpos]
  have hthresholds : parseRolloutRsThresholds digitFloat [.token .k1] "1_4" =
      .ok [(⟨.token .k1, 1, 4, hpos.1, hpos.2⟩ : RsCriterion ℝ)] := by
    unfold parseRolloutRsThresholds
    rw [hentries]
    exact mapM_eq_ok_iff.2 (List.Forall₂.cons hspec List.Forall₂.nil)
  obtain ⟨_, hparse⟩ := criteria_spec hoptions hthresholds
  exact ⟨_, hparse, _, rfl, rfl, rfl, rfl⟩

noncomputable def threefoldToken : PolicyToken ℝ := ⟨0, Real.log ((3 : ℕ) : ℝ), 1⟩

theorem rejectionMask_iff_threefold : ∃ criteria, parseCriteria digitFloat "token_k1" "1_4" = .ok criteria ∧
    (RejectionLaw realElementary digitFloat "token_k1" "1_4" criteria (oneTokenRows threefoldToken [true]) ↔
      BoundsInvert realElementary criteria (oneTokenRows threefoldToken [true])) := by
  obtain ⟨criteria, hparse, -⟩ := parse_oneToFour
  exact ⟨criteria, hparse, rejectionMask_iff realExpLaws hparse _⟩

theorem importanceRatio_threefold (row : Resp (PolicyToken ℝ)) :
    importanceRatio realElementary (.token .k1) row threefoldToken = 3 := by
  have hlog : logRatio threefoldToken = Real.log 3 := by
    have h : logRatio threefoldToken = Real.log ((3 : ℕ) : ℝ) := sub_zero _
    rwa [Nat.cast_ofNat] at h
  have hclamp : clampSafe (Real.log 3) = Real.log 3 := by
    have hpos : (0 : ℝ) ≤ Real.log 3 := Real.log_nonneg (by norm_num)
    have hle : Real.log 3 ≤ 2 := by
      have h := Real.log_le_sub_one_of_pos (by norm_num : (0 : ℝ) < 3)
      linarith
    unfold clampSafe clamp safetyBound
    rw [max_eq_left (by linarith), min_eq_left (by linarith)]
  change Real.exp (clampSafe (logRatio threefoldToken)) = 3
  rw [hlog, hclamp]
  exact Real.exp_log (by norm_num)

theorem not_kept_threefold : ∃ criteria, parseCriteria digitFloat "token_k1" "1_4" = .ok criteria ∧
    (criteria.criteria.all fun c => accepts realElementary c [(threefoldToken, true)] threefoldToken) = true ∧
    (∃ modified metrics, computeRejectionMask realElementary digitFloat "token_k1" "1_4"
      (oneTokenRows threefoldToken [true]) = .ok (modified, metrics) ∧ modified.rows = [[(threefoldToken, false)]]) ∧
    ¬ RejectionLaw realElementary digitFloat "token_k1" "1_4" criteria (oneTokenRows threefoldToken [true]) := by
  obtain ⟨criteria, hparse, c, hc, hoption, hlower, hupper⟩ := parse_oneToFour
  have haccepts : (criteria.criteria.all fun c =>
      accepts realElementary c [(threefoldToken, true)] threefoldToken) = true := by
    rw [hc, List.all_cons, List.all_nil, Bool.and_true]
    unfold accepts inBounds
    rw [hoption, importanceRatio_threefold, hlower, hupper]
    norm_num [RsOption.estimator]
  have hrejected : rejectRow realElementary criteria.criteria [(threefoldToken, true)] = [(threefoldToken, false)] := by
    have hkeeps : keeps realElementary c
        (statAt realElementary c.option [(threefoldToken, true)] threefoldToken) = false := by
      rw [keeps_iff realExpLaws, if_pos (by rw [hoption]; rfl)]
      unfold inBounds
      rw [hoption, importanceRatio_threefold, hlower, hupper]
      norm_num
    rw [rejectRow_eq, hc, List.map_singleton, List.all_cons, hkeeps]
    rfl
  have hvalid : HasValidToken (oneTokenRows threefoldToken [true]) :=
    ⟨_, List.mem_singleton_self _, _, List.mem_singleton_self _, rfl⟩
  obtain ⟨⟨modified, metrics⟩, hout⟩ := @computeRejectionMask_ok _ _ _ realElementary _ _ _ _ hparse _ hvalid
  have hrows := computeRejectionMask_rows hparse hout
  have hmask : (oneTokenRows threefoldToken [true]).rows.map (rejectRow realElementary criteria.criteria) =
      [[(threefoldToken, false)]] := congrArg (fun row => [row]) hrejected
  refine ⟨criteria, hparse, haccepts, ⟨modified, metrics, hout, hrows.trans hmask⟩, fun hlaw => ?_⟩
  have hregion := hlaw.region _ _ hout
  rw [hrows, hmask] at hregion
  have hkept : [[(threefoldToken, false)]] = [[(threefoldToken, true && criteria.criteria.all fun c =>
      accepts realElementary c [(threefoldToken, true)] threefoldToken)]] := hregion
  rw [haccepts] at hkept
  simp at hkept

end Opd.Verl.TrustRegion

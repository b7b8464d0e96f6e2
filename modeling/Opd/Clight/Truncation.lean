import Mathlib.Tactic.NormNum
import Opd.Clight.Preprocessor

/-!
# The truncation of an SFT example

`encode_sft_example` gives each turn what is left of `cutoff_len`, in proportion to its source and its target. The share
is a quotient of floating point numbers, which is as good as an exact one for targets below 2⁵³ tokens.

* `le_intTrueDiv`, `intTrueDiv_le`: the quotient is between the integers that bound it.
* `inferLengths_spec`: a turn is kept, or it takes all that is left.
* `truncated_encodePairs`: what is kept of all turns.
-/

namespace Opd.Clight.Truncation

open Lib Preprocessor

variable {ι τ : Type}

/-! ## The quotient -/

theorem le_roundHalfEven {a b k : ℕ} (hb : 0 < b) (h : k * b ≤ a) : k ≤ roundHalfEven a b := by
  have hq : k ≤ a / b := (Nat.le_div_iff_mul_le hb).2 h
  unfold roundHalfEven
  dsimp only
  split
  · exact hq
  · exact Nat.le_succ_of_le hq

theorem roundHalfEven_le {a b k : ℕ} (hb : 0 < b) (h : a ≤ k * b) : roundHalfEven a b ≤ k := by
  have hq : a / b ≤ k := Nat.div_le_of_le_mul (by rwa [Nat.mul_comm])
  unfold roundHalfEven
  dsimp only
  split
  · exact hq
  · rename_i hround
    -- a remainder, so that the quotient is below the bound
    refine Nat.lt_of_le_of_ne hq ?_
    rintro rfl
    have hmod := Nat.div_add_mod a b
    rw [Nat.mul_comm] at hmod
    exact hround (.inl (by omega))

theorem intTrueDiv_eq {a b hi : ℕ} (h : a ≤ hi * b) (hhi : hi < 2 ^ 53) :
    ∃ e, intTrueDiv a b = roundHalfEven (a * 2 ^ e) b / 2 ^ e := by
  have hq : a / b ≤ hi := Nat.div_le_of_le_mul (by rwa [Nat.mul_comm])
  have hbits : (if a / b = 0 then 0 else (a / b).log2 + 1) ≤ 53 := by
    split
    · omega
    · rename_i hzero
      have := (Nat.log2_lt hzero).2 (Nat.lt_of_le_of_lt hq hhi)
      omega
  refine ⟨53 - (if a / b = 0 then 0 else (a / b).log2 + 1), ?_⟩
  unfold intTrueDiv
  dsimp only
  rw [if_pos hbits]

/-- **The quotient is below an integer bound** of the exact one. -/
theorem intTrueDiv_le {a b hi : ℕ} (hb : 0 < b) (h : a ≤ hi * b) (hhi : hi < 2 ^ 53) : intTrueDiv a b ≤ hi := by
  obtain ⟨e, he⟩ := intTrueDiv_eq h hhi
  have hscaled : a * 2 ^ e ≤ hi * 2 ^ e * b := by
    calc a * 2 ^ e ≤ hi * b * 2 ^ e := Nat.mul_le_mul_right _ h
      _ = hi * 2 ^ e * b := Nat.mul_right_comm _ _ _
  have hround := roundHalfEven_le hb hscaled
  rw [Nat.mul_comm hi] at hround
  rw [he]
  exact Nat.div_le_of_le_mul hround

/-- **The quotient is above an integer bound** of the exact one. -/
theorem le_intTrueDiv {a b lo hi : ℕ} (hb : 0 < b) (hlo : lo * b ≤ a) (h : a ≤ hi * b) (hhi : hi < 2 ^ 53) :
    lo ≤ intTrueDiv a b := by
  obtain ⟨e, he⟩ := intTrueDiv_eq h hhi
  have hscaled : lo * 2 ^ e * b ≤ a * 2 ^ e := by
    calc lo * 2 ^ e * b = lo * b * 2 ^ e := Nat.mul_right_comm _ _ _
      _ ≤ a * 2 ^ e := Nat.mul_le_mul_right _ hlo
  rw [he]
  exact (Nat.le_div_iff_mul_le (Nat.two_pow_pos e)).2 (le_roundHalfEven hb hscaled)

/-! ## A turn -/

/-- **A turn** takes all that is left, or all of its tokens. -/
theorem inferLengths_spec {s t c : ℕ} (ht : t < 2 ^ 53) : (inferLengths s t c).1 ≤ s ∧ (inferLengths s t c).2 ≤ t ∧
    (inferLengths s t c).1 + (inferLengths s t c).2 = min c (s + t) := by
  unfold inferLengths
  dsimp only
  split
  · omega
  split
  · omega
  · rename_i hsource
    by_cases hzero : s + t = 0
    · omega
    -- the share of the target leaves no more than the source, and is no more than is left
    have hpos : 0 < s + t := by omega
    have hle : c * t ≤ t * (s + t) := by
      calc c * t = t * c := Nat.mul_comm _ _
        _ ≤ t * (s + t) := Nat.mul_le_mul_left t (by omega)
    have hshare : intTrueDiv (c * t) (s + t) ≤ t := intTrueDiv_le hpos hle ht
    have hbudget : intTrueDiv (c * t) (s + t) ≤ c := by
      by_cases hc : c < 2 ^ 53
      · exact intTrueDiv_le hpos (Nat.mul_le_mul_left c (Nat.le_add_left t s)) hc
      · omega
    have hrest : c - s ≤ intTrueDiv (c * t) (s + t) := by
      refine le_intTrueDiv hpos ?_ hle ht
      by_cases hs : c ≤ s
      · rw [Nat.sub_eq_zero_of_le hs, Nat.zero_mul]
        exact Nat.zero_le _
      · obtain ⟨d, rfl⟩ : ∃ d, c = s + d := ⟨c - s, by omega⟩
        have hd : d ≤ t := by omega
        rw [Nat.add_sub_cancel_left, Nat.mul_add, Nat.add_mul, Nat.mul_comm d s]
        exact Nat.add_le_add_right (Nat.mul_le_mul_left s hd) _
    omega

/-! ## All turns -/

def allTokens (encoded : List (List τ × List τ)) : List τ := encoded.flatMap fun pair => pair.1 ++ pair.2

/-- **What is kept of the turns**, with the labels for it. -/
structure Truncated (cutoffLen : ℤ) (encoded kept : List (List τ × List τ)) (out : List τ × List (Option τ)) : Prop where
  prefixes : List.Forall₂ (fun part pair => part.1 <+: pair.1 ∧ part.2 <+: pair.2) kept encoded
  inputIds : out.1 = allTokens kept
  labels : out.2 = kept.flatMap fun part => part.1.map (fun _ => none) ++ part.2.map some
  length_eq : out.1.length = out.2.length
  label_eq : ∀ (i : ℕ) (token : τ), out.2[i]? = some (some token) → out.1[i]? = some token
  targets : out.2.filterMap id = kept.flatMap Prod.snd
  length_le : (out.1.length : ℤ) ≤ cutoffLen
  whole : ((allTokens encoded).length : ℤ) ≤ cutoffLen → kept = encoded
  full : cutoffLen < (allTokens encoded).length → (out.1.length : ℤ) = cutoffLen

/-- The loop, when `totalLength` tokens are kept already. -/
theorem encodePairs_spec {cutoffLen : ℤ} (totalLength : ℕ) {encoded : List (List τ × List τ)}
    (hshort : ∀ pair ∈ encoded, pair.2.length < 2 ^ 53) (htotal : (totalLength : ℤ) ≤ cutoffLen) : ∃ kept,
      List.Forall₂ (fun part pair => part.1 <+: pair.1 ∧ part.2 <+: pair.2) kept encoded ∧
      (encodePairs cutoffLen totalLength encoded).1 = allTokens kept ∧
      (encodePairs cutoffLen totalLength encoded).2 =
        (kept.flatMap fun part => part.1.map (fun _ => none) ++ part.2.map some) ∧
      ((allTokens kept).length : ℤ) = min (cutoffLen - totalLength) (allTokens encoded).length ∧
      (((allTokens encoded).length : ℤ) ≤ cutoffLen - totalLength → kept = encoded) := by
  induction encoded generalizing totalLength with
  | nil => exact ⟨[], .nil, rfl, rfl, by simp [allTokens]; omega, fun _ => rfl⟩
  | cons pair rest ih =>
    obtain ⟨source, target⟩ := pair
    have htarget : target.length < 2 ^ 53 := hshort _ List.mem_cons_self
    have hrest : ∀ pair ∈ rest, pair.2.length < 2 ^ 53 := fun pair hpair => hshort pair (List.mem_cons_of_mem _ hpair)
    rw [encodePairs]
    by_cases hfull : cutoffLen ≤ totalLength
    · -- the loop breaks, and nothing is kept of the turns that are left
      have hbreak : ∀ turns : List (List τ × List τ),
          List.Forall₂ (fun part pair => part.1 <+: pair.1 ∧ part.2 <+: pair.2) (turns.map fun _ => ([], [])) turns ∧
            allTokens (turns.map fun _ => (([], []) : List τ × List τ)) = [] := by
        intro turns
        constructor
        · rw [List.forall₂_map_left_iff, List.forall₂_same]
          exact fun turn _ => ⟨List.nil_prefix, List.nil_prefix⟩
        · rw [allTokens, List.flatMap_map]
          exact List.flatMap_eq_nil_iff.2 fun _ _ => rfl
      obtain ⟨hprefixes, hnone⟩ := hbreak ((source, target) :: rest)
      refine ⟨_, hprefixes, ?_, ?_, ?_, ?_⟩
      · rw [if_pos hfull, hnone]
      · rw [if_pos hfull, List.flatMap_map]
        exact (List.flatMap_eq_nil_iff.2 fun _ _ => rfl).symm
      · rw [hnone, List.length_nil]
        omega
      · intro hfit
        have hempty : allTokens ((source, target) :: rest) = [] := List.eq_nil_of_length_eq_zero (by omega)
        refine List.map_congr_left (g := id) (fun turn hturn => ?_) |>.trans (List.map_id _)
        have hturn := List.flatMap_eq_nil_iff.1 hempty turn hturn
        obtain ⟨hsource, htarget⟩ := List.append_eq_nil_iff.1 hturn
        exact (Prod.ext hsource htarget).symm
    · rw [if_neg hfull]
      dsimp only
      obtain ⟨hs, ht, hsum⟩ :=
        inferLengths_spec (s := source.length) (c := (cutoffLen - totalLength).toNat) htarget
      generalize inferLengths source.length target.length (cutoffLen - totalLength).toNat = lengths at hs ht hsum ⊢
      obtain ⟨kept, hprefixes, hids, hlabels, hlength, hwhole⟩ :=
        ih (totalLength + (lengths.1 + lengths.2)) hrest (by omega)
      have hall : (allTokens ((source, target) :: rest)).length =
          source.length + target.length + (allTokens rest).length := by
        rw [allTokens, List.flatMap_cons, List.length_append, List.length_append, allTokens]
      have hkept : (allTokens ((source.take lengths.1, target.take lengths.2) :: kept)).length =
          lengths.1 + lengths.2 + (allTokens kept).length := by
        rw [allTokens, List.flatMap_cons, List.length_append, List.length_append, List.length_take, List.length_take,
          Nat.min_eq_left hs, Nat.min_eq_left ht, allTokens]
      refine ⟨(source.take lengths.1, target.take lengths.2) :: kept,
        .cons ⟨List.take_prefix _ _, List.take_prefix _ _⟩ hprefixes, ?_, ?_, ?_, ?_⟩
      · rw [hids, allTokens, allTokens, List.flatMap_cons]
      · rw [hlabels, List.flatMap_cons, List.map_const', List.length_take, Nat.min_eq_left hs]
      · rw [hkept, hall]
        push_cast at hlength ⊢
        omega
      · intro hfit
        rw [hall] at hfit
        push_cast at hfit
        have hsource : lengths.1 = source.length := by omega
        have htarget : lengths.2 = target.length := by omega
        rw [hwhole (by push_cast; omega), hsource, htarget, List.take_length, List.take_length]

theorem labels_spec (kept : List (List τ × List τ)) :
    let labels := kept.flatMap fun part => part.1.map (fun _ => none) ++ part.2.map some
    (allTokens kept).length = labels.length ∧
      (∀ (i : ℕ) (token : τ), labels[i]? = some (some token) → (allTokens kept)[i]? = some token) ∧
      labels.filterMap id = kept.flatMap Prod.snd := by
  dsimp only
  induction kept with
  | nil => exact ⟨rfl, fun i token h => absurd h nofun, rfl⟩
  | cons part kept ih =>
    obtain ⟨hlength, hlabel, htargets⟩ := ih
    have hpart : (part.1 ++ part.2).length = (part.1.map (fun _ => none) ++ part.2.map some).length := by
      simp only [List.length_append, List.length_map]
    refine ⟨?_, ?_, ?_⟩
    · simp only [allTokens, List.flatMap_cons, List.length_append, List.length_map] at hlength ⊢
      omega
    · intro i token h
      rw [List.flatMap_cons] at h
      rw [allTokens, List.flatMap_cons]
      by_cases hi : i < (part.1 ++ part.2).length
      · rw [List.getElem?_append_left (hpart ▸ hi)] at h
        rw [List.getElem?_append_left hi]
        by_cases hsource : i < part.1.length
        · rw [List.getElem?_append_left (by rwa [List.length_map]), List.getElem?_map, List.getElem?_eq_getElem hsource] at h
          exact absurd (Option.some.inj h) nofun
        · rw [List.getElem?_append_right (by rw [List.length_map]; omega), List.length_map, List.getElem?_map] at h
          rw [List.getElem?_append_right (by omega)]
          obtain ⟨token', htoken, heq⟩ := Option.map_eq_some_iff.1 h
          rw [htoken, Option.some.inj heq]
      · rw [List.getElem?_append_right (by omega), ← hpart] at h
        rw [List.getElem?_append_right (by omega)]
        exact hlabel _ token h
    · have hsource : (part.1.map fun _ => (none : Option τ)).filterMap id = [] := by
        rw [List.filterMap_map, List.filterMap_eq_nil_iff]
        exact fun _ _ => rfl
      have htarget : (part.2.map some).filterMap id = part.2 := by
        rw [List.filterMap_map]
        exact List.filterMap_some
      rw [List.flatMap_cons, List.flatMap_cons, List.filterMap_append, List.filterMap_append, htargets, hsource, htarget,
        List.nil_append]

/-- **What `encode_sft_example` keeps**: the labels are those of the kept targets, and the tokens are all tokens or as many
as `cutoff_len`. -/
theorem truncated_encodePairs {cutoffLen : ℤ} (hcut : 1 ≤ cutoffLen) {encoded : List (List τ × List τ)}
    (hshort : ∀ pair ∈ encoded, pair.2.length < 2 ^ 53) :
    (∃ kept, Truncated cutoffLen encoded kept (encodePairs cutoffLen 0 encoded)) ∧
      ∀ (preprocessor : SupervisedPreprocessor ι τ) (prompt response : List Message) (system : Option Text)
        (images : List ι), preprocessor.dataArgs.cutoffLen = cutoffLen → preprocessor.template.efficientEos = false →
        encodedPairs preprocessor (prompt ++ response) system images = .ok encoded →
        encodeSftExample preprocessor prompt response system images = .ok (encodePairs cutoffLen 0 encoded) := by
  constructor
  · obtain ⟨kept, hprefixes, hids, hlabels, hlength, hwhole⟩ :=
      encodePairs_spec 0 hshort (by omega : ((0 : ℕ) : ℤ) ≤ cutoffLen)
    obtain ⟨heq, hlabel, htargets⟩ := labels_spec kept
    rw [← hids, ← hlabels] at heq
    rw [← hids, ← hlabels] at hlabel
    rw [← hlabels] at htargets
    rw [← hids] at hlength
    exact ⟨kept, hprefixes, hids, hlabels, heq, hlabel, htargets, by omega, fun h => hwhole (by omega), fun h => by omega⟩
  · intro preprocessor prompt response system images hlen heos hencoded
    unfold encodeSftExample
    simp only [hencoded, heos, hlen, bind, Except.bind]
    rfl

def questionPairs : List (List ℕ × List ℕ) :=
  ((encodedPairs (fourTokens 47) ((question []).prompt ++ (question []).response) none [()]).toOption).getD []

theorem truncated_question : (∃ kept, Truncated 47 questionPairs kept (encodePairs 47 0 questionPairs)) ∧
    encodeSftExample (fourTokens 47) (question []).prompt (question []).response none [()] =
      .ok (encodePairs 47 0 questionPairs) := by
  have h := @truncated_encodePairs Unit ℕ 47 (by decide) questionPairs (by decide)
  exact ⟨h.1, h.2 (fourTokens 47) _ _ none [()] rfl rfl rfl⟩

def longPair : List ℕ × List ℕ := (List.replicate (2 ^ 53 + 1) 0, List.replicate (2 ^ 53 + 1) 0)

theorem inferLengths_long : inferLengths (2 ^ 53 + 1) (2 ^ 53 + 1) (2 ^ 54 + 2) = (2 ^ 53 + 1, 2 ^ 53) := by
  decide +kernel

/-- **The quotient is rounded** for a target of 2⁵³ + 1 tokens: a token is cut from turns that fit. -/
theorem not_truncated_of_length {source target : List ℕ} (hsource : source.length = 2 ^ 53 + 1)
    (htarget : target.length = 2 ^ 53 + 1) :
    ¬ ∃ kept, Truncated (2 ^ 54 + 2) [(source, target)] kept (encodePairs (2 ^ 54 + 2) 0 [(source, target)]) := by
  rintro ⟨kept, h⟩
  have hall : (allTokens [(source, target)]).length = 2 ^ 54 + 2 := by
    rw [allTokens, List.flatMap_singleton, List.length_append, hsource, htarget]
    norm_num
  have hids := h.inputIds
  rw [h.whole (by rw [hall]; norm_num)] at hids
  have hleft : ((2 ^ 54 + 2 : ℤ) - ((0 : ℕ) : ℤ)).toNat = 2 ^ 54 + 2 := by
    norm_num
    rfl
  have hlength : (encodePairs (2 ^ 54 + 2) 0 [(source, target)]).1.length = 2 ^ 54 + 1 := by
    rw [encodePairs, if_neg (by norm_num)]
    dsimp only
    rw [hsource, htarget, hleft, inferLengths_long, encodePairs, List.append_nil, List.length_append, List.length_take,
      List.length_take, hsource, htarget]
    norm_num
  rw [hids, hall] at hlength
  exact absurd hlength (by norm_num)

theorem not_truncated_long : ¬ ∃ kept, Truncated (2 ^ 54 + 2) [longPair] kept (encodePairs (2 ^ 54 + 2) 0 [longPair]) :=
  not_truncated_of_length List.length_replicate List.length_replicate

end Opd.Clight.Truncation

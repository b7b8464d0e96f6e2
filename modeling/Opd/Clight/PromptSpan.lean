import Opd.Clight.Teacher

/-!
# The positions of a row that its prompt holds

The scorer submits the tokens between the first and the last active position of a row,
without the tokens inside runs of image and video tokens.

* `activeSpan_spec`: the active span, position by position.
* `keptTokens_eq`: the dedup of the teacher is `squeezeIdx`, whichever way it is
  configured.
* `mem_keptPositions`: the positions that the prompt holds.
-/

namespace Opd.Clight

open Lib

variable {A : Type*} {L : Type}

/-! ## The positions a prompt holds -/

/-- Position `v` lies between the first and the last active one. -/
def InSpan (attentionMask : List Bool) (v : ℕ) : Prop :=
  (∃ a ≤ v, attentionMask[a]? = some true) ∧ ∃ b ≥ v, attentionMask[b]? = some true

/-- Position `v` is inside a run of tokens that satisfy `q`. -/
def Dropped (q : ℕ → Bool) (sequence : List ℕ) (v : ℕ) : Prop :=
  0 < v ∧ (sequence[v]?).any q = true ∧ (sequence[v - 1]?).any q = true

theorem activeSpan_spec {am : List Bool} (h : true ∈ am) :
    (activeSpan am).1 < (activeSpan am).2 ∧ (activeSpan am).2 ≤ am.length ∧
      ∀ v, InSpan am v ↔ (activeSpan am).1 ≤ v ∧ v < (activeSpan am).2 := by
  have hne : nonzero am ≠ [] := fun h0 => nonzero_eq_nil.1 h0 h
  have hsorted := sorted_nonzero am
  have hmem : ∀ v, v ∈ nonzero am ↔ am[v]? = some true := fun v => mem_nonzero
  unfold activeSpan
  cases hz : nonzero am with
  | nil => exact absurd hz hne
  | cons first rest =>
    rw [hz] at hsorted hmem
    have hle : (first :: rest).Pairwise (· ≤ ·) := hsorted.imp Nat.le_of_lt
    -- the active positions are increasing, so the ends of the list are the ends of the span
    have hfirst : ∀ v ∈ first :: rest, first ≤ v := by
      intro v hv
      rcases List.mem_cons.1 hv with rfl | hv
      · exact Nat.le_refl _
      · exact (List.pairwise_cons.1 hle).1 v hv
    have hlast : ∀ v ∈ first :: rest, v ≤ (first :: rest).getLast (List.cons_ne_nil _ _) :=
      fun v hv => hle.rel_getLast hv
    have hl := (hmem _).1 (List.getLast_mem (List.cons_ne_nil first rest))
    have hf := (hmem first).1 (List.mem_cons_self ..)
    dsimp only
    refine ⟨Nat.lt_succ_of_le (hfirst _ (List.getLast_mem _)), ?_, fun v => ?_⟩
    · obtain ⟨hlt, -⟩ := List.getElem?_eq_some_iff.1 hl
      exact hlt
    · constructor
      · rintro ⟨⟨a, ha, hact⟩, b, hb, hbct⟩
        have h1 := hfirst a ((hmem a).2 hact)
        have h2 := hlast b ((hmem b).2 hbct)
        omega
      · rintro ⟨h1, h2⟩
        exact ⟨⟨first, h1, hf⟩, _, Nat.le_of_lt_succ h2, hl⟩

theorem spanTokens_of_inactive {seq : List ℕ} {am : List Bool} (h : true ∉ am) : spanTokens seq am = [] := by
  unfold spanTokens activeSpan
  rw [nonzero_eq_nil.2 h]
  simp

theorem spanTokens_getElem {seq : List ℕ} {am : List Bool} (hlen : seq.length = am.length)
    (h : true ∈ am) :
    (spanTokens seq am).length = (activeSpan am).2 - (activeSpan am).1 ∧
      ∀ x, x < (spanTokens seq am).length → (spanTokens seq am)[x]? = seq[(activeSpan am).1 + x]? := by
  obtain ⟨hlt, hle, -⟩ := activeSpan_spec h
  have hl : (spanTokens seq am).length = (activeSpan am).2 - (activeSpan am).1 := by
    unfold spanTokens
    rw [List.length_drop, List.length_take]
    omega
  refine ⟨hl, fun x hx => ?_⟩
  unfold spanTokens
  rw [List.getElem?_drop, List.getElem?_take_of_lt (by omega)]

section

variable (c : TeacherConfig) (media : MediaArgs A)

def collapsed (t : ℕ) : Bool :=
  c.dedupMmTokens && isMm media.imageTokenId media.videoTokenId t

theorem keptTokens_eq (tokenIds : List ℕ) :
    c.keptTokens media tokenIds = squeezeIdx (collapsed c media) false 0 tokenIds := by
  have hnone : ∀ (p : ℕ → Bool), (∀ t, p t = false) → ∀ b k (l : List ℕ),
      squeezeIdx p b k l = (List.range' k l.length).zip l := by
    intro p hp b k l
    induction l generalizing b k with
    | nil => rfl
    | cons t l ih => simp [squeezeIdx, hp t, List.range'_succ, ih]
  have hrange : (List.range tokenIds.length).zip tokenIds =
      (List.range' 0 tokenIds.length).zip tokenIds := by rw [List.range_eq_range']
  unfold TeacherConfig.keptTokens dedupWithIndices
  cases hd : c.dedupMmTokens with
  | false => simp only [Bool.false_eq_true, if_false, hrange, hnone (collapsed c media) (by simp [collapsed, hd])]
  | true =>
    have hq : collapsed c media = isMm media.imageTokenId media.videoTokenId :=
      funext fun t => by simp [collapsed, hd]
    simp only [if_true, hq]
    split
    · rename_i h
      simp only [Bool.and_eq_true, Option.isNone_iff_eq_none] at h
      rw [hrange, hnone _ (by simp [isMm, h.1, h.2])]
    · rfl

def keptPositions (seq : List ℕ) (am : List Bool) : List ℕ :=
  (c.keptTokens media (spanTokens seq am)).map fun e => (activeSpan am).1 + e.1

theorem keptPositions_eq (seq : List ℕ) (am : List Bool) :
    keptPositions c media seq am =
      ((List.range (spanTokens seq am).length).filter
        (keptAt (collapsed c media) false (spanTokens seq am))).map ((activeSpan am).1 + ·) := by
  have h := squeezeIdx_fst (p := collapsed c media) false 0 (spanTokens seq am)
  simp only [Nat.zero_add, List.map_id'] at h
  unfold keptPositions
  rw [keptTokens_eq, ← h, List.map_map]
  rfl

theorem sorted_keptPositions (seq : List ℕ) (am : List Bool) :
    (keptPositions c media seq am).Pairwise (· < ·) := by
  rw [keptPositions_eq, List.pairwise_map]
  exact (List.pairwise_lt_range.filter _).imp fun h => by omega

/-- **The positions a prompt holds**: the first active one, and those of the active span
that are not inside a run. -/
theorem mem_keptPositions {seq : List ℕ} {am : List Bool} (hlen : seq.length = am.length)
    (h : true ∈ am) (v : ℕ) :
    v ∈ keptPositions c media seq am ↔
      InSpan am v ∧ (v = (activeSpan am).1 ∨ ¬ Dropped (collapsed c media) seq v) := by
  obtain ⟨hlt, hle, hspan⟩ := activeSpan_spec h
  obtain ⟨hl, hget⟩ := spanTokens_getElem hlen h
  -- a position of the span is kept unless it is inside a run
  have hkept : ∀ x < (spanTokens seq am).length,
      keptAt (collapsed c media) false (spanTokens seq am) x = true ↔
        ((activeSpan am).1 + x = (activeSpan am).1 ∨
          ¬ Dropped (collapsed c media) seq ((activeSpan am).1 + x)) := by
    intro x hx
    unfold keptAt Dropped
    cases x with
    | zero => simp
    | succ x =>
      rw [hget _ hx, Nat.add_sub_cancel, hget x (by omega), if_neg (Nat.succ_ne_zero x),
        show (activeSpan am).1 + (x + 1) - 1 = (activeSpan am).1 + x by omega]
      constructor
      · intro hb
        refine Or.inr ?_
        rintro ⟨-, h1, h2⟩
        simp [h1, h2] at hb
      · rintro (h0 | h0)
        · omega
        · cases h1 : Option.any (collapsed c media) seq[(activeSpan am).1 + (x + 1)]? with
          | false => rfl
          | true =>
            cases h2 : Option.any (collapsed c media) seq[(activeSpan am).1 + x]? with
            | false => rfl
            | true => exact absurd ⟨by omega, h1, h2⟩ h0
  rw [keptPositions_eq, List.mem_map, hspan]
  constructor
  · rintro ⟨x, hx, rfl⟩
    obtain ⟨hxr, hxk⟩ := List.mem_filter.1 hx
    have hxl := List.mem_range.1 hxr
    exact ⟨⟨by omega, by omega⟩, (hkept x hxl).1 hxk⟩
  · rintro ⟨⟨h1, h2⟩, h3⟩
    refine ⟨v - (activeSpan am).1, ?_, by omega⟩
    have hv : (activeSpan am).1 + (v - (activeSpan am).1) = v := by omega
    rw [List.mem_filter, List.mem_range]
    refine ⟨by omega, (hkept _ (by omega)).2 ?_⟩
    rw [hv]
    exact h3

theorem keptTokens_getElem {seq : List ℕ} {am : List Bool} (hlen : seq.length = am.length)
    (h : true ∈ am) :
    ∀ e ∈ c.keptTokens media (spanTokens seq am), seq[(activeSpan am).1 + e.1]? = some e.2 := by
  obtain ⟨-, hget⟩ := spanTokens_getElem hlen h
  intro e he
  rw [keptTokens_eq] at he
  obtain ⟨-, hx⟩ := squeezeIdx_getElem _ _ _ e he
  rw [Nat.sub_zero] at hx
  obtain ⟨hlt, -⟩ := List.getElem?_eq_some_iff.1 hx
  rw [← hget _ hlt, hx]

end

end Opd.Clight

import Opd.Clight.Alignment
import Opd.Verl.TeacherOutputs

/-!
# The two teacher paths on text

A text-only prompt and its response go to the teacher of CLight as a padded row with the
masks of its rollout, and to the teacher of verl as one unpadded sequence. Both store,
for a response token, the dictionary of one position of vLLM's output: verl always that
of the token, CLight the one with as many entries after it as the mask has later
response positions.

* `pathsAgree_iff_aligned`: where vLLM gives both the same output, the two paths agree
  exactly when CLight's entries are aligned.
* `rowAligned_of_padFirst`, `padFirst_of_rowAligned`: on text a row is aligned when no pad
  token follows another token of the response.
* `pathsAgree_iff`: the two paths agree for every engine under that condition only.
-/

namespace Opd.TeacherPaths

open Lib Clight TeacherConfig Verl.TeacherOutputs

variable {A : Type*} {L : Type}

/-! ## Text -/

/-- A prompt and a response without image or video tokens, within the widths that the
rollout of CLight pads them to. -/
structure TextSample (mm : ℕ → Bool) (promptWidth completionWidth : ℕ) where
  prompt : List ℕ
  response : List ℕ
  prompt_ne_nil : prompt ≠ []
  prompt_le : prompt.length ≤ promptWidth
  response_le : response.length ≤ completionWidth
  text : ∀ t ∈ prompt ++ response, mm t = false

namespace TextSample

variable {mm : ℕ → Bool} {P C : ℕ} (tok : SpecialTokens) (s : TextSample mm P C)

/-- The `sequence_ids` of verl. -/
def sequenceIds : List ℕ := s.prompt ++ s.response

/-- The row of CLight: the prompt padded on the left, the response on the right. -/
def row : RolloutRow P C where
  prompt :=
    { inputIds := List.replicate (P - s.prompt.length) tok.padTokenId ++ s.prompt
      attentionMask := List.replicate (P - s.prompt.length) false ++ List.replicate s.prompt.length true
      length_eq := by simp }
  length_prompt := by
    have := s.prompt_le
    rw [List.length_append, List.length_replicate]
    omega
  completion := s.response ++ List.replicate (C - s.response.length) tok.padTokenId
  length_completion := by
    have := s.response_le
    rw [List.length_append, List.length_replicate]
    omega

def verlPrompt : TeacherPrompt A where
  promptTokenIds := s.sequenceIds
  multiModalData := { image := none, video := none, audio := none }
  mmProcessorKwargs := none

variable (c : TeacherConfig) (media : MediaArgs A)

/-- The prompt of CLight's request, in row `i` of a batch. -/
def clightPrompt (i : ℕ) : TeacherPrompt A :=
  promptOfRow c media i (s.row tok).sequence ((s.row tok).attentionMask tok)

end TextSample

structure TextBatch (mm : ℕ → Bool) where
  tok : SpecialTokens
  promptWidth : ℕ
  completionWidth : ℕ
  samples : List (TextSample mm promptWidth completionWidth)

def TextBatch.rollout {mm : ℕ → Bool} (b : TextBatch mm) : RolloutBatch where
  tok := b.tok
  promptWidth := b.promptWidth
  completionWidth := b.completionWidth
  rows := b.samples.map (·.row b.tok)

theorem TextBatch.rollout_row {mm : ℕ → Bool} {b : TextBatch mm} {i : ℕ}
    {s : TextSample mm b.promptWidth b.completionWidth} (hs : b.samples[i]? = some s) :
    b.rollout.rows[i]? = some (s.row b.tok) :=
  (List.getElem?_map ..).trans (congrArg (Option.map (·.row b.tok)) hs)

section

variable {c : TeacherConfig} {media : MediaArgs A}

/-- Every dictionary of the engine is `Sized`. -/
def SizedEngine (E : Engine A L c.topk (mmTokens media)) : Prop :=
  ∀ i p, ∀ group ∈ E.positions i p, ∀ d ∈ group, Sized c.topk d

def verlOutput (E : Engine A L c.topk (mmTokens media)) {P C : ℕ} (s : TextSample (mmTokens media) P C) :
    RequestOutput L :=
  outputOf (E.positions 0 s.verlPrompt).flatten

/-- **The engine gives both the same `prompt_logprobs`**, for every sample. -/
def SameOutputs (E : Engine A L c.topk (mmTokens media)) (b : TextBatch (mmTokens media)) : Prop :=
  ∀ (i : ℕ) (s : TextSample (mmTokens media) b.promptWidth b.completionWidth), b.samples[i]? = some s →
    verlOutput E s = outputOf (E.positions i (s.clightPrompt b.tok c media i)).flatten

/-- **The two paths agree** on a batch. Without a response token CLight does not score;
otherwise `score` returns tensors whose cell for a response token, which is one position
before the token, is the one that verl stores one position before the token, whatever
widths and pad token verl uses. -/
def PathsAgree [Zero L] (E : Engine A L c.topk (mmTokens media)) (b : TextBatch (mmTokens media)) : Prop :=
  b.rollout.responseTokens = 0 ∨ ∃ out, (c.withEngine E).score (b.rollout.scoreArgs media) = .ok out ∧
    ∀ (i : ℕ) (s : TextSample (mmTokens media) b.promptWidth b.completionWidth), b.samples[i]? = some s →
      ∃ teacher, computeTeacherLogprobsSingle c.topk (verlOutput E s) s.sequenceIds = .ok teacher ∧
        ∀ promptWidth responseWidth padTokenId j, s.prompt.length ≤ promptWidth →
          s.response.length ≤ responseWidth →
          ((s.row b.tok).responseMask b.tok)[b.promptWidth + j - 1]? = some true →
          ∃ cell, (out[i]?).bind (·[b.promptWidth + j - 1]?) = some cell ∧
            (padTeacherOutputs teacher promptWidth responseWidth s.prompt.length s.response.length
              padTokenId)[promptWidth + j - 1]? = some cell

def SameRequests (c : TeacherConfig) (media : MediaArgs A) (b : TextBatch (mmTokens media)) : Prop :=
  ∀ (i : ℕ) (s : TextSample (mmTokens media) b.promptWidth b.completionWidth), b.samples[i]? = some s →
    (s.clightPrompt b.tok c media i).promptTokenIds = s.sequenceIds

end

def PadFirst (padTokenId : ℕ) (response : List ℕ) : Prop :=
  response.Pairwise fun a b => b = padTokenId → a = padTokenId

instance (padTokenId : ℕ) (response : List ℕ) : Decidable (PadFirst padTokenId response) :=
  inferInstanceAs (Decidable (List.Pairwise _ _))

/-! ## The masks of a sample -/

namespace TextSample

variable {mm : ℕ → Bool} {P C : ℕ} {tok : SpecialTokens} {s : TextSample mm P C}

theorem promptWidth_pos (s : TextSample mm P C) : 0 < P :=
  Nat.lt_of_lt_of_le (List.length_pos_of_ne_nil s.prompt_ne_nil) s.prompt_le

theorem mask_eq : (s.row tok).mask tok = completionMask tok (s.row tok).completion := by
  unfold RolloutRow.mask RolloutRow.sequence
  rw [List.drop_left' (s.row tok).length_prompt]

theorem responseMask_eq :
    (s.row tok).responseMask tok = List.replicate (P - 1) false ++ (s.row tok).mask tok := by
  have hP := s.promptWidth_pos
  have havail : P + C - 1 - (P - 1) = C := by omega
  have hfill : P + C - 1 - C = P - 1 := by omega
  unfold RolloutRow.responseMask shiftCompletionMask
  simp only [havail, hfill]
  rw [List.take_of_length_le (Nat.le_of_eq ((s.row tok).length_mask tok))]

/-- **The response mask** at the position before a response token. -/
theorem responseMask_getElem (j : ℕ) :
    ((s.row tok).responseMask tok)[P + j - 1]? = ((s.row tok).mask tok)[j]? := by
  have hP := s.promptWidth_pos
  have hidx : P + j - 1 - (P - 1) = j := by omega
  rw [responseMask_eq, List.getElem?_append_right (by rw [List.length_replicate]; omega),
    List.length_replicate, hidx]

theorem exists_of_responseMask {t : ℕ} (ht : ((s.row tok).responseMask tok)[t]? = some true) :
    ∃ j, t = P + j - 1 ∧ ((s.row tok).mask tok)[j]? = some true := by
  have hP := s.promptWidth_pos
  by_cases hlt : t < P - 1
  · rw [responseMask_eq, List.getElem?_append_left (by rw [List.length_replicate]; exact hlt),
      List.getElem?_replicate_of_lt hlt] at ht
    exact absurd ht (by simp)
  · have htj : t = P + (t + 1 - P) - 1 := by omega
    refine ⟨t + 1 - P, htj, ?_⟩
    rw [← responseMask_getElem, ← htj]
    exact ht

/-- **The completion mask of a sample**: tokens of the response that are no pad tokens,
up to the first EOS. -/
theorem mask_getElem {j : ℕ} :
    ((s.row tok).mask tok)[j]? = some true ↔
      ∃ x, s.response[j]? = some x ∧ x ≠ tok.padTokenId ∧ ∀ eos ∈ tok.eosTokenId, eos ∉ s.response.take j := by
  have hlen := (s.row tok).length_completion
  rw [mask_eq]
  by_cases hj : j < (s.row tok).completion.length
  · rw [completionMask_getElem tok _ j hj]
    by_cases hjr : j < s.response.length
    · have hx : (s.row tok).completion[j] = s.response[j] := List.getElem_append_left hjr
      have htake : (s.row tok).completion.take j = s.response.take j :=
        List.take_append_of_le_length (Nat.le_of_lt hjr)
      rw [hx, htake, List.getElem?_eq_getElem hjr]
      cases tok.eosTokenId <;> simp
    · have hpad : (s.row tok).completion[j] = tok.padTokenId := by
        have hright : (s.row tok).completion[j] = _ := List.getElem_append_right (Nat.le_of_not_lt hjr)
        rw [hright]
        exact List.getElem_replicate _
      rw [hpad, List.getElem?_eq_none (Nat.le_of_not_lt hjr)]
      simp
  · have hle := s.response_le
    rw [List.getElem?_eq_none (by rw [length_completionMask]; omega), List.getElem?_eq_none (by omega)]
    simp

/-- **The attention mask of a sample**: the prompt and the response positions. -/
theorem attentionMask_getElem {v : ℕ} :
    ((s.row tok).attentionMask tok)[v]? = some true ↔
      (P - s.prompt.length ≤ v ∧ v < P) ∨ (P ≤ v ∧ ((s.row tok).mask tok)[v - P]? = some true) := by
  have hle := s.prompt_le
  have hlen := (s.row tok).length_mask tok
  have hprompt : ((s.row tok).prompt.attentionMask).length = P := by
    rw [(s.row tok).prompt.length_eq, (s.row tok).length_prompt]
  -- the row is padded on the left, so the prompt ends at `P`
  have ham : (s.row tok).attentionMask tok =
      (List.replicate (P - s.prompt.length) false ++ List.replicate s.prompt.length true) ++
        (s.row tok).mask tok := by
    unfold RolloutRow.attentionMask sequenceAttentionMask
    rw [hlen, Nat.add_sub_cancel, List.take_of_length_le (Nat.le_of_eq hprompt),
      List.take_of_length_le (by rw [List.length_append, hprompt, hlen])]
    rfl
  rw [ham]
  by_cases hv : v < P
  · rw [List.getElem?_append_left (by simp; omega)]
    by_cases hl : v < P - s.prompt.length
    · rw [List.getElem?_append_left (by simpa using hl), List.getElem?_replicate_of_lt hl]
      simp
      omega
    · rw [List.getElem?_append_right (by simpa using Nat.le_of_not_lt hl), List.length_replicate,
        List.getElem?_replicate_of_lt (by omega)]
      simp
      omega
  · rw [List.getElem?_append_right (by simp; omega)]
    have hidx : v - (List.replicate (P - s.prompt.length) false ++ List.replicate s.prompt.length true).length =
        v - P := by
      simp
      omega
    rw [hidx]
    constructor
    · intro h
      exact Or.inr ⟨Nat.le_of_not_lt hv, h⟩
    · rintro (⟨-, h⟩ | ⟨-, h⟩)
      · exact absurd h hv
      · exact h

/-! ## The active span of a sample -/

theorem sequence_eq :
    (s.row tok).sequence = List.replicate (P - s.prompt.length) tok.padTokenId ++
      (s.sequenceIds ++ List.replicate (C - s.response.length) tok.padTokenId) := by
  unfold RolloutRow.sequence row sequenceIds
  simp only [List.append_assoc]

theorem active_prompt (tok : SpecialTokens) (s : TextSample mm P C) :
    ((s.row tok).attentionMask tok)[P - s.prompt.length]? = some true := by
  have hpos := List.length_pos_of_ne_nil s.prompt_ne_nil
  have hle := s.prompt_le
  exact attentionMask_getElem.2 (Or.inl ⟨Nat.le_refl _, by omega⟩)

theorem mem_active (tok : SpecialTokens) (s : TextSample mm P C) : true ∈ (s.row tok).attentionMask tok :=
  List.mem_of_getElem? (active_prompt tok s)

/-- **The active span** starts with the prompt and ends within the response. -/
theorem activeSpan_bounds (tok : SpecialTokens) (s : TextSample mm P C) :
    (activeSpan ((s.row tok).attentionMask tok)).1 = P - s.prompt.length ∧
      P ≤ (activeSpan ((s.row tok).attentionMask tok)).2 ∧
      (activeSpan ((s.row tok).attentionMask tok)).2 ≤ P + s.response.length := by
  have hpos := List.length_pos_of_ne_nil s.prompt_ne_nil
  have hle := s.prompt_le
  obtain ⟨hlt, -, hiff⟩ := activeSpan_spec (mem_active tok s)
  have hlast : ((s.row tok).attentionMask tok)[P - 1]? = some true :=
    attentionMask_getElem.2 (Or.inl ⟨by omega, by omega⟩)
  have h1 := (hiff (P - s.prompt.length)).1 ⟨⟨_, Nat.le_refl _, active_prompt tok s⟩, P - 1, by omega, hlast⟩
  have h2 := (hiff (P - 1)).1 ⟨⟨_, Nat.le_refl _, hlast⟩, _, Nat.le_refl _, hlast⟩
  obtain ⟨⟨a, ha, haact⟩, -⟩ := (hiff (activeSpan ((s.row tok).attentionMask tok)).1).2 ⟨Nat.le_refl _, hlt⟩
  obtain ⟨-, b, hb, hbact⟩ := (hiff ((activeSpan ((s.row tok).attentionMask tok)).2 - 1)).2 ⟨by omega, by omega⟩
  -- nothing before the prompt is active, and nothing after the response
  have ha' : P - s.prompt.length ≤ a := by
    rcases attentionMask_getElem.1 haact with h | h <;> omega
  have hb' : b < P + s.response.length := by
    rcases attentionMask_getElem.1 hbact with h | ⟨-, h⟩
    · omega
    · obtain ⟨x, hx, -⟩ := mask_getElem.1 h
      obtain ⟨hlen, -⟩ := List.getElem?_eq_some_iff.1 hx
      omega
  omega

def spanLength (tok : SpecialTokens) (s : TextSample mm P C) : ℕ :=
  (activeSpan ((s.row tok).attentionMask tok)).2 - (P - s.prompt.length)

theorem spanLength_le (tok : SpecialTokens) (s : TextSample mm P C) :
    spanLength tok s ≤ s.sequenceIds.length := by
  obtain ⟨-, -, h⟩ := activeSpan_bounds tok s
  have hle := s.prompt_le
  unfold spanLength sequenceIds
  rw [List.length_append]
  omega

theorem spanTokens_eq :
    spanTokens (s.row tok).sequence ((s.row tok).attentionMask tok) = s.sequenceIds.take (spanLength tok s) := by
  obtain ⟨hstart, -, -⟩ := activeSpan_bounds tok s
  have hle := spanLength_le tok s
  unfold spanTokens
  simp only [hstart]
  rw [List.drop_take, sequence_eq, List.drop_left' List.length_replicate]
  exact List.take_append_of_le_length hle

end TextSample

/-! ## The engine on text -/

section

variable {c : TeacherConfig} {media : MediaArgs A}

theorem keptTokens_text {l : List ℕ} (hl : ∀ t ∈ l, mmTokens media t = false) :
    c.keptTokens media l = (List.range l.length).zip l := by
  have hkeep : ∀ (b : Bool) (k : ℕ) (l : List ℕ), (∀ t ∈ l, mmTokens media t = false) →
      squeezeIdx (collapsed c media) b k l = (List.range' k l.length).zip l := by
    intro b k l hl
    induction l generalizing b k with
    | nil => rfl
    | cons t l ih =>
      have ht : collapsed c media t = false := by
        unfold collapsed
        rw [show isMm media.imageTokenId media.videoTokenId t = false from hl t (List.mem_cons_self ..),
          Bool.and_false]
      unfold squeezeIdx
      simp only [ht, Bool.false_and, Bool.false_eq_true, if_false]
      rw [ih _ _ fun u hu => hl u (List.mem_cons_of_mem _ hu), List.length_cons, List.range'_succ,
        List.zip_cons_cons]
  rw [keptTokens_eq, hkeep false 0 l hl, List.range_eq_range']

theorem positions_text (E : Engine A L c.topk (mmTokens media)) (i : ℕ) {p : TeacherPrompt A}
    (hp : ∀ t ∈ p.promptTokenIds, mmTokens media t = false) :
    ∃ ds : List (LogprobsDict L), E.positions i p = ds.map (fun d => [d]) ∧ ds.length = p.promptTokenIds.length := by
  have hlen := E.length_positions i p
  have hsingle : ∀ group ∈ E.positions i p, ∃ d, group = [d] := by
    intro group hgroup
    obtain ⟨x, hx⟩ := List.getElem?_of_mem hgroup
    obtain ⟨hlt, -⟩ := List.getElem?_eq_some_iff.1 hx
    have ht := List.getElem?_eq_getElem (show x < p.promptTokenIds.length by omega)
    have h1 := E.single i p x _ group ht hx (hp _ (List.mem_of_getElem? ht))
    exact List.length_eq_one_iff.1 h1
  rw [← hlen]
  generalize E.positions i p = groups at hsingle
  induction groups with
  | nil => exact ⟨[], rfl, rfl⟩
  | cons group groups ih =>
    obtain ⟨d, rfl⟩ := hsingle group (List.mem_cons_self ..)
    obtain ⟨ds, hds, hcount⟩ := ih fun g hg => hsingle g (List.mem_cons_of_mem _ hg)
    refine ⟨d :: ds, ?_, ?_⟩
    · rw [hds, List.map_cons]
    · rw [List.length_cons, List.length_cons, hcount]

variable {P C i : ℕ} {tok : SpecialTokens} {s : TextSample (mmTokens media) P C}

theorem keptTokens_sample :
    c.keptTokens media (spanTokens (s.row tok).sequence ((s.row tok).attentionMask tok)) =
      (List.range (s.spanLength tok)).zip (s.sequenceIds.take (s.spanLength tok)) := by
  have hlen : (s.sequenceIds.take (s.spanLength tok)).length = s.spanLength tok := by
    rw [List.length_take, min_eq_left (s.spanLength_le tok)]
  have htext : ∀ t ∈ s.sequenceIds.take (s.spanLength tok), mmTokens media t = false :=
    fun t ht => s.text t (List.mem_of_mem_take ht)
  rw [TextSample.spanTokens_eq, keptTokens_text htext, hlen]

theorem clightPrompt_tokens :
    (s.clightPrompt tok c media i).promptTokenIds = s.sequenceIds.take (s.spanLength tok) := by
  have hle := s.spanLength_le tok
  change (c.keptTokens media (spanTokens (s.row tok).sequence ((s.row tok).attentionMask tok))).map Prod.snd = _
  rw [keptTokens_sample, List.map_snd_zip]
  rw [List.length_take, List.length_range]
  omega

theorem keptPositions_getElem {x v : ℕ} :
    (keptPositions c media (s.row tok).sequence ((s.row tok).attentionMask tok))[x]? = some v ↔
      x < s.spanLength tok ∧ P - s.prompt.length + x = v := by
  have hle := s.spanLength_le tok
  obtain ⟨hstart, -, -⟩ := s.activeSpan_bounds tok
  have hfst : ((List.range (s.spanLength tok)).zip (s.sequenceIds.take (s.spanLength tok))).map Prod.fst =
      List.range (s.spanLength tok) := by
    rw [List.map_fst_zip]
    rw [List.length_take, List.length_range]
    omega
  have hkept : keptPositions c media (s.row tok).sequence ((s.row tok).attentionMask tok) =
      (List.range (s.spanLength tok)).map (P - s.prompt.length + ·) := by
    have hmap := congrArg (List.map (P - s.prompt.length + ·)) hfst
    rw [List.map_map] at hmap
    unfold keptPositions
    rw [keptTokens_sample, hstart]
    exact hmap
  rw [hkept, List.getElem?_map]
  by_cases hx : x < s.spanLength tok
  · rw [List.getElem?_range hx, Option.map_some, Option.some.injEq]
    exact ⟨fun h => ⟨hx, h⟩, fun h => h.2⟩
  · rw [List.getElem?_eq_none (by rw [List.length_range]; omega)]
    exact ⟨fun h => absurd h (by simp), fun h => absurd h.1 hx⟩

/-- **CLight's cell** of a response token is of its occurrence when it holds the
dictionary of the token. -/
theorem fromOccurrence_iff {E : Engine A L c.topk (mmTokens media)} {ds : List (LogprobsDict L)} {j : ℕ}
    {cell : Cell L} (hds : E.positions i (s.clightPrompt tok c media i) = ds.map fun d => [d])
    (hlen : ds.length = s.spanLength tok) :
    FromOccurrence E i (s.row tok).sequence ((s.row tok).attentionMask tok) (P + j - 1) cell ↔
      ∃ d, ds[s.prompt.length + j]? = some d ∧ Holds c.topk d cell := by
  have hP := s.promptWidth_pos
  have hle := s.prompt_le
  have hgroup : ∀ (x : ℕ) (d : LogprobsDict L), ds[x]? = some d ↔
      (E.positions i (s.clightPrompt tok c media i))[x]? = some [d] := by
    intro x d
    rw [hds, List.getElem?_map, Option.map_eq_some_iff]
    constructor
    · intro h
      exact ⟨d, h, rfl⟩
    · rintro ⟨e, he, h⟩
      rw [he, List.singleton_inj.1 h]
  constructor
  · rintro ⟨x, group, d, hx, hg, hd, hholds⟩
    obtain ⟨-, hxv⟩ := keptPositions_getElem.1 hx
    -- the span starts at the prompt, so the occurrence is that of the response token
    obtain rfl : x = s.prompt.length + j := by omega
    have hg' : (E.positions i (s.clightPrompt tok c media i))[s.prompt.length + j]? = some group := hg
    rw [hds, List.getElem?_map, Option.map_eq_some_iff] at hg'
    obtain ⟨e, he, rfl⟩ := hg'
    rw [List.mem_singleton] at hd
    exact ⟨e, he, hd ▸ hholds⟩
  · rintro ⟨d, hd, hholds⟩
    obtain ⟨hlt, -⟩ := List.getElem?_eq_some_iff.1 hd
    refine ⟨s.prompt.length + j, [d], d, ?_, (hgroup _ _).1 hd, List.mem_singleton_self d, hholds⟩
    exact keptPositions_getElem.2 ⟨by omega, by omega⟩

theorem holds_unique {topk : ℕ} {d : LogprobsDict L} {a b : Cell L} (hd : Complete topk d)
    (ha : Holds topk d a) (hb : Holds topk d b) : a = b := by
  refine List.ext_getElem? fun r => ?_
  by_cases hr : r < topk
  · obtain ⟨item, hitem, hrank⟩ := hd.exists_item r hr
    rw [ha.2 r hr item hitem hrank, hb.2 r hr item hitem hrank]
  · rw [List.getElem?_eq_none (by rw [ha.1]; omega), List.getElem?_eq_none (by rw [hb.1]; omega)]

/-- **verl's cell** of a response token holds the dictionary of the token. -/
theorem verl_cell [Zero L] {output : RequestOutput L} {d : LogprobsDict L} {ds : List (LogprobsDict L)}
    (houtput : output = outputOf (d :: ds)) (hds : ∀ d ∈ ds, Complete c.topk d ∧ Sized c.topk d)
    (hlen : ds.length + 1 = s.sequenceIds.length) :
    ∃ teacher, computeTeacherLogprobsSingle c.topk output s.sequenceIds = .ok teacher ∧
      ∀ W R pad j e, s.prompt.length ≤ W → s.response.length ≤ R → (d :: ds)[s.prompt.length + j]? = some e →
        ∃ cell, (padTeacherOutputs teacher W R s.prompt.length s.response.length pad)[W + j - 1]? = some cell ∧
          Holds c.topk e cell := by
  have hpos := List.length_pos_of_ne_nil s.prompt_ne_nil
  obtain ⟨cells, hcompute, hall⟩ := computeTeacherLogprobsSingle_ok c.topk_pos hds hlen.symm
  refine ⟨_, houtput ▸ hcompute, ?_⟩
  intro W R pad j e hW hR he
  -- the first position has no row, so the row of a token is one before it
  obtain ⟨x, hx⟩ : ∃ x, s.prompt.length + j = x + 1 := ⟨s.prompt.length + j - 1, by omega⟩
  rw [hx, List.getElem?_cons_succ] at he
  obtain ⟨hlt, hget⟩ := List.getElem?_eq_some_iff.1 he
  have hcl : x < cells.length := by rw [← hall.length_eq]; exact hlt
  have hholds : Holds c.topk e cells[x] := hget ▸ (List.forall₂_iff_get.1 hall).2 x hlt hcl
  refine ⟨cells[x], ?_, hholds⟩
  have hidx : W + j - 1 = W - s.prompt.length + x := by omega
  rw [hidx, padTeacherOutputs_getElem hW hR (by rw [List.length_append]; omega), List.getElem?_append_left hcl,
    List.getElem?_eq_getElem hcl]

/-! ## Agreement and alignment -/

variable {b : TextBatch (mmTokens media)} {E : Engine A L c.topk (mmTokens media)}

theorem length_outputOf (ds : List (LogprobsDict L)) :
    (outputOf ds).promptLogprobs.map List.length = some ds.length := by
  cases ds with
  | nil => rfl
  | cons d ds => simp [outputOf]

theorem spanLength_of_sameRequests (h : SameRequests c media b) {i : ℕ}
    {s : TextSample (mmTokens media) b.promptWidth b.completionWidth} (hs : b.samples[i]? = some s) :
    s.spanLength b.tok = s.sequenceIds.length := by
  have htokens := congrArg List.length (h i s hs)
  rw [clightPrompt_tokens, List.length_take, min_eq_left (s.spanLength_le b.tok)] at htokens
  exact htokens

theorem sameRequests_of_sameOutputs (hsame : SameOutputs E b) : SameRequests c media b := by
  intro i s hs
  have hle := s.spanLength_le b.tok
  obtain ⟨ds, hds, hlen⟩ := positions_text E i (p := s.clightPrompt b.tok c media i) fun t ht => by
    rw [clightPrompt_tokens] at ht
    exact s.text t (List.mem_of_mem_take ht)
  obtain ⟨ds', hds', hlen'⟩ := positions_text E 0 (p := s.verlPrompt) s.text
  have hout : outputOf ds' = outputOf ds := by
    have h := hsame i s hs
    unfold verlOutput at h
    rw [hds, hds', ← List.flatMap_def, ← List.flatMap_def, List.flatMap_singleton', List.flatMap_singleton'] at h
    exact h
  have hcount : ds'.length = ds.length := by
    have h := congrArg (fun output => output.promptLogprobs.map List.length) hout
    simp only [length_outputOf, Option.some.injEq] at h
    exact h
  rw [clightPrompt_tokens] at hlen ⊢
  rw [List.length_take, min_eq_left hle] at hlen
  have hfull : s.spanLength b.tok = s.sequenceIds.length := by
    rw [← hlen, ← hcount]
    exact hlen'
  rw [hfull, List.take_length]

theorem dictionaries (hE : SizedEngine E) (hsame : SameOutputs E b) {i : ℕ}
    {s : TextSample (mmTokens media) b.promptWidth b.completionWidth} (hs : b.samples[i]? = some s) :
    ∃ d ds, E.positions i (s.clightPrompt b.tok c media i) = (d :: ds).map (fun d => [d]) ∧
      (d :: ds).length = s.spanLength b.tok ∧ verlOutput E s = outputOf (d :: ds) ∧
      ds.length + 1 = s.sequenceIds.length ∧ ∀ d' ∈ d :: ds, Complete c.topk d' ∧ Sized c.topk d' := by
  have hspan := spanLength_of_sameRequests (sameRequests_of_sameOutputs hsame) hs
  have htokens := sameRequests_of_sameOutputs hsame i s hs
  obtain ⟨all, hall, hlen⟩ := positions_text E i (p := s.clightPrompt b.tok c media i) fun t ht => by
    rw [htokens] at ht
    exact s.text t ht
  rw [htokens] at hlen
  have hpos : 0 < all.length := by
    have := List.length_pos_of_ne_nil s.prompt_ne_nil
    rw [hlen, TextSample.sequenceIds, List.length_append]
    omega
  obtain ⟨d, ds, rfl⟩ := List.exists_cons_of_length_pos hpos
  refine ⟨d, ds, hall, hlen.trans hspan.symm, ?_, hlen, ?_⟩
  · rw [hsame i s hs, hall, ← List.flatMap_def, List.flatMap_singleton']
  · intro d' hd'
    have hgroup : [d'] ∈ E.positions i (s.clightPrompt b.tok c media i) := by
      rw [hall]
      exact List.mem_map.2 ⟨d', hd', rfl⟩
    exact ⟨E.complete i _ _ hgroup d' (List.mem_singleton_self d'),
      hE i _ _ hgroup d' (List.mem_singleton_self d')⟩

theorem lt_of_mask {j : ℕ} (hj : ((s.row tok).mask tok)[j]? = some true) :
    s.prompt.length + j < s.sequenceIds.length := by
  obtain ⟨x, hx, -⟩ := TextSample.mask_getElem.1 hj
  obtain ⟨hlt, -⟩ := List.getElem?_eq_some_iff.1 hx
  unfold TextSample.sequenceIds
  rw [List.length_append]
  omega

/-- **Agreement is alignment**: verl always stores the entry of the token itself. -/
theorem pathsAgree_iff_aligned [Zero L] (hE : SizedEngine E) (hsame : SameOutputs E b) :
    PathsAgree E b ↔ Aligned b.rollout E := by
  refine or_congr_right (exists_congr fun out => and_congr_right fun _ => ?_)
  constructor
  · intro hagree i r hr t ht
    obtain ⟨s, hs, rfl⟩ := Option.map_eq_some_iff.1 ((List.getElem?_map ..).symm.trans hr)
    obtain ⟨d, ds, hds, hspan, houtput, hlen, hall⟩ := dictionaries hE hsame hs
    obtain ⟨teacher, hteacher, hcells⟩ := hagree i s hs
    obtain ⟨teacher', hteacher', hverl⟩ :=
      verl_cell (s := s) houtput (fun d hd => hall d (List.mem_cons_of_mem _ hd)) hlen
    obtain rfl : teacher' = teacher := Except.ok.inj (hteacher'.symm.trans hteacher)
    -- one response token, in both rows
    obtain ⟨j, rfl, hj⟩ := TextSample.exists_of_responseMask ht
    obtain ⟨cell, hclight, hpadded⟩ := hcells _ _ 0 j (Nat.le_refl _) (Nat.le_refl _) ht
    have hlt := lt_of_mask hj
    have hlt' : s.prompt.length + j < (d :: ds).length := by
      rw [List.length_cons, hlen]
      exact hlt
    have he := List.getElem?_eq_getElem hlt'
    obtain ⟨cell', hpadded', hholds⟩ := hverl _ _ 0 j _ (Nat.le_refl _) (Nat.le_refl _) he
    obtain rfl : cell' = cell := Option.some.inj (hpadded'.symm.trans hpadded)
    exact ⟨cell', hclight, (fromOccurrence_iff hds hspan).2 ⟨_, he, hholds⟩⟩
  · intro haligned i s hs
    obtain ⟨d, ds, hds, hspan, houtput, hlen, hall⟩ := dictionaries hE hsame hs
    obtain ⟨teacher, hteacher, hverl⟩ :=
      verl_cell (s := s) houtput (fun d hd => hall d (List.mem_cons_of_mem _ hd)) hlen
    refine ⟨teacher, hteacher, ?_⟩
    intro W R pad j hW hR hj
    obtain ⟨cell, hclight, hocc⟩ := haligned i _ (TextBatch.rollout_row hs) _ hj
    obtain ⟨e, he, hholds⟩ := (fromOccurrence_iff hds hspan).1 hocc
    obtain ⟨cell', hpadded, hholds'⟩ := hverl W R pad j e hW hR he
    -- both cells hold the dictionary of the token
    have hcell := holds_unique (hall e (List.mem_of_getElem? he)).1 hholds hholds'
    exact ⟨cell, hclight, hcell ▸ hpadded⟩

/-! ## Aligned samples -/

theorem response_text (tok : SpecialTokens) {j : ℕ} (hj : j < s.response.length) :
    ((s.row tok).sequence[P + j]?).any (mmTokens media) = false := by
  have hle := s.prompt_le
  have hidx : P + j - (P - s.prompt.length) - s.prompt.length = j := by omega
  rw [TextSample.sequence_eq, List.getElem?_append_right (by rw [List.length_replicate]; omega),
    List.length_replicate, TextSample.sequenceIds, List.append_assoc,
    List.getElem?_append_right (by omega), hidx, List.getElem?_append_left hj, List.getElem?_eq_getElem hj]
  exact s.text _ (List.mem_append_right _ (List.getElem_mem hj))

theorem not_dropped_response {j : ℕ} (hj : j < s.response.length) :
    ¬ Dropped (collapsed c media) (s.row tok).sequence (P + j) := by
  rintro ⟨-, hdrop, -⟩
  obtain ⟨x, hx, hcollapsed⟩ := (Option.any_eq_true _ _).1 hdrop
  have htext := response_text tok hj
  rw [hx, Option.any_some] at htext
  unfold collapsed at hcollapsed
  rw [show isMm media.imageTokenId media.videoTokenId x = false from htext, Bool.and_false] at hcollapsed
  exact Bool.false_ne_true hcollapsed

/-- A sample without a pad token after another token of its response is aligned. -/
theorem rowAligned_of_padFirst (h : PadFirst tok.padTokenId s.response) :
    RowAligned c media (s.row tok).sequence ((s.row tok).attentionMask tok) ((s.row tok).responseMask tok) := by
  have hP := s.promptWidth_pos
  have hpos := List.length_pos_of_ne_nil s.prompt_ne_nil
  have hlast : ((s.row tok).attentionMask tok)[P - 1]? = some true :=
    TextSample.attentionMask_getElem.2 (Or.inl ⟨by omega, by omega⟩)
  refine ⟨s.mem_active tok, ?_⟩
  intro t ht
  obtain ⟨j, rfl, hj⟩ := TextSample.exists_of_responseMask ht
  obtain ⟨x, hx, hxpad, -⟩ := TextSample.mask_getElem.1 hj
  obtain ⟨hjr, hxj⟩ := List.getElem?_eq_some_iff.1 hx
  have hnext : P + j - 1 + 1 = P + j := by omega
  have hjact : ((s.row tok).attentionMask tok)[P + j]? = some true := by
    refine TextSample.attentionMask_getElem.2 (Or.inr ⟨Nat.le_add_right .., ?_⟩)
    rw [Nat.add_sub_cancel_left]
    exact hj
  rw [hnext]
  refine ⟨⟨P - 1, by omega, hlast⟩, ⟨⟨_, Nat.le_refl _, hjact⟩, _, Nat.le_refl _, hjact⟩,
    not_dropped_response hjr, ?_⟩
  -- a later position of the span is a response token that is no pad token
  intro u htu hspan _
  obtain ⟨j', rfl⟩ : ∃ j', u = P + j' - 1 := ⟨u + 1 - P, by omega⟩
  have hnext' : P + j' - 1 + 1 = P + j' := by omega
  rw [hnext'] at hspan ⊢
  obtain ⟨-, v, hv, hvact⟩ := hspan
  obtain ⟨j'', rfl⟩ := Nat.exists_eq_add_of_le (show P ≤ v by omega)
  have hvmask : ((s.row tok).mask tok)[j'']? = some true := by
    rcases TextSample.attentionMask_getElem.1 hvact with hprompt | ⟨-, hmask⟩
    · omega
    · rwa [Nat.add_sub_cancel_left] at hmask
  obtain ⟨y, hy, -, heos⟩ := TextSample.mask_getElem.1 hvmask
  obtain ⟨hj''r, -⟩ := List.getElem?_eq_some_iff.1 hy
  have hj'r : j' < s.response.length := by omega
  refine ⟨?_, response_text tok hj'r⟩
  rw [TextSample.responseMask_getElem, TextSample.mask_getElem]
  refine ⟨s.response[j'], List.getElem?_eq_getElem hj'r, ?_, ?_⟩
  · intro hpad
    exact hxpad (hxj ▸ List.pairwise_iff_getElem.1 h j j' hjr hj'r (by omega) hpad)
  · intro eos he hmem
    exact heos eos he ((List.take_sublist_take_left (by omega)).subset hmem)

/-- An aligned sample that both paths submit has no pad token after another token of its
response. -/
theorem padFirst_of_rowAligned (hspan : s.spanLength tok = s.sequenceIds.length)
    (h : ∀ t : ℕ, ((s.row tok).responseMask tok)[t]? = some true →
      RowAligned c media (s.row tok).sequence ((s.row tok).attentionMask tok) ((s.row tok).responseMask tok)) :
    PadFirst tok.padTokenId s.response := by
  have hP := s.promptWidth_pos
  have hpos := List.length_pos_of_ne_nil s.prompt_ne_nil
  have hle := s.prompt_le
  obtain ⟨hstart, -, -⟩ := s.activeSpan_bounds tok
  obtain ⟨-, -, hiff⟩ := activeSpan_spec (s.mem_active tok)
  have hstop : (activeSpan ((s.row tok).attentionMask tok)).2 = P + s.response.length := by
    unfold TextSample.spanLength TextSample.sequenceIds at hspan
    rw [List.length_append] at hspan
    omega
  refine List.pairwise_iff_getElem.2 ?_
  intro i j hi hj hij hpad
  by_contra hne
  -- the last token is active, so no EOS comes before it
  obtain ⟨-, v, hv, hvact⟩ := (hiff (P + j)).2 ⟨by omega, by omega⟩
  have hmask : ((s.row tok).mask tok)[v - P]? = some true := by
    rcases TextSample.attentionMask_getElem.1 hvact with hprompt | ⟨-, hmask⟩
    · omega
    · exact hmask
  obtain ⟨-, -, -, heos⟩ := TextSample.mask_getElem.1 hmask
  have hti : ((s.row tok).responseMask tok)[P + i - 1]? = some true := by
    rw [TextSample.responseMask_getElem, TextSample.mask_getElem]
    refine ⟨s.response[i], List.getElem?_eq_getElem hi, hne, ?_⟩
    intro eos he hmem
    exact heos eos he ((List.take_sublist_take_left (by omega)).subset hmem)
  obtain ⟨-, -, -, hlater⟩ := (h _ hti).response _ hti
  have hnext : P + j - 1 + 1 = P + j := by omega
  obtain ⟨hresp, -⟩ := hlater (P + j - 1) (by omega) (by
    rw [hnext]
    exact (hiff _).2 ⟨by omega, by omega⟩) (by
    rw [hnext]
    exact not_dropped_response hj)
  rw [TextSample.responseMask_getElem, TextSample.mask_getElem] at hresp
  obtain ⟨x, hx, hxpad, -⟩ := hresp
  rw [List.getElem?_eq_getElem hj, Option.some.injEq] at hx
  exact hxpad (hx ▸ hpad)

/-! ## When the paths agree -/

theorem sizedEngine_numbering [Zero L] (w : ℕ) (hw : 0 < w) :
    SizedEngine (numberingEngine c.topk (mmTokens media) w hw : Engine A L c.topk (mmTokens media)) := by
  intro i p group hgroup d hd
  obtain ⟨labels, -, rfl⟩ := List.mem_map.1 hgroup
  obtain ⟨n, -, rfl⟩ := List.mem_map.1 hd
  refine ⟨?_, Or.inl ?_⟩
  · intro item hitem
    obtain ⟨r, -, rfl⟩ := List.mem_map.1 hitem
    exact Option.some_ne_none _
  · unfold entryOf
    rw [List.length_map, List.length_range]

theorem sameOutputs_numbering [Zero L] (h : SameRequests c media b) (w : ℕ) (hw : 0 < w) :
    SameOutputs (numberingEngine c.topk (mmTokens media) w hw : Engine A L c.topk (mmTokens media)) b := by
  intro i s hs
  unfold verlOutput numberingEngine
  dsimp only
  rw [h i s hs]
  rfl

theorem pathsAgree_of_padFirst [Zero L] (hE : SizedEngine E) (hsame : SameOutputs E b)
    (h : ∀ s ∈ b.samples, PadFirst b.tok.padTokenId s.response) : PathsAgree E b := by
  rw [pathsAgree_iff_aligned hE hsame]
  by_cases h0 : b.rollout.responseTokens = 0
  · exact Or.inl h0
  · refine (aligned_iff h0).2 ?_
    intro i r hr
    obtain ⟨s, hs, rfl⟩ := List.mem_map.1 (List.mem_of_getElem? hr)
    exact rowHolds_of_rowAligned (by rw [RolloutRow.length_sequence, RolloutRow.length_attentionMask])
      (by rw [RolloutRow.length_responseMask, RolloutRow.length_sequence])
      (rowAligned_of_padFirst (h s hs)) (length_blankRow b.rollout _) E i

theorem padFirst_of_pathsAgree [Zero L] (hreq : SameRequests c media b)
    (h1 : PathsAgree (numberingEngine c.topk (mmTokens media) 1 Nat.one_pos : Engine A L _ _) b)
    (h2 : PathsAgree (numberingEngine c.topk (mmTokens media) 2 Nat.two_pos : Engine A L _ _) b) :
    ∀ s ∈ b.samples, PadFirst b.tok.padTokenId s.response := by
  intro s hs
  obtain ⟨i, hi⟩ := List.getElem?_of_mem hs
  have hrow := TextBatch.rollout_row hi
  refine padFirst_of_rowAligned (c := c) (spanLength_of_sameRequests hreq hi) fun t ht => ?_
  -- the row has a response token, so the batch is scored
  have h0 : b.rollout.responseTokens ≠ 0 := RolloutBatch.responseTokens_ne_zero (List.mem_of_getElem? hrow) ht
  rw [pathsAgree_iff_aligned (sizedEngine_numbering _ _) (sameOutputs_numbering hreq _ _), aligned_iff h0] at h1 h2
  exact rowAligned_of_rowHolds (by rw [RolloutRow.length_sequence, RolloutRow.length_attentionMask])
    (by rw [RolloutRow.length_responseMask, RolloutRow.length_sequence]) (length_blankRow (L := L) b.rollout _)
    (h1 i _ hrow) (h2 i _ hrow)

end

/-- **When the two teacher paths agree.** On a batch of text, they agree for every engine
that gives both the same output exactly when, on submitting the same tokens, no response
has a pad token after another token. -/
theorem pathsAgree_iff (c : TeacherConfig) (media : MediaArgs A) (L : Type) [Zero L]
    (b : TextBatch (mmTokens media)) :
    (∀ E : Engine A L c.topk (mmTokens media), SizedEngine E → SameOutputs E b → PathsAgree E b) ↔
      (SameRequests c media b → ∀ s ∈ b.samples, PadFirst b.tok.padTokenId s.response) := by
  constructor
  · intro h hreq
    exact padFirst_of_pathsAgree hreq (h _ (sizedEngine_numbering _ _) (sameOutputs_numbering hreq _ _))
      (h _ (sizedEngine_numbering _ _) (sameOutputs_numbering hreq _ _))
  · intro h E hE hsame
    exact pathsAgree_of_padFirst hE hsame (h (sameRequests_of_sameOutputs hsame))

def padHoleSample : TextSample (mmTokens noMedia) 1 4 where
  prompt := [3]
  response := [4, 0, 5, 2]
  prompt_ne_nil := by decide
  prompt_le := by decide
  response_le := by decide
  text := by decide

def padHoleText : TextBatch (mmTokens noMedia) where
  tok := { padTokenId := 0, eosTokenId := some 2 }
  promptWidth := 1
  completionWidth := 4
  samples := [padHoleSample]

def topOne : TeacherConfig where
  topk := 1
  topk_pos := Nat.one_pos
  dedupMmTokens := true

def padHoleEngine : Engine Unit ℤ topOne.topk (mmTokens noMedia) :=
  numberingEngine topOne.topk (mmTokens noMedia) 1 Nat.one_pos

theorem padHole_sameRequests : SameRequests topOne noMedia padHoleText := by
  intro i s hs
  have hmem : s ∈ padHoleText.samples := List.mem_of_getElem? hs
  rw [List.mem_singleton.1 hmem]
  rfl

/-- **A pad token inside a response**: for token 4 CLight stores the entry of the pad
token, whose number is 2, and verl its own, whose number is 1. -/
theorem padHole_disagrees :
    ((topOne.withEngine padHoleEngine).score (padHoleText.rollout.scoreArgs noMedia) =
        .ok [[[(2, 0)], [(0, 0)], [(3, 0)], [(4, 0)]]] ∧
      (computeTeacherLogprobsSingle topOne.topk (verlOutput padHoleEngine padHoleSample)
        padHoleSample.sequenceIds).map (fun teacher => padTeacherOutputs teacher 1 4 1 4 0) =
        .ok [[(1, 0)], [(2, 0)], [(3, 0)], [(4, 0)], [(0, 0)]]) ∧
    ¬ ∀ (c : TeacherConfig) (media : MediaArgs Unit) (b : TextBatch (mmTokens media))
      (E : Engine Unit ℤ c.topk (mmTokens media)), SizedEngine E → SameOutputs E b → PathsAgree E b := by
  -- the rows of CLight and of verl
  have hscore : (topOne.withEngine padHoleEngine).score (padHoleText.rollout.scoreArgs noMedia) =
      .ok [[[(2, 0)], [(0, 0)], [(3, 0)], [(4, 0)]]] := by
    decide +kernel
  have hverl : (computeTeacherLogprobsSingle topOne.topk (verlOutput padHoleEngine padHoleSample)
      padHoleSample.sequenceIds).map (fun teacher => padTeacherOutputs teacher 1 4 1 4 0) =
      .ok [[(1, 0)], [(2, 0)], [(3, 0)], [(4, 0)], [(0, 0)]] := by
    decide +kernel
  refine ⟨⟨hscore, hverl⟩, ?_⟩
  intro h
  rcases h topOne noMedia padHoleText padHoleEngine (sizedEngine_numbering 1 Nat.one_pos)
    (sameOutputs_numbering padHole_sameRequests 1 Nat.one_pos) with h0 | ⟨out, hout, hcells⟩
  · exact absurd h0 (by decide)
  · obtain ⟨teacher, hteacher, hagree⟩ := hcells 0 padHoleSample rfl
    -- token 4 is the first one of the response
    obtain ⟨cell, hclight, hpadded⟩ := hagree 1 4 0 0 (by decide) (by decide) (by decide)
    have hpad : padTeacherOutputs teacher 1 4 1 4 0 = [[(1, 0)], [(2, 0)], [(3, 0)], [(4, 0)], [(0, 0)]] :=
      Except.ok.inj ((congrArg (Except.map _) hteacher).symm.trans hverl)
    change (padTeacherOutputs teacher 1 4 1 4 0)[0]? = some cell at hpadded
    rw [hpad] at hpadded
    rw [← Except.ok.inj (hscore.symm.trans hout)] at hclight
    have hcell : some [(2, 0)] = some [((1 : ℕ), (0 : ℤ))] := hclight.trans hpadded.symm
    exact absurd hcell (by decide)

end Opd.TeacherPaths

import Mathlib.Algebra.GroupWithZero.Nat
import Mathlib.Data.Int.Notation
import Opd.Clight.StudentRollout

/-!
# `VLCollator`: from features to the prompts of a batch

`VLCollator.__call__` pads the prompts on the left. On a batch without any image
`inject_dummy_image` first appends the tokens of a fake image to the first feature,
with attention mask 0, so that the model's image branch always runs.

* `call_prompts`: the padded prompt rows, from the features.
* `submitted_rows_iff`: every row reaches the rollout engine without its masked
  tokens **iff** the masked tokens of every prompt vanish in the dedup.
-/

namespace Opd.Clight

open Lib

/-- `IGNORE_INDEX`, the label of tokens outside the loss. -/
def ignoreIndex : ℤ := -100

/-- The `images` column of a dataset row: absent, one image, or a list with holes. -/
inductive RawImages (Img : Type*)
  | absent
  | one (image : Img)
  | many (images : List (Option Img))

structure Feature (Img : Type*) where
  seq : Encoded
  labels : List ℤ
  prompt : Option Encoded
  images : RawImages Img

/-- The tokenizer as the collator uses it: `pad` with `padding_side="left"` pads
every row to one common width, with masked pad tokens. -/
structure Tokenizer where
  padTokenId : ℕ
  width : List Encoded → ℕ
  le_width : ∀ es, ∀ e ∈ es, e.inputIds.length ≤ width es

/-- The width of `padding=True` with `pad_to_multiple_of`: the longest row, rounded up. -/
def Tokenizer.longest (padTokenId : ℕ) (padToMultipleOf : ℕ) : Tokenizer where
  padTokenId := padTokenId
  width := fun es =>
    let n := (es.map (·.inputIds.length)).foldr max 0
    if padToMultipleOf = 0 then n else (n + padToMultipleOf - 1) / padToMultipleOf * padToMultipleOf
  le_width := by
    intro es e he
    have hmax : e.inputIds.length ≤ (es.map (·.inputIds.length)).foldr max 0 := by
      induction es with
      | nil => simp at he
      | cons d es ih =>
        simp only [List.map_cons, List.foldr_cons]
        rcases List.mem_cons.1 he with rfl | he
        · exact Nat.le_max_left _ _
        · exact Nat.le_trans (ih he) (Nat.le_max_right _ _)
    dsimp only
    split
    · exact hmax
    · rename_i h0
      refine Nat.le_trans hmax ?_
      have := Nat.div_add_mod ((es.map (·.inputIds.length)).foldr max 0 + padToMultipleOf - 1) padToMultipleOf
      have hlt := Nat.mod_lt ((es.map (·.inputIds.length)).foldr max 0 + padToMultipleOf - 1)
        (Nat.pos_of_ne_zero h0)
      rw [Nat.mul_comm] at this
      omega

namespace Encoded

def append (e d : Encoded) : Encoded where
  inputIds := e.inputIds ++ d.inputIds
  attentionMask := e.attentionMask ++ d.attentionMask
  length_eq := by simp [e.length_eq, d.length_eq]

def masked (ids : List ℕ) : Encoded where
  inputIds := ids
  attentionMask := List.replicate ids.length false
  length_eq := by simp

/-- A row padded on the left to width `w`. -/
def leftPad (padTokenId w : ℕ) (e : Encoded) : Encoded :=
  (masked (List.replicate (w - e.inputIds.length) padTokenId)).append e

end Encoded

/-- `VLCollator`, with what it reads of its processor, template and tokenizer. -/
structure VLCollator (Img : Type*) where
  hasProcessor : Bool
  /-- `template.mm_plugin.image_token is not None` -/
  hasImageToken : Bool
  /-- `tokenizer.encode` of the fake image's message -/
  fakeIds : List ℕ
  fakeImage : Img
  /-- `mm_plugin.regularize_images` -/
  regularizeImages : List Img → List Img
  tokenizer : Tokenizer

/-- What `__call__` puts into the batch for the rollout. -/
structure CollatedBatch (Img : Type*) where
  prompts : Option (List Encoded)
  vllmImages : List (List Img)

namespace VLCollator

variable {Img : Type*} (C : VLCollator Img)

def sampleImages : RawImages Img → List Img
  | .absent => []
  | .one image => [image]
  | .many images => images.filterMap id

/-- Whether `inject_dummy_image` adds the fake image. -/
def needsDummy (features : List (Feature Img)) : Bool :=
  C.hasProcessor && C.hasImageToken && !features.isEmpty &&
    (features.map fun f => (sampleImages f.images).length).sum == 0

/-- The first feature after `inject_dummy_image`. -/
def withDummy (f : Feature Img) : Feature Img where
  seq := f.seq.append (Encoded.masked C.fakeIds)
  labels := f.labels ++ List.replicate C.fakeIds.length ignoreIndex
  prompt := f.prompt.map (·.append (Encoded.masked C.fakeIds))
  images := f.images

/-- `inject_dummy_image`: the features and the images of every sample afterwards. -/
def injectDummyImage (features : List (Feature Img)) : List (Feature Img) × List (List Img) :=
  let imagesPerSample := features.map fun f => sampleImages f.images
  if C.needsDummy features then
    (features.modifyHead C.withDummy, imagesPerSample.modifyHead fun _ => [C.fakeImage])
  else (features, imagesPerSample)

/-- The prompt of a feature as `pad_aux_sequences` reads it. -/
def promptOf (f : Feature Img) : Encoded := f.prompt.getD (Encoded.masked [])

/-- `pad_aux_sequences` on the prompts, with `padding_side="left"`. -/
def padAuxSequences (features : List (Feature Img)) : Option (List Encoded) :=
  if features.any (·.prompt.isSome) then
    let es := features.map promptOf
    some (es.map (Encoded.leftPad C.tokenizer.padTokenId (C.tokenizer.width es)))
  else none

/-- `VLCollator.__call__`, the part that feeds the rollout. -/
def call (features : List (Feature Img)) : CollatedBatch Img :=
  let (rawFeatures, imagesPerSample) := C.injectDummyImage features
  { prompts := C.padAuxSequences rawFeatures
    vllmImages := imagesPerSample.map fun images =>
      if C.hasProcessor && !images.isEmpty then C.regularizeImages images else [] }

def featureTokens (f : Feature Img) : List (ℕ × Bool) := (f.prompt.map Encoded.tokens).getD []

/-- The prompt tokens of all features; the masked tokens of the fake image are part
of the first prompt when they are injected. -/
def promptTokens : List (Feature Img) → List (List (ℕ × Bool))
  | [] => []
  | f :: fs =>
    (featureTokens f ++
        if C.needsDummy (f :: fs) && f.prompt.isSome then C.fakeIds.map (·, false) else []) ::
      fs.map featureTokens

/-! ## The padded rows -/

theorem tokens_append (e d : Encoded) : (e.append d).tokens = e.tokens ++ d.tokens :=
  List.zip_append e.length_eq.symm

theorem tokens_masked (ids : List ℕ) : (Encoded.masked ids).tokens = ids.map (·, false) := by
  unfold Encoded.tokens Encoded.masked
  induction ids with
  | nil => rfl
  | cons x ids ih => simpa [List.replicate_succ] using ih

theorem tokens_leftPad (padTokenId w : ℕ) (e : Encoded) :
    (e.leftPad padTokenId w).tokens =
      List.replicate (w - e.inputIds.length) (padTokenId, false) ++ e.tokens := by
  unfold Encoded.leftPad
  rw [tokens_append, tokens_masked, List.map_replicate]

theorem fromFirstActive_leftPad (padTokenId w : ℕ) (e : Encoded) :
    fromFirstActive (e.leftPad padTokenId w).tokens = fromFirstActive e.tokens := by
  rw [tokens_leftPad]
  generalize w - e.inputIds.length = n
  induction n with
  | zero => rfl
  | succ n ih => rw [List.replicate_succ, List.cons_append]; exact ih

theorem promptOf_tokens (f : Feature Img) : (promptOf f).tokens = featureTokens f := by
  unfold promptOf featureTokens
  cases f.prompt <;> rfl

theorem featureTokens_withDummy (f : Feature Img) :
    featureTokens (C.withDummy f) =
      featureTokens f ++ if f.prompt.isSome then C.fakeIds.map (·, false) else [] := by
  unfold featureTokens withDummy
  cases f.prompt with
  | none => rfl
  | some e => simp [tokens_append, tokens_masked]

theorem promptTokens_eq (features : List (Feature Img)) :
    C.promptTokens features = (C.injectDummyImage features).1.map featureTokens := by
  unfold injectDummyImage
  cases features with
  | nil => simp [promptTokens, needsDummy]
  | cons f fs =>
    cases hd : C.needsDummy (f :: fs) with
    | false => simp [promptTokens, hd]
    | true =>
      simp only [promptTokens, hd, Bool.true_and, if_true, List.modifyHead_cons, List.map_cons,
        featureTokens_withDummy]

/-- **The rows of the batch** hold the prompt tokens of the features after masked pads. -/
theorem call_prompts {features : List (Feature Img)} {rows : List Encoded}
    (h : (C.call features).prompts = some rows) :
    rows.map (fun row => fromFirstActive row.tokens) = (C.promptTokens features).map fromFirstActive := by
  rw [promptTokens_eq]
  simp only [call, padAuxSequences] at h
  split at h
  · rw [Option.some.injEq] at h
    rw [← h, List.map_map, List.map_map, List.map_map]
    refine List.map_congr_left fun f _ => ?_
    simp only [Function.comp_apply, fromFirstActive_leftPad, promptOf_tokens]
  · simp at h

theorem promptTokens_of_none {features : List (Feature Img)}
    (h : (C.call features).prompts = none) : ∀ toks ∈ C.promptTokens features, toks = [] := by
  rw [promptTokens_eq]
  simp only [call, padAuxSequences] at h
  split at h
  · simp at h
  · rename_i hno
    intro toks htoks
    obtain ⟨f, hf, rfl⟩ := List.mem_map.1 htoks
    have hnone : f.prompt.isSome = false := by
      cases hs : f.prompt.isSome with
      | false => rfl
      | true => exact absurd (List.any_eq_true.2 ⟨f, hf, hs⟩) hno
    rw [Option.isSome_eq_false_iff, Option.isNone_iff_eq_none] at hnone
    simp [featureTokens, hnone]

/-- **Masked tokens and the rollout engine.** For every row of the batch, the tokens
submitted are the dedup of the row's active tokens, exactly when in every prompt the
masked tokens after the first active one do not survive the dedup. -/
theorem submitted_rows_iff (features : List (Feature Img)) (imageTokenId videoTokenId : Option ℕ) :
    (∀ rows, (C.call features).prompts = some rows →
        (submittedPrompts rows (some (C.call features).vllmImages) imageTokenId videoTokenId).map
            (·.promptTokenIds) =
          rows.map fun row => dedupConsecutiveMmTokens imageTokenId videoTokenId row.activeTokens) ↔
      ∀ toks ∈ C.promptTokens features,
        Harmless (isMm imageTokenId videoTokenId) false (fromFirstActive toks) := by
  -- the images do not change the tokens
  have hrow : ∀ (rows : List Encoded) (images : Option (List (List Img))),
      (submittedPrompts rows images imageTokenId videoTokenId).map (·.promptTokenIds) =
        rows.map fun row =>
          (rowPrompt row ([] : List Img) imageTokenId videoTokenId).promptTokenIds := by
    intro rows images
    unfold submittedPrompts
    refine List.ext_getElem (by simp) fun i h1 h2 => ?_
    simp [rowPrompt, buildPrompt]
  cases hp : (C.call features).prompts with
  | none =>
    have hnil := C.promptTokens_of_none hp
    refine ⟨fun _ toks htoks => ?_, fun _ rows h => by simp at h⟩
    rw [hnil toks htoks]
    trivial
  | some rows =>
    have hrows := C.call_prompts hp
    -- a row holds the tokens from the first active one
    have hmem : (∀ toks ∈ C.promptTokens features,
        Harmless (isMm imageTokenId videoTokenId) false (fromFirstActive toks)) ↔
        ∀ row ∈ rows, Harmless (isMm imageTokenId videoTokenId) false (fromFirstActive row.tokens) := by
      rw [← List.forall_mem_map (f := fromFirstActive), ← hrows, List.forall_mem_map]
    rw [hmem]
    constructor
    · intro h row hmemrow
      have h1 := h rows rfl
      rw [hrow, List.map_inj_left] at h1
      exact (submitted_eq_iff row ([] : List Img) imageTokenId videoTokenId).1 (h1 row hmemrow)
    · intro h rows' hrows'
      rw [Option.some.injEq] at hrows'
      subst hrows'
      rw [hrow, List.map_inj_left]
      exact fun row hmemrow => (submitted_eq_iff row _ _ _).2 (h row hmemrow)

/-- A collator whose fake image is the tokens 7, 8, 9, where 8 is the image token. -/
def fakeImageCollator : VLCollator Unit where
  hasProcessor := true
  hasImageToken := true
  fakeIds := [7, 8, 9]
  fakeImage := ()
  regularizeImages := id
  tokenizer := Tokenizer.longest 0 0

def textFeature : Feature Unit where
  seq := ⟨[5, 6, 4], [true, true, true], rfl⟩
  labels := [ignoreIndex, ignoreIndex, 4]
  prompt := some ⟨[5, 6], [true, true], rfl⟩
  images := .absent

/-- **The fake image reaches the engine**: the text prompt 5, 6 is submitted as
5, 6, 7, 8, 9. -/
theorem dummy_reaches_engine :
    ¬ ∀ (C : VLCollator Unit) (features : List (Feature Unit)) (imageTokenId videoTokenId : Option ℕ)
      (rows : List Encoded), (C.call features).prompts = some rows →
        (submittedPrompts rows (some (C.call features).vllmImages) imageTokenId videoTokenId).map
            (·.promptTokenIds) =
          rows.map fun row => dedupConsecutiveMmTokens imageTokenId videoTokenId row.activeTokens := by
  intro h
  have h1 := h fakeImageCollator [textFeature] (some 8) none _ rfl
  have hsub : [[5, 6, 7, 8, 9]] = [[5, 6]] := h1
  simp at hsub

end VLCollator

end Opd.Clight

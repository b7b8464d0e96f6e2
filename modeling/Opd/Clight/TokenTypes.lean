import Opd.Lib.Dict
import Opd.Lib.Tensor

/-!
# The multimodal token types of a rollout

`sequence_model_kwargs` gives the model the token types of the rollout sequences: 1 for an image token, 2 for a video token
and 0 for text. They are computed from the sequences, unless the batch has a tensor that is taken instead.

* `reuse_spec`: the types of a tensor that is taken.
* `computed_spec`: the types that are computed.
* `mm_token_type_ids_iff`: the types follow the sequences exactly when the tensor that is taken has them already.
-/

namespace Opd.Clight.TokenTypes

open Lib

/-! ## Tensors -/

/-- An integer tensor of two dimensions. The entries within its shape count. -/
structure Matrix where
  batch : ℕ
  width : ℕ
  entry : ℕ → ℕ → ℤ

/-- A value of a batch: an integer tensor of two dimensions or of another shape, a flag, or anything else. -/
inductive Value (β : Type)
  | matrix (t : Matrix)
  | tensor (shape : List ℕ)
  | flag (b : Bool)
  | other (v : β)

inductive Error
  | attributeError
  | indexError
  | runtimeError
  deriving DecidableEq

/-- `torch.zeros` -/
def zeros (batch width : ℕ) : Matrix := ⟨batch, width, fun _ _ => 0⟩

/-- `t[:, :n]` -/
def Matrix.slice (t : Matrix) (n : ℕ) : Matrix := { t with width := min t.width n }

/-- `torch.cat([a, b], dim=1)` -/
def cat (a b : Matrix) : Except Error Matrix :=
  if a.batch = b.batch then
    .ok ⟨a.batch, a.width + b.width, fun r c => if c < a.width then a.entry r c else b.entry r (c - a.width)⟩
  else .error .runtimeError

/-! ## The learner -/

/-- `model.config`, and the arguments that the model accepts. -/
structure Learner where
  imageTokenId : Option ℤ
  videoTokenId : Option ℤ
  acceptsKwarg : String → Bool

/-- A batch. `prompt_input_ids` is a tensor of two dimensions. -/
structure Batch (β : Type) where
  promptInputIds : Matrix
  fields : Dict String (Value β)

variable {β : Type}

/-- Whether a key is in the batch, with a tensor of the shape of `input_ids`. -/
def hasShapeOf (batch : Batch β) (key : String) (inputIds : Matrix) : Except Error Bool :=
  match batch.fields.get? key with
  | none => .ok false
  | some (.matrix t) => .ok (t.batch = inputIds.batch ∧ t.width = inputIds.width)
  | some (.tensor _) => .ok false
  | some _ => .error .attributeError

/-- The tensor that `_build_mm_token_type_ids` takes from the batch. -/
def chooseSource (batch : Batch β) (inputIds : Matrix) : Except Error (Option (Value β)) :=
  match batch.fields.get? "prompt_mm_token_type_ids" with
  | some source => .ok (some source)
  | none =>
    match batch.fields.get? "prompt_token_type_ids" with
    | some source => .ok (some source)
    | none => do
      if ← hasShapeOf batch "mm_token_type_ids" inputIds then .ok (batch.fields.get? "mm_token_type_ids")
      else if ← hasShapeOf batch "token_type_ids" inputIds then .ok (batch.fields.get? "token_type_ids")
      else .ok none

/-- A tensor cut to the width of the prompt, with zeros behind a short one. -/
def promptPart (t : Matrix) (promptWidth : ℕ) : Except Error Matrix :=
  let cut := t.slice promptWidth
  if cut.width < promptWidth then cat cut (zeros cut.batch (promptWidth - cut.width)) else .ok cut

/-- The tensor that is taken, cut or padded to the width of the prompt, and zeros for the completion. -/
def reuse (source : Value β) (inputIds : Matrix) (promptWidth : Option ℕ) : Except Error (Value β) :=
  match source with
  | .matrix t =>
    if t.width = inputIds.width then .ok (.matrix t)
    else do
      let promptWidth := promptWidth.getD (min t.width inputIds.width)
      let padded ← promptPart t promptWidth
      if promptWidth < inputIds.width then do
        let types ← cat padded (zeros inputIds.batch (inputIds.width - promptWidth))
        .ok (.matrix types)
      else .ok (.matrix (padded.slice inputIds.width))
  | .tensor shape =>
    match shape[1]? with
    | none => .error .indexError
    | some width =>
      if width = inputIds.width then .ok (.tensor shape)
      else
        let promptWidth := promptWidth.getD (min width inputIds.width)
        -- a tensor of two dimensions cannot be appended to this one
        if width < promptWidth ∨ promptWidth < inputIds.width then .error .runtimeError
        else .ok (.tensor (shape.set 1 (min promptWidth inputIds.width)))
  | _ => .error .attributeError

/-- `masked_fill(input_ids == token_id, type)` -/
def maskedFill (types inputIds : Matrix) (tokenId : Option ℤ) (type : ℤ) : Matrix :=
  match tokenId with
  | none => types
  | some tokenId => { types with entry := fun r c => if inputIds.entry r c = tokenId then type else types.entry r c }

def computed (L : Learner) (inputIds : Matrix) : Matrix :=
  maskedFill (maskedFill (zeros inputIds.batch inputIds.width) inputIds L.imageTokenId 1) inputIds L.videoTokenId 2

/-- `_build_mm_token_type_ids` -/
def buildMmTokenTypeIds (L : Learner) (batch : Batch β) (inputIds : Matrix) (promptWidth : Option ℕ) :
    Except Error (Value β) := do
  match ← chooseSource batch inputIds with
  | some source => reuse source inputIds promptWidth
  | none => .ok (.matrix (computed L inputIds))

/-- `AUX_BATCH_KEYS`, and the labels that are left out. -/
def auxKeys : List String := ["prompt_input_ids", "prompt_attention_mask", "reference_text", "vllm_images", "labels"]

/-- `SEQUENCE_EXCLUDED_KEYS` -/
def sequenceExcludedKeys : List String :=
  ["input_ids", "attention_mask", "labels", "position_ids", "rope_deltas", "token_type_ids", "mm_token_type_ids"]

def plainKwargs (batch : Batch β) (inputIds : Matrix) (attentionMask : Value β) : Dict String (Value β) :=
  ((((batch.fields.clear auxKeys).clear sequenceExcludedKeys).update "input_ids" fun _ => .matrix inputIds).update
    "attention_mask" fun _ => attentionMask).update "use_cache" fun _ => .flag false

def needsTypes (L : Learner) (kwargs : Dict String (Value β)) : Bool :=
  ((kwargs.get? "image_grid_thw").isSome || (kwargs.get? "video_grid_thw").isSome) && L.acceptsKwarg "mm_token_type_ids"

/-- `sequence_model_kwargs` -/
def sequenceModelKwargs (L : Learner) (batch : Batch β) (inputIds : Matrix) (attentionMask : Value β) :
    Except Error (Dict String (Value β)) :=
  let kwargs := plainKwargs batch inputIds attentionMask
  if needsTypes L kwargs then do
    let types ← buildMmTokenTypeIds L batch inputIds (some batch.promptInputIds.width)
    .ok (kwargs.update "mm_token_type_ids" fun _ => types)
  else .ok kwargs

/-! ## The types of the tokens -/

def Learner.tokenType (L : Learner) (token : ℤ) : ℤ :=
  if L.videoTokenId = some token then 2 else if L.imageTokenId = some token then 1 else 0

/-- **The types of a sequence**, for each of its tokens. -/
def HasTypes (L : Learner) (inputIds : Matrix) (value : Value β) : Prop :=
  ∃ t, value = .matrix t ∧ t.batch = inputIds.batch ∧ t.width = inputIds.width ∧
    ∀ r < inputIds.batch, ∀ c < inputIds.width, t.entry r c = L.tokenType (inputIds.entry r c)

/-- **A tensor that agrees** with the sequences: a tensor of their width at all of its positions, another one within the
width of the prompts, where nothing but text is behind it. -/
def Agrees (L : Learner) (inputIds : Matrix) (promptWidth : ℕ) (source : Value β) : Prop :=
  ∃ t, source = .matrix t ∧ t.batch = inputIds.batch ∧ ∀ r < inputIds.batch, ∀ c < inputIds.width,
    L.tokenType (inputIds.entry r c) =
      if t.width = inputIds.width ∨ (c < promptWidth ∧ c < t.width) then t.entry r c else 0

theorem computed_spec (L : Learner) (inputIds : Matrix) : HasTypes L inputIds (.matrix (computed L inputIds) : Value β) := by
  have hfill : ∀ (types : Matrix) (tokenId : Option ℤ) (type : ℤ) (r c : ℕ),
      (maskedFill types inputIds tokenId type).entry r c =
        if tokenId = some (inputIds.entry r c) then type else types.entry r c := by
    intro types tokenId type r c
    cases tokenId with
    | none => rfl
    | some tokenId =>
      unfold maskedFill
      simp only [Option.some.injEq, eq_comm]
  have hshape : ∀ (types : Matrix) (tokenId : Option ℤ) (type : ℤ),
      (maskedFill types inputIds tokenId type).batch = types.batch ∧
        (maskedFill types inputIds tokenId type).width = types.width := by
    intro types tokenId type
    cases tokenId <;> exact ⟨rfl, rfl⟩
  refine ⟨_, rfl, ?_, ?_, fun r _ c _ => ?_⟩
  · rw [computed, (hshape _ _ _).1, (hshape _ _ _).1, zeros]
  · rw [computed, (hshape _ _ _).2, (hshape _ _ _).2, zeros]
  · rw [computed, hfill, hfill, zeros, Learner.tokenType]

theorem cat_eq {a b : Matrix} (h : a.batch = b.batch) : cat a b =
    .ok ⟨a.batch, a.width + b.width, fun r c => if c < a.width then a.entry r c else b.entry r (c - a.width)⟩ := if_pos h

theorem promptPart_spec (t : Matrix) (promptWidth : ℕ) : ∃ padded, promptPart t promptWidth = .ok padded ∧
    padded.batch = t.batch ∧ padded.width = promptWidth ∧
      ∀ r, ∀ c < promptWidth, padded.entry r c = if c < t.width then t.entry r c else 0 := by
  have hcut : (t.slice promptWidth).width = min t.width promptWidth := rfl
  unfold promptPart
  dsimp only
  by_cases hshort : (t.slice promptWidth).width < promptWidth
  · rw [if_pos hshort]
    refine ⟨_, cat_eq rfl, rfl, ?_, fun r c hc => ?_⟩
    · show (t.slice promptWidth).width + (promptWidth - (t.slice promptWidth).width) = promptWidth
      omega
    · show (if c < (t.slice promptWidth).width then t.entry r c else 0) = _
      by_cases hc' : c < t.width
      · rw [if_pos hc', if_pos (by omega)]
      · rw [if_neg hc', if_neg (by omega)]
  · rw [if_neg hshort]
    refine ⟨_, rfl, rfl, by omega, fun r c hc => ?_⟩
    rw [if_pos (by omega)]
    rfl

/-- **The types of a tensor that is taken.** -/
theorem reuse_spec (L : Learner) (source : Value β) (inputIds : Matrix) (promptWidth : ℕ) :
    (∃ types, reuse source inputIds (some promptWidth) = .ok types ∧ HasTypes L inputIds types) ↔
      Agrees L inputIds promptWidth source := by
  cases source with
  | matrix t =>
    by_cases hwidth : t.width = inputIds.width
    · -- the tensor is passed on
      have hreuse : reuse (.matrix t : Value β) inputIds (some promptWidth) = .ok (.matrix t) := if_pos hwidth
      constructor
      · rintro ⟨types, htypes, t', rfl, hbatch, _, hentry⟩
        obtain rfl : t = t' := by
          rw [hreuse] at htypes
          injection Except.ok.inj htypes
        refine ⟨t, rfl, hbatch, fun r hr c hc => ?_⟩
        rw [if_pos (.inl hwidth), hentry r hr c hc]
      · rintro ⟨t', heq, hbatch, hentry⟩
        obtain rfl : t = t' := by injection heq
        refine ⟨_, hreuse, t, rfl, hbatch, hwidth, fun r hr c hc => ?_⟩
        rw [hentry r hr c hc, if_pos (.inl hwidth)]
    · obtain ⟨padded, hpadded, hbatch, hpromptWidth, hentry⟩ := promptPart_spec t promptWidth
      have hreuse : reuse (.matrix t : Value β) inputIds (some promptWidth) =
          if promptWidth < inputIds.width then do
            let types ← cat padded (zeros inputIds.batch (inputIds.width - promptWidth))
            .ok (.matrix types)
          else .ok (.matrix (padded.slice inputIds.width)) := by
        unfold reuse
        simp only [if_neg hwidth, Option.getD_some, hpadded, bind, Except.bind]
      by_cases hrows : t.batch = inputIds.batch
      · have hout : ∃ types : Matrix, reuse (.matrix t : Value β) inputIds (some promptWidth) = .ok (.matrix types) ∧
            types.batch = inputIds.batch ∧ types.width = inputIds.width ∧ ∀ r, ∀ c < inputIds.width,
              types.entry r c = if c < promptWidth ∧ c < t.width then t.entry r c else 0 := by
          by_cases hlong : promptWidth < inputIds.width
          · rw [hreuse, if_pos hlong, cat_eq (b := zeros inputIds.batch (inputIds.width - promptWidth)) (hbatch.trans hrows)]
            refine ⟨_, rfl, hbatch.trans hrows, ?_, fun r c _ => ?_⟩
            · show padded.width + (inputIds.width - promptWidth) = inputIds.width
              omega
            · show (if c < padded.width then padded.entry r c else 0) = _
              by_cases hc : c < promptWidth
              · rw [if_pos (by omega), hentry r c hc]
                simp only [hc, true_and]
              · rw [if_neg (by omega), if_neg fun h => hc h.1]
          · rw [hreuse, if_neg hlong]
            refine ⟨_, rfl, hbatch.trans hrows, ?_, fun r c hc => ?_⟩
            · show min padded.width inputIds.width = inputIds.width
              omega
            · show padded.entry r c = _
              have hprompt : c < promptWidth := by omega
              rw [hentry r c hprompt]
              simp only [hprompt, true_and]
        obtain ⟨types, htypes, hshape⟩ := hout
        have hcovers : ∀ c, (t.width = inputIds.width ∨ (c < promptWidth ∧ c < t.width)) ↔
            (c < promptWidth ∧ c < t.width) := fun c => or_iff_right hwidth
        constructor
        · rintro ⟨types', htypes', t', rfl, _, _, hentry'⟩
          obtain rfl : types = t' := by
            rw [htypes] at htypes'
            injection Except.ok.inj htypes'
          refine ⟨t, rfl, hrows, fun r hr c hc => ?_⟩
          rw [← hentry' r hr c hc, hshape.2.2 r c hc]
          simp only [hcovers]
        · rintro ⟨t', heq, _, hentry'⟩
          obtain rfl : t = t' := by injection heq
          refine ⟨_, htypes, types, rfl, hshape.1, hshape.2.1, fun r hr c hc => ?_⟩
          rw [hentry' r hr c hc, hshape.2.2 r c hc]
          simp only [hcovers]
      · -- another number of rows
        refine iff_of_false ?_ ?_
        · rintro ⟨types, htypes, t', rfl, hbatch', _⟩
          rw [hreuse] at htypes
          split at htypes
          · have herror : cat padded (zeros inputIds.batch (inputIds.width - promptWidth)) = .error .runtimeError :=
              if_neg fun h => hrows (hbatch.symm.trans h)
            rw [herror] at htypes
            cases htypes
          · have hslice : padded.slice inputIds.width = t' := by injection Except.ok.inj htypes
            rw [← hslice] at hbatch'
            exact hrows (hbatch.symm.trans hbatch')
        · rintro ⟨t', heq, hbatch', _⟩
          obtain rfl : t = t' := by injection heq
          exact hrows hbatch'
  | tensor shape =>
    refine iff_of_false ?_ fun ⟨t, heq, _⟩ => (nomatch heq)
    rintro ⟨types, htypes, t, rfl, _⟩
    unfold reuse at htypes
    dsimp only at htypes
    split at htypes
    · cases htypes
    · split at htypes
      · cases htypes
      · split at htypes
        · cases htypes
        · cases htypes
  | flag b =>
    refine iff_of_false ?_ fun ⟨t, heq, _⟩ => (nomatch heq)
    rintro ⟨types, htypes, _⟩
    cases htypes
  | other v =>
    refine iff_of_false ?_ fun ⟨t, heq, _⟩ => (nomatch heq)
    rintro ⟨types, htypes, _⟩
    cases htypes

/-! ## The arguments of the model -/

theorem plainKwargs_get? (batch : Batch β) (inputIds : Matrix) (attentionMask : Value β) :
    (plainKwargs batch inputIds attentionMask).get? "mm_token_type_ids" = none := by
  unfold plainKwargs
  rw [Dict.get?_update_of_ne _ _ (by decide), Dict.get?_update_of_ne _ _ (by decide),
    Dict.get?_update_of_ne _ _ (by decide), Dict.get?_clear, if_pos (by decide)]

/-- **The token types follow the sequences** exactly when the batch has no tensor that is taken instead of computing them,
or one that agrees with the sequences. -/
theorem mm_token_type_ids_iff (L : Learner) (batch : Batch β) (inputIds : Matrix) (attentionMask : Value β) :
    (∃ kwargs, sequenceModelKwargs L batch inputIds attentionMask = .ok kwargs ∧
        ∀ types, kwargs.get? "mm_token_type_ids" = some types → HasTypes L inputIds types) ↔
      (needsTypes L (plainKwargs batch inputIds attentionMask) = true → ∃ source, chooseSource batch inputIds = .ok source ∧
        ∀ tensor ∈ source, Agrees L inputIds batch.promptInputIds.width tensor) := by
  by_cases hneeds : needsTypes L (plainKwargs batch inputIds attentionMask) = true
  · simp only [hneeds, true_implies]
    unfold sequenceModelKwargs
    dsimp only
    rw [if_pos hneeds]
    constructor
    · rintro ⟨kwargs, hkwargs, htypes⟩
      obtain ⟨types, hbuild, hkwargs⟩ := bind_eq_ok.1 hkwargs
      obtain rfl := Except.ok.inj hkwargs
      have hhas := htypes types (Dict.get?_update_self _ _ _)
      obtain ⟨source, hsource, hbuild⟩ := bind_eq_ok.1 hbuild
      refine ⟨source, hsource, fun tensor htensor => ?_⟩
      obtain rfl := Option.mem_def.1 htensor
      exact (reuse_spec L tensor inputIds _).1 ⟨types, hbuild, hhas⟩
    · rintro ⟨source, hsource, hagrees⟩
      have hbuild : ∃ types, buildMmTokenTypeIds L batch inputIds (some batch.promptInputIds.width) = .ok types ∧
          HasTypes L inputIds types := by
        unfold buildMmTokenTypeIds
        simp only [hsource, bind, Except.bind]
        cases source with
        | none => exact ⟨_, rfl, computed_spec L inputIds⟩
        | some tensor => exact (reuse_spec L tensor inputIds _).2 (hagrees tensor rfl)
      obtain ⟨types, hbuild, hhas⟩ := hbuild
      rw [hbuild]
      refine ⟨_, rfl, fun types' htypes' => ?_⟩
      rw [Dict.get?_update_self] at htypes'
      exact Option.some.inj htypes' ▸ hhas
  · refine iff_of_true ?_ fun h => absurd h hneeds
    unfold sequenceModelKwargs
    dsimp only
    rw [if_neg hneeds]
    refine ⟨_, rfl, fun types htypes => ?_⟩
    rw [plainKwargs_get?] at htypes
    cases htypes

def imageLearner : Learner := ⟨some 7, none, fun _ => true⟩

/-- A batch with an image and with token types for two tokens of text. -/
def textTypes : Batch Unit where
  promptInputIds := zeros 1 1
  fields := (Dict.empty.update "image_grid_thw" fun _ => .tensor [1, 3]).update "mm_token_type_ids" fun _ =>
    .matrix (zeros 1 2)

/-- An image token, in a sequence that happens to be as wide as the SFT batch. -/
def imageSequence : Matrix := ⟨1, 2, fun _ c => if c = 0 then 7 else 5⟩

theorem not_hasTypes_textTypes : ∃ kwargs types,
    sequenceModelKwargs imageLearner textTypes imageSequence (.other ()) = .ok kwargs ∧
      kwargs.get? "mm_token_type_ids" = some types ∧ ¬ HasTypes imageLearner imageSequence types := by
  refine ⟨_, .matrix (zeros 1 2), rfl, rfl, ?_⟩
  rintro ⟨t, heq, _, _, hentry⟩
  obtain rfl : zeros 1 2 = t := by injection heq
  have htype := hentry 0 (by decide) 0 (by decide)
  exact absurd htype (by decide)

end Opd.Clight.TokenTypes

import Opd.Lib.Squeeze

/-!
# The student rollout engine: what `VLLMStudentRollout.generate` submits and returns

A batch row holds a left-padded prompt and its attention mask. The rollout cuts the
row at the first active position, collapses runs of image and video tokens
(`dedupConsecutiveMmTokens`), submits the result, and pads the completions on the
right.

* `dedup_eq_squeeze`: the multimodal dedup is `squeeze` of the image/video tokens.
* `submitted_eq_iff`: a row is submitted without its masked tokens exactly when
  the ones after the first active position are `Harmless`.
-/

namespace Opd.Clight

open Lib

/-- A token is one of the image/video placeholder ids that are configured. -/
def isMm (imageTokenId videoTokenId : Option ℕ) (t : ℕ) : Bool :=
  imageTokenId == some t || videoTokenId == some t

/-- `VLLMStudentRollout._dedup_consecutive_mm_tokens`. -/
def dedupConsecutiveMmTokens (imageTokenId videoTokenId : Option ℕ) (tokenIds : List ℕ) : List ℕ :=
  if imageTokenId.isNone && videoTokenId.isNone then tokenIds
  else squeeze (isMm imageTokenId videoTokenId) false tokenIds

/-- `_first_active_index`: the length of the mask if nothing is active. -/
def firstActiveIndex (attentionMask : List Bool) : ℕ := attentionMask.findIdx id

/-- A tokenized sequence with its attention mask. -/
structure Encoded where
  inputIds : List ℕ
  attentionMask : List Bool
  length_eq : attentionMask.length = inputIds.length

namespace Encoded

def tokens (e : Encoded) : List (ℕ × Bool) := e.inputIds.zip e.attentionMask

def activeTokens (e : Encoded) : List ℕ := active e.tokens

end Encoded

/-- `_build_prompt`: the token ids and the images given to the engine. -/
structure RolloutPrompt (Img : Type*) where
  promptTokenIds : List ℕ
  multiModalData : Option (List Img)

/-- `_build_prompt`. -/
def buildPrompt {Img : Type*} (tokenIds : List ℕ) (images : List Img)
    (imageTokenId videoTokenId : Option ℕ) : RolloutPrompt Img where
  promptTokenIds := dedupConsecutiveMmTokens imageTokenId videoTokenId tokenIds
  multiModalData := if images.isEmpty then none else some images

/-- The prompt `generate` builds from one row of the batch. -/
def rowPrompt {Img : Type*} (row : Encoded) (images : List Img) (imageTokenId videoTokenId : Option ℕ) :
    RolloutPrompt Img :=
  buildPrompt (row.inputIds.drop (firstActiveIndex row.attentionMask)) images imageTokenId videoTokenId

/-- The prompts of a batch; without `vllm_images` every row has none. -/
def submittedPrompts {Img : Type*} (rows : List Encoded) (vllmImages : Option (List (List Img)))
    (imageTokenId videoTokenId : Option ℕ) : List (RolloutPrompt Img) :=
  rows.mapIdx fun i row =>
    rowPrompt row ((vllmImages.bind (·[i]?)).getD []) imageTokenId videoTokenId

/-- The completion tensor: every completion cut to the common length and padded on
the right. -/
def completionTensor (padTokenId maxCompletionLen : ℕ) (completions : List (List ℕ)) : List (List ℕ) :=
  completions.map fun c =>
    c.take maxCompletionLen ++ List.replicate (maxCompletionLen - c.length) padTokenId

/-- The sequences `generate` returns for the completions of the engine. -/
def assembleSequences (promptIds : List (List ℕ)) (completions : List (List ℕ))
    (rolloutMaxNewTokens padTokenId : ℕ) : List (List ℕ) :=
  let maxCompletionLen := min ((completions.map List.length).foldr max 0) rolloutMaxNewTokens
  if maxCompletionLen = 0 then promptIds
  else List.zipWith (· ++ ·) promptIds (completionTensor padTokenId maxCompletionLen completions)

/-! ## The dedup as `squeeze` -/

theorem squeeze_none {α : Type*} {p : α → Bool} (hp : ∀ x, p x = false) (b : Bool) (l : List α) :
    squeeze p b l = l := by
  induction l generalizing b with
  | nil => rfl
  | cons x l ih => rw [squeeze_other _ (hp x), ih]

theorem dedup_eq_squeeze (imageTokenId videoTokenId : Option ℕ) (l : List ℕ) :
    dedupConsecutiveMmTokens imageTokenId videoTokenId l =
      squeeze (isMm imageTokenId videoTokenId) false l := by
  unfold dedupConsecutiveMmTokens
  split
  · rename_i h
    simp only [Bool.and_eq_true, Option.isNone_iff_eq_none] at h
    obtain ⟨rfl, rfl⟩ := h
    exact (squeeze_none (by simp [isMm]) _ _).symm
  · rfl

/-! ## Masked tokens of a row -/

theorem drop_findIdx_eq (ids : List ℕ) (mask : List Bool) (h : mask.length = ids.length) :
    ids.drop (mask.findIdx id) = ((ids.zip mask).dropWhile fun t => !t.2).map Prod.fst := by
  induction ids generalizing mask with
  | nil => simp
  | cons x ids ih =>
    cases mask with
    | nil => simp at h
    | cons b mask =>
      cases b with
      | true =>
        simp only [List.findIdx_cons, id, cond_true, List.drop_zero, List.zip_cons_cons,
          List.dropWhile_cons, Bool.not_true, Bool.false_eq_true, if_false, List.map_cons]
        rw [List.map_fst_zip (Nat.le_of_eq (by simpa using h.symm))]
      | false =>
        simp only [List.findIdx_cons, id, cond_false, List.drop_succ_cons, List.zip_cons_cons,
          List.dropWhile_cons, Bool.not_false, if_true]
        exact ih mask (by simpa using h)

theorem active_dropWhile {α : Type*} (l : List (α × Bool)) :
    active (l.dropWhile fun t => !t.2) = active l := by
  induction l with
  | nil => rfl
  | cons e l ih =>
    obtain ⟨x, b⟩ := e
    cases b with
    | true => rfl
    | false => rw [active_cons_false, ← ih]; rfl

/-- The part of a row that is submitted: from its first active token on. -/
def fromFirstActive (l : List (ℕ × Bool)) : List (ℕ × Bool) := l.dropWhile fun t => !t.2

/-- **A row reaches the engine without its masked tokens** exactly when the masked
tokens after its first active one do not survive the dedup. -/
theorem submitted_eq_iff {Img : Type*} (row : Encoded) (images : List Img)
    (imageTokenId videoTokenId : Option ℕ) :
    (rowPrompt row images imageTokenId videoTokenId).promptTokenIds =
        dedupConsecutiveMmTokens imageTokenId videoTokenId row.activeTokens ↔
      Harmless (isMm imageTokenId videoTokenId) false (fromFirstActive row.tokens) := by
  have hdrop : row.inputIds.drop (firstActiveIndex row.attentionMask) =
      (fromFirstActive row.tokens).map Prod.fst :=
    drop_findIdx_eq row.inputIds row.attentionMask row.length_eq
  have hact : row.activeTokens = active (fromFirstActive row.tokens) := (active_dropWhile _).symm
  simp only [rowPrompt, buildPrompt, dedup_eq_squeeze, hdrop, hact]
  exact squeeze_active_iff false _

end Opd.Clight

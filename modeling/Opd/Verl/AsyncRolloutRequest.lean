import Opd.Lib.Tensor

/-!
# The requests of the async rollout

A request grows by the tokens of messages. The tokens of the generation prompt are added before the engine is called and
stripped before a tool response and at the end, by comparing the last tokens with them.

* `perform_spec`: what a call does, if it strips no tokens that the assistant has been given and none of the prompt.
* `law_of_callsOk`: the tokens, masks and positions of every run all of whose calls do so.
-/

namespace Opd.Verl.AsyncRolloutRequest

open Lib

inductive RequestError
  | valueError (message : String)
  | runtimeError (message : String)
  | assertionError (inputIds attentionMask positionIds lossMask : ℕ)
  | unsupportedFinishReason

inductive Content
  | text (text : String)
  | parts

structure Message (C : Type) where
  role : String
  content : Content
  toolCalls : Option (List C)

structure ToolResponse where
  text : Option String

def ToolResponse.isEmpty (response : ToolResponse) : Bool := (response.text.getD "").isEmpty

/-- A tokenizer with its chat template, for the tools of a request. -/
structure ProcessingClass (C : Type) where
  inputIds : List (Message C) → (addGenerationPrompt : Bool) → List ℤ
  attentionMask : List (Message C) → (addGenerationPrompt : Bool) → List ℕ

def ProcessingClass.Unpadded {C : Type} (p : ProcessingClass C) : Prop :=
  ∀ messages addGenerationPrompt, p.attentionMask messages addGenerationPrompt =
    List.replicate (p.inputIds messages addGenerationPrompt).length 1

/-- `input_ids`, `attention_mask`, `position_ids` and `loss_mask`, also those of the prompt and of the response. -/
structure Tokens where
  ids : List ℤ
  attentionMask : List ℕ
  positionIds : List ℕ
  lossMask : List ℕ

/-- `[..., : n]` -/
def Tokens.take (t : Tokens) (n : ℕ) : Tokens :=
  ⟨t.ids.take n, t.attentionMask.take n, t.positionIds.take n, t.lossMask.take n⟩

inductive RequestState
  | pending
  | completed

inductive FinishReason
  | length
  | stop
  | toolCall
  deriving DecidableEq

structure Request (C R : Type) where
  state : RequestState
  messages : List (Message C)
  input : Tokens
  prompt : Tokens
  response : Option Tokens
  rewardScores : R
  maxResponseLen : ℕ
  maxModelLen : ℕ
  useInferenceChatTemplate : Bool
  generationPromptIds : List ℤ
  baseConvWoGenPromptEndPos : ℕ
  baseConvWithGenPromptEndPos : ℕ

variable {C R : Type} (p : ProcessingClass C)

/-- `BASE_CHAT_HISTORY` -/
def baseChatHistory : List (Message C) :=
  [⟨"system", .text "You are a helpful assistant.", none⟩, ⟨"user", .text "I am a user.", none⟩]

def toolMessage (content : ToolResponse) : Message C :=
  ⟨"tool", if content.isEmpty then .parts else .text (content.text.getD ""), none⟩

/-- `compute_position_id_with_mask` -/
def computePositionIdWithMask (mask : List ℕ) : List ℕ := (mask.scanl (· + ·) 0).tail.map (· - 1)

/-- `initialize_request`, for a request without ids. -/
def initializeRequest (messages : List (Message C)) (maxPromptLen maxResponseLen maxModelLen : ℕ)
    (useInferenceChatTemplate : Bool) (rewardScores : R) : Except RequestError (Request C R) :=
  if messages.isEmpty then .error (.valueError "messages is required for AsyncRolloutRequest initialization")
  else if maxPromptLen = 0 then
    .error (.valueError "max_prompt_len is required for AsyncRolloutRequest initialization")
  else
    let inputIds := p.inputIds messages true
    let attentionMask := p.attentionMask messages true
    let prompt : Tokens :=
      ⟨inputIds, attentionMask, computePositionIdWithMask attentionMask, List.replicate inputIds.length 0⟩
    .ok {
      state := .pending
      messages := messages
      input := prompt
      prompt := prompt
      response := none
      rewardScores := rewardScores
      maxResponseLen := maxResponseLen
      maxModelLen := maxModelLen
      useInferenceChatTemplate := useInferenceChatTemplate
      generationPromptIds := inputIds.drop (p.inputIds messages false).length
      baseConvWoGenPromptEndPos := (p.inputIds baseChatHistory false).length
      baseConvWithGenPromptEndPos := (p.inputIds baseChatHistory true).length }

/-- An operation on tensors of shapes `(1, m)` and `(1, n)`. -/
def broadcast {α β γ : Type} (f : α → β → γ) : List α → List β → Except RequestError (List γ)
  | [a], l' => .ok (l'.map (f a))
  | l, [b] => .ok (l.map (f · b))
  | l, l' =>
    if l.length = l'.length then .ok (List.zipWith f l l')
    else
      let size := l'.length
      .error (.runtimeError (s!"The size of tensor a ({l.length}) must match the size of tensor b ({size}) " ++
        "at non-singleton dimension 1"))

/-- `[..., -n :]`, of which `-0` is the start. -/
def lastOf {α : Type} (n : ℕ) (l : List α) : List α := if n = 0 then l else l.drop (l.length - n)

/-- `[..., : -n]` -/
def butLast {α : Type} (n : ℕ) (l : List α) : List α := if n = 0 then [] else l.take (l.length - n)

namespace Request

variable (r : Request C R)

/-- `_update_input_ids` -/
def updateInputIds (newInputIds : List ℤ) (attentionMask lossMask : Bool) : Except RequestError (Request C R) := do
  let inputIds := r.input.ids ++ newInputIds
  let newAttentionMask := List.replicate newInputIds.length attentionMask.toNat
  let lossMasks := r.input.lossMask ++ List.replicate newInputIds.length lossMask.toNat
  let lastPos := lastOf 1 r.input.positionIds
  let newPositionIds ← broadcast (· + ·) (computePositionIdWithMask newAttentionMask) (lastPos.map (· + 1))
  let attentionMasks := r.input.attentionMask ++ newAttentionMask
  let positionIds := r.input.positionIds ++ newPositionIds
  if inputIds.length = attentionMasks.length ∧ attentionMasks.length = positionIds.length ∧
      positionIds.length = lossMasks.length then
    .ok { r with input := ⟨inputIds, attentionMasks, positionIds, lossMasks⟩ }
  else .error (.assertionError inputIds.length attentionMasks.length positionIds.length lossMasks.length)

/-- `input_ids[..., -n :].eq(generation_prompt_ids).all()` -/
def endsWithGenerationPrompt : Except RequestError Bool :=
  (broadcast (fun a b => a == b) (lastOf r.generationPromptIds.length r.input.ids) r.generationPromptIds).map
    fun equal => equal.all id

/-- `get_generation_prompt_ids` -/
def getGenerationPromptIds : Except RequestError (Request C R × List ℤ) := do
  let present ← r.endsWithGenerationPrompt
  let r ← if present then .ok r else r.updateInputIds r.generationPromptIds true false
  .ok (r, if r.useInferenceChatTemplate then p.inputIds r.messages true else r.input.ids)

/-- `add_user_message` -/
def addUserMessage (content : String) : Except RequestError (Request C R) :=
  let message : Message C := ⟨"user", .text content, none⟩
  let contentIds := (p.inputIds (baseChatHistory ++ [message]) false).drop r.baseConvWoGenPromptEndPos
  { r with messages := r.messages ++ [message] }.updateInputIds contentIds true false

/-- The tokens of an assistant message: those of the engine, or those of the template. -/
def assistantIds (content : String) (contentIds : Option (List ℤ)) (toolCalls : Option (List C)) : List ℤ :=
  let message : Message C := ⟨"assistant", .text content, toolCalls⟩
  contentIds.getD ((p.inputIds (baseChatHistory ++ [message]) false).drop r.baseConvWithGenPromptEndPos)

/-- `add_assistant_message` -/
def addAssistantMessage (content : String) (contentIds : Option (List ℤ)) (toolCalls : Option (List C)) :
    Except RequestError (Request C R) :=
  let message : Message C := ⟨"assistant", .text content, toolCalls⟩
  { r with messages := r.messages ++ [message] }.updateInputIds (r.assistantIds p content contentIds toolCalls) true true

/-- `_remove_generation_prompt_ids_if_present` -/
def removeGenerationPromptIdsIfPresent : Except RequestError (Request C R) := do
  let present ← r.endsWithGenerationPrompt
  let n := r.generationPromptIds.length
  .ok (if present then
    { r with input := ⟨butLast n r.input.ids, butLast n r.input.attentionMask, butLast n r.input.positionIds,
        butLast n r.input.lossMask⟩ }
    else r)

/-- `add_tool_response_messages` -/
def addToolResponseMessages (contents : List ToolResponse) : Except RequestError (Request C R) :=
  if contents.all ToolResponse.isEmpty then .ok r
  else do
    let messages := contents.map toolMessage
    let contentIds := (p.inputIds (baseChatHistory ++ messages) false).drop r.baseConvWoGenPromptEndPos
    let r ← { r with messages := r.messages ++ messages }.removeGenerationPromptIdsIfPresent
    r.updateInputIds contentIds true false

/-- `truncate_output_ids` -/
def truncateOutputIds : Request C R :=
  let input := r.input.take r.maxModelLen
  let response : Tokens := ⟨input.ids.drop r.prompt.ids.length,
    input.attentionMask.drop r.prompt.attentionMask.length, input.positionIds.drop r.prompt.positionIds.length,
    input.lossMask.drop r.prompt.lossMask.length⟩
  { r with input := input, response := some (response.take r.maxResponseLen) }

/-- `finalize`. The sanity check only logs. -/
def finalize (rewardScores : R) (finishReason : FinishReason) : Except RequestError (Request C R) := do
  let r ← { r with state := .completed, rewardScores := rewardScores }.removeGenerationPromptIdsIfPresent
  if finishReason = .toolCall then .error .unsupportedFinishReason
  else
    let r := r.truncateOutputIds
    if r.input.ids.length = r.input.attentionMask.length ∧ r.input.attentionMask.length = r.input.positionIds.length ∧
        r.input.positionIds.length = r.input.lossMask.length then .ok r
    else .error (.assertionError r.input.ids.length r.input.attentionMask.length r.input.positionIds.length
      r.input.lossMask.length)

end Request

inductive Call (C : Type)
  | getGenerationPromptIds
  | addAssistantMessage (content : String) (contentIds : Option (List ℤ)) (toolCalls : Option (List C))
  | addUserMessage (content : String)
  | addToolResponseMessages (contents : List ToolResponse)

def Request.perform (r : Request C R) : Call C → Except RequestError (Request C R)
  | .getGenerationPromptIds => (r.getGenerationPromptIds p).map Prod.fst
  | .addAssistantMessage content contentIds toolCalls => r.addAssistantMessage p content contentIds toolCalls
  | .addUserMessage content => r.addUserMessage p content
  | .addToolResponseMessages contents => r.addToolResponseMessages p contents

def Request.performAll (r : Request C R) (calls : List (Call C)) : Except RequestError (Request C R) :=
  calls.foldlM (Request.perform p) r

/-! ## What the tokens are -/

def Call.given (r : Request C R) : Call C → List ℤ
  | .addAssistantMessage content contentIds toolCalls => r.assistantIds p content contentIds toolCalls
  | _ => []

/-- **The tokens with their masks and positions**: the loss mask is 1 on the tokens that the assistant has been given,
and these are all there. -/
structure Aligned (given : List ℤ) (t : Tokens) : Prop where
  attention : t.attentionMask.length = t.ids.length
  loss : t.lossMask.length = t.ids.length
  positions : t.positionIds = List.range t.ids.length
  zeroOne : ∀ b ∈ t.lossMask, b = 0 ∨ b = 1
  given : ((t.ids.zip t.lossMask).filter fun token => token.2 = 1).map Prod.fst = given

/-- The response has the tokens behind the prompt, up to the truncation. -/
structure Finalized (given : List ℤ) (r₀ r : Request C R) : Prop where
  response : ∃ whole response : Tokens, Aligned given whole ∧
    (r₀.prompt.ids <+: whole.ids ∨ whole.ids <+: r₀.prompt.ids) ∧
    r.input = whole.take r₀.maxModelLen ∧ r.response = some response ∧
    response.ids = (r.input.ids.drop r₀.prompt.ids.length).take r₀.maxResponseLen ∧
    response.attentionMask = (r.input.attentionMask.drop r₀.prompt.ids.length).take r₀.maxResponseLen ∧
    response.positionIds = (r.input.positionIds.drop r₀.prompt.ids.length).take r₀.maxResponseLen ∧
    response.lossMask = (r.input.lossMask.drop r₀.prompt.ids.length).take r₀.maxResponseLen ∧
    response.ids.length ≤ r₀.maxResponseLen ∧ response.attentionMask.length = response.ids.length ∧
    response.positionIds.length = response.ids.length ∧ response.lossMask.length = response.ids.length

/-- **The invariant of a run** from a request: it holds after every call, and at the end. -/
structure Law (r₀ : Request C R) (calls : List (Call C)) (rewardScores : R) (finishReason : FinishReason) : Prop where
  aligned : ∀ k ≤ calls.length, ∃ r, r₀.performAll p (calls.take k) = .ok r ∧
    Aligned ((calls.take k).flatMap (Call.given p r₀)) r.input
  finalized : ∃ r r', r₀.performAll p calls = .ok r ∧ r.finalize rewardScores finishReason = .ok r' ∧
    Finalized (calls.flatMap (Call.given p r₀)) r₀ r'

/-- The last tokens are those of the generation prompt, and can be stripped: the assistant has not been given them. -/
def Request.Strippable (r : Request C R) : Prop :=
  r.generationPromptIds <:+ r.input.ids → ∀ b ∈ lastOf r.generationPromptIds.length r.input.lossMask, b = 0

/-- A tool response strips no token of the assistant, and none of the prompt. -/
def Request.CallOk (r : Request C R) : Call C → Prop
  | .addToolResponseMessages contents => contents.all ToolResponse.isEmpty = false →
      r.Strippable ∧ (r.generationPromptIds <:+ r.input.ids →
        r.prompt.ids.length + r.generationPromptIds.length ≤ r.input.ids.length)
  | _ => True

/-- **The condition on a run**: there is a generation prompt, and what is stripped is not of the assistant or, before a
tool response, of the prompt. -/
structure CallsOk (r₀ : Request C R) (calls : List (Call C)) : Prop where
  nonempty : r₀.generationPromptIds ≠ []
  call : ∀ k call r, calls[k]? = some call → r₀.performAll p (calls.take k) = .ok r → r.CallOk call
  final : ∀ r, r₀.performAll p calls = .ok r → r.Strippable

/-! ## One call -/

theorem scanl_ones (start n : ℕ) : (List.replicate n 1).scanl (· + ·) start = List.range' start (n + 1) := by
  induction n generalizing start with
  | zero => rfl
  | succ n ih => rw [List.replicate_succ, List.scanl_cons, ih, ← List.range'_succ]

theorem positions_ones (n : ℕ) : computePositionIdWithMask (List.replicate n 1) = List.range n := by
  rw [computePositionIdWithMask, scanl_ones, List.range'_succ, List.tail_cons, List.map_sub_range' (by omega),
    List.range_eq_range']

theorem broadcast_singleton {α β γ : Type} (f : α → β → γ) (l : List α) (b : β) :
    broadcast f l [b] = .ok (l.map (f · b)) := by
  rcases l with _ | ⟨a, _ | ⟨a', l⟩⟩ <;> rfl

theorem broadcast_same {α β γ : Type} (f : α → β → γ) {l : List α} {l' : List β} (h : l.length = l'.length) :
    broadcast f l l' = .ok (List.zipWith f l l') := by
  unfold broadcast
  split
  · obtain ⟨b, rfl⟩ := List.length_eq_one_iff.1 h.symm
    rfl
  · obtain ⟨a, rfl⟩ := List.length_eq_one_iff.1 h
    rfl
  · exact if_pos h

theorem all_zipWith_beq {l l' : List ℤ} (h : l.length = l'.length) :
    (List.zipWith (fun a b => a == b) l l').all id = decide (l = l') := by
  rw [Bool.eq_iff_iff, decide_eq_true_eq, List.all_eq_true]
  induction l generalizing l' with
  | nil =>
    rw [List.eq_nil_of_length_eq_zero h.symm]
    exact iff_of_true (fun _ hb => absurd hb List.not_mem_nil) rfl
  | cons a l ih =>
    obtain ⟨a', l', rfl⟩ := List.exists_of_length_succ l' h.symm
    rw [List.zipWith_cons_cons, List.forall_mem_cons, ih (Nat.succ.inj h), List.cons.injEq, id, beq_iff_eq]

variable {p} {r r₀ : Request C R} {given : List ℤ}

/-- **The last tokens are compared** with the generation prompt. -/
theorem endsWithGenerationPrompt_eq (hne : r.generationPromptIds ≠ [])
    (hle : r.generationPromptIds.length ≤ r.input.ids.length) :
    r.endsWithGenerationPrompt = .ok (decide (r.generationPromptIds <:+ r.input.ids)) := by
  have hlast : lastOf r.generationPromptIds.length r.input.ids =
      r.input.ids.drop (r.input.ids.length - r.generationPromptIds.length) :=
    if_neg fun hzero => hne (List.eq_nil_of_length_eq_zero hzero)
  have hlength : (lastOf r.generationPromptIds.length r.input.ids).length = r.generationPromptIds.length := by
    rw [hlast, List.length_drop]
    omega
  rw [Request.endsWithGenerationPrompt, broadcast_same _ hlength, Except.map, all_zipWith_beq hlength, hlast]
  simp only [List.suffix_iff_eq_drop, eq_comm]

theorem zip_replicate_filter (l : List ℤ) (b : Bool) :
    ((l.zip (List.replicate l.length b.toNat)).filter fun token => token.2 = 1).map Prod.fst = if b then l else [] := by
  induction l with
  | nil => cases b <;> rfl
  | cons a l ih =>
    rw [List.length_cons, List.replicate_succ, List.zip_cons_cons]
    cases b with
    | true =>
      rw [List.filter_cons_of_pos (by rfl), List.map_cons, ih]
      rfl
    | false =>
      rw [List.filter_cons_of_neg (by exact Bool.false_ne_true), ih]
      rfl

/-- **More tokens.** -/
theorem updateInputIds_eq (h : Aligned given r.input) (hne : r.input.ids ≠ []) (newInputIds : List ℤ) (lossMask : Bool) :
    ∃ input, r.updateInputIds newInputIds true lossMask = .ok { r with input := input } ∧
      input.ids = r.input.ids ++ newInputIds ∧ Aligned (given ++ if lossMask then newInputIds else []) input := by
  obtain ⟨hattention, hloss, hpositions, hzeroOne, hgiven⟩ := h
  obtain ⟨m, hm⟩ : ∃ m, r.input.ids.length = m + 1 := Nat.exists_eq_succ_of_ne_zero (mt List.eq_nil_of_length_eq_zero hne)
  have hlast : lastOf 1 r.input.positionIds = [m] := by
    rw [hpositions, lastOf, if_neg Nat.one_ne_zero, List.length_range, hm, Nat.add_sub_cancel, List.range_succ]
    exact List.drop_left' List.length_range
  have hall : r.input.positionIds ++ (List.range newInputIds.length).map (· + (m + 1)) =
      List.range (r.input.ids ++ newInputIds).length := by
    rw [hpositions, List.length_append, List.range_add, hm]
    simp only [Nat.add_comm]
  refine ⟨⟨r.input.ids ++ newInputIds, r.input.attentionMask ++ List.replicate newInputIds.length 1,
    List.range (r.input.ids ++ newInputIds).length,
    r.input.lossMask ++ List.replicate newInputIds.length lossMask.toNat⟩, ?_, rfl, ?_, ?_, rfl, ?_, ?_⟩
  · simp only [Request.updateInputIds, Bool.toNat_true, positions_ones, hlast, List.map_singleton, broadcast_singleton,
      bind, Except.bind, hall]
    rw [if_pos]
    simp only [List.length_append, List.length_replicate, List.length_range, hattention, hloss, and_self]
  · rw [List.length_append, List.length_append, hattention, List.length_replicate]
  · rw [List.length_append, List.length_append, hloss, List.length_replicate]
  · intro b hb
    rcases List.mem_append.1 hb with hb | hb
    · exact hzeroOne b hb
    · rw [List.eq_of_mem_replicate hb]
      cases lossMask with
      | true => exact Or.inr rfl
      | false => exact Or.inl rfl
  · rw [List.zip_append hloss.symm, List.filter_append, List.map_append, hgiven, zip_replicate_filter]

/-- **Tokens are stripped** that the assistant has not been given. -/
theorem aligned_butLast {t : Tokens} (h : Aligned given t) {n : ℕ} (hn : n ≠ 0)
    (hzero : ∀ b ∈ lastOf n t.lossMask, b = 0) :
    Aligned given ⟨butLast n t.ids, butLast n t.attentionMask, butLast n t.positionIds, butLast n t.lossMask⟩ := by
  obtain ⟨hattention, hloss, hpositions, hzeroOne, hgiven⟩ := h
  simp only [butLast, lastOf, if_neg hn, hattention, hloss, hpositions, List.length_range] at hzero ⊢
  refine ⟨?_, ?_, ?_, fun b hb => hzeroOne b (List.mem_of_mem_take hb), ?_⟩
  · rw [List.length_take, List.length_take, hattention]
  · rw [List.length_take, List.length_take, hloss]
  · rw [List.length_take, List.take_range]
  · have hsplit : t.ids.zip t.lossMask = (t.ids.take (t.ids.length - n)).zip (t.lossMask.take (t.ids.length - n)) ++
        (t.ids.drop (t.ids.length - n)).zip (t.lossMask.drop (t.ids.length - n)) := by
      rw [← List.zip_append (by rw [List.length_take, List.length_take, hloss]), List.take_append_drop,
        List.take_append_drop]
    have hnone : ((t.ids.drop (t.ids.length - n)).zip (t.lossMask.drop (t.ids.length - n))).filter
        (fun token => token.2 = 1) = [] := by
      refine List.filter_eq_nil_iff.2 fun token htoken => ?_
      rw [hzero token.2 (List.of_mem_zip htoken).2]
      exact Bool.false_ne_true
    rw [← hgiven, hsplit, List.filter_append, hnone, List.append_nil]

/-! ## A run -/

/-- **The invariant of a run** from a request: its prompt is there, and only the messages and the tokens change. -/
structure Inv (r₀ : Request C R) (given : List ℤ) (r : Request C R) : Prop where
  aligned : Aligned given r.input
  starts : r₀.prompt.ids <+: r.input.ids
  frame : r = { r₀ with messages := r.messages, input := r.input }

structure Started (r : Request C R) : Prop where
  input : r.input = r.prompt
  aligned : Aligned [] r.prompt
  suffix : r.generationPromptIds <:+ r.prompt.ids

theorem started_of_initialize (hp : p.Unpadded) {messages : List (Message C)} {maxPromptLen maxResponseLen maxModelLen : ℕ}
    {useInferenceChatTemplate : Bool} {rewardScores : R}
    (h : initializeRequest p messages maxPromptLen maxResponseLen maxModelLen useInferenceChatTemplate rewardScores =
      .ok r) : Started r := by
  unfold initializeRequest at h
  split at h
  · cases h
  split at h
  · cases h
  obtain rfl := Except.ok.inj h
  refine ⟨rfl, ⟨?_, List.length_replicate, ?_, fun b hb => Or.inl (List.eq_of_mem_replicate hb), ?_⟩,
    List.drop_suffix _ _⟩
  · rw [hp, List.length_replicate]
  · rw [hp, positions_ones]
  · exact zip_replicate_filter _ false

section Run

variable {call : Call C}

theorem Inv.generationPromptIds (h : Inv r₀ given r) : r.generationPromptIds = r₀.generationPromptIds :=
  (congrArg Request.generationPromptIds h.frame :)

theorem Inv.compared (hstart : Started r₀) (hne : r₀.generationPromptIds ≠ []) (h : Inv r₀ given r) :
    r.input.ids ≠ [] ∧ r.endsWithGenerationPrompt = .ok (decide (r.generationPromptIds <:+ r.input.ids)) := by
  have hle := hstart.suffix.length_le.trans h.starts.length_le
  rw [← h.generationPromptIds] at hle hne
  refine ⟨?_, endsWithGenerationPrompt_eq hne hle⟩
  intro hnil
  rw [hnil, List.length_nil, Nat.le_zero, List.length_eq_zero_iff] at hle
  exact hne hle

theorem Inv.update (h : Inv r₀ given r) (hne : r.input.ids ≠ []) (messages : List (Message C)) (newInputIds : List ℤ)
    (lossMask : Bool) : ∃ r', { r with messages := messages }.updateInputIds newInputIds true lossMask = .ok r' ∧
      Inv r₀ (given ++ if lossMask then newInputIds else []) r' := by
  obtain ⟨input, hrun, hids, haligned⟩ :=
    updateInputIds_eq (r := { r with messages := messages }) h.aligned hne newInputIds lossMask
  refine ⟨_, hrun, haligned, ?_, congrArg (fun r => { r with messages := messages, input := input }) h.frame⟩
  rw [hids]
  exact h.starts.trans (List.prefix_append _ _)

/-- **Stripping** keeps the tokens of the assistant. -/
theorem Inv.remove (hstart : Started r₀) (hne : r₀.generationPromptIds ≠ []) (h : Inv r₀ given r)
    (hok : r.Strippable) : ∃ input, r.removeGenerationPromptIdsIfPresent = .ok { r with input := input } ∧
      Aligned given input ∧ input.ids <+: r.input.ids ∧
      ((r.generationPromptIds <:+ r.input.ids →
        r.prompt.ids.length + r.generationPromptIds.length ≤ r.input.ids.length) → r₀.prompt.ids <+: input.ids) := by
  obtain ⟨-, hcompare⟩ := h.compared hstart hne
  have hprompt : r.prompt = r₀.prompt := (congrArg Request.prompt h.frame :)
  rw [Request.removeGenerationPromptIdsIfPresent, hcompare]
  by_cases hends : r.generationPromptIds <:+ r.input.ids
  · have hzero : r.generationPromptIds.length ≠ 0 := by
      rw [h.generationPromptIds]
      exact mt List.eq_nil_of_length_eq_zero hne
    refine ⟨_, by simp only [hends, decide_true, bind, Except.bind, if_true],
      aligned_butLast h.aligned hzero (hok hends), ?_, fun hle => ?_⟩
    · simp only [butLast, if_neg hzero]
      exact List.take_prefix _ _
    · have hlen := hle hends
      rw [hprompt] at hlen
      simp only [butLast, if_neg hzero]
      exact List.prefix_take_iff.2 ⟨h.starts, by omega⟩
  · refine ⟨r.input, by simp only [hends, decide_false, bind, Except.bind]; rfl, h.aligned, List.prefix_rfl,
      fun _ => h.starts⟩

/-- **A call** adds its tokens. -/
theorem perform_spec (hstart : Started r₀) (hne : r₀.generationPromptIds ≠ []) (h : Inv r₀ given r)
    (hok : r.CallOk call) : ∃ r', r.perform p call = .ok r' ∧ Inv r₀ (given ++ call.given p r₀) r' := by
  obtain ⟨hids, hcompare⟩ := h.compared hstart hne
  cases call with
  | getGenerationPromptIds =>
    show ∃ r', _ ∧ Inv r₀ (given ++ []) r'
    rw [List.append_nil, Request.perform, Request.getGenerationPromptIds, hcompare]
    by_cases hends : r.generationPromptIds <:+ r.input.ids
    · exact ⟨r, by simp only [hends, decide_true, bind, Except.bind, if_true, Except.map], h⟩
    · obtain ⟨r', hrun, hinv⟩ := h.update hids r.messages r.generationPromptIds false
      rw [if_neg Bool.false_ne_true, List.append_nil] at hinv
      refine ⟨r', ?_, hinv⟩
      simp only [hends, decide_false, bind, Except.bind, Bool.false_eq_true, if_false, hrun, Except.map]
  | addAssistantMessage content contentIds toolCalls =>
    have hgiven : r.assistantIds p content contentIds toolCalls = r₀.assistantIds p content contentIds toolCalls := by
      have hpos := congrArg Request.baseConvWithGenPromptEndPos h.frame
      simp only at hpos
      rw [Request.assistantIds, Request.assistantIds, hpos]
    rw [Call.given, ← hgiven]
    exact h.update hids _ _ true
  | addUserMessage content =>
    exact h.update hids _ _ false
  | addToolResponseMessages contents =>
    show ∃ r', r.addToolResponseMessages p contents = .ok r' ∧ Inv r₀ (given ++ []) r'
    rw [Request.addToolResponseMessages]
    by_cases hempty : contents.all ToolResponse.isEmpty = true
    · rw [if_pos hempty, List.append_nil]
      exact ⟨r, rfl, h⟩
    · obtain ⟨hstrip, hlong⟩ := hok (Bool.eq_false_iff.2 hempty)
      rw [if_neg hempty]
      have hmessages : Inv r₀ given { r with messages := r.messages ++ contents.map toolMessage } :=
        ⟨h.aligned, h.starts, congrArg (fun r => { r with messages := r.messages ++ contents.map toolMessage }) h.frame⟩
      obtain ⟨input, hrun, haligned, -, hprompt⟩ := hmessages.remove hstart hne hstrip
      have hstripped : Inv r₀ given { r with messages := r.messages ++ contents.map toolMessage, input := input } :=
        ⟨haligned, hprompt hlong, congrArg (fun r => { r with input := input }) hmessages.frame⟩
      simp only [hrun, bind, Except.bind]
      exact hstripped.update (hstripped.compared hstart hne).1 _ _ false

end Run

/-- **A run** all of whose calls meet the condition. -/
theorem performAll_spec {calls : List (Call C)} (hstart : Started r₀) (h : CallsOk p r₀ calls) {k : ℕ}
    (hk : k ≤ calls.length) : ∃ r, r₀.performAll p (calls.take k) = .ok r ∧
      Inv r₀ ((calls.take k).flatMap (Call.given p r₀)) r := by
  induction k with
  | zero => exact ⟨r₀, rfl, hstart.input ▸ hstart.aligned, hstart.input ▸ List.prefix_rfl, rfl⟩
  | succ k ih =>
    obtain ⟨r, hrun, hinv⟩ := ih (Nat.le_of_succ_le hk)
    have hget : calls[k]? = some calls[k] := List.getElem?_eq_getElem hk
    obtain ⟨r', hstep, hinv'⟩ := perform_spec hstart h.nonempty hinv (h.call k calls[k] r hget hrun)
    rw [List.take_add_one, hget, Option.toList_some, List.flatMap_append, List.flatMap_singleton]
    refine ⟨r', ?_, hinv'⟩
    rw [Request.performAll, List.foldlM_append, ← Request.performAll, hrun]
    show (r.perform p calls[k]).bind Except.ok = .ok r'
    rw [hstep]
    rfl

/-- **The end of a run.** -/
theorem finalize_spec (hstart : Started r₀) (hne : r₀.generationPromptIds ≠ []) (h : Inv r₀ given r)
    (hok : r.Strippable) (rewardScores : R) {finishReason : FinishReason} (hfinish : finishReason ≠ .toolCall) :
    ∃ r', r.finalize rewardScores finishReason = .ok r' ∧ Finalized given r₀ r' := by
  have hcompleted : Inv { r₀ with state := .completed, rewardScores := rewardScores } given
      { r with state := .completed, rewardScores := rewardScores } :=
    ⟨h.aligned, h.starts, congrArg (fun r => { r with state := .completed, rewardScores := rewardScores }) h.frame⟩
  have hstarted : Started { r₀ with state := .completed, rewardScores := rewardScores } :=
    ⟨hstart.input, hstart.aligned, hstart.suffix⟩
  obtain ⟨input, hrun, haligned, hprefix, -⟩ := hcompleted.remove hstarted hne hok
  have hprompt : r.prompt = r₀.prompt := (congrArg Request.prompt h.frame :)
  have hmodel : r.maxModelLen = r₀.maxModelLen := (congrArg Request.maxModelLen h.frame :)
  have hresponse : r.maxResponseLen = r₀.maxResponseLen := (congrArg Request.maxResponseLen h.frame :)
  have hpositions : r₀.prompt.positionIds.length = r₀.prompt.ids.length := by
    rw [hstart.aligned.positions, List.length_range]
  have hlengths : input.positionIds.length = input.ids.length := by rw [haligned.positions, List.length_range]
  simp only [Request.finalize, hrun, bind, Except.bind, if_neg hfinish]
  rw [if_pos]
  · refine ⟨_, rfl, ⟨input, _, haligned, List.prefix_or_prefix_of_prefix h.starts hprefix, ?_, rfl, ?_⟩⟩
    · simp only [Request.truncateOutputIds, hmodel]
    · simp only [Request.truncateOutputIds, Tokens.take, hprompt, hmodel, hresponse, hstart.aligned.attention,
        hstart.aligned.loss, hpositions, List.length_take, List.length_drop, haligned.attention, haligned.loss, hlengths,
        and_self, and_true, true_and]
      exact Nat.min_le_left _ _
  · simp only [Request.truncateOutputIds, Tokens.take, List.length_take, haligned.attention, haligned.loss, hlengths,
      and_self]

/-- **The law of every run** all of whose calls meet the condition. -/
theorem law_of_callsOk (hp : p.Unpadded) {messages : List (Message C)} {maxPromptLen maxResponseLen maxModelLen : ℕ}
    {useInferenceChatTemplate : Bool} {initialScores : R}
    (hinit : initializeRequest p messages maxPromptLen maxResponseLen maxModelLen useInferenceChatTemplate initialScores =
      .ok r₀) (calls : List (Call C)) (h : CallsOk p r₀ calls) (rewardScores : R) {finishReason : FinishReason}
    (hfinish : finishReason ≠ .toolCall) : Law p r₀ calls rewardScores finishReason := by
  have hstart := started_of_initialize hp hinit
  refine ⟨fun k hk => ?_, ?_⟩
  · obtain ⟨r, hrun, hinv⟩ := performAll_spec hstart h hk
    exact ⟨r, hrun, hinv.aligned⟩
  · obtain ⟨r, hrun, hinv⟩ := performAll_spec hstart h (Nat.le_refl calls.length)
    rw [List.take_length] at hrun hinv
    obtain ⟨r', hend, hfinal⟩ := finalize_spec hstart h.nonempty hinv (h.final r hrun) rewardScores hfinish
    exact ⟨r, r', hrun, hend, hfinal⟩

def oneTokenEach (messages : List (Message Unit)) (addGenerationPrompt : Bool) : List ℤ :=
  messages.map (fun _ => 1) ++ if addGenerationPrompt then [7] else []

def oneToken : ProcessingClass Unit where
  inputIds := oneTokenEach
  attentionMask := fun messages addGenerationPrompt =>
    List.replicate (oneTokenEach messages addGenerationPrompt).length 1

def userRequest : Request Unit Unit where
  state := .pending
  messages := [⟨"user", .text "Hello", none⟩]
  input := ⟨[1, 7], [1, 1], [0, 1], [0, 0]⟩
  prompt := ⟨[1, 7], [1, 1], [0, 1], [0, 0]⟩
  response := none
  rewardScores := ()
  maxResponseLen := 4
  maxModelLen := 8
  useInferenceChatTemplate := false
  generationPromptIds := [7]
  baseConvWoGenPromptEndPos := 2
  baseConvWithGenPromptEndPos := 3

theorem userRequest_initialized :
    initializeRequest oneToken [⟨"user", .text "Hello", none⟩] 8 4 8 false () = .ok userRequest := rfl

/-- The assistant calls a tool, and its generation prompt is added but not answered. -/
def toolCalled : List (Call Unit) :=
  [.addAssistantMessage "" (some [5, 6]) none, .addToolResponseMessages [⟨some "4"⟩], .getGenerationPromptIds]

theorem toolCalled_ok : CallsOk oneToken userRequest toolCalled where
  nonempty := List.cons_ne_nil 7 []
  call := by
    intro k call r hget hrun
    rcases k with _ | _ | _ | k
    · obtain rfl := Option.some.inj hget
      exact trivial
    · obtain rfl := Option.some.inj hget
      obtain rfl := Except.ok.inj (show Except.ok _ = Except.ok r from hrun)
      exact fun _ => ⟨fun hends => absurd hends (by decide), fun hends => absurd hends (by decide)⟩
    · obtain rfl := Option.some.inj hget
      exact trivial
    · cases hget
  final := by
    intro r hrun
    obtain rfl := Except.ok.inj (show Except.ok _ = Except.ok r from hrun)
    intro _ b hb
    exact List.mem_singleton.1 hb

theorem law_toolCalled : Law oneToken userRequest toolCalled () .stop :=
  law_of_callsOk (fun _ _ => rfl) userRequest_initialized toolCalled toolCalled_ok () (by decide)

/-- The last token of the assistant is that of the generation prompt. -/
def endsAlike : List (Call Unit) :=
  [.addAssistantMessage "" (some [5, 7]) none, .addToolResponseMessages [⟨some "4"⟩]]

/-- **The token is stripped** before the tool response. -/
theorem not_law : ¬ ∀ (calls : List (Call Unit)) (finishReason : FinishReason), finishReason ≠ .toolCall →
    Law oneToken userRequest calls () finishReason := by
  intro h
  obtain ⟨r, hrun, haligned⟩ := (h endsAlike .stop (by decide)).aligned 2 (Nat.le_refl 2)
  obtain rfl := Except.ok.inj (show Except.ok _ = Except.ok r from hrun)
  exact absurd haligned.given (by decide)

end Opd.Verl.AsyncRolloutRequest

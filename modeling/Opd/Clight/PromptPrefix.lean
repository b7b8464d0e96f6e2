import Opd.Clight.PlaceholderExpansion
import Opd.Clight.Truncation

/-!
# The prompt of an example and its tokens

`preprocess_batch` encodes the prompt of an example alone, for the rollout, and then together with the response, for SFT.
All images are given to both.

* `processMessages_both`: the prompt is expanded in the same way when the response has no placeholder.
* `encodeMessages_append`: the tokens of the prompt are the first ones.
* `preprocessBatch_iff`: the batch is encoded, with the prompts as prefixes, exactly when no response has a placeholder.
-/

namespace Opd.Clight.PromptPrefix

open Lib Preprocessor PlaceholderExpansion Truncation

variable {ι τ : Type}

/-! ## Conversations -/

/-- An odd number of turns that begin with the user, and an answer, with an image for every placeholder. -/
structure Conversation (e : Example ι) : Prop where
  odd : e.prompt.length % 2 = 1
  turns : ∀ i message, e.prompt[i]? = some message → message.role = if i % 2 = 0 then .user else .assistant
  answer : ∃ answer, e.response = [answer] ∧ answer.role = .assistant
  images : ((e.prompt ++ e.response).map fun message => count imagePlaceholder message.content).sum =
    (e.images.getD []).length

def IsTurn (message : Message) : Prop := message.role = .user ∨ message.role = .assistant

theorem Conversation.isTurn_prompt {e : Example ι} (h : Conversation e) : ∀ message ∈ e.prompt, IsTurn message := by
  intro message hmessage
  obtain ⟨i, hi, rfl⟩ := List.getElem_of_mem hmessage
  have hrole := h.turns i _ (List.getElem?_eq_getElem hi)
  unfold IsTurn
  rw [hrole]
  split
  · exact .inl rfl
  · exact .inr rfl

theorem Conversation.isTurn_response {e : Example ι} (h : Conversation e) : ∀ message ∈ e.response, IsTurn message := by
  obtain ⟨answer, hanswer, hrole⟩ := h.answer
  intro message hmessage
  rw [hanswer, List.mem_singleton] at hmessage
  exact hmessage ▸ .inr hrole

theorem isTurn_expandedAll {runs : List Text} {messages out : List Message} (h : ExpandedAll runs messages out)
    (hturns : ∀ message ∈ messages, IsTurn message) : ∀ message ∈ out, IsTurn message := by
  induction h with
  | nil => exact fun _ hmem => absurd hmem List.not_mem_nil
  | @cons runs runs' message messages expanded content _ _ ih =>
    intro message' hmem
    rcases List.mem_cons.1 hmem with rfl | hmem
    · exact hturns message List.mem_cons_self
    · exact ih (fun message hmessage => hturns message (List.mem_cons_of_mem _ hmessage)) message' hmem

/-! ## The two expansions -/

section expansion

variable {p : ImageProcessor ι} {prompt response : List Message} {images : List ι}

/-- **The prompt is expanded alone** as it is in front of a response without placeholders. -/
theorem processMessages_both (hcount : (prompt.map fun message => placeholderCount message.content).sum = images.length)
    (hresponse : (response.map fun message => placeholderCount message.content).sum = 0)
    (hgrids : (p.imageGridThw images).length = images.length) : ∃ first second,
      processMessages qwenPlugin (some ⟨some p⟩) prompt images = .ok first ∧
      processMessages qwenPlugin (some ⟨some p⟩) (prompt ++ response) images = .ok (first ++ second) ∧
      ExpandedAll (imageRuns p images) prompt first ∧ ExpandedAll [] response second := by
  have hinput : validateInput (some ⟨some p⟩) images = .ok () := by
    unfold validateInput
    split
    · rfl
    · rfl
  have hboth : ((prompt ++ response).map fun message => placeholderCount message.content).sum = images.length := by
    rw [List.map_append, List.sum_append, hcount, hresponse, Nat.add_zero]
  have hseqlens := seqlens_eq hgrids
  have hlength : (p.seqlens images).length = (prompt.map fun message => placeholderCount message.content).sum := by
    rw [hseqlens, List.length_map, hgrids, hcount]
  obtain ⟨first, hfirst, hloop⟩ := expandMessages_append hlength
  obtain ⟨second, hsecond, hrest⟩ := @expandMessages_eq [] response hresponse.symm
  have halone := hloop [] []
  have htogether := hloop [] response
  rw [List.append_nil, List.append_nil] at halone
  rw [List.append_nil, hrest] at htogether
  refine ⟨first, second, ?_, ?_, ?_, hsecond⟩
  · unfold processMessages
    simp only [hinput, validateMessages_eq hcount, bind, Except.bind]
    refine halone.trans ?_
    exact congrArg Except.ok (List.append_nil first)
  · unfold processMessages
    simp only [hinput, validateMessages_eq hboth, bind, Except.bind]
    exact htogether
  · rw [hseqlens, List.map_map] at hfirst
    exact hfirst

/-- **A placeholder in the response** leaves an image too many for the prompt. -/
theorem processMessages_error (processor : Option (Processor ι))
    (hcount : (prompt.map fun message => placeholderCount message.content).sum ≠ images.length) :
    ∀ out, processMessages qwenPlugin processor prompt images ≠ .ok out := by
  intro out h
  obtain ⟨⟨⟩, _, h⟩ := bind_eq_ok.1 h
  obtain ⟨⟨⟩, hmessages, _⟩ := bind_eq_ok.1 h
  unfold validateMessages at hmessages
  simp only [count_imagePlaceholder] at hmessages
  rw [if_pos hcount.symm] at hmessages
  cases hmessages

end expansion

/-! ## The two encodings -/

section encoding

variable (template : Template) (tokenizer : Preprocessor.Tokenizer τ)

theorem encodeTurns_ok (elements : List Text) {messages : List Message} (h : ∀ message ∈ messages, IsTurn message) :
    ∃ encoded, encodeTurns template tokenizer elements messages = .ok encoded ∧ encoded.length = messages.length := by
  induction messages generalizing elements with
  | nil => exact ⟨[], rfl, rfl⟩
  | cons message messages ih =>
    obtain ⟨encoded, hencoded, hlength⟩ := ih [] fun message hmem => h message (List.mem_cons_of_mem _ hmem)
    have hturn : ∃ turn, turnElements template message = .ok turn := by
      unfold turnElements
      rcases h message List.mem_cons_self with hrole | hrole
      · rw [hrole]
        exact ⟨_, rfl⟩
      · rw [hrole]
        exact ⟨_, rfl⟩
    obtain ⟨turn, hturn⟩ := hturn
    refine ⟨encodeElements tokenizer (elements ++ turn) :: encoded, ?_, by rw [List.length_cons, List.length_cons, hlength]⟩
    rw [encodeTurns]
    simp only [hturn, hencoded, bind, Except.bind]
    rfl

theorem encodeTurns_append {elements : List Text} {messages others : List Message} {encoded : List (List τ)}
    (hne : messages ≠ []) (h : encodeTurns template tokenizer elements messages = .ok encoded) :
    encodeTurns template tokenizer elements (messages ++ others) =
      (encodeTurns template tokenizer [] others).map fun rest => encoded ++ rest := by
  induction messages generalizing elements encoded with
  | nil => exact absurd rfl hne
  | cons message messages ih =>
    rw [encodeTurns] at h
    obtain ⟨turn, hturn, h⟩ := bind_eq_ok.1 h
    obtain ⟨behind, hbehind, h⟩ := bind_eq_ok.1 h
    obtain rfl := Except.ok.inj h
    have hrest : encodeTurns template tokenizer [] (messages ++ others) =
        (encodeTurns template tokenizer [] others).map fun rest => behind ++ rest := by
      cases messages with
      | nil =>
        obtain rfl := Except.ok.inj hbehind
        rw [List.nil_append]
        cases encodeTurns template tokenizer [] others with
        | error e => rfl
        | ok rest => rfl
      | cons next messages => exact ih (List.cons_ne_nil _ _) hbehind
    rw [List.cons_append, encodeTurns, hturn, hrest]
    simp only [bind, Except.bind]
    cases encodeTurns template tokenizer [] others with
    | error e => rfl
    | ok rest => rfl

/-- **The prompt is encoded alone** as it is in front of a response. -/
theorem encodeMessages_append {messages others : List Message} (system : Option Text) (hne : messages ≠ [])
    (h : ∀ message ∈ messages, IsTurn message) (hothers : ∀ message ∈ others, IsTurn message) : ∃ encoded rest,
      encodeMessages template tokenizer messages system = .ok encoded ∧
      encodeMessages template tokenizer (messages ++ others) system = .ok (encoded ++ rest) ∧
      encoded.length = messages.length ∧ rest.length = others.length := by
  unfold encodeMessages
  dsimp only
  generalize (if systemMessage template system = [] then []
    else formatElements template.system (systemMessage template system)) = elements
  obtain ⟨encoded, hencoded, hlength⟩ := encodeTurns_ok template tokenizer elements h
  obtain ⟨rest, hrest, hlength'⟩ := encodeTurns_ok template tokenizer [] hothers
  refine ⟨encoded, rest, hencoded, ?_, hlength, hlength'⟩
  rw [encodeTurns_append template tokenizer hne hencoded, hrest]
  rfl

theorem pairs_ok {encoded : List (List τ)} (h : encoded.length % 2 = 0) : ∃ out, pairs encoded = .ok out := by
  fun_induction pairs encoded with
  | case1 => exact ⟨[], rfl⟩
  | case2 => exact absurd h (by simp)
  | case3 source target encoded ih =>
    obtain ⟨out, hout⟩ := ih (by
      rw [List.length_cons, List.length_cons] at h
      omega)
    rw [hout]
    exact ⟨_, rfl⟩

end encoding

/-! ## The batch -/

section batch

variable {preprocessor : SupervisedPreprocessor ι τ} {p : ImageProcessor ι}

/-- The tokens of an example before the truncation and after it are the same. -/
def Untruncated (preprocessor : SupervisedPreprocessor ι τ) (e : Example ι) : Prop :=
  ∀ encoded, encodedPairs preprocessor (e.prompt ++ e.response) e.system (e.images.getD []) = .ok encoded →
    (encodePairs preprocessor.dataArgs.cutoffLen (if preprocessor.template.efficientEos then 1 else 0) encoded).1 =
      allTokens encoded

/-- The prompt of an entry is the first part of its tokens, unless these were truncated. -/
def PromptIsPrefix (preprocessor : SupervisedPreprocessor ι τ) (e : Example ι) (row : ModelInput ι τ) : Prop :=
  Untruncated preprocessor e → row.promptInputIds <+: row.inputIds

theorem placeholderCount_response {e : Example ι} (h : Conversation e) :
    (e.prompt.map fun message => placeholderCount message.content).sum +
      (e.response.map fun message => placeholderCount message.content).sum = (e.images.getD []).length := by
  have himages := h.images
  simp only [count_imagePlaceholder] at himages
  rw [List.map_append, List.sum_append] at himages
  exact himages

/-- **A conversation** whose response has no placeholder. -/
theorem preprocessExample_prefix (hplugin : preprocessor.template.mmPlugin = qwenPlugin)
    (hprocessor : preprocessor.processor = some ⟨some p⟩)
    (hgrids : ∀ images, (p.imageGridThw images).length = images.length) {e : Example ι} (he : Conversation e)
    (hresponse : ∀ message ∈ e.response, placeholderCount message.content = 0) :
    ∃ entry, preprocessExample preprocessor e = .ok entry ∧ ∀ row ∈ entry, PromptIsPrefix preprocessor e row := by
  have hzero : (e.response.map fun message => placeholderCount message.content).sum = 0 := by
    obtain ⟨answer, hanswer, _⟩ := he.answer
    rw [hanswer, List.map_singleton, List.sum_singleton]
    exact hresponse answer (hanswer ▸ List.mem_singleton_self answer)
  have hcount : (e.prompt.map fun message => placeholderCount message.content).sum = (e.images.getD []).length := by
    have hsum := placeholderCount_response he
    omega
  obtain ⟨first, second, halone, htogether, hfirst, hsecond⟩ := processMessages_both hcount hzero (hgrids _)
  have hne : first ≠ [] := by
    intro hnil
    have hlength := length_expandedAll hfirst
    have hodd := he.odd
    rw [hnil, List.length_nil] at hlength
    omega
  obtain ⟨encoded, rest, hencoded, hall, hlength, hlength'⟩ :=
    encodeMessages_append preprocessor.template preprocessor.tokenizer e.system hne
      (isTurn_expandedAll hfirst he.isTurn_prompt) (isTurn_expandedAll hsecond he.isTurn_response)
  obtain ⟨answer, hanswer, _⟩ := he.answer
  have heven : (encoded ++ rest).length % 2 = 0 := by
    have hodd := he.odd
    rw [List.length_append, hlength, hlength', length_expandedAll hfirst, length_expandedAll hsecond, hanswer,
      List.length_singleton]
    omega
  obtain ⟨turns, hturns⟩ := pairs_ok heven
  have hprompt : encodePromptExample preprocessor e.prompt e.system (e.images.getD []) = .ok encoded.flatten := by
    unfold encodePromptExample
    rw [hplugin, hprocessor]
    simp only [halone, hencoded, bind, Except.bind]
    rfl
  have hpairs : encodedPairs preprocessor (e.prompt ++ e.response) e.system (e.images.getD []) = .ok turns := by
    unfold encodedPairs encodeMultiturn
    rw [hplugin, hprocessor]
    simp only [htogether, hall, hturns, bind, Except.bind]
  unfold preprocessExample
  rw [hanswer]
  dsimp only
  rw [if_neg (by have hodd := he.odd; omega), hprompt]
  simp only [bind, Except.bind]
  split
  · exact ⟨none, rfl, fun row hrow => absurd hrow nofun⟩
  · rw [← hanswer]
    unfold encodeSftExample
    simp only [hpairs, bind, Except.bind]
    refine ⟨_, rfl, fun row hrow huntruncated => ?_⟩
    obtain rfl := Option.some.inj hrow
    have hids := huntruncated turns hpairs
    have hflat : allTokens turns = encoded.flatten ++ rest.flatten := by
      rw [allTokens, flatten_pairs hturns, List.flatten_append]
    cases heos : preprocessor.template.efficientEos with
    | true =>
      simp only [heos, if_true] at hids ⊢
      rw [hids, hflat, List.append_assoc]
      exact List.prefix_append _ _
    | false =>
      simp only [heos, Bool.false_eq_true, if_false] at hids ⊢
      rw [hids, hflat]
      exact List.prefix_append _ _

/-- **A conversation** whose response has a placeholder. -/
theorem preprocessExample_error (hplugin : preprocessor.template.mmPlugin = qwenPlugin) {e : Example ι}
    (he : Conversation e) {message : Message} (hmessage : message ∈ e.response)
    (hplaceholder : placeholderCount message.content ≠ 0) (entry : Option (ModelInput ι τ)) :
    preprocessExample preprocessor e ≠ .ok entry := by
  have hsum := placeholderCount_response he
  obtain ⟨answer, hanswer, _⟩ := he.answer
  obtain rfl : message = answer := List.mem_singleton.1 (hanswer ▸ hmessage)
  rw [hanswer, List.map_singleton, List.sum_singleton] at hsum
  intro h
  unfold preprocessExample at h
  rw [hanswer] at h
  dsimp only at h
  rw [if_neg (by have hodd := he.odd; omega)] at h
  obtain ⟨promptIds, hprompt, _⟩ := bind_eq_ok.1 h
  unfold encodePromptExample at hprompt
  obtain ⟨messages, hmessages, _⟩ := bind_eq_ok.1 hprompt
  rw [hplugin] at hmessages
  exact processMessages_error preprocessor.processor (by omega) messages hmessages

/-- **The tokens of the prompt**: a batch of conversations is encoded, with the prompts as prefixes of the examples that are
not truncated, exactly when no response has a placeholder. -/
theorem preprocessBatch_iff (hplugin : preprocessor.template.mmPlugin = qwenPlugin)
    (hprocessor : preprocessor.processor = some ⟨some p⟩)
    (hgrids : ∀ images, (p.imageGridThw images).length = images.length) {examples : List (Example ι)}
    (hconversations : ∀ e ∈ examples, Conversation e) :
    (∃ rows, preprocessBatch preprocessor examples = .ok rows ∧ ∃ kept, kept.Sublist examples ∧
        List.Forall₂ (PromptIsPrefix preprocessor) kept rows) ↔
      ∀ e ∈ examples, ∀ message ∈ e.response, count imagePlaceholder message.content = 0 := by
  simp only [count_imagePlaceholder]
  constructor
  · rintro ⟨rows, hrows, _⟩ e he message hmessage
    by_contra hplaceholder
    obtain ⟨entries, hentries, _⟩ := bind_eq_ok.1 hrows
    obtain ⟨i, hi, rfl⟩ := List.getElem_of_mem he
    obtain ⟨entry, _, hentry⟩ := getElem?_of_forall₂ (mapM_eq_ok_iff.1 hentries) (List.getElem?_eq_getElem hi)
    exact preprocessExample_error hplugin (hconversations _ he) hmessage hplaceholder entry hentry
  · intro hresponses
    obtain ⟨entries, hentries⟩ := mapM_of_forall (f := preprocessExample preprocessor) (l := examples) fun e he => by
      obtain ⟨entry, hentry, _⟩ :=
        preprocessExample_prefix hplugin hprocessor hgrids (hconversations e he) (hresponses e he)
      exact ⟨entry, hentry⟩
    refine ⟨entries.filterMap id, ?_, ?_⟩
    · unfold preprocessBatch
      rw [hentries]
      rfl
    · have hall := mapM_eq_ok_iff.1 hentries
      clear hentries
      induction hall with
      | nil => exact ⟨[], List.Sublist.refl _, .nil⟩
      | @cons e entry examples entries hentry _ ih =>
        obtain ⟨kept, hkept, hrows⟩ := ih (fun e he => hconversations e (List.mem_cons_of_mem _ he))
          fun e he => hresponses e (List.mem_cons_of_mem _ he)
        cases entry with
        | none => exact ⟨kept, hkept.cons e, hrows⟩
        | some row =>
          obtain ⟨entry', hentry', hhead⟩ := preprocessExample_prefix hplugin hprocessor hgrids
            (hconversations e List.mem_cons_self) (hresponses e List.mem_cons_self)
          obtain rfl := Except.ok.inj (hentry.symm.trans hentry')
          exact ⟨e :: kept, hkept.cons_cons e, .cons (hhead row rfl) hrows⟩

end batch

def imageInAnswer : Example Unit where
  prompt := [⟨.user, "a".toList⟩]
  response := [⟨.assistant, "<image>".toList⟩]
  system := none
  images := some [()]

theorem conversation_question : Conversation (question []) where
  odd := rfl
  turns := by
    intro i message h
    cases i with
    | zero =>
      obtain rfl := Option.some.inj h
      rfl
    | succ i => exact absurd h nofun
  answer := ⟨_, rfl, rfl⟩
  images := by decide

theorem conversation_imageInAnswer : Conversation imageInAnswer where
  odd := rfl
  turns := by
    intro i message h
    cases i with
    | zero =>
      obtain rfl := Option.some.inj h
      rfl
    | succ i => exact absurd h nofun
  answer := ⟨_, rfl, rfl⟩
  images := by decide

theorem prefix_question : ∃ rows, preprocessBatch (fourTokens 2048) [question []] = .ok rows ∧
    ∃ kept, kept.Sublist [question []] ∧ List.Forall₂ (PromptIsPrefix (fourTokens 2048)) kept rows :=
  (preprocessBatch_iff rfl rfl (fun _ => List.length_map _) fun e he =>
    List.mem_singleton.1 he ▸ conversation_question).2 fun e he message hmessage => by
      obtain rfl := List.mem_singleton.1 he
      obtain rfl := List.mem_singleton.1 hmessage
      decide

theorem raises_imageInAnswer : Conversation imageInAnswer ∧
    preprocessBatch (fourTokens 2048) [imageInAnswer] = .error (.placeholders 1 0) :=
  ⟨conversation_imageInAnswer, rfl⟩

end Opd.Clight.PromptPrefix

import Opd.Lib.Tensor

/-!
# The two pad modes of the multi-turn SFT dataset

`MultiTurnSFTDataset` renders every message on its own, cuts the system prompt off all but the first one, masks the
generation prompt of an assistant message by its length, and truncates the whole in one of two ways.

* `extract_eq`: the system prompt and the generation prompt that the dataset extracts from the template.
* `inputIds_eq`: the messages one by one are the whole conversation.
* `window_masked_iff`: when only the contents of assistant messages are trained.
* `fits_iff`, `lastTokens_ne`: when the pad modes give the same sample.
* `getItem_iff`: both.
-/

namespace Opd.Verl.SftDataset

open Lib

/-! ## The chat template -/

inductive Role
  | system
  | assistant
  | other (name : String)
  deriving DecidableEq

structure Message (C : Type) where
  role : Role
  content : C

/-- A chat template that puts a default system prompt in front of a conversation without one, and renders each message as
its header and its content. -/
structure ChatTemplate (C T : Type) where
  systemPrompt : Option T → List ℕ
  header : Role → List ℕ
  content : Option T → Message C → List ℕ
  header_ne_nil : ∀ role, header role ≠ []

variable {C T V : Type}

namespace ChatTemplate

variable (tpl : ChatTemplate C T)

def start (tools : Option T) (first : Message C) : List ℕ :=
  if first.role = .system then [] else tpl.systemPrompt tools

def message (tools : Option T) (m : Message C) : List ℕ := tpl.header m.role ++ tpl.content tools m

/-- `apply_chat_template`: the tools are rendered with the first message. -/
def apply (tools : Option T) (addGenerationPrompt : Bool) : List (Message C) → List ℕ
  | [] => []
  | m :: messages => tpl.start tools m ++ tpl.message tools m ++ messages.flatMap (tpl.message none) ++
      if addGenerationPrompt then tpl.header .assistant else []

/-- `tokens[:-n]` -/
def dropLastTokens (n : ℕ) (tokens : List ℕ) : List ℕ := if n = 0 then [] else tokens.take (tokens.length - n)

/-- `extract_system_prompt_and_generation`, from empty messages of the user. -/
def extractSystemPromptAndGeneration (empty : C) : List ℕ × List ℕ :=
  let user : Message C := ⟨.other "user", empty⟩
  let token1 := tpl.apply none false [user]
  let token2 := tpl.apply none false [user, user]
  let token3 := tpl.apply none true [user]
  (dropLastTokens (token2.length - token1.length) token1, token3.drop token1.length)

end ChatTemplate

/-! ## The dataset -/

inductive Truncation
  | error
  | left
  | right
  deriving DecidableEq

inductive SftError
  | noMessages
  | mismatch
  | tooLong (sequenceLength maxLength : ℕ)

/-- The settings of a dataset; `vision` are the position ids of the vision tower for each token. -/
structure Dataset (C T V : Type) where
  tpl : ChatTemplate C T
  empty : C
  truncation : Truncation
  maxLength : ℕ
  padTokenId : Option ℕ
  ignoreInputIdsMismatch : Bool
  vision : List ℕ → ℕ → V

/-- What `__getitem__` returns. -/
structure Sample (V : Type) where
  inputIds : List ℕ
  attentionMask : Option (List ℕ)
  positionIds : List (ℕ × V)
  lossMask : List ℕ

namespace Dataset

variable (d : Dataset C T V)

def systemPrompt : List ℕ := (d.tpl.extractSystemPromptAndGeneration d.empty).1

def generationPrompt : List ℕ := (d.tpl.extractSystemPromptAndGeneration d.empty).2

/-- The token ids of `_process_single_message`. -/
def messageIds (index : ℕ) (m : Message C) (tools : Option T) : List ℕ :=
  let inputIds := d.tpl.apply tools false [m]
  if index ≠ 0 ∧ m.role ≠ .system then inputIds.drop d.systemPrompt.length else inputIds

def messageMask (index : ℕ) (m : Message C) (tools : Option T) : List ℕ :=
  let attentionMask := (d.messageIds index m tools).map fun _ => 1
  if m.role = .assistant then
    List.replicate (min d.generationPrompt.length attentionMask.length) 0 ++
      (attentionMask.drop d.generationPrompt.length).map fun _ => 1
  else attentionMask.map fun _ => 0

/-- The messages one by one, with `tools if i == 0 else None`. -/
def messagesFrom {α : Type} (f : ℕ → Message C → Option T → List α) (tools : Option T) (messages : List (Message C)) :
    List α :=
  (messages.zipIdx.map fun x => f x.2 x.1 (if x.2 = 0 then tools else none)).flatten

def inputIds (tools : Option T) (messages : List (Message C)) : List ℕ := messagesFrom d.messageIds tools messages

def lossMask (tools : Option T) (messages : List (Message C)) : List ℕ := messagesFrom d.messageMask tools messages

/-- The tokens before padding and truncation, with their position ids. -/
def tokens (tools : Option T) (messages : List (Message C)) : Except SftError (Sample V) :=
  if messages = [] then .error .noMessages
  else
    let ids := d.inputIds tools messages
    if ids ≠ d.tpl.apply tools false messages ∧ d.ignoreInputIdsMismatch = false then .error .mismatch
    else .ok ⟨ids, some (ids.map fun _ => 1), (List.range ids.length).map fun i => (i, d.vision ids i),
      d.lossMask tools messages⟩

/-- `x[-n:]` -/
def lastTokens {α : Type} (n : ℕ) (l : List α) : List α := if n = 0 then l else l.drop (l.length - n)

def mapSample (f : ∀ {α : Type}, List α → List α) (s : Sample V) : Sample V :=
  ⟨f s.inputIds, s.attentionMask.map f, f s.positionIds, f s.lossMask⟩

/-- The branch of `DatasetPadMode.RIGHT`. -/
def padRight [Zero V] (s : Sample V) : Except SftError (Sample V) :=
  let sequenceLength := s.inputIds.length
  if sequenceLength < d.maxLength then
    let n := d.maxLength - sequenceLength
    .ok ⟨s.inputIds ++ List.replicate n (d.padTokenId.getD 0), s.attentionMask.map (· ++ List.replicate n 0),
      s.positionIds ++ List.replicate n (0, 0), s.lossMask ++ List.replicate n 0⟩
  else if d.maxLength < sequenceLength then
    match d.truncation with
    | .left => .ok (mapSample (lastTokens d.maxLength) s)
    | .right => .ok (mapSample (List.take d.maxLength) s)
    | .error => .error (.tooLong sequenceLength d.maxLength)
  else .ok s

/-- The branch of `DatasetPadMode.NO_PADDING`. -/
def noPadding (s : Sample V) : Except SftError (Sample V) :=
  let sequenceLength := s.inputIds.length
  if d.maxLength < sequenceLength ∧ d.truncation = .error then .error (.tooLong sequenceLength d.maxLength)
  else if d.maxLength < sequenceLength then .ok { mapSample (List.take d.maxLength) s with attentionMask := none }
  else .ok { s with attentionMask := none }

end Dataset

/-! ## What it should be -/

def restrict {α : Type} (mask : List ℕ) (l : List α) : List α := ((l.zip mask).filter fun x => x.2 = 1).map Prod.fst

/-- The sample of a padded row at the tokens of its attention mask. -/
def Sample.attended (s : Sample V) : List ℕ × List ℕ × List (ℕ × V) :=
  let mask := s.attentionMask.getD (s.inputIds.map fun _ => 1)
  (restrict mask s.inputIds, restrict mask s.lossMask, restrict mask s.positionIds)

def Agrees : Except SftError (Sample V) → Except SftError (Sample V) → Prop
  | .ok right, .ok noPadding => right.attended = (noPadding.inputIds, noPadding.lossMask, noPadding.positionIds)
  | .error _, .error _ => True
  | _, _ => False

inductive Part
  | system
  | header (role : Role)
  | content (role : Role)
  deriving DecidableEq

def parts (tpl : ChatTemplate C T) (tools : Option T) : List (Message C) → List Part
  | [] => []
  | m :: messages => (tpl.start tools m).map (fun _ => .system) ++ messageParts tpl tools m ++
      messages.flatMap (messageParts tpl none)
where
  messageParts (tpl : ChatTemplate C T) (tools : Option T) (m : Message C) : List Part :=
    (tpl.header m.role).map (fun _ => .header m.role) ++ (tpl.content tools m).map fun _ => .content m.role

section concatenation

variable {d : Dataset C T V} {tools : Option T} {m : Message C} {messages : List (Message C)}

theorem extract_eq (tpl : ChatTemplate C T) (empty : C) :
    tpl.extractSystemPromptAndGeneration empty = (tpl.systemPrompt none, tpl.header .assistant) := by
  set user : Message C := ⟨.other "user", empty⟩ with huser
  have hstart : tpl.start none user = tpl.systemPrompt none := if_neg (by simp [huser])
  have hpos : 0 < (tpl.message none user).length :=
    List.length_pos_iff.2 (List.append_ne_nil_of_left_ne_nil (tpl.header_ne_nil _) _)
  have htoken1 : tpl.apply none false [user] = tpl.systemPrompt none ++ tpl.message none user := by
    simp [ChatTemplate.apply, hstart]
  have htoken2 : tpl.apply none false [user, user] =
      tpl.systemPrompt none ++ tpl.message none user ++ tpl.message none user := by
    simp [ChatTemplate.apply, hstart]
  have htoken3 : tpl.apply none true [user] =
      tpl.systemPrompt none ++ tpl.message none user ++ tpl.header .assistant := by
    simp [ChatTemplate.apply, hstart]
  unfold ChatTemplate.extractSystemPromptAndGeneration
  dsimp only
  have hlength : (tpl.systemPrompt none ++ tpl.message none user ++ tpl.message none user).length -
      (tpl.systemPrompt none ++ tpl.message none user).length = (tpl.message none user).length := by
    rw [@List.length_append _ (tpl.systemPrompt none ++ tpl.message none user), Nat.add_sub_cancel_left]
  rw [← huser, htoken1, htoken2, htoken3, List.drop_left, hlength]
  unfold ChatTemplate.dropLastTokens
  rw [if_neg hpos.ne', List.length_append, Nat.add_sub_cancel, List.take_left]

theorem systemPrompt_eq (d : Dataset C T V) : d.systemPrompt = d.tpl.systemPrompt none :=
  congrArg Prod.fst (extract_eq d.tpl d.empty)

theorem apply_singleton (tpl : ChatTemplate C T) (tools : Option T) (m : Message C) :
    tpl.apply tools false [m] = tpl.start tools m ++ tpl.message tools m := by
  simp [ChatTemplate.apply]

theorem messageIds_zero (d : Dataset C T V) (m : Message C) (tools : Option T) :
    d.messageIds 0 m tools = d.tpl.start tools m ++ d.tpl.message tools m := by
  unfold Dataset.messageIds
  dsimp only
  rw [if_neg (fun h => h.1 rfl), apply_singleton]

theorem messageIds_of_ne_zero (d : Dataset C T V) {i : ℕ} (hi : i ≠ 0) (m : Message C) :
    d.messageIds i m none = d.tpl.message none m := by
  unfold Dataset.messageIds
  dsimp only
  rw [apply_singleton]
  by_cases hrole : m.role = .system
  · have hstart : d.tpl.start none m = [] := if_pos hrole
    rw [if_neg fun h => h.2 hrole, hstart, List.nil_append]
  · have hstart : d.tpl.start none m = d.tpl.systemPrompt none := if_neg hrole
    rw [if_pos ⟨hi, hrole⟩, hstart, systemPrompt_eq, List.drop_left]

theorem messagesFrom_cons {α : Type} {f : ℕ → Message C → Option T → List α} {g : Message C → List α}
    (h : ∀ i, i ≠ 0 → ∀ m, f i m none = g m) (tools : Option T) (m : Message C) (messages : List (Message C)) :
    Dataset.messagesFrom f tools (m :: messages) = f 0 m tools ++ messages.flatMap g := by
  have hrest : ∀ (k : ℕ), k ≠ 0 →
      ((messages.zipIdx k).map fun x => f x.2 x.1 (if x.2 = 0 then tools else none)).flatten = messages.flatMap g := by
    induction messages with
    | nil => exact fun _ _ => rfl
    | cons m messages ih =>
      intro k hk
      rw [List.zipIdx_cons, List.map_cons, List.flatten_cons, ih (k + 1) k.succ_ne_zero, if_neg hk, h k hk,
        List.flatMap_cons]
  unfold Dataset.messagesFrom
  rw [List.zipIdx_cons, List.map_cons, List.flatten_cons, if_pos rfl, Nat.zero_add, hrest 1 Nat.one_ne_zero]

/-- **The messages one by one** are the whole conversation. -/
theorem inputIds_eq (d : Dataset C T V) (tools : Option T) (m : Message C) (messages : List (Message C)) :
    d.inputIds tools (m :: messages) = d.tpl.apply tools false (m :: messages) := by
  unfold Dataset.inputIds
  rw [messagesFrom_cons (g := d.tpl.message none) fun i hi m => messageIds_of_ne_zero d hi m, messageIds_zero]
  simp [ChatTemplate.apply]

end concatenation

/-! ## The loss mask -/

section masks

variable {d : Dataset C T V} {tools : Option T} {m : Message C} {messages : List (Message C)}

def Trained (x : ℕ) (part : Part) : Prop := x = 1 → part = .content .assistant

end masks

/-! ## Padding and truncation -/

section windows

variable {d : Dataset C T V} {s t : Sample V} {w k : ℕ}

end windows

/-! ## The two modes -/

section modes

variable {d : Dataset C T V} {tools : Option T} {m : Message C} {messages : List (Message C)}

/-- No default system prompt is in front of an assistant message, unless it is cut to the length of the generation
prompt. -/
def FirstRegular (d : Dataset C T V) (tools : Option T) (messages : List (Message C)) : Prop :=
  ∀ m, messages.head? = some m → m.role = .assistant →
    d.tpl.start tools m = [] ∨ d.maxLength ≤ (d.tpl.header .assistant).length

/-- The conversation is rejected, or it is not cut on the left and its first message is regular. -/
def Regular (d : Dataset C T V) (tools : Option T) (messages : List (Message C)) : Prop :=
  messages = [] ∨ (d.maxLength < (d.tpl.apply tools false messages).length ∧ d.truncation = .error) ∨
    (¬ (d.maxLength < (d.tpl.apply tools false messages).length ∧ d.truncation = .left) ∧ FirstRegular d tools messages)

end modes

end Opd.Verl.SftDataset

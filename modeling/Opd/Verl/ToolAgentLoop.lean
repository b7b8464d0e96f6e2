import Mathlib.Algebra.Ring.Int.Defs
import Opd.Lib.Tensor
import Opd.Verl.PartialRollout

/-!
# The tool agent loop

`ToolAgentLoop.run` alternates between the LLM and the tools. All tokens are appended to
`prompt_ids`; `response_mask` has an entry for each token after the first prompt, and the
split into prompt and response is made at the end, from its length.

* `handleGeneratingState`, `handleProcessingToolsState`: the handlers.
* `step`: the loop, on what the chat template, the LLM and the tools return.
* `finalize`: the output from the lists of `AgentData`.
-/

namespace Opd.Verl.ToolAgentLoop

open Lib PartialRollout

variable {P E I : Type}

inductive Raised
  | valueError (message : String)
  | notImplementedError (message : String)
  | typeError (message : String)
  deriving DecidableEq

/-- `FunctionCall`. -/
structure FunctionCall where
  name : String
  arguments : String
  deriving DecidableEq

/-- `ToolResponse`. An image of the list can be `None`. -/
structure ToolResponse (I : Type) where
  text : Option String := none
  image : Option (List (Option I)) := none
  video : Option (List I) := none

/-- The content of a message: a text, or parts of the types image, video and text. -/
inductive Content
  | text (text : String)
  | parts (parts : List (String × Option String))
  deriving DecidableEq

structure Message where
  role : String
  content : Content
  deriving DecidableEq

/-- The options of `rollout_config` that the loop reads. -/
structure Config where
  maxUserTurns : Option ℤ
  maxAssistantTurns : Option ℤ
  maxParallelCalls : ℕ
  responseLength : ℕ
  /-- Whether the processor has an `image_processor`. -/
  imageProcessor : Bool

/-- `AgentState`. -/
inductive AgentState
  | pending
  | generating
  | processingTools
  | terminated
  deriving DecidableEq

/-- What the LLM was sent and what it produced. -/
structure Exchange where
  promptIds : List ℤ
  tokenIds : List ℤ
  deriving DecidableEq

/-- `AgentData`, with the exchanges so far. -/
structure AgentData (P E I : Type) where
  messages : List Message
  imageData : Option (List I)
  numPreempted : Option ℤ := none
  promptIds : List ℤ := []
  responseIds : List ℤ := []
  responseMask : List ℕ := []
  responseLogprobs : List P := []
  turnScores : List P := []
  toolRewards : List P := []
  userTurns : ℕ := 0
  assistantTurns : ℕ := 0
  toolCalls : List FunctionCall := []
  routedExperts : Option (List E) := none
  extraFields : Dict String (Option ℤ) := .empty
  exchanges : List Exchange := []

/-- What the code outside the loop returns: the chat template, the LLM with the tool calls
found in its output, and the tools with the tokens of their formatted responses. -/
inductive Event (P E I : Type)
  | template (promptIds : List ℤ)
  | generated (output : TokenOutput P E) (toolCalls : List FunctionCall)
  | toolsRun (responses : List (ToolResponse I × Option P)) (responseIds : List ℤ)

/-- `AgentLoopOutput`. -/
structure AgentLoopOutput (P E I : Type) where
  promptIds : List ℤ
  responseIds : List ℤ
  responseMask : List ℕ
  images : Option (List I)
  responseLogprobs : Option (List P)
  numTurns : ℕ
  numPreempted : Option ℤ
  routedExperts : Option (List E)
  extraFields : Dict String (Option ℤ)
  turnScores : List P
  toolRewards : List P

/-! ## The handlers -/

/-- `SPEC_DECODE_EXTRA_KEYS`. -/
def specDecodeExtraKeys : List String :=
  ["spec_num_draft_tokens", "spec_num_accepted_tokens", "spec_num_verify_steps"]

/-- `agent_data.extra_fields[key] = int(agent_data.extra_fields[key]) + int(output.extra_fields[key])`,
for a key that both have. -/
def addCount (new old : Dict String (Option ℤ)) (key : String) : Except Raised (Dict String (Option ℤ)) :=
  match new.get? key, old.get? key with
  | some (some n), some (some m) => .ok (old.update key fun _ => some (m + n))
  | some none, some _ | some _, some none =>
    .error (.typeError "int() argument must be a string, a bytes-like object or a real number, not 'NoneType'")
  | _, _ => .ok old

/-- The extra fields after an output: the first one's, then the newest version and the sums
of the counts. -/
def mergeExtraFields (old new : Dict String (Option ℤ)) : Except Raised (Dict String (Option ℤ)) :=
  if old.items = [] then .ok (new.items.foldl (fun d item => d.update item.1 fun _ => item.2) old)
  else
    let old := match (new.get? "max_global_steps").join with
      | some n => if n ≠ 0 then old.update "max_global_steps" fun _ => some n else old
      | none => old
    specDecodeExtraKeys.foldlM (addCount new) old

/-- `self.max_user_turns and agent_data.user_turns >= self.max_user_turns`. -/
def turnsReached (limit : Option ℤ) (turns : ℕ) : Prop := ∃ n, limit = some n ∧ n ≠ 0 ∧ n ≤ turns

instance (limit : Option ℤ) (turns : ℕ) : Decidable (turnsReached limit turns) :=
  match limit with
  | none => isFalse (by rintro ⟨n, h, -⟩; cases h)
  | some n =>
    decidable_of_iff (n ≠ 0 ∧ n ≤ turns) ⟨fun h => ⟨n, rfl, h⟩, by rintro ⟨n', h, hle⟩; cases h; exact hle⟩

/-- `agent_data` with the output of the LLM. -/
def AgentData.record (d : AgentData P E I) (extraFields : Dict String (Option ℤ)) (output : TokenOutput P E) :
    AgentData P E I :=
  { d with
    numPreempted := match d.numPreempted with
      | none => some (output.numPreempted.getD (-1))
      | some n => some (n + output.numPreempted.getD 0)
    extraFields
    assistantTurns := d.assistantTurns + 1
    responseIds := output.tokenIds
    promptIds := d.promptIds ++ output.tokenIds
    responseMask := d.responseMask ++ List.replicate output.tokenIds.length 1
    responseLogprobs := d.responseLogprobs ++ output.logProbs.getD []
    routedExperts := output.routedExperts.or d.routedExperts
    exchanges := d.exchanges ++ [⟨d.promptIds, output.tokenIds⟩] }

/-- `_handle_generating_state`. -/
def handleGeneratingState (cfg : Config) (d : AgentData P E I) (output : TokenOutput P E)
    (toolCalls : List FunctionCall) : Except Raised (AgentState × AgentData P E I) :=
  (mergeExtraFields d.extraFields output.extraFields).map fun extraFields =>
    let d := d.record extraFields output
    if cfg.responseLength ≤ d.responseMask.length then (.terminated, d)
    else if turnsReached cfg.maxAssistantTurns d.assistantTurns then (.terminated, d)
    else if turnsReached cfg.maxUserTurns d.userTurns then (.terminated, d)
    else (if toolCalls = [] then .terminated else .processingTools, { d with toolCalls })

/-- Python's `x or default` and `if x` for an optional list. -/
def isTruthy {α : Type} (xs : Option (List α)) : Bool := xs.any fun xs => !xs.isEmpty

def processResponse (cfg : Config) (response : ToolResponse I × Option P) :
    Except Raised (Message × List I × Option P) :=
  let hasImage := isTruthy response.1.image
  let hasVideo := isTruthy response.1.video
  if (hasImage || hasVideo) && !cfg.imageProcessor then
    .error (.valueError <|
      "Multimedia data can only be processed by `processor`, but the processor is None. " ++
      "This error is often caused if you are using a LLM model but your tool returns multimodal " ++
      "data. Plase use a vlm as the base model.")
  else if hasVideo then
    .error (.notImplementedError "Multimedia type 'video' is not currently supported. Only 'image' is supported.")
  else
    let text := response.1.text.getD ""
    let content := if hasImage then
        .parts (("image", none) :: if text = "" then [] else [("text", some text)])
      else .text text
    .ok (⟨"tool", content⟩, (response.1.image.getD []).filterMap id, response.2)

/-- `_handle_processing_tools_state`, with the tokens of the formatted responses. -/
def handleProcessingToolsState [Zero P] (cfg : Config) (d : AgentData P E I)
    (responses : List (ToolResponse I × Option P)) (responseIds : List ℤ) :
    Except Raised (AgentState × AgentData P E I) :=
  (responses.mapM (processResponse cfg)).map fun processed =>
    let newImages := processed.flatMap fun p => p.2.1
    let d := { d with
      messages := d.messages ++ processed.map Prod.fst
      toolRewards := d.toolRewards ++ processed.filterMap fun p => p.2.2 }
    if cfg.responseLength ≤ d.responseMask.length + responseIds.length then (.terminated, d)
    else (.generating, { d with
      imageData := if newImages.isEmpty then d.imageData else some (d.imageData.getD [] ++ newImages)
      promptIds := d.promptIds ++ responseIds
      responseMask := d.responseMask ++ List.replicate responseIds.length 0
      responseLogprobs := if d.responseLogprobs.isEmpty then d.responseLogprobs
        else d.responseLogprobs ++ List.replicate responseIds.length 0
      userTurns := d.userTurns + 1 })

/-! ## The loop -/

/-- Why a run has no output: a handler raises, or what was returned does not fit the state. -/
inductive Stop
  | raised (raised : Raised)
  | unexpected
  deriving DecidableEq

def step [Zero P] (cfg : Config) (s : AgentState × AgentData P E I) (event : Event P E I) :
    Except Stop (AgentState × AgentData P E I) :=
  match s.1, event with
  | .pending, .template promptIds => .ok (.generating, { s.2 with promptIds })
  | .generating, .generated output toolCalls => (handleGeneratingState cfg s.2 output toolCalls).mapError .raised
  | .processingTools, .toolsRun responses responseIds =>
    -- a response for each call that is made
    if responses.length = (s.2.toolCalls.take cfg.maxParallelCalls).length then
      (handleProcessingToolsState cfg s.2 responses responseIds).mapError .raised
    else .error .unexpected
  | _, _ => .error .unexpected

/-- `agent_data.prompt_ids[-len(agent_data.response_mask):]`. For the length 0 that is the
whole list. -/
def finalResponseIds (d : AgentData P E I) : List ℤ :=
  if d.responseMask.length = 0 then d.promptIds else takeLast d.responseMask.length d.promptIds

/-- The output that `run` builds. -/
def finalize (cfg : Config) (d : AgentData P E I) : AgentLoopOutput P E I :=
  let promptIds := d.promptIds.take (d.promptIds.length - d.responseMask.length)
  { promptIds
    responseIds := (finalResponseIds d).take cfg.responseLength
    responseMask := d.responseMask.take cfg.responseLength
    images := d.imageData
    responseLogprobs := if d.responseLogprobs.isEmpty then none else some (d.responseLogprobs.take cfg.responseLength)
    numTurns := d.userTurns + d.assistantTurns + 1
    numPreempted := d.numPreempted
    routedExperts := d.routedExperts.map fun rows => rows.take (promptIds.length + cfg.responseLength)
    extraFields := d.extraFields
    turnScores := d.turnScores
    toolRewards := d.toolRewards }

def runLoop [Zero P] (cfg : Config) (messages : List Message) (imageData : Option (List I))
    (events : List (Event P E I)) : Except Stop (AgentData P E I) := do
  let s ← events.foldlM (step cfg) (.pending, { messages, imageData })
  if s.1 = .terminated then .ok s.2 else .error .unexpected

/-- `ToolAgentLoop.run`. -/
def run [Zero P] (cfg : Config) (messages : List Message) (imageData : Option (List I))
    (events : List (Event P E I)) : Except Stop (AgentLoopOutput P E I) :=
  (runLoop cfg messages imageData events).map (finalize cfg)

end Opd.Verl.ToolAgentLoop

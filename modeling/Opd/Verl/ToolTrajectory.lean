import Opd.Verl.ToolAgentLoop

/-!
# The trajectory of the tool agent loop

After every turn `prompt_ids` is the conversation with the LLM and `response_mask` says
which of its tokens the LLM produced. The split at the end goes wrong when the mask is
empty, and the log-probs have gaps when an output comes without them.

* `recorded_generated`, `recorded_toolsRun`: what one turn adds.
* `recorded_of_steps`: the lists of `AgentData` over a whole run.
* `trajectory_iff`: when the output is the trajectory.
-/

namespace Opd.Verl.ToolAgentLoop

open Lib PartialRollout

variable {P E I : Type}

/-! ## The trajectory -/

/-- The position in the conversation has a token that the LLM produced. -/
def Produced (exchanges : List Exchange) (i : ℕ) : Prop :=
  ∃ e ∈ exchanges, e.promptIds.length ≤ i ∧ i < e.promptIds.length + e.tokenIds.length

instance (exchanges : List Exchange) (i : ℕ) : Decidable (Produced exchanges i) :=
  inferInstanceAs (Decidable (∃ e ∈ exchanges, _))

/-- **The output is the trajectory**: the split of the conversation, and what the masks and
the log-probs say about it. -/
structure Trajectory (cfg : Config) (d : AgentData P E I) (output : AgentLoopOutput P E I) : Prop where
  prompt : d.exchanges.head?.map Exchange.promptIds = some output.promptIds
  length : output.responseIds.length = output.responseMask.length
  bound : output.responseMask.length ≤ cfg.responseLength
  mask : ∀ j b, output.responseMask[j]? = some b →
    b = if Produced d.exchanges (output.promptIds.length + j) then 1 else 0
  logprobs : ∀ logprobs, output.responseLogprobs = some logprobs → logprobs.length = output.responseIds.length
  sequence : d.exchanges.getLast?.map (fun e => e.promptIds ++ e.tokenIds) =
    some (output.promptIds ++ finalResponseIds d)

namespace Event

def tokens : Event P E I → List ℤ
  | .template _ => []
  | .generated output _ => output.tokenIds
  | .toolsRun _ responseIds => responseIds

/-- The log-probs of an output are one for each token, if there are any. -/
def WellFormed : Event P E I → Prop
  | .generated output _ => ∀ logProbs, output.logProbs = some logProbs → logProbs.length = output.tokenIds.length
  | _ => True

def mask : Event P E I → List ℕ
  | .template _ => []
  | .generated output _ => List.replicate output.tokenIds.length 1
  | .toolsRun _ responseIds => List.replicate responseIds.length 0

/-- The number of tokens with a log-prob, after `n` such tokens: those of an output that
comes with log-probs, and those of the tools once there are some. -/
def logged (n : ℕ) : Event P E I → ℕ
  | .template _ => n
  | .generated output _ => if output.logProbs = none then n else n + output.tokenIds.length
  | .toolsRun _ responseIds => if n = 0 then n else n + responseIds.length

end Event

/-- The events without a last answer of the tools: the LLM never sees it. -/
def answered (events : List (Event P E I)) : List (Event P E I) :=
  match events.getLast? with
  | some (.toolsRun _ _) => events.dropLast
  | _ => events

def responseTokens (events : List (Event P E I)) : List ℤ := (answered events).flatMap Event.tokens

def loggedTokens (events : List (Event P E I)) : ℕ := (answered events).foldl Event.logged 0

/-- The mask is not empty, unless the prompt is; and none, all or at least `response_length`
of the response tokens have a log-prob. -/
def SplitsWell (cfg : Config) : List (Event P E I) → Prop
  | .template promptIds :: events =>
    (promptIds = [] ∨ responseTokens events ≠ []) ∧
      (loggedTokens events = 0 ∨ loggedTokens events = (responseTokens events).length ∨
        cfg.responseLength ≤ loggedTokens events)
  | _ => False

/-! ## What the handlers add -/

variable {cfg : Config} {d d' : AgentData P E I} {prompt : List ℤ} {state : AgentState}
  {output : TokenOutput P E} {toolCalls : List FunctionCall} {responses : List (ToolResponse I × Option P)}
  {responseIds : List ℤ} {turns : List (Event P E I)}

/-- The lists of `AgentData` after some turns of the LLM and the tools. -/
structure Recorded (prompt : List ℤ) (turns : List (Event P E I)) (d : AgentData P E I) : Prop where
  promptIds : d.promptIds = prompt ++ turns.flatMap Event.tokens
  responseMask : d.responseMask = turns.flatMap Event.mask
  responseLogprobs : d.responseLogprobs.length = turns.foldl Event.logged 0
  first : (d.exchanges.head?.map Exchange.promptIds).getD d.promptIds = prompt
  produced : ∀ j b, d.responseMask[j]? = some b → b = if Produced d.exchanges (prompt.length + j) then 1 else 0
  inside : ∀ e ∈ d.exchanges, e.promptIds.length + e.tokenIds.length ≤ prompt.length + d.responseMask.length

def UpToDate (d : AgentData P E I) : Prop :=
  d.exchanges.getLast?.map (fun e => e.promptIds ++ e.tokenIds) = some d.promptIds

theorem length_mask (e : Event P E I) : e.mask.length = e.tokens.length := by
  cases e <;> simp [Event.mask, Event.tokens]

theorem length_flatMap_mask (turns : List (Event P E I)) :
    (turns.flatMap Event.mask).length = (turns.flatMap Event.tokens).length := by
  rw [List.length_flatMap, List.length_flatMap]
  exact congrArg List.sum (List.map_congr_left fun e _ => length_mask e)

theorem Recorded.length_promptIds (h : Recorded prompt turns d) :
    d.promptIds.length = prompt.length + d.responseMask.length := by
  rw [h.promptIds, h.responseMask, List.length_append, length_flatMap_mask]

theorem not_produced {exchanges : List Exchange} {n i : ℕ}
    (h : ∀ e ∈ exchanges, e.promptIds.length + e.tokenIds.length ≤ n) (hi : n ≤ i) : ¬ Produced exchanges i := by
  rintro ⟨e, he, -, hlt⟩
  have := h e he
  omega

theorem produced_append {exchanges new : List Exchange} {i : ℕ} :
    Produced (exchanges ++ new) i ↔ Produced exchanges i ∨ Produced new i := by
  unfold Produced
  simp only [List.mem_append, or_and_right, exists_or]

theorem produced_singleton {e : Exchange} {i : ℕ} :
    Produced [e] i ↔ e.promptIds.length ≤ i ∧ i < e.promptIds.length + e.tokenIds.length := by
  unfold Produced
  simp only [List.mem_singleton, exists_eq_left]

theorem exchanges_record (extraFields : Dict String (Option ℤ)) (d : AgentData P E I) (output : TokenOutput P E) :
    (d.record extraFields output).exchanges = d.exchanges ++ [⟨d.promptIds, output.tokenIds⟩] := rfl

theorem responseMask_record (extraFields : Dict String (Option ℤ)) (d : AgentData P E I) (output : TokenOutput P E) :
    (d.record extraFields output).responseMask = d.responseMask ++ List.replicate output.tokenIds.length 1 := rfl

/-- **A turn of the LLM.** -/
theorem recorded_generated (extraFields : Dict String (Option ℤ)) (h : Recorded prompt turns d)
    (hwf : (Event.generated output toolCalls : Event P E I).WellFormed) :
    Recorded prompt (turns ++ [.generated output toolCalls]) (d.record extraFields output) where
  promptIds := by
    show d.promptIds ++ output.tokenIds = _
    rw [h.promptIds, List.flatMap_append, List.append_assoc, List.flatMap_singleton]
    rfl
  responseMask := by
    show d.responseMask ++ List.replicate output.tokenIds.length 1 = _
    rw [h.responseMask, List.flatMap_append, List.flatMap_singleton]
    rfl
  responseLogprobs := by
    show (d.responseLogprobs ++ output.logProbs.getD []).length = _
    rw [List.foldl_append, ← h.responseLogprobs, List.length_append, List.foldl_cons, List.foldl_nil]
    rcases hlog : output.logProbs with _ | logProbs
    · simp [Event.logged, hlog]
    · simp [Event.logged, hlog, hwf logProbs hlog]
  first := by
    have hfirst := h.first
    rw [exchanges_record]
    cases hex : d.exchanges with
    | nil =>
      rw [hex] at hfirst
      exact hfirst
    | cons e es =>
      rw [hex] at hfirst
      exact hfirst
  produced := by
    intro j b hj
    have hlen := h.length_promptIds
    rw [responseMask_record, List.getElem?_append] at hj
    rw [exchanges_record]
    simp only [produced_append, produced_singleton, hlen]
    by_cases hlt : j < d.responseMask.length
    · -- an old token: the new exchange begins after it
      rw [if_pos hlt] at hj
      rw [h.produced j b hj]
      refine if_congr ?_ rfl rfl
      constructor
      · exact .inl
      · rintro (hold | ⟨hle, -⟩)
        · exact hold
        · omega
    · rw [if_neg hlt, List.getElem?_replicate] at hj
      split at hj
      · obtain rfl := Option.some.inj hj
        rw [if_pos (.inr ⟨by omega, by omega⟩)]
      · cases hj
  inside := by
    intro e he
    rw [responseMask_record, List.length_append, List.length_replicate]
    rw [exchanges_record] at he
    rcases List.mem_append.1 he with he | he
    · have := h.inside e he
      omega
    · obtain rfl := List.mem_singleton.1 he
      have hlen := h.length_promptIds
      show d.promptIds.length + output.tokenIds.length ≤ _
      omega

theorem upToDate_generated (extraFields : Dict String (Option ℤ)) (d : AgentData P E I) (output : TokenOutput P E) :
    UpToDate (d.record extraFields output) := by
  unfold UpToDate
  rw [exchanges_record, List.getLast?_concat]
  rfl

theorem recorded_toolsRun (h : Recorded prompt turns d) (hup : UpToDate d)
    (hids : d'.promptIds = d.promptIds ++ responseIds)
    (hmask : d'.responseMask = d.responseMask ++ List.replicate responseIds.length 0)
    (hlog : d'.responseLogprobs.length =
      if d.responseLogprobs.length = 0 then d.responseLogprobs.length
      else d.responseLogprobs.length + responseIds.length)
    (hex : d'.exchanges = d.exchanges) : Recorded prompt (turns ++ [.toolsRun responses responseIds]) d' where
  promptIds := by
    rw [hids, h.promptIds, List.flatMap_append, List.append_assoc, List.flatMap_singleton]
    rfl
  responseMask := by
    rw [hmask, h.responseMask, List.flatMap_append, List.flatMap_singleton]
    rfl
  responseLogprobs := by
    rw [hlog, List.foldl_append, ← h.responseLogprobs]
    rfl
  first := by
    have hfirst := h.first
    rw [hex]
    cases hd : d.exchanges with
    | nil =>
      unfold UpToDate at hup
      rw [hd] at hup
      cases hup
    | cons e es =>
      rw [hd] at hfirst
      exact hfirst
  produced := by
    intro j b hj
    rw [hmask, List.getElem?_append] at hj
    rw [hex]
    -- the new positions lie behind all that the LLM has produced
    by_cases hlt : j < d.responseMask.length
    · rw [if_pos hlt] at hj
      exact h.produced j b hj
    · rw [if_neg hlt, List.getElem?_replicate] at hj
      split at hj
      · obtain rfl := Option.some.inj hj
        rw [if_neg (not_produced h.inside (by omega))]
      · cases hj
  inside := by
    intro e he
    rw [hex] at he
    have := h.inside e he
    rw [hmask, List.length_append]
    omega

theorem Recorded.congr (h : Recorded prompt turns d) (hids : d'.promptIds = d.promptIds)
    (hmask : d'.responseMask = d.responseMask) (hlog : d'.responseLogprobs = d.responseLogprobs)
    (hex : d'.exchanges = d.exchanges) : Recorded prompt turns d' where
  promptIds := hids.trans h.promptIds
  responseMask := hmask.trans h.responseMask
  responseLogprobs := hlog ▸ h.responseLogprobs
  first := by
    rw [hex, hids]
    exact h.first
  produced := by
    rw [hmask, hex]
    exact h.produced
  inside := by
    rw [hmask, hex]
    exact h.inside

theorem UpToDate.congr (h : UpToDate d) (hids : d'.promptIds = d.promptIds) (hex : d'.exchanges = d.exchanges) :
    UpToDate d' := by
  unfold UpToDate at h ⊢
  rw [hids, hex]
  exact h

/-! ## Runs -/

theorem answered_generated (turns : List (Event P E I)) (output : TokenOutput P E) (toolCalls : List FunctionCall) :
    answered (turns ++ [.generated output toolCalls]) = turns ++ [.generated output toolCalls] := by
  unfold answered
  rw [List.getLast?_concat]

theorem answered_toolsRun (turns : List (Event P E I)) (responses : List (ToolResponse I × Option P))
    (responseIds : List ℤ) : answered (turns ++ [.toolsRun responses responseIds]) = turns := by
  unfold answered
  rw [List.getLast?_concat]
  exact List.dropLast_concat

/-- `_handle_generating_state` records the output, and ends the loop or hands over to the tools. -/
theorem handleGeneratingState_ok (h : handleGeneratingState cfg d output toolCalls = .ok (state, d')) :
    (state = .terminated ∨ state = .processingTools) ∧
      ∃ extraFields calls, d' = { d.record extraFields output with toolCalls := calls } := by
  unfold handleGeneratingState at h
  rcases hextra : mergeExtraFields d.extraFields output.extraFields with raised | extraFields
  · rw [hextra] at h
    cases h
  · rw [hextra] at h
    have h := Except.ok.inj h
    simp only at h
    split at h
    · cases h
      exact ⟨.inl rfl, extraFields, _, rfl⟩
    · split at h
      · cases h
        exact ⟨.inl rfl, extraFields, _, rfl⟩
      · split at h
        · cases h
          exact ⟨.inl rfl, extraFields, _, rfl⟩
        · cases h
          refine ⟨?_, extraFields, toolCalls, rfl⟩
          split
          · exact .inl rfl
          · exact .inr rfl

variable [Zero P]

theorem length_pad (logProbs : List P) (n : ℕ) :
    (if logProbs.isEmpty then logProbs else logProbs ++ List.replicate n 0).length =
      if logProbs.length = 0 then logProbs.length else logProbs.length + n := by
  cases logProbs with
  | nil => rfl
  | cons p ps => simp only [List.isEmpty_cons, Bool.false_eq_true, if_false, List.length_append,
      List.length_replicate, List.length_cons, Nat.succ_ne_zero]

theorem handleProcessingToolsState_ok
    (h : handleProcessingToolsState cfg d responses responseIds = .ok (state, d')) :
    d'.exchanges = d.exchanges ∧
      ((state = .terminated ∧ d'.promptIds = d.promptIds ∧ d'.responseMask = d.responseMask ∧
          d'.responseLogprobs = d.responseLogprobs) ∨
        (state = .generating ∧ d'.promptIds = d.promptIds ++ responseIds ∧
          d'.responseMask = d.responseMask ++ List.replicate responseIds.length 0 ∧
          d'.responseLogprobs.length = if d.responseLogprobs.length = 0 then d.responseLogprobs.length
            else d.responseLogprobs.length + responseIds.length)) := by
  unfold handleProcessingToolsState at h
  rcases hprocess : responses.mapM (processResponse cfg) with raised | processed
  · rw [hprocess] at h
    cases h
  · rw [hprocess] at h
    have h := Except.ok.inj h
    simp only at h
    split at h
    · cases h
      exact ⟨rfl, .inl ⟨rfl, rfl, rfl, rfl⟩⟩
    · cases h
      exact ⟨rfl, .inr ⟨rfl, rfl, rfl, length_pad _ _⟩⟩

def StateOk (prompt : List ℤ) (turns : List (Event P E I)) : AgentState × AgentData P E I → Prop
  | (.pending, _) => False
  | (.generating, d) => Recorded prompt turns d
  | (.processingTools, d) => Recorded prompt turns d ∧ UpToDate d
  | (.terminated, d) => Recorded prompt (answered turns) d ∧ UpToDate d

theorem stateOk_of_step {s s' : AgentState × AgentData P E I} {e : Event P E I} (hs : StateOk prompt turns s)
    (hwf : e.WellFormed) (h : step cfg s e = .ok s') : StateOk prompt (turns ++ [e]) s' := by
  obtain ⟨state, d⟩ := s
  obtain ⟨state', d'⟩ := s'
  cases state with
  | pending => exact hs.elim
  | terminated => cases e <;> cases h
  | generating =>
    cases e with
    | template ids => cases h
    | toolsRun responses responseIds => cases h
    | generated output toolCalls =>
      simp only [step] at h
      rcases hhandle : handleGeneratingState cfg d output toolCalls with raised | s'
      · rw [hhandle] at h
        cases h
      · rw [hhandle] at h
        cases h
        obtain ⟨hstate, extraFields, calls, rfl⟩ := handleGeneratingState_ok hhandle
        have hrec := recorded_generated extraFields hs hwf
        have hrec' : Recorded prompt (turns ++ [.generated output toolCalls])
            { d.record extraFields output with toolCalls := calls } := hrec.congr rfl rfl rfl rfl
        have hup : UpToDate { d.record extraFields output with toolCalls := calls } :=
          (upToDate_generated extraFields d output).congr rfl rfl
        -- a last answer ends the run, an answer with tool calls goes to the tools
        rcases hstate with rfl | rfl
        · refine ⟨?_, hup⟩
          rw [answered_generated]
          exact hrec'
        · exact ⟨hrec', hup⟩
  | processingTools =>
    cases e with
    | template ids => cases h
    | generated output toolCalls => cases h
    | toolsRun responses responseIds =>
      obtain ⟨hrec, hup⟩ := hs
      simp only [step] at h
      split at h
      · rcases hhandle : handleProcessingToolsState cfg d responses responseIds with raised | s'
        · rw [hhandle] at h
          cases h
        · rw [hhandle] at h
          cases h
          obtain ⟨hex, ⟨rfl, hids, hmask, hlog⟩ | ⟨rfl, hids, hmask, hlog⟩⟩ := handleProcessingToolsState_ok hhandle
          -- the limit is reached: the tool tokens are not recorded, and the LLM does not see them
          · refine ⟨?_, hup.congr hids hex⟩
            rw [answered_toolsRun]
            exact hrec.congr hids hmask hlog hex
          · exact recorded_toolsRun hrec hup hids hmask hlog hex
      · cases h

/-- **The lists of `AgentData`** over a run. -/
theorem recorded_of_steps {s s' : AgentState × AgentData P E I} {events : List (Event P E I)}
    (hs : StateOk prompt turns s) (hwf : ∀ e ∈ events, e.WellFormed)
    (h : events.foldlM (step cfg) s = .ok s') : StateOk prompt (turns ++ events) s' := by
  induction events generalizing s turns with
  | nil =>
    cases h
    rwa [List.append_nil]
  | cons e events ih =>
    rw [List.foldlM_cons] at h
    rcases hstep : step cfg s e with stop | s1
    · rw [hstep] at h
      cases h
    · rw [hstep] at h
      have hs1 := stateOk_of_step hs (hwf e List.mem_cons_self) hstep
      have hrest := ih hs1 (fun e he => hwf e (List.mem_cons_of_mem _ he)) h
      rwa [List.append_assoc] at hrest

/-! ## The output -/

omit [Zero P] in
theorem recorded_start (messages : List Message) (imageData : Option (List I)) (prompt : List ℤ) :
    Recorded prompt [] ({ messages, imageData, promptIds := prompt } : AgentData P E I) where
  promptIds := (List.append_nil prompt).symm
  responseMask := rfl
  responseLogprobs := rfl
  first := rfl
  produced := by
    intro j b hj
    cases hj
  inside := by
    intro e he
    cases he

/-- A run that ends has begun with the template, and has recorded what was answered. -/
theorem recorded_of_runLoop {messages : List Message} {imageData : Option (List I)} {events : List (Event P E I)}
    (hwf : ∀ e ∈ events, e.WellFormed) (h : runLoop cfg messages imageData events = .ok d) :
    ∃ prompt rest, events = .template prompt :: rest ∧ Recorded prompt (answered rest) d ∧ UpToDate d := by
  unfold runLoop at h
  rcases hfold : events.foldlM (step cfg) (.pending, { messages, imageData }) with stop | ⟨state, d'⟩
  · rw [hfold] at h
    cases h
  · rw [hfold] at h
    change (if state = .terminated then Except.ok d' else Except.error Stop.unexpected) = Except.ok d at h
    split at h
    · rename_i hstate
      cases h
      cases events with
      | nil =>
        cases hfold
        cases hstate
      | cons e rest =>
        rw [List.foldlM_cons] at hfold
        cases e with
        | generated output toolCalls => cases hfold
        | toolsRun responses responseIds => cases hfold
        -- only the template leaves the pending state
        | template prompt =>
          have hstart : StateOk prompt []
              (AgentState.generating, ({ messages, imageData, promptIds := prompt } : AgentData P E I)) :=
            recorded_start messages imageData prompt
          have hok := recorded_of_steps hstart (fun e he => hwf e (List.mem_cons_of_mem _ he)) hfold
          rw [hstate, List.nil_append] at hok
          exact ⟨prompt, rest, rfl, hok⟩
    · cases h

omit [Zero P] in
theorem foldl_logged_le (turns : List (Event P E I)) (n : ℕ) :
    turns.foldl Event.logged n ≤ n + (turns.flatMap Event.tokens).length := by
  induction turns generalizing n with
  | nil => exact Nat.le_refl n
  | cons e turns ih =>
    have hrest := ih (Event.logged n e)
    have hone : Event.logged n e ≤ n + e.tokens.length := by
      cases e with
      | template ids => exact Nat.le_refl n
      | generated output toolCalls =>
        simp only [Event.logged, Event.tokens]
        split <;> omega
      | toolsRun responses responseIds =>
        simp only [Event.logged, Event.tokens]
        split <;> omega
    rw [List.foldl_cons, List.flatMap_cons, List.length_append]
    omega

omit [Zero P] in
theorem finalize_promptIds (cfg : Config) (h : Recorded prompt turns d) : (finalize cfg d).promptIds = prompt := by
  show d.promptIds.take (d.promptIds.length - d.responseMask.length) = prompt
  have hlen := h.length_promptIds
  rw [hlen, Nat.add_sub_cancel, h.promptIds, List.take_left]

omit [Zero P] in
theorem finalResponseIds_eq (h : Recorded prompt turns d) :
    finalResponseIds d = if turns.flatMap Event.tokens = [] then prompt else turns.flatMap Event.tokens := by
  have hlen : d.responseMask.length = (turns.flatMap Event.tokens).length := by
    rw [h.responseMask, length_flatMap_mask]
  unfold finalResponseIds takeLast
  rw [hlen, h.promptIds]
  by_cases hnil : turns.flatMap Event.tokens = []
  · rw [if_pos hnil, if_pos (by rw [hnil]; rfl), hnil, List.append_nil]
  · rw [if_neg hnil, if_neg (mt List.length_eq_zero_iff.1 hnil), List.length_append, Nat.add_sub_cancel,
      List.drop_left]

omit [Zero P] in
theorem finalResponseIds_eq_tokens_iff (h : Recorded prompt turns d) :
    finalResponseIds d = turns.flatMap Event.tokens ↔ prompt = [] ∨ turns.flatMap Event.tokens ≠ [] := by
  rw [finalResponseIds_eq h]
  by_cases hnil : turns.flatMap Event.tokens = []
  · rw [if_pos hnil, hnil]
    exact (or_iff_left (not_not_intro rfl)).symm
  · rw [if_neg hnil]
    exact iff_of_true rfl (.inr hnil)

omit [Zero P] in
theorem logprobs_iff (cfg : Config) (h : Recorded prompt turns d)
    (hsame : finalResponseIds d = turns.flatMap Event.tokens) :
    (∀ logprobs, (finalize cfg d).responseLogprobs = some logprobs →
        logprobs.length = (finalize cfg d).responseIds.length) ↔
      turns.foldl Event.logged 0 = 0 ∨ turns.foldl Event.logged 0 = (turns.flatMap Event.tokens).length ∨
        cfg.responseLength ≤ turns.foldl Event.logged 0 := by
  have hlog := h.responseLogprobs
  have hlogprobs : (finalize cfg d).responseLogprobs =
      if d.responseLogprobs.isEmpty then none else some (d.responseLogprobs.take cfg.responseLength) := rfl
  have hlenIds : (finalize cfg d).responseIds.length = min cfg.responseLength (turns.flatMap Event.tokens).length := by
    rw [← hsame]
    exact List.length_take
  rw [hlogprobs, hlenIds]
  constructor
  · intro hall
    -- an empty list of log-probs is returned as none
    rcases hprobs : d.responseLogprobs with _ | ⟨p, ps⟩
    · rw [hprobs] at hlog
      exact .inl hlog.symm
    · rw [hprobs] at hall hlog
      have hcount := hall _ rfl
      rw [List.length_take, hlog] at hcount
      omega
  · intro hcount logprobs hprobs
    split at hprobs
    · cases hprobs
    · rename_i hne
      obtain rfl := Option.some.inj hprobs
      have hpos : d.responseLogprobs.length ≠ 0 := by
        intro hzero
        rw [List.length_eq_zero_iff.1 hzero] at hne
        exact hne rfl
      have hle := foldl_logged_le turns 0
      rw [List.length_take]
      omega

omit [Zero P] in
theorem trajectory_iff_of_recorded (cfg : Config) (h : Recorded prompt turns d) (hup : UpToDate d) :
    Trajectory cfg d (finalize cfg d) ↔
      (prompt = [] ∨ turns.flatMap Event.tokens ≠ []) ∧
        (turns.foldl Event.logged 0 = 0 ∨ turns.foldl Event.logged 0 = (turns.flatMap Event.tokens).length ∨
          cfg.responseLength ≤ turns.foldl Event.logged 0) := by
  have hprompt := finalize_promptIds cfg h
  rw [← finalResponseIds_eq_tokens_iff h]
  constructor
  · intro ht
    -- the conversation is the prompt and the tokens, and also the two parts of the output
    have hseq := hup.symm.trans ht.sequence
    rw [hprompt, h.promptIds] at hseq
    have hsame := (List.append_cancel_left (Option.some.inj hseq)).symm
    exact ⟨hsame, (logprobs_iff cfg h hsame).1 ht.logprobs⟩
  · rintro ⟨hsame, hcount⟩
    have hmask : d.responseMask.length = (finalResponseIds d).length := by
      rw [hsame, h.responseMask, length_flatMap_mask]
    have hlenIds : (finalize cfg d).responseIds.length = min cfg.responseLength (finalResponseIds d).length :=
      List.length_take
    have hlenMask : (finalize cfg d).responseMask.length = min cfg.responseLength d.responseMask.length :=
      List.length_take
    constructor
    · rw [hprompt]
      have hfirst := h.first
      rcases hex : d.exchanges with _ | ⟨e, es⟩
      · unfold UpToDate at hup
        rw [hex] at hup
        cases hup
      · rw [hex] at hfirst
        exact congrArg some hfirst
    · rw [hlenIds, hlenMask, hmask]
    · rw [hlenMask]
      omega
    · intro j b hj
      rw [hprompt]
      refine h.produced j b ?_
      change (d.responseMask.take cfg.responseLength)[j]? = some b at hj
      rw [List.getElem?_take] at hj
      split at hj
      · exact hj
      · cases hj
    · exact (logprobs_iff cfg h hsame).2 hcount
    · rw [hprompt, hsame, ← h.promptIds]
      exact hup

/-- **When the output is the trajectory**: for every run, exactly when the mask is not
empty (or the prompt is) and the log-probs have no gap that shows. -/
theorem trajectory_iff (cfg : Config) (messages : List Message) (imageData : Option (List I))
    (events : List (Event P E I)) (d : AgentData P E I) (hwf : ∀ e ∈ events, e.WellFormed)
    (h : runLoop cfg messages imageData events = .ok d) :
    run cfg messages imageData events = .ok (finalize cfg d) ∧
      (Trajectory cfg d (finalize cfg d) ↔ SplitsWell cfg events) := by
  obtain ⟨prompt, rest, rfl, hrec, hup⟩ := recorded_of_runLoop hwf h
  refine ⟨?_, trajectory_iff_of_recorded cfg hrec hup⟩
  unfold run
  rw [h]
  rfl

def config : Config := ⟨none, none, 1, 8, false⟩

def toolRun : List (Event ℤ Unit Unit) :=
  [.template [1, 2], .generated { tokenIds := [3], logProbs := some [-1] } [⟨"search", "[]"⟩],
    .toolsRun [({ text := some "found" }, none)] [4, 5], .generated { tokenIds := [6], logProbs := some [-2] } []]

theorem toolRun_wellFormed : ∀ e ∈ toolRun, e.WellFormed := by
  simp [toolRun, Event.WellFormed]

theorem trajectory_toolRun : ∃ d, run config [] none toolRun = .ok (finalize config d) ∧
    (Trajectory config d (finalize config d) ↔ SplitsWell config toolRun) := by
  have hrun : ∃ d, runLoop config [] none toolRun = .ok d := ⟨_, rfl⟩
  obtain ⟨d, hd⟩ := hrun
  exact ⟨d, trajectory_iff config [] none toolRun d toolRun_wellFormed hd⟩

def emptyRun : List (Event ℤ Unit Unit) := [.template [1, 2], .generated { tokenIds := [] } []]

/-- **The prompt as the response**: with an empty mask the slice from the end is the whole
prompt. -/
theorem prompt_as_response :
    ¬ ∀ (cfg : Config) (events : List (Event ℤ Unit Unit)) (d : AgentData ℤ Unit Unit),
      (∀ e ∈ events, e.WellFormed) → runLoop cfg [] none events = .ok d → Trajectory cfg d (finalize cfg d) := by
  intro hall
  have hrun : ∃ d, runLoop config [] none emptyRun = .ok d ∧
      (finalize config d).responseIds = [1, 2] ∧ (finalize config d).responseMask = [] := ⟨_, rfl, rfl, rfl⟩
  obtain ⟨d, hd, hids, hmask⟩ := hrun
  have hlength := (hall config emptyRun d (by simp [emptyRun, Event.WellFormed]) hd).length
  rw [hids, hmask] at hlength
  cases hlength

end Opd.Verl.ToolAgentLoop

import Opd.Lib.Loops
import Opd.Verl.ToolTrajectory

/-!
# The end of the tool agent loop

The response budget bounds the turns of the LLM: a turn without tokens has no tool calls, so that each turn before the
last one adds a token to the mask, and the tools never shorten it. What the LLM, the tool parser and the tools answer is
up to a world, which sees the agent data and the number of the pass.

* `pays_generations`: the remaining response pays for each turn of the LLM.
* `pays_passes`: and for each pass of the loop.
* `stateLoop_ends`: the loop ends, and when it ends without an error.
-/

namespace Opd.Verl.ToolAgentLoop

open Lib PartialRollout

variable {P E I : Type}

/-- What the code outside the loop answers, in each pass. -/
structure World (P E I : Type) where
  applyChatTemplate : ℕ → AgentData P E I → List ℤ
  generate : ℕ → AgentData P E I → TokenOutput P E
  extractToolCalls : ℕ → List ℤ → List FunctionCall
  callTool : ℕ → AgentData P E I → FunctionCall → ToolResponse I × Option P
  /-- The tokens of the formatted tool responses. -/
  formatResponses : ℕ → AgentData P E I → List ℤ

/-- `while state != AgentState.TERMINATED`. -/
def stateLoop [Zero P] (cfg : Config) (world : World P E I) : WhileLoop (AgentState × AgentData P E I) Stop where
  running := fun s => s.1 ≠ .terminated
  body := fun n s =>
    match s.1 with
    | .pending => step cfg s (.template (world.applyChatTemplate n s.2))
    | .generating =>
      let output := world.generate n s.2
      step cfg s (.generated output (world.extractToolCalls n output.tokenIds))
    | .processingTools =>
      let responses := (s.2.toolCalls.take cfg.maxParallelCalls).map (world.callTool n s.2)
      step cfg s (.toolsRun responses (world.formatResponses n s.2))
    | .terminated => .ok s

def start (messages : List Message) (imageData : Option (List I)) : AgentState × AgentData P E I :=
  (.pending, { messages, imageData })

def generatingStep (s : AgentState × AgentData P E I) : ℕ := if s.1 = .generating then 1 else 0

/-- **The turns of the LLM that are left**: one, and one for each free place of the response. -/
def generations (cfg : Config) (s : AgentState × AgentData P E I) : ℕ :=
  match s.1 with
  | .pending | .generating => max 1 (cfg.responseLength - s.2.responseMask.length)
  | .processingTools => cfg.responseLength - s.2.responseMask.length
  | .terminated => 0

/-- The passes that are left: each turn of the LLM is followed by one of the tools. -/
def passes (cfg : Config) (s : AgentState × AgentData P E I) : ℕ :=
  match s.1 with
  | .pending => 2 * generations cfg s + 1
  | .generating => 2 * generations cfg s
  | .processingTools => 2 * generations cfg s + 1
  | .terminated => 0

def HasRoom (cfg : Config) (s : AgentState × AgentData P E I) : Prop :=
  s.1 = .processingTools → s.2.responseMask.length < cfg.responseLength

/-! ## What a pass does to the budget -/

section Budget

variable {cfg : Config} {d d' : AgentData P E I} {state : AgentState} {output : TokenOutput P E}
  {toolCalls : List FunctionCall} {responses : List (ToolResponse I × Option P)} {responseIds : List ℤ}

theorem handleGeneratingState_calls
    (h : handleGeneratingState cfg d output toolCalls = .ok (.processingTools, d')) :
    toolCalls ≠ [] ∧ d'.responseMask.length = d.responseMask.length + output.tokenIds.length ∧
      d'.responseMask.length < cfg.responseLength := by
  unfold handleGeneratingState at h
  rcases hextra : mergeExtraFields d.extraFields output.extraFields with raised | extraFields
  · rw [hextra] at h
    cases h
  · rw [hextra] at h
    have h := Except.ok.inj h
    dsimp only at h
    have hlength : (d.record extraFields output).responseMask.length =
        d.responseMask.length + output.tokenIds.length := by
      rw [responseMask_record, List.length_append, List.length_replicate]
    by_cases hfull : cfg.responseLength ≤ (d.record extraFields output).responseMask.length
    · rw [if_pos hfull] at h
      cases h
    · rw [if_neg hfull] at h
      by_cases hassistant : turnsReached cfg.maxAssistantTurns (d.record extraFields output).assistantTurns
      · rw [if_pos hassistant] at h
        cases h
      · rw [if_neg hassistant] at h
        by_cases huser : turnsReached cfg.maxUserTurns (d.record extraFields output).userTurns
        · rw [if_pos huser] at h
          cases h
        · rw [if_neg huser] at h
          by_cases hcalls : toolCalls = []
          · rw [if_pos hcalls] at h
            cases h
          · rw [if_neg hcalls] at h
            obtain rfl := (Prod.mk.inj h).2
            exact ⟨hcalls, hlength, Nat.lt_of_not_le hfull⟩

variable [Zero P]

theorem handleProcessingToolsState_generating
    (h : handleProcessingToolsState cfg d responses responseIds = .ok (.generating, d')) :
    d'.responseMask.length = d.responseMask.length + responseIds.length ∧
      d'.responseMask.length < cfg.responseLength := by
  unfold handleProcessingToolsState at h
  rcases hprocess : responses.mapM (processResponse cfg) with raised | processed
  · rw [hprocess] at h
    cases h
  · rw [hprocess] at h
    have h := Except.ok.inj h
    dsimp only at h
    by_cases hfull : cfg.responseLength ≤ d.responseMask.length + responseIds.length
    · rw [if_pos hfull] at h
      cases h
    · rw [if_neg hfull] at h
      obtain rfl := (Prod.mk.inj h).2
      have hlength : (d.responseMask ++ List.replicate responseIds.length 0).length =
          d.responseMask.length + responseIds.length := by
        rw [List.length_append, List.length_replicate]
      exact ⟨hlength, hlength ▸ Nat.lt_of_not_le hfull⟩

end Budget

variable {cfg : Config} {world : World P E I} {s u : AgentState × AgentData P E I} {n : ℕ}

/-! ## When no handler raises -/

def HasCounts (extraFields : Dict String (Option ℤ)) : Prop :=
  ∀ key ∈ specDecodeExtraKeys, extraFields.get? key ≠ some none

/-- A world in which no handler raises: no tool returns a video, an image only comes with an image processor, and the
counts of the LLM are numbers. -/
structure World.Quiet (world : World P E I) (cfg : Config) : Prop where
  video : ∀ n d call, isTruthy (world.callTool n d call).1.video = false
  image : ∀ n d call, isTruthy (world.callTool n d call).1.image → cfg.imageProcessor
  counts : ∀ n d, HasCounts (world.generate n d).extraFields

variable {new old : Dict String (Option ℤ)}

theorem exists_addCount {key : String} (hkey : key ∈ specDecodeExtraKeys) (hnew : HasCounts new)
    (hold : HasCounts old) : ∃ out, addCount new old key = .ok out ∧ HasCounts out := by
  unfold addCount
  rcases hn : new.get? key with _ | n
  · exact ⟨old, rfl, hold⟩
  · rcases n with _ | n
    · exact absurd hn (hnew key hkey)
    · rcases ho : old.get? key with _ | m
      · exact ⟨old, rfl, hold⟩
      · rcases m with _ | m
        · exact absurd ho (hold key hkey)
        · refine ⟨_, rfl, fun key' hkey' => ?_⟩
          by_cases heq : key' = key
          · subst heq
            rw [Dict.get?_update_self]
            exact fun h => nomatch h
          · rw [Dict.get?_update_of_ne _ _ heq]
            exact hold key' hkey'

theorem exists_addCounts {keys : List String} (hkeys : ∀ key ∈ keys, key ∈ specDecodeExtraKeys)
    (hnew : HasCounts new) (hold : HasCounts old) :
    ∃ out, keys.foldlM (addCount new) old = .ok out ∧ HasCounts out := by
  induction keys generalizing old with
  | nil => exact ⟨old, rfl, hold⟩
  | cons key keys ih =>
    obtain ⟨out, hout, hcounts⟩ := exists_addCount (hkeys key List.mem_cons_self) hnew hold
    obtain ⟨out', hout', hcounts'⟩ := ih (fun key hkey => hkeys key (List.mem_cons_of_mem _ hkey)) hcounts
    refine ⟨out', ?_, hcounts'⟩
    rw [List.foldlM_cons, hout]
    exact hout'

theorem exists_mergeExtraFields (hnew : HasCounts new) (hold : HasCounts old) :
    ∃ out, mergeExtraFields old new = .ok out ∧ HasCounts out := by
  unfold mergeExtraFields
  by_cases hempty : old.items = []
  · rw [if_pos hempty]
    refine ⟨_, rfl, fun key hkey => ?_⟩
    show (old.merge (fun _ value => value) new.items).get? key ≠ _
    by_cases hmem : key ∈ new.keys
    · obtain ⟨value, hvalue⟩ := Dict.mem_keys.1 hmem
      rw [Dict.get?_merge_of_mem _ new.nodup _ hvalue]
      intro h
      obtain rfl : value = none := Option.some.inj h
      exact hnew key hkey (Dict.mem_items.1 hvalue)
    · rw [Dict.get?_merge_of_not_mem _ hmem]
      exact hold key hkey
  · rw [if_neg hempty]
    refine exists_addCounts (fun key hkey => hkey) hnew ?_
    have hupdate : ∀ n : ℤ, HasCounts (old.update "max_global_steps" fun _ => some n) := by
      intro n key hkey
      have hne : key ≠ "max_global_steps" := by
        rintro rfl
        exact absurd hkey (by decide)
      rw [Dict.get?_update_of_ne _ _ hne]
      exact hold key hkey
    rcases (new.get? "max_global_steps").join with _ | n
    · exact hold
    · dsimp only
      by_cases hzero : n ≠ 0
      · rw [if_pos hzero]
        exact hupdate n
      · rw [if_neg hzero]
        exact hold

theorem exists_processResponse (hquiet : world.Quiet cfg) (n : ℕ) (d : AgentData P E I) (call : FunctionCall) :
    ∃ processed, processResponse cfg (world.callTool n d call) = .ok processed := by
  unfold processResponse
  have hvideo := hquiet.video n d call
  have himage := hquiet.image n d call
  have hguard : ((isTruthy (world.callTool n d call).1.image || isTruthy (world.callTool n d call).1.video) &&
      !cfg.imageProcessor) = false := by
    rw [hvideo, Bool.or_false, Bool.and_eq_false_iff, Bool.not_eq_false']
    by_cases hcase : isTruthy (world.callTool n d call).1.image
    · exact .inr (himage hcase)
    · exact .inl (Bool.eq_false_iff.2 hcase)
  dsimp only
  rw [hguard, hvideo]
  exact ⟨_, rfl⟩

/-! ## The passes -/

variable [Zero P]

/-- **One pass.** It leaves room for the tools, and takes a turn from the budget of the LLM if the LLM had one. -/
theorem budget_of_body (hparser : ∀ n, world.extractToolCalls n [] = []) (hroom : HasRoom cfg s)
    (hrun : s.1 ≠ .terminated) (h : (stateLoop cfg world).body n s = .ok u) :
    HasRoom cfg u ∧ generations cfg u + generatingStep s ≤ generations cfg s ∧ passes cfg u + 1 ≤ passes cfg s := by
  obtain ⟨state, d⟩ := s
  obtain ⟨state', d'⟩ := u
  cases state with
  | pending =>
    obtain ⟨rfl, rfl⟩ := Prod.mk.inj (Except.ok.inj h)
    exact ⟨fun h => absurd h AgentState.noConfusion, le_rfl, le_rfl⟩
  | terminated => exact absurd rfl hrun
  | generating =>
    have hhandle : handleGeneratingState cfg d (world.generate n d)
        (world.extractToolCalls n (world.generate n d).tokenIds) = .ok (state', d') := mapError_eq_ok.1 h
    obtain ⟨hstate, -⟩ := handleGeneratingState_ok hhandle
    have hone : 1 ≤ max 1 (cfg.responseLength - d.responseMask.length) := Nat.le_max_left _ _
    rcases hstate with rfl | rfl
    · refine ⟨fun h => absurd h AgentState.noConfusion, ?_, ?_⟩
      · show 0 + 1 ≤ max 1 _
        exact hone
      · show 0 + 1 ≤ 2 * max 1 _
        omega
    · -- the answer has tool calls, so that it has a token
      obtain ⟨hcalls, hlength, hlt⟩ := handleGeneratingState_calls hhandle
      have hpos : 0 < (world.generate n d).tokenIds.length := by
        rw [List.length_pos_iff]
        intro hnil
        rw [hnil] at hcalls
        exact hcalls (hparser n)
      have hmax : cfg.responseLength - d.responseMask.length ≤ max 1 (cfg.responseLength - d.responseMask.length) :=
        Nat.le_max_right _ _
      refine ⟨fun _ => hlt, ?_, ?_⟩
      · show cfg.responseLength - d'.responseMask.length + 1 ≤ max 1 (cfg.responseLength - d.responseMask.length)
        omega
      · show 2 * (cfg.responseLength - d'.responseMask.length) + 1 + 1 ≤
          2 * max 1 (cfg.responseLength - d.responseMask.length)
        omega
  | processingTools =>
    have hlt : d.responseMask.length < cfg.responseLength := hroom rfl
    -- there is a response for each call
    have h := (if_pos (List.length_map (world.callTool n d))).symm.trans h
    have hhandle : handleProcessingToolsState cfg d _ (world.formatResponses n d) = .ok (state', d') :=
      mapError_eq_ok.1 h
    obtain ⟨-, ⟨rfl, -⟩ | ⟨rfl, -⟩⟩ := handleProcessingToolsState_ok hhandle
    · refine ⟨fun h => absurd h AgentState.noConfusion, Nat.zero_le _, ?_⟩
      show 0 + 1 ≤ _ + 1
      omega
    · obtain ⟨hlength, hlt'⟩ := handleProcessingToolsState_generating hhandle
      refine ⟨fun h => absurd h AgentState.noConfusion, ?_, ?_⟩
      · show max 1 (cfg.responseLength - d'.responseMask.length) + 0 ≤ cfg.responseLength - d.responseMask.length
        omega
      · show 2 * max 1 (cfg.responseLength - d'.responseMask.length) + 1 ≤
          2 * (cfg.responseLength - d.responseMask.length) + 1
        omega

theorem running_iff : (stateLoop cfg world).running s ↔ s.1 ≠ .terminated := decide_eq_true_iff

/-- **The remaining response pays for each turn of the LLM.** -/
theorem pays_generations (hparser : ∀ n, world.extractToolCalls n [] = []) :
    (stateLoop cfg world).Pays generatingStep (HasRoom cfg) (generations cfg) where
  le := by
    rintro ⟨state, d⟩ - -
    cases state with
    | generating => exact Nat.le_max_left _ _
    | pending => exact Nat.zero_le _
    | processingTools => exact Nat.zero_le _
    | terminated => exact Nat.zero_le _
  step := by
    intro n s u hroom hrun h
    obtain ⟨hroom', hle, -⟩ := budget_of_body hparser hroom (running_iff.1 hrun) h
    exact ⟨hroom', hle⟩

theorem pays_passes (hparser : ∀ n, world.extractToolCalls n [] = []) :
    (stateLoop cfg world).Pays (fun _ => 1) (HasRoom cfg) (passes cfg) where
  le := by
    rintro ⟨state, d⟩ - hrun
    cases state with
    | generating =>
      have hone : 1 ≤ max 1 (cfg.responseLength - d.responseMask.length) := Nat.le_max_left _ _
      show 1 ≤ 2 * max 1 (cfg.responseLength - d.responseMask.length)
      omega
    | pending => exact Nat.le_add_left _ _
    | processingTools => exact Nat.le_add_left _ _
    | terminated => exact absurd rfl (running_iff.1 hrun)
  step := by
    intro n s u hroom hrun h
    obtain ⟨hroom', -, hle⟩ := budget_of_body hparser hroom (running_iff.1 hrun) h
    exact ⟨hroom', hle⟩

theorem raised_of_body {stop : Stop} (h : (stateLoop cfg world).body n s = .error stop) :
    ∃ raised, stop = .raised raised := by
  obtain ⟨state, d⟩ := s
  cases state with
  | pending => cases h
  | terminated => cases h
  | generating =>
    rcases hhandle : handleGeneratingState cfg d (world.generate n d)
        (world.extractToolCalls n (world.generate n d).tokenIds) with raised | u
    · have h : Except.mapError Stop.raised (handleGeneratingState cfg d (world.generate n d)
        (world.extractToolCalls n (world.generate n d).tokenIds)) = .error stop := h
      rw [hhandle] at h
      exact ⟨raised, (Except.error.inj h).symm⟩
    · cases (mapError_eq_ok.2 hhandle).symm.trans h
  | processingTools =>
    have h := (if_pos (List.length_map (world.callTool n d))).symm.trans h
    rcases hhandle : handleProcessingToolsState cfg d
        ((d.toolCalls.take cfg.maxParallelCalls).map (world.callTool n d)) (world.formatResponses n d) with raised | u
    · have h : Except.mapError Stop.raised (handleProcessingToolsState cfg d
        ((d.toolCalls.take cfg.maxParallelCalls).map (world.callTool n d)) (world.formatResponses n d)) = .error stop := h
      rw [hhandle] at h
      exact ⟨raised, (Except.error.inj h).symm⟩
    · cases (mapError_eq_ok.2 hhandle).symm.trans h

theorem exists_body (hquiet : world.Quiet cfg) (hcounts : HasCounts s.2.extraFields) (hrun : s.1 ≠ .terminated) :
    ∃ u, (stateLoop cfg world).body n s = .ok u ∧ HasCounts u.2.extraFields := by
  obtain ⟨state, d⟩ := s
  cases state with
  | pending => exact ⟨_, rfl, hcounts⟩
  | terminated => exact absurd rfl hrun
  | generating =>
    obtain ⟨extraFields, hmerge, hmerged⟩ := exists_mergeExtraFields (hquiet.counts n d) hcounts
    have hhandle : ∃ u, handleGeneratingState cfg d (world.generate n d)
        (world.extractToolCalls n (world.generate n d).tokenIds) = .ok u ∧ HasCounts u.2.extraFields := by
      unfold handleGeneratingState
      rw [hmerge]
      refine ⟨_, rfl, ?_⟩
      -- each branch keeps the merged fields
      dsimp only
      split_ifs
      · exact hmerged
      · exact hmerged
      · exact hmerged
      · exact hmerged
      · exact hmerged
    obtain ⟨u, hu, hfields⟩ := hhandle
    exact ⟨u, mapError_eq_ok.2 hu, hfields⟩
  | processingTools =>
    have hresponses : ∃ processed, ((d.toolCalls.take cfg.maxParallelCalls).map (world.callTool n d)).mapM
        (processResponse cfg) = .ok processed :=
      mapM_of_forall (List.forall_mem_map.2 fun call _ => exists_processResponse hquiet n d call)
    obtain ⟨processed, hprocessed⟩ := hresponses
    have hhandle : ∃ u, handleProcessingToolsState cfg d
        ((d.toolCalls.take cfg.maxParallelCalls).map (world.callTool n d)) (world.formatResponses n d) = .ok u ∧
          HasCounts u.2.extraFields := by
      unfold handleProcessingToolsState
      rw [hprocessed]
      refine ⟨_, rfl, ?_⟩
      dsimp only
      by_cases hfull : cfg.responseLength ≤ d.responseMask.length + (world.formatResponses n d).length
      · rw [if_pos hfull]
        exact hcounts
      · rw [if_neg hfull]
        exact hcounts
    obtain ⟨u, hu, hfields⟩ := hhandle
    exact ⟨u, (if_pos (List.length_map (world.callTool n d))).trans (mapError_eq_ok.2 hu), hfields⟩

/-! ## The end of the loop -/

/-- **The state loop ends** after at most `response_length + 1` turns of the LLM, whatever the LLM, the tools and the
parser answer, if the parser finds no tool call in a response without tokens. It ends in the state `TERMINATED` unless a
handler raises, and no handler raises in a quiet world. -/
theorem stateLoop_ends (cfg : Config) (world : World P E I) (messages : List Message) (imageData : Option (List I))
    (hparser : ∀ n, world.extractToolCalls n [] = []) :
    (∀ n, (stateLoop cfg world).cost generatingStep (start messages imageData) n ≤ cfg.responseLength + 1) ∧
      (∃ n, (∃ d, (stateLoop cfg world).after (start messages imageData) n = .ok (.terminated, d)) ∨
        ∃ raised, (stateLoop cfg world).after (start messages imageData) n = .error (.raised raised)) ∧
      (world.Quiet cfg → ∃ n d, (stateLoop cfg world).after (start messages imageData) n = .ok (.terminated, d)) := by
  have hroom : HasRoom cfg (start messages imageData : AgentState × AgentData P E I) :=
    fun h => absurd h AgentState.noConfusion
  have hend : ∀ {s}, (stateLoop cfg world).after (start messages imageData)
      (passes cfg (start messages imageData : AgentState × AgentData P E I)) = .ok s → s.1 = .terminated := by
    intro s hs
    by_contra hrun
    exact (pays_passes hparser).ends hroom hs le_rfl (running_iff.2 hrun)
  refine ⟨fun n => ?_, ⟨passes cfg (start messages imageData : AgentState × AgentData P E I), ?_⟩, fun hquiet => ?_⟩
  · have hpays : (stateLoop cfg world).Pays generatingStep (HasRoom cfg) (generations cfg) := pays_generations hparser
    have hle := hpays.cost_le hroom n
    have hbudget : generations cfg (start messages imageData : AgentState × AgentData P E I) =
        max 1 (cfg.responseLength - 0) := rfl
    omega
  · rcases hafter : (stateLoop cfg world).after (start messages imageData)
      (passes cfg (start messages imageData : AgentState × AgentData P E I)) with stop | ⟨state, d⟩
    · obtain ⟨k, s, -, -, hbody⟩ := WhileLoop.exists_pass hafter
      obtain ⟨raised, rfl⟩ := raised_of_body hbody
      exact .inr ⟨raised, rfl⟩
    · obtain rfl := hend hafter
      exact .inl ⟨d, rfl⟩
  · have hbody : ∀ n s, HasCounts s.2.extraFields → (stateLoop cfg world).running s →
        ∃ u, (stateLoop cfg world).body n s = .ok u ∧ HasCounts u.2.extraFields :=
      fun n s hcounts hrun => exists_body hquiet hcounts (running_iff.1 hrun)
    have hstart : HasCounts (start messages imageData : AgentState × AgentData P E I).2.extraFields :=
      fun key _ h => nomatch h
    obtain ⟨⟨state, d⟩, hafter, -⟩ := WhileLoop.exists_after hbody hstart
      (passes cfg (start messages imageData : AgentState × AgentData P E I))
    obtain rfl := hend hafter
    exact ⟨_, d, hafter⟩

/-- An LLM that calls a tool in each turn, and a tool whose response has no tokens. -/
def toolWorld : World ℤ Unit Unit where
  applyChatTemplate := fun _ _ => [1, 2]
  generate := fun _ _ => { tokenIds := [3] }
  extractToolCalls := fun _ tokenIds => tokenIds.map fun _ => ⟨"search", "[]"⟩
  callTool := fun _ _ _ => ({ text := some "found" }, none)
  formatResponses := fun _ _ => []

theorem stateLoop_ends_toolWorld :
    (∀ n, (stateLoop config toolWorld).cost generatingStep (start [] none) n ≤ 9) ∧
      ∃ n d, (stateLoop config toolWorld).after (start [] none) n = .ok (.terminated, d) := by
  obtain ⟨hcost, -, hquiet⟩ := stateLoop_ends config toolWorld [] none fun _ => rfl
  exact ⟨hcost, hquiet ⟨fun _ _ _ => rfl, fun _ _ _ h => absurd h Bool.false_ne_true, fun _ _ _ _ h => nomatch h⟩⟩

def videoWorld : World ℤ Unit Unit :=
  { toolWorld with callTool := fun _ _ _ => ({ video := some [()] }, none) }

/-- **A video ends the loop with an error**, so that it does not reach the state `TERMINATED`. -/
theorem not_reaches_terminated :
    ¬ ∀ (cfg : Config) (world : World ℤ Unit Unit), cfg.maxAssistantTurns = none → cfg.maxUserTurns = none →
      (∀ n, world.extractToolCalls n [] = []) →
      ∃ n d, (stateLoop cfg world).after (start [] none) n = .ok (.terminated, d) := by
  intro hall
  obtain ⟨n, d, h⟩ := hall ⟨none, none, 1, 8, true⟩ videoWorld rfl rfl fun _ => rfl
  have herror : (stateLoop ⟨none, none, 1, 8, true⟩ videoWorld).after (start [] none) 3 = .error (.raised
      (.notImplementedError "Multimedia type 'video' is not currently supported. Only 'image' is supported.")) := rfl
  have herror' : (stateLoop ⟨none, none, 1, 8, true⟩ videoWorld).after (start [] none) (n + 3) = .error (.raised
      (.notImplementedError "Multimedia type 'video' is not currently supported. Only 'image' is supported.")) :=
    WhileLoop.after_error herror (Nat.le_add_left 3 n)
  have hended := WhileLoop.after_ended h (fun hrun => running_iff.1 hrun rfl) (Nat.le_add_right n 3)
  cases herror'.symm.trans hended

end Opd.Verl.ToolAgentLoop

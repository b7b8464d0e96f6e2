import Mathlib.Data.List.Flatten
import Mathlib.Data.Int.Order.Basic
import Opd.Lib.Dict

/-!
# Partial rollouts

`FullyAsyncLLMServerClient.generate` asks the engine again, with what it has so far, until
a reply is not aborted or the limit of tokens is reached. What is left of the limit is
written into the sampling parameters of the caller.

* `progress_afterReply`: what one reply adds.
* `loop_ends`: the loop ends within the replies of the engine.
* `invisible_iff`: the interruptions are invisible to the caller exactly when no reply has
  a token.
-/

namespace Opd.Verl.PartialRollout

open Lib

inductive LimitKey
  | maxTokens
  | maxNewTokens
  deriving DecidableEq

/-- `sampling_params`: a limit is absent, `None` or a number. -/
structure SamplingParams (V : Type) where
  maxTokens : Option (Option ℤ)
  maxNewTokens : Option (Option ℤ)
  others : V
  deriving DecidableEq

/-- `TokenOutput`. -/
structure TokenOutput (P E : Type) where
  tokenIds : List ℤ
  logProbs : Option (List P) := none
  routedExperts : Option (List E) := none
  stopReason : Option String := none
  numPreempted : Option ℤ := none
  extraFields : Dict String (Option ℤ) := .empty

/-- What `generate` of the base class is called with. -/
structure Request (V : Type) where
  promptIds : List ℤ
  samplingParams : SamplingParams V
  deriving DecidableEq

/-- The variables of the loop, the dictionary of the caller, and the requests so far. -/
structure Progress (V P E : Type) where
  finalOutput : TokenOutput P E
  minGlobalSteps : Option ℤ
  maxGlobalSteps : Option ℤ
  samplingParams : SamplingParams V
  requests : List (Request V)

variable {V P E : Type}

namespace SamplingParams

/-- `sampling_params[limit_key] = value`. -/
def set (params : SamplingParams V) (key : LimitKey) (value : Option ℤ) : SamplingParams V :=
  match key with
  | .maxTokens => { params with maxTokens := some value }
  | .maxNewTokens => { params with maxNewTokens := some value }

/-- `limit_key`. -/
def limitKey (params : SamplingParams V) : Option LimitKey :=
  if params.maxTokens.isSome then some .maxTokens
  else if params.maxNewTokens.isSome then some .maxNewTokens
  else none

/-- `sampling_params.get(limit_key)`. -/
def get (params : SamplingParams V) : LimitKey → Option ℤ
  | .maxTokens => params.maxTokens.join
  | .maxNewTokens => params.maxNewTokens.join

/-- `limit_key` with `original_max_tokens`, where it is not `None`. -/
def limit (params : SamplingParams V) : Option (LimitKey × ℤ) :=
  params.limitKey.bind fun key => (params.get key).map fun n => (key, n)

end SamplingParams

/-- `output.stop_reason in ("aborted", "abort")`. -/
def TokenOutput.Aborted (output : TokenOutput P E) : Prop :=
  output.stopReason = some "aborted" ∨ output.stopReason = some "abort"

instance (output : TokenOutput P E) : Decidable output.Aborted := inferInstanceAs (Decidable (_ ∨ _))

/-- `xs[-n:]` of a list, for `0 < n`. -/
def lastRows (n : ℕ) (rows : List E) : List E := rows.drop (rows.length - n)

/-- Step 2 of the loop: `output` is merged into `final_output`. -/
def merge (final output : TokenOutput P E) : TokenOutput P E :=
  { final with
    tokenIds := final.tokenIds ++ output.tokenIds
    logProbs := match output.logProbs with
      | some logProbs => some (final.logProbs.getD [] ++ logProbs)
      | none => final.logProbs
    routedExperts := match output.routedExperts with
      | some rows =>
        if 0 < output.tokenIds.length then
          match final.routedExperts with
          | none => some rows
          | some old => some (old ++ lastRows output.tokenIds.length rows)
        else final.routedExperts
      | none => final.routedExperts
    numPreempted := match output.numPreempted with
      | some n => some (final.numPreempted.getD 0 + n)
      | none => final.numPreempted
    stopReason := output.stopReason }

/-- `len(final_output.token_ids) >= original_max_tokens`. -/
def LimitReached (limit : Option (LimitKey × ℤ)) (final : TokenOutput P E) : Prop :=
  ∃ key n, limit = some (key, n) ∧ n ≤ final.tokenIds.length

instance (limit : Option (LimitKey × ℤ)) (final : TokenOutput P E) : Decidable (LimitReached limit final) :=
  match limit with
  | none => isFalse (by rintro ⟨key, n, h, -⟩; cases h)
  | some (key, n) =>
    decidable_of_iff (n ≤ final.tokenIds.length)
      ⟨fun h => ⟨key, n, rfl, h⟩, by rintro ⟨key', n', h, hle⟩; cases h; exact hle⟩

/-- Steps 1 to 3 of the loop: the request, its reply, and what is left of the limit. -/
def afterReply (promptIds : List ℤ) (limit : Option (LimitKey × ℤ)) (s : Progress V P E)
    (output : TokenOutput P E) : Progress V P E :=
  let final := merge s.finalOutput output
  let globalSteps := (output.extraFields.get? "global_steps").join
  { finalOutput := if LimitReached limit final then { final with stopReason := some "length" } else final
    minGlobalSteps := s.minGlobalSteps.or globalSteps
    maxGlobalSteps := globalSteps
    samplingParams := match limit with
      | some (key, n) => s.samplingParams.set key (some (n - final.tokenIds.length))
      | none => s.samplingParams
    requests := s.requests ++ [⟨promptIds ++ s.finalOutput.tokenIds, s.samplingParams⟩] }

/-- The loop, on the replies of the engine: it waits when they are used up. -/
def loop (promptIds : List ℤ) (limit : Option (LimitKey × ℤ)) (s : Progress V P E) :
    List (TokenOutput P E) → Option (Progress V P E)
  | [] => none
  | output :: outputs =>
    let s := afterReply promptIds limit s output
    -- the two `break`s of the loop
    if LimitReached limit s.finalOutput ∨ ¬ output.Aborted then some s else loop promptIds limit s outputs

def start (samplingParams : SamplingParams V) : Progress V P E where
  finalOutput := { tokenIds := [], logProbs := some [], numPreempted := some 0 }
  minGlobalSteps := none
  maxGlobalSteps := none
  samplingParams := samplingParams
  requests := []

/-- The weight versions of the replies are put into the output. -/
def Progress.returned (s : Progress V P E) : Progress V P E :=
  { s with finalOutput := { s.finalOutput with
      extraFields := ((s.finalOutput.extraFields.update "global_steps" fun _ => s.maxGlobalSteps).update
        "min_global_steps" fun _ => s.minGlobalSteps).update "max_global_steps" fun _ => s.maxGlobalSteps } }

/-- `FullyAsyncLLMServerClient.generate`, with the requests it sent and the dictionary it
leaves to the caller. A list of ids passes `normalize_token_ids` unchanged. -/
def generate (promptIds : List ℤ) (samplingParams : SamplingParams V) (outputs : List (TokenOutput P E)) :
    Option (Progress V P E) :=
  (loop promptIds samplingParams.limit (start samplingParams) outputs).map Progress.returned

/-! ## The law -/

def tokens (outputs : List (TokenOutput P E)) : List ℤ := outputs.flatMap TokenOutput.tokenIds

/-- The replies of the engine under a limit: each within what is left, all but the last
aborted; the last one may be aborted when nothing is left. -/
def Replies : ℤ → List (TokenOutput P E) → Prop
  | _, [] => False
  | n, [output] => output.tokenIds.length ≤ n ∧ (output.Aborted → output.tokenIds.length = n)
  | n, output :: next :: outputs =>
    output.tokenIds.length ≤ n ∧ output.Aborted ∧ Replies (n - output.tokenIds.length) (next :: outputs)

def requestAfter (promptIds : List ℤ) (params : SamplingParams V) (key : LimitKey) (n : ℤ)
    (outputs : List (TokenOutput P E)) : Request V :=
  ⟨promptIds ++ tokens outputs, params.set key (some (n - (tokens outputs).length))⟩

/-- **An invisible interruption**: what `generate` asks for, returns and leaves behind. The
loop may end before the last reply, when nothing is left of the limit. -/
structure Invisible (promptIds : List ℤ) (params : SamplingParams V) (key : LimitKey) (n : ℤ)
    (outputs : List (TokenOutput P E)) (s : Progress V P E) : Prop where
  requests : ∃ m, 0 < m ∧ m ≤ outputs.length ∧
    s.requests = (List.range m).map fun k => requestAfter promptIds params key n (outputs.take k)
  tokenIds : s.finalOutput.tokenIds = tokens outputs
  atMost : (s.finalOutput.tokenIds.length : ℤ) ≤ n
  logProbs : (∀ output ∈ outputs, output.logProbs.map List.length = some output.tokenIds.length) →
    s.finalOutput.logProbs.map List.length = some s.finalOutput.tokenIds.length
  stopReason : s.finalOutput.stopReason = some "length" ∨
    s.finalOutput.stopReason = outputs.getLast?.bind TokenOutput.stopReason
  notAborted : ¬ s.finalOutput.Aborted
  unchanged : s.samplingParams = params

variable {promptIds : List ℤ} {params : SamplingParams V} {key : LimitKey} {n : ℤ}
  {outputs outputs' : List (TokenOutput P E)} {output : TokenOutput P E} {s : Progress V P E}

theorem tokens_append (outputs outputs' : List (TokenOutput P E)) :
    tokens (outputs ++ outputs') = tokens outputs ++ tokens outputs' := List.flatMap_append

theorem tokens_singleton (output : TokenOutput P E) : tokens [output] = output.tokenIds := List.flatMap_singleton ..

theorem tokens_cons (output : TokenOutput P E) (outputs : List (TokenOutput P E)) :
    tokens (output :: outputs) = output.tokenIds ++ tokens outputs := List.flatMap_cons

namespace SamplingParams

theorem set_set (params : SamplingParams V) (key : LimitKey) (value value' : Option ℤ) :
    (params.set key value).set key value' = params.set key value' := by
  cases key <;> rfl

theorem get_set (params : SamplingParams V) (key : LimitKey) (value : Option ℤ) :
    (params.set key value).get key = value := by
  cases key <;> rfl

theorem get_of_limit (h : params.limit = some (key, n)) : params.get key = some n := by
  unfold limit at h
  obtain ⟨key', hkey, hget⟩ := Option.bind_eq_some_iff.1 h
  obtain ⟨n', hn, heq⟩ := Option.map_eq_some_iff.1 hget
  cases heq
  exact hn

theorem set_of_limit (h : params.limit = some (key, n)) : params.set key (some n) = params := by
  have hget := get_of_limit h
  obtain ⟨maxTokens, maxNewTokens, others⟩ := params
  cases key with
  | maxTokens =>
    have hmax : maxTokens = some (some n) := Option.join_eq_some_iff.1 hget
    rw [hmax]
    rfl
  | maxNewTokens =>
    have hmax : maxNewTokens = some (some n) := Option.join_eq_some_iff.1 hget
    rw [hmax]
    rfl

end SamplingParams

structure Merged (promptIds : List ℤ) (params : SamplingParams V) (key : LimitKey) (n : ℤ)
    (outputs : List (TokenOutput P E)) (s : Progress V P E) : Prop where
  requests : s.requests = (List.range outputs.length).map fun k => requestAfter promptIds params key n (outputs.take k)
  tokenIds : s.finalOutput.tokenIds = tokens outputs
  samplingParams : s.samplingParams = params.set key (some (n - (tokens outputs).length))
  logProbs : (∀ output ∈ outputs, output.logProbs.map List.length = some output.tokenIds.length) →
    s.finalOutput.logProbs.map List.length = some s.finalOutput.tokenIds.length

theorem Merged.start (promptIds : List ℤ) (h : params.limit = some (key, n)) :
    Merged promptIds params key n ([] : List (TokenOutput P E)) (start params) where
  requests := rfl
  tokenIds := rfl
  samplingParams := by
    rw [tokens, List.flatMap_nil, List.length_nil, Int.natCast_zero, Int.sub_zero]
    exact (SamplingParams.set_of_limit h).symm
  logProbs := fun _ => rfl

theorem tokenIds_afterReply (promptIds : List ℤ) (limit : Option (LimitKey × ℤ)) (s : Progress V P E)
    (output : TokenOutput P E) :
    (afterReply promptIds limit s output).finalOutput.tokenIds = s.finalOutput.tokenIds ++ output.tokenIds := by
  unfold afterReply
  simp only
  split <;> rfl

theorem logProbs_afterReply (promptIds : List ℤ) (limit : Option (LimitKey × ℤ)) (s : Progress V P E)
    (output : TokenOutput P E) :
    (afterReply promptIds limit s output).finalOutput.logProbs = (merge s.finalOutput output).logProbs := by
  unfold afterReply
  simp only
  split <;> rfl

theorem limitReached_iff {final : TokenOutput P E} :
    LimitReached (some (key, n)) final ↔ n ≤ final.tokenIds.length := by
  constructor
  · rintro ⟨key', n', h, hle⟩
    cases h
    exact hle
  · exact fun hle => ⟨key, n, rfl, hle⟩

theorem progress_afterReply (h : Merged promptIds params key n outputs s) (output : TokenOutput P E) :
    Merged promptIds params key n (outputs ++ [output]) (afterReply promptIds (some (key, n)) s output) where
  requests := by
    show s.requests ++ [⟨promptIds ++ s.finalOutput.tokenIds, s.samplingParams⟩] = _
    have hlen : (outputs ++ [output]).length = outputs.length + 1 := List.length_append
    rw [hlen, List.range_succ, List.map_append, h.requests, h.tokenIds, h.samplingParams, List.map_singleton,
      List.take_left]
    congr 1
    -- the earlier requests have not seen the new reply
    refine List.map_congr_left ?_
    intro k hk
    rw [List.take_append_of_le_length (Nat.le_of_lt (List.mem_range.1 hk))]
  tokenIds := by
    rw [tokenIds_afterReply, h.tokenIds, tokens_append, tokens_singleton]
  samplingParams := by
    show s.samplingParams.set key (some (n - (s.finalOutput.tokenIds ++ output.tokenIds).length)) = _
    rw [h.samplingParams, SamplingParams.set_set, h.tokenIds, tokens_append, tokens_singleton]
  logProbs := by
    intro hcarry
    have hold := h.logProbs fun o ho => hcarry o (List.mem_append_left _ ho)
    have hnew := hcarry output (List.mem_append_right _ List.mem_cons_self)
    rw [logProbs_afterReply, tokenIds_afterReply, List.length_append]
    obtain ⟨old, hlog, hlen⟩ := Option.map_eq_some_iff.1 hold
    obtain ⟨new, hlog', hlen'⟩ := Option.map_eq_some_iff.1 hnew
    unfold merge
    simp only [hlog, hlog', Option.getD_some, Option.map_some, List.length_append, hlen, hlen']

theorem Replies.length_le (h : Replies n outputs) : ((tokens outputs).length : ℤ) ≤ n := by
  induction outputs generalizing n with
  | nil => exact h.elim
  | cons output outputs ih =>
    rw [tokens_cons, List.length_append]
    cases outputs with
    | nil =>
      have hle : (output.tokenIds.length : ℤ) ≤ n := h.1
      simpa [tokens] using hle
    | cons next outputs =>
      have hrest := ih h.2.2
      push_cast
      omega

def Stopped (outputs : List (TokenOutput P E)) (s : Progress V P E) : Prop :=
  (s.finalOutput.stopReason = some "length" ∨
    s.finalOutput.stopReason = outputs.getLast?.bind TokenOutput.stopReason) ∧ ¬ s.finalOutput.Aborted

theorem stopped_of_limitReached (outputs : List (TokenOutput P E))
    (h : LimitReached (some (key, n)) (merge s.finalOutput output)) :
    Stopped outputs (afterReply promptIds (some (key, n)) s output) := by
  have hstop : (afterReply promptIds (some (key, n)) s output).finalOutput.stopReason = some "length" := by
    unfold afterReply
    simp only [if_pos h]
  refine ⟨.inl hstop, ?_⟩
  unfold TokenOutput.Aborted
  rw [hstop]
  decide

theorem stopped_of_not_aborted (hlimit : ¬ LimitReached (some (key, n)) (merge s.finalOutput output))
    (h : ¬ output.Aborted) : Stopped [output] (afterReply promptIds (some (key, n)) s output) := by
  have hstop : (afterReply promptIds (some (key, n)) s output).finalOutput.stopReason = output.stopReason := by
    unfold afterReply
    simp only [if_neg hlimit]
    rfl
  refine ⟨.inr hstop, ?_⟩
  unfold TokenOutput.Aborted at h ⊢
  rwa [hstop]

/-- **The loop ends** within the replies, and what it leaves out has no tokens. -/
theorem loop_ends {sent : List (TokenOutput P E)} (hs : Merged promptIds params key n sent s)
    (h : Replies (n - (tokens sent).length) outputs) :
    ∃ m s', 0 < m ∧ m ≤ outputs.length ∧ loop promptIds (some (key, n)) s outputs = some s' ∧
      Merged promptIds params key n (sent ++ outputs.take m) s' ∧ tokens (outputs.drop m) = [] ∧
      Stopped outputs s' := by
  induction outputs generalizing s sent with
  | nil => exact h.elim
  | cons output outputs ih =>
    have hs' := progress_afterReply hs output
    have hiff : LimitReached (some (key, n)) (afterReply promptIds (some (key, n)) s output).finalOutput ↔
        n ≤ ((tokens sent).length + output.tokenIds.length : ℕ) := by
      rw [limitReached_iff, hs'.tokenIds, tokens_append, tokens_singleton, List.length_append]
    have hmerge : LimitReached (some (key, n)) (merge s.finalOutput output) ↔
        n ≤ ((tokens sent).length + output.tokenIds.length : ℕ) := by
      rw [limitReached_iff, ← hs.tokenIds, ← List.length_append]
      rfl
    unfold loop
    simp only
    by_cases hlimit : n ≤ ((tokens sent).length + output.tokenIds.length : ℕ)
    · -- the limit is reached: the other replies are never asked for
      rw [if_pos (.inl (hiff.2 hlimit))]
      refine ⟨1, _, by omega, by simp, rfl, hs', ?_, stopped_of_limitReached _ (hmerge.2 hlimit)⟩
      cases outputs with
      | nil => rfl
      | cons next outputs =>
        have hle := h.2.2.length_le
        exact List.length_eq_zero_iff.1 (by simp only [List.drop_one, List.tail_cons]; omega)
    · cases outputs with
      | nil =>
        have hdone : ¬ output.Aborted := by
          intro habort
          have hfull := h.2 habort
          push_cast at hlimit
          omega
        rw [if_pos (.inr hdone)]
        exact ⟨1, _, by omega, by simp, rfl, hs', rfl, stopped_of_not_aborted (mt hmerge.1 hlimit) hdone⟩
      | cons next outputs =>
        obtain ⟨hle, habort, hrest⟩ := h
        rw [if_neg (not_or.2 ⟨mt hiff.1 hlimit, not_not.2 habort⟩)]
        have hleft : n - (tokens sent).length - output.tokenIds.length = n - (tokens (sent ++ [output])).length := by
          rw [tokens_append, tokens_singleton, List.length_append]
          push_cast
          omega
        rw [hleft] at hrest
        obtain ⟨m, s', hm, hmle, hloop, hmerged, htail, hstop⟩ := ih hs' hrest
        refine ⟨m + 1, s', by omega, by simpa using hmle, hloop, ?_, htail, hstop⟩
        rwa [List.append_assoc] at hmerged

/-- **What `generate` does**: everything but the sampling parameters is as it should be,
and these have lost the tokens of the replies. -/
theorem generate_spec (promptIds : List ℤ) (hlimit : params.limit = some (key, n)) (h : Replies n outputs) :
    ∃ s, generate promptIds params outputs = some s ∧
      (s.samplingParams = params → Invisible promptIds params key n outputs s) ∧
      s.samplingParams = params.set key (some (n - (tokens outputs).length)) := by
  have hstart : Replies (n - (tokens ([] : List (TokenOutput P E))).length) outputs := by
    simpa [tokens] using h
  obtain ⟨m, s, hm, hmle, hloop, hmerged, htail, hstop⟩ := loop_ends (Merged.start promptIds hlimit) hstart
  rw [List.nil_append] at hmerged
  -- the loop ends after `m` replies, and those behind have no tokens
  have hall : tokens (outputs.take m) = tokens outputs := by
    conv_rhs => rw [← List.take_append_drop m outputs, tokens_append, htail, List.append_nil]
  refine ⟨s.returned, ?_, ?_, ?_⟩
  · unfold generate
    rw [hlimit, hloop]
    rfl
  · intro hsame
    constructor
    · refine ⟨m, hm, hmle, ?_⟩
      have hlen : (outputs.take m).length = m := by rw [List.length_take]; omega
      show s.requests = _
      rw [hmerged.requests, hlen]
      refine List.map_congr_left ?_
      intro k hk
      have hk := List.mem_range.1 hk
      rw [List.take_take, Nat.min_eq_left (by omega)]
    · exact hmerged.tokenIds.trans hall
    · show (s.finalOutput.tokenIds.length : ℤ) ≤ n
      rw [hmerged.tokenIds, hall]
      exact h.length_le
    · intro hcarry
      exact hmerged.logProbs fun output hmem => hcarry output (List.mem_of_mem_take hmem)
    · exact hstop.1
    · exact hstop.2
    · exact hsame
  · show s.samplingParams = _
    rw [hmerged.samplingParams, hall]

/-- **The interruptions are invisible exactly when no reply has a token.** All else that
is asked for holds in any case. -/
theorem invisible_iff (promptIds : List ℤ) (params : SamplingParams V) (key : LimitKey) (n : ℤ)
    (outputs : List (TokenOutput P E)) (hlimit : params.limit = some (key, n)) (h : Replies n outputs) :
    ∃ s, generate promptIds params outputs = some s ∧
      (Invisible promptIds params key n outputs s ↔ ∀ output ∈ outputs, output.tokenIds = []) := by
  obtain ⟨s, hs, hrest, hparams⟩ := generate_spec promptIds hlimit h
  refine ⟨s, hs, ?_⟩
  constructor
  · intro hinv
    have hget := congrArg (fun p => p.get key) (hparams.symm.trans hinv.unchanged)
    rw [SamplingParams.get_set, SamplingParams.get_of_limit hlimit] at hget
    have hzero : (tokens outputs).length = 0 := by
      have := Option.some.inj hget
      omega
    exact List.flatMap_eq_nil_iff.1 (List.length_eq_zero_iff.1 hzero)
  · intro hempty
    have hnil : tokens outputs = [] := List.flatMap_eq_nil_iff.2 hempty
    refine hrest ?_
    rw [hparams, hnil, List.length_nil, Int.natCast_zero, Int.sub_zero]
    exact SamplingParams.set_of_limit hlimit

def noTokens : List (TokenOutput ℤ Unit) :=
  [{ tokenIds := [], stopReason := some "aborted" }, { tokenIds := [], stopReason := some "completed" }]

theorem invisible_noTokens :
    ∃ s, generate [1, 2] (⟨some (some 5), none, ()⟩ : SamplingParams Unit) noTokens = some s ∧
      (Invisible [1, 2] ⟨some (some 5), none, ()⟩ .maxTokens 5 noTokens s ↔
        ∀ output ∈ noTokens, output.tokenIds = []) :=
  invisible_iff [1, 2] ⟨some (some 5), none, ()⟩ .maxTokens 5 noTokens rfl
    ⟨by decide, by decide, by decide, by decide⟩

/-- **The limit of the caller shrinks** with one complete reply of two tokens. -/
theorem limit_shrinks :
    ¬ ∀ (promptIds : List ℤ) (params : SamplingParams Unit) (key : LimitKey) (n : ℤ)
        (outputs : List (TokenOutput ℤ Unit)), params.limit = some (key, n) → Replies n outputs →
      ∃ s, generate promptIds params outputs = some s ∧ Invisible promptIds params key n outputs s := by
  intro hall
  obtain ⟨s, hs, hinv⟩ := hall [1, 2] ⟨some (some 5), none, ()⟩ .maxTokens 5
    [{ tokenIds := [7, 8], stopReason := some "completed" }] rfl ⟨by decide, by decide⟩
  have hparams : s.samplingParams = ⟨some (some 3), none, ()⟩ := by
    have hrun := congrArg (fun s => s.map Progress.samplingParams) hs
    exact (Option.some.inj hrun).symm
  have hne := hparams.symm.trans hinv.unchanged
  cases hne

end Opd.Verl.PartialRollout

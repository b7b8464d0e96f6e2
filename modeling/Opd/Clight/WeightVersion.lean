import Opd.Clight.StudentServer

/-!
# What a weight version names

A receiver loads weights bucket by bucket. The version goes up when a finish request
finds that the receiver has succeeded; a session can also end with a failed receiver or
an abort, with the version unchanged and whatever the receiver has loaded so far.

* `versionInv_effect`: each version names one set of weights, as long as a session that
  ends without a successful finish leaves the weights as it found them.
* `sameVersion_sameWeights`: the same for the replies of every such run.
-/

namespace Opd.Clight.StudentServer

open Lib

variable {W : Type*}

/-- Any two `generate` replies with one version come from the same weights. -/
def VersionNamesWeights (s : State W) : Prop :=
  ∀ a ∈ s.answers, ∀ b ∈ s.answers, ∀ weightVersion ws ws', a.reply.generation = some (weightVersion, ws) →
    b.reply.generation = some (weightVersion, ws') → ∀ w ∈ ws, ∀ w' ∈ ws', w = w'

/-- A session that ends without a successful finish leaves the weights as they were when
it was opened. -/
def KeepsWeights (s : State W) (e : Event W) : Prop :=
  leavesUnfinished s e = true → s.weights = s.sessionWeights

def State.namedWeights (s : State W) : W :=
  if s.activeSyncSession.isSome then s.sessionWeights else s.weights

/-- Every version up to the current one names the weights of its replies. -/
structure VersionInv (s : State W) : Prop where
  names : ∃ f : ℕ → W, f s.weightVersion = s.namedWeights ∧ ∀ a ∈ s.answers, ∀ weightVersion ws,
    a.reply.generation = some (weightVersion, ws) →
      weightVersion ≤ s.weightVersion ∧ ∀ w ∈ ws, w = f weightVersion
  generating : ∀ ws, s.lock = .generating ws → ∀ w ∈ ws, w = s.weights

theorem VersionInv.versionNamesWeights {s : State W} (hv : VersionInv s) : VersionNamesWeights s := by
  obtain ⟨f, -, hf⟩ := hv.names
  intro a ha b hb v ws ws' hga hgb w hw w' hw'
  rw [(hf a ha v ws hga).2 w hw, (hf b hb v ws' hgb).2 w' hw']

theorem names_append {f : ℕ → W} {l : List (Answer W)} {n : ℕ} {reply : Reply W} {sent : Bool}
    (hf : ∀ a ∈ l, ∀ v ws, a.reply.generation = some (v, ws) → v ≤ n ∧ ∀ w ∈ ws, w = f v)
    (hr : ∀ v ws, reply.generation = some (v, ws) → v ≤ n ∧ ∀ w ∈ ws, w = f v) :
    ∀ a ∈ l ++ [⟨reply, sent⟩], ∀ v ws, a.reply.generation = some (v, ws) →
      v ≤ n ∧ ∀ w ∈ ws, w = f v := by
  intro a ha v ws hg
  rcases List.mem_append.1 ha with ha | ha
  · exact hf a ha v ws hg
  · obtain rfl := List.mem_singleton.1 ha
    exact hr v ws hg

theorem names_append_quiet {f : ℕ → W} {l : List (Answer W)} {n : ℕ} {reply : Reply W} {sent : Bool}
    (hf : ∀ a ∈ l, ∀ v ws, a.reply.generation = some (v, ws) → v ≤ n ∧ ∀ w ∈ ws, w = f v)
    (hg : reply.generation = none) : ∀ a ∈ l ++ [⟨reply, sent⟩], ∀ v ws,
      a.reply.generation = some (v, ws) → v ≤ n ∧ ∀ w ∈ ws, w = f v :=
  names_append hf fun v ws h => by rw [hg] at h; cases h

/-- **A step keeps what the versions name.** -/
theorem versionInv_effect {s s' : State W} {e : Event W} (hi : Inv s) (hv : VersionInv s)
    (hkeep : KeepsWeights s e) (h : Effect s e s') : VersionInv s' := by
  obtain ⟨f, hcur, hf⟩ := hv.names
  cases h with
  | answered reply sent _ hg =>
    exact ⟨⟨f, hcur, names_append_quiet hf hg⟩, hv.generating⟩
  | generateBegin hlock hactive =>
    refine ⟨⟨f, hcur, hf⟩, fun ws h w hw => ?_⟩
    cases h
    cases hw
  | forward weights hlock =>
    refine ⟨⟨f, hcur, hf⟩, fun ws h w hw => ?_⟩
    cases h
    rcases List.mem_append.1 hw with hw | hw
    · exact hv.generating weights hlock w hw
    · exact List.mem_singleton.1 hw
  | generated weights sent hlock =>
    -- no session is active, so the current version names the model's weights
    have hnamed : s.namedWeights = s.weights := by
      unfold State.namedWeights
      rw [hi.generating weights hlock]
      rfl
    refine ⟨⟨f, hcur, names_append hf fun v ws hg => ?_⟩, fun ws h => by cases h⟩
    cases hg
    refine ⟨Nat.le_refl _, fun w hw => ?_⟩
    rw [hcur, hnamed]
    exact hv.generating weights hlock w hw
  | released reply sent _ hg =>
    exact ⟨⟨f, hcur, names_append_quiet hf hg⟩, fun ws h => by cases h⟩
  | opened session hlock hactive hfresh =>
    refine ⟨⟨f, ?_, hf⟩, fun ws h => by cases h⟩
    rw [hcur]
    unfold State.namedWeights
    rw [hactive]
    rfl
  | held holder session hlock hactive hholder hg =>
    exact ⟨⟨f, hcur, hf⟩, fun ws h => absurd h (hg ws)⟩
  | ended reply sent session resultBox hlock hended hunfinished _ hg =>
    refine ⟨⟨f, ?_, names_append_quiet hf hg⟩, fun ws h => by cases h⟩
    have hnamed : s.namedWeights = s.sessionWeights := by
      unfold State.namedWeights
      rw [hi.holder session hlock]
      rfl
    exact hcur.trans (hnamed.trans (hkeep hunfinished).symm)
  | finished session result senderSummary sent hlock hended =>
    -- the new version names the weights that the receiver has loaded
    refine ⟨⟨Function.update f (s.weightVersion + 1) s.weights, Function.update_self .., ?_⟩,
      fun ws h => by cases h⟩
    refine names_append_quiet (fun a ha v ws hg => ?_) rfl
    obtain ⟨hle, hw⟩ := hf a ha v ws hg
    refine ⟨Nat.le_succ_of_le hle, fun w hwm => ?_⟩
    rw [Function.update_of_ne (Nat.ne_of_lt (Nat.lt_succ_of_le hle))]
    exact hw w hwm
  | loaded sessionId weights hrun =>
    -- a running receiver belongs to the active session: nothing is generated meanwhile
    have hact := hi.running sessionId hrun
    have hsome : s.activeSyncSession.isSome = true := by
      unfold State.activeId at hact
      cases hs : s.activeSyncSession with
      | none => rw [hs] at hact; cases hact
      | some session => rfl
    refine ⟨⟨f, ?_, hf⟩, fun ws h => ?_⟩
    · rw [hcur]
      unfold State.namedWeights
      dsimp only
      rw [if_pos hsome, if_pos hsome]
    · rw [hi.generating ws h] at hsome
      cases hsome
  | receiverEnded sessionId resultBox hrun =>
    exact ⟨⟨f, hcur, hf⟩, hv.generating⟩

/-- **A version names one set of weights** in every run whose sessions, when they end
without a successful finish, leave the weights as they found them. -/
theorem sameVersion_sameWeights (cfg : Config) (weights : W) {s : State W}
    (h : ((server cfg weights).restrict KeepsWeights).Reach s) : VersionNamesWeights s := by
  have hv : VersionInv s := by
    refine System.Reach.induct (P := VersionInv) (fun t ht => ?_) (fun t e t' hr hv hstep => ?_) h
    · obtain rfl : t = init weights := ht
      exact ⟨⟨fun _ => weights, rfl, fun a ha => by cases ha⟩, fun ws h => by cases h⟩
    · exact versionInv_effect (inv_of_reach (System.reach_of_restrict hr)) hv hstep.2
        (effect_of_step hstep.1)
  exact hv.versionNamesWeights

def exampleConfig : Config := ⟨false, 600, 1⟩

/-- A whole session: generate, load two buckets, finish, generate. -/
def finishedSession : List (Event ℕ) :=
  [.request .generate 0 true, .forward, .generateEnd none true,
    .request (.startWeightSync none none) 7 true, .startEnd true, .load 7 1, .load 7 2,
    .receiverEnd 7 (.ok "2 buckets"), .request (.finishWeightSync (some 7) none) 0 true, .joined true,
    .request .generate 0 true, .forward, .generateEnd none true]

/-- The test of `KeepsWeights`. -/
def keepsWeights (s : State ℕ) (e : Event ℕ) : Bool := !leavesUnfinished s e || s.weights == s.sessionWeights

theorem sameVersion_sameWeights_finished :
    ∃ s, System.runFn (step exampleConfig) (init 0) finishedSession = some s ∧ VersionNamesWeights s := by
  have hrun : ∃ s, System.runFn (fun s e => if keepsWeights s e then step exampleConfig s e else none)
      (init 0) finishedSession = some s ∧
        System.runFn (step exampleConfig) (init 0) finishedSession = some s := ⟨_, rfl, rfl⟩
  obtain ⟨s, hs, hs'⟩ := hrun
  have hkeep : ∀ (s : State ℕ) (e : Event ℕ), keepsWeights s e = true → KeepsWeights s e :=
    fun s e h hl => by simpa [keepsWeights, hl] using h
  exact ⟨s, hs', sameVersion_sameWeights exampleConfig 0
    (System.reach_restrict_of_run hkeep (.init rfl) hs)⟩

/-- The receiver loads one bucket and fails; the client aborts. -/
def abortedSession : List (Event ℕ) :=
  [.request .generate 0 true, .forward, .generateEnd none true,
    .request (.startWeightSync none none) 7 true, .startEnd true, .load 7 1,
    .receiverEnd 7 (.error "sender failed"), .request (.abortWeightSync (some 7) none none) 0 true,
    .joined true, .request .generate 0 true, .forward, .generateEnd none true]

/-- **An abort after one bucket** leaves new weights under the old version. -/
theorem abort_changes_weights :
    ¬ ∀ (cfg : Config) (weights : ℕ) (s : State ℕ), (server cfg weights).Reach s → VersionNamesWeights s := by
  intro h
  obtain ⟨s, hs⟩ : ∃ s, System.runFn (step exampleConfig) (init 0) abortedSession = some s := ⟨_, rfl⟩
  have hnames := h exampleConfig 0 s (System.reach_of_run (.init rfl) hs)
  have hanswers : s.answers.filterMap (·.reply.generation) = [(0, [0]), (0, [1])] := by
    obtain rfl := (Option.some.inj hs).symm
    rfl
  have hmem : ∀ g ∈ [((0 : ℕ), [(0 : ℕ)]), (0, [1])], ∃ a ∈ s.answers, a.reply.generation = some g := by
    intro g hg
    rw [← hanswers] at hg
    exact List.mem_filterMap.1 hg
  obtain ⟨a, ha, hga⟩ := hmem (0, [0]) (by simp)
  obtain ⟨b, hb, hgb⟩ := hmem (0, [1]) (by simp)
  exact absurd (hnames a ha b hb 0 [0] [1] hga hgb 0 (by simp) 1 (by simp)) (by decide)

end Opd.Clight.StudentServer

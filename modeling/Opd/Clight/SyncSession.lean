import Opd.Clight.StudentServer

/-!
# Sync sessions of the student server

A session blocks `generate` until a finish or an abort request with its id ends it. The
id is in the reply to the start request, and in the error that answers a finish or an
abort request with another id.

* `request_answered`: with a session open, a request without its id is answered at once.
* `endsSession_of_ended`: once the receiver has ended, a finish or an abort request with
  the id ends the session.
* `serves_of_reach`: what holds in every reachable state.
-/

namespace Opd.Clight.StudentServer

open Lib

variable {W : Type*}

/-- The `session_id` of a request. -/
def Request.sessionId : Request → Option SessionId
  | .abortWeightSync sessionId _ _ => sessionId
  | .finishWeightSync sessionId _ => sessionId
  | _ => none

def Request.isEnding : Request → Bool
  | .abortWeightSync _ _ _ | .finishWeightSync _ _ => true
  | _ => false

def Knows (s : State W) (sessionId : SessionId) : Prop :=
  ∃ a ∈ s.answers, a.sent = true ∧ a.reply.sessionId = some sessionId

/-- A request that a client can build from the replies received so far. -/
def CanBuild (s : State W) (r : Request) : Prop := ∀ sessionId, r.sessionId = some sessionId → Knows s sessionId

/-- The request gets the lock, its `join` does not time out, and it leaves the server
without a session, whether or not its reply can be sent. -/
def EndsSession (cfg : Config) (s : State W) (r : Request) : Prop :=
  ∀ uuid sent, ∃ s1, step cfg s (.request r uuid sent) = some s1 ∧
    (∀ sent', step cfg s1 (.timedOut sent') = none) ∧
    ∀ sent', ∃ s2, step cfg s1 (.joined sent') = some s2 ∧ s2.activeSyncSession = none

def ReceiverEnded (s : State W) (session : Session) : Prop :=
  s.activeSyncSession = some session ∧
    ∃ resultBox, s.receivers session.sessionId = some (.ended resultBox)

/-! ## Single requests -/

variable {cfg : Config}

theorem handle_of_request {s s' : State W} {r : Request} {uuid : SessionId} {sent : Bool}
    (h : step cfg s (.request r uuid sent) = some s') : handle cfg s uuid sent r = some s' := by
  simp only [step, request] at h
  split at h
  · exact h
  · exact h
  · exact h
  · cases h

/-- **With a session open**, a request without its id is answered at once and changes
nothing. -/
theorem request_answered {s s' : State W} {session : Session} {r : Request} {uuid : SessionId} {sent : Bool}
    (hactive : s.activeSyncSession = some session) (hr : r.sessionId ≠ some session.sessionId)
    (h : step cfg s (.request r uuid sent) = some s') :
    ∃ reply, s' = s.answer reply sent ∧
      (r.isEnding = true → reply = .failed (.mismatch r.sessionId session.sessionId)) := by
  have hhandle := handle_of_request h
  cases r with
  | ping => cases hhandle; exact ⟨_, rfl, fun h => by cases h⟩
  | unsupported op => cases hhandle; exact ⟨_, rfl, fun h => by cases h⟩
  | generate | startWeightSync =>
    simp only [handle, hactive] at hhandle
    cases hhandle
    exact ⟨_, rfl, fun h => by cases h⟩
  | abortWeightSync sessionId timeoutSec reason =>
    have hne : sessionId ≠ some session.sessionId := hr
    simp only [handle, hactive, ne_eq, hne, not_false_eq_true, if_true] at hhandle
    cases hhandle
    exact ⟨_, rfl, fun _ => rfl⟩
  | finishWeightSync sessionId senderSummary =>
    have hne : sessionId ≠ some session.sessionId := hr
    simp only [handle, hactive, ne_eq, hne, not_false_eq_true, if_true] at hhandle
    cases hhandle
    exact ⟨_, rfl, fun _ => rfl⟩

theorem request_no_session {s s' : State W} {r : Request} {uuid : SessionId} {sent : Bool}
    (hactive : s.activeSyncSession = none) (hr : r.isEnding = true) (h : step cfg s (.request r uuid sent) = some s') :
    ∃ reply, s' = s.answer reply sent := by
  have hhandle := handle_of_request h
  cases r with
  | ping | unsupported | generate | startWeightSync => cases hr
  | abortWeightSync sessionId timeoutSec reason =>
    simp only [handle, hactive] at hhandle
    cases hhandle
    exact ⟨_, rfl⟩
  | finishWeightSync sessionId senderSummary =>
    simp only [handle, hactive] at hhandle
    cases hhandle
    exact ⟨_, rfl⟩

/-- **Another session id** leaves the session and the version alone. -/
theorem ending_mismatch {s s' : State W} {r : Request} {uuid : SessionId} {sent : Bool} (hr : r.isEnding = true)
    (hne : r.sessionId ≠ s.activeId) (h : step cfg s (.request r uuid sent) = some s') :
    s'.activeSyncSession = s.activeSyncSession ∧ s'.weightVersion = s.weightVersion := by
  cases hactive : s.activeSyncSession with
  | none =>
    obtain ⟨reply, rfl⟩ := request_no_session hactive hr h
    exact ⟨hactive, rfl⟩
  | some session =>
    have hne' : r.sessionId ≠ some session.sessionId := by
      unfold State.activeId at hne
      rwa [hactive] at hne
    obtain ⟨reply, rfl, -⟩ := request_answered hactive hne' h
    exact ⟨hactive, rfl⟩

theorem endsSession_of_ended {s : State W} {session : Session} (hlock : s.lock = .free)
    (hended : ReceiverEnded s session) (timeoutSec : Option ℕ) (reason : Option String)
    (senderSummary : Option String) :
    EndsSession cfg s (.abortWeightSync (some session.sessionId) timeoutSec reason) ∧
      EndsSession cfg s (.finishWeightSync (some session.sessionId) senderSummary) := by
  obtain ⟨hactive, resultBox, hrec⟩ := hended
  constructor <;> intro uuid sent
  -- the command takes the lock, and its join returns at once
  · refine ⟨{ s with lock := .aborting session (abortTimeoutSec cfg timeoutSec) reason }, ?_, ?_, ?_⟩
    · simp only [step, request, hlock, handle, hactive, ne_eq, not_true_eq_false, if_false]
    · intro sent'
      simp only [step, timedOut, hrec]
    · intro sent'
      simp only [step, joined, hrec]
      exact ⟨_, rfl, rfl⟩
  · refine ⟨{ s with lock := .finishing session senderSummary }, ?_, ?_, ?_⟩
    · simp only [step, request, hlock, handle, hactive, ne_eq, not_true_eq_false, if_false]
    · intro sent'
      simp only [step, timedOut, hrec]
    · intro sent'
      cases resultBox with
      | ok result =>
        simp only [step, joined, hrec]
        exact ⟨_, rfl, rfl⟩
      | error error =>
        simp only [step, joined, hrec]
        exact ⟨_, rfl, rfl⟩

theorem learns_sessionId {s : State W} {session : Session} (hlock : s.lock = .free)
    (hactive : s.activeSyncSession = some session) (uuid : SessionId) :
    ∃ s1, step cfg s (.request (.abortWeightSync none none none) uuid true) = some s1 ∧
      s1.activeSyncSession = s.activeSyncSession ∧ s1.receivers = s.receivers ∧ s1.lock = .free ∧
      Knows s1 session.sessionId := by
  refine ⟨s.answer (.failed (.mismatch none session.sessionId)) true, ?_, rfl, rfl, hlock, ?_⟩
  · have hne : (none : Option SessionId) ≠ some session.sessionId := nofun
    simp only [step, request, hlock, handle, hactive, ne_eq, hne, not_false_eq_true, if_true]
  · exact ⟨_, List.mem_append_right _ (List.mem_singleton.2 rfl), rfl, rfl⟩

/-- Whoever holds the lock when the receiver has ended releases it with its next step. -/
theorem lock_released {s : State W} (hi : Inv s) {session : Session} (hended : ReceiverEnded s session)
    (hlock : s.lock ≠ .free) :
    ∃ e s1, step cfg s e = some s1 ∧ s1.lock = .free ∧
      (s1.activeSyncSession = none ∨ ReceiverEnded s1 session) := by
  obtain ⟨hactive, resultBox, hrec⟩ := hended
  -- who holds the lock for a session holds it for the active one
  have hsame : ∀ session', s.lock.session = some session' → session' = session := by
    intro session' h
    have := hi.holder session' h
    rw [hactive] at this
    exact (Option.some.inj this).symm
  cases hl : s.lock with
  | free => exact absurd hl hlock
  -- no generation runs during a session
  | generating weights =>
    have := hi.generating weights hl
    rw [hactive] at this
    cases this
  | starting session' =>
    obtain rfl := hsame session' (by rw [hl]; rfl)
    refine ⟨.startEnd true, ?_⟩
    cases resultBox with
    | ok result =>
      simp only [step, startEnd, hl, hrec]
      exact ⟨_, rfl, rfl, Or.inr ⟨hactive, _, hrec⟩⟩
    | error error =>
      simp only [step, startEnd, hl, hrec]
      exact ⟨_, rfl, rfl, Or.inl rfl⟩
  | aborting session' timeoutSec reason =>
    obtain rfl := hsame session' (by rw [hl]; rfl)
    refine ⟨.joined true, ?_⟩
    simp only [step, joined, hl, hrec]
    exact ⟨_, rfl, rfl, Or.inl rfl⟩
  | finishing session' senderSummary =>
    obtain rfl := hsame session' (by rw [hl]; rfl)
    refine ⟨.joined true, ?_⟩
    cases resultBox with
    | ok result =>
      simp only [step, joined, hl, hrec]
      exact ⟨_, rfl, rfl, Or.inl rfl⟩
    | error error =>
      simp only [step, joined, hl, hrec]
      exact ⟨_, rfl, rfl, Or.inl rfl⟩

/-! ## Every reachable state -/

/-- **What the sessions keep**, in one state. -/
structure Serves (cfg : Config) (s : State W) : Prop where
  /-- At most one receiver runs, that of the one session there can be. -/
  running : ∀ sessionId, s.receivers sessionId = some .running → s.activeId = some sessionId
  /-- `generate` does not run while there is a session. -/
  generate : ∀ weights, s.lock = .generating weights → s.activeSyncSession = none
  /-- The version is the number of finish requests that succeeded. -/
  version : s.weightVersion = finishes s.answers
  /-- A finish or abort request with another id changes nothing. -/
  mismatch : ∀ r uuid sent s', r.isEnding = true → r.sessionId ≠ s.activeId →
    step cfg s (.request r uuid sent) = some s' →
      s'.activeSyncSession = s.activeSyncSession ∧ s'.weightVersion = s.weightVersion
  /-- Once the receiver has ended, the abort and the finish request with the id of the session end
  it. -/
  ends : ∀ session, ReceiverEnded s session → s.lock = .free → ∀ timeoutSec reason senderSummary,
    EndsSession cfg s (.abortWeightSync (some session.sessionId) timeoutSec reason) ∧
      EndsSession cfg s (.finishWeightSync (some session.sessionId) senderSummary)
  /-- A client without the id gets it from the answer to one request. -/
  learns : ∀ session, s.activeSyncSession = some session → s.lock = .free → ∀ uuid,
    ∃ s1, step cfg s (.request (.abortWeightSync none none none) uuid true) = some s1 ∧
      s1.activeSyncSession = s.activeSyncSession ∧ s1.receivers = s.receivers ∧ s1.lock = .free ∧
      Knows s1 session.sessionId
  /-- The lock does not stay taken. -/
  released : ∀ session, ReceiverEnded s session → s.lock ≠ .free →
    ∃ e s1, step cfg s e = some s1 ∧ s1.lock = .free ∧
      (s1.activeSyncSession = none ∨ ReceiverEnded s1 session)

/-- **The sessions of the student server**, in every reachable state. -/
theorem serves_of_reach (cfg : Config) (weights : W) {s : State W} (h : (server cfg weights).Reach s) :
    Serves cfg s := by
  have hi := inv_of_reach h
  exact {
    running := hi.running
    generate := hi.generating
    version := hi.version
    mismatch := fun r uuid sent s' hr hne hstep => ending_mismatch hr hne hstep
    ends := fun session hended hlock t reason m => endsSession_of_ended hlock hended t reason m
    learns := fun session hactive hlock uuid => learns_sessionId hlock hactive uuid
    released := fun session hended hlock => lock_released hi hended hlock }

/-- A start request, whose receiver ends; `sent` says whether the reply arrives. -/
def openedSession (sent : Bool) : List (Event ℕ) :=
  [.request (.startWeightSync none none) 7 sent, .startEnd sent, .receiverEnd 7 (.ok "0 buckets")]

def lostFinish : List (Event ℕ) :=
  openedSession true ++ [.request (.finishWeightSync (some 7) none) 0 false, .joined false]

theorem serves_openedSession :
    ∃ s, System.runFn (step ⟨false, 600, 1⟩) (init 0) (openedSession true) = some s ∧
      Serves ⟨false, 600, 1⟩ s := by
  obtain ⟨s, hs⟩ : ∃ s, System.runFn (step ⟨false, 600, 1⟩) (init 0) (openedSession true) = some s := ⟨_, rfl⟩
  exact ⟨s, hs, serves_of_reach ⟨false, 600, 1⟩ 0 (System.reach_of_run (.init rfl) hs)⟩

/-- How many finish requests were answered with success, the lost replies left out. -/
def reportedFinishes (answers : List (Answer W)) : ℕ :=
  answers.countP fun a => a.reply.isFinished && a.sent

/-- **Lost replies.** With the reply to a finish request lost, the version is not the
number of finish requests answered; with the reply to a start request lost, no request
that a client can build at that moment ends the session. -/
theorem lostReplies :
    (¬ ∀ (cfg : Config) (weights : ℕ) (s : State ℕ), (server cfg weights).Reach s →
      s.weightVersion = reportedFinishes s.answers) ∧
    ¬ ∀ (cfg : Config) (weights : ℕ) (s : State ℕ) (session : Session), (server cfg weights).Reach s →
      ReceiverEnded s session → s.lock = .free → ∃ r, CanBuild s r ∧ EndsSession cfg s r := by
  constructor
  · intro h
    obtain ⟨s, hs, hversion⟩ : ∃ s, System.runFn (step ⟨false, 600, 1⟩) (init 0) lostFinish = some s ∧
        s.weightVersion ≠ reportedFinishes s.answers := ⟨_, rfl, by decide⟩
    exact hversion (h _ 0 s (System.reach_of_run (.init rfl) hs))
  · intro h
    obtain ⟨s, hs, hactive, hrec, hlock, hanswers⟩ :
        ∃ s, System.runFn (step ⟨false, 600, 1⟩) (init 0) (openedSession false) = some s ∧
          s.activeSyncSession = some (newSession ⟨false, 600, 1⟩ 7 none none) ∧
          s.receivers 7 = some (.ended (.ok "0 buckets")) ∧ s.lock = .free ∧
          ∀ a ∈ s.answers, a.sent = false := ⟨_, rfl, rfl, rfl, rfl, by simp [State.answer, State.release, init]⟩
    obtain ⟨r, hbuild, hends⟩ := h _ 0 s _ (System.reach_of_run (.init rfl) hs) ⟨hactive, _, hrec⟩ hlock
    -- nobody knows the id, so the request is answered at once
    have hr : r.sessionId ≠ some 7 := by
      intro h7
      obtain ⟨a, ha, hsent, -⟩ := hbuild 7 h7
      rw [hanswers a ha] at hsent
      cases hsent
    obtain ⟨s1, hs1, -, hjoin⟩ := hends 0 true
    obtain ⟨s2, hs2, -⟩ := hjoin true
    obtain ⟨reply, rfl, -⟩ := request_answered hactive hr hs1
    simp [step, joined, State.answer, hlock] at hs2

end Opd.Clight.StudentServer

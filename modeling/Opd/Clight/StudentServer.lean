import Opd.Lib.System
import Mathlib.Data.Nat.Notation
import Mathlib.Logic.Function.Basic

/-!
# The student server: rollouts and weight-sync sessions

`StudentHandler.handle` serves every request in its own thread; one lock is held from
the dispatch of a `generate`, start, finish or abort request to its reply. A start
request opens a session whose receiver thread loads buckets of weights into the model
while other requests come and go; the session ends with a finish or an abort request.

The server is a labelled transition system: a request takes the lock or is answered at
once, the holder of the lock goes on step by step, and the receiver threads run in
between. An answer records whether it could be sent.

* `Effect`, `effect_of_step`: everything a step can do.
* `Inv`, `inv_of_reach`: the invariant of the sessions.
-/

namespace Opd.Clight.StudentServer

open Lib

/-- `uuid.uuid4().hex` -/
abbrev SessionId := ℕ

structure Session where
  sessionId : SessionId
  zmqHandle : String
  useShm : Bool
  requestedUseShm : Option Bool

/-- A receiver thread: still running, or ended with its `result_box`. -/
inductive Receiver
  | running
  | ended (resultBox : Except String String)

inductive ServerError
  | unsupportedOp (op : String)
  | generateDuringSync
  | alreadyActive
  | receiverFailedEarly (error : String)
  | noSession
  | mismatch (got : Option SessionId) (expected : SessionId)
  | abortTimeout (timeoutSec : ℕ)
  | finishTimeout (ipcTimeoutSec : ℕ)
  | receiverFailed (error : String)
  | raised (error : String)

def ServerError.message : ServerError → String
  | .unsupportedOp op => s!"Unsupported op: {op}"
  | .generateDuringSync => "Cannot generate while a remote weight sync session is active."
  | .alreadyActive => "A remote weight sync session is already active."
  | .receiverFailedEarly error => s!"Student vLLM remote IPC receiver failed before sender started: {error}"
  | .noSession => "No remote weight sync session is active."
  | .mismatch got expected =>
    match got with
    | some sessionId => s!"Remote weight sync session mismatch: got {sessionId}, expected {expected}."
    | none => s!"Remote weight sync session mismatch: got None, expected {expected}."
  | .abortTimeout timeoutSec =>
    s!"Student vLLM remote IPC receiver is still active after abort timeout={timeoutSec}s. " ++
      "Restart the student server before continuing."
  | .finishTimeout ipcTimeoutSec => s!"Student vLLM remote IPC receiver timed out after {ipcTimeoutSec}s."
  | .receiverFailed error => s!"Student vLLM remote IPC receiver failed: {error}"
  | .raised error => error

/-- The replies. A `generate` reply carries the weights of its forward passes in place of
the sequences they produce. -/
inductive Reply (W : Type*)
  | pong (weightVersion : ℕ) (activeSyncSession : Bool)
  | generated (weightVersion : ℕ) (weights : List W)
  | started (session : Session) (serverDefaultUseShm : Bool) (weightVersion : ℕ)
  | nothingToAbort (weightVersion : ℕ)
  | aborted (weightVersion : ℕ) (receiver : Except String String) (reason : Option String)
  | finished (weightVersion : ℕ) (receiverResult : String) (senderSummary : Option String)
  | failed (error : ServerError)

/-- The session id a client reads in a reply: the `session_id` of a start reply, or the
expected one in the text of a mismatch. -/
def Reply.sessionId {W : Type*} : Reply W → Option SessionId
  | .started session _ _ => some session.sessionId
  | .failed (.mismatch _ expected) => some expected
  | _ => none

def Reply.isFinished {W : Type*} : Reply W → Bool
  | .finished _ _ _ => true
  | _ => false

/-- The version and the weights of a `generate` reply. -/
def Reply.generation {W : Type*} : Reply W → Option (ℕ × List W)
  | .generated weightVersion weights => some (weightVersion, weights)
  | _ => none

/-- A reply, and whether `send_message` could send it. -/
structure Answer (W : Type*) where
  reply : Reply W
  sent : Bool

/-- The request that holds the lock, with its local variables. -/
inductive Holder (W : Type*)
  | free
  | generating (weights : List W)
  | starting (session : Session)
  | aborting (session : Session) (timeoutSec : ℕ) (reason : Option String)
  | finishing (session : Session) (senderSummary : Option String)

def Holder.session {W : Type*} : Holder W → Option Session
  | .free | .generating _ => none
  | .starting session | .aborting session _ _ | .finishing session _ => some session

/-- The options of the server process. -/
structure Config where
  useShm : Bool
  ipcTimeoutSec : ℕ
  pid : ℕ

/-- The state of the server. `sessionWeights` is a ghost: the weights when the last
session was opened. -/
structure State (W : Type*) where
  weights : W
  weightVersion : ℕ
  activeSyncSession : Option Session
  receivers : SessionId → Option Receiver
  lock : Holder W
  answers : List (Answer W)
  sessionWeights : W

/-- The requests, with the fields `handle` reads. -/
inductive Request
  | ping
  | unsupported (op : String)
  | generate
  | startWeightSync (useShm : Option Bool) (zmqHandle : Option String)
  | abortWeightSync (sessionId : Option SessionId) (timeoutSec : Option ℕ) (reason : Option String)
  | finishWeightSync (sessionId : Option SessionId) (senderSummary : Option String)

/-- The atomic steps. `uuid` is what `uuid4` returns in a start request; `sent` says
whether the reply of the step can be sent. -/
inductive Event (W : Type*)
  | request (request : Request) (uuid : SessionId) (sent : Bool)
  /-- A handler raises before it changes anything. -/
  | raises (error : String) (sent : Bool)
  /-- One forward pass of the running `generate`. -/
  | forward
  | generateEnd (error : Option String) (sent : Bool)
  | startEnd (sent : Bool)
  /-- `thread.join` returns because the receiver has ended. -/
  | joined (sent : Bool)
  | timedOut (sent : Bool)
  /-- A receiver loads a bucket. -/
  | load (sessionId : SessionId) (weights : W)
  | receiverEnd (sessionId : SessionId) (resultBox : Except String String)

variable {W : Type*}

namespace State

variable (s : State W)

def answer (reply : Reply W) (sent : Bool) : State W := { s with answers := s.answers ++ [⟨reply, sent⟩] }

def release : State W := { s with lock := .free }

/-- `active_sync_session = None` -/
def clearSession : State W := { s with activeSyncSession := none }

def activeId : Option SessionId := s.activeSyncSession.map (·.sessionId)

end State

def newSession (cfg : Config) (uuid : SessionId) (useShm : Option Bool) (zmqHandle : Option String) :
    Session where
  sessionId := uuid
  zmqHandle := (zmqHandle.filter (· ≠ "")).getD
    s!"ipc:///tmp/clight-student-vllm-remote-{cfg.pid}-{uuid}.sock"
  useShm := useShm.getD cfg.useShm
  requestedUseShm := useShm

def abortTimeoutSec (cfg : Config) (timeoutSec : Option ℕ) : ℕ :=
  min (timeoutSec.getD (min cfg.ipcTimeoutSec 30)) cfg.ipcTimeoutSec

/-- `handle` with the lock taken, to its reply or to its first blocking call. -/
def handle (cfg : Config) (s : State W) (uuid : SessionId) (sent : Bool) : Request → Option (State W)
  | .ping => some (s.answer (.pong s.weightVersion s.activeSyncSession.isSome) sent)
  | .unsupported op => some (s.answer (.failed (.unsupportedOp op)) sent)
  | .generate =>
    match s.activeSyncSession with
    | some _ => some (s.answer (.failed .generateDuringSync) sent)
    | none => some { s with lock := .generating [] }
  | .startWeightSync useShm zmqHandle =>
    match s.activeSyncSession with
    | some _ => some (s.answer (.failed .alreadyActive) sent)
    | none =>
      -- `uuid4` does not repeat an id
      if (s.receivers uuid).isSome then none
      else
        let session := newSession cfg uuid useShm zmqHandle
        some { s with
          receivers := Function.update s.receivers uuid (some .running)
          activeSyncSession := some session
          lock := .starting session
          sessionWeights := s.weights }
  | .abortWeightSync sessionId timeoutSec reason =>
    match s.activeSyncSession with
    | none => some (s.answer (.nothingToAbort s.weightVersion) sent)
    | some session =>
      if sessionId ≠ some session.sessionId then
        some (s.answer (.failed (.mismatch sessionId session.sessionId)) sent)
      else some { s with lock := .aborting session (abortTimeoutSec cfg timeoutSec) reason }
  | .finishWeightSync sessionId senderSummary =>
    match s.activeSyncSession with
    | none => some (s.answer (.failed .noSession) sent)
    | some session =>
      if sessionId ≠ some session.sessionId then
        some (s.answer (.failed (.mismatch sessionId session.sessionId)) sent)
      else some { s with lock := .finishing session senderSummary }

/-- A request: `ping` and unsupported ops are answered without the lock. -/
def request (cfg : Config) (s : State W) (r : Request) (uuid : SessionId) (sent : Bool) : Option (State W) :=
  match r, s.lock with
  | .ping, _ | .unsupported _, _ | _, .free => handle cfg s uuid sent r
  | _, _ => none

/-- The end of `generate`, by its reply or by an exception of the rollout. -/
def generateEnd (s : State W) (error : Option String) (sent : Bool) : Option (State W) :=
  match s.lock with
  | .generating weights =>
    match error with
    | none => some (s.release.answer (.generated s.weightVersion weights) sent)
    | some e => some (s.release.answer (.failed (.raised e)) sent)
  | _ => none

def startEnd (cfg : Config) (s : State W) (sent : Bool) : Option (State W) :=
  match s.lock with
  | .starting session =>
    match s.receivers session.sessionId with
    | some (.ended (.error error)) =>
      some (s.clearSession.release.answer (.failed (.receiverFailedEarly error)) sent)
    | _ => some (s.release.answer (.started session cfg.useShm s.weightVersion) sent)
  | _ => none

/-- An abort or finish request after a `join` that found the receiver ended. -/
def joined (s : State W) (sent : Bool) : Option (State W) :=
  match s.lock with
  | .aborting session _ reason =>
    match s.receivers session.sessionId with
    | some (.ended resultBox) =>
      some (s.clearSession.release.answer (.aborted s.weightVersion resultBox reason) sent)
    | _ => none
  | .finishing session senderSummary =>
    match s.receivers session.sessionId with
    | some (.ended (.ok result)) =>
      some ({ s.clearSession.release with weightVersion := s.weightVersion + 1 }.answer
        (.finished (s.weightVersion + 1) result senderSummary) sent)
    | some (.ended (.error error)) =>
      some (s.clearSession.release.answer (.failed (.receiverFailed error)) sent)
    | _ => none
  | _ => none

/-- An abort or finish request after a `join` that found the receiver alive. -/
def timedOut (cfg : Config) (s : State W) (sent : Bool) : Option (State W) :=
  match s.lock with
  | .aborting session timeoutSec _ =>
    match s.receivers session.sessionId with
    | some .running => some (s.release.answer (.failed (.abortTimeout timeoutSec)) sent)
    | _ => none
  | .finishing session _ =>
    match s.receivers session.sessionId with
    | some .running => some (s.release.answer (.failed (.finishTimeout cfg.ipcTimeoutSec)) sent)
    | _ => none
  | _ => none

def step (cfg : Config) (s : State W) : Event W → Option (State W)
  | .request r uuid sent => request cfg s r uuid sent
  | .raises error sent =>
    match s.lock with
    | .free => some (s.answer (.failed (.raised error)) sent)
    | _ => none
  | .forward =>
    match s.lock with
    | .generating weights => some { s with lock := .generating (weights ++ [s.weights]) }
    | _ => none
  | .generateEnd error sent => generateEnd s error sent
  | .startEnd sent => startEnd cfg s sent
  | .joined sent => joined s sent
  | .timedOut sent => timedOut cfg s sent
  | .load sessionId weights =>
    match s.receivers sessionId with
    | some .running => some { s with weights := weights }
    | _ => none
  | .receiverEnd sessionId resultBox =>
    match s.receivers sessionId with
    | some .running =>
      some { s with receivers := Function.update s.receivers sessionId (some (.ended resultBox)) }
    | _ => none

def init (weights : W) : State W where
  weights := weights
  weightVersion := 0
  activeSyncSession := none
  receivers := fun _ => none
  lock := .free
  answers := []
  sessionWeights := weights

def server (cfg : Config) (weights : W) : System (State W) (Event W) :=
  System.ofFn (· = init weights) (step cfg)

/-! ## What a step can do -/

/-- The step ends the session without a successful finish: a start request finds that
the receiver has failed, a finish request too, or an abort request is carried out. -/
def leavesUnfinished (s : State W) : Event W → Bool
  | .startEnd _ =>
    match s.lock with
    | .starting session =>
      match s.receivers session.sessionId with
      | some (.ended (.error _)) => true
      | _ => false
    | _ => false
  | .joined _ =>
    match s.lock with
    | .aborting _ _ _ => true
    | .finishing session _ =>
      match s.receivers session.sessionId with
      | some (.ended (.error _)) => true
      | _ => false
    | _ => false
  | _ => false

/-- **The effects of a step.** -/
inductive Effect (s : State W) (e : Event W) : State W → Prop
  | answered (reply : Reply W) (sent : Bool) (hf : reply.isFinished = false)
      (hg : reply.generation = none) : Effect s e (s.answer reply sent)
  | generateBegin (hlock : s.lock = .free) (hactive : s.activeSyncSession = none) :
      Effect s e { s with lock := .generating [] }
  | forward (weights : List W) (hlock : s.lock = .generating weights) :
      Effect s e { s with lock := .generating (weights ++ [s.weights]) }
  | generated (weights : List W) (sent : Bool) (hlock : s.lock = .generating weights) :
      Effect s e (s.release.answer (.generated s.weightVersion weights) sent)
  | released (reply : Reply W) (sent : Bool) (hf : reply.isFinished = false)
      (hg : reply.generation = none) : Effect s e (s.release.answer reply sent)
  | opened (session : Session) (hlock : s.lock = .free) (hactive : s.activeSyncSession = none)
      (hfresh : s.receivers session.sessionId = none) :
      Effect s e { s with
        receivers := Function.update s.receivers session.sessionId (some .running)
        activeSyncSession := some session
        lock := .starting session
        sessionWeights := s.weights }
  | held (holder : Holder W) (session : Session) (hlock : s.lock = .free)
      (hactive : s.activeSyncSession = some session) (hholder : holder.session = some session)
      (hg : ∀ weights, holder ≠ .generating weights) : Effect s e { s with lock := holder }
  | ended (reply : Reply W) (sent : Bool) (session : Session) (resultBox : Except String String)
      (hlock : s.lock.session = some session)
      (hended : s.receivers session.sessionId = some (.ended resultBox))
      (hunfinished : leavesUnfinished s e = true) (hf : reply.isFinished = false)
      (hg : reply.generation = none) : Effect s e (s.clearSession.release.answer reply sent)
  | finished (session : Session) (result : String) (senderSummary : Option String) (sent : Bool)
      (hlock : s.lock.session = some session)
      (hended : s.receivers session.sessionId = some (.ended (.ok result))) :
      Effect s e ({ s.clearSession.release with weightVersion := s.weightVersion + 1 }.answer
        (.finished (s.weightVersion + 1) result senderSummary) sent)
  | loaded (sessionId : SessionId) (weights : W) (hrun : s.receivers sessionId = some .running) :
      Effect s e { s with weights := weights }
  | receiverEnded (sessionId : SessionId) (resultBox : Except String String)
      (hrun : s.receivers sessionId = some .running) :
      Effect s e { s with receivers := Function.update s.receivers sessionId (some (.ended resultBox)) }

theorem effect_of_handle {cfg : Config} {s s' : State W} {e : Event W} {uuid : SessionId} {sent : Bool}
    {r : Request} (hlock : s.lock = .free ∨ r = .ping ∨ ∃ op, r = .unsupported op)
    (h : handle cfg s uuid sent r = some s') : Effect s e s' := by
  cases r with
  | ping => cases h; exact .answered _ _ rfl rfl
  | unsupported op => cases h; exact .answered _ _ rfl rfl
  -- the other commands take the lock, so it is free
  | generate =>
    have hfree : s.lock = .free := by simpa using hlock
    simp only [handle] at h
    split at h
    · cases h; exact .answered _ _ rfl rfl
    · rename_i hs
      cases h
      exact .generateBegin hfree hs
  | startWeightSync useShm zmqHandle =>
    have hfree : s.lock = .free := by simpa using hlock
    simp only [handle] at h
    split at h
    · cases h; exact .answered _ _ rfl rfl
    · rename_i hs
      split at h
      · cases h
      · rename_i hnew
        rw [Bool.not_eq_true, Option.isSome_eq_false_iff, Option.isNone_iff_eq_none] at hnew
        cases h
        exact .opened (newSession cfg uuid useShm zmqHandle) hfree hs hnew
  | abortWeightSync sessionId timeoutSec reason =>
    have hfree : s.lock = .free := by simpa using hlock
    simp only [handle] at h
    split at h
    · cases h; exact .answered _ _ rfl rfl
    · rename_i session hs
      split at h
      · cases h; exact .answered _ _ rfl rfl
      · cases h
        exact .held _ session hfree hs rfl nofun
  | finishWeightSync sessionId senderSummary =>
    have hfree : s.lock = .free := by simpa using hlock
    simp only [handle] at h
    split at h
    · cases h; exact .answered _ _ rfl rfl
    · rename_i session hs
      split at h
      · cases h; exact .answered _ _ rfl rfl
      · cases h
        exact .held _ session hfree hs rfl nofun

theorem effect_of_request {cfg : Config} {s s' : State W} {e : Event W} {uuid : SessionId} {sent : Bool}
    {r : Request} (h : request cfg s r uuid sent = some s') : Effect s e s' := by
  unfold request at h
  split at h
  · exact effect_of_handle (Or.inr (Or.inl rfl)) h
  · exact effect_of_handle (Or.inr (Or.inr ⟨_, rfl⟩)) h
  · rename_i hlock
    exact effect_of_handle (Or.inl hlock) h
  · cases h

theorem effect_of_step {cfg : Config} {s s' : State W} {e : Event W} (h : step cfg s e = some s') :
    Effect s e s' := by
  cases e with
  | request r uuid sent => exact effect_of_request h
  | raises error sent =>
    simp only [step] at h
    split at h
    · cases h; exact .answered _ _ rfl rfl
    · cases h
  | forward =>
    simp only [step] at h
    split at h
    · rename_i weights hlock
      cases h
      exact .forward weights hlock
    · cases h
  | generateEnd error sent =>
    simp only [step, generateEnd] at h
    split at h
    · rename_i weights hlock
      cases error with
      | none => cases h; exact .generated weights sent hlock
      | some e => cases h; exact .released _ _ rfl rfl
    · cases h
  | startEnd sent =>
    simp only [step, startEnd] at h
    split at h
    · rename_i session hlock
      split at h
      · rename_i error hrec
        cases h
        -- the receiver failed before the start was answered
        exact .ended _ _ session _ (by rw [hlock]; rfl) hrec (by simp [leavesUnfinished, hlock, hrec]) rfl rfl
      · cases h; exact .released _ _ rfl rfl
    · cases h
  | joined sent =>
    simp only [step, joined] at h
    split at h
    -- an abort has joined the receiver, whatever its result
    · rename_i session timeoutSec reason hlock
      split at h
      · rename_i resultBox hrec
        cases h
        exact .ended _ _ session _ (by rw [hlock]; rfl) hrec (by simp [leavesUnfinished, hlock]) rfl rfl
      · cases h
    -- a finish has joined it, and counts a version if it succeeded
    · rename_i session senderSummary hlock
      split at h
      · rename_i result hrec
        cases h
        exact .finished session result senderSummary sent (by rw [hlock]; rfl) hrec
      · rename_i error hrec
        cases h
        exact .ended _ _ session _ (by rw [hlock]; rfl) hrec (by simp [leavesUnfinished, hlock, hrec]) rfl rfl
      · cases h
    · cases h
  | timedOut sent =>
    simp only [step, timedOut] at h
    split at h
    · split at h
      · cases h; exact .released _ _ rfl rfl
      · cases h
    · split at h
      · cases h; exact .released _ _ rfl rfl
      · cases h
    · cases h
  | load sessionId weights =>
    simp only [step] at h
    split at h
    · rename_i hrun
      cases h
      exact .loaded sessionId weights hrun
    · cases h
  | receiverEnd sessionId resultBox =>
    simp only [step] at h
    split at h
    · rename_i hrun
      cases h
      exact .receiverEnded sessionId resultBox hrun
    · cases h

/-! ## The invariant of the sessions -/

/-- How many finish requests have ended their session with success. -/
def finishes (answers : List (Answer W)) : ℕ := answers.countP (·.reply.isFinished)

structure Inv (s : State W) : Prop where
  /-- A running receiver belongs to the active session. -/
  running : ∀ sessionId, s.receivers sessionId = some .running → s.activeId = some sessionId
  /-- The active session has a receiver. -/
  receiver : ∀ session, s.activeSyncSession = some session → s.receivers session.sessionId ≠ none
  /-- `generate` runs without a session. -/
  generating : ∀ weights, s.lock = .generating weights → s.activeSyncSession = none
  /-- The session of the lock's holder is the active one. -/
  holder : ∀ session, s.lock.session = some session → s.activeSyncSession = some session
  /-- The version counts the successful finishes. -/
  version : s.weightVersion = finishes s.answers

theorem finishes_append (l : List (Answer W)) (reply : Reply W) (sent : Bool) :
    finishes (l ++ [⟨reply, sent⟩]) = finishes l + if reply.isFinished then 1 else 0 := by
  unfold finishes
  rw [List.countP_append, List.countP_singleton]

theorem inv_init (weights : W) : Inv (init weights) where
  running := fun sessionId h => by cases h
  receiver := fun session h => by cases h
  generating := fun _ h => by cases h
  holder := fun session h => by cases h
  version := rfl

theorem Inv.not_running_of_ended {s : State W} (hi : Inv s) {session : Session}
    (hlock : s.lock.session = some session) {resultBox : Except String String}
    (hended : s.receivers session.sessionId = some (.ended resultBox)) (sessionId : SessionId) :
    s.receivers sessionId ≠ some .running := by
  intro hrun
  have h1 := hi.running sessionId hrun
  rw [State.activeId, hi.holder session hlock, Option.map_some, Option.some.injEq] at h1
  rw [← h1, hended] at hrun
  cases hrun

/-- **A step keeps the invariant.** -/
theorem inv_effect {s s' : State W} {e : Event W} (hi : Inv s) (h : Effect s e s') : Inv s' := by
  cases h with
  | answered reply sent hf hg =>
    refine ⟨hi.running, hi.receiver, hi.generating, hi.holder, ?_⟩
    simp only [State.answer, finishes_append, hf, hi.version]
    rfl
  | generateBegin hlock hactive =>
    refine ⟨hi.running, hi.receiver, fun _ _ => hactive, fun session h => (by cases h), hi.version⟩
  | forward weights hlock =>
    refine ⟨hi.running, hi.receiver, fun _ _ => hi.generating weights hlock, fun session h => (by cases h),
      hi.version⟩
  | generated weights sent hlock =>
    refine ⟨hi.running, hi.receiver, fun _ h => (by cases h), fun session h => (by cases h), ?_⟩
    simp only [State.answer, State.release, finishes_append, hi.version, Reply.isFinished]
    rfl
  | released reply sent hf hg =>
    refine ⟨hi.running, hi.receiver, fun _ h => (by cases h), fun session h => (by cases h), ?_⟩
    simp only [State.answer, State.release, finishes_append, hf, hi.version]
    rfl
  | opened session hlock hactive hfresh =>
    -- no receiver was running before, so the new one is the only one
    refine ⟨fun sessionId hrun => ?_, fun session' h => ?_, fun _ h => (by cases h), fun session' h => h,
      hi.version⟩
    · dsimp only at hrun
      by_cases heq : sessionId = session.sessionId
      · rw [heq]
        rfl
      · rw [Function.update_of_ne heq] at hrun
        have := hi.running sessionId hrun
        rw [State.activeId, hactive] at this
        cases this
    · obtain rfl := Option.some.inj h
      dsimp only
      rw [Function.update_self]
      exact Option.some_ne_none _
  | held holder session hlock hactive hholder hg =>
    refine ⟨hi.running, hi.receiver, fun weights h => absurd h (hg weights), fun session' h => ?_, hi.version⟩
    dsimp only at h ⊢
    rw [hholder] at h
    rw [hactive, h]
  | ended reply sent session resultBox hlock hended hunfinished hf hg =>
    refine ⟨fun sessionId hrun => absurd hrun (hi.not_running_of_ended hlock hended sessionId),
      fun session' h => (by cases h), fun _ h => (by cases h), fun session' h => (by cases h), ?_⟩
    simp only [State.answer, State.release, State.clearSession, finishes_append, hf, hi.version]
    rfl
  | finished session result senderSummary sent hlock hended =>
    refine ⟨fun sessionId hrun => absurd hrun (hi.not_running_of_ended hlock hended sessionId),
      fun session' h => (by cases h), fun _ h => (by cases h), fun session' h => (by cases h), ?_⟩
    simp only [State.answer, State.release, State.clearSession, finishes_append, hi.version, Reply.isFinished]
    rfl
  | loaded sessionId weights hrun =>
    exact ⟨hi.running, hi.receiver, hi.generating, hi.holder, hi.version⟩
  | receiverEnded sessionId resultBox hrun =>
    refine ⟨fun sessionId' hrun' => ?_, fun session h => ?_, hi.generating, hi.holder, hi.version⟩
    · dsimp only at hrun'
      by_cases heq : sessionId' = sessionId
      · rw [heq, Function.update_self] at hrun'
        cases hrun'
      · rw [Function.update_of_ne heq] at hrun'
        exact hi.running sessionId' hrun'
    · dsimp only
      by_cases heq : session.sessionId = sessionId
      · rw [heq, Function.update_self]
        exact Option.some_ne_none _
      · rw [Function.update_of_ne heq]
        exact hi.receiver session h

/-- **The invariant holds in every reachable state.** -/
theorem inv_of_reach {cfg : Config} {weights : W} {s : State W} (h : (server cfg weights).Reach s) : Inv s :=
  System.Reach.induct (P := Inv)
    (fun s hs => by
      obtain rfl : s = init weights := hs
      exact inv_init weights)
    (fun _ _ _ _ hi hstep => inv_effect hi (effect_of_step hstep)) h

end Opd.Clight.StudentServer

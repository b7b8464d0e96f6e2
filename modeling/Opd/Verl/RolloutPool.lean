import Opd.Lib.System
import Opd.Verl.ReplayBuffer
import Mathlib.Logic.Function.Basic

/-!
# The rollout pool: producers, TransferQueue and the sampler

The trainer registers prompts in TransferQueue and hands them to the agent loop workers.
A worker runs `_run_prompt` for every prompt: it starts the sessions of the prompt as
concurrent tasks, gathers them and publishes the terminal status of the prompt; a session
writes its trajectories with one batch put. Meanwhile the trainer samples batches with
`ReplayBuffer.sample` and clears them from the queue after training.

The pool is a labelled transition system whose steps are the atomic operations of
TransferQueue, with the local computation up to the next one.

* `Effect`, `effect_of_step`: everything a step can do.
-/

namespace Opd.Verl

open Lib

/-! ## The producers -/

/-- What `_agent_loop_postprocess` reads of an `AgentLoopOutput` for its tag. -/
structure AgentLoopOutput where
  promptIds : List ℕ
  responseIds : List ℕ
  minGlobalSteps : Option ℤ
  maxGlobalSteps : Option ℤ
deriving DecidableEq

def trajectoryTag (globalSteps : ℤ) (output : AgentLoopOutput) : Tag where
  status := some .success
  promptLen := some output.promptIds.length
  responseLen := some output.responseIds.length
  seqLen := some (output.promptIds.length + output.responseIds.length)
  globalSteps := some globalSteps
  minGlobalSteps := some output.minGlobalSteps
  maxGlobalSteps := some output.maxGlobalSteps

/-- `_agent_loop_postprocess`: the keys and tags of the batch put of a session. -/
def agentLoopPostprocess (uid : Uid) (sessionId : ℕ) (globalSteps : ℤ) (outputs : List AgentLoopOutput) :
    List (Key × Tag) :=
  outputs.mapIdx fun i output => (trajectoryKey uid sessionId i, trajectoryTag globalSteps output)

/-- A task of `_run_agent_loop`: before its put, after it, returned, or ended by an
exception. -/
inductive Session
  | running
  | written
  | ended
  | raised
deriving DecidableEq

def Session.isOver : Session → Bool
  | .ended | .raised => true
  | _ => false

/-- A prompt: the status its trainer and `_run_prompt` have published last, the tasks of
`_run_prompt`, and the trajectories that these have put. -/
structure Group where
  partitionId : PartitionId
  globalSteps : ℤ
  status : Status
  sessions : List Session
  written : List (Key × Tag)

def Group.tag (g : Group) : Tag where
  isPrompt := some true
  status := some g.status
  globalSteps := some g.globalSteps

/-! ## The sampler -/

/-- The arguments of `ReplayBuffer.sample`. -/
structure Call where
  globalSteps : ℤ
  partitionId : PartitionId
  batchSize : ℕ

/-- A call of `sample`: before `tq.kv_list`, before the `tq.kv_clear` of the selected
prompts, or before the one of the dropped samples. `snapshot` is what the last
`tq.kv_list` has returned. -/
inductive Sampler
  | idle
  | polling (call : Call)
  | selected (call : Call) (snapshot : Queue) (metadata : Metadata) (uids : List Key)
  | dropping (call : Call) (snapshot : Queue) (uids : List Key) (kept dropped : List (Key × Tag))

structure Record where
  call : Call
  snapshot : Queue
  uids : List Key
  batch : KVBatchMeta
  dropped : List (Key × Tag)
  metrics : List (String × ℚ)

def Record.claims (r : Record) : List (PartitionId × Key) := r.uids.map (r.call.partitionId, ·)

def Sampler.cleared : Sampler → List (PartitionId × Key)
  | .dropping call _ uids _ _ => uids.map (call.partitionId, ·)
  | _ => []

def Sampler.claims : Sampler → List (PartitionId × Key)
  | .selected call _ _ uids => uids.map (call.partitionId, ·)
  | sampler => sampler.cleared

/-! ## The pool -/

/-- The state of the pool. `late` is a ghost: the trajectories put after their prompt was
selected by a sampler. -/
structure Pool where
  queue : Queue
  groups : Uid → Option Group
  sampler : Sampler
  records : List Record
  raised : List (Call × SampleError)
  late : List Key

/-- The atomic steps. -/
inductive Event
  /-- The trainer registers a prompt. -/
  | register (uid : Uid) (partitionId : PartitionId) (globalSteps : ℤ)
  /-- `_run_prompt` starts `n` tasks. -/
  | start (uid : Uid) (n : ℕ)
  /-- A task puts its trajectories. -/
  | write (uid : Uid) (sessionId : ℕ) (outputs : List AgentLoopOutput)
  /-- A task returns, after its put or without outputs. -/
  | sessionEnd (uid : Uid) (sessionId : ℕ)
  /-- A task ends by an exception. -/
  | sessionRaise (uid : Uid) (sessionId : ℕ)
  /-- `gather` has returned and the prompt is set to `finished`. -/
  | finished (uid : Uid)
  /-- `gather` has raised and the prompt is set to `failure`. -/
  | failure (uid : Uid)
  | sample (call : Call)
  /-- `tq.kv_list`, with the iteration order of the set of terminal prompts. -/
  | sync (order : List Key)
  | clearPrompts
  | clearDropped
  /-- The trainer clears a returned batch. -/
  | clearBatch (record : ℕ)

namespace Pool

variable (s : Pool)

/-- The prompts that the calls of `sample` have cleared. -/
def cleared : List (PartitionId × Key) := s.records.flatMap Record.claims ++ s.sampler.cleared

/-- The prompts that the calls of `sample` have selected. -/
def claimed : List (PartitionId × Key) := s.records.flatMap Record.claims ++ s.sampler.claims

def setGroup (uid : Uid) (g : Group) : Pool := { s with groups := Function.update s.groups uid (some g) }

/-- `_run_prompt` publishes a status. -/
def publish (uid : Uid) (g : Group) (status : Status) : Pool :=
  { s with queue := kvPut s.queue g.partitionId uid.text { status := some status } }.setGroup uid
    { g with status := status }

def putItems (uid : Uid) (g : Group) (sessionId : ℕ) (items : List (Key × Tag)) : Pool :=
  { s with
    queue := kvBatchPut s.queue g.partitionId items
    late := if (g.partitionId, uid.text) ∈ s.claimed then s.late ++ items.map Prod.fst else s.late }.setGroup uid
      { g with sessions := g.sessions.set sessionId .written, written := g.written ++ items }

def raise (call : Call) (error : SampleError) : Pool :=
  { s with sampler := .idle, raised := s.raised ++ [(call, error)] }

def returns (r : Record) : Pool := { s with sampler := .idle, records := s.records ++ [r] }

end Pool

/-- `_run_prompt`: the first put and the creation of the tasks. -/
def startPrompt (s : Pool) (uid : Uid) (n : ℕ) : Option Pool :=
  match s.groups uid with
  | some g =>
    if g.status = .pending then some (s.publish uid { g with sessions := List.replicate n .running } .running)
    else none
  | none => none

/-- A task puts its trajectories; without outputs it puts nothing. -/
def writeSession (s : Pool) (uid : Uid) (sessionId : ℕ) (outputs : List AgentLoopOutput) : Option Pool :=
  match s.groups uid with
  | some g =>
    if g.sessions[sessionId]? = some .running ∧ outputs ≠ [] then
      some (s.putItems uid g sessionId (agentLoopPostprocess uid sessionId g.globalSteps outputs))
    else none
  | none => none

def endSession (s : Pool) (uid : Uid) (sessionId : ℕ) (raises : Bool) : Option Pool :=
  match s.groups uid with
  | some g =>
    match g.sessions[sessionId]?, raises with
    | some .running, true => some (s.setGroup uid { g with sessions := g.sessions.set sessionId .raised })
    | some .running, false | some .written, false =>
      some (s.setGroup uid { g with sessions := g.sessions.set sessionId .ended })
    | _, _ => none
  | none => none

/-- The end of `_run_prompt`: `gather` returns when all tasks have returned and raises as
soon as one of them has raised. -/
def endPrompt (s : Pool) (uid : Uid) (status : Status) : Option Pool :=
  match s.groups uid with
  | some g =>
    if g.status ≠ .running then none
    else if status = .finished ∧ ∀ session ∈ g.sessions, session = .ended then some (s.publish uid g .finished)
    else if status = .failure ∧ .raised ∈ g.sessions then some (s.publish uid g .failure)
    else none
  | none => none

/-- `sample` from `tq.kv_list` to its next call of TransferQueue. -/
def syncSampler (cfg : ReplayConfig) (s : Pool) (order : List Key) : Option Pool :=
  match s.sampler with
  | .polling call =>
    match sync s.queue with
    | .error error => some (s.raise call error)
    | .ok metadata =>
      if ¬ hasEnoughSamples cfg metadata call.globalSteps call.partitionId call.batchSize then
        -- `time.sleep(self.poll_interval)`
        some s
      else if order.Perm (sampleableKeys metadata call.partitionId) then
        let uids := selectPrompts metadata call.partitionId call.batchSize order
        some { s with sampler := .selected call s.queue metadata uids }
      else none
  | _ => none

/-- `sample` from the `tq.kv_clear` of the selected prompts. -/
def clearPrompts (cfg : ReplayConfig) (s : Pool) : Option Pool :=
  match s.sampler with
  | .selected call snapshot metadata uids =>
    match kvClear s.queue call.partitionId uids with
    | none => some (s.raise call .emptyClear)
    | some queue =>
      let batch := KVBatchMeta.ofItems call.partitionId (collect metadata call.partitionId uids)
      match splitStale cfg call.globalSteps batch with
      | .error error => some ({ s with queue := queue }.raise call error)
      | .ok (kept, []) =>
        some ({ s with queue := queue }.returns ⟨call, snapshot, uids, .ofItems call.partitionId kept, [], []⟩)
      | .ok (kept, dropped) => some { s with queue := queue, sampler := .dropping call snapshot uids kept dropped }
  | _ => none

/-- `sample` from the `tq.kv_clear` of the dropped samples. -/
def clearDropped (cfg : ReplayConfig) (s : Pool) : Option Pool :=
  match s.sampler with
  | .dropping call snapshot uids kept dropped =>
    match kvClear s.queue call.partitionId (dropped.map Prod.fst) with
    | none => some (s.raise call .emptyClear)
    | some queue =>
      some ({ s with queue := queue }.returns ⟨call, snapshot, uids, .ofItems call.partitionId kept, dropped,
        dropMetrics cfg call.globalSteps call.partitionId dropped⟩)
  | _ => none

def poolStep (cfg : ReplayConfig) (s : Pool) : Event → Option Pool
  | .register uid partitionId globalSteps =>
    -- `uuid4` does not repeat an id
    if (s.groups uid).isSome then none
    else
      let g : Group := ⟨partitionId, globalSteps, .pending, [], []⟩
      some ({ s with queue := kvPut s.queue partitionId uid.text g.tag }.setGroup uid g)
  | .start uid n => startPrompt s uid n
  | .write uid sessionId outputs => writeSession s uid sessionId outputs
  | .sessionEnd uid sessionId => endSession s uid sessionId false
  | .sessionRaise uid sessionId => endSession s uid sessionId true
  | .finished uid => endPrompt s uid .finished
  | .failure uid => endPrompt s uid .failure
  | .sample call =>
    match s.sampler with
    | .idle => some { s with sampler := .polling call }
    | _ => none
  | .sync order => syncSampler cfg s order
  | .clearPrompts => clearPrompts cfg s
  | .clearDropped => clearDropped cfg s
  | .clearBatch record =>
    match s.records[record]? with
    | some r => (kvClear s.queue r.batch.partitionId r.batch.keys).map fun queue => { s with queue := queue }
    | none => none

def emptyPool : Pool where
  queue := .empty
  groups := fun _ => none
  sampler := .idle
  records := []
  raised := []
  late := []

def pool (cfg : ReplayConfig) : System Pool Event := System.ofFn (· = emptyPool) (poolStep cfg)

/-! ## What a step can do -/

/-- **The effects of a step.** -/
inductive Effect (cfg : ReplayConfig) (s : Pool) (e : Event) : Pool → Prop
  | registered (uid : Uid) (g : Group) (hnew : s.groups uid = none) (hstatus : g.status = .pending)
      (hsessions : g.sessions = []) (hwritten : g.written = []) :
      Effect cfg s e ({ s with queue := kvPut s.queue g.partitionId uid.text g.tag }.setGroup uid g)
  | started (uid : Uid) (g : Group) (n : ℕ) (hg : s.groups uid = some g) (hstatus : g.status = .pending) :
      Effect cfg s e (s.publish uid { g with sessions := List.replicate n .running } .running)
  | published (uid : Uid) (g : Group) (status : Status) (hg : s.groups uid = some g)
      (hstatus : g.status = .running) (hterm : status.isTerminal = true)
      (hover : (∀ session ∈ g.sessions, session = .ended) ∨ e = .failure uid) :
      Effect cfg s e (s.publish uid g status)
  | wrote (uid : Uid) (g : Group) (sessionId : ℕ) (outputs : List AgentLoopOutput)
      (hg : s.groups uid = some g) (hrun : g.sessions[sessionId]? = some .running) :
      Effect cfg s e (s.putItems uid g sessionId (agentLoopPostprocess uid sessionId g.globalSteps outputs))
  | ended (uid : Uid) (g : Group) (sessionId : ℕ) (before after : Session) (hg : s.groups uid = some g)
      (hbefore : g.sessions[sessionId]? = some before) (hopen : before.isOver = false)
      (hover : after.isOver = true) :
      Effect cfg s e (s.setGroup uid { g with sessions := g.sessions.set sessionId after })
  | called (call : Call) (hidle : s.sampler = .idle) : Effect cfg s e { s with sampler := .polling call }
  | waited : Effect cfg s e s
  | selected (call : Call) (metadata : Metadata) (uids : List Key) (hsampler : s.sampler = .polling call)
      (hsync : Describes s.queue.items metadata)
      (hselects : Selects s.queue call.partitionId call.batchSize uids) :
      Effect cfg s e { s with sampler := .selected call s.queue metadata uids }
  | syncRaised (call : Call) (error : SampleError) (hsampler : s.sampler = .polling call)
      (hsync : sync s.queue = .error error) : Effect cfg s e (s.raise call error)
  | nothingSelected (call : Call) (snapshot : Queue) (metadata : Metadata)
      (hsampler : s.sampler = .selected call snapshot metadata []) : Effect cfg s e (s.raise call .emptyClear)
  | splitRaised (call : Call) (snapshot queue : Queue) (metadata : Metadata) (uids : List Key)
      (error : SampleError) (hsampler : s.sampler = .selected call snapshot metadata uids)
      (hsplit : splitStale cfg call.globalSteps
        (.ofItems call.partitionId (collect metadata call.partitionId uids)) = .error error) :
      Effect cfg s e ({ s with queue := queue }.raise call error)
  | cleared (call : Call) (snapshot queue : Queue) (metadata : Metadata) (uids : List Key)
      (kept dropped : List (Key × Tag)) (hsampler : s.sampler = .selected call snapshot metadata uids)
      (hclear : kvClear s.queue call.partitionId uids = some queue)
      (hsplit : splitStale cfg call.globalSteps
        (.ofItems call.partitionId (collect metadata call.partitionId uids)) = .ok (kept, dropped))
      (hdropped : dropped ≠ []) :
      Effect cfg s e { s with queue := queue, sampler := .dropping call snapshot uids kept dropped }
  | returned (call : Call) (snapshot queue : Queue) (metadata : Metadata) (uids : List Key)
      (kept : List (Key × Tag)) (hsampler : s.sampler = .selected call snapshot metadata uids)
      (hclear : kvClear s.queue call.partitionId uids = some queue)
      (hsplit : splitStale cfg call.globalSteps
        (.ofItems call.partitionId (collect metadata call.partitionId uids)) = .ok (kept, [])) :
      Effect cfg s e ({ s with queue := queue }.returns
        ⟨call, snapshot, uids, .ofItems call.partitionId kept, [], []⟩)
  | dropRaised (call : Call) (snapshot : Queue) (uids : List Key) (kept : List (Key × Tag))
      (hsampler : s.sampler = .dropping call snapshot uids kept []) : Effect cfg s e (s.raise call .emptyClear)
  | dropped (call : Call) (snapshot queue : Queue) (uids : List Key) (kept dropped : List (Key × Tag))
      (hsampler : s.sampler = .dropping call snapshot uids kept dropped)
      (hclear : kvClear s.queue call.partitionId (dropped.map Prod.fst) = some queue) :
      Effect cfg s e ({ s with queue := queue }.returns ⟨call, snapshot, uids, .ofItems call.partitionId kept,
        dropped, dropMetrics cfg call.globalSteps call.partitionId dropped⟩)
  | batchCleared (r : Record) (queue : Queue) (hr : r ∈ s.records)
      (hclear : kvClear s.queue r.batch.partitionId r.batch.keys = some queue) :
      Effect cfg s e { s with queue := queue }

variable {cfg : ReplayConfig} {s s' : Pool} {e : Event}

theorem kvClear_eq_none {q : Queue} {p : PartitionId} {keys : List Key} (h : kvClear q p keys = none) :
    keys = [] := by
  by_contra hne
  rw [kvClear, if_neg hne] at h
  cases h

theorem effect_of_startPrompt {uid : Uid} {n : ℕ} (h : startPrompt s uid n = some s') : Effect cfg s e s' := by
  unfold startPrompt at h
  split at h
  · rename_i g hg
    split at h
    · rename_i hstatus
      obtain rfl := Option.some.inj h
      exact .started uid g n hg hstatus
    · cases h
  · cases h

theorem effect_of_writeSession {uid : Uid} {sessionId : ℕ} {outputs : List AgentLoopOutput}
    (h : writeSession s uid sessionId outputs = some s') : Effect cfg s e s' := by
  unfold writeSession at h
  split at h
  · rename_i g hg
    split at h
    · rename_i hrun
      obtain rfl := Option.some.inj h
      exact .wrote uid g sessionId outputs hg hrun.1
    · cases h
  · cases h

theorem effect_of_endSession {uid : Uid} {sessionId : ℕ} {raises : Bool}
    (h : endSession s uid sessionId raises = some s') : Effect cfg s e s' := by
  unfold endSession at h
  split at h
  · rename_i g hg
    split at h
    · rename_i hbefore
      obtain rfl := Option.some.inj h
      exact .ended uid g sessionId _ .raised hg hbefore rfl rfl
    · rename_i hbefore
      obtain rfl := Option.some.inj h
      exact .ended uid g sessionId _ .ended hg hbefore rfl rfl
    · rename_i hbefore
      obtain rfl := Option.some.inj h
      exact .ended uid g sessionId _ .ended hg hbefore rfl rfl
    · cases h
  · cases h

theorem effect_of_endPrompt {uid : Uid} {status : Status} (h : endPrompt s uid status = some s')
    (he : status = .failure → e = .failure uid) : Effect cfg s e s' := by
  unfold endPrompt at h
  split at h
  · rename_i g hg
    split at h
    · cases h
    rename_i hrunning
    rw [not_not] at hrunning
    split at h
    · rename_i hfinished
      obtain rfl := Option.some.inj h
      exact .published uid g .finished hg hrunning rfl (.inl hfinished.2)
    split at h
    · rename_i hfailure
      obtain rfl := Option.some.inj h
      exact .published uid g .failure hg hrunning rfl (.inr (he hfailure.1))
    · cases h
  · cases h

theorem effect_of_syncSampler {order : List Key} (h : syncSampler cfg s order = some s') :
    Effect cfg s e s' := by
  unfold syncSampler at h
  split at h
  · rename_i call hsampler
    split at h
    · rename_i error hsync
      obtain rfl := Option.some.inj h
      exact .syncRaised call error hsampler hsync
    · rename_i metadata hsync
      split at h
      · obtain rfl := Option.some.inj h
        exact .waited
      · rename_i henough
        rw [not_not] at henough
        split at h
        · rename_i horder
          obtain rfl := Option.some.inj h
          have hdesc := describes_of_sync hsync
          exact .selected call metadata _ hsampler hdesc (selects_selectPrompts hdesc henough horder)
        · cases h
  · cases h

theorem effect_of_clearPrompts (h : clearPrompts cfg s = some s') : Effect cfg s e s' := by
  unfold clearPrompts at h
  split at h
  · rename_i call snapshot metadata uids hsampler
    split at h
    · rename_i hclear
      obtain rfl := Option.some.inj h
      obtain rfl := kvClear_eq_none hclear
      exact .nothingSelected call snapshot metadata hsampler
    · rename_i queue hclear
      dsimp only at h
      split at h
      · rename_i error hsplit
        obtain rfl := Option.some.inj h
        exact .splitRaised call snapshot queue metadata uids error hsampler hsplit
      · rename_i kept hsplit
        obtain rfl := Option.some.inj h
        exact .returned call snapshot queue metadata uids kept hsampler hclear hsplit
      · rename_i kept dropped hdropped hsplit
        obtain rfl := Option.some.inj h
        exact .cleared call snapshot queue metadata uids kept dropped hsampler hclear hsplit
          fun hnil => hdropped (by rw [hnil])
  · cases h

theorem effect_of_clearDropped (h : clearDropped cfg s = some s') : Effect cfg s e s' := by
  unfold clearDropped at h
  split at h
  · rename_i call snapshot uids kept dropped hsampler
    split at h
    · rename_i hclear
      obtain rfl := Option.some.inj h
      obtain rfl := List.map_eq_nil_iff.1 (kvClear_eq_none hclear)
      exact .dropRaised call snapshot uids kept hsampler
    · rename_i queue hclear
      obtain rfl := Option.some.inj h
      exact .dropped call snapshot queue uids kept dropped hsampler hclear
  · cases h

theorem effect_of_step (h : poolStep cfg s e = some s') : Effect cfg s e s' := by
  cases e with
  | register uid partitionId globalSteps =>
    simp only [poolStep] at h
    split at h
    · cases h
    · rename_i hnew
      rw [Bool.not_eq_true, Option.isSome_eq_false_iff, Option.isNone_iff_eq_none] at hnew
      obtain rfl := Option.some.inj h
      exact .registered uid ⟨partitionId, globalSteps, .pending, [], []⟩ hnew rfl rfl rfl
  | start uid n => exact effect_of_startPrompt h
  | write uid sessionId outputs => exact effect_of_writeSession h
  | sessionEnd uid sessionId => exact effect_of_endSession h
  | sessionRaise uid sessionId => exact effect_of_endSession h
  | finished uid => exact effect_of_endPrompt h nofun
  | failure uid => exact effect_of_endPrompt h fun _ => rfl
  | sample call =>
    simp only [poolStep] at h
    split at h
    · rename_i hidle
      obtain rfl := Option.some.inj h
      exact .called call hidle
    · cases h
  | sync order => exact effect_of_syncSampler h
  | clearPrompts => exact effect_of_clearPrompts h
  | clearDropped => exact effect_of_clearDropped h
  | clearBatch record =>
    simp only [poolStep] at h
    split at h
    · rename_i r hr
      rw [Option.map_eq_some_iff] at h
      obtain ⟨queue, hclear, rfl⟩ := h
      exact .batchCleared r queue (List.mem_of_getElem? hr) hclear
    · cases h

end Opd.Verl

import Mathlib.Data.Rat.Floor
import Opd.Lib.System

/-!
# The fully asynchronous rollouter

A worker takes samples from a queue and creates a task for each, which puts its result into the
message queue of the trainer. The worker pauses when there are too many stale samples, and after
each update of the weights `reset_staleness` counts them again: the tasks that are in
`active_tasks`, and the queue, whose length it waits for.

* `System`: every order of the steps between two awaits.
* `CountsOnce`: the steps at which each sample is counted once.
* `inv_step`: what these steps keep.
* `staleness_of_countsOnce`: runs of such steps count all samples, and never starve the trainer.
-/

namespace Opd.Verl.FullyAsyncRollouter

open Lib

/-! ## State -/

structure Config where
  requiredSamples : ℕ
  stalenessThreshold : ℚ
  triggerParameterSyncStep : ℕ
  replicas : ℕ
  totalRolloutSteps : ℕ
  threshold_nonneg : 0 ≤ stalenessThreshold

/-- `max_required_samples`, also the size of the message queue. -/
def Config.maxRequiredSamples (c : Config) : ℕ :=
  (c.requiredSamples * (c.stalenessThreshold + 1) * c.triggerParameterSyncStep).floor.toNat

def Config.maxConcurrentSamples (c : Config) : ℕ := min (c.replicas * 16) c.maxRequiredSamples

def Config.syncSamples (c : Config) : ℕ := c.requiredSamples * c.triggerParameterSyncStep

/-- An entry of a queue: a sample, or `None` at the end. -/
inductive Item
  | sample
  | finish
  deriving DecidableEq

/-- Who holds `self.lock` while it awaits. -/
inductive Holder
  | worker
  | reset
  deriving DecidableEq

/-- Where `_processor_worker` is. -/
inductive WorkerPc
  | check
  | asked
  | answered
  | pausing
  | draining
  | pruning
  | getting
  | holding
  | slotLock
  | slotWaiting
  | submitting
  | creating
  | ending
  | endWaiting
  | ended
  deriving DecidableEq

/-- Where `_async_monitor_loop` is. -/
inductive MonitorPc
  | sleeping
  | asked
  | answered
  | resuming
  deriving DecidableEq

/-- Where the trainer is: in `get_sample`, or in `reset_staleness`. -/
inductive TrainerPc
  | collecting
  | resetting
  | resetAsked
  | resetAnswered
  | stopped
  deriving DecidableEq

/-- The rollouter, the message queue and the trainer. The tasks of `active_tasks` are counted by what
they have done: `generating`, `sent` for those whose sample is in the queue, and `done`. Answers of the
message queue that a coroutine has not read yet are in fields of their own. -/
structure State where
  paused : Bool
  resumeEvent : Bool
  lock : Option Holder
  running : Bool
  stalenessSamples : ℕ
  toFeed : ℕ
  feeding : Bool
  pendingQueue : List Item
  generating : ℕ
  sent : ℕ
  done : ℕ
  worker : WorkerPc
  workerQueueSize : ℕ
  actualDone : ℕ
  monitor : MonitorPc
  monitorQueueSize : ℕ
  queue : List Item
  finished : Bool
  trainer : TrainerPc
  collected : ℕ
  resetTasks : ℕ
  resetQueueSize : ℕ
  /-- history: the samples taken from the pending queue -/
  taken : ℕ
  /-- history: the samples that the trainer has got -/
  consumed : ℕ
  deriving DecidableEq

def init (c : Config) : State where
  paused := false
  resumeEvent := true
  lock := none
  running := true
  stalenessSamples := 0
  toFeed := c.totalRolloutSteps
  feeding := true
  pendingQueue := []
  generating := 0
  sent := 0
  done := 0
  worker := .check
  workerQueueSize := 0
  actualDone := 0
  monitor := .sleeping
  monitorQueueSize := 0
  queue := []
  finished := false
  trainer := .collecting
  collected := 0
  resetTasks := 0
  resetQueueSize := 0
  taken := 0
  consumed := 0

/-- `len(self.active_tasks)`: tasks stay in the set until the worker has awaited them. -/
def State.activeTasks (s : State) : ℕ := s.generating + s.sent + s.done

/-- `_should_pause_generation`, when the queue has answered. -/
def shouldPause (c : Config) (s : State) (queueSize : ℕ) : Prop :=
  c.maxRequiredSamples ≤ queueSize ∨ c.maxRequiredSamples ≤ s.stalenessSamples

instance (c : Config) (s : State) (queueSize : ℕ) : Decidable (shouldPause c s queueSize) :=
  inferInstanceAs (Decidable (_ ∨ _))

/-- `MessageQueue.put_sample`: a full queue drops its oldest entry. -/
def put (c : Config) (queue : List Item) (item : Item) : List Item :=
  (if c.maxRequiredSamples ≤ queue.length then queue.tail else queue) ++ [item]

/-! ## Steps -/

/-- What a coroutine does between two awaits. -/
inductive Action
  | feed
  | feedEnd
  | check
  | readStatistics
  | decide
  | pause
  | drain
  | prune
  | resume
  | get
  | full
  | awaitSlot
  | slotFreed
  | slotFound
  | submit
  | create
  | endAwait
  | endFreed
  | endDone
  | finish
  | stop
  | deliver
  | taskDone
  | collect
  | sync
  | resetAcquire
  | resetRead
  | resetReturn
  | monitorCheck
  | monitorRead
  | monitorDecide
  | monitorResume
  deriving DecidableEq

def when (p : Prop) [Decidable p] (s : State) : Option State := if p then some s else none

/-- `_feed_samples`: the samples, and then the end signal. -/
def feedStep (s : State) : Action → Option State
  | .feed => when (s.feeding = true ∧ 0 < s.toFeed ∧ s.pendingQueue.length < 128)
      { s with pendingQueue := s.pendingQueue ++ [.sample], toFeed := s.toFeed - 1 }
  | .feedEnd => when (s.feeding = true ∧ s.toFeed = 0 ∧ s.pendingQueue.length < 128)
      { s with pendingQueue := s.pendingQueue ++ [.finish], feeding := false }
  | _ => none

/-- `_processor_worker`, and the end of `_streaming_generation_main`. -/
def workerStep (c : Config) (s : State) : Action → Option State
  | .check => when (s.worker = .check) { s with worker := if s.paused then .pausing else .asked }
  | .readStatistics => when (s.worker = .asked) { s with worker := .answered, workerQueueSize := s.queue.length }
  | .decide => when (s.worker = .answered)
      { s with worker := if shouldPause c s s.workerQueueSize then .pausing else .getting }
  | .pause => when (s.worker = .pausing ∧ s.lock = none)
      { s with paused := true, resumeEvent := false, worker := .draining }
  -- the tasks that are done wake the worker, which needs the lock to discard them
  | .drain => when (s.worker = .draining ∧ 0 < s.done) { s with worker := .pruning, actualDone := s.done }
  | .prune => when (s.worker = .pruning ∧ s.lock = none) { s with worker := .draining, done := s.done - s.actualDone }
  | .resume => when (s.worker = .draining ∧ s.resumeEvent = true) { s with worker := .check }
  | .get =>
    match s.pendingQueue with
    | .sample :: rest => when (s.worker = .getting)
        { s with pendingQueue := rest, stalenessSamples := s.stalenessSamples + 1, taken := s.taken + 1,
                 worker := .holding }
    | .finish :: rest => when (s.worker = .getting)
        { s with pendingQueue := rest, stalenessSamples := s.stalenessSamples + 1, worker := .ending }
    | [] => none
  | .full => when (s.worker = .holding ∧ c.maxConcurrentSamples ≤ s.activeTasks) { s with worker := .slotLock }
  -- the lock is held until a task is done
  | .awaitSlot => when (s.worker = .slotLock ∧ s.lock = none)
      (if 0 < s.activeTasks then { s with worker := .slotWaiting, lock := some .worker } else { s with worker := .holding })
  | .slotFreed => when (s.worker = .slotWaiting ∧ 0 < s.done) { s with worker := .holding, done := 0, lock := none }
  | .slotFound => when (s.worker = .holding ∧ s.activeTasks < c.maxConcurrentSamples) { s with worker := .submitting }
  | .submit => when (s.worker = .submitting ∧ (s.paused = false ∨ s.resumeEvent = true)) { s with worker := .creating }
  | .create => when (s.worker = .creating ∧ s.lock = none) { s with worker := .check, generating := s.generating + 1 }
  | .endAwait => when (s.worker = .ending ∧ 0 < s.activeTasks ∧ s.lock = none)
      { s with worker := .endWaiting, lock := some .worker }
  | .endFreed => when (s.worker = .endWaiting ∧ 0 < s.done) { s with worker := .ending, done := 0, lock := none }
  | .endDone => when (s.worker = .ending ∧ s.activeTasks = 0) { s with worker := .ended }
  | .finish => when (s.worker = .ended ∧ s.feeding = false ∧ s.finished = false)
      { s with queue := put c s.queue .finish, finished := true }
  | .stop => when (s.finished = true ∧ s.lock = none) { s with running := false }
  | _ => none

/-- `_process_single_sample_streaming`, of any task. -/
def taskStep (c : Config) (s : State) : Action → Option State
  | .deliver => when (0 < s.generating)
      { s with generating := s.generating - 1, sent := s.sent + 1, queue := put c s.queue .sample }
  | .taskDone => when (0 < s.sent) { s with sent := s.sent - 1, done := s.done + 1 }
  | _ => none

/-- `_get_samples_from_queue` for all batches up to an update of the weights, and `reset_staleness`. The
lock is held while the length of the queue is awaited. -/
def trainerStep (c : Config) (s : State) : Action → Option State
  | .collect =>
    match s.queue with
    | .sample :: rest => when (s.trainer = .collecting ∧ s.collected < c.syncSamples)
        { s with queue := rest, collected := s.collected + 1, consumed := s.consumed + 1 }
    | .finish :: rest => when (s.trainer = .collecting ∧ s.collected < c.syncSamples)
        { s with queue := rest, trainer := .stopped }
    | [] => none
  | .sync => when (s.trainer = .collecting ∧ s.collected = c.syncSamples) { s with trainer := .resetting }
  | .resetAcquire => when (s.trainer = .resetting ∧ s.lock = none)
      { s with lock := some .reset, paused := false, resumeEvent := true, resetTasks := s.activeTasks,
               trainer := .resetAsked }
  | .resetRead => when (s.trainer = .resetAsked) { s with resetQueueSize := s.queue.length, trainer := .resetAnswered }
  | .resetReturn => when (s.trainer = .resetAnswered)
      { s with stalenessSamples := s.resetTasks + s.resetQueueSize, lock := none, collected := 0,
               trainer := .collecting }
  | _ => none

/-- `_async_monitor_loop` -/
def monitorStep (c : Config) (s : State) : Action → Option State
  | .monitorCheck => when (s.monitor = .sleeping ∧ s.running = true ∧ s.paused = true) { s with monitor := .asked }
  | .monitorRead => when (s.monitor = .asked) { s with monitor := .answered, monitorQueueSize := s.queue.length }
  | .monitorDecide => when (s.monitor = .answered)
      { s with monitor := if shouldPause c s s.monitorQueueSize then .sleeping else .resuming }
  | .monitorResume => when (s.monitor = .resuming ∧ s.lock = none)
      { s with paused := false, resumeEvent := true, monitor := .sleeping }
  | _ => none

def step (c : Config) (s : State) (a : Action) : Option State :=
  ((((feedStep s a).or (workerStep c s a)).or (taskStep c s a)).or (trainerStep c s a)).or (monitorStep c s a)

def system (c : Config) : System State Action := System.ofFn (fun s => s = init c) (step c)

/-! ## What is counted -/

@[simp]
def WorkerPc.holds : WorkerPc → Bool
  | .holding | .slotLock | .slotWaiting | .submitting | .creating => true
  | _ => false

@[simp]
def WorkerPc.closing : WorkerPc → Bool
  | .ending | .endWaiting | .ended => true
  | _ => false

def State.outstanding (s : State) : ℕ :=
  (if s.worker.holds then 1 else 0) + s.generating + s.queue.count .sample

/-- **The steps at which each sample is counted once.** When `reset_staleness` counts the tasks, the worker
has no sample that waits for a task, and no task is kept whose sample was sent. Until it has read the length
of the queue no task sends its sample, and until it has written the count the worker takes none. What it
reads counts samples only. -/
def CountsOnce (s : State) : Action → Prop
  | .resetAcquire => s.worker.holds = false ∧ s.sent = 0 ∧ s.done = 0
  | .deliver => s.trainer ≠ .resetAsked
  | .get => s.pendingQueue.head? = some .sample → s.trainer ≠ .resetAsked ∧ s.trainer ≠ .resetAnswered
  | .resetRead => .finish ∉ s.queue
  | _ => True

/-- **Nothing is lost or counted twice**: the count after a reset, the samples between two resets, and a
pause for stale samples. -/
structure Accounted (c : Config) (s : State) : Prop where
  /-- right after `reset_staleness`, the count is that of the samples taken and not yet consumed -/
  reset : ∀ s', step c s .resetReturn = some s' → s'.stalenessSamples = s'.taken - s'.consumed
  /-- between two resets, only so many samples are outstanding or consumed -/
  bounded : s.taken - s.consumed + s.collected ≤ c.maxRequiredSamples
  /-- the rollouter does not pause while the trainer waits for samples that nobody makes -/
  fed : s.paused = true → c.maxRequiredSamples ≤ s.stalenessSamples → s.generating + s.sent = 0 →
    c.syncSamples - s.collected ≤ s.queue.count .sample

/-- What holds between the steps that count each sample once. -/
structure Inv (c : Config) (s : State) : Prop where
  conserved : s.taken = s.consumed + s.outstanding
  event : s.resumeEvent = !s.paused
  paused : s.paused = true → s.worker = .draining ∨ s.worker = .pruning
  lockReset : s.lock = some .reset ↔ s.trainer = .resetAsked ∨ s.trainer = .resetAnswered
  lockWorker : s.worker = .slotWaiting ∨ s.worker = .endWaiting → s.lock = some .worker
  counted : s.outstanding + s.collected ≤ s.stalenessSamples
  exact : s.worker.closing = false → s.stalenessSamples ≤ s.outstanding + s.collected
  bound : s.stalenessSamples ≤ c.maxRequiredSamples
  getting : s.worker = .getting → s.stalenessSamples < c.maxRequiredSamples
  room : s.worker.closing = true → s.outstanding + s.collected < c.maxRequiredSamples
  ended : s.worker = .ended → s.activeTasks = 0
  finish : .finish ∈ s.queue → s.worker = .ended ∧ s.finished = true
  asked : s.trainer = .resetAsked → s.worker.holds = false ∧ s.resetTasks = s.generating
  answered : s.trainer = .resetAnswered → s.worker.holds = false ∧
    s.resetTasks + s.resetQueueSize = s.generating + s.queue.count .sample

section Steps

variable {c : Config} {s s' : State} {a : Action}

theorem when_eq_some {p : Prop} [Decidable p] {t : State} : when p t = some s' ↔ p ∧ t = s' := by
  unfold when
  rw [Option.ite_none_right_eq_some, Option.some.injEq]

theorem length_eq_count {queue : List Item} (h : Item.finish ∉ queue) : queue.length = queue.count .sample := by
  induction queue with
  | nil => rfl
  | cons item queue ih =>
    rw [List.mem_cons, not_or] at h
    cases item with
    | sample => rw [List.length_cons, List.count_cons_self, ih h.2]
    | finish => exact absurd rfl h.1

theorem put_of_lt {queue : List Item} (h : queue.length < c.maxRequiredSamples) (item : Item) :
    put c queue item = queue ++ [item] := by
  rw [put, if_neg (by omega)]

theorem inv_init (c : Config) : Inv c (init c) where
  conserved := rfl
  event := rfl
  paused := fun h => by cases h
  lockReset := ⟨fun h => (by cases h), fun h => (by rcases h with h | h <;> cases h)⟩
  lockWorker := fun h => by rcases h with h | h <;> cases h
  counted := Nat.le_refl _
  exact := fun _ => Nat.le_refl _
  bound := Nat.zero_le _
  getting := fun h => by cases h
  room := fun h => by cases h
  ended := fun h => by cases h
  finish := fun h => by cases h
  asked := fun h => by cases h
  answered := fun h => by cases h

theorem inv_feed (hi : Inv c s) (h : feedStep s a = some s') : Inv c s' := by
  cases a <;> simp only [feedStep, reduceCtorEq] at h
  all_goals
    obtain ⟨-, rfl⟩ := when_eq_some.1 h
    exact ⟨hi.1, hi.2, hi.3, hi.4, hi.5, hi.6, hi.7, hi.8, hi.9, hi.10, hi.11, hi.12, hi.13, hi.14⟩

theorem inv_monitor (hi : Inv c s) (h : monitorStep c s a = some s') : Inv c s' := by
  have hresumed : ∀ {p : Prop}, false = true → p := fun h => by cases h
  cases a <;> simp only [monitorStep, reduceCtorEq] at h
  all_goals
    obtain ⟨-, rfl⟩ := when_eq_some.1 h
    first
    | exact ⟨hi.1, hi.2, hi.3, hi.4, hi.5, hi.6, hi.7, hi.8, hi.9, hi.10, hi.11, hi.12, hi.13, hi.14⟩
    | exact ⟨hi.1, rfl, hresumed, hi.4, hi.5, hi.6, hi.7, hi.8, hi.9, hi.10, hi.11, hi.12, hi.13, hi.14⟩

/-! ### The worker -/

/-- Where the worker can go with what it has, without the lock. -/
structure Goes (c : Config) (s : State) (w : WorkerPc) (done : ℕ) : Prop where
  left : s.worker ≠ .ended
  holds : w.holds = s.worker.holds
  closing : w.closing = s.worker.closing
  free : w ≠ .slotWaiting ∧ w ≠ .endWaiting
  paused : s.paused = true → w = .draining ∨ w = .pruning
  getting : w = .getting → s.stalenessSamples < c.maxRequiredSamples
  ended : w = .ended → s.generating + s.sent + done = 0

theorem Inv.goes (hi : Inv c s) {w : WorkerPc} {queueSize actualDone done : ℕ} (h : Goes c s w done) :
    Inv c { s with worker := w, workerQueueSize := queueSize, actualDone := actualDone, done := done } where
  conserved := by simpa only [State.outstanding, h.holds] using hi.conserved
  event := hi.event
  paused := h.paused
  lockReset := hi.lockReset
  lockWorker := by
    rintro (hw | hw)
    · exact absurd hw h.free.1
    · exact absurd hw h.free.2
  counted := by simpa only [State.outstanding, h.holds] using hi.counted
  exact := by simpa only [State.outstanding, h.holds, h.closing] using hi.exact
  bound := hi.bound
  getting := h.getting
  room := by simpa only [State.outstanding, h.holds, h.closing] using hi.room
  ended := h.ended
  finish := fun hmem => absurd (hi.finish hmem).1 h.left
  asked := by simpa only [h.holds] using hi.asked
  answered := by simpa only [h.holds] using hi.answered

theorem Inv.running (hi : Inv c s) (h : s.worker ≠ .draining ∧ s.worker ≠ .pruning) : s.paused = false := by
  by_contra hpaused
  rcases hi.paused (by simpa using hpaused) with hw | hw
  · exact h.1 hw
  · exact h.2 hw

/-- The worker takes an entry of the pending queue: a sample only if no reset is counting. -/
theorem inv_get (hi : Inv c s) (hcount : CountsOnce s .get) (h : workerStep c s .get = some s') : Inv c s' := by
  simp only [workerStep] at h
  split at h
  · rename_i rest hpending
    obtain ⟨hw, rfl⟩ := when_eq_some.1 h
    have hp := hi.running (by simp [hw])
    have hfew := hi.getting hw
    obtain ⟨hasked, hanswered⟩ := hcount (by rw [hpending]; rfl)
    have hconserved := hi.conserved
    have hcounted := hi.counted
    have hexact := hi.exact (by simp [hw])
    simp only [State.outstanding, hw, WorkerPc.holds, Bool.false_eq_true, if_false] at hconserved hcounted hexact
    exact {
      conserved := by simp only [State.outstanding, WorkerPc.holds, if_true]; omega
      event := hi.event
      paused := by simp [hp]
      lockReset := hi.lockReset
      lockWorker := by simp
      counted := by simp only [State.outstanding, WorkerPc.holds, if_true]; omega
      exact := by intro _; simp only [State.outstanding, WorkerPc.holds, if_true]; omega
      bound := hfew
      getting := by simp
      room := by simp
      ended := by simp
      finish := fun hmem => absurd (hi.finish hmem).1 (by simp [hw])
      asked := fun h => absurd h hasked
      answered := fun h => absurd h hanswered }
  · obtain ⟨hw, rfl⟩ := when_eq_some.1 h
    have hp := hi.running (by simp [hw])
    have hfew := hi.getting hw
    have hexact := hi.exact (by simp [hw])
    have hcounted := hi.counted
    -- the end signal is counted, but it is no sample
    have hsame : ∀ n, ({ s with pendingQueue := n, stalenessSamples := s.stalenessSamples + 1, worker := .ending } :
        State).outstanding = s.outstanding := fun n => by simp [State.outstanding, hw]
    exact {
      conserved := by rw [hsame]; exact hi.conserved
      event := hi.event
      paused := by simp [hp]
      lockReset := hi.lockReset
      lockWorker := by simp
      counted := by rw [hsame]; simp only; omega
      exact := by simp
      bound := hfew
      getting := by simp
      room := by intro _; rw [hsame]; simp only; omega
      ended := by simp
      finish := fun hmem => absurd (hi.finish hmem).1 (by simp [hw])
      asked := by simpa [hw] using hi.asked
      answered := by simpa [hw] using hi.answered }
  · cases h

theorem inv_create (hi : Inv c s) (h : workerStep c s .create = some s') : Inv c s' := by
  obtain ⟨⟨hw, hlock⟩, rfl⟩ := when_eq_some.1 h
  have hp := hi.running (by simp [hw])
  have hunlocked : ¬(s.trainer = .resetAsked ∨ s.trainer = .resetAnswered) := by
    rw [← hi.lockReset, hlock]
    simp
  obtain ⟨hasked, hanswered⟩ := not_or.1 hunlocked
  have hsame : ({ s with worker := .check, generating := s.generating + 1 } : State).outstanding = s.outstanding := by
    simp only [State.outstanding, hw, WorkerPc.holds, Bool.false_eq_true, if_false, if_true]
    omega
  exact {
    conserved := by rw [hsame]; exact hi.conserved
    event := hi.event
    paused := by simp [hp]
    lockReset := hi.lockReset
    lockWorker := by simp
    counted := by rw [hsame]; exact hi.counted
    exact := by intro _; rw [hsame]; exact hi.exact (by simp [hw])
    bound := hi.bound
    getting := by simp
    room := by simp
    ended := by simp
    finish := fun hmem => absurd (hi.finish hmem).1 (by simp [hw])
    asked := fun h => absurd h hasked
    answered := fun h => absurd h hanswered }

theorem Inv.relock (hi : Inv c s) {w : WorkerPc} {lock : Option Holder} {done : ℕ} (hleft : s.worker ≠ .ended)
    (hholds : w.holds = s.worker.holds) (hover : w.closing = s.worker.closing) (hp : s.paused = false)
    (hlock : s.lock ≠ some .reset ∧ lock ≠ some .reset)
    (hwaiting : w = .slotWaiting ∨ w = .endWaiting → lock = some .worker) (hw : w ≠ .getting ∧ w ≠ .ended) :
    Inv c { s with worker := w, lock := lock, done := done } where
  conserved := by simpa only [State.outstanding, hholds] using hi.conserved
  event := hi.event
  paused := by simp [hp]
  lockReset := by
    simp only [hlock.2, false_iff]
    rw [← hi.lockReset]
    exact hlock.1
  lockWorker := hwaiting
  counted := by simpa only [State.outstanding, hholds] using hi.counted
  exact := by simpa only [State.outstanding, hholds, hover] using hi.exact
  bound := hi.bound
  getting := fun h => absurd h hw.1
  room := by simpa only [State.outstanding, hholds, hover] using hi.room
  ended := fun h => absurd h hw.2
  finish := fun hmem => absurd (hi.finish hmem).1 hleft
  asked := by simpa only [hholds] using hi.asked
  answered := by simpa only [hholds] using hi.answered

/-- **The worker** keeps the invariant, but for what it puts into the queue at the end. -/
theorem inv_worker (hi : Inv c s) (hcount : CountsOnce s a) (h : workerStep c s a = some s') (ha : a ≠ .finish) :
    Inv c s' := by
  have hrunning := @Inv.running c s hi
  cases a with
  | check =>
    obtain ⟨hw, rfl⟩ := when_eq_some.1 h
    have hp := hrunning (by simp [hw])
    rw [if_neg (by simp [hp])]
    exact hi.goes (by constructor <;> simp [hw, hp])
  | readStatistics =>
    obtain ⟨hw, rfl⟩ := when_eq_some.1 h
    have hp := hrunning (by simp [hw])
    exact hi.goes (by constructor <;> simp [hw, hp])
  | decide =>
    obtain ⟨hw, rfl⟩ := when_eq_some.1 h
    have hp := hrunning (by simp [hw])
    by_cases hpause : shouldPause c s s.workerQueueSize
    · rw [if_pos hpause]
      exact hi.goes (by constructor <;> simp [hw, hp])
    · rw [if_neg hpause]
      -- the worker goes on only if there are few stale samples
      have hfew : s.stalenessSamples < c.maxRequiredSamples := Nat.lt_of_not_le (not_or.1 hpause).2
      exact hi.goes (by constructor <;> simp [hw, hp, hfew])
  | pause =>
    obtain ⟨⟨hw, hlock⟩, rfl⟩ := when_eq_some.1 h
    have hgoes := @Inv.goes c s hi .draining s.workerQueueSize s.actualDone s.done
      (by constructor <;> simp [hw])
    exact { hgoes with
      event := rfl
      paused := fun _ => Or.inl rfl }
  | drain =>
    obtain ⟨⟨hw, -⟩, rfl⟩ := when_eq_some.1 h
    exact hi.goes (by constructor <;> simp [hw])
  | prune =>
    obtain ⟨⟨hw, -⟩, rfl⟩ := when_eq_some.1 h
    exact hi.goes (by constructor <;> simp [hw])
  | resume =>
    obtain ⟨⟨hw, hresumed⟩, rfl⟩ := when_eq_some.1 h
    have hp : s.paused = false := by simpa [hresumed] using hi.event
    exact hi.goes (by constructor <;> simp [hw, hp])
  | get => exact inv_get hi hcount h
  | full =>
    obtain ⟨⟨hw, -⟩, rfl⟩ := when_eq_some.1 h
    have hp := hrunning (by simp [hw])
    exact hi.goes (by constructor <;> simp [hw, hp])
  | awaitSlot =>
    obtain ⟨⟨hw, hlock⟩, rfl⟩ := when_eq_some.1 h
    have hp := hrunning (by simp [hw])
    split
    · exact hi.relock (by simp [hw]) (by simp [hw]) (by simp [hw]) hp (by simp [hlock]) (by simp) (by simp)
    · exact hi.goes (by constructor <;> simp [hw, hp])
  | slotFreed =>
    obtain ⟨⟨hw, -⟩, rfl⟩ := when_eq_some.1 h
    have hp := hrunning (by simp [hw])
    have hlock := hi.lockWorker (Or.inl hw)
    exact hi.relock (by simp [hw]) (by simp [hw]) (by simp [hw]) hp (by simp [hlock]) (by simp) (by simp)
  | slotFound =>
    obtain ⟨⟨hw, -⟩, rfl⟩ := when_eq_some.1 h
    have hp := hrunning (by simp [hw])
    exact hi.goes (by constructor <;> simp [hw, hp])
  | submit =>
    obtain ⟨⟨hw, -⟩, rfl⟩ := when_eq_some.1 h
    have hp := hrunning (by simp [hw])
    exact hi.goes (by constructor <;> simp [hw, hp])
  | create => exact inv_create hi h
  | endAwait =>
    obtain ⟨⟨hw, -, hlock⟩, rfl⟩ := when_eq_some.1 h
    have hp := hrunning (by simp [hw])
    exact hi.relock (by simp [hw]) (by simp [hw]) (by simp [hw]) hp (by simp [hlock]) (by simp) (by simp)
  | endFreed =>
    obtain ⟨⟨hw, -⟩, rfl⟩ := when_eq_some.1 h
    have hp := hrunning (by simp [hw])
    have hlock := hi.lockWorker (Or.inr hw)
    exact hi.relock (by simp [hw]) (by simp [hw]) (by simp [hw]) hp (by simp [hlock]) (by simp) (by simp)
  | endDone =>
    obtain ⟨⟨hw, hnone⟩, rfl⟩ := when_eq_some.1 h
    have hp := hrunning (by simp [hw])
    exact hi.goes ⟨by simp [hw], by simp [hw], by simp [hw], by simp, by simp [hp], by simp, fun _ => hnone⟩
  | finish => exact absurd rfl ha
  | stop =>
    obtain ⟨-, rfl⟩ := when_eq_some.1 h
    exact ⟨hi.1, hi.2, hi.3, hi.4, hi.5, hi.6, hi.7, hi.8, hi.9, hi.10, hi.11, hi.12, hi.13, hi.14⟩
  | _ => cases h

/-! ### The tasks and the trainer -/

/-- **The queue has room** for what is not in it yet. -/
theorem Inv.put_eq (hi : Inv c s) (hfinish : Item.finish ∉ s.queue)
    (h : 0 < s.generating ∨ s.worker.closing = true) (item : Item) : put c s.queue item = s.queue ++ [item] := by
  refine put_of_lt ?_ item
  rw [length_eq_count hfinish]
  have hcounted := hi.counted
  have hbound := hi.bound
  rcases h with hgenerating | hover
  · unfold State.outstanding at hcounted
    omega
  · have hroom := hi.room hover
    unfold State.outstanding at hroom
    omega

theorem inv_finish (hi : Inv c s) (h : workerStep c s .finish = some s') : Inv c s' := by
  obtain ⟨⟨hw, -, hfinished⟩, rfl⟩ := when_eq_some.1 h
  have hmem : Item.finish ∉ s.queue := fun hmem => by simp [(hi.finish hmem).2] at hfinished
  rw [hi.put_eq hmem (Or.inr (by simp [hw]))]
  have hcount : (s.queue ++ [Item.finish]).count .sample = s.queue.count .sample := by simp
  have hsame : ({ s with queue := s.queue ++ [.finish], finished := true } : State).outstanding = s.outstanding := by
    simp only [State.outstanding, hcount]
  exact { hi with
    conserved := by rw [hsame]; exact hi.conserved
    counted := by rw [hsame]; exact hi.counted
    exact := by rw [hsame]; exact hi.exact
    room := by rw [hsame]; exact hi.room
    finish := fun _ => ⟨hw, rfl⟩
    answered := by simp only [hcount]; exact hi.answered }

theorem inv_task (hi : Inv c s) (hcount : CountsOnce s a) (h : taskStep c s a = some s') : Inv c s' := by
  cases a <;> simp only [taskStep, reduceCtorEq] at h
  case deliver =>
    obtain ⟨hgenerating, rfl⟩ := when_eq_some.1 h
    have hrunning : s.worker ≠ .ended := fun hw => by
      have hnone := hi.ended hw
      unfold State.activeTasks at hnone
      omega
    rw [hi.put_eq (fun hmem => hrunning (hi.finish hmem).1) (Or.inl hgenerating)]
    have hone : (s.queue ++ [Item.sample]).count .sample = s.queue.count .sample + 1 := by simp
    have hsame : ({ s with generating := s.generating - 1, sent := s.sent + 1, queue := s.queue ++ [.sample] } :
        State).outstanding = s.outstanding := by
      simp only [State.outstanding, hone]
      omega
    exact { hi with
      conserved := by rw [hsame]; exact hi.conserved
      counted := by rw [hsame]; exact hi.counted
      exact := by rw [hsame]; exact hi.exact
      room := by rw [hsame]; exact hi.room
      ended := fun hw => absurd hw hrunning
      finish := fun hmem => by simp at hmem; exact absurd (hi.finish hmem).1 hrunning
      asked := fun hasked => absurd hasked hcount
      answered := by
        intro hanswered
        obtain ⟨hholds, heq⟩ := hi.answered hanswered
        refine ⟨hholds, ?_⟩
        simp only [hone]
        omega }
  case taskDone =>
    obtain ⟨hsent, rfl⟩ := when_eq_some.1 h
    exact { hi with
      ended := by
        intro hw
        have hnone := hi.ended hw
        unfold State.activeTasks at hnone ⊢
        simp only
        omega }

theorem inv_collect (hi : Inv c s) (h : trainerStep c s .collect = some s') : Inv c s' := by
  simp only [trainerStep] at h
  have hlock : s.trainer = .collecting → s.lock ≠ some .reset := by
    intro htrainer hlock
    rcases hi.lockReset.1 hlock with hasked | hanswered
    · simp [htrainer] at hasked
    · simp [htrainer] at hanswered
  split at h
  · rename_i rest hqueue
    obtain ⟨⟨htrainer, -⟩, rfl⟩ := when_eq_some.1 h
    have hcount : s.queue.count .sample = rest.count .sample + 1 := by simp [hqueue]
    -- one sample less is outstanding, and one more consumed
    have hless : s.outstanding = ({ s with queue := rest, collected := s.collected + 1, consumed := s.consumed + 1 } :
        State).outstanding + 1 := by
      simp only [State.outstanding, hcount]
      omega
    have hconserved := hi.conserved
    have hcounted := hi.counted
    have hexact := hi.exact
    have hroom := hi.room
    rw [hless] at hconserved hcounted hexact hroom
    exact { hi with
      conserved := by simp only; omega
      counted := by simp only; omega
      exact := by intro hover; have := hexact hover; simp only; omega
      room := by intro hover; have := hroom hover; simp only; omega
      finish := fun hmem => hi.finish (by rw [hqueue]; exact List.mem_cons_of_mem _ hmem)
      asked := fun hasked => by simp [htrainer] at hasked
      answered := fun hanswered => by simp [htrainer] at hanswered }
  · rename_i rest hqueue
    obtain ⟨⟨htrainer, -⟩, rfl⟩ := when_eq_some.1 h
    have hcount : rest.count .sample = s.queue.count .sample := by simp [hqueue]
    have hsame : ({ s with queue := rest, trainer := .stopped } : State).outstanding = s.outstanding := by
      simp only [State.outstanding, hcount]
    exact { hi with
      conserved := by rw [hsame]; exact hi.conserved
      lockReset := by simpa using hlock htrainer
      counted := by rw [hsame]; exact hi.counted
      exact := by rw [hsame]; exact hi.exact
      room := by rw [hsame]; exact hi.room
      finish := fun hmem => hi.finish (by rw [hqueue]; exact List.mem_cons_of_mem _ hmem)
      asked := fun hasked => by simp at hasked
      answered := fun hanswered => by simp at hanswered }
  · cases h

/-- **`reset_staleness`** counts each sample once, if its steps do. -/
theorem inv_trainer (hi : Inv c s) (hcount : CountsOnce s a) (h : trainerStep c s a = some s') : Inv c s' := by
  cases a with
  | collect => exact inv_collect hi h
  | sync =>
    obtain ⟨⟨htrainer, -⟩, rfl⟩ := when_eq_some.1 h
    have hlock := hi.lockReset
    rw [htrainer] at hlock
    exact { hi with
      lockReset := by simpa using hlock
      asked := fun hasked => by simp at hasked
      answered := fun hanswered => by simp at hanswered }
  | resetAcquire =>
    obtain ⟨⟨htrainer, hlock⟩, rfl⟩ := when_eq_some.1 h
    obtain ⟨hholds, hsent, hdone⟩ := hcount
    exact { hi with
      event := rfl
      paused := fun hpaused => by simp at hpaused
      lockReset := by simp
      lockWorker := fun hw => by rw [hi.lockWorker hw] at hlock; cases hlock
      asked := fun _ => ⟨hholds, by simp only [State.activeTasks, hsent, hdone]; omega⟩
      answered := fun hanswered => by simp at hanswered }
  | resetRead =>
    obtain ⟨htrainer, rfl⟩ := when_eq_some.1 h
    obtain ⟨hholds, htasks⟩ := hi.asked htrainer
    have hlock := hi.lockReset.2 (Or.inl htrainer)
    exact { hi with
      lockReset := by simp [hlock]
      asked := fun hasked => by simp at hasked
      answered := fun _ => ⟨hholds, by simp only; rw [htasks, length_eq_count hcount]⟩ }
  | resetReturn =>
    obtain ⟨htrainer, rfl⟩ := when_eq_some.1 h
    obtain ⟨hholds, hall⟩ := hi.answered htrainer
    have hlock := hi.lockReset.2 (Or.inr htrainer)
    have houtstanding : s.outstanding = s.resetTasks + s.resetQueueSize := by
      rw [hall, State.outstanding, hholds]
      simp
    have hcounted := hi.counted
    have hbound := hi.bound
    have hgetting := hi.getting
    have hroom := hi.room
    rw [houtstanding] at hcounted hroom
    exact { hi with
      lockReset := by simp
      lockWorker := fun hw => by rw [hi.lockWorker hw] at hlock; cases hlock
      counted := Nat.le_of_eq houtstanding
      exact := fun _ => Nat.le_of_eq houtstanding.symm
      bound := by simp only; omega
      getting := by intro hw; have := hgetting hw; simp only; omega
      room := by
        intro hover
        have := hroom hover
        show s.outstanding + 0 < c.maxRequiredSamples
        omega
      asked := fun hasked => by simp at hasked
      answered := fun hanswered => by simp at hanswered }
  | _ => cases h

/-- **A step that counts each sample once** keeps the invariant. -/
theorem inv_step (hi : Inv c s) (hcount : CountsOnce s a) (h : step c s a = some s') : Inv c s' := by
  unfold step at h
  simp only [Option.or_eq_some_iff] at h
  rcases h with (((hfeed | ⟨-, hworker⟩) | ⟨-, htask⟩) | ⟨-, htrainer⟩) | ⟨-, hmonitor⟩
  · exact inv_feed hi hfeed
  · by_cases hfinish : a = .finish
    · subst hfinish
      exact inv_finish hi hworker
    · exact inv_worker hi hcount hworker hfinish
  · exact inv_task hi hcount htask
  · exact inv_trainer hi hcount htrainer
  · exact inv_monitor hi hmonitor

end Steps

/-! ## Main theorem -/

theorem syncSamples_le (c : Config) : c.syncSamples ≤ c.maxRequiredSamples := by
  have hprod : ((c.syncSamples : ℤ) : ℚ) ≤ c.requiredSamples * (c.stalenessThreshold + 1) * c.triggerParameterSyncStep := by
    have hone : (1 : ℚ) ≤ c.stalenessThreshold + 1 := le_add_of_nonneg_left c.threshold_nonneg
    have hrequired : (c.requiredSamples : ℚ) ≤ c.requiredSamples * (c.stalenessThreshold + 1) :=
      le_mul_of_one_le_right (Nat.cast_nonneg _) hone
    unfold Config.syncSamples
    push_cast
    exact mul_le_mul_of_nonneg_right hrequired (Nat.cast_nonneg _)
  have hfloor := Rat.le_floor_iff.2 hprod
  unfold Config.maxRequiredSamples
  omega

/-- **What the invariant says** of the counts, and of a pause. -/
theorem accounted_of_inv {c : Config} {s : State} (hi : Inv c s) : Accounted c s where
  reset := by
    intro s' h
    have htrainer : trainerStep c s .resetReturn = some s' := by
      simpa [step, feedStep, workerStep, taskStep, monitorStep] using h
    obtain ⟨hanswered, rfl⟩ := when_eq_some.1 htrainer
    obtain ⟨hholds, hall⟩ := hi.answered hanswered
    have hconserved := hi.conserved
    unfold State.outstanding at hconserved
    simp only [hholds, Bool.false_eq_true, if_false] at hconserved ⊢
    omega
  bounded := by
    have hconserved := hi.conserved
    have hcounted := hi.counted
    have hbound := hi.bound
    omega
  fed := by
    intro hpaused hstale hidle
    have hworker : s.worker.holds = false ∧ s.worker.closing = false := by
      rcases hi.paused hpaused with hw | hw
      · simp [hw]
      · simp [hw]
    have hexact := hi.exact hworker.2
    have hsync := syncSamples_le c
    unfold State.outstanding at hexact
    simp only [hworker.1, Bool.false_eq_true, if_false] at hexact
    omega

/-- **Runs whose steps count each sample once** keep the books: every reset leaves the number of samples that
were taken and not consumed, never more than `max_required_samples` are outstanding or consumed between two
resets, and the rollouter does not pause on staleness while the trainer needs more samples than there are and
no task makes one. -/
theorem staleness_of_countsOnce (c : Config) {s : State} (h : ((system c).restrict CountsOnce).Reach s) :
    Accounted c s := by
  refine accounted_of_inv (h.induct ?_ ?_)
  · rintro s rfl
    exact inv_init c
  · rintro s a s' - hi ⟨hstep, hcount⟩
    exact inv_step hi hcount hstep

instance (s : State) (a : Action) : Decidable (CountsOnce s a) :=
  match a with
  | .resetAcquire => inferInstanceAs (Decidable (_ ∧ _ ∧ _))
  | .deliver => inferInstanceAs (Decidable (_ ≠ _))
  | .get => inferInstanceAs (Decidable (_ → _ ∧ _))
  | .resetRead => inferInstanceAs (Decidable (_ ∉ _))
  | .feed | .feedEnd | .check | .readStatistics | .decide | .pause | .drain | .prune | .resume | .full | .awaitSlot
  | .slotFreed | .slotFound | .submit | .create | .endAwait | .endFreed | .endDone | .finish | .stop | .taskDone
  | .collect | .sync | .resetReturn | .monitorCheck | .monitorRead | .monitorDecide | .monitorResume =>
    inferInstanceAs (Decidable True)

/-! ## One sample for each update -/

/-- One sample for each update of the weights, and none may be stale. -/
def oneSample : Config where
  requiredSamples := 1
  stalenessThreshold := 0
  triggerParameterSyncStep := 1
  replicas := 1
  totalRolloutSteps := 2
  threshold_nonneg := le_refl _

def submission : List Action := [.feed, .check, .readStatistics, .decide, .get, .slotFound, .submit, .create]

/-- The task ends before the worker pauses, so `reset_staleness` counts it, although the trainer has its sample. -/
def keptTask : List Action := submission ++ [.check, .readStatistics, .deliver, .taskDone, .collect, .sync,
  .resetAcquire, .resetRead, .resetReturn, .decide, .pause, .drain, .prune]

def discardedTask : List Action := submission ++ [.check, .readStatistics, .decide, .pause, .deliver, .taskDone, .drain,
  .prune, .collect, .sync, .resetAcquire, .resetRead, .resetReturn, .resume]

theorem staleness_discardedTask : ∃ s, System.runFn (step oneSample) (init oneSample) discardedTask = some s ∧
    s.consumed = 1 ∧ Accounted oneSample s := by
  have hrun : ∃ s, System.runFn (fun s a => if decide (CountsOnce s a) then step oneSample s a else none) (init oneSample)
      discardedTask = some s ∧ System.runFn (step oneSample) (init oneSample) discardedTask = some s ∧ s.consumed = 1 := by
    decide +kernel
  obtain ⟨s, hclean, hall, hone⟩ := hrun
  refine ⟨s, hall, hone, staleness_of_countsOnce oneSample ?_⟩
  exact System.reach_restrict_of_run (fun s a h => of_decide_eq_true h) (.init rfl) hclean

/-- The rollouter pauses for good: a sample that the trainer has got is counted as stale, and the next one is
not made. -/
theorem starved : ∃ s, (system oneSample).Reach s ∧ s.paused = true ∧ s.stalenessSamples = 1 ∧ s.taken - s.consumed = 0 ∧
    s.activeTasks = 0 ∧ s.queue = [] ∧ s.collected = 0 ∧ ¬ Accounted oneSample s := by
  have hrun : ∃ s, System.runFn (step oneSample) (init oneSample) keptTask = some s ∧ s.paused = true ∧
      s.stalenessSamples = 1 ∧ s.taken - s.consumed = 0 ∧ s.generating + s.sent = 0 ∧ s.activeTasks = 0 ∧ s.queue = [] ∧
      s.collected = 0 ∧ oneSample.maxRequiredSamples = 1 := by
    decide +kernel
  obtain ⟨s, hall, hpaused, hstale, hnone, hidle, htasks, hqueue, hcollected, hmax⟩ := hrun
  refine ⟨s, System.reach_of_run (.init rfl) hall, hpaused, hstale, hnone, htasks, hqueue, hcollected, fun h => ?_⟩
  have hfed := h.fed hpaused (by omega) hidle
  rw [hqueue, hcollected] at hfed
  exact absurd hfed (by decide)

end Opd.Verl.FullyAsyncRollouter

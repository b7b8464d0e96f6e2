import Mathlib.Data.List.Perm.Lattice
import Opd.Lib.Fairness

/-!
# The message queue of the fully asynchronous trainer

`MessageQueue` is an asynchronous Ray actor between the rollouter and the trainer. Its
methods run on one event loop and suspend only in `get_sample`, which waits on a
condition while the queue is empty; the lock is never held across a suspension. Ray
starts the submitted calls in order, at most `max_concurrency` at a time.

* `runTask`: what a call does up to its end or its next suspension.
* `Accounted`: the fate of every sample that was put.
* `accounted_of_reach`: every sample has exactly one fate, in the order of the puts.
* `getSample_returns`: after a shutdown every call of `get_sample` returns.
* `queue_contract`: both, for all runs.
-/

namespace Opd.Verl

open Lib

/-! ## The object -/

/-- The attributes of a `MessageQueue`. -/
structure MessageQueue (α : Type*) where
  maxQueueSize : ℕ
  queue : List α
  running : Bool
  totalProduced : ℕ
  totalConsumed : ℕ
  droppedSamples : ℕ

namespace MessageQueue

variable {α : Type*}

/-- `MessageQueue.__init__` -/
def new (maxQueueSize : ℕ) : MessageQueue α := ⟨maxQueueSize, [], true, 0, 0, 0⟩

/-- `deque(maxlen=maxlen).append(x)` -/
def dequeAppend (maxlen : ℕ) (queue : List α) (x : α) : List α := (queue ++ [x]).drop (queue.length + 1 - maxlen)

def discarded (q : MessageQueue α) : Option α :=
  if q.queue.length ≥ q.maxQueueSize then q.queue.head? else none

/-- The critical section of `put_sample`. -/
def putSample (q : MessageQueue α) (sample : α) : MessageQueue α × Bool :=
  if q.queue.length ≥ q.maxQueueSize then
    ({ q with
      queue := dequeAppend q.maxQueueSize q.queue.tail sample
      droppedSamples := q.droppedSamples + 1
      totalProduced := q.totalProduced + 1 }, false)
  else
    ({ q with
      queue := dequeAppend q.maxQueueSize q.queue sample
      totalProduced := q.totalProduced + 1 }, true)

/-- The critical section of `get_sample`: `none` when it waits. -/
def getSample (q : MessageQueue α) : Option (MessageQueue α × Option (α × ℕ)) :=
  match q.queue with
  | [] => if q.running then none else some (q, none)
  | data :: queue => some ({ q with queue := queue, totalConsumed := q.totalConsumed + 1 }, some (data, queue.length))

/-- `clear_queue` -/
def clearQueue (q : MessageQueue α) : MessageQueue α := { q with queue := [] }

/-- `shutdown` -/
def shutdown (q : MessageQueue α) : MessageQueue α := { q with running := false }

/-- `get_statistics` -/
structure Statistics where
  queueSize : ℕ
  totalProduced : ℕ
  totalConsumed : ℕ
  droppedSamples : ℕ
  maxQueueSize : ℕ

def getStatistics (q : MessageQueue α) : Statistics :=
  ⟨q.queue.length, q.totalProduced, q.totalConsumed, q.droppedSamples, q.maxQueueSize⟩

/-! ## The actor -/

/-- The methods that use the queue of samples. -/
inductive Call (α : Type*)
  | putSample (sample : α)
  | getSample
  | getQueueSize
  | getStatistics
  | clearQueue
  | shutdown

inductive Reply (α : Type*)
  | kept (kept : Bool)
  | sample (data : Option (α × ℕ))
  | size (size : ℕ)
  | statistics (statistics : Statistics)
  | nothing

/-- A call that Ray has started. `waiting`: in `self._consumer_condition.wait()`, not notified. -/
structure Task (α : Type*) where
  id : ℕ
  call : Call α
  waiting : Bool

/-- What became of a sample that left the queue: it was returned by a call, discarded by
the put of the given number, or cleared by a call. -/
inductive Fate
  | delivered (call : ℕ)
  | dropped (put : ℕ)
  | cleared (call : ℕ)

/-- The actor with the calls that have arrived, and the history of the samples: those put,
and those that left the queue with their fates. -/
structure State (α : Type*) where
  object : MessageQueue α
  calls : ℕ
  submitted : List (ℕ × Call α)
  tasks : List (Task α)
  replies : List (ℕ × Reply α)
  puts : List α
  departed : List (α × Fate)

/-- `@ray.remote(max_concurrency=20)` -/
def maxConcurrency : ℕ := 20

/-- `self._consumer_condition.notify_all()` -/
def notifyAll (tasks : List (Task α)) : List (Task α) := tasks.map fun t => { t with waiting := false }

def State.finish (s : State α) (id : ℕ) (reply : Reply α) : State α :=
  { s with
    tasks := s.tasks.eraseP fun t => t.id = id
    replies := s.replies ++ [(id, reply)] }

def runTask (s : State α) (id : ℕ) : Call α → State α
  | .putSample sample =>
    { s with
      object := (s.object.putSample sample).1
      tasks := notifyAll s.tasks
      puts := s.puts ++ [sample]
      departed := s.departed ++ s.object.discarded.toList.map fun x => (x, Fate.dropped s.puts.length)
    }.finish id (.kept (s.object.putSample sample).2)
  | .getSample =>
    match s.object.getSample with
    | none => { s with tasks := s.tasks.map fun t => if t.id = id then { t with waiting := true } else t }
    | some (object, data) =>
      { s with
        object := object
        departed := s.departed ++ data.toList.map fun (x : α × ℕ) => (x.1, Fate.delivered id) }.finish id (.sample data)
  | .getQueueSize => s.finish id (.size s.object.queue.length)
  | .getStatistics => s.finish id (.statistics s.object.getStatistics)
  | .clearQueue =>
    { s with
      object := s.object.clearQueue
      departed := s.departed ++ s.object.queue.map fun x => (x, Fate.cleared id) }.finish id .nothing
  | .shutdown =>
    { s with
      object := s.object.shutdown
      tasks := notifyAll s.tasks }.finish id .nothing

/-- A client submits a call, Ray starts the next call, the event loop runs a task. -/
inductive Event (α : Type*)
  | submit (call : Call α)
  | start
  | run (id : ℕ)

def step (s : State α) : Event α → Option (State α)
  | .submit call => some { s with submitted := s.submitted ++ [(s.calls, call)], calls := s.calls + 1 }
  | .start =>
    match s.submitted with
    | [] => none
    | (id, call) :: submitted =>
      if s.tasks.length < maxConcurrency then
        some { s with submitted := submitted, tasks := s.tasks ++ [⟨id, call, false⟩] }
      else none
  | .run id =>
    match s.tasks.find? fun t => t.id = id with
    | some t => if t.waiting then none else some (runTask s id t.call)
    | none => none

def initState (maxQueueSize : ℕ) : State α := ⟨.new maxQueueSize, 0, [], [], [], [], []⟩

def actor (α : Type*) (maxQueueSize : ℕ) : System (State α) (Event α) :=
  System.ofFn (· = initState maxQueueSize) step

/-! ## The books of the queue -/

def delivery : α × Fate → Option (ℕ × α)
  | (x, .delivered call) => some (call, x)
  | _ => none

def replyDelivery : ℕ × Reply α → Option (ℕ × α)
  | (id, .sample (some data)) => some (id, data.1)
  | _ => none

def Fate.isDropped : Fate → Bool
  | .dropped _ => true
  | _ => false

def Fate.isDelivered : Fate → Bool
  | .delivered _ => true
  | _ => false

def Fate.isCleared : Fate → Bool
  | .cleared _ => true
  | _ => false

/-- **The books**: the samples put are those that departed, in this order, and then those in
the queue. -/
structure Books (maxlen : ℕ) (s : State α) : Prop where
  maxQueueSize : s.object.maxQueueSize = maxlen
  order : s.puts = s.departed.map Prod.fst ++ s.object.queue
  deliveries : s.replies.filterMap replyDelivery = s.departed.filterMap delivery
  /-- A put discards the oldest of `maxlen` samples. -/
  dropped : ∀ i x put, s.departed[i]? = some (x, .dropped put) → put = i + maxlen
  capacity : s.object.queue.length ≤ maxlen
  produced : s.object.totalProduced = s.puts.length
  consumed : s.object.totalConsumed = s.departed.countP fun x => x.2.isDelivered
  droppedSamples : s.object.droppedSamples = s.departed.countP fun x => x.2.isDropped

variable {maxlen : ℕ} {s s' : State α} {id : ℕ}

theorem dequeAppend_of_lt {queue : List α} (h : queue.length < maxlen) (x : α) :
    dequeAppend maxlen queue x = queue ++ [x] := by
  rw [dequeAppend, Nat.sub_eq_zero_of_le (by omega), List.drop_zero]

theorem deliveries_concat {replies : List (ℕ × Reply α)} {departed : List (α × Fate)} {reply : Reply α}
    (h : replies.filterMap replyDelivery = departed.filterMap delivery) (hreply : replyDelivery (id, reply) = none) :
    (replies ++ [(id, reply)]).filterMap replyDelivery = departed.filterMap delivery := by
  rw [List.filterMap_append, h, List.filterMap_cons_none hreply, List.filterMap_nil, List.append_nil]

theorem dropped_concat {departed : List (α × Fate)}
    (h : ∀ i x put, departed[i]? = some (x, .dropped put) → put = i + maxlen) {x : α} {fate : Fate}
    (hx : ∀ put, fate = .dropped put → put = departed.length + maxlen) :
    ∀ i y put, (departed ++ [(x, fate)])[i]? = some (y, .dropped put) → put = i + maxlen := by
  intro i y put hget
  rcases Nat.lt_or_ge i departed.length with hlt | hge
  · rw [List.getElem?_append_left hlt] at hget
    exact h i y put hget
  · rw [List.getElem?_append_right hge] at hget
    rcases Nat.eq_zero_or_pos (i - departed.length) with hzero | hpos
    · rw [hzero] at hget
      obtain rfl : i = departed.length := by omega
      simp only [List.getElem?_cons_zero, Option.some.injEq, Prod.mk.injEq] at hget
      exact hx put hget.2
    · rw [List.getElem?_eq_none (by rw [List.length_singleton]; omega)] at hget
      cases hget

theorem Books.putSample (h : Books maxlen s) (hpos : 0 < maxlen) (x : α) :
    Books maxlen (runTask s id (.putSample x)) := by
  obtain ⟨object, calls, submitted, tasks, replies, puts, departed⟩ := s
  obtain ⟨max, queue, running, produced, consumed, droppedSamples⟩ := object
  obtain rfl : max = maxlen := h.maxQueueSize
  have horder : puts = departed.map Prod.fst ++ queue := h.order
  have hcapacity : queue.length ≤ max := h.capacity
  have hdeliveries := h.deliveries
  simp only [runTask, State.finish, MessageQueue.putSample, MessageQueue.discarded]
  by_cases hfull : queue.length ≥ max
  · -- the oldest of `max` samples is discarded
    cases queue with
    | nil => simp only [List.length_nil] at hfull; omega
    | cons y queue =>
      rw [List.length_cons] at hcapacity hfull
      simp only [List.length_cons, ge_iff_le, hfull, if_true, List.head?_cons, Option.toList_some, List.map_cons,
        List.map_nil, List.tail_cons, dequeAppend_of_lt (show queue.length < max by omega)]
      have hlength : puts.length = departed.length + max := by
        rw [horder, List.length_append, List.length_map, List.length_cons]
        omega
      refine ⟨rfl, ?_, ?_, dropped_concat h.dropped ?_, ?_, ?_, ?_, ?_⟩
      · simp [horder]
      · rw [deliveries_concat hdeliveries rfl, List.filterMap_append, List.filterMap_cons_none rfl,
          List.filterMap_nil, List.append_nil]
      · intro put hput
        cases hput
        exact hlength
      · rw [List.length_append, List.length_singleton]
        omega
      · simpa using h.produced
      · simpa [Fate.isDelivered] using h.consumed
      · simpa [Fate.isDropped] using h.droppedSamples
  · simp only [ge_iff_le, hfull, if_false, Option.toList_none, List.map_nil, List.append_nil,
      dequeAppend_of_lt (show queue.length < max by omega)]
    refine ⟨rfl, ?_, ?_, h.dropped, ?_, ?_, h.consumed, h.droppedSamples⟩
    · simp [horder]
    · exact deliveries_concat hdeliveries rfl
    · rw [List.length_append, List.length_singleton]
      omega
    · simpa using h.produced

theorem Books.getSample (h : Books maxlen s) : Books maxlen (runTask s id .getSample) := by
  obtain ⟨object, calls, submitted, tasks, replies, puts, departed⟩ := s
  obtain ⟨max, queue, running, produced, consumed, droppedSamples⟩ := object
  have horder : puts = departed.map Prod.fst ++ queue := h.order
  have hdeliveries := h.deliveries
  simp only [runTask, MessageQueue.getSample]
  cases queue with
  | nil =>
    cases running with
    | true => exact ⟨h.maxQueueSize, h.order, h.deliveries, h.dropped, h.capacity, h.produced, h.consumed, h.droppedSamples⟩
    | false =>
      simp only [Bool.false_eq_true, if_false, State.finish, Option.toList_none, List.map_nil, List.append_nil]
      exact ⟨h.maxQueueSize, h.order, deliveries_concat hdeliveries rfl, h.dropped, h.capacity, h.produced, h.consumed,
        h.droppedSamples⟩
  | cons x queue =>
    simp only [State.finish, Option.toList_some, List.map_cons, List.map_nil]
    refine ⟨h.maxQueueSize, ?_, ?_, dropped_concat h.dropped nofun, ?_, h.produced, ?_, ?_⟩
    · simp [horder]
    · rw [List.filterMap_append, List.filterMap_append, hdeliveries]
      rfl
    · exact Nat.le_of_succ_le h.capacity
    · simpa [Fate.isDelivered] using h.consumed
    · simpa [Fate.isDropped] using h.droppedSamples

theorem Books.clearQueue (h : Books maxlen s) : Books maxlen (runTask s id .clearQueue) := by
  refine ⟨h.maxQueueSize, ?_, ?_, ?_, Nat.zero_le _, h.produced, ?_, ?_⟩
  · simp [runTask, State.finish, MessageQueue.clearQueue, h.order, Function.comp_def]
  · have hcleared : (s.object.queue.map fun x => (x, Fate.cleared id)).filterMap delivery = [] := by
      rw [List.filterMap_map, List.filterMap_eq_nil_iff]
      exact fun _ _ => rfl
    change (s.replies ++ [(id, Reply.nothing)]).filterMap replyDelivery = _
    rw [deliveries_concat h.deliveries rfl]
    simp only [runTask, State.finish]
    rw [List.filterMap_append, hcleared, List.append_nil]
  · intro i x put hget
    change (s.departed ++ s.object.queue.map fun x => (x, Fate.cleared id))[i]? = _ at hget
    rcases Nat.lt_or_ge i s.departed.length with hlt | hge
    · rw [List.getElem?_append_left hlt] at hget
      exact h.dropped i x put hget
    · rw [List.getElem?_append_right hge, List.getElem?_map] at hget
      simp at hget
  · simp [runTask, State.finish, MessageQueue.clearQueue, Fate.isDelivered, h.consumed, Function.comp_def]
  · simp [runTask, State.finish, MessageQueue.clearQueue, Fate.isDropped, h.droppedSamples, Function.comp_def]

theorem Books.runTask (h : Books maxlen s) (hpos : 0 < maxlen) (call : Call α) : Books maxlen (runTask s id call) := by
  have hother : ∀ reply, replyDelivery (id, reply) = none → Books maxlen (s.finish id reply) :=
    fun reply hreply => ⟨h.maxQueueSize, h.order, deliveries_concat h.deliveries hreply, h.dropped, h.capacity,
      h.produced, h.consumed, h.droppedSamples⟩
  cases call with
  | putSample x => exact h.putSample hpos x
  | getSample => exact h.getSample
  | getQueueSize => exact hother _ rfl
  | getStatistics => exact hother _ rfl
  | clearQueue => exact h.clearQueue
  | shutdown =>
    exact ⟨h.maxQueueSize, h.order, deliveries_concat h.deliveries rfl, h.dropped, h.capacity, h.produced, h.consumed,
      h.droppedSamples⟩

/-! ## The calls -/

variable {e : Event α}

theorem step_cases (h : step s e = some s') :
    (∃ call, e = .submit call ∧
      s' = { s with submitted := s.submitted ++ [(s.calls, call)], calls := s.calls + 1 }) ∨
    (∃ id call submitted, e = .start ∧ s.submitted = (id, call) :: submitted ∧ s.tasks.length < maxConcurrency ∧
      s' = { s with submitted := submitted, tasks := s.tasks ++ [⟨id, call, false⟩] }) ∨
    ∃ id call, e = .run id ∧ s.tasks.find? (fun t => t.id = id) = some ⟨id, call, false⟩ ∧
      s' = MessageQueue.runTask s id call := by
  cases e with
  | submit call => exact Or.inl ⟨call, rfl, (Option.some.inj h).symm⟩
  | start =>
    refine Or.inr (Or.inl ?_)
    simp only [step] at h
    split at h
    · cases h
    · rename_i id call submitted hsubmitted
      split at h
      · rename_i hslot
        exact ⟨id, call, submitted, rfl, hsubmitted, hslot, (Option.some.inj h).symm⟩
      · cases h
  | run id =>
    refine Or.inr (Or.inr ?_)
    simp only [step] at h
    split at h
    · rename_i t hfind
      have hid : t.id = id := by simpa using List.find?_some hfind
      obtain ⟨tid, call, waiting⟩ := t
      obtain rfl : tid = id := hid
      cases waiting with
      | true => cases h
      | false => exact ⟨tid, call, rfl, hfind, (Option.some.inj h).symm⟩
    · cases h

theorem Books.step (h : Books maxlen s) (hpos : 0 < maxlen) (hstep : step s e = some s') : Books maxlen s' := by
  rcases step_cases hstep with ⟨call, -, rfl⟩ | ⟨id, call, submitted, -, -, -, rfl⟩ | ⟨id, call, -, -, rfl⟩
  · exact ⟨h.maxQueueSize, h.order, h.deliveries, h.dropped, h.capacity, h.produced, h.consumed, h.droppedSamples⟩
  · exact ⟨h.maxQueueSize, h.order, h.deliveries, h.dropped, h.capacity, h.produced, h.consumed, h.droppedSamples⟩
  · exact h.runTask hpos call

/-- The ids of all calls: those that have returned, those that run and those that wait for Ray. -/
def State.ids (s : State α) : List ℕ :=
  s.replies.map Prod.fst ++ (s.tasks.map Task.id ++ s.submitted.map Prod.fst)

/-- **The calls of the actor.** Nobody waits while there are samples or after the shutdown:
no notification is lost. -/
structure Calls (s : State α) : Prop where
  ids : s.ids.Perm (List.range s.calls)
  slots : s.tasks.length ≤ maxConcurrency
  waiting : ∀ t ∈ s.tasks, t.waiting = true → s.object.queue = [] ∧ s.object.running = true

theorem map_id_notifyAll (tasks : List (Task α)) : (notifyAll tasks).map Task.id = tasks.map Task.id := by
  rw [notifyAll, List.map_map]
  rfl

theorem not_waiting_notifyAll {tasks : List (Task α)} {t : Task α} (h : t ∈ notifyAll tasks) : t.waiting = false := by
  obtain ⟨u, -, rfl⟩ := List.mem_map.1 h
  rfl

theorem map_id_eraseP (tasks : List (Task α)) (id : ℕ) :
    (tasks.eraseP fun t => t.id = id).map Task.id = (tasks.map Task.id).erase id := by
  rw [List.erase_eq_eraseP', List.eraseP_map]
  congr 1

theorem ids_finish (hid : id ∈ s.tasks.map Task.id) (reply : Reply α) : (s.finish id reply).ids.Perm s.ids := by
  have htasks := List.perm_cons_erase hid
  unfold State.ids State.finish
  rw [map_id_eraseP, List.map_append, List.append_assoc]
  refine List.Perm.append_left _ ?_
  exact (htasks.append_right _).symm

theorem length_eraseP_le_slots (h : s.tasks.length ≤ maxConcurrency) (reply : Reply α) :
    (s.finish id reply).tasks.length ≤ maxConcurrency :=
  Nat.le_trans (List.length_eraseP_le) h

theorem mem_of_mem_finish {reply : Reply α} {t : Task α} (h : t ∈ (s.finish id reply).tasks) : t ∈ s.tasks :=
  List.mem_of_mem_eraseP h

theorem Calls.finish (h : Calls s) (hid : id ∈ s.tasks.map Task.id) (reply : Reply α) :
    Calls (s.finish id reply) :=
  ⟨(ids_finish hid reply).trans h.ids, length_eraseP_le_slots h.slots reply,
    fun t ht hwaiting => h.waiting t (mem_of_mem_finish ht) hwaiting⟩

theorem Calls.congr (h : Calls s) (htasks : s'.tasks = s.tasks) (hreplies : s'.replies = s.replies)
    (hsubmitted : s'.submitted = s.submitted) (hcalls : s'.calls = s.calls)
    (hwaiting : ∀ t ∈ s.tasks, t.waiting = true → s'.object.queue = [] ∧ s'.object.running = true) : Calls s' := by
  refine ⟨?_, ?_, ?_⟩
  · have hids := h.ids
    unfold State.ids at hids ⊢
    rw [htasks, hreplies, hsubmitted, hcalls]
    exact hids
  · rw [htasks]
    exact h.slots
  · rw [htasks]
    exact hwaiting

theorem Calls.notified (h : Calls s) (htasks : s'.tasks = notifyAll s.tasks) (hreplies : s'.replies = s.replies)
    (hsubmitted : s'.submitted = s.submitted) (hcalls : s'.calls = s.calls) : Calls s' := by
  refine ⟨?_, ?_, fun t ht hwaiting => ?_⟩
  · have hids := h.ids
    unfold State.ids at hids ⊢
    rw [htasks, map_id_notifyAll, hreplies, hsubmitted, hcalls]
    exact hids
  · rw [htasks, notifyAll, List.length_map]
    exact h.slots
  · rw [htasks] at ht
    rw [not_waiting_notifyAll ht] at hwaiting
    cases hwaiting

theorem Calls.getSample (h : Calls s) (hid : id ∈ s.tasks.map Task.id) : Calls (runTask s id .getSample) := by
  cases hqueue : s.object.queue with
  | nil =>
    cases hrunning : s.object.running with
    | true =>
      -- the call waits, and indeed the queue is empty
      simp only [runTask, MessageQueue.getSample, hqueue, hrunning, if_true]
      refine ⟨?_, ?_, fun t ht hwaiting => ?_⟩
      · have hmap : ((s.tasks.map fun t => if t.id = id then { t with waiting := true } else t).map Task.id) =
            s.tasks.map Task.id := by
          rw [List.map_map]
          refine List.map_congr_left fun t _ => ?_
          simp only [Function.comp_apply]
          split <;> rfl
        have hids := h.ids
        unfold State.ids at hids ⊢
        rw [hmap]
        exact hids
      · rw [List.length_map]
        exact h.slots
      · exact ⟨hqueue, hrunning⟩
    | false =>
      simp only [runTask, MessageQueue.getSample, hqueue, hrunning, Bool.false_eq_true, if_false, Option.toList_none,
        List.map_nil, List.append_nil]
      exact h.finish hid _
  | cons x queue =>
    simp only [runTask, MessageQueue.getSample, hqueue]
    refine Calls.finish ?_ ?_ _
    · refine h.congr rfl rfl rfl rfl fun t ht hwaiting => ?_
      have hempty := (h.waiting t ht hwaiting).1
      rw [hqueue] at hempty
      cases hempty
    · exact hid

theorem Calls.runTask (h : Calls s) (hid : id ∈ s.tasks.map Task.id) (call : Call α) :
    Calls (runTask s id call) := by
  have hnotified : id ∈ (notifyAll s.tasks).map Task.id := by rw [map_id_notifyAll]; exact hid
  cases call with
  | putSample x =>
    simp only [MessageQueue.runTask]
    refine Calls.finish ?_ hnotified _
    exact h.notified rfl rfl rfl rfl
  | getSample => exact h.getSample hid
  | getQueueSize => exact h.finish hid _
  | getStatistics => exact h.finish hid _
  | clearQueue =>
    simp only [MessageQueue.runTask]
    refine Calls.finish ?_ ?_ _
    · refine h.congr rfl rfl rfl rfl fun t ht hwaiting => ?_
      exact ⟨rfl, (h.waiting t ht hwaiting).2⟩
    · exact hid
  | shutdown =>
    simp only [MessageQueue.runTask]
    refine Calls.finish ?_ hnotified _
    exact h.notified rfl rfl rfl rfl

theorem Calls.step (h : Calls s) (hstep : step s e = some s') : Calls s' := by
  rcases step_cases hstep with ⟨call, -, rfl⟩ | ⟨id, call, submitted, -, hsubmitted, hslot, rfl⟩ |
    ⟨id, call, -, hfind, rfl⟩
  · refine ⟨?_, h.slots, h.waiting⟩
    have hids := h.ids.append_right [s.calls]
    rw [← List.range_succ] at hids
    simpa [State.ids] using hids
  · refine ⟨?_, ?_, fun t ht hwaiting => ?_⟩
    · have hids := h.ids
      simpa [State.ids, hsubmitted] using hids
    · rw [List.length_append]
      exact hslot
    · rcases List.mem_append.1 ht with hold | hnew
      · exact h.waiting t hold hwaiting
      · obtain rfl := List.mem_singleton.1 hnew
        cases hwaiting
  · exact h.runTask (List.mem_map_of_mem (List.mem_of_find?_eq_some hfind)) call

theorem books_of_reach (hpos : 0 < maxlen) (h : (actor α maxlen).Reach s) : Books maxlen s := by
  refine h.induct ?_ fun _ _ _ _ hbooks hstep => hbooks.step hpos hstep
  rintro s rfl
  exact ⟨rfl, rfl, rfl, nofun, Nat.zero_le _, rfl, rfl, rfl⟩

theorem calls_of_reach (h : (actor α maxlen).Reach s) : Calls s := by
  refine h.induct ?_ fun _ _ _ _ hcalls hstep => hcalls.step hstep
  rintro s rfl
  exact ⟨.refl _, Nat.zero_le _, nofun⟩

/-! ## After the shutdown -/

theorem running_runTask (h : s.object.running = false) (call : Call α) :
    (runTask s id call).object.running = false := by
  cases call with
  | putSample x =>
    simp only [runTask, State.finish, putSample]
    split <;> exact h
  | getSample =>
    simp only [runTask]
    split
    · exact h
    · rename_i object data hget
      unfold getSample at hget
      split at hget
      · rw [if_neg (by simp [h])] at hget
        simp only [Option.some.injEq, Prod.mk.injEq] at hget
        exact hget.1 ▸ h
      · simp only [Option.some.injEq, Prod.mk.injEq] at hget
        exact hget.1 ▸ h
  | getQueueSize => exact h
  | getStatistics => exact h
  | clearQueue => exact h
  | shutdown => rfl

theorem running_step (h : s.object.running = false) (hstep : step s e = some s') : s'.object.running = false := by
  rcases step_cases hstep with ⟨call, -, rfl⟩ | ⟨id, call, submitted, -, -, -, rfl⟩ | ⟨id, call, -, -, rfl⟩
  · exact h
  · exact h
  · exact running_runTask h call

/-- The reply of a call after the shutdown: the remaining samples first, then `None`. -/
def stoppedReply (q : MessageQueue α) : Reply α :=
  match q.queue with
  | [] => .sample none
  | x :: queue => .sample (some (x, queue.length))

theorem replies_getSample (h : s.object.running = false) :
    (runTask s id .getSample).replies = s.replies ++ [(id, stoppedReply s.object)] := by
  cases hqueue : s.object.queue with
  | nil => simp [runTask, getSample, stoppedReply, hqueue, h, State.finish]
  | cons x queue => simp [runTask, getSample, stoppedReply, hqueue, State.finish]

theorem tasks_runTask (h : s.object.running = false) (call : Call α) :
    (runTask s id call).tasks = s.tasks.eraseP (fun t => t.id = id) ∨
      (runTask s id call).tasks = (notifyAll s.tasks).eraseP fun t => t.id = id := by
  cases call with
  | putSample x => exact Or.inr rfl
  | getSample =>
    left
    cases hqueue : s.object.queue with
    | nil => simp [runTask, getSample, hqueue, h, State.finish]
    | cons x queue => simp [runTask, getSample, hqueue, State.finish]
  | getQueueSize => exact Or.inl rfl
  | getStatistics => exact Or.inl rfl
  | clearQueue => exact Or.inl rfl
  | shutdown => exact Or.inr rfl

theorem mem_notifyAll {tasks : List (Task α)} {t : Task α} (h : t ∈ tasks) (hwaiting : t.waiting = false) :
    t ∈ notifyAll tasks := by
  refine List.mem_map.2 ⟨t, h, ?_⟩
  rw [← hwaiting]

theorem mem_tasks_step (h : s.object.running = false) {t : Task α} (ht : t ∈ s.tasks) (hwaiting : t.waiting = false)
    (he : e ≠ .run t.id) (hstep : step s e = some s') : t ∈ s'.tasks := by
  rcases step_cases hstep with ⟨call, -, rfl⟩ | ⟨id, call, submitted, -, -, -, rfl⟩ | ⟨id, call, rfl, -, rfl⟩
  · exact ht
  · exact List.mem_append_left _ ht
  · have hid : ¬ t.id = id := fun hid => he (hid ▸ rfl)
    rcases tasks_runTask h call with htasks | htasks <;> rw [htasks, List.mem_eraseP_of_neg (by simpa using hid)]
    · exact ht
    · exact mem_notifyAll ht hwaiting

theorem length_tasks_runTask (h : s.object.running = false) (hid : id ∈ s.tasks.map Task.id) (call : Call α) :
    (runTask s id call).tasks.length + 1 = s.tasks.length := by
  have hlength : ((s.tasks.map Task.id).erase id).length + 1 = s.tasks.length := by
    rw [← List.length_cons (a := id), ← (List.perm_cons_erase hid).length_eq, List.length_map]
  rw [← hlength, ← List.length_map (f := Task.id)]
  rcases tasks_runTask h call with htasks | htasks <;> rw [htasks, map_id_eraseP]
  rw [map_id_notifyAll]

theorem Calls.call_of_run (h : Calls s) {t : Task α} (ht : t ∈ s.tasks) (hstep : MessageQueue.step s (.run t.id) = some s') :
    s' = MessageQueue.runTask s t.id t.call := by
  obtain ⟨call, he, -⟩ | ⟨id, call, submitted, he, -⟩ | ⟨id, call, he, hfind, rfl⟩ := step_cases hstep
  · cases he
  · cases he
  · obtain rfl : t.id = id := by cases he; rfl
    have hnodup : (s.tasks.map Task.id).Nodup := by
      have hids := h.ids.nodup_iff.2 List.nodup_range
      exact (List.nodup_append.1 (List.nodup_append.1 hids).2.1).1
    have heq := List.inj_on_of_nodup_map hnodup ht (List.mem_of_find?_eq_some hfind) rfl
    rw [heq]

theorem submitted_step (hstep : step s e = some s') (he : e ≠ .start) :
    ∃ more, s'.submitted = s.submitted ++ more := by
  rcases step_cases hstep with ⟨call, -, rfl⟩ | ⟨id, call, submitted, hstart, -⟩ | ⟨id, call, -, -, rfl⟩
  · exact ⟨[(s.calls, call)], rfl⟩
  · exact absurd hstart he
  · refine ⟨[], ?_⟩
    rw [List.append_nil]
    cases call with
    | getSample =>
      simp only [runTask]
      split <;> rfl
    | putSample | getQueueSize | getStatistics | clearQueue | shutdown => rfl

theorem submitted_start (hstep : step s .start = some s') :
    ∃ id call submitted, s.submitted = (id, call) :: submitted ∧ s'.submitted = submitted ∧
      ⟨id, call, false⟩ ∈ s'.tasks := by
  obtain ⟨call, he, -⟩ | ⟨id, call, submitted, -, hsubmitted, -, rfl⟩ | ⟨id, call, he, -⟩ := step_cases hstep
  · cases he
  · exact ⟨id, call, submitted, hsubmitted, rfl, List.mem_append_right _ List.mem_cons_self⟩
  · cases he

/-- A run in which the event loop runs every task that does not wait, and Ray starts the
next call while there are slots. -/
structure Fair {maxlen : ℕ} (r : (actor α maxlen).Run) : Prop where
  runs : ∀ n, ∀ t ∈ (r.state n).tasks, t.waiting = false → ∃ m, n ≤ m ∧ r.label m = some (.run t.id)
  starts : ∀ n, (r.state n).submitted ≠ [] → (r.state n).tasks.length < maxConcurrency →
    ∃ m, n ≤ m ∧ r.label m = some .start

section Liveness

variable {r : (actor α maxlen).Run} {n : ℕ}

theorem Fair.exists_run (hr : Fair r) (hstopped : (r.state n).object.running = false) {t : Task α}
    (ht : t ∈ (r.state n).tasks) :
    ∃ m, n ≤ m ∧ (r.state m).object.running = false ∧ t ∈ (r.state m).tasks ∧
      r.state (m + 1) = runTask (r.state m) t.id t.call := by
  have hwaiting : t.waiting = false := by
    by_contra hne
    have hrunning := ((calls_of_reach (r.reach n)).waiting t ht (by simpa using hne)).2
    rw [hstopped] at hrunning
    cases hrunning
  obtain ⟨m, hm, hlabel, hrunning, hmem⟩ := r.first (P := fun s => s.object.running = false ∧ t ∈ s.tasks)
    ⟨hstopped, ht⟩ (fun s e s' _ hs he hstep => ⟨running_step hs.1 hstep, mem_tasks_step hs.1 hs.2 hwaiting he hstep⟩)
    (hr.runs n t ht hwaiting)
  exact ⟨m, hm, hrunning, hmem, (calls_of_reach (r.reach m)).call_of_run hmem (r.step_of_label hlabel)⟩

/-- **After the shutdown a call that waits for Ray makes Ray start calls**: the tasks that
hold the slots return. -/
theorem Fair.exists_start (hr : Fair r) (hstopped : (r.state n).object.running = false)
    (hsubmitted : (r.state n).submitted ≠ []) : ∃ m, n ≤ m ∧ r.label m = some .start := by
  by_contra hnone
  have hno : ∀ k a, n ≤ k → r.label k = some a → ¬ a = .start :=
    fun k a hk ha hstart => hnone ⟨k, hk, hstart ▸ ha⟩
  -- as long as Ray starts nothing, the calls stay
  have hkeep : ∀ m, n ≤ m → (r.state m).submitted ≠ [] := by
    intro m hm
    refine r.stays (P := fun s => s.submitted ≠ []) (· = .start) hsubmitted ?_ hm fun k a hk _ ha => hno k a hk ha
    intro s e s' _ hs he hstep
    obtain ⟨more, hmore⟩ := submitted_step hstep he
    rw [hmore]
    simp [hs]
  by_cases hslot : (r.state n).tasks.length < maxConcurrency
  · exact hnone (hr.starts n hsubmitted hslot)
  obtain ⟨t, ht⟩ : ∃ t, t ∈ (r.state n).tasks := by
    refine List.exists_mem_of_length_pos ?_
    have hpos : 0 < maxConcurrency := by decide
    omega
  obtain ⟨m, hm, hrunning, hmem, hstate⟩ := hr.exists_run hstopped ht
  have hfree : (r.state (m + 1)).tasks.length < maxConcurrency := by
    have hlength := length_tasks_runTask hrunning (List.mem_map_of_mem hmem) t.call
    have hslots := (calls_of_reach (r.reach m)).slots
    rw [hstate]
    omega
  obtain ⟨k, hk, hstart⟩ := hr.starts (m + 1) (hkeep (m + 1) (by omega)) hfree
  exact hnone ⟨k, by omega, hstart⟩

theorem Fair.exists_first_start (hr : Fair r) (hstopped : (r.state n).object.running = false)
    {submitted : List (ℕ × Call α)} (hne : submitted ≠ []) (hsubmitted : (r.state n).submitted = submitted) :
    ∃ m, n ≤ m ∧ (r.state m).object.running = false ∧ step (r.state m) .start = some (r.state (m + 1)) ∧
      ∃ more, (r.state m).submitted = submitted ++ more := by
  have hkeep : ∀ s e s', (actor α maxlen).Reach s →
      (s.object.running = false ∧ ∃ more, s.submitted = submitted ++ more) → e ≠ .start → step s e = some s' →
      s'.object.running = false ∧ ∃ more, s'.submitted = submitted ++ more := by
    rintro s e s' - ⟨hrunning, more, hs⟩ he hstep
    obtain ⟨more', hs'⟩ := submitted_step hstep he
    exact ⟨running_step hrunning hstep, more ++ more', by rw [hs', hs, List.append_assoc]⟩
  obtain ⟨m, hm, hlabel, hrunning, hmore⟩ := r.first ⟨hstopped, [], by rw [hsubmitted, List.append_nil]⟩ hkeep
    (hr.exists_start hstopped (hsubmitted ▸ hne))
  exact ⟨m, hm, hrunning, r.step_of_label hlabel, hmore⟩

/-- **After the shutdown every submitted call is started.** The induction is on its place
in Ray's queue. -/
theorem Fair.started (hr : Fair r) {id : ℕ} {call : Call α} (before : List (ℕ × Call α)) :
    ∀ n after, (r.state n).object.running = false → (r.state n).submitted = before ++ (id, call) :: after →
      ∃ m, n ≤ m ∧ (r.state m).object.running = false ∧ ⟨id, call, false⟩ ∈ (r.state m).tasks := by
  induction before with
  | nil =>
    intro n after hstopped hsubmitted
    obtain ⟨m, hm, hrunning, hstep, rest, hrest⟩ := hr.exists_first_start hstopped (by simp) hsubmitted
    obtain ⟨id', call', submitted, hsub, -, hmem⟩ := submitted_start hstep
    rw [hrest] at hsub
    cases hsub
    exact ⟨m + 1, by omega, running_step hrunning hstep, hmem⟩
  | cons c before ih =>
    intro n after hstopped hsubmitted
    obtain ⟨m, hm, hrunning, hstep, rest, hrest⟩ := hr.exists_first_start hstopped (by simp) hsubmitted
    obtain ⟨id', call', submitted, hsub, hnext, -⟩ := submitted_start hstep
    rw [hrest] at hsub
    cases hsub
    obtain ⟨k, hk, hstarted⟩ := ih (m + 1) (after ++ rest) (running_step hrunning hstep) (by rw [hnext]; simp)
    exact ⟨k, by omega, hstarted⟩

/-- **After the shutdown every call of `get_sample` returns**, whether it waits on the
condition, has just been started or has not been started yet. -/
theorem Fair.getSample_returns (hr : Fair r) (hstopped : (r.state n).object.running = false) {id : ℕ}
    (hcall : (∃ waiting, ⟨id, .getSample, waiting⟩ ∈ (r.state n).tasks) ∨ (id, .getSample) ∈ (r.state n).submitted) :
    ∃ m, n ≤ m ∧ ∃ data, (id, .sample data) ∈ (r.state m).replies := by
  obtain ⟨m, hm, hrunning, waiting, hmem⟩ : ∃ m, n ≤ m ∧ (r.state m).object.running = false ∧
      ∃ waiting, ⟨id, .getSample, waiting⟩ ∈ (r.state m).tasks := by
    rcases hcall with ⟨waiting, hmem⟩ | hsubmitted
    · exact ⟨n, le_rfl, hstopped, waiting, hmem⟩
    · obtain ⟨before, after, hsplit⟩ := List.append_of_mem hsubmitted
      obtain ⟨m, hm, hrunning, hmem⟩ := hr.started before n after hstopped hsplit
      exact ⟨m, hm, hrunning, false, hmem⟩
  obtain ⟨k, hk, hstill, -, hstate⟩ := hr.exists_run hrunning hmem
  refine ⟨k + 1, by omega, ?_⟩
  rw [hstate, replies_getSample hstill]
  unfold stoppedReply
  split
  · exact ⟨none, by simp⟩
  · rename_i x queue _
    exact ⟨some (x, queue.length), by simp⟩

end Liveness

/-! ## The contract of the queue -/

def State.cleared (s : State α) : ℕ := s.departed.countP fun x => x.2.isCleared

/-- **The contract of the queue**, for every run of its calls. -/
structure Contract (α : Type*) (maxlen : ℕ) : Prop where
  /-- Every sample that was put has one fate, or is in the queue, in the order of the puts. -/
  order : ∀ s, (actor α maxlen).Reach s → s.puts = s.departed.map Prod.fst ++ s.object.queue
  /-- What the calls of `get_sample` have returned are the delivered samples, in this order. -/
  delivered : ∀ s, (actor α maxlen).Reach s → s.replies.filterMap replyDelivery = s.departed.filterMap delivery
  /-- No call returns twice. -/
  once : ∀ s, (actor α maxlen).Reach s → (s.replies.map Prod.fst).Nodup
  /-- A put that discards finds the queue full, and discards the oldest sample. -/
  dropped : ∀ s, (actor α maxlen).Reach s → s.object.queue.length ≤ maxlen ∧
    ∀ i x put, s.departed[i]? = some (x, .dropped put) → put = i + maxlen
  counted : ∀ s, (actor α maxlen).Reach s → s.object.droppedSamples = s.departed.countP fun x => x.2.isDropped
  conserved : ∀ s, (actor α maxlen).Reach s → s.object.totalProduced =
    s.object.totalConsumed + s.object.droppedSamples + s.object.queue.length + s.cleared
  /-- After the shutdown a call of `get_sample` that runs returns: samples first, then `None`. -/
  stopped : ∀ s id s', (actor α maxlen).Reach s → s.object.running = false →
    (∃ t ∈ s.tasks, t.id = id ∧ t.call = .getSample) → step s (.run id) = some s' →
      s'.replies = s.replies ++ [(id, stoppedReply s.object)]
  returns : ∀ (r : (actor α maxlen).Run) n id, Fair r → (r.state n).object.running = false →
    ((∃ waiting, ⟨id, .getSample, waiting⟩ ∈ (r.state n).tasks) ∨ (id, .getSample) ∈ (r.state n).submitted) →
      ∃ m, n ≤ m ∧ ∃ data, (id, .sample data) ∈ (r.state m).replies

theorem countP_fates (departed : List (α × Fate)) :
    departed.length = (departed.countP fun x => x.2.isDelivered) + (departed.countP fun x => x.2.isDropped) +
      departed.countP fun x => x.2.isCleared := by
  induction departed with
  | nil => rfl
  | cons x departed ih =>
    obtain ⟨y, fate⟩ := x
    rw [List.length_cons, List.countP_cons, List.countP_cons, List.countP_cons, ih]
    cases fate <;> simp only [Fate.isDelivered, Fate.isDropped, Fate.isCleared, if_true, Bool.false_eq_true, if_false] <;>
      omega

theorem Books.conserved (h : Books maxlen s) : s.object.totalProduced =
    s.object.totalConsumed + s.object.droppedSamples + s.object.queue.length + s.cleared := by
  have hfates := countP_fates s.departed
  have hlength : s.puts.length = s.departed.length + s.object.queue.length := by
    rw [h.order, List.length_append, List.length_map]
  rw [h.produced, h.consumed, h.droppedSamples, State.cleared, hlength]
  omega

/-- **A queue of at least one sample keeps its contract.** -/
theorem queue_contract (hpos : 0 < maxlen) : Contract α maxlen := by
  refine ⟨fun s h => (books_of_reach hpos h).order, fun s h => (books_of_reach hpos h).deliveries, fun s h => ?_,
    fun s h => ⟨(books_of_reach hpos h).capacity, (books_of_reach hpos h).dropped⟩,
    fun s h => (books_of_reach hpos h).droppedSamples, fun s h => (books_of_reach hpos h).conserved, ?_,
    fun r n id hr hstopped hcall => hr.getSample_returns hstopped hcall⟩
  · have hids := (calls_of_reach h).ids.nodup_iff.2 List.nodup_range
    exact (List.nodup_append.1 hids).1
  · rintro s id s' h hstopped ⟨t, ht, rfl, hcall⟩ hstep
    rw [(calls_of_reach h).call_of_run ht hstep, hcall, replies_getSample hstopped]

theorem queue_contract_one : 0 < 1 ∧ Contract ℕ 1 := ⟨Nat.one_pos, queue_contract Nat.one_pos⟩

/-- **The counters leave out what is cleared**: after one put and a clear the queue is empty,
one sample is produced, and none is consumed or dropped. -/
theorem clear_not_conserved : ¬ ∀ s : State ℕ, (actor ℕ 1).Reach s → s.object.totalProduced =
    s.object.totalConsumed + s.object.droppedSamples + s.object.queue.length := by
  intro h
  obtain ⟨s, hs⟩ : ∃ s, System.runFn step (initState 1)
      [.submit (.putSample 5), .start, .run 0, .submit .clearQueue, .start, .run 1] = some s := ⟨_, rfl⟩
  have hbooks := h s (System.reach_of_run (.init rfl) hs)
  cases hs
  exact absurd hbooks (by decide)

end MessageQueue

end Opd.Verl

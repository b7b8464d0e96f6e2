import Mathlib.Algebra.GroupWithZero.Nat
import Mathlib.Data.List.Nodup
import Opd.Lib.Fifo

/-!
# Router replay in a pipeline schedule

The routers of a model with experts replay given indices. The forward step of a micro-batch sets the
indices of the routers of a model chunk, which also join a queue, and a backward step that recomputes
a router takes the first ones from its queue. An action says what a router does. It changes with
each forward step of a chunk, and all queues are emptied when a batch ends, but not when it fails.

* `recompute_uses_forward`: from empty queues, a recomputation uses the indices of its micro-batch.
* `runBatch_clean`: the queues are empty after a batch with replay that ends.
-/

namespace Opd.Verl.ReplaySchedule

open Lib

variable {ι : Type}

/-! ## Routers -/

inductive RouterReplayAction
  | record
  | replayForward
  | replayBackward
deriving DecidableEq

/-- `RouterReplay`: what a router keeps. -/
structure RouterReplay (ι : Type) where
  targetTopkIdx : Option ι
  recordedTopkIdx : Option ι
  routerReplayAction : Option RouterReplayAction
  replayBackwardList : List ι

namespace RouterReplay

/-- `RouterReplay()` -/
def new : RouterReplay ι := ⟨none, none, none, []⟩

def setTargetIndices (r : RouterReplay ι) (topkIndices : ι) : RouterReplay ι :=
  { r with targetTopkIdx := some topkIndices, replayBackwardList := r.replayBackwardList ++ [topkIndices] }

def recordIndices (r : RouterReplay ι) (topkIndices : ι) : RouterReplay ι :=
  { r with recordedTopkIdx := some topkIndices }

def clearIndices (r : RouterReplay ι) : RouterReplay ι :=
  { r with recordedTopkIdx := none, targetTopkIdx := none, replayBackwardList := [] }

def setRouterReplayAction (action : RouterReplayAction) (r : RouterReplay ι) : RouterReplay ι :=
  { r with routerReplayAction := some action }

def clearRouterReplayAction (r : RouterReplay ι) : RouterReplay ι := { r with routerReplayAction := none }

/-- `compute_topk`: the indices that a router uses, where `topk` are those of its own scores. -/
def computeTopk (r : RouterReplay ι) (topk : ι) : ι × RouterReplay ι :=
  match r.routerReplayAction with
  | none => (topk, r)
  | some .record => (topk, r.recordIndices topk)
  | some .replayForward => (r.targetTopkIdx.getD topk, r)
  | some .replayBackward =>
    match r.replayBackwardList with
    | [] => (topk, r)
    | first :: rest => (first, { r with replayBackwardList := rest })

end RouterReplay

/-- `RouterReplay.router_instances` -/
abbrev Routers (ι : Type) := ℕ → RouterReplay ι

/-- `get_micro_batch_router_list`: the routers of a model chunk, from the number of those of each chunk. -/
def getMicroBatchRouterList (counts : List ℕ) (vpRank : ℕ) : List ℕ :=
  List.range' (counts.take vpRank).sum (counts.getD vpRank 0)

def update (routers : List ℕ) (f : ℕ → RouterReplay ι → RouterReplay ι) (s : Routers ι) : Routers ι :=
  fun i => if i ∈ routers then f i (s i) else s i

def isAction (action : RouterReplayAction) (counts : List ℕ) (s : Routers ι) (vpRank : ℕ) : Bool :=
  match (getMicroBatchRouterList counts vpRank).head? with
  | some i => (s i).routerReplayAction == some action
  | none => false

/-! ## Forward and backward steps -/

/-- The indices that a router has used for a micro-batch, and its action at that time. -/
structure Use (ι : Type) where
  router : ℕ
  microBatch : ℕ
  recompute : Bool
  action : Option RouterReplayAction
  indices : ι

def route (routers : List ℕ) (microBatch : ℕ) (recompute : Bool) (topk : ℕ → ι) (s : Routers ι) :
    Routers ι × List (Use ι) :=
  (update routers (fun i r => (r.computeTopk (topk i)).2) s,
    routers.map fun i =>
      ⟨i, microBatch, recompute, (s i).routerReplayAction, ((s i).computeTopk (topk i)).1⟩)

/-- A step of the schedule: a forward step with the indices of the micro-batch for each router, or a backward
step that recomputes some of the routers. -/
inductive Event (ι : Type)
  | forward (vpRank microBatch : ℕ) (routedExperts topk : ℕ → ι)
  | backward (vpRank microBatch : ℕ) (recomputed : ℕ → Bool) (topk : ℕ → ι)

def Event.vpRank : Event ι → ℕ
  | forward vpRank _ _ _ => vpRank
  | backward vpRank _ _ _ => vpRank

/-- The beginning of `forward_step`, which is set to replay the forward pass again. -/
def enterForward (counts : List ℕ) (vpRank : ℕ) (s : Routers ι) : Routers ι :=
  if isAction .replayBackward counts s vpRank then
    update (getMicroBatchRouterList counts vpRank) (fun _ => RouterReplay.setRouterReplayAction .replayForward) s
  else s

/-- `set_router_replay_data`, if the forward pass is replayed. -/
def setRouterReplayData (counts : List ℕ) (vpRank : ℕ) (routers : List ℕ) (routedExperts : ℕ → ι) (s : Routers ι) :
    Routers ι :=
  if isAction .replayForward counts s vpRank then update routers (fun i r => r.setTargetIndices (routedExperts i)) s
  else s

/-- The end of `forward_step`. -/
def leaveForward (counts : List ℕ) (vpRank : ℕ) (s : Routers ι) : Routers ι :=
  if isAction .replayForward counts s vpRank then
    update (getMicroBatchRouterList counts vpRank) (fun _ => RouterReplay.setRouterReplayAction .replayBackward) s
  else s

/-- **A step of the schedule.** -/
def step (counts : List ℕ) (s : Routers ι) : Event ι → Routers ι × List (Use ι)
  | .forward vpRank microBatch routedExperts topk =>
    let routers := getMicroBatchRouterList counts vpRank
    let s := setRouterReplayData counts vpRank routers routedExperts (enterForward counts vpRank s)
    let (s, uses) := route routers microBatch false topk s
    (leaveForward counts vpRank s, uses)
  | .backward vpRank microBatch recomputed topk =>
    route ((getMicroBatchRouterList counts vpRank).filter recomputed) microBatch true topk s

def runEvents (counts : List ℕ) (s : Routers ι) : List (Event ι) → Routers ι × List (Use ι)
  | [] => (s, [])
  | event :: events =>
    let (s, uses) := step counts s event
    let (s, more) := runEvents counts s events
    (s, uses ++ more)

/-! ## Batches -/

/-- How a batch comes to its end: it ends normally, an exception stops it after a step (or in a backward step,
which then has recomputed some routers only), or an exception stops it inside of a forward step, where some
routers have got their indices and some have used them. -/
inductive Outcome (ι : Type)
  | ended
  | failed
  | failedForward (vpRank microBatch targets used : ℕ) (routedExperts topk : ℕ → ι)

/-- A call of `forward_backward_batch`. -/
structure Batch (ι : Type) where
  enableRoutingReplay : Bool
  forwardOnly : Bool
  events : List (Event ι)
  outcome : Outcome ι

/-- `router_replay.mode` -/
inductive RouterReplayMode
  | disabled
  | r2
  | r3
deriving DecidableEq

def beginBatch (mode : RouterReplayMode) (b : Batch ι) (s : Routers ι) : Routers ι :=
  if b.enableRoutingReplay then
    if b.forwardOnly && mode == .r2 then fun i => (s i).setRouterReplayAction .record
    else fun i => (s i).setRouterReplayAction .replayForward
  else s

def endBatch (counts : List ℕ) (b : Batch ι) (s : Routers ι) : Routers ι :=
  match b.outcome with
  | .ended => if b.enableRoutingReplay then fun i => (s i).clearIndices.clearRouterReplayAction else s
  | .failed => s
  | .failedForward vpRank microBatch targets used routedExperts topk =>
    let routers := getMicroBatchRouterList counts vpRank
    let s := setRouterReplayData counts vpRank (routers.take targets) routedExperts (enterForward counts vpRank s)
    (route (routers.take used) microBatch false topk s).1

/-- **A batch**, and what its routers have used. -/
def runBatch (mode : RouterReplayMode) (counts : List ℕ) (s : Routers ι) (b : Batch ι) : Routers ι × List (Use ι) :=
  let (s, uses) := runEvents counts (beginBatch mode b s) b.events
  (endBatch counts b s, uses)

def runBatches (mode : RouterReplayMode) (counts : List ℕ) (batches : List (Batch ι)) : Routers ι :=
  batches.foldl (fun s b => (runBatch mode counts s b).1) fun _ => .new

/-! ## What a step does to a router -/

variable {counts : List ℕ} {s : Routers ι} {c k i : ℕ} {experts topk : ℕ → ι} {action : RouterReplayAction}

variable {routers : List ℕ}

theorem update_of_mem {f : ℕ → RouterReplay ι → RouterReplay ι} (hi : i ∈ routers) :
    update routers f s i = f i (s i) := if_pos hi

theorem update_of_not_mem {f : ℕ → RouterReplay ι → RouterReplay ι} (hi : i ∉ routers) :
    update routers f s i = s i := if_neg hi

theorem route_of_mem {recompute : Bool} (hi : i ∈ routers) :
    (route routers k recompute topk s).1 i = ((s i).computeTopk (topk i)).2 := if_pos hi

theorem route_of_not_mem {recompute : Bool} (hi : i ∉ routers) :
    (route routers k recompute topk s).1 i = s i := if_neg hi

/-- The routers of a forward step when they compute their indices. -/
def beforeRoute (counts : List ℕ) (c : ℕ) (experts : ℕ → ι) (s : Routers ι) : Routers ι :=
  setRouterReplayData counts c (getMicroBatchRouterList counts c) experts (enterForward counts c s)

theorem step_forward_fst : (step counts s (.forward c k experts topk)).1 =
    leaveForward counts c
      (route (getMicroBatchRouterList counts c) k false topk (beforeRoute counts c experts s)).1 := rfl

theorem step_forward_snd : (step counts s (.forward c k experts topk)).2 =
    (route (getMicroBatchRouterList counts c) k false topk (beforeRoute counts c experts s)).2 := rfl

theorem computeTopk_action (r : RouterReplay ι) (indices : ι) :
    (r.computeTopk indices).2.routerReplayAction = r.routerReplayAction := by
  obtain ⟨target, recorded, _ | action, queue⟩ := r
  · rfl
  · cases action
    · rfl
    · rfl
    · cases queue <;> rfl

theorem sum_take_le {c c' : ℕ} (h : c < c') : (counts.take c).sum + counts.getD c 0 ≤ (counts.take c').sum := by
  induction c', h using Nat.le_induction with
  | base =>
    rw [List.take_add_one, List.sum_append]
    cases hc : counts[c]? with
    | none => simp [hc]
    | some n => simp [hc]
  | succ c' _ ih =>
    refine ih.trans ?_
    rw [List.take_add_one, List.sum_append]
    exact Nat.le_add_right _ _

theorem chunk_unique {c c' : ℕ} (hi : i ∈ getMicroBatchRouterList counts c)
    (hi' : i ∈ getMicroBatchRouterList counts c') : c = c' := by
  rw [getMicroBatchRouterList, List.mem_range'_1] at hi hi'
  rcases lt_trichotomy c c' with h | h | h
  · have := @sum_take_le counts _ _ h
    omega
  · exact h
  · have := @sum_take_le counts _ _ h
    omega

theorem isAction_eq_true (h : ∀ j ∈ getMicroBatchRouterList counts c, (s j).routerReplayAction = some action)
    (hi : i ∈ getMicroBatchRouterList counts c) : isAction action counts s c = true := by
  rw [isAction]
  obtain ⟨first, rest, hlist⟩ := List.exists_cons_of_ne_nil (List.ne_nil_of_mem hi)
  have hfirst := h first (by rw [hlist]; exact List.mem_cons_self)
  simp only [hlist, List.head?_cons, hfirst, beq_self_eq_true]

theorem isAction_eq_false (h : ∀ j ∈ getMicroBatchRouterList counts c, (s j).routerReplayAction ≠ some action) :
    isAction action counts s c = false := by
  rw [isAction]
  cases hlist : getMicroBatchRouterList counts c with
  | nil => rfl
  | cons first rest =>
    have hfirst := h first (by rw [hlist]; exact List.mem_cons_self)
    exact beq_eq_false_iff_ne.2 hfirst

def Replays (counts : List ℕ) (s : Routers ι) (c : ℕ) : Prop :=
  (∀ j ∈ getMicroBatchRouterList counts c, (s j).routerReplayAction = some .replayForward) ∨
    ∀ j ∈ getMicroBatchRouterList counts c, (s j).routerReplayAction = some .replayBackward

def Records (counts : List ℕ) (s : Routers ι) (c : ℕ) : Prop :=
  (∀ j ∈ getMicroBatchRouterList counts c, (s j).routerReplayAction = none) ∨
    ∀ j ∈ getMicroBatchRouterList counts c, (s j).routerReplayAction = some .record

/-- **The routers of a chunk have one action.** -/
def Uniform (counts : List ℕ) (s : Routers ι) : Prop := ∀ c, Replays counts s c ∨ Records counts s c

theorem enterForward_of_replays (h : Replays counts s c) (hi : i ∈ getMicroBatchRouterList counts c) :
    enterForward counts c s i = (s i).setRouterReplayAction .replayForward := by
  rw [enterForward]
  rcases h with h | h
  · rw [isAction_eq_false fun j hj => by rw [h j hj]; exact nofun, if_neg Bool.false_ne_true,
      RouterReplay.setRouterReplayAction, ← h i hi]
  · rw [isAction_eq_true h hi, if_pos rfl, update_of_mem hi]

/-- **A forward step that is replayed** puts the indices into the queue and uses them. -/
theorem step_forward_of_replays (h : Replays counts s c) :
    (∀ j ∈ getMicroBatchRouterList counts c, (step counts s (.forward c k experts topk)).1 j =
      (((s j).setRouterReplayAction .replayForward).setTargetIndices (experts j)).setRouterReplayAction
        .replayBackward) ∧
    (step counts s (.forward c k experts topk)).2 = (getMicroBatchRouterList counts c).map fun j =>
      ⟨j, k, false, some .replayForward, experts j⟩ := by
  have hset : ∀ j ∈ getMicroBatchRouterList counts c, beforeRoute counts c experts s j =
      ((s j).setRouterReplayAction .replayForward).setTargetIndices (experts j) := by
    intro j hj
    have hentered : ∀ j ∈ getMicroBatchRouterList counts c,
        (enterForward counts c s j).routerReplayAction = some .replayForward := by
      intro j hj
      rw [enterForward_of_replays h hj]
      rfl
    rw [beforeRoute, setRouterReplayData, isAction_eq_true hentered hj, if_pos rfl, update_of_mem hj,
      enterForward_of_replays h hj]
  have hroute : ∀ j ∈ getMicroBatchRouterList counts c,
      (route (getMicroBatchRouterList counts c) k false topk (beforeRoute counts c experts s)).1 j =
        ((s j).setRouterReplayAction .replayForward).setTargetIndices (experts j) := by
    intro j hj
    rw [route_of_mem hj, hset j hj]
    rfl
  constructor
  · intro j hj
    rw [step_forward_fst, leaveForward, isAction_eq_true (fun j hj => by rw [hroute j hj]; rfl) hj, if_pos rfl, update_of_mem hj,
      hroute j hj]
  · rw [step_forward_snd, route]
    refine List.map_congr_left fun j hj => ?_
    rw [hset j hj]
    rfl

/-- **A forward step that is not replayed** leaves the queues and the actions. -/
theorem step_forward_of_records (h : Records counts s c) :
    (∀ j ∈ getMicroBatchRouterList counts c,
      (step counts s (.forward c k experts topk)).1 j = ((s j).computeTopk (topk j)).2) ∧
    (step counts s (.forward c k experts topk)).2 = (getMicroBatchRouterList counts c).map fun j =>
      ⟨j, k, false, (s j).routerReplayAction, ((s j).computeTopk (topk j)).1⟩ := by
  have hnot : ∀ action, action ≠ .record → ∀ j ∈ getMicroBatchRouterList counts c,
      (s j).routerReplayAction ≠ some action := by
    rintro action hne j hj
    rcases h with h | h
    · rw [h j hj]
      exact nofun
    · rw [h j hj]
      exact fun heq => hne (Option.some.inj heq).symm
  have hset : beforeRoute counts c experts s = s := by
    rw [beforeRoute, enterForward, isAction_eq_false (hnot .replayBackward nofun), if_neg Bool.false_ne_true,
      setRouterReplayData, isAction_eq_false (hnot .replayForward nofun), if_neg Bool.false_ne_true]
  rw [step_forward_snd, hset]
  refine ⟨fun j hj => ?_, rfl⟩
  rw [step_forward_fst, hset, leaveForward, isAction_eq_false, if_neg Bool.false_ne_true, route_of_mem hj]
  intro j hj
  rw [route_of_mem hj, computeTopk_action]
  exact hnot .replayForward nofun j hj

theorem step_of_not_mem (e : Event ι) (hi : i ∉ getMicroBatchRouterList counts e.vpRank) :
    (step counts s e).1 i = s i := by
  cases e with
  | forward c k experts topk =>
    have hnot : i ∉ getMicroBatchRouterList counts c := hi
    rw [step_forward_fst, leaveForward, beforeRoute, setRouterReplayData, enterForward]
    split_ifs <;> simp only [update_of_not_mem hnot, route_of_not_mem hnot]
  | backward c k recomputed topk => exact route_of_not_mem fun h => hi (List.mem_of_mem_filter h)

theorem step_backward_action {recomputed : ℕ → Bool} :
    ((step counts s (.backward c k recomputed topk)).1 i).routerReplayAction = (s i).routerReplayAction := by
  rw [step]
  by_cases hi : i ∈ (getMicroBatchRouterList counts c).filter recomputed
  · rw [route_of_mem hi, computeTopk_action]
  · rw [route_of_not_mem hi]

theorem mem_of_use {e : Event ι} {u : Use ι} (hu : u ∈ (step counts s e).2) :
    u.router ∈ getMicroBatchRouterList counts e.vpRank := by
  cases e with
  | forward c k experts topk =>
    obtain ⟨j, hj, rfl⟩ := List.mem_map.1 hu
    exact hj
  | backward c k recomputed topk =>
    obtain ⟨j, hj, rfl⟩ := List.mem_map.1 hu
    exact List.mem_of_mem_filter hj

theorem step_of_ne {e : Event ι} (hne : e.vpRank ≠ c) :
    ∀ j ∈ getMicroBatchRouterList counts c, (step counts s e).1 j = s j :=
  fun _ hj => step_of_not_mem e fun h => hne (chunk_unique h hj)

theorem Replays.step (h : Replays counts s c) (e : Event ι) : Replays counts (step counts s e).1 c := by
  by_cases hc : e.vpRank = c
  · cases e with
    | forward c' k experts topk =>
      obtain rfl : c' = c := hc
      refine .inr fun j hj => ?_
      rw [(step_forward_of_replays h).1 j hj]
      rfl
    | backward c' k recomputed topk =>
      exact h.imp (fun h j hj => step_backward_action.trans (h j hj)) fun h j hj => step_backward_action.trans (h j hj)
  · have hsame := @step_of_ne ι counts s c e hc
    exact h.imp (fun h j hj => by rw [hsame j hj, h j hj]) fun h j hj => by rw [hsame j hj, h j hj]

theorem Records.step (h : Records counts s c) (e : Event ι) : Records counts (step counts s e).1 c := by
  by_cases hc : e.vpRank = c
  · cases e with
    | forward c' k experts topk =>
      obtain rfl : c' = c := hc
      have hstep := (@step_forward_of_records ι counts s c' k experts topk h).1
      exact h.imp (fun h j hj => by rw [hstep j hj, computeTopk_action, h j hj]) fun h j hj => by
        rw [hstep j hj, computeTopk_action, h j hj]
    | backward c' k recomputed topk =>
      exact h.imp (fun h j hj => step_backward_action.trans (h j hj)) fun h j hj => step_backward_action.trans (h j hj)
  · have hsame := @step_of_ne ι counts s c e hc
    exact h.imp (fun h j hj => by rw [hsame j hj, h j hj]) fun h j hj => by rw [hsame j hj, h j hj]

/-! ## Runs of steps -/

variable {events : List (Event ι)}

theorem runEvents_cons (s : Routers ι) (e : Event ι) :
    runEvents counts s (e :: events) = ((runEvents counts (step counts s e).1 events).1,
      (step counts s e).2 ++ (runEvents counts (step counts s e).1 events).2) := rfl

theorem runEvents_append (more : List (Event ι)) (s : Routers ι) :
    runEvents counts s (events ++ more) =
      ((runEvents counts (runEvents counts s events).1 more).1,
        (runEvents counts s events).2 ++ (runEvents counts (runEvents counts s events).1 more).2) := by
  induction events generalizing s with
  | nil => rfl
  | cons e events ih =>
    rw [List.cons_append, runEvents_cons, runEvents_cons, ih]
    simp only [List.append_assoc]

theorem runEvents_singleton (s : Routers ι) (e : Event ι) : runEvents counts s [e] = step counts s e := by
  rw [runEvents_cons, runEvents]
  simp only [List.append_nil]

theorem runEvents_concat (s : Routers ι) (e : Event ι) :
    (runEvents counts s (events ++ [e])).1 = (step counts (runEvents counts s events).1 e).1 ∧
      (runEvents counts s (events ++ [e])).2 =
        (runEvents counts s events).2 ++ (step counts (runEvents counts s events).1 e).2 := by
  rw [runEvents_append, runEvents_singleton]
  exact ⟨rfl, rfl⟩

theorem Replays.runEvents (h : Replays counts s c) : Replays counts (runEvents counts s events).1 c := by
  induction events using List.reverseRecOn with
  | nil => exact h
  | append_singleton events e ih =>
    rw [(runEvents_concat s e).1]
    exact ih.step e

theorem Records.runEvents (h : Records counts s c) : Records counts (runEvents counts s events).1 c := by
  induction events using List.reverseRecOn with
  | nil => exact h
  | append_singleton events e ih =>
    rw [(runEvents_concat s e).1]
    exact ih.step e

def Event.forward? (c : ℕ) : Event ι → Option ℕ
  | forward vpRank microBatch _ _ => if vpRank = c then some microBatch else none
  | backward _ _ _ _ => none

def Event.backward? (c : ℕ) : Event ι → Option ℕ
  | forward _ _ _ _ => none
  | backward vpRank microBatch _ _ => if vpRank = c then some microBatch else none

def forwards (c : ℕ) (events : List (Event ι)) : List ℕ := events.filterMap (Event.forward? c)

def backwards (c : ℕ) (events : List (Event ι)) : List ℕ := events.filterMap (Event.backward? c)

/-- **A pipeline schedule**: a chunk has one forward step for a micro-batch, and its backward steps come in
the order of its forward steps. -/
structure InSchedule (events : List (Event ι)) : Prop where
  nodup : ∀ c, (forwards c events).Nodup
  inOrder : ∀ c before, before <+: events → backwards c before <+: forwards c before

/-- **Each router is recomputed by each backward step**, or by none, at least up to some step. -/
def RecomputesTogether (counts : List ℕ) (events : List (Event ι)) : Prop :=
  ∀ before c k recomputed topk, before ++ [.backward c k recomputed topk] <+: events →
    ∀ i ∈ getMicroBatchRouterList counts c, recomputed i = true →
      ∀ k' recomputed' topk', .backward c k' recomputed' topk' ∈ before → recomputed' i = true

def routerOp (c i : ℕ) : Event ι → Option (Fifo.Op ℕ ι)
  | .forward vpRank microBatch routedExperts _ =>
    if vpRank = c then some (.push microBatch (routedExperts i)) else none
  | .backward vpRank microBatch recomputed _ =>
    if vpRank = c ∧ recomputed i = true then some (.pop microBatch) else none

theorem forwards_append (more : List (Event ι)) : forwards c (events ++ more) = forwards c events ++ forwards c more :=
  List.filterMap_append

theorem backwards_append (more : List (Event ι)) :
    backwards c (events ++ more) = backwards c events ++ backwards c more := List.filterMap_append

theorem InSchedule.of_append {more : List (Event ι)} (h : InSchedule (events ++ more)) : InSchedule events where
  nodup c := by
    have := h.nodup c
    rw [forwards_append] at this
    exact (List.nodup_append.1 this).1
  inOrder c before hbefore := h.inOrder c before (hbefore.trans (List.prefix_append _ _))

theorem RecomputesTogether.of_append {more : List (Event ι)} (h : RecomputesTogether counts (events ++ more)) :
    RecomputesTogether counts events :=
  fun before c k recomputed topk hbefore => h before c k recomputed topk (hbefore.trans (List.prefix_append _ _))

/-- The steps of a chunk, as what happens to the queue of one of its routers. -/
def routerOps (c i : ℕ) (events : List (Event ι)) : List (Fifo.Op ℕ ι) := events.filterMap (routerOp c i)

theorem routerOps_append (more : List (Event ι)) :
    routerOps c i (events ++ more) = routerOps c i events ++ routerOps c i more := List.filterMap_append

theorem routerOps_singleton (e : Event ι) : routerOps c i [e] = (routerOp c i e).toList := by
  rw [routerOps, List.filterMap_cons, List.filterMap_nil]
  cases routerOp c i e <;> rfl

theorem pushed_routerOps (c i : ℕ) (events : List (Event ι)) :
    (Fifo.pushed (routerOps c i events)).map Prod.fst = forwards c events := by
  rw [Fifo.pushed, routerOps, forwards, List.filterMap_filterMap, List.map_filterMap]
  congr 1
  funext e
  cases e with
  | forward vpRank microBatch experts topk =>
    rw [routerOp, Event.forward?]
    split_ifs <;> rfl
  | backward vpRank microBatch recomputed topk =>
    rw [routerOp, Event.forward?]
    split_ifs <;> rfl

theorem popped_routerOps (h : ∀ k recomputed topk, .backward c k recomputed topk ∈ events → recomputed i = true) :
    Fifo.popped (routerOps c i events) = backwards c events := by
  rw [Fifo.popped, routerOps, backwards, List.filterMap_filterMap]
  refine List.filterMap_congr fun e he => ?_
  cases e with
  | forward vpRank microBatch experts topk =>
    rw [routerOp, Event.backward?]
    split_ifs <;> rfl
  | backward vpRank microBatch recomputed topk =>
    rw [routerOp, Event.backward?]
    by_cases hc : vpRank = c
    · subst hc
      rw [if_pos ⟨rfl, h microBatch recomputed topk he⟩, if_pos rfl]
      rfl
    · rw [if_neg fun h => hc h.1, if_neg hc]
      rfl

/-- The micro-batches for which indices are popped are the first ones that have a backward step. -/
theorem popped_prefix_backwards (h : RecomputesTogether counts events) (hi : i ∈ getMicroBatchRouterList counts c) :
    Fifo.popped (routerOps c i events) <+: backwards c events := by
  induction events using List.reverseRecOn with
  | nil => exact List.prefix_refl _
  | append_singleton events e ih =>
    rw [routerOps_append, backwards_append, Fifo.popped_append]
    by_cases hpop : ∃ k recomputed topk, e = .backward c k recomputed topk ∧ recomputed i = true
    · obtain ⟨k, recomputed, topk, rfl, hrecomputed⟩ := hpop
      have hall := h events c k recomputed topk (List.prefix_refl _) i hi hrecomputed
      rw [popped_routerOps fun k' recomputed' topk' h' => hall k' recomputed' topk' h']
      refine (List.prefix_append_right_inj _).2 ?_
      rw [popped_routerOps fun k' recomputed' topk' h' => ?_]
      rw [List.mem_singleton] at h'
      cases h'
      exact hrecomputed
    · have hnone : Fifo.popped (routerOps c i [e]) = [] := by
        cases e with
        | forward vpRank microBatch experts topk =>
          rw [routerOps, List.filterMap_cons, routerOp]
          split_ifs <;> rfl
        | backward vpRank microBatch recomputed topk =>
          rw [routerOps, List.filterMap_cons, routerOp, if_neg]
          · rfl
          · rintro ⟨rfl, hrecomputed⟩
            exact hpop ⟨microBatch, recomputed, topk, rfl, hrecomputed⟩
      rw [hnone, List.append_nil]
      exact (ih h.of_append).trans (List.prefix_append _ _)

theorem routerOps_inOrder (hsched : InSchedule events) (htogether : RecomputesTogether counts events)
    (hi : i ∈ getMicroBatchRouterList counts c) : Fifo.InOrder (routerOps c i events) := by
  intro ops hops
  obtain ⟨before, hbefore, rfl⟩ := List.prefix_filterMap_iff.1 hops
  obtain ⟨after, rfl⟩ := hbefore
  change Fifo.popped (routerOps c i before) <+: (Fifo.pushed (routerOps c i before)).map Prod.fst
  rw [pushed_routerOps]
  exact (popped_prefix_backwards htogether.of_append hi).trans (hsched.inOrder c before (List.prefix_append _ _))

theorem routerOp_of_ne {e : Event ι} (h : e.vpRank ≠ c) : routerOp c i e = none ∧ e.forward? c = none := by
  cases e with
  | forward c' k experts topk => exact ⟨if_neg h, if_neg h⟩
  | backward c' k recomputed topk => exact ⟨if_neg fun h' => h h'.1, rfl⟩

theorem computeTopk_backward {r : RouterReplay ι} {first indices : ι} {rest : List ι}
    (haction : r.routerReplayAction = some .replayBackward) (hqueue : r.replayBackwardList = first :: rest) :
    r.computeTopk indices = (first, { r with replayBackwardList := rest }) := by
  rw [RouterReplay.computeTopk, haction, hqueue]

/-- What a router has used in a chunk that is replayed, and what it keeps. -/
structure Replayed (counts : List ℕ) (s : Routers ι) (events : List (Event ι)) (c i : ℕ) : Prop where
  queue : ((runEvents counts s events).1 i).replayBackwardList = Fifo.contents [] (routerOps c i events)
  action : forwards c events ≠ [] → ∀ j ∈ getMicroBatchRouterList counts c,
    ((runEvents counts s events).1 j).routerReplayAction = some .replayBackward
  forward_mem : ∀ k experts topk, .forward c k experts topk ∈ events →
    ⟨i, k, false, some .replayForward, experts i⟩ ∈ (runEvents counts s events).2
  used : ∀ u ∈ (runEvents counts s events).2, u.router = i → ∃ k experts topk,
    .forward c k experts topk ∈ events ∧ u.microBatch = k ∧ u.indices = experts i ∧
      u.action = some (if u.recompute then .replayBackward else .replayForward)

theorem exists_forward {key : ℕ} {value : ι} (h : (key, value) ∈ Fifo.pushed (routerOps c i events)) :
    ∃ experts topk, .forward c key experts topk ∈ events ∧ value = experts i := by
  obtain ⟨op, hop, hpushed⟩ := List.mem_filterMap.1 h
  obtain ⟨e, he, hop⟩ := List.mem_filterMap.1 hop
  cases e with
  | forward vpRank microBatch experts topk =>
    rw [routerOp] at hop
    split_ifs at hop with hc
    cases hop
    cases hpushed
    rw [← hc]
    exact ⟨experts, topk, he, rfl⟩
  | backward vpRank microBatch recomputed topk =>
    rw [routerOp] at hop
    split_ifs at hop
    cases hop
    cases hpushed

theorem Replayed.other {e : Event ι} (h : Replayed counts s events c i) (hi : i ∈ getMicroBatchRouterList counts c)
    (hne : e.vpRank ≠ c) : Replayed counts s (events ++ [e]) c i := by
  obtain ⟨hstate, huses⟩ := @runEvents_concat ι counts events s e
  obtain ⟨hop, hforward⟩ := routerOp_of_ne (i := i) hne
  have hsame := @step_of_ne ι counts (runEvents counts s events).1 c e hne
  refine ⟨?_, fun hforwards j hj => ?_, fun k experts topk hmem => ?_, fun u hu hrouter => ?_⟩
  · rw [hstate, hsame i hi, h.queue, routerOps_append, routerOps_singleton, hop, Option.toList_none, List.append_nil]
  · rw [forwards_append, forwards, forwards, List.filterMap_cons, hforward, List.filterMap_nil, List.append_nil]
      at hforwards
    rw [hstate, hsame j hj]
    exact h.action hforwards j hj
  · rw [List.mem_append, List.mem_singleton] at hmem
    rw [huses]
    rcases hmem with hmem | rfl
    · exact List.mem_append_left _ (h.forward_mem k experts topk hmem)
    · exact absurd rfl hne
  · rw [huses, List.mem_append] at hu
    rcases hu with hu | hu
    · obtain ⟨k, experts, topk, hmem, hrest⟩ := h.used u hu hrouter
      exact ⟨k, experts, topk, List.mem_append_left _ hmem, hrest⟩
    · have hmem := mem_of_use hu
      rw [hrouter] at hmem
      exact absurd (chunk_unique hmem hi) hne

theorem Replayed.forward {experts topk : ℕ → ι} (h : Replayed counts s events c i) (hs : Replays counts s c)
    (hi : i ∈ getMicroBatchRouterList counts c) :
    Replayed counts s (events ++ [.forward c k experts topk]) c i := by
  obtain ⟨hstate, huses⟩ := @runEvents_concat ι counts events s (.forward c k experts topk)
  obtain ⟨hafter, hused⟩ := @step_forward_of_replays ι counts (runEvents counts s events).1 c k experts topk hs.runEvents
  refine ⟨?_, fun _ j hj => ?_, fun k' experts' topk' hmem => ?_, fun u hu hrouter => ?_⟩
  · rw [hstate, hafter i hi, routerOps_append, Fifo.contents_append, ← h.queue, routerOps_singleton, routerOp, if_pos rfl]
    rfl
  · rw [hstate, hafter j hj]
    rfl
  · rw [List.mem_append, List.mem_singleton] at hmem
    rw [huses]
    rcases hmem with hmem | heq
    · exact List.mem_append_left _ (h.forward_mem k' experts' topk' hmem)
    · cases heq
      rw [hused]
      exact List.mem_append_right _ (List.mem_map.2 ⟨i, hi, rfl⟩)
  · rw [huses, List.mem_append] at hu
    rcases hu with hu | hu
    · obtain ⟨k', experts', topk', hmem, hrest⟩ := h.used u hu hrouter
      exact ⟨k', experts', topk', List.mem_append_left _ hmem, hrest⟩
    · rw [hused] at hu
      obtain ⟨j, -, rfl⟩ := List.mem_map.1 hu
      obtain rfl : j = i := hrouter
      exact ⟨k, experts, topk, List.mem_append_right _ (List.mem_singleton_self _), rfl, rfl, rfl⟩

/-- One more backward step of the chunk: the first indices in the queue are those of its micro-batch. -/
theorem Replayed.backward {recomputed : ℕ → Bool} {topk : ℕ → ι} (h : Replayed counts s events c i)
    (hsched : InSchedule (events ++ [.backward c k recomputed topk]))
    (htogether : RecomputesTogether counts (events ++ [.backward c k recomputed topk]))
    (hi : i ∈ getMicroBatchRouterList counts c) :
    Replayed counts s (events ++ [.backward c k recomputed topk]) c i := by
  obtain ⟨hstate, huses⟩ := @runEvents_concat ι counts events s (.backward c k recomputed topk)
  have hforwards : forwards c (events ++ [.backward c k recomputed topk]) = forwards c events := by
    rw [forwards_append]
    exact List.append_nil _
  have haction : ∀ j ∈ getMicroBatchRouterList counts c,
      ((runEvents counts s events).1 j).routerReplayAction = some .replayBackward := by
    refine h.action fun hnil => ?_
    have hprefix := hsched.inOrder c _ (List.prefix_refl _)
    rw [hforwards, hnil, List.prefix_nil, backwards_append, List.append_eq_nil_iff] at hprefix
    have hone : backwards c [Event.backward c k recomputed topk] = [k] := by
      rw [backwards, List.filterMap_cons, Event.backward?, if_pos rfl, List.filterMap_nil]
    rw [hone] at hprefix
    cases hprefix.2
  have hinOrder := routerOps_inOrder hsched htogether hi
  rw [routerOps_append, routerOps_singleton, routerOp] at hinOrder
  refine ⟨?_, fun _ j hj => ?_, fun k' experts' topk' hmem => ?_, fun u hu hrouter => ?_⟩
  · rw [hstate, step, routerOps_append, Fifo.contents_append, ← h.queue, routerOps_singleton, routerOp]
    by_cases hrecomputed : recomputed i = true
    · rw [if_pos ⟨rfl, hrecomputed⟩] at hinOrder ⊢
      obtain ⟨value, -, hhead⟩ := hinOrder.head_of_pop
      rw [← h.queue] at hhead
      obtain ⟨rest, hqueue⟩ := List.head?_eq_some_iff.1 hhead
      rw [route_of_mem (List.mem_filter.2 ⟨hi, hrecomputed⟩), computeTopk_backward (haction i hi) hqueue, hqueue]
      rfl
    · rw [if_neg fun h => hrecomputed h.2, route_of_not_mem fun h => hrecomputed (List.mem_filter.1 h).2]
      rfl
  · rw [hstate, step_backward_action, haction j hj]
  · rw [List.mem_append, List.mem_singleton] at hmem
    rw [huses]
    rcases hmem with hmem | heq
    · exact List.mem_append_left _ (h.forward_mem k' experts' topk' hmem)
    · cases heq
  · rw [huses, List.mem_append] at hu
    rcases hu with hu | hu
    · obtain ⟨k', experts', topk', hmem, hrest⟩ := h.used u hu hrouter
      exact ⟨k', experts', topk', List.mem_append_left _ hmem, hrest⟩
    · rw [step, route] at hu
      obtain ⟨j, hj, rfl⟩ := List.mem_map.1 hu
      obtain rfl : j = i := hrouter
      rw [if_pos ⟨rfl, (List.mem_filter.1 hj).2⟩] at hinOrder
      obtain ⟨value, hpushed, hhead⟩ := hinOrder.head_of_pop
      rw [← h.queue] at hhead
      obtain ⟨rest, hqueue⟩ := List.head?_eq_some_iff.1 hhead
      obtain ⟨experts, topk', hmem, rfl⟩ := exists_forward hpushed
      refine ⟨k, experts, topk', List.mem_append_left _ hmem, rfl, ?_, haction j hi⟩
      exact congrArg Prod.fst (computeTopk_backward (haction j hi) hqueue)

/-- **What a router has used**, and what it keeps, after some steps from an empty queue. -/
theorem replayed (hs : Replays counts s c) (hsched : InSchedule events) (htogether : RecomputesTogether counts events)
    (hi : i ∈ getMicroBatchRouterList counts c) (hempty : (s i).replayBackwardList = []) :
    Replayed counts s events c i := by
  induction events using List.reverseRecOn with
  | nil => exact ⟨hempty, fun h => absurd rfl h, fun _ _ _ h => absurd h List.not_mem_nil, fun _ h => absurd h List.not_mem_nil⟩
  | append_singleton events e ih =>
    have hbefore := ih hsched.of_append htogether.of_append
    by_cases hc : e.vpRank = c
    · cases e with
      | forward c' k experts topk =>
        obtain rfl : c' = c := hc
        exact hbefore.forward hs hi
      | backward c' k recomputed topk =>
        obtain rfl : c' = c := hc
        exact hbefore.backward hsched htogether hi
    · exact hbefore.other hi hc

theorem records_used (hs : Records counts s c) (hi : i ∈ getMicroBatchRouterList counts c) :
    ∀ u ∈ (runEvents counts s events).2, u.router = i → u.action ≠ some .replayBackward := by
  have hnot : ∀ {s : Routers ι}, Records counts s c → (s i).routerReplayAction ≠ some .replayBackward := by
    rintro s (h | h)
    · rw [h i hi]
      exact nofun
    · rw [h i hi]
      exact nofun
  induction events using List.reverseRecOn with
  | nil => exact fun _ h => absurd h List.not_mem_nil
  | append_singleton events e ih =>
    intro u hu hrouter
    rw [(runEvents_concat s e).2, List.mem_append] at hu
    rcases hu with hu | hu
    · exact ih u hu hrouter
    · have hstate := @Records.runEvents ι counts s c events hs
      have hmem := mem_of_use hu
      rw [hrouter] at hmem
      cases e with
      | forward c' k experts topk =>
        obtain rfl : c' = c := chunk_unique hmem hi
        rw [(step_forward_of_records hstate).2] at hu
        obtain ⟨j, -, rfl⟩ := List.mem_map.1 hu
        obtain rfl : j = i := hrouter
        exact hnot hstate
      | backward c' k recomputed topk =>
        obtain ⟨j, -, rfl⟩ := List.mem_map.1 hu
        obtain rfl : j = i := hrouter
        exact hnot hstate

theorem mem_of_use_run {u : Use ι} (hu : u ∈ (runEvents counts s events).2) :
    ∃ c, u.router ∈ getMicroBatchRouterList counts c := by
  induction events using List.reverseRecOn with
  | nil => exact absurd hu List.not_mem_nil
  | append_singleton events e ih =>
    rw [(runEvents_concat s e).2, List.mem_append] at hu
    rcases hu with hu | hu
    · exact ih hu
    · exact ⟨e.vpRank, mem_of_use hu⟩

theorem forward_unique (h : (forwards c events).Nodup) {experts topk experts' topk' : ℕ → ι}
    (hmem : .forward c k experts topk ∈ events) (hmem' : .forward c k experts' topk' ∈ events) :
    experts = experts' := by
  have hkey : ∀ {more : List (Event ι)} {experts topk : ℕ → ι}, .forward c k experts topk ∈ more → k ∈ forwards c more :=
    fun hmem => List.mem_filterMap.2 ⟨_, hmem, if_pos rfl⟩
  induction events with
  | nil => exact absurd hmem List.not_mem_nil
  | cons e events ih =>
    have hcons : forwards c (e :: events) = (e.forward? c).toList ++ forwards c events := by
      rw [forwards, forwards, List.filterMap_cons]
      cases e.forward? c <;> rfl
    rw [hcons, List.nodup_append] at h
    have hone : Event.forward? c (Event.forward c k experts topk) = some k := if_pos rfl
    have hone' : Event.forward? c (Event.forward c k experts' topk') = some k := if_pos rfl
    rw [List.mem_cons] at hmem hmem'
    rcases hmem with rfl | hmem
    · rcases hmem' with heq | hmem'
      · cases heq
        rfl
      · rw [hone] at h
        exact absurd rfl (h.2.2 k (List.mem_singleton_self k) k (hkey hmem'))
    · rcases hmem' with rfl | hmem'
      · rw [hone'] at h
        exact absurd rfl (h.2.2 k (List.mem_singleton_self k) k (hkey hmem))
      · exact ih h.2.1 hmem hmem'

/-! ## Runs of batches -/

/-- **What is recomputed is what was used**: each recomputation in `REPLAY_BACKWARD` uses the indices that the
router has used in the forward step of the micro-batch, in `REPLAY_FORWARD`. -/
def FollowsMicroBatch (uses : List (Use ι)) : Prop :=
  ∀ u ∈ uses, u.recompute = true → u.action = some .replayBackward →
    (∃ f ∈ uses, f.recompute = false ∧ f.router = u.router ∧ f.microBatch = u.microBatch) ∧
    ∀ f ∈ uses, f.recompute = false → f.router = u.router → f.microBatch = u.microBatch →
      f.action = some .replayForward ∧ f.indices = u.indices

theorem followsMicroBatch (hs : Uniform counts s) (hempty : ∀ i, (s i).replayBackwardList = [])
    (hsched : InSchedule events) (htogether : RecomputesTogether counts events) :
    FollowsMicroBatch (runEvents counts s events).2 := by
  intro u hu hrecompute haction
  obtain ⟨c, hi⟩ := mem_of_use_run hu
  rcases hs c with hreplays | hrecords
  · have hreplayed := replayed hreplays hsched htogether hi (hempty _)
    obtain ⟨k, experts, topk, hmem, hk, hindices, -⟩ := hreplayed.used u hu rfl
    refine ⟨⟨_, hreplayed.forward_mem k experts topk hmem, rfl, rfl, hk.symm⟩, fun f hf hforward hrouter hbatch => ?_⟩
    obtain ⟨k', experts', topk', hmem', hk', hindices', haction'⟩ := hreplayed.used f hf hrouter
    rw [hforward] at haction'
    obtain rfl : k' = k := hk'.symm.trans (hbatch.trans hk)
    rw [forward_unique (hsched.nodup c) hmem' hmem] at hindices'
    exact ⟨haction', hindices'.trans hindices.symm⟩
  · exact absurd haction (records_used hrecords hi u hu rfl)

theorem Uniform.congr {s' : Routers ι} (h : Uniform counts s)
    (hsame : ∀ i, (s' i).routerReplayAction = (s i).routerReplayAction) : Uniform counts s' := fun c =>
  (h c).imp (fun h => h.imp (fun h j hj => (hsame j).trans (h j hj)) fun h j hj => (hsame j).trans (h j hj))
    fun h => h.imp (fun h j hj => (hsame j).trans (h j hj)) fun h j hj => (hsame j).trans (h j hj)

theorem Uniform.runEvents (h : Uniform counts s) : Uniform counts (runEvents counts s events).1 :=
  fun c => (h c).imp Replays.runEvents Records.runEvents

theorem Uniform.beginBatch (h : Uniform counts s) (mode : RouterReplayMode) (b : Batch ι) :
    Uniform counts (beginBatch mode b s) := by
  rw [ReplaySchedule.beginBatch]
  split_ifs
  · exact fun c => .inr (.inr fun _ _ => rfl)
  · exact fun c => .inl (.inl fun _ _ => rfl)
  · exact h

theorem Uniform.enterForward (h : Uniform counts s) (c' : ℕ) : Uniform counts (enterForward counts c' s) := by
  intro c
  by_cases hc : c = c'
  · subst hc
    rcases h c with hreplays | hrecords
    · refine .inl (.inl fun j hj => ?_)
      rw [enterForward_of_replays hreplays hj]
      rfl
    · rw [ReplaySchedule.enterForward, isAction_eq_false, if_neg Bool.false_ne_true]
      · exact .inr hrecords
      · intro j hj
        rcases hrecords with h | h
        · rw [h j hj]
          exact nofun
        · rw [h j hj]
          exact nofun
  · have hsame : ∀ j ∈ getMicroBatchRouterList counts c, ReplaySchedule.enterForward counts c' s j = s j := by
      intro j hj
      rw [ReplaySchedule.enterForward]
      split_ifs
      · exact update_of_not_mem fun h => hc (chunk_unique hj h)
      · rfl
    exact (h c).imp
      (fun h => h.imp (fun h j hj => by rw [hsame j hj, h j hj]) fun h j hj => by rw [hsame j hj, h j hj])
      fun h => h.imp (fun h j hj => by rw [hsame j hj, h j hj]) fun h j hj => by rw [hsame j hj, h j hj]

theorem Uniform.endBatch (h : Uniform counts s) (b : Batch ι) : Uniform counts (endBatch counts b s) := by
  rw [ReplaySchedule.endBatch]
  cases b.outcome with
  | ended =>
    change Uniform counts (if _ then _ else _)
    split_ifs
    · exact fun c => .inr (.inl fun _ _ => rfl)
    · exact h
  | failed => exact h
  | failedForward c k targets used experts topk =>
    refine (h.enterForward c).congr fun i => ?_
    have hroute : ∀ (routers : List ℕ) (s : Routers ι),
        ((route routers k false topk s).1 i).routerReplayAction = (s i).routerReplayAction := by
      intro routers s
      by_cases hi : i ∈ routers
      · rw [route_of_mem hi, computeTopk_action]
      · rw [route_of_not_mem hi]
    refine (hroute _ _).trans ?_
    rw [setRouterReplayData]
    split_ifs
    · rw [update]
      split_ifs <;> rfl
    · rfl

theorem runBatches_uniform (mode : RouterReplayMode) (counts : List ℕ) (batches : List (Batch ι)) :
    Uniform counts (runBatches mode counts batches) := by
  induction batches using List.reverseRecOn with
  | nil => exact fun c => .inr (.inl fun _ _ => rfl)
  | append_singleton batches b ih =>
    rw [runBatches, List.foldl_append]
    exact (ih.beginBatch mode b).runEvents.endBatch b

theorem beginBatch_queue (mode : RouterReplayMode) (b : Batch ι) (s : Routers ι) (i : ℕ) :
    (beginBatch mode b s i).replayBackwardList = (s i).replayBackwardList := by
  rw [beginBatch]
  split_ifs <;> rfl

/-- **From empty queues, a batch recomputes what it has used**, after any batches, of which some may have
failed. -/
theorem recompute_uses_forward (mode : RouterReplayMode) (counts : List ℕ) (earlier : List (Batch ι)) (b : Batch ι)
    (hsched : InSchedule b.events) (htogether : RecomputesTogether counts b.events)
    (hempty : ∀ i, (runBatches mode counts earlier i).replayBackwardList = []) :
    FollowsMicroBatch (runBatch mode counts (runBatches mode counts earlier) b).2 := by
  refine followsMicroBatch ((runBatches_uniform mode counts earlier).beginBatch mode b) (fun i => ?_) hsched htogether
  rw [beginBatch_queue, hempty i]

theorem step_of_no_action (h : ∀ i, (s i).routerReplayAction = none) (e : Event ι) : (step counts s e).1 = s := by
  have hsame : ∀ i (indices : ι), ((s i).computeTopk indices).2 = s i := by
    intro i indices
    rw [RouterReplay.computeTopk, h i]
  funext i
  cases e with
  | forward c k experts topk =>
    by_cases hi : i ∈ getMicroBatchRouterList counts c
    · rw [(step_forward_of_records (.inl fun j _ => h j)).1 i hi, hsame]
    · exact step_of_not_mem (.forward c k experts topk) hi
  | backward c k recomputed topk =>
    rw [step]
    by_cases hi : i ∈ (getMicroBatchRouterList counts c).filter recomputed
    · rw [route_of_mem hi, hsame]
    · rw [route_of_not_mem hi]

/-- **Batches that end leave empty queues**, and no action. -/
theorem runBatches_clean (mode : RouterReplayMode) (counts : List ℕ) (batches : List (Batch ι))
    (h : ∀ b ∈ batches, b.outcome = .ended) (i : ℕ) :
    (runBatches mode counts batches i).replayBackwardList = [] ∧
      (runBatches mode counts batches i).routerReplayAction = none := by
  induction batches using List.reverseRecOn generalizing i with
  | nil => exact ⟨rfl, rfl⟩
  | append_singleton batches b ih =>
    have hbefore := ih fun b' hb' => h b' (List.mem_append_left _ hb')
    have hended := h b (List.mem_append_right _ (List.mem_singleton_self b))
    rw [runBatches, List.foldl_append]
    change (endBatch counts b (runEvents counts (beginBatch mode b (runBatches mode counts batches)) b.events).1
      i).replayBackwardList = [] ∧ (endBatch counts b (runEvents counts
        (beginBatch mode b (runBatches mode counts batches)) b.events).1 i).routerReplayAction = none
    rw [endBatch, hended]
    by_cases henable : b.enableRoutingReplay = true
    · simp only [henable, if_true]
      exact ⟨rfl, rfl⟩
    · rw [if_neg henable]
      have hnothing : ∀ events : List (Event ι),
          (runEvents counts (runBatches mode counts batches) events).1 = runBatches mode counts batches := by
        intro events
        induction events using List.reverseRecOn with
        | nil => rfl
        | append_singleton events e ih =>
          rw [(runEvents_concat _ e).1, ih, step_of_no_action fun i => (hbefore i).2]
      rw [beginBatch, if_neg henable, hnothing]
      exact hbefore i

/-! ## A failed batch -/

/-- A forward step of micro-batch 0 with the given indices, which do not depend on the router. -/
def forwardOf (microBatch value : ℕ) : Event ℕ := .forward 0 microBatch (fun _ => value) fun _ => 0

def backwardOf (microBatch : ℕ) : Event ℕ := .backward 0 microBatch (fun _ => true) fun _ => 0

/-- Two micro-batches, the second one forward before the first one backward. -/
def twoMicroBatches : Batch ℕ :=
  ⟨true, false, [forwardOf 0 5, forwardOf 1 6, backwardOf 0, backwardOf 1], .ended⟩

def failedBatch : Batch ℕ := ⟨true, false, [forwardOf 0 5], .failed⟩

def nextBatch : Batch ℕ := ⟨true, false, [forwardOf 0 6, backwardOf 0], .ended⟩

theorem inSchedule_of_chunk {events : List (Event ℕ)} (hall : (events.all fun e => e.vpRank == 0) = true)
    (hnodup : (forwards 0 events).Nodup)
    (hinOrder : ∀ n ≤ events.length, backwards 0 (events.take n) <+: forwards 0 (events.take n)) : InSchedule events := by
  have hchunk : ∀ e ∈ events, e.vpRank = 0 := fun e he => beq_iff_eq.1 (List.all_eq_true.1 hall e he)
  have hother : ∀ c ≠ 0, ∀ more : List (Event ℕ), (∀ e ∈ more, e.vpRank = 0) →
      forwards c more = [] ∧ backwards c more = [] := by
    intro c hc more hmore
    constructor <;> refine List.filterMap_eq_nil_iff.2 fun e he => ?_ <;> have hrank := hmore e he
    · exact (routerOp_of_ne (i := 0) (hrank.trans_ne hc.symm)).2
    · cases e with
      | forward vpRank microBatch experts topk => rfl
      | backward vpRank microBatch recomputed topk => exact if_neg (hrank.trans_ne hc.symm)
  constructor
  · intro c
    by_cases hc : c = 0
    · rw [hc]
      exact hnodup
    · rw [(hother c hc events hchunk).1]
      exact List.nodup_nil
  · intro c before hbefore
    by_cases hc : c = 0
    · rw [hc, List.prefix_iff_eq_take.1 hbefore]
      exact hinOrder _ hbefore.length_le
    · rw [(hother c hc before fun e he => hchunk e (hbefore.subset he)).2]
      exact List.nil_prefix

theorem recomputesTogether_of_all {counts : List ℕ} {events : List (Event ι)}
    (h : ∀ c k recomputed topk i, Event.backward c k recomputed topk ∈ events → recomputed i = true) :
    RecomputesTogether counts events := by
  intro before c k recomputed topk hbefore i _ _ k' recomputed' topk' hmem
  exact h c k' recomputed' topk' i (hbefore.subset (List.mem_append_left _ hmem))

theorem backward_recomputes (c k : ℕ) (recomputed : ℕ → Bool) (topk : ℕ → ℕ) (i : ℕ)
    (h : Event.backward c k recomputed topk ∈ twoMicroBatches.events ∨
      Event.backward c k recomputed topk ∈ nextBatch.events) : recomputed i = true := by
  simp only [twoMicroBatches, nextBatch, List.mem_cons, List.not_mem_nil, forwardOf, backwardOf, reduceCtorEq,
    Event.backward.injEq, false_or, or_false] at h
  rcases h with (⟨-, -, rfl, -⟩ | ⟨-, -, rfl, -⟩) | ⟨-, -, rfl, -⟩ <;> rfl

theorem twoMicroBatches_follow :
    FollowsMicroBatch (runBatch .r3 [1] (runBatches .r3 [1] [twoMicroBatches]) twoMicroBatches).2 := by
  refine recompute_uses_forward .r3 [1] [twoMicroBatches] twoMicroBatches
    (inSchedule_of_chunk rfl (by decide) (by decide))
    (recomputesTogether_of_all fun c k recomputed topk i h => backward_recomputes c k recomputed topk i (.inl h))
    fun i => (runBatches_clean .r3 [1] [twoMicroBatches] (fun b hb => ?_) i).1
  rw [List.mem_singleton.1 hb]
  rfl

theorem not_followsMicroBatch : ¬∀ (mode : RouterReplayMode) (counts : List ℕ) (earlier : List (Batch ℕ)) (b : Batch ℕ),
    (∀ b' ∈ earlier, InSchedule b'.events) → InSchedule b.events → RecomputesTogether counts b.events →
    FollowsMicroBatch (runBatch mode counts (runBatches mode counts earlier) b).2 := by
  intro h
  have hfollows := h .r3 [1] [failedBatch] nextBatch
    (fun b hb => by
      rw [List.mem_singleton.1 hb]
      exact inSchedule_of_chunk rfl (by decide) (by decide))
    (inSchedule_of_chunk rfl (by decide) (by decide))
    (recomputesTogether_of_all fun c k recomputed topk i h => backward_recomputes c k recomputed topk i (.inr h))
  have huses : (runBatch .r3 [1] (runBatches .r3 [1] [failedBatch]) nextBatch).2 =
      [⟨0, 0, false, some .replayForward, 6⟩, ⟨0, 0, true, some .replayBackward, 5⟩] := rfl
  rw [huses] at hfollows
  have hsame := (hfollows _ (List.mem_cons_of_mem _ (List.mem_singleton_self _)) rfl rfl).2 _ List.mem_cons_self rfl rfl
    rfl
  exact absurd hsame.2 (by decide)

end Opd.Verl.ReplaySchedule

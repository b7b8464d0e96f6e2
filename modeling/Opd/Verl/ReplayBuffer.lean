import Opd.Verl.TransferQueue
import Mathlib.Data.List.Sort
import Mathlib.Data.Rat.Defs
import Mathlib.Algebra.Order.Ring.Rat

/-!
# The replay buffer: metadata sync, selection and dropping

`ReplayBuffer.sample` reads the metadata of TransferQueue, waits until enough prompts are
terminal, takes the oldest of them, collects their trajectories from what it has read and
drops the stale ones. Here are its local computations; its calls of TransferQueue are the
steps of `Opd.Verl.RolloutPool`.

* `describes_of_sync`: what the metadata holds after a sync.
* `mem_sampleableKeys`: the sampleable keys are the terminal prompts.
* `Selects`, `selects_selectPrompts`: the selection takes the oldest prompts.
* `mem_collect`: the collected trajectories.
* `dropLoop_eq`: the loop over the batch splits it by staleness.
-/

namespace Opd.Verl

open Lib

/-! ## Configuration and metadata -/

inductive Strategy
  | drop
  | wait
deriving DecidableEq

/-- The options of a replay buffer, with the assertions of `__init__`. -/
structure ReplayConfig where
  maxOffPolicyThreshold : ℕ
  maxOffPolicyStrategy : Strategy
  parameterSyncStep : ℕ
  threshold_pos : 0 < maxOffPolicyThreshold
  sync_step_pos : 0 < parameterSyncStep

inductive SampleError
  | keyError (field : String)
  | unknownStatus (status : Status)
  | emptyClear
deriving DecidableEq

/-- The metadata a `ReplayBuffer` keeps between two syncs. -/
structure Metadata where
  partitions : Dict (PartitionId × Key) Tag
  pendingKeys : List (PartitionId × Key)
  runningKeys : List (PartitionId × Key)
  finishedKeys : List (PartitionId × Key)
  failureKeys : List (PartitionId × Key)
  promptGlobalSteps : Dict (PartitionId × Key) ℤ

/-- The metadata after the `clear()` calls. -/
def Metadata.empty : Metadata where
  partitions := .empty
  pendingKeys := []
  runningKeys := []
  finishedKeys := []
  failureKeys := []
  promptGlobalSteps := .empty

def Metadata.keysOf (m : Metadata) : Status → List (PartitionId × Key)
  | .pending => m.pendingKeys
  | .running => m.runningKeys
  | .finished => m.finishedKeys
  | .failure => m.failureKeys
  | .success => []

/-- `match tag["status"]` -/
def Metadata.addKey (m : Metadata) (key : PartitionId × Key) : Status → Except SampleError Metadata
  | .pending => .ok { m with pendingKeys := m.pendingKeys ++ [key] }
  | .running => .ok { m with runningKeys := m.runningKeys ++ [key] }
  | .finished => .ok { m with finishedKeys := m.finishedKeys ++ [key] }
  | .failure => .ok { m with failureKeys := m.failureKeys ++ [key] }
  | status => .error (.unknownStatus status)

/-- `tag.get("is_prompt", False)` -/
def Tag.prompt (tag : Tag) : Bool := tag.isPrompt.getD false

def hasStatus (status : Status) (item : (PartitionId × Key) × Tag) : Bool :=
  item.2.prompt && item.2.status == some status

/-! ## `_sync_metadata_from_transfer_queue` -/

/-- The body of the loop over the items of `tq.kv_list()`. -/
def syncItem (m : Metadata) (item : (PartitionId × Key) × Tag) : Except SampleError Metadata :=
  if item.2.prompt then
    match item.2.globalSteps with
    | none => .error (.keyError "global_steps")
    | some globalSteps =>
      match item.2.status with
      | none => .error (.keyError "status")
      | some status =>
        { m with promptGlobalSteps := m.promptGlobalSteps.update item.1 fun _ => globalSteps }.addKey
          item.1 status
  else .ok { m with partitions := m.partitions.update item.1 fun old => (old.getD {}).update item.2 }

/-- `_sync_metadata_from_transfer_queue`, with what `tq.kv_list()` returns. -/
def sync (q : Queue) : Except SampleError Metadata := q.items.foldlM syncItem .empty

/-- The metadata holds exactly the items. -/
structure Describes (items : List ((PartitionId × Key) × Tag)) (m : Metadata) : Prop where
  partitions : m.partitions.items = items.filter fun item => !item.2.prompt
  keysOf : ∀ status, m.keysOf status = (items.filter (hasStatus status)).map Prod.fst
  steps : ∀ item ∈ items, item.2.prompt = true → item.2.globalSteps = m.promptGlobalSteps.get? item.1

theorem addKey_ok {m m' : Metadata} {key : PartitionId × Key} {status : Status}
    (h : m.addKey key status = .ok m') :
    m'.partitions = m.partitions ∧ m'.promptGlobalSteps = m.promptGlobalSteps ∧
      ∀ status', m'.keysOf status' = m.keysOf status' ++ if status' = status then [key] else [] := by
  cases status with
  | success => cases h
  | pending | running | finished | failure =>
    cases h
    refine ⟨rfl, rfl, fun status' => ?_⟩
    cases status' <;> simp [Metadata.keysOf]

variable {item : (PartitionId × Key) × Tag}

theorem filter_hasStatus {status status' : Status} (hprompt : item.2.prompt = true)
    (hstatus : item.2.status = some status) :
    ([item].filter (hasStatus status')).map Prod.fst = if status' = status then [item.1] else [] := by
  by_cases heq : status' = status
  · simp [hasStatus, hprompt, hstatus, heq]
  · simp [hasStatus, hprompt, hstatus, heq, Ne.symm heq]

theorem describes_syncItem {items : List ((PartitionId × Key) × Tag)} {m m' : Metadata} (h : Describes items m)
    (hnew : item.1 ∉ items.map Prod.fst) (hok : syncItem m item = .ok m') : Describes (items ++ [item]) m' := by
  by_cases hprompt : item.2.prompt = true
  · rw [syncItem, if_pos hprompt] at hok
    -- a prompt is filed under its status, with its steps
    rcases hsteps : item.2.globalSteps with _ | globalSteps
    · rw [hsteps] at hok; cases hok
    rcases hstatus : item.2.status with _ | status
    · rw [hsteps, hstatus] at hok; cases hok
    rw [hsteps, hstatus] at hok
    obtain ⟨hpart, hgs, hkeys⟩ := addKey_ok hok
    refine ⟨?_, fun status' => ?_, fun other hother hp => ?_⟩
    · rw [hpart, List.filter_append]
      simpa [hprompt] using h.partitions
    · rw [hkeys, List.filter_append, List.map_append, filter_hasStatus hprompt hstatus, ← h.keysOf]
      cases status' <;> rfl
    · rw [hgs]
      rcases List.mem_append.1 hother with hmem | hmem
      · have hne : other.1 ≠ item.1 := fun heq => hnew (heq ▸ List.mem_map_of_mem hmem)
        rw [Dict.get?_update_of_ne _ _ hne]
        exact h.steps other hmem hp
      · obtain rfl := List.mem_singleton.1 hmem
        rw [Dict.get?_update_self, hsteps]
  · rw [syncItem, if_neg hprompt] at hok
    -- a trajectory only adds its tag to the partition
    obtain rfl := Except.ok.inj hok
    have hfresh : item.1 ∉ m.partitions.keys := fun hmem => by
      rw [Dict.keys, h.partitions] at hmem
      exact hnew ((List.Sublist.map _ List.filter_sublist).mem hmem)
    refine ⟨?_, fun status => ?_, fun other hother hp => ?_⟩
    · rw [Dict.items_update_of_not_mem _ hfresh, h.partitions, List.filter_append]
      simp [hprompt]
    · rw [List.filter_append, List.map_append]
      have hnone : [item].filter (hasStatus status) = [] := by simp [hasStatus, hprompt]
      rw [hnone, List.map_nil, List.append_nil, ← h.keysOf]
      cases status <;> rfl
    · rcases List.mem_append.1 hother with hmem | hmem
      · exact h.steps other hmem hp
      · obtain rfl := List.mem_singleton.1 hmem
        exact absurd hp hprompt

theorem describes_foldlM {items rest : List ((PartitionId × Key) × Tag)} {m m' : Metadata}
    (h : Describes items m) (hnodup : ((items ++ rest).map Prod.fst).Nodup)
    (hok : rest.foldlM syncItem m = .ok m') : Describes (items ++ rest) m' := by
  induction rest generalizing items m with
  | nil =>
    obtain rfl := Except.ok.inj hok
    rwa [List.append_nil]
  | cons item rest ih =>
    rw [List.foldlM_cons] at hok
    rcases hitem : syncItem m item with e | m₁
    · rw [hitem] at hok; cases hok
    rw [hitem] at hok
    have hnew : item.1 ∉ items.map Prod.fst := fun hmem => by
      rw [List.map_append, List.nodup_append] at hnodup
      exact hnodup.2.2 _ hmem _ List.mem_cons_self rfl
    have hcons : items ++ item :: rest = items ++ [item] ++ rest := by simp
    rw [hcons] at hnodup ⊢
    exact ih (describes_syncItem h hnew hitem) hnodup hok

/-- **The metadata after a sync holds exactly the items of the queue.** -/
theorem describes_of_sync {q : Queue} {m : Metadata} (h : sync q = .ok m) : Describes q.items m := by
  have hempty : Describes [] Metadata.empty :=
    ⟨rfl, fun status => by cases status <;> rfl, fun _ hmem => absurd hmem List.not_mem_nil⟩
  exact describes_foldlM hempty q.nodup h

def Tag.WellFormed (tag : Tag) : Prop :=
  tag.globalSteps.isSome ∧ (tag.prompt = true → ∃ status, tag.status = some status ∧ status ≠ .success)

theorem syncItem_ok {m : Metadata} (h : item.2.WellFormed) : ∃ m', syncItem m item = .ok m' := by
  by_cases hprompt : item.2.prompt = true
  · obtain ⟨globalSteps, hsteps⟩ := Option.isSome_iff_exists.1 h.1
    obtain ⟨status, hstatus, hne⟩ := h.2 hprompt
    rw [syncItem, if_pos hprompt, hsteps, hstatus]
    cases status with
    | success => exact absurd rfl hne
    | pending | running | finished | failure => exact ⟨_, rfl⟩
  · rw [syncItem, if_neg hprompt]
    exact ⟨_, rfl⟩

theorem sync_ok {q : Queue} (h : ∀ item ∈ q.items, item.2.WellFormed) : ∃ m, sync q = .ok m := by
  have key : ∀ (items : List ((PartitionId × Key) × Tag)) (m : Metadata),
      (∀ item ∈ items, item.2.WellFormed) → ∃ m', items.foldlM syncItem m = .ok m' := by
    intro items
    induction items with
    | nil => exact fun m _ => ⟨m, rfl⟩
    | cons item items ih =>
      intro m hall
      obtain ⟨m₁, hitem⟩ := syncItem_ok (m := m) (hall item List.mem_cons_self)
      rw [List.foldlM_cons, hitem]
      exact ih m₁ fun x hx => hall x (List.mem_cons_of_mem _ hx)
  exact key q.items .empty h

/-! ## `_has_enough_samples` and the selection -/

/-- `prompt_global_steps.get(key, 0)` -/
def Metadata.stepsOf (m : Metadata) (partitionId : PartitionId) (key : Key) : ℤ :=
  (m.promptGlobalSteps.get? (partitionId, key)).getD 0

/-- `(global_steps - prompt_global_steps + 1) / self.parameter_sync_step` -/
def staleness (cfg : ReplayConfig) (globalSteps promptGlobalSteps : ℤ) : ℚ :=
  ((globalSteps - promptGlobalSteps + 1 : ℤ) : ℚ) / cfg.parameterSyncStep

def inPartition (partitionId : PartitionId) (keys : List (PartitionId × Key)) : List Key :=
  (keys.filter fun key => key.1 = partitionId).map Prod.snd

/-- `finished_keys.union(failure_keys)`, in one of its iteration orders. -/
def sampleableKeys (m : Metadata) (partitionId : PartitionId) : List Key :=
  inPartition partitionId m.finishedKeys ++ inPartition partitionId m.failureKeys

/-- `_has_enough_samples` -/
def hasEnoughSamples (cfg : ReplayConfig) (m : Metadata) (globalSteps : ℤ) (partitionId : PartitionId)
    (batchSize : ℕ) : Bool :=
  (cfg.maxOffPolicyStrategy != .wait ||
    (inPartition partitionId m.pendingKeys ++ inPartition partitionId m.runningKeys).all fun key =>
      staleness cfg globalSteps (m.stepsOf partitionId key) < cfg.maxOffPolicyThreshold) &&
  batchSize ≤ (inPartition partitionId m.finishedKeys).length + (inPartition partitionId m.failureKeys).length

/-- `sorted(.., key=..)[:batch_size]`, for the iteration order `order` of the union. -/
def selectPrompts (m : Metadata) (partitionId : PartitionId) (batchSize : ℕ) (order : List Key) : List Key :=
  (order.insertionSort fun a b => m.stepsOf partitionId a ≤ m.stepsOf partitionId b).take batchSize

def Terminal (q : Queue) (partitionId : PartitionId) (key : Key) : Prop :=
  ∃ tag, q.get? (partitionId, key) = some tag ∧ tag.prompt = true ∧
    ∃ status, tag.status = some status ∧ status.isTerminal = true

theorem mem_inPartition {partitionId : PartitionId} {keys : List (PartitionId × Key)} {key : Key} :
    key ∈ inPartition partitionId keys ↔ (partitionId, key) ∈ keys := by
  simp only [inPartition, List.mem_map, List.mem_filter, decide_eq_true_eq]
  constructor
  · rintro ⟨⟨p, k⟩, ⟨hmem, rfl⟩, rfl⟩
    exact hmem
  · intro hmem
    exact ⟨_, ⟨hmem, rfl⟩, rfl⟩

theorem inPartition_nodup {partitionId : PartitionId} {keys : List (PartitionId × Key)} (h : keys.Nodup) :
    (inPartition partitionId keys).Nodup := by
  refine (h.filter _).map_on fun a ha b hb hab => ?_
  rw [List.mem_filter, decide_eq_true_eq] at ha hb
  exact Prod.ext (ha.2.trans hb.2.symm) hab

section Sync

variable {q : Queue} {m : Metadata} {p : PartitionId} {k : Key}

theorem mem_keysOf (h : Describes q.items m) (status : Status) {key : PartitionId × Key} :
    key ∈ m.keysOf status ↔ ∃ tag, q.get? key = some tag ∧ tag.prompt = true ∧ tag.status = some status := by
  rw [h.keysOf, List.mem_map]
  constructor
  · rintro ⟨⟨key, tag⟩, hmem, rfl⟩
    rw [List.mem_filter, hasStatus, Bool.and_eq_true, beq_iff_eq] at hmem
    exact ⟨tag, Dict.mem_items.1 hmem.1, hmem.2.1, hmem.2.2⟩
  · rintro ⟨tag, hget, hprompt, hstatus⟩
    refine ⟨(key, tag), List.mem_filter.2 ⟨Dict.mem_items.2 hget, ?_⟩, rfl⟩
    rw [hasStatus, hprompt, hstatus, Bool.true_and, beq_self_eq_true]

theorem keysOf_nodup (h : Describes q.items m) (status : Status) : (m.keysOf status).Nodup := by
  rw [h.keysOf]
  exact List.Nodup.sublist (List.Sublist.map _ List.filter_sublist) q.nodup

theorem mem_sampleableKeys (h : Describes q.items m) : k ∈ sampleableKeys m p ↔ Terminal q p k := by
  have hfin : k ∈ inPartition p m.finishedKeys ↔ _ := mem_inPartition.trans (mem_keysOf h .finished)
  have hfail : k ∈ inPartition p m.failureKeys ↔ _ := mem_inPartition.trans (mem_keysOf h .failure)
  rw [sampleableKeys, List.mem_append, hfin, hfail]
  constructor
  · rintro (⟨tag, hget, hprompt, hstatus⟩ | ⟨tag, hget, hprompt, hstatus⟩)
    · exact ⟨tag, hget, hprompt, _, hstatus, rfl⟩
    · exact ⟨tag, hget, hprompt, _, hstatus, rfl⟩
  · rintro ⟨tag, hget, hprompt, status, hstatus, hterm⟩
    cases status with
    | finished => exact .inl ⟨tag, hget, hprompt, hstatus⟩
    | failure => exact .inr ⟨tag, hget, hprompt, hstatus⟩
    | pending | running | success => cases hterm

theorem sampleableKeys_nodup (h : Describes q.items m) : (sampleableKeys m p).Nodup := by
  have hfin : (m.keysOf .finished).Nodup := keysOf_nodup h _
  have hfail : (m.keysOf .failure).Nodup := keysOf_nodup h _
  rw [sampleableKeys, List.nodup_append]
  refine ⟨inPartition_nodup hfin, inPartition_nodup hfail, fun a ha b hb hab => ?_⟩
  obtain ⟨tag, hget, -, hstatus⟩ := (mem_keysOf h .finished).1 (mem_inPartition.1 ha)
  obtain ⟨tag', hget', -, hstatus'⟩ := (mem_keysOf h .failure).1 (mem_inPartition.1 (hab ▸ hb))
  rw [hget] at hget'
  obtain rfl := Option.some.inj hget'
  rw [hstatus] at hstatus'
  cases hstatus'

theorem stepsOf_eq (h : Describes q.items m) {tag : Tag} (hget : q.get? (p, k) = some tag)
    (hprompt : tag.prompt = true) : m.stepsOf p k = tag.globalSteps.getD 0 := by
  rw [Metadata.stepsOf, ← h.steps _ (Dict.mem_items.2 hget) hprompt]

end Sync

/-- `uids` are the `batchSize` oldest terminal prompts of the partition. -/
structure Selects (q : Queue) (partitionId : PartitionId) (batchSize : ℕ) (uids : List Key) : Prop where
  length : uids.length = batchSize
  nodup : uids.Nodup
  terminal : ∀ k ∈ uids, Terminal q partitionId k
  oldest : ∀ k ∈ uids, ∀ k', Terminal q partitionId k' → k' ∉ uids →
    ∀ tag tag', q.get? (partitionId, k) = some tag → q.get? (partitionId, k') = some tag' →
      tag.globalSteps.getD 0 ≤ tag'.globalSteps.getD 0

/-- **The selection takes the oldest terminal prompts.** -/
theorem selects_selectPrompts {cfg : ReplayConfig} {q : Queue} {m : Metadata} {globalSteps : ℤ}
    {p : PartitionId} {batchSize : ℕ} {order : List Key} (h : Describes q.items m)
    (henough : hasEnoughSamples cfg m globalSteps p batchSize = true)
    (horder : order.Perm (sampleableKeys m p)) :
    Selects q p batchSize (selectPrompts m p batchSize order) := by
  let older : Key → Key → Prop := fun a b => m.stepsOf p a ≤ m.stepsOf p b
  have hperm : (order.insertionSort older).Perm (sampleableKeys m p) :=
    (List.perm_insertionSort older order).trans horder
  have hsub : selectPrompts m p batchSize order ⊆ order.insertionSort older := List.take_subset _ _
  have hterm : ∀ k ∈ selectPrompts m p batchSize order, Terminal q p k := fun k hk =>
    (mem_sampleableKeys h).1 (hperm.mem_iff.1 (hsub hk))
  refine ⟨?_, ?_, hterm, ?_⟩
  · rw [hasEnoughSamples, Bool.and_eq_true, decide_eq_true_eq] at henough
    rw [selectPrompts, List.length_take, hperm.length_eq, sampleableKeys, List.length_append]
    omega
  · exact ((hperm.nodup_iff.2 (sampleableKeys_nodup h)).sublist (List.take_sublist _ _))
  · intro k hk k' hk' hout tag tag' hget hget'
    -- the prompts are sorted by their steps: what is taken is no younger than what is left
    have hsorted : (order.insertionSort older).Pairwise older :=
      haveI : Std.Total older := ⟨fun a b => le_total _ _⟩
      haveI : IsTrans Key older := ⟨fun a b c => le_trans⟩
      List.pairwise_insertionSort older order
    have hmem : k' ∈ order.insertionSort older := hperm.mem_iff.2 ((mem_sampleableKeys h).2 hk')
    rw [← List.take_append_drop batchSize (order.insertionSort older)] at hsorted hmem
    have hdrop : k' ∈ (order.insertionSort older).drop batchSize :=
      (List.mem_append.1 hmem).resolve_left hout
    have hle : older k k' := (List.pairwise_append.1 hsorted).2.2 k hk k' hdrop
    obtain ⟨t, ht, hprompt, -⟩ := hterm k hk
    obtain ⟨t', ht', hprompt', -⟩ := hk'
    rw [hget] at ht
    rw [hget'] at ht'
    obtain rfl := Option.some.inj ht
    obtain rfl := Option.some.inj ht'
    rw [← stepsOf_eq h hget hprompt, ← stepsOf_eq h hget' hprompt']
    exact hle

/-! ## Collecting and dropping -/

/-- The loop that matches trajectories to the selected prompts. -/
def collect (m : Metadata) (partitionId : PartitionId) (uids : List Key) : List (Key × Tag) :=
  (m.partitions.items.filter fun item => item.1.1 = partitionId ∧ splitHead item.1.2 ∈ uids).map
    fun item => (item.1.2, item.2)

/-- **The collected items** are the trajectories of the selected prompts. -/
theorem mem_collect {q : Queue} {m : Metadata} {p : PartitionId} {uids : List Key} {k : Key} {tag : Tag}
    (h : Describes q.items m) : (k, tag) ∈ collect m p uids ↔
      q.get? (p, k) = some tag ∧ tag.prompt = false ∧ splitHead k ∈ uids := by
  simp only [collect, List.mem_map, List.mem_filter, h.partitions, decide_eq_true_eq, Bool.not_eq_true']
  constructor
  · rintro ⟨⟨⟨p', k'⟩, tag'⟩, ⟨⟨hmem, hprompt⟩, rfl, huid⟩, heq⟩
    obtain ⟨rfl, rfl⟩ := Prod.mk.inj heq
    exact ⟨Dict.mem_items.1 hmem, hprompt, huid⟩
  · rintro ⟨hget, hprompt, huid⟩
    exact ⟨((p, k), tag), ⟨⟨Dict.mem_items.2 hget, hprompt⟩, rfl, huid⟩, rfl⟩

theorem collect_nodup (m : Metadata) (p : PartitionId) (uids : List Key) :
    ((collect m p uids).map Prod.fst).Nodup := by
  rw [collect, List.map_map]
  refine List.Nodup.map_on (fun a ha b hb hab => ?_) (m.partitions.items_nodup.filter _)
  rw [List.mem_filter, decide_eq_true_eq] at ha hb
  have hkey : a.1 = b.1 := Prod.ext (ha.2.1.trans hb.2.1.symm) hab
  exact List.inj_on_of_nodup_map m.partitions.nodup ha.1 hb.1 hkey

/-- `KVBatchMeta` -/
structure KVBatchMeta where
  partitionId : PartitionId
  keys : List Key
  tags : List Tag

def KVBatchMeta.ofItems (partitionId : PartitionId) (items : List (Key × Tag)) : KVBatchMeta :=
  ⟨partitionId, items.map Prod.fst, items.map Prod.snd⟩

/-- `zip(batch.keys, batch.tags, strict=False)` -/
def KVBatchMeta.items (batch : KVBatchMeta) : List (Key × Tag) := batch.keys.zip batch.tags

@[simp] theorem KVBatchMeta.items_ofItems (partitionId : PartitionId) (items : List (Key × Tag)) :
    (KVBatchMeta.ofItems partitionId items).items = items := by
  induction items with
  | nil => rfl
  | cons item items ih => exact congrArg (item :: ·) ih

def isStale (cfg : ReplayConfig) (globalSteps : ℤ) (tag : Tag) : Bool :=
  cfg.maxOffPolicyThreshold < staleness cfg globalSteps (tag.globalSteps.getD 0)

/-- The loop of `_drop_max_off_policy_samples`: the kept and the dropped items. -/
def dropLoop (cfg : ReplayConfig) (globalSteps : ℤ) :
    List (Key × Tag) → Except SampleError (List (Key × Tag) × List (Key × Tag))
  | [] => .ok ([], [])
  | item :: items =>
    match item.2.globalSteps with
    | none => .error (.keyError "global_steps")
    | some promptGlobalSteps => do
      let (kept, dropped) ← dropLoop cfg globalSteps items
      if staleness cfg globalSteps promptGlobalSteps > cfg.maxOffPolicyThreshold then
        return (kept, item :: dropped)
      else return (item :: kept, dropped)

/-- `_drop_max_off_policy_samples` up to its `tq.kv_clear`. -/
def splitStale (cfg : ReplayConfig) (globalSteps : ℤ) (batch : KVBatchMeta) :
    Except SampleError (List (Key × Tag) × List (Key × Tag)) :=
  if cfg.maxOffPolicyStrategy = .drop then dropLoop cfg globalSteps batch.items
  else .ok (batch.items, [])

theorem dropLoop_eq {cfg : ReplayConfig} {globalSteps : ℤ} {items : List (Key × Tag)}
    (h : ∀ item ∈ items, item.2.globalSteps.isSome) :
    dropLoop cfg globalSteps items = .ok (items.filter fun item => !isStale cfg globalSteps item.2,
      items.filter fun item => isStale cfg globalSteps item.2) := by
  induction items with
  | nil => rfl
  | cons item items ih =>
    obtain ⟨steps, hsteps⟩ := Option.isSome_iff_exists.1 (h item List.mem_cons_self)
    have hstale : isStale cfg globalSteps item.2 = true ↔
        staleness cfg globalSteps steps > cfg.maxOffPolicyThreshold := by
      rw [isStale, hsteps, Option.getD_some, decide_eq_true_eq, gt_iff_lt]
    rw [dropLoop, hsteps, ih fun x hx => h x (List.mem_cons_of_mem _ hx)]
    by_cases hgt : staleness cfg globalSteps steps > cfg.maxOffPolicyThreshold
    · simp [bind, Except.bind, pure, Except.pure, if_pos hgt, hstale.2 hgt]
    · have hfresh : isStale cfg globalSteps item.2 = false := by
        rw [← Bool.not_eq_true, hstale]
        exact hgt
      simp [bind, Except.bind, pure, Except.pure, if_neg hgt, hfresh]

/-- The item is dropped by a call at `globalSteps`. -/
def isDropped (cfg : ReplayConfig) (globalSteps : ℤ) (tag : Tag) : Bool :=
  cfg.maxOffPolicyStrategy == .drop && isStale cfg globalSteps tag

/-- **The batch is split by staleness** under the drop strategy. -/
theorem splitStale_eq {cfg : ReplayConfig} {globalSteps : ℤ} {p : PartitionId} {items : List (Key × Tag)}
    (h : ∀ item ∈ items, item.2.globalSteps.isSome) :
    splitStale cfg globalSteps (.ofItems p items) =
      .ok (items.filter fun item => !isDropped cfg globalSteps item.2,
        items.filter fun item => isDropped cfg globalSteps item.2) := by
  rw [splitStale, KVBatchMeta.items_ofItems]
  by_cases hdrop : cfg.maxOffPolicyStrategy = .drop
  · rw [if_pos hdrop, dropLoop_eq h]
    simp [isDropped, hdrop]
  · have hwait : (cfg.maxOffPolicyStrategy == .drop) = false := by simpa using hdrop
    rw [if_neg hdrop]
    simp [isDropped, hwait]

/-- The metrics of the dropped samples: their number and their staleness. -/
def dropMetrics (cfg : ReplayConfig) (globalSteps : ℤ) (partitionId : PartitionId) (dropped : List (Key × Tag)) :
    List (String × ℚ) :=
  match dropped.map fun item => staleness cfg globalSteps (item.2.globalSteps.getD 0) with
  | [] => []
  | first :: rest =>
    let name := (if partitionId = "train" then "training" else "validation") ++ "/off_policy/dropped_samples"
    [(name, dropped.length),
      (name ++ "_staleness/mean", rest.foldl (· + ·) first / dropped.length),
      (name ++ "_staleness/max", rest.foldl max first),
      (name ++ "_staleness/min", rest.foldl min first)]

end Opd.Verl

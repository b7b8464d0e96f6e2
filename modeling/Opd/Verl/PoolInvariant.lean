import Opd.Verl.RolloutPool

/-!
# The invariant of the rollout pool

The invariant holds on every run in which a prompt is set to `failure` only after all its
trajectories have been put (`putsDone`); a prompt is set to `finished` only then anyway.

* `GroupOK`: no task of a terminal prompt is before its put, and the keys of the
  trajectories.
* `QueueOK`: the queue holds the tags of the prompts that no call has cleared and the
  trajectories of the prompts that no call has selected, and nothing unknown.
* `Snapshot`, `Split`: what a call has read, and how it has split its batch.
* `inv_of_reach`: the invariant of the runs.
-/

namespace Opd.Verl

open Lib

/-! ## The parts of the invariant -/

/-- A prompt is set to `failure` only when all its trajectories have been put. -/
def putsDone (s : Pool) : Event → Prop
  | .failure uid => ∀ g, s.groups uid = some g → ∀ session ∈ g.sessions, session ≠ .running
  | _ => True

/-- A prompt with its tasks and trajectories. -/
structure GroupOK (uid : Uid) (g : Group) : Prop where
  status : g.status ≠ .success
  notStarted : g.status = .pending → g.sessions = []
  put : g.status.isTerminal = true → ∀ session ∈ g.sessions, session ≠ .running
  keys : ∀ item ∈ g.written, ∃ i index session, item.1 = trajectoryKey uid i index ∧
    g.sessions[i]? = some session ∧ session ≠ .running
  tags : ∀ item ∈ g.written, item.2.prompt = false ∧ item.2.globalSteps.isSome = true

structure QueueOK (q : Queue) (groups : Uid → Option Group) (claimed cleared : List (PartitionId × Key)) :
    Prop where
  prompt : ∀ uid g, groups uid = some g → q.get? (g.partitionId, uid.text) =
    if (g.partitionId, uid.text) ∈ cleared then none else some g.tag
  stored : ∀ uid g k tag, groups uid = some g → (k, tag) ∈ g.written →
    (g.partitionId, uid.text) ∉ claimed → q.get? (g.partitionId, k) = some tag
  known : ∀ p k tag, q.get? (p, k) = some tag → ∃ uid g, groups uid = some g ∧ g.partitionId = p ∧
    (k = uid.text ∨ (k, tag) ∈ g.written)

/-- What a call has read: the prompts it selects, with exactly their trajectories. -/
structure Snapshot (groups : Uid → Option Group) (call : Call) (q : Queue) (uids : List Key) : Prop where
  selects : Selects q call.partitionId call.batchSize uids
  exact : ∀ uid g, groups uid = some g → g.partitionId = call.partitionId → uid.text ∈ uids →
    ∀ k tag, (k, tag) ∈ g.written ↔
      q.get? (call.partitionId, k) = some tag ∧ tag.prompt = false ∧ splitHead k = uid.text

/-- A call has split the trajectories it has read into returned and dropped ones. -/
structure Split (cfg : ReplayConfig) (call : Call) (q : Queue) (uids : List Key)
    (kept dropped : List (Key × Tag)) : Prop where
  mem_kept : ∀ k tag, (k, tag) ∈ kept ↔ (q.get? (call.partitionId, k) = some tag ∧ tag.prompt = false ∧
    splitHead k ∈ uids) ∧ isDropped cfg call.globalSteps tag = false
  mem_dropped : ∀ k tag, (k, tag) ∈ dropped ↔ (q.get? (call.partitionId, k) = some tag ∧ tag.prompt = false ∧
    splitHead k ∈ uids) ∧ isDropped cfg call.globalSteps tag = true
  kept_nodup : (kept.map Prod.fst).Nodup
  dropped_nodup : (dropped.map Prod.fst).Nodup

def SamplerOK (cfg : ReplayConfig) (groups : Uid → Option Group) : Sampler → Prop
  | .selected call q metadata uids => Describes q.items metadata ∧ Snapshot groups call q uids
  | .dropping call q uids kept dropped =>
    Snapshot groups call q uids ∧ Split cfg call q uids kept dropped ∧ dropped ≠ []
  | _ => True

structure RecordOK (cfg : ReplayConfig) (groups : Uid → Option Group) (queue : Queue) (r : Record) :
    Prop where
  snapshot : Snapshot groups r.call r.snapshot r.uids
  split : Split cfg r.call r.snapshot r.uids r.batch.items r.dropped
  batch : r.batch = .ofItems r.call.partitionId r.batch.items
  absent : ∀ item ∈ r.dropped, queue.get? (r.call.partitionId, item.1) = none

/-- **The invariant of the pool.** -/
structure Inv (cfg : ReplayConfig) (s : Pool) : Prop where
  groups : ∀ uid g, s.groups uid = some g → GroupOK uid g
  queue : QueueOK s.queue s.groups s.claimed s.cleared
  claimedNodup : s.claimed.Nodup
  claimed : ∀ c ∈ s.claimed, ∃ uid g, s.groups uid = some g ∧ g.status.isTerminal = true ∧
    c = (g.partitionId, uid.text)
  sampler : SamplerOK cfg s.groups s.sampler
  records : ∀ r ∈ s.records, RecordOK cfg s.groups s.queue r
  raised : ∀ x ∈ s.raised, x.1.batchSize = 0 ∧ x.2 = .emptyClear
  late : s.late = []

theorem Uid.eq_of_text {uid uid' : Uid} (h : uid.text = uid'.text) : uid = uid' := by
  cases uid
  cases uid'
  simpa using h

theorem update_group {groups : Uid → Option Group} {uid uid₂ : Uid} {g g₂ : Group}
    (h : Function.update groups uid (some g) uid₂ = some g₂) :
    uid₂ = uid ∧ g₂ = g ∨ uid₂ ≠ uid ∧ groups uid₂ = some g₂ := by
  by_cases huid : uid₂ = uid
  · rw [huid, Function.update_self] at h
    exact .inl ⟨huid, (Option.some.inj h).symm⟩
  · rw [Function.update_of_ne huid] at h
    exact .inr ⟨huid, h⟩

theorem known_update {groups : Uid → Option Group} {uid : Uid} {g' : Group} {p : PartitionId} {k : Key} {tag : Tag}
    (hsame : ∀ g, groups uid = some g → g.partitionId = g'.partitionId ∧ g.written ⊆ g'.written)
    (h : ∃ uid g, groups uid = some g ∧ g.partitionId = p ∧ (k = uid.text ∨ (k, tag) ∈ g.written)) :
    ∃ uid₂ g₂, Function.update groups uid (some g') uid₂ = some g₂ ∧ g₂.partitionId = p ∧
      (k = uid₂.text ∨ (k, tag) ∈ g₂.written) := by
  obtain ⟨uid₂, g₂, hg₂, hp, hk⟩ := h
  by_cases huid : uid₂ = uid
  · subst huid
    obtain ⟨hp', hw⟩ := hsame g₂ hg₂
    exact ⟨uid₂, g', Function.update_self _ _ _, hp' ▸ hp, hk.imp_right fun hmem => hw hmem⟩
  · exact ⟨uid₂, g₂, (Function.update_of_ne huid _ _).trans hg₂, hp, hk⟩

/-! ## The queue under the operations of the producers -/

section Queue

variable {q q' : Queue} {groups : Uid → Option Group} {claimed cleared : List (PartitionId × Key)}
  {uid : Uid} {g g' : Group}

theorem QueueOK.get?_text (h : QueueOK q groups claimed cleared) (hok : ∀ uid g, groups uid = some g → GroupOK uid g)
    {p : PartitionId} {tag : Tag} (hget : q.get? (p, uid.text) = some tag) :
    ∃ g, groups uid = some g ∧ g.partitionId = p := by
  obtain ⟨uid', g', hg', hp, hkey | hmem⟩ := h.known p _ tag hget
  · obtain rfl := Uid.eq_of_text hkey
    exact ⟨g', hg', hp⟩
  · obtain ⟨i, index, -, hkey, -⟩ := (hok uid' g' hg').keys _ hmem
    exact absurd hkey.symm (trajectoryKey_ne_text uid' uid i index)

theorem QueueOK.get?_trajectory (h : QueueOK q groups claimed cleared)
    (hok : ∀ uid g, groups uid = some g → GroupOK uid g) {p : PartitionId} {i index : ℕ} {tag : Tag}
    (hget : q.get? (p, trajectoryKey uid i index) = some tag) :
    ∃ g, groups uid = some g ∧ g.partitionId = p ∧ (trajectoryKey uid i index, tag) ∈ g.written := by
  obtain ⟨uid', g', hg', hp, hkey | hmem⟩ := h.known p _ tag hget
  · exact absurd hkey (trajectoryKey_ne_text uid uid' i index)
  · obtain ⟨i', index', -, hkey, -⟩ := (hok uid' g' hg').keys _ hmem
    obtain ⟨rfl, -, -⟩ := trajectoryKey_inj hkey
    exact ⟨g', hg', hp, hmem⟩

theorem QueueOK.setTag (h : QueueOK q groups claimed cleared) (hok : ∀ uid g, groups uid = some g → GroupOK uid g)
    (hsame : ∀ g, groups uid = some g → g.partitionId = g'.partitionId ∧ g.written = g'.written)
    (hnew : groups uid = none → g'.written = []) (hnot : (g'.partitionId, uid.text) ∉ cleared)
    {tag : Tag} (htag : ((q.get? (g'.partitionId, uid.text)).getD {}).update tag = g'.tag) :
    QueueOK (kvPut q g'.partitionId uid.text tag) (Function.update groups uid (some g')) claimed cleared := by
  refine ⟨fun uid₂ g₂ hg₂ => ?_, fun uid₂ g₂ k tag₂ hg₂ hmem hout => ?_, fun p k tag₂ hget => ?_⟩
  -- the tags of the prompts
  · rcases update_group hg₂ with ⟨rfl, rfl⟩ | ⟨huid, hg₂⟩
    · rw [get?_kvPut, if_pos rfl, htag, if_neg hnot]
    · rw [get?_kvPut_of_ne fun heq => huid (Uid.eq_of_text (Prod.mk.inj heq).2)]
      exact h.prompt uid₂ g₂ hg₂
  -- trajectories: their keys are no texts of a uid
  · rcases update_group hg₂ with ⟨rfl, rfl⟩ | ⟨-, hg₂⟩
    · rcases hold : groups uid₂ with _ | g₁
      · rw [hnew hold] at hmem
        exact absurd hmem List.not_mem_nil
      obtain ⟨hp, hw⟩ := hsame g₁ hold
      obtain ⟨i, index, -, hkey, -⟩ := (hok uid₂ g₁ hold).keys _ (hw ▸ hmem)
      rw [get?_kvPut_of_ne fun heq => trajectoryKey_ne_text uid₂ uid₂ i index (hkey ▸ (Prod.mk.inj heq).2), ← hp]
      exact h.stored uid₂ g₁ k tag₂ hold (hw ▸ hmem) (hp ▸ hout)
    · obtain ⟨i, index, -, hkey, -⟩ := (hok uid₂ g₂ hg₂).keys _ hmem
      rw [get?_kvPut_of_ne fun heq => trajectoryKey_ne_text uid₂ uid i index (hkey ▸ (Prod.mk.inj heq).2)]
      exact h.stored uid₂ g₂ k tag₂ hg₂ hmem hout
  -- nothing unknown is put
  · rw [get?_kvPut] at hget
    split at hget
    · rename_i hkey
      obtain ⟨rfl, rfl⟩ := Prod.mk.inj hkey
      exact ⟨uid, g', Function.update_self _ _ _, rfl, .inl rfl⟩
    · refine known_update (fun g hg => ?_) (h.known p k tag₂ hget)
      obtain ⟨hp, hw⟩ := hsame g hg
      exact ⟨hp, hw ▸ List.Subset.refl _⟩

theorem QueueOK.setSessions (h : QueueOK q groups claimed cleared) (hg : groups uid = some g)
    (sessions : List Session) :
    QueueOK q (Function.update groups uid (some { g with sessions := sessions })) claimed cleared := by
  refine ⟨fun uid₂ g₂ hg₂ => ?_, fun uid₂ g₂ k tag hg₂ hmem hout => ?_, fun p k tag hget => ?_⟩
  · rcases update_group hg₂ with ⟨rfl, rfl⟩ | ⟨-, hg₂⟩
    · exact h.prompt uid₂ g hg
    · exact h.prompt uid₂ g₂ hg₂
  · rcases update_group hg₂ with ⟨rfl, rfl⟩ | ⟨-, hg₂⟩
    · exact h.stored uid₂ g k tag hg hmem hout
    · exact h.stored uid₂ g₂ k tag hg₂ hmem hout
  · refine known_update (fun g₁ hg₁ => ?_) (h.known p k tag hget)
    obtain rfl := Option.some.inj (hg.symm.trans hg₁)
    exact ⟨rfl, List.Subset.refl _⟩

variable {outputs : List AgentLoopOutput}

theorem postprocess_keys {sessionId : ℕ} {globalSteps : ℤ} {item : Key × Tag}
    (h : item ∈ agentLoopPostprocess uid sessionId globalSteps outputs) :
    ∃ index, item.1 = trajectoryKey uid sessionId index := by
  obtain ⟨index, hlt, rfl⟩ := List.mem_mapIdx.1 h
  exact ⟨index, rfl⟩

theorem postprocess_tags {sessionId : ℕ} {globalSteps : ℤ} {item : Key × Tag}
    (h : item ∈ agentLoopPostprocess uid sessionId globalSteps outputs) :
    item.2.prompt = false ∧ item.2.globalSteps.isSome = true := by
  obtain ⟨index, hlt, rfl⟩ := List.mem_mapIdx.1 h
  exact ⟨rfl, rfl⟩

theorem postprocess_nodup (uid : Uid) (sessionId : ℕ) (globalSteps : ℤ) (outputs : List AgentLoopOutput) :
    ((agentLoopPostprocess uid sessionId globalSteps outputs).map Prod.fst).Nodup := by
  rw [List.Nodup, List.pairwise_iff_getElem]
  intro a b ha hb hlt hkey
  rw [List.getElem_map, List.getElem_map] at hkey
  have hinj : trajectoryKey uid sessionId a = trajectoryKey uid sessionId b := by
    simpa [agentLoopPostprocess] using hkey
  exact absurd (trajectoryKey_inj hinj).2.2 (Nat.ne_of_lt hlt)

theorem QueueOK.get?_postprocess (h : QueueOK q groups claimed cleared)
    (hok : ∀ uid g, groups uid = some g → GroupOK uid g) (hg : groups uid = some g) {sessionId : ℕ}
    (hrun : g.sessions[sessionId]? = some .running) {globalSteps : ℤ} {item : Key × Tag}
    (hitem : item ∈ agentLoopPostprocess uid sessionId globalSteps outputs) :
    q.get? (g.partitionId, item.1) = none := by
  obtain ⟨index, hkey⟩ := postprocess_keys hitem
  rw [hkey, Option.eq_none_iff_forall_ne_some]
  intro tag hget
  obtain ⟨g₁, hg₁, -, hmem⟩ := h.get?_trajectory hok hget
  obtain rfl := Option.some.inj (hg.symm.trans hg₁)
  -- only a task that has put its trajectories has written this key
  obtain ⟨i, index', session, hkey', hsession, hne⟩ := (hok uid g hg).keys _ hmem
  obtain ⟨-, rfl, -⟩ := trajectoryKey_inj hkey'
  rw [hrun] at hsession
  exact hne (Option.some.inj hsession).symm

theorem QueueOK.putItems (h : QueueOK q groups claimed cleared)
    (hok : ∀ uid g, groups uid = some g → GroupOK uid g) (hg : groups uid = some g) {sessionId : ℕ}
    (hrun : g.sessions[sessionId]? = some .running) (hnot : (g.partitionId, uid.text) ∉ cleared)
    (outputs : List AgentLoopOutput) (sessions : List Session) :
    QueueOK (kvBatchPut q g.partitionId (agentLoopPostprocess uid sessionId g.globalSteps outputs))
      (Function.update groups uid (some { g with
        sessions := sessions
        written := g.written ++ agentLoopPostprocess uid sessionId g.globalSteps outputs }))
      claimed cleared := by
  set items := agentLoopPostprocess uid sessionId g.globalSteps outputs with hitems
  -- a session puts once, so none of its keys is in the queue
  have hfresh : ∀ item ∈ items, q.get? (g.partitionId, item.1) = none :=
    fun item hitem => h.get?_postprocess hok hg hrun hitem
  have hget : ∀ p k tag, (kvBatchPut q g.partitionId items).get? (p, k) = some tag ↔
      q.get? (p, k) = some tag ∨ p = g.partitionId ∧ (k, tag) ∈ items := fun p k tag =>
    get?_kvBatchPut (postprocess_nodup uid sessionId g.globalSteps outputs) hfresh
  -- a key of a trajectory is no text of a uid, so the prompts stay
  have htext : ∀ (uid₂ : Uid) p, (kvBatchPut q g.partitionId items).get? (p, uid₂.text) =
      q.get? (p, uid₂.text) := fun uid₂ p => by
    ext tag
    rw [hget]
    refine or_iff_left fun ⟨_, hmem⟩ => ?_
    obtain ⟨index, hkey⟩ := postprocess_keys hmem
    exact trajectoryKey_ne_text uid uid₂ sessionId index hkey.symm
  refine ⟨fun uid₂ g₂ hg₂ => ?_, fun uid₂ g₂ k tag hg₂ hmem hout => ?_, fun p k tag hsome => ?_⟩
  · rw [htext]
    rcases update_group hg₂ with ⟨rfl, rfl⟩ | ⟨-, hg₂⟩
    · rw [if_neg hnot, h.prompt uid₂ g hg, if_neg hnot]
      rfl
    · exact h.prompt uid₂ g₂ hg₂
  · rw [hget]
    rcases update_group hg₂ with ⟨rfl, rfl⟩ | ⟨-, hg₂⟩
    · rcases List.mem_append.1 hmem with hold | hnew
      · exact .inl (h.stored uid₂ g k tag hg hold hout)
      · exact .inr ⟨rfl, hnew⟩
    · exact .inl (h.stored uid₂ g₂ k tag hg₂ hmem hout)
  · rcases (hget p k tag).1 hsome with hold | ⟨rfl, hnew⟩
    · refine known_update (fun g₁ hg₁ => ?_) (h.known p k tag hold)
      obtain rfl := Option.some.inj (hg.symm.trans hg₁)
      exact ⟨rfl, List.subset_append_left _ _⟩
    · exact ⟨uid, _, Function.update_self _ _ _, rfl, .inr (List.mem_append_right _ hnew)⟩

theorem QueueOK.clear (h : QueueOK q groups claimed cleared) {p : PartitionId} {keys : List Key}
    (hclear : kvClear q p keys = some q') {cleared' : List (PartitionId × Key)}
    (hcleared : ∀ uid g, groups uid = some g → ((g.partitionId, uid.text) ∈ cleared' ↔
      (g.partitionId, uid.text) ∈ cleared ∨ g.partitionId = p ∧ uid.text ∈ keys))
    (hkeys : ∀ uid g k tag, groups uid = some g → g.partitionId = p → (k, tag) ∈ g.written →
      (p, uid.text) ∉ claimed → k ∉ keys) :
    QueueOK q' groups claimed cleared' := by
  refine ⟨fun uid g hg => ?_, fun uid g k tag hg hmem hout => ?_, fun p' k tag hget => ?_⟩
  · rw [get?_kvClear hclear, h.prompt uid g hg]
    by_cases hold : (g.partitionId, uid.text) ∈ cleared
    · rw [if_pos hold, if_pos ((hcleared uid g hg).2 (.inl hold)), ite_self]
    · by_cases hnow : g.partitionId = p ∧ uid.text ∈ keys
      · rw [if_pos hnow, if_pos ((hcleared uid g hg).2 (.inr hnow))]
      · rw [if_neg hnow, if_neg hold, if_neg fun hin => ((hcleared uid g hg).1 hin).elim hold hnow]
  · have hkeep : ¬ (g.partitionId = p ∧ k ∈ keys) := fun ⟨hp, hk⟩ =>
      hkeys uid g k tag hg hp hmem (hp ▸ hout) hk
    rw [get?_kvClear hclear, if_neg hkeep]
    exact h.stored uid g k tag hg hmem hout
  · rw [get?_kvClear hclear] at hget
    split at hget
    · cases hget
    · exact h.known p' k tag hget

theorem QueueOK.claim (h : QueueOK q groups claimed cleared) {claimed' : List (PartitionId × Key)}
    (hsub : claimed ⊆ claimed') : QueueOK q groups claimed' cleared :=
  ⟨h.prompt, fun uid g k tag hg hmem hout => h.stored uid g k tag hg hmem fun hin => hout (hsub hin), h.known⟩

end Queue

/-! ## Claimed prompts -/

section Claims

variable {cfg : ReplayConfig} {s s' : Pool} {e : Event} {groups : Uid → Option Group} {call : Call}
  {q : Queue} {metadata : Metadata} {uids : List Key} {kept dropped : List (Key × Tag)}

theorem cleared_subset_claimed (s : Pool) : s.cleared ⊆ s.claimed := by
  intro c hc
  rcases List.mem_append.1 hc with hrec | hsampler
  · exact List.mem_append_left _ hrec
  · refine List.mem_append_right _ ?_
    cases hs : s.sampler with
    | dropping call q uids kept dropped => rwa [hs] at hsampler
    | idle | polling call | selected call q metadata uids =>
      rw [hs] at hsampler
      exact absurd hsampler List.not_mem_nil

theorem claimed_of_record {r : Record} (hr : r ∈ s.records) {x : Key} (hx : x ∈ r.uids) :
    (r.call.partitionId, x) ∈ s.claimed :=
  List.mem_append_left _ (List.mem_flatMap.2 ⟨r, hr, List.mem_map_of_mem hx⟩)

theorem claimed_of_selected (hs : s.sampler = .selected call q metadata uids) {x : Key} (hx : x ∈ uids) :
    (call.partitionId, x) ∈ s.claimed := by
  refine List.mem_append_right _ ?_
  rw [hs]
  exact List.mem_map_of_mem hx

theorem claimed_of_dropping (hs : s.sampler = .dropping call q uids kept dropped) {x : Key} (hx : x ∈ uids) :
    (call.partitionId, x) ∈ s.claimed := by
  refine List.mem_append_right _ ?_
  rw [hs]
  exact List.mem_map_of_mem hx

variable {uid : Uid}

theorem Inv.not_claimed (h : Inv cfg s) (hopen : ∀ g, s.groups uid = some g → g.status.isTerminal = false)
    (p : PartitionId) : (p, uid.text) ∉ s.claimed := by
  intro hmem
  obtain ⟨uid', g, hg, hterm, heq⟩ := h.claimed _ hmem
  obtain rfl := Uid.eq_of_text (Prod.mk.inj heq).2
  rw [hopen g hg] at hterm
  cases hterm

theorem Inv.mem_written (h : Inv cfg s) (hsnap : Snapshot s.groups call q uids)
    (hclaims : ∀ x ∈ uids, (call.partitionId, x) ∈ s.claimed) {k : Key} {tag : Tag}
    (hget : q.get? (call.partitionId, k) = some tag) (hprompt : tag.prompt = false) (hhead : splitHead k ∈ uids) :
    ∃ uid g i index, s.groups uid = some g ∧ g.status.isTerminal = true ∧ g.partitionId = call.partitionId ∧
      (g.partitionId, uid.text) ∈ s.claimed ∧ (k, tag) ∈ g.written ∧ k = trajectoryKey uid i index := by
  obtain ⟨uid, g, hg, hterm, heq⟩ := h.claimed _ (hclaims _ hhead)
  obtain ⟨hp, htext⟩ := Prod.mk.inj heq
  have hmem := (hsnap.exact uid g hg hp.symm (htext ▸ hhead) k tag).2 ⟨hget, hprompt, htext⟩
  obtain ⟨i, index, -, hkey, -⟩ := (h.groups uid g hg).keys _ hmem
  exact ⟨uid, g, i, index, hg, hterm, hp.symm, heq ▸ hclaims _ hhead, hmem, hkey⟩

theorem Snapshot.setGroup (h : Snapshot groups call q uids) {g' : Group}
    (hout : g'.partitionId = call.partitionId → uid.text ∉ uids) :
    Snapshot (Function.update groups uid (some g')) call q uids := by
  refine ⟨h.selects, fun uid₂ g₂ hg₂ hp hmem => ?_⟩
  rcases update_group hg₂ with ⟨rfl, rfl⟩ | ⟨-, hg₂⟩
  · exact absurd hmem (hout hp)
  · exact h.exact uid₂ g₂ hg₂ hp hmem

variable {g : Group}

theorem Snapshot.setSessions (h : Snapshot groups call q uids) (hg : groups uid = some g) (sessions : List Session) :
    Snapshot (Function.update groups uid (some { g with sessions := sessions })) call q uids := by
  refine ⟨h.selects, fun uid₂ g₂ hg₂ hp hmem => ?_⟩
  rcases update_group hg₂ with ⟨rfl, rfl⟩ | ⟨-, hg₂⟩
  · exact h.exact uid₂ g hg hp hmem
  · exact h.exact uid₂ g₂ hg₂ hp hmem

theorem SamplerOK.setGroup {sampler : Sampler} (h : SamplerOK cfg groups sampler) {g' : Group}
    (hout : ∀ p, (p, uid.text) ∉ sampler.claims) : SamplerOK cfg (Function.update groups uid (some g')) sampler := by
  cases sampler with
  | idle => trivial
  | polling call => trivial
  | selected call q metadata uids =>
    exact ⟨h.1, h.2.setGroup fun _ hmem => hout _ (List.mem_map_of_mem hmem)⟩
  | dropping call q uids kept dropped =>
    exact ⟨h.1.setGroup fun _ hmem => hout _ (List.mem_map_of_mem hmem), h.2⟩

theorem SamplerOK.setSessions {sampler : Sampler} (h : SamplerOK cfg groups sampler) (hg : groups uid = some g)
    (sessions : List Session) :
    SamplerOK cfg (Function.update groups uid (some { g with sessions := sessions })) sampler := by
  cases sampler with
  | idle => trivial
  | polling call => trivial
  | selected call q metadata uids => exact ⟨h.1, h.2.setSessions hg sessions⟩
  | dropping call q uids kept dropped => exact ⟨h.1.setSessions hg sessions, h.2⟩

/-! ## The steps of the producers -/

theorem Inv.produce (h : Inv cfg s) {g' : Group} {q' : Queue} {late : List Key}
    (hopen : ∀ g, s.groups uid = some g → g.status.isTerminal = false) (hgroup : GroupOK uid g')
    (hqueue : QueueOK q' (Function.update s.groups uid (some g')) s.claimed s.cleared)
    (hnew : ∀ p k, s.queue.get? (p, k) = none → k ≠ uid.text → (∀ i index, k ≠ trajectoryKey uid i index) →
      q'.get? (p, k) = none) (hlate : late = []) :
    Inv cfg ({ s with queue := q', late := late }.setGroup uid g') := by
  -- a prompt that is not terminal has not been selected
  have hout : ∀ p, (p, uid.text) ∉ s.claimed := h.not_claimed hopen
  refine ⟨fun uid₂ g₂ hg₂ => ?_, hqueue, h.claimedNodup, fun c hc => ?_,
    h.sampler.setGroup fun p hmem => hout p (List.mem_append_right _ hmem), fun r hr => ?_, h.raised, hlate⟩
  · have hupdate : Function.update s.groups uid (some g') uid₂ = some g₂ := hg₂
    rcases update_group hupdate with ⟨rfl, rfl⟩ | ⟨-, hupdate⟩
    · exact hgroup
    · exact h.groups uid₂ g₂ hupdate
  · obtain ⟨uid₂, g₂, hg₂, hterm, rfl⟩ := h.claimed c hc
    have huid : uid₂ ≠ uid := fun heq => hout _ (heq ▸ hc)
    exact ⟨uid₂, g₂, (Function.update_of_ne huid _ _).trans hg₂, hterm, rfl⟩
  · have hrec := h.records r hr
    refine ⟨hrec.snapshot.setGroup fun _ hmem => hout _ (claimed_of_record hr hmem), hrec.split, hrec.batch,
      fun item hitem => ?_⟩
    obtain ⟨⟨hget, hprompt, hhead⟩, -⟩ := (hrec.split.mem_dropped item.1 item.2).1 hitem
    -- a dropped trajectory is one of a terminal prompt: no producer puts it again
    obtain ⟨uid₂, g₂, i, index, hg₂, hterm, -, -, -, hkey⟩ :=
      h.mem_written hrec.snapshot (fun x hx => claimed_of_record hr hx) hget hprompt hhead
    refine hnew _ _ (hrec.absent item hitem) ?_ fun i' index' heq => ?_
    · rw [hkey]
      exact trajectoryKey_ne_text uid₂ uid i index
    · obtain ⟨rfl, -, -⟩ := trajectoryKey_inj (hkey.symm.trans heq)
      rw [hopen g₂ hg₂] at hterm
      cases hterm

theorem Inv.publish (h : Inv cfg s) {g g' : Group} {status : Status} (hg : s.groups uid = some g)
    (hopen : g.status.isTerminal = false) (hp : g'.partitionId = g.partitionId)
    (hsteps : g'.globalSteps = g.globalSteps) (hwritten : g'.written = g.written)
    (hgroup : GroupOK uid { g' with status := status }) : Inv cfg (s.publish uid g' status) := by
  have hopen' : ∀ g, s.groups uid = some g → g.status.isTerminal = false := fun g₁ hg₁ => by
    obtain rfl := Option.some.inj (hg.symm.trans hg₁)
    exact hopen
  have hnot : (g.partitionId, uid.text) ∉ s.cleared := fun hmem =>
    h.not_claimed hopen' _ (cleared_subset_claimed s hmem)
  have htag : s.queue.get? (g'.partitionId, uid.text) = some g.tag := by
    rw [hp, h.queue.prompt uid g hg, if_neg hnot]
  have hqueue : QueueOK (kvPut s.queue { g' with status := status }.partitionId uid.text { status := some status })
      (Function.update s.groups uid (some { g' with status := status })) s.claimed s.cleared := by
    refine h.queue.setTag h.groups (fun g₁ hg₁ => ?_) (fun hnone => ?_) (hp ▸ hnot) ?_
    · obtain rfl := Option.some.inj (hg.symm.trans hg₁)
      exact ⟨hp.symm, hwritten.symm⟩
    · rw [hg] at hnone
      cases hnone
    · rw [htag]
      simp [Tag.update, Group.tag, hsteps]
  exact h.produce hopen' hgroup hqueue (fun p k hnone hne _ => get?_kvPut_none hnone hne) h.late

theorem Inv.registered (h : Inv cfg s) (hnew : s.groups uid = none) (hstatus : g.status = .pending)
    (hsessions : g.sessions = []) (hwritten : g.written = []) :
    Inv cfg ({ s with queue := kvPut s.queue g.partitionId uid.text g.tag }.setGroup uid g) := by
  have hopen : ∀ g, s.groups uid = some g → g.status.isTerminal = false := fun g₁ hg₁ => by
    rw [hnew] at hg₁
    cases hg₁
  have hgroup : GroupOK uid g := by
    refine ⟨by rw [hstatus]; nofun, fun _ => hsessions, fun hterm => ?_, ?_, ?_⟩
    · rw [hstatus] at hterm
      cases hterm
    · rw [hwritten]
      exact fun _ hmem => absurd hmem List.not_mem_nil
    · rw [hwritten]
      exact fun _ hmem => absurd hmem List.not_mem_nil
  -- the queue knows no tag of a new uid
  have hnone : s.queue.get? (g.partitionId, uid.text) = none := by
    rw [Option.eq_none_iff_forall_ne_some]
    intro tag hget
    obtain ⟨g₁, hg₁, -⟩ := h.queue.get?_text h.groups hget
    rw [hnew] at hg₁
    cases hg₁
  refine h.produce hopen hgroup ?_ (fun p k hk hne _ => get?_kvPut_none hk hne) h.late
  refine h.queue.setTag h.groups (fun g₁ hg₁ => ?_) (fun _ => hwritten)
    (fun hmem => h.not_claimed hopen _ (cleared_subset_claimed s hmem)) ?_
  · rw [hnew] at hg₁
    cases hg₁
  · rw [hnone]
    exact Tag.update_empty _

theorem Inv.started (h : Inv cfg s) (n : ℕ) (hg : s.groups uid = some g) (hstatus : g.status = .pending) :
    Inv cfg (s.publish uid { g with sessions := List.replicate n .running } .running) := by
  have hgroup := h.groups uid g hg
  refine h.publish hg (by rw [hstatus]; rfl) rfl rfl rfl ⟨nofun, nofun, nofun, fun item hmem => ?_, hgroup.tags⟩
  obtain ⟨i, index, session, -, hsession, -⟩ := hgroup.keys item hmem
  rw [hgroup.notStarted hstatus] at hsession
  cases hsession

theorem Inv.published (h : Inv cfg s) {status : Status} (hg : s.groups uid = some g) (hstatus : g.status = .running)
    (hterm : status.isTerminal = true) (hput : ∀ session ∈ g.sessions, session ≠ .running) :
    Inv cfg (s.publish uid g status) := by
  have hgroup := h.groups uid g hg
  refine h.publish hg (by rw [hstatus]; rfl) rfl rfl rfl ⟨?_, ?_, fun _ => hput, hgroup.keys, hgroup.tags⟩
  · rintro rfl
    cases hterm
  · rintro rfl
    cases hterm

theorem GroupOK.not_terminal (h : GroupOK uid g) {i : ℕ} (hrun : g.sessions[i]? = some .running) :
    g.status.isTerminal = false := by
  rw [← Bool.not_eq_true]
  intro hterm
  exact h.put hterm _ (List.mem_of_getElem? hrun) rfl

theorem GroupOK.setSession (h : GroupOK uid g) {i : ℕ} {session session' : Session}
    (hsession : g.sessions[i]? = some session) (hafter : session' ≠ .running)
    {items : List (Key × Tag)} (hkeys : ∀ item ∈ items, ∃ index, item.1 = trajectoryKey uid i index)
    (htags : ∀ item ∈ items, item.2.prompt = false ∧ item.2.globalSteps.isSome = true) :
    GroupOK uid { g with sessions := g.sessions.set i session', written := g.written ++ items } := by
  have hlt : i < g.sessions.length := (List.getElem?_eq_some_iff.1 hsession).1
  refine ⟨h.status, fun hp => ?_, fun ht x hx => ?_, fun item hmem => ?_, fun item hmem => ?_⟩
  · rw [h.notStarted hp] at hlt
    exact absurd hlt (Nat.not_lt_zero i)
  · rcases List.mem_or_eq_of_mem_set hx with hold | rfl
    · exact h.put ht x hold
    · exact hafter
  · rcases List.mem_append.1 hmem with hold | hnew
    · obtain ⟨j, index, before, hkey, hj, hne⟩ := h.keys item hold
      by_cases hij : i = j
      · subst hij
        exact ⟨i, index, session', hkey, List.getElem?_set_self hlt, hafter⟩
      · exact ⟨j, index, before, hkey, by rw [List.getElem?_set_ne hij]; exact hj, hne⟩
    · obtain ⟨index, hkey⟩ := hkeys item hnew
      exact ⟨i, index, session', hkey, List.getElem?_set_self hlt, hafter⟩
  · rcases List.mem_append.1 hmem with hold | hnew
    · exact h.tags item hold
    · exact htags item hnew

theorem Inv.wrote (h : Inv cfg s) {sessionId : ℕ} (outputs : List AgentLoopOutput) (hg : s.groups uid = some g)
    (hrun : g.sessions[sessionId]? = some .running) :
    Inv cfg (s.putItems uid g sessionId (agentLoopPostprocess uid sessionId g.globalSteps outputs)) := by
  have hgroup := h.groups uid g hg
  have hopen : ∀ g, s.groups uid = some g → g.status.isTerminal = false := fun g₁ hg₁ => by
    obtain rfl := Option.some.inj (hg.symm.trans hg₁)
    exact hgroup.not_terminal hrun
  have hout := h.not_claimed hopen g.partitionId
  have hqueue := h.queue.putItems h.groups hg hrun (fun hmem => hout (cleared_subset_claimed s hmem)) outputs
    (g.sessions.set sessionId .written)
  have hafter : Session.written ≠ .running := nofun
  refine h.produce hopen (hgroup.setSession hrun hafter (fun _ => postprocess_keys)
    fun _ => postprocess_tags) hqueue (fun p k hnone _ hkey => ?_) ?_
  · refine get?_kvBatchPut_none hnone fun item hitem heq => ?_
    obtain ⟨index, hitemKey⟩ := postprocess_keys hitem
    exact hkey sessionId index (heq.trans hitemKey)
  · rw [if_neg hout, h.late]

theorem Inv.ended (h : Inv cfg s) {sessionId : ℕ} {before after : Session} (hg : s.groups uid = some g)
    (hbefore : g.sessions[sessionId]? = some before) (hover : after.isOver = true) :
    Inv cfg (s.setGroup uid { g with sessions := g.sessions.set sessionId after }) := by
  have hafter : after ≠ .running := by
    rintro rfl
    cases hover
  have hset := (h.groups uid g hg).setSession hbefore hafter (List.forall_mem_nil _) (List.forall_mem_nil _)
  rw [List.append_nil] at hset
  refine ⟨fun uid₂ g₂ hg₂ => ?_, h.queue.setSessions hg _, h.claimedNodup, fun c hc => ?_,
    h.sampler.setSessions hg _, fun r hr => ?_, h.raised, h.late⟩
  · have hupdate : Function.update s.groups uid (some _) uid₂ = some g₂ := hg₂
    rcases update_group hupdate with ⟨rfl, rfl⟩ | ⟨-, hupdate⟩
    · exact hset
    · exact h.groups uid₂ g₂ hupdate
  · obtain ⟨uid₂, g₂, hg₂, hterm, rfl⟩ := h.claimed c hc
    by_cases huid : uid₂ = uid
    · subst huid
      obtain rfl := Option.some.inj (hg.symm.trans hg₂)
      exact ⟨uid₂, _, Function.update_self _ _ _, hterm, rfl⟩
    · exact ⟨uid₂, g₂, (Function.update_of_ne huid _ _).trans hg₂, hterm, rfl⟩
  · have hrec := h.records r hr
    exact ⟨hrec.snapshot.setSessions hg _, hrec.split, hrec.batch, hrec.absent⟩

/-! ## The steps of the sampler and the trainer -/

theorem get?_kvClear_none {q q' : Queue} {p p' : PartitionId} {keys : List Key} {k : Key}
    (h : q.get? (p', k) = none) (hclear : kvClear q p keys = some q') : q'.get? (p', k) = none := by
  rw [get?_kvClear hclear, h, ite_self]

theorem Inv.advance (h : Inv cfg s) (hgroups : s'.groups = s.groups) (hclaimed : s'.claimed = s.claimed)
    (hqueue : QueueOK s'.queue s.groups s.claimed s'.cleared) (hsampler : SamplerOK cfg s.groups s'.sampler)
    (hrecords : ∀ r ∈ s'.records, RecordOK cfg s.groups s'.queue r) (hraised : s'.raised = s.raised)
    (hlate : s'.late = s.late) : Inv cfg s' := by
  refine ⟨?_, ?_, ?_, ?_, ?_, ?_, ?_, ?_⟩
  · rw [hgroups]; exact h.groups
  · rw [hgroups, hclaimed]; exact hqueue
  · rw [hclaimed]; exact h.claimedNodup
  · rw [hgroups, hclaimed]; exact h.claimed
  · rw [hgroups]; exact hsampler
  · rw [hgroups]; exact hrecords
  · rw [hraised]; exact h.raised
  · rw [hlate]; exact h.late

theorem Inv.records_clear (h : Inv cfg s) {p : PartitionId} {keys : List Key} {q' : Queue}
    (hclear : kvClear s.queue p keys = some q') : ∀ r ∈ s.records, RecordOK cfg s.groups q' r := by
  intro r hr
  have hrec := h.records r hr
  exact ⟨hrec.snapshot, hrec.split, hrec.batch, fun item hitem => get?_kvClear_none (hrec.absent item hitem) hclear⟩

theorem Inv.of_terminal (h : Inv cfg s) {p : PartitionId} {k : Key} (hterm : Terminal s.queue p k) :
    ∃ uid g, s.groups uid = some g ∧ g.status.isTerminal = true ∧ (p, k) = (g.partitionId, uid.text) ∧
      (p, k) ∉ s.cleared := by
  obtain ⟨tag, hget, hprompt, status, hstatus, hterm⟩ := hterm
  obtain ⟨uid, g, hg, rfl, rfl | hmem⟩ := h.queue.known p k tag hget
  · have htag := h.queue.prompt uid g hg
    rw [hget] at htag
    by_cases hcleared : (g.partitionId, uid.text) ∈ s.cleared
    · rw [if_pos hcleared] at htag
      cases htag
    · rw [if_neg hcleared] at htag
      obtain rfl := Option.some.inj htag
      obtain rfl : g.status = status := Option.some.inj hstatus
      exact ⟨uid, g, hg, hterm, rfl, hcleared⟩
  · rw [((h.groups uid g hg).tags _ hmem).1] at hprompt
    cases hprompt

theorem Inv.snapshot (h : Inv cfg s) (hselects : Selects s.queue call.partitionId call.batchSize uids)
    (hclaimed : s.claimed = s.cleared) : Snapshot s.groups call s.queue uids := by
  refine ⟨hselects, fun uid g hg hp hmem k tag => ⟨fun hwritten => ?_, fun ⟨hget, hprompt, hhead⟩ => ?_⟩⟩
  · obtain ⟨uid', g', hg', -, heq, hout⟩ := h.of_terminal (hselects.terminal _ hmem)
    obtain rfl := Uid.eq_of_text (Prod.mk.inj heq).2
    obtain rfl := Option.some.inj (hg.symm.trans hg')
    obtain ⟨i, index, -, rfl, -⟩ := (h.groups uid g hg).keys _ hwritten
    have hget := h.queue.stored uid g _ tag hg hwritten (by rw [hclaimed, ← heq]; exact hout)
    exact ⟨hp ▸ hget, ((h.groups uid g hg).tags _ hwritten).1, splitHead_trajectoryKey uid i index⟩
  · obtain ⟨uid', g', hg', hp', rfl | hmem'⟩ := h.queue.known _ k tag hget
    · have htag := h.queue.prompt uid' g' hg'
      rw [hp', hget] at htag
      split at htag
      · cases htag
      · obtain rfl := Option.some.inj htag
        cases hprompt
    · obtain ⟨i, index, -, hkey, -⟩ := (h.groups uid' g' hg').keys _ hmem'
      rw [show k = trajectoryKey uid' i index from hkey, splitHead_trajectoryKey] at hhead
      obtain rfl := Uid.eq_of_text hhead
      obtain rfl := Option.some.inj (hg.symm.trans hg')
      exact hmem'

theorem Inv.selected (h : Inv cfg s) (hs : s.sampler = .polling call) (hdesc : Describes s.queue.items metadata)
    (hselects : Selects s.queue call.partitionId call.batchSize uids) :
    Inv cfg { s with sampler := .selected call s.queue metadata uids } := by
  -- when the sampler polls, all that was selected is cleared
  have hclaimed : s.claimed = s.cleared := by simp [Pool.claimed, Pool.cleared, hs, Sampler.claims]
  have hold : s.claimed = s.records.flatMap Record.claims := by
    simp [Pool.claimed, hs, Sampler.claims, Sampler.cleared]
  have hnow : ({ s with sampler := .selected call s.queue metadata uids } : Pool).claimed =
      s.claimed ++ uids.map (call.partitionId, ·) := by
    rw [hold]
    rfl
  have hcleared : ({ s with sampler := .selected call s.queue metadata uids } : Pool).cleared = s.cleared := by
    simp [Pool.cleared, hs, Sampler.cleared]
  refine ⟨h.groups, ?_, ?_, ?_, ⟨hdesc, h.snapshot hselects hclaimed⟩, h.records, h.raised, h.late⟩
  · rw [hnow, hcleared]
    exact h.queue.claim (List.subset_append_left _ _)
  · rw [hnow, List.nodup_append]
    -- a selected prompt is in the queue, so it has not been cleared before
    refine ⟨h.claimedNodup, hselects.nodup.map fun a b hab => (Prod.mk.inj hab).2, fun a ha b hb hab => ?_⟩
    obtain ⟨x, hx, rfl⟩ := List.mem_map.1 hb
    obtain ⟨-, -, -, -, -, hout⟩ := h.of_terminal (hselects.terminal x hx)
    exact hout (hclaimed ▸ hab ▸ ha)
  · rw [hnow]
    intro c hc
    rcases List.mem_append.1 hc with hmem | hmem
    · exact h.claimed c hmem
    · obtain ⟨x, hx, rfl⟩ := List.mem_map.1 hmem
      obtain ⟨uid, g, hg, hterm, heq, -⟩ := h.of_terminal (hselects.terminal x hx)
      exact ⟨uid, g, hg, hterm, heq⟩

variable {snapshot q' : Queue}

theorem Inv.queue_clearPrompts (h : Inv cfg s) (hs : s.sampler = .selected call snapshot metadata uids)
    (hclear : kvClear s.queue call.partitionId uids = some q') : QueueOK q' s.groups s.claimed s.claimed := by
  refine h.queue.clear hclear (fun uid g hg => ?_) fun uid g k tag hg hp hmem _ hk => ?_
  · have hmem : (g.partitionId, uid.text) ∈ uids.map (call.partitionId, ·) ↔
        g.partitionId = call.partitionId ∧ uid.text ∈ uids := by
      simp [eq_comm, and_comm]
    rw [← hmem]
    simp [Pool.claimed, Pool.cleared, hs, Sampler.claims, Sampler.cleared]
  · obtain ⟨uid', g', -, -, heq⟩ := h.claimed _ (claimed_of_selected hs hk)
    obtain ⟨i, index, -, hkey, -⟩ := (h.groups uid g hg).keys _ hmem
    exact trajectoryKey_ne_text uid uid' i index (hkey.symm.trans (Prod.mk.inj heq).2)

theorem Inv.queue_clearItems (h : Inv cfg s) {items : List (Key × Tag)}
    (hsnap : Snapshot s.groups call snapshot uids) (hclaims : ∀ x ∈ uids, (call.partitionId, x) ∈ s.claimed)
    (hitems : ∀ k tag, (k, tag) ∈ items →
      snapshot.get? (call.partitionId, k) = some tag ∧ tag.prompt = false ∧ splitHead k ∈ uids)
    (hclear : kvClear s.queue call.partitionId (items.map Prod.fst) = some q') :
    QueueOK q' s.groups s.claimed s.cleared := by
  have hkey : ∀ k ∈ items.map Prod.fst, ∃ uid i index, k = trajectoryKey uid i index ∧
      (call.partitionId, uid.text) ∈ s.claimed := fun k hk => by
    obtain ⟨⟨k, tag⟩, hitem, rfl⟩ := List.mem_map.1 hk
    obtain ⟨hget, hprompt, hhead⟩ := hitems k tag hitem
    obtain ⟨uid, g, i, index, -, -, hp, hin, -, hkey⟩ := h.mem_written hsnap hclaims hget hprompt hhead
    exact ⟨uid, i, index, hkey, hp ▸ hin⟩
  refine h.queue.clear hclear (fun uid g hg => ?_) fun uid g k tag hg hp hmem hout hk => ?_
  · refine (or_iff_left fun ⟨_, hk⟩ => ?_).symm
    obtain ⟨uid', i, index, heq, -⟩ := hkey _ hk
    exact trajectoryKey_ne_text uid' uid i index heq.symm
  · obtain ⟨uid', i, index, rfl, hin⟩ := hkey _ hk
    obtain ⟨i', index', -, heq, -⟩ := (h.groups uid g hg).keys _ hmem
    obtain ⟨rfl, -, -⟩ := trajectoryKey_inj heq
    exact hout hin

theorem Inv.split (h : Inv cfg s) {snapshot : Queue} (hdesc : Describes snapshot.items metadata)
    (hsnap : Snapshot s.groups call snapshot uids) (hclaims : ∀ x ∈ uids, (call.partitionId, x) ∈ s.claimed) :
    ∃ kept dropped, splitStale cfg call.globalSteps
      (.ofItems call.partitionId (collect metadata call.partitionId uids)) = .ok (kept, dropped) ∧
        Split cfg call snapshot uids kept dropped := by
  have hsteps : ∀ item ∈ collect metadata call.partitionId uids, item.2.globalSteps.isSome := fun item hitem => by
    obtain ⟨hget, hprompt, hhead⟩ := (mem_collect (k := item.1) hdesc).1 hitem
    obtain ⟨uid, g, -, -, hg, -, -, -, hmem, -⟩ := h.mem_written hsnap hclaims hget hprompt hhead
    exact ((h.groups uid g hg).tags _ hmem).2
  refine ⟨_, _, splitStale_eq hsteps, fun k tag => ?_, fun k tag => ?_, ?_, ?_⟩
  · rw [List.mem_filter, mem_collect hdesc, Bool.not_eq_true']
  · rw [List.mem_filter, mem_collect hdesc]
  · exact (collect_nodup metadata call.partitionId uids).sublist (List.Sublist.map _ List.filter_sublist)
  · exact (collect_nodup metadata call.partitionId uids).sublist (List.Sublist.map _ List.filter_sublist)

theorem Inv.split_of_ok (h : Inv cfg s) {snapshot : Queue} (hs : s.sampler = .selected call snapshot metadata uids)
    (hok : splitStale cfg call.globalSteps (.ofItems call.partitionId (collect metadata call.partitionId uids)) =
      .ok (kept, dropped)) : Snapshot s.groups call snapshot uids ∧ Split cfg call snapshot uids kept dropped := by
  have hsampler := h.sampler
  rw [hs] at hsampler
  obtain ⟨kept', dropped', hok', hsplit⟩ := h.split hsampler.1 hsampler.2 fun x hx => claimed_of_selected hs hx
  rw [hok] at hok'
  obtain ⟨rfl, rfl⟩ := Prod.mk.inj (Except.ok.inj hok')
  exact ⟨hsampler.2, hsplit⟩

theorem Inv.cleared (h : Inv cfg s) (hs : s.sampler = .selected call snapshot metadata uids)
    (hclear : kvClear s.queue call.partitionId uids = some q') (hsplit : Split cfg call snapshot uids kept dropped)
    (hsnap : Snapshot s.groups call snapshot uids) (hdropped : dropped ≠ []) :
    Inv cfg { s with queue := q', sampler := .dropping call snapshot uids kept dropped } := by
  have hqueue := h.queue_clearPrompts hs hclear
  have hclaimed : s.claimed = s.records.flatMap Record.claims ++ uids.map (call.partitionId, ·) := by
    rw [Pool.claimed, hs]
    rfl
  refine h.advance rfl hclaimed.symm ?_ ⟨hsnap, hsplit, hdropped⟩ (h.records_clear hclear) rfl rfl
  rw [hclaimed] at hqueue ⊢
  exact hqueue

theorem Inv.returned (h : Inv cfg s) {metrics : List (String × ℚ)}
    (hs : s.sampler.claims = uids.map (call.partitionId, ·)) (hqueue : QueueOK q' s.groups s.claimed s.claimed)
    (hrecords : ∀ r ∈ s.records, RecordOK cfg s.groups q' r) (hsnap : Snapshot s.groups call snapshot uids)
    (hsplit : Split cfg call snapshot uids kept dropped)
    (habsent : ∀ item ∈ dropped, q'.get? (call.partitionId, item.1) = none) :
    Inv cfg ({ s with queue := q' }.returns
      ⟨call, snapshot, uids, .ofItems call.partitionId kept, dropped, metrics⟩) := by
  let r : Record := ⟨call, snapshot, uids, .ofItems call.partitionId kept, dropped, metrics⟩
  have hclaimed : (s.records ++ [r]).flatMap Record.claims ++ [] = s.claimed := by
    rw [Pool.claimed, hs]
    simp [r, Record.claims]
  refine h.advance rfl hclaimed ?_ trivial (fun r' hr' => ?_) rfl rfl
  · rw [← hclaimed] at hqueue ⊢
    exact hqueue
  · rcases List.mem_append.1 hr' with hmem | hmem
    · exact hrecords r' hmem
    · obtain rfl := List.mem_singleton.1 hmem
      refine ⟨hsnap, ?_, ?_, habsent⟩
      · simpa using hsplit
      · simp

theorem Inv.sync_ok (h : Inv cfg s) : ∃ metadata, sync s.queue = .ok metadata := by
  refine Opd.Verl.sync_ok fun item hitem => ?_
  have hget := Dict.mem_items.1 (show ((item.1.1, item.1.2), item.2) ∈ s.queue.items from hitem)
  obtain ⟨uid, g, hg, hp, hk | hmem⟩ := h.queue.known _ _ _ hget
  · have htag := h.queue.prompt uid g hg
    rw [hp, ← hk, hget] at htag
    split at htag
    · cases htag
    · rw [Option.some.inj htag]
      exact ⟨rfl, fun _ => ⟨g.status, rfl, (h.groups uid g hg).status⟩⟩
  · obtain ⟨hprompt, hsteps⟩ := (h.groups uid g hg).tags _ hmem
    refine ⟨hsteps, fun ht => ?_⟩
    rw [hprompt] at ht
    cases ht

/-! ## The step and the run -/

/-- **Every step keeps the invariant**, if no prompt is set to `failure` before all its
trajectories have been put. -/
theorem inv_of_effect (h : Inv cfg s) (he : Effect cfg s e s') (hput : putsDone s e) : Inv cfg s' := by
  cases he with
  | registered uid g hnew hstatus hsessions hwritten => exact h.registered hnew hstatus hsessions hwritten
  | started uid g n hg hstatus => exact h.started n hg hstatus
  | published uid g status hg hstatus hterm hdone =>
    refine h.published hg hstatus hterm ?_
    rcases hdone with hended | rfl
    · exact fun session hsession => by rw [hended session hsession]; nofun
    · exact hput g hg
  | wrote uid g sessionId outputs hg hrun => exact h.wrote outputs hg hrun
  | ended uid g sessionId before after hg hbefore hopen hafter => exact h.ended hg hbefore hafter
  -- the sampler: these steps select, clear and return
  | called call hidle =>
    have hclaimed : ({ s with sampler := .polling call } : Pool).claimed = s.claimed := by
      simp [Pool.claimed, hidle, Sampler.claims, Sampler.cleared]
    have hcleared : ({ s with sampler := .polling call } : Pool).cleared = s.cleared := by
      simp [Pool.cleared, hidle, Sampler.cleared]
    exact h.advance rfl hclaimed (hcleared ▸ h.queue) trivial h.records rfl rfl
  | waited => exact h
  | selected call metadata uids hs hdesc hselects => exact h.selected hs hdesc hselects
  | syncRaised call error hs hsync =>
    obtain ⟨metadata, hok⟩ := h.sync_ok
    rw [hok] at hsync
    cases hsync
  | nothingSelected call snapshot metadata hs =>
    have hsampler := h.sampler
    rw [hs] at hsampler
    -- nothing is selected only for a batch size of 0
    have hsize : ([] : List Key).length = call.batchSize := hsampler.2.selects.length
    have hclaimed : ({ s with sampler := .idle } : Pool).claimed = s.claimed := by
      simp [Pool.claimed, hs, Sampler.claims, Sampler.cleared]
    have hcleared : ({ s with sampler := .idle } : Pool).cleared = s.cleared := by
      simp [Pool.cleared, hs, Sampler.cleared]
    have hidle : Inv cfg { s with sampler := .idle } :=
      h.advance rfl hclaimed (hcleared ▸ h.queue) trivial h.records rfl rfl
    refine ⟨hidle.groups, hidle.queue, hidle.claimedNodup, hidle.claimed, trivial, hidle.records, ?_, h.late⟩
    intro x hx
    rcases List.mem_append.1 hx with hmem | hmem
    · exact h.raised x hmem
    · obtain rfl := List.mem_singleton.1 hmem
      exact ⟨hsize.symm, rfl⟩
  | splitRaised call snapshot queue metadata uids error hs hsplit =>
    have hsampler := h.sampler
    rw [hs] at hsampler
    obtain ⟨kept, dropped, hok, -⟩ := h.split hsampler.1 hsampler.2 fun x hx => claimed_of_selected hs hx
    rw [hok] at hsplit
    cases hsplit
  | cleared call snapshot queue metadata uids kept dropped hs hclear hok hdropped =>
    obtain ⟨hsnap, hsplit⟩ := h.split_of_ok hs hok
    exact h.cleared hs hclear hsplit hsnap hdropped
  | returned call snapshot queue metadata uids kept hs hclear hok =>
    obtain ⟨hsnap, hsplit⟩ := h.split_of_ok hs hok
    exact h.returned (by rw [hs]; rfl) (h.queue_clearPrompts hs hclear) (h.records_clear hclear) hsnap hsplit
      (List.forall_mem_nil _)
  | dropRaised call snapshot uids kept hs =>
    have hsampler := h.sampler
    rw [hs] at hsampler
    exact absurd rfl hsampler.2.2
  | dropped call snapshot queue uids kept dropped hs hclear =>
    have hsampler := h.sampler
    rw [hs] at hsampler
    have hcleared : s.cleared = s.claimed := by simp [Pool.claimed, Pool.cleared, hs, Sampler.claims]
    have hqueue := h.queue_clearItems hsampler.1 (fun x hx => claimed_of_dropping hs hx)
      (fun k tag hmem => ((hsampler.2.1.mem_dropped k tag).1 hmem).1) hclear
    refine h.returned (by rw [hs]; rfl) (hcleared ▸ hqueue) (h.records_clear hclear) hsampler.1 hsampler.2.1
      fun item hitem => ?_
    rw [get?_kvClear hclear, if_pos ⟨rfl, List.mem_map_of_mem hitem⟩]
  -- the trainer clears the batch that it has got
  | batchCleared r queue hr hclear =>
    have hrec := h.records r hr
    have hkeys : r.batch.partitionId = r.call.partitionId ∧ r.batch.keys = r.batch.items.map Prod.fst := by
      rw [hrec.batch, KVBatchMeta.items_ofItems]
      exact ⟨rfl, rfl⟩
    rw [hkeys.1, hkeys.2] at hclear
    have hqueue := h.queue_clearItems hrec.snapshot (fun x hx => claimed_of_record hr hx)
      (fun k tag hmem => ((hrec.split.mem_kept k tag).1 hmem).1) hclear
    exact h.advance rfl rfl hqueue h.sampler (h.records_clear hclear) rfl rfl

theorem inv_emptyPool : Inv cfg emptyPool := by
  have hnone : ∀ uid g, emptyPool.groups uid ≠ some g := fun _ _ hg => by cases hg
  refine ⟨fun uid g hg => absurd hg (hnone uid g), ⟨fun uid g hg => absurd hg (hnone uid g),
    fun uid g _ _ hg => absurd hg (hnone uid g), fun p k tag hget => ?_⟩, List.nodup_nil, ?_, trivial, ?_, ?_, rfl⟩
  · rw [show emptyPool.queue.get? (p, k) = none from rfl] at hget
    cases hget
  · exact fun c hc => absurd hc List.not_mem_nil
  · exact fun r hr => absurd hr List.not_mem_nil
  · exact fun x hx => absurd hx List.not_mem_nil

/-- **The invariant of the runs** in which no prompt is set to `failure` before all its
trajectories have been put. -/
theorem inv_of_reach (h : ((pool cfg).restrict putsDone).Reach s) : Inv cfg s := by
  refine h.induct ?_ ?_
  · rintro s rfl
    exact inv_emptyPool
  · intro s e s' _ hinv hstep
    exact inv_of_effect hinv (effect_of_step hstep.1) hstep.2

end Claims

end Opd.Verl

import Opd.Verl.PoolInvariant

/-!
# Every trajectory is sampled at most once and none is lost

The calls of `ReplayBuffer.sample` run one after the other while the producers go on. A
call works on the metadata of its last sync; it clears the prompts it selects and the
samples it drops, and the trainer clears the batches after training.

* `ExactBatch`: what a call returns and what it drops.
* `sampledOnce_of_reach`: every call returns such a batch, no trajectory is returned by
  two calls, and what no call has selected stays in the queue.
-/

namespace Opd.Verl

open Lib

/-- A trajectory that was put for one of the prompts `uids`. -/
def PutFor (s : Pool) (partitionId : PartitionId) (uids : List Key) (k : Key) (tag : Tag) : Prop :=
  ∃ uid g, s.groups uid = some g ∧ g.partitionId = partitionId ∧ uid.text ∈ uids ∧ (k, tag) ∈ g.written

def Stale (cfg : ReplayConfig) (call : Call) (tag : Tag) : Prop :=
  cfg.maxOffPolicyStrategy = .drop ∧ ∃ globalSteps, tag.globalSteps = some globalSteps ∧
    staleness cfg call.globalSteps globalSteps > cfg.maxOffPolicyThreshold

/-- **What a call returns**: it selects the oldest terminal prompts of its last sync; what
it has read of them is all that was put for them; it returns this, each trajectory once,
but for the stale ones, which are cleared from the queue. -/
structure ExactBatch (cfg : ReplayConfig) (s : Pool) (r : Record) : Prop where
  selects : Selects r.snapshot r.call.partitionId r.call.batchSize r.uids
  stored : ∀ k tag, PutFor s r.call.partitionId r.uids k tag ↔
    r.snapshot.get? (r.call.partitionId, k) = some tag ∧ tag.prompt = false ∧ splitHead k ∈ r.uids
  partition : r.batch.partitionId = r.call.partitionId
  zipped : r.batch.keys.length = r.batch.tags.length
  nodup : r.batch.keys.Nodup
  returned : ∀ k tag, (k, tag) ∈ r.batch.items ↔
    PutFor s r.call.partitionId r.uids k tag ∧ ¬ Stale cfg r.call tag
  dropped : ∀ k tag, (k, tag) ∈ r.dropped ↔ PutFor s r.call.partitionId r.uids k tag ∧ Stale cfg r.call tag
  cleared : ∀ k tag, (k, tag) ∈ r.dropped → s.queue.get? (r.call.partitionId, k) = none

/-- At most once, and none lost. A terminal prompt that no call has selected is
sampleable: the next sync finds it, and all its trajectories are in the queue. -/
structure SampledOnce (cfg : ReplayConfig) (s : Pool) : Prop where
  exact : ∀ r ∈ s.records, ExactBatch cfg s r
  once : s.records.Pairwise fun r r' => ∀ k ∈ r.batch.keys, k ∉ r'.batch.keys
  sampleable : ∀ uid g, s.groups uid = some g → g.status.isTerminal = true →
    (g.partitionId, uid.text) ∉ s.claimed → Terminal s.queue g.partitionId uid.text ∧
      (∀ metadata, sync s.queue = .ok metadata → uid.text ∈ sampleableKeys metadata g.partitionId) ∧
        ∀ k tag, (k, tag) ∈ g.written → s.queue.get? (g.partitionId, k) = some tag
  lossless : ∀ uid g k tag, s.groups uid = some g → (k, tag) ∈ g.written →
    s.queue.get? (g.partitionId, k) = some tag ∨ (g.partitionId, uid.text) ∈ s.sampler.claims ∨
      ∃ r ∈ s.records, (k, tag) ∈ r.batch.items ∨ (k, tag) ∈ r.dropped
  raised : ∀ x ∈ s.raised, x.1.batchSize = 0

variable {cfg : ReplayConfig} {s : Pool}

theorem isDropped_iff {call : Call} {tag : Tag} (h : tag.globalSteps.isSome = true) :
    isDropped cfg call.globalSteps tag = true ↔ Stale cfg call tag := by
  obtain ⟨globalSteps, hsteps⟩ := Option.isSome_iff_exists.1 h
  rw [isDropped, Bool.and_eq_true, beq_iff_eq, isStale, decide_eq_true_eq, Stale, hsteps, Option.getD_some]
  simp [gt_iff_lt]

section Batch

variable {r : Record}

theorem Inv.putFor_iff (h : Inv cfg s) (hr : r ∈ s.records) {k : Key} {tag : Tag} :
    PutFor s r.call.partitionId r.uids k tag ↔
      r.snapshot.get? (r.call.partitionId, k) = some tag ∧ tag.prompt = false ∧ splitHead k ∈ r.uids := by
  have hsnap := (h.records r hr).snapshot
  constructor
  · rintro ⟨uid, g, hg, hp, huid, hmem⟩
    obtain ⟨hget, hprompt, hhead⟩ := (hsnap.exact uid g hg hp huid k tag).1 hmem
    exact ⟨hget, hprompt, hhead ▸ huid⟩
  · rintro ⟨hget, hprompt, hhead⟩
    obtain ⟨uid, g, i, index, hg, -, hp, -, hmem, hkey⟩ :=
      h.mem_written hsnap (fun x hx => claimed_of_record hr hx) hget hprompt hhead
    rw [hkey, splitHead_trajectoryKey] at hhead
    exact ⟨uid, g, hg, hp, hhead, hmem⟩

theorem Inv.steps_of_putFor (h : Inv cfg s) {p : PartitionId} {uids : List Key} {k : Key} {tag : Tag}
    (hput : PutFor s p uids k tag) : tag.globalSteps.isSome = true := by
  obtain ⟨uid, g, hg, -, -, hmem⟩ := hput
  exact ((h.groups uid g hg).tags _ hmem).2

theorem Inv.exactBatch (h : Inv cfg s) (hr : r ∈ s.records) : ExactBatch cfg s r := by
  have hrec := h.records r hr
  have hitems : r.batch.keys = r.batch.items.map Prod.fst ∧ r.batch.tags = r.batch.items.map Prod.snd := by
    rw [hrec.batch, KVBatchMeta.items_ofItems]
    exact ⟨rfl, rfl⟩
  refine ⟨hrec.snapshot.selects, fun k tag => h.putFor_iff hr, ?_, ?_, ?_, fun k tag => ?_, fun k tag => ?_,
    fun k tag hmem => hrec.absent _ hmem⟩
  · rw [hrec.batch]
    rfl
  · rw [hitems.1, hitems.2, List.length_map, List.length_map]
  · rw [hitems.1]
    exact hrec.split.kept_nodup
  · rw [hrec.split.mem_kept, ← h.putFor_iff hr, ← Bool.not_eq_true]
    exact and_congr_right fun hput => not_congr (isDropped_iff (h.steps_of_putFor hput))
  · rw [hrec.split.mem_dropped, ← h.putFor_iff hr]
    exact and_congr_right fun hput => isDropped_iff (h.steps_of_putFor hput)

theorem Inv.key_of_record (h : Inv cfg s) (hr : r ∈ s.records) {k : Key} (hk : k ∈ r.batch.keys) :
    ∃ uid g i index, k = trajectoryKey uid i index ∧ s.groups uid = some g ∧
      (g.partitionId, uid.text) ∈ r.claims := by
  have hexact := h.exactBatch hr
  rw [(h.records r hr).batch, KVBatchMeta.ofItems, List.mem_map] at hk
  obtain ⟨⟨k, tag⟩, hitem, rfl⟩ := hk
  obtain ⟨⟨uid, g, hg, hp, huid, hmem⟩, -⟩ := (hexact.returned k tag).1 hitem
  obtain ⟨i, index, -, hkey, -⟩ := (h.groups uid g hg).keys _ hmem
  exact ⟨uid, g, i, index, hkey, hg, List.mem_map.2 ⟨uid.text, huid, by rw [hp]⟩⟩

end Batch

theorem Inv.once (h : Inv cfg s) :
    s.records.Pairwise fun r r' => ∀ k ∈ r.batch.keys, k ∉ r'.batch.keys := by
  have hnodup : (s.records.flatMap Record.claims).Nodup := (List.nodup_append.1 h.claimedNodup).1
  rw [List.nodup_flatMap] at hnodup
  refine hnodup.2.imp_of_mem fun {r r'} hr hr' hdisjoint k hk hk' => ?_
  obtain ⟨uid, g, i, index, hkey, hg, hclaim⟩ := h.key_of_record hr hk
  obtain ⟨uid', g', i', index', hkey', hg', hclaim'⟩ := h.key_of_record hr' hk'
  obtain ⟨rfl, -, -⟩ := trajectoryKey_inj (hkey.symm.trans hkey')
  obtain rfl := Option.some.inj (hg.symm.trans hg')
  exact hdisjoint hclaim hclaim'

theorem Inv.terminal_of_not_claimed (h : Inv cfg s) {uid : Uid} {g : Group} (hg : s.groups uid = some g)
    (hterm : g.status.isTerminal = true) (hout : (g.partitionId, uid.text) ∉ s.claimed) :
    Terminal s.queue g.partitionId uid.text := by
  have hget := h.queue.prompt uid g hg
  rw [if_neg fun hmem => hout (cleared_subset_claimed s hmem)] at hget
  exact ⟨g.tag, hget, rfl, g.status, rfl, hterm⟩

theorem Inv.lossless (h : Inv cfg s) {uid : Uid} {g : Group} {k : Key} {tag : Tag} (hg : s.groups uid = some g)
    (hmem : (k, tag) ∈ g.written) :
    s.queue.get? (g.partitionId, k) = some tag ∨ (g.partitionId, uid.text) ∈ s.sampler.claims ∨
      ∃ r ∈ s.records, (k, tag) ∈ r.batch.items ∨ (k, tag) ∈ r.dropped := by
  by_cases hclaimed : (g.partitionId, uid.text) ∈ s.claimed
  · right
    rcases List.mem_append.1 hclaimed with hrecord | hsampler
    · right
      obtain ⟨r, hr, hclaim⟩ := List.mem_flatMap.1 hrecord
      obtain ⟨x, hx, heq⟩ := List.mem_map.1 hclaim
      obtain ⟨hp, rfl⟩ := Prod.mk.inj heq
      have hput : PutFor s r.call.partitionId r.uids k tag := ⟨uid, g, hg, hp.symm, hx, hmem⟩
      have hexact := h.exactBatch hr
      by_cases hstale : Stale cfg r.call tag
      · exact ⟨r, hr, .inr ((hexact.dropped k tag).2 ⟨hput, hstale⟩)⟩
      · exact ⟨r, hr, .inl ((hexact.returned k tag).2 ⟨hput, hstale⟩)⟩
    · exact .inl hsampler
  · exact .inl (h.queue.stored uid g k tag hg hmem hclaimed)

/-- **Every trajectory is sampled at most once and none is lost**, on every run of
producers that set a terminal status only after all trajectories of the prompt have been
put. -/
theorem sampledOnce_of_reach (cfg : ReplayConfig) (s : Pool) (hreach : ((pool cfg).restrict putsDone).Reach s) :
    SampledOnce cfg s := by
  have h := inv_of_reach hreach
  refine ⟨fun r hr => h.exactBatch hr, h.once, fun uid g hg hterm hout => ?_,
    fun uid g k tag hg hmem => h.lossless hg hmem, fun x hx => (h.raised x hx).1⟩
  have hterminal := h.terminal_of_not_claimed hg hterm hout
  refine ⟨hterminal, fun metadata hsync => ?_, fun k tag hmem => h.queue.stored uid g k tag hg hmem hout⟩
  exact (mem_sampleableKeys (describes_of_sync hsync)).2 hterminal

/-! ## Three prompts, two calls -/

/-- The test of `putsDone`. -/
def putsDoneTest (s : Pool) : Event → Bool
  | .failure uid => (s.groups uid).all fun g => g.sessions.all (· != .running)
  | _ => true

theorem putsDone_of_test (s : Pool) (e : Event) (h : putsDoneTest s e = true) : putsDone s e := by
  cases e with
  | failure uid =>
    intro g hg session hsession
    rw [putsDoneTest, hg, Option.all_some, List.all_eq_true] at h
    simpa using h session hsession
  | register | start | write | sessionEnd | sessionRaise | finished | sample | sync | clearPrompts | clearDropped
  | clearBatch => trivial

/-- The options of the example: trajectories older than one step are dropped. -/
def dropConfig : ReplayConfig := ⟨1, .drop, 1, Nat.one_pos, Nat.one_pos⟩

/-- A prompt with one session that ends before the terminal status. -/
def onePrompt (uid : Uid) (globalSteps : ℤ) : List Event :=
  [.register uid "train" globalSteps, .start uid 1, .write uid 0 [⟨[1], [2], none, none⟩], .sessionEnd uid 0,
    .finished uid]

/-- Prompts of steps 1, 3 and 4. The first call takes the two oldest at step 3 and drops
the stale one; the third prompt ends while the call runs and is left to the second. -/
def twoCalls : List Event :=
  onePrompt ⟨"b", by decide⟩ 3 ++ onePrompt ⟨"a", by decide⟩ 1 ++
    [.sample ⟨3, "train", 2⟩, .sync ["b", "a"]] ++ onePrompt ⟨"c", by decide⟩ 4 ++
    [.clearPrompts, .clearDropped, .sample ⟨4, "train", 1⟩, .sync ["c"], .clearPrompts, .clearBatch 0]

theorem sampledOnce_twoCalls :
    ∃ s, ((pool dropConfig).restrict putsDone).Reach s ∧
      s.records.map (fun r => (r.uids, r.batch.keys, r.dropped.map Prod.fst)) =
        [(["a", "b"], ["b_0_0"], ["a_0_0"]), (["c"], ["c_0_0"], [])] ∧ SampledOnce dropConfig s := by
  have hrun : (System.runFn (fun s e => if putsDoneTest s e then poolStep dropConfig s e else none)
      emptyPool twoCalls).any fun s => s.records.map (fun r => (r.uids, r.batch.keys, r.dropped.map Prod.fst)) =
        [(["a", "b"], ["b_0_0"], ["a_0_0"]), (["c"], ["c_0_0"], [])] := by decide +kernel
  rw [Option.any_eq_true] at hrun
  obtain ⟨s, hs, hrecords⟩ := hrun
  have hreach : ((pool dropConfig).restrict putsDone).Reach s :=
    System.reach_restrict_of_run putsDone_of_test (.init rfl) hs
  exact ⟨s, hreach, of_decide_eq_true hrecords, sampledOnce_of_reach dropConfig s hreach⟩

end Opd.Verl

import Opd.Lib.Dict
import Opd.Lib.Fields
import Mathlib.Data.Int.Notation

/-!
# TransferQueue: keys, tags and atomic operations

The metadata of TransferQueue is a dictionary from keys to tags in every partition. A
prompt is stored under its uid, a trajectory under `{uid}_{session_id}_{index}`; the
sampler finds the prompt of a trajectory as `key.split("_")[0]`.

* `splitHead_trajectoryKey`: the head of a trajectory key is the uid of its prompt.
* `trajectoryKey_inj`: distinct trajectories have distinct keys.
* `get?_kvPut`, `get?_kvBatchPut`: puts merge tags and touch no other key.
-/

namespace Opd.Verl

open Lib

/-! ## Keys -/

abbrev PartitionId := String

abbrev Key := String

/-- The uid of a prompt, `str(uuid.uuid4())`: it has no underscore. -/
structure Uid where
  text : Key
  no_underscore : '_' ∉ text.toList
deriving DecidableEq

/-- `f"{uid}_{session_id}_{i}"` -/
def trajectoryKey (uid : Uid) (sessionId index : ℕ) : Key :=
  uid.text ++ "_" ++ toString sessionId ++ "_" ++ toString index

/-- `key.split("_")[0]` -/
def splitHead (key : Key) : Key := String.ofList (key.toList.takeWhile (· ≠ '_'))

theorem toList_trajectoryKey (uid : Uid) (sessionId index : ℕ) :
    (trajectoryKey uid sessionId index).toList =
      uid.text.toList ++ '_' :: (Nat.toDigits 10 sessionId ++ '_' :: Nat.toDigits 10 index) := by
  simp [trajectoryKey]

/-- **The head of a trajectory key is the uid of its prompt.** -/
theorem splitHead_trajectoryKey (uid : Uid) (sessionId index : ℕ) :
    splitHead (trajectoryKey uid sessionId index) = uid.text := by
  rw [splitHead, toList_trajectoryKey, List.takeWhile_append_of_pos]
  · simp
  · intro c hc
    exact decide_eq_true fun heq : c = '_' => uid.no_underscore (heq ▸ hc)

/-- **Distinct trajectories have distinct keys.** -/
theorem trajectoryKey_inj {uid uid' : Uid} {sessionId sessionId' index index' : ℕ}
    (h : trajectoryKey uid sessionId index = trajectoryKey uid' sessionId' index') :
    uid = uid' ∧ sessionId = sessionId' ∧ index = index' := by
  have hlist := congrArg String.toList h
  rw [toList_trajectoryKey, toList_trajectoryKey, ← List.cons_append, ← List.append_assoc, ← List.cons_append,
    ← List.append_assoc] at hlist
  obtain ⟨hrest, hindex⟩ := append_sep_inj Nat.underscore_not_in_toDigits Nat.underscore_not_in_toDigits hlist
  obtain ⟨huid, hsession⟩ := append_sep_inj Nat.underscore_not_in_toDigits Nat.underscore_not_in_toDigits hrest
  have hdigits : ∀ {m n : ℕ}, Nat.toDigits 10 m = Nat.toDigits 10 n → m = n := fun {m n} heq => by
    rw [← Nat.ofDigitChars_ten_toDigits (n := m), heq, Nat.ofDigitChars_ten_toDigits]
  refine ⟨?_, hdigits hsession, hdigits hindex⟩
  cases uid
  cases uid'
  simpa using String.toList_inj.1 huid

theorem trajectoryKey_ne_text (uid uid' : Uid) (sessionId index : ℕ) :
    trajectoryKey uid sessionId index ≠ uid'.text := by
  intro h
  apply uid'.no_underscore
  rw [← h, toList_trajectoryKey]
  simp

/-! ## Tags -/

/-- The values of a `status` tag. -/
inductive Status
  | pending
  | running
  | finished
  | failure
  | success
deriving DecidableEq

def Status.isTerminal : Status → Bool
  | .finished | .failure => true
  | _ => false

structure Tag where
  isPrompt : Option Bool := none
  status : Option Status := none
  globalSteps : Option ℤ := none
  promptLen : Option ℕ := none
  responseLen : Option ℕ := none
  seqLen : Option ℕ := none
  minGlobalSteps : Option (Option ℤ) := none
  maxGlobalSteps : Option (Option ℤ) := none
deriving DecidableEq

/-- `dict.update`: a field that the new tag has wins. -/
def Tag.update (old new : Tag) : Tag where
  isPrompt := new.isPrompt.or old.isPrompt
  status := new.status.or old.status
  globalSteps := new.globalSteps.or old.globalSteps
  promptLen := new.promptLen.or old.promptLen
  responseLen := new.responseLen.or old.responseLen
  seqLen := new.seqLen.or old.seqLen
  minGlobalSteps := new.minGlobalSteps.or old.minGlobalSteps
  maxGlobalSteps := new.maxGlobalSteps.or old.maxGlobalSteps

@[simp] theorem Tag.update_empty (tag : Tag) : Tag.update {} tag = tag := by
  cases tag
  simp [Tag.update]

/-! ## The queue -/

abbrev Queue := Dict (PartitionId × Key) Tag

/-- `tq.kv_put` of a tag: it merges into the stored one. -/
def kvPut (q : Queue) (partitionId : PartitionId) (key : Key) (tag : Tag) : Queue :=
  q.update (partitionId, key) fun old => (old.getD {}).update tag

/-- `tq.kv_batch_put` -/
def kvBatchPut (q : Queue) (partitionId : PartitionId) (items : List (Key × Tag)) : Queue :=
  items.foldl (fun q item => kvPut q partitionId item.1 item.2) q

/-- `tq.kv_clear`: an empty list of keys is rejected with a `ValueError`. -/
def kvClear (q : Queue) (partitionId : PartitionId) (keys : List Key) : Option Queue :=
  if keys = [] then none else some (q.clear (keys.map (partitionId, ·)))

variable {q : Queue} {p p' : PartitionId} {k k' : Key} {tag : Tag}

theorem get?_kvPut : (kvPut q p k tag).get? (p', k') =
    if (p', k') = (p, k) then some (((q.get? (p, k)).getD {}).update tag) else q.get? (p', k') :=
  Dict.get?_update _ _ _ _

theorem get?_kvPut_of_ne (h : (p', k') ≠ (p, k)) : (kvPut q p k tag).get? (p', k') = q.get? (p', k') :=
  Dict.get?_update_of_ne _ _ h

theorem get?_kvPut_none (h : q.get? (p', k') = none) (hne : k' ≠ k) :
    (kvPut q p k tag).get? (p', k') = none := by
  rw [get?_kvPut_of_ne fun heq => hne (Prod.mk.inj heq).2, h]

theorem get?_kvBatchPut_none {items : List (Key × Tag)} (h : q.get? (p', k') = none)
    (hne : ∀ item ∈ items, k' ≠ item.1) : (kvBatchPut q p items).get? (p', k') = none := by
  induction items generalizing q with
  | nil => exact h
  | cons item items ih =>
    exact ih (get?_kvPut_none h (hne item List.mem_cons_self)) fun x hx => hne x (List.mem_cons_of_mem _ hx)

theorem get?_kvBatchPut {items : List (Key × Tag)} (hnodup : (items.map Prod.fst).Nodup)
    (hnew : ∀ item ∈ items, q.get? (p, item.1) = none) :
    (kvBatchPut q p items).get? (p', k') = some tag ↔
      q.get? (p', k') = some tag ∨ p' = p ∧ (k', tag) ∈ items := by
  induction items generalizing q with
  | nil => simp [kvBatchPut]
  | cons item items ih =>
    rw [List.map_cons, List.nodup_cons] at hnodup
    have hitem := hnew item List.mem_cons_self
    have hrest : ∀ x ∈ items, (kvPut q p item.1 item.2).get? (p, x.1) = none := fun x hx => by
      have hne : x.1 ≠ item.1 := fun heq => hnodup.1 (heq ▸ List.mem_map_of_mem hx)
      rw [get?_kvPut_of_ne (by simpa using hne)]
      exact hnew x (List.mem_cons_of_mem _ hx)
    have hcons : kvBatchPut q p (item :: items) = kvBatchPut (kvPut q p item.1 item.2) p items := rfl
    rw [hcons, ih hnodup.2 hrest, get?_kvPut, hitem]
    by_cases hkey : (p', k') = (p, item.1)
    · obtain ⟨rfl, rfl⟩ := Prod.mk.inj hkey
      have hnot : (item.1, tag) ∉ items := fun hmem => hnodup.1 (List.mem_map.2 ⟨_, hmem, rfl⟩)
      simp [hitem, hnot, Prod.ext_iff, eq_comm]
    · rw [if_neg hkey, List.mem_cons]
      have hne : ¬ (p' = p ∧ (k', tag) = item) := by
        rintro ⟨hp, hitem'⟩
        exact hkey (by rw [hp, ← hitem'])
      rw [and_or_left, or_iff_right hne]

theorem get?_kvClear {keys : List Key} {q' : Queue} (h : kvClear q p keys = some q') :
    q'.get? (p', k') = if p' = p ∧ k' ∈ keys then none else q.get? (p', k') := by
  unfold kvClear at h
  split at h
  · cases h
  · obtain rfl := Option.some.inj h
    rw [Dict.get?_clear]
    have hmem : (p', k') ∈ keys.map (p, ·) ↔ p' = p ∧ k' ∈ keys := by
      simp [eq_comm, and_comm]
    simp only [hmem]

end Opd.Verl

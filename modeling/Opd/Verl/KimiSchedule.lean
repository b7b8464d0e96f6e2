import Opd.Lib.Dict
import Opd.Lib.Rounds
import Opd.Lib.Storage

/-!
# The weights and the broadcasts of the Kimi checkpoint engine

The actor ranks register the weights in turn. The buckets of the rollout ranks are then broadcast in rounds: in each
round a bucket of each receiver that has one left.

* `items_registered`: the dictionary of a rank has the weights whose number is the rank.
* `registered_partition`: the dictionaries of all ranks are a partition of the weights.
* `schedule_perm`: the rounds have every bucket once.
* `follows_commands`: a rank does these broadcasts, and its staging buffer holds what it broadcasts itself.
-/

namespace Opd.Verl.KimiEngine

open Lib

/-! ## Registering -/

section Register

variable {τ : Type}

/-- The loop of `ckpt_get_named_tensor_buckets`, from a tensor on, with the conversion to the data type of the rollout
and the size of a tensor. -/
def bucketLoop (toDtype : τ → τ) (nbytes : τ → ℕ) (bucketBytes worldSize rankId : ℕ) :
    ℕ → Dict String τ → ℕ → List (String × τ) → List (Dict String τ)
  | _, currentBucket, _, [] => if currentBucket.items = [] then [] else [currentBucket]
  | tensorIdx, currentBucket, currentSize, (name, tensor) :: rest =>
    if tensorIdx % worldSize = rankId then
      if bucketBytes < currentSize + nbytes (toDtype tensor) ∧ currentBucket.items ≠ [] then
        currentBucket :: bucketLoop toDtype nbytes bucketBytes worldSize rankId (tensorIdx + 1)
          (Dict.empty.update name fun _ => toDtype tensor) (nbytes (toDtype tensor)) rest
      else bucketLoop toDtype nbytes bucketBytes worldSize rankId (tensorIdx + 1)
        (currentBucket.update name fun _ => toDtype tensor) (currentSize + nbytes (toDtype tensor)) rest
    else bucketLoop toDtype nbytes bucketBytes worldSize rankId (tensorIdx + 1) currentBucket currentSize rest

/-- `ckpt_get_named_tensor_buckets`, which raises without room in a bucket. -/
def ckptGetNamedTensorBuckets (toDtype : τ → τ) (nbytes : τ → ℕ) (bucketBytes worldSize rankId : ℕ)
    (weights : List (String × τ)) : Option (List (Dict String τ)) :=
  if bucketBytes = 0 then none else some (bucketLoop toDtype nbytes bucketBytes worldSize rankId 0 .empty 0 weights)

/-- `named_tensors` in `send_weights`: the tensors of each bucket, in the order in which the copies end. -/
def namedTensors (completed : List (List (String × τ))) : Dict String τ :=
  Dict.empty.merge (fun _ tensor => tensor) completed.flatten

def Completed (buckets : List (Dict String τ)) (completed : List (List (String × τ))) : Prop :=
  List.Forall₂ (fun (bucket : Dict String τ) done => done.Perm bucket.items) buckets completed

def numbered (start : ℕ) (weights : List (String × τ)) : List (ℕ × String × τ) :=
  (List.range' start weights.length).zip weights

def weightsOf (toDtype : τ → τ) (worldSize rankId start : ℕ) (weights : List (String × τ)) : List (String × τ) :=
  ((numbered start weights).filter fun w => w.1 % worldSize = rankId).map fun w => (w.2.1, toDtype w.2.2)

variable {toDtype : τ → τ} {nbytes : τ → ℕ} {bucketBytes worldSize rankId : ℕ}

theorem numbered_cons (start : ℕ) (w : String × τ) (weights : List (String × τ)) :
    numbered start (w :: weights) = (start, w) :: numbered (start + 1) weights := by
  unfold numbered
  rw [List.length_cons, List.range'_succ, List.zip_cons_cons]

theorem weightsOf_cons (start : ℕ) (name : String) (tensor : τ) (weights : List (String × τ)) :
    weightsOf toDtype worldSize rankId start ((name, tensor) :: weights) =
      if start % worldSize = rankId then (name, toDtype tensor) :: weightsOf toDtype worldSize rankId (start + 1) weights
      else weightsOf toDtype worldSize rankId (start + 1) weights := by
  unfold weightsOf
  rw [numbered_cons]
  by_cases hrank : start % worldSize = rankId
  · rw [if_pos hrank, List.filter_cons, if_pos (decide_eq_true hrank), List.map_cons]
  · rw [if_neg hrank, List.filter_cons, if_neg (by simpa using hrank)]

variable {weights : List (String × τ)}

/-- **The buckets of a rank** have its weights, in their order. -/
theorem flatten_bucketLoop {start currentSize : ℕ} {currentBucket : Dict String τ}
    (h : (currentBucket.keys ++ weights.map Prod.fst).Nodup) :
    ((bucketLoop toDtype nbytes bucketBytes worldSize rankId start currentBucket currentSize weights).flatMap Dict.items) =
      currentBucket.items ++ weightsOf toDtype worldSize rankId start weights := by
  induction weights generalizing start currentBucket currentSize with
  | nil =>
    unfold bucketLoop weightsOf numbered
    by_cases hempty : currentBucket.items = []
    · rw [if_pos hempty, hempty]
      rfl
    · rw [if_neg hempty, List.flatMap_singleton]
      exact (List.append_nil _).symm
  | cons w weights ih =>
    obtain ⟨name, tensor⟩ := w
    rw [List.map_cons] at h
    have hnew : name ∉ currentBucket.keys := by
      intro hmem
      rw [List.nodup_append] at h
      exact h.2.2 _ hmem _ List.mem_cons_self rfl
    have hkeys : (currentBucket.update name fun _ => toDtype tensor).keys = currentBucket.keys ++ [name] := by
      unfold Dict.keys
      rw [Dict.items_update_of_not_mem _ hnew, List.map_append, List.map_singleton]
    have hrest : (currentBucket.keys ++ weights.map Prod.fst).Nodup :=
      h.sublist (List.Sublist.append_left (List.sublist_cons_self _ _) _)
    rw [bucketLoop, weightsOf_cons]
    by_cases hrank : start % worldSize = rankId
    · rw [if_pos hrank, if_pos hrank]
      by_cases hfull : bucketBytes < currentSize + nbytes (toDtype tensor) ∧ currentBucket.items ≠ []
      · have hsingle :
            ((Dict.empty.update name fun _ => toDtype tensor : Dict String τ).keys ++ weights.map Prod.fst).Nodup := by
          rw [List.nodup_append] at h
          exact h.2.1
        rw [if_pos hfull, List.flatMap_cons, ih hsingle]
        rfl
      · rw [if_neg hfull, ih (by rw [hkeys, List.append_assoc]; exact h), Dict.items_update_of_not_mem _ hnew,
          List.append_assoc]
        rfl
    · rw [if_neg hrank, if_neg hrank, ih hrest]

theorem map_snd_numbered (start : ℕ) (weights : List (String × τ)) : (numbered start weights).map Prod.snd = weights :=
  List.map_snd_zip (Nat.le_of_eq List.length_range'.symm)

theorem keys_weightsOf_sublist (start : ℕ) (weights : List (String × τ)) :
    ((weightsOf toDtype worldSize rankId start weights).map Prod.fst).Sublist (weights.map Prod.fst) := by
  have hsub := (List.filter_sublist (p := fun w : ℕ × String × τ => decide (w.1 % worldSize = rankId))
    (l := numbered start weights)).map fun w => w.2.1
  have hall : (numbered start weights).map (fun w => w.2.1) = weights.map Prod.fst := by
    have hmap := congrArg (List.map Prod.fst) (map_snd_numbered start weights)
    rwa [List.map_map] at hmap
  rw [hall] at hsub
  unfold weightsOf
  rw [List.map_map]
  exact hsub

/-- **The dictionary of a rank.** -/
theorem items_registered (hnodup : (weights.map Prod.fst).Nodup) {buckets : List (Dict String τ)}
    (hbuckets : ckptGetNamedTensorBuckets toDtype nbytes bucketBytes worldSize rankId weights = some buckets)
    {completed : List (List (String × τ))} (hcompleted : Completed buckets completed) :
    (namedTensors completed).items.Perm (weightsOf toDtype worldSize rankId 0 weights) := by
  unfold ckptGetNamedTensorBuckets at hbuckets
  split at hbuckets
  · cases hbuckets
  · have hloop : buckets.flatMap Dict.items = weightsOf toDtype worldSize rankId 0 weights := by
      rw [← Option.some.inj hbuckets]
      exact flatten_bucketLoop hnodup
    have hperm : completed.flatten.Perm (weightsOf toDtype worldSize rankId 0 weights) := by
      rw [← hloop, List.flatMap_def]
      clear hloop hbuckets
      induction hcompleted with
      | nil => exact List.Perm.refl _
      | cons hdone _ ih =>
        rw [List.map_cons, List.flatten_cons, List.flatten_cons]
        exact hdone.append ih
    have hkeys : (completed.flatten.map Prod.fst).Nodup :=
      (hperm.map Prod.fst).nodup_iff.2 (hnodup.sublist (keys_weightsOf_sublist 0 weights))
    have hmerge := @Dict.merge_new String τ _ τ (fun _ tensor => tensor) Dict.empty completed.flatten hkeys
    have hitems : (namedTensors completed).items = completed.flatten := by
      unfold namedTensors
      rw [hmerge]
      exact List.map_id _
    rw [hitems]
    exact hperm

/-- **The dictionaries of the actor ranks** are a partition of the weights. -/
theorem registered_partition (hnodup : (weights.map Prod.fst).Nodup) (hworld : 0 < worldSize)
    {buckets : ℕ → List (Dict String τ)} {completed : ℕ → List (List (String × τ))} (hbuckets : ∀ rank < worldSize,
      ckptGetNamedTensorBuckets toDtype nbytes bucketBytes worldSize rank weights = some (buckets rank))
    (hcompleted : ∀ rank < worldSize, Completed (buckets rank) (completed rank)) :
    ((List.range worldSize).flatMap fun rank => (namedTensors (completed rank)).items).Perm
      (weights.map fun w => (w.1, toDtype w.2)) := by
  have hranks : ((List.range worldSize).flatMap fun rank => (namedTensors (completed rank)).items).Perm
      ((List.range worldSize).flatMap fun rank => weightsOf toDtype worldSize rank 0 weights) := by
    refine List.Perm.flatMap_left _ fun rank hrank => ?_
    have hlt := List.mem_range.1 hrank
    exact items_registered hnodup (hbuckets rank hlt) (hcompleted rank hlt)
  refine hranks.trans ?_
  unfold weightsOf
  rw [← List.map_flatMap]
  have hparts := flatMap_filter_perm (f := fun w : ℕ × String × τ => w.1 % worldSize) (l := numbered 0 weights)
    fun w _ => Nat.mod_lt _ hworld
  refine (hparts.map _).trans ?_
  have hmap := congrArg (List.map fun w : String × τ => (w.1, toDtype w.2)) (map_snd_numbered 0 weights)
  rw [List.map_map] at hmap
  rw [← hmap]
  exact List.Perm.refl _

end Register

/-! ## The schedule -/

/-- `H2DBucket`: its size and the metadata of its tensors. -/
structure H2DBucket (ι : Type) where
  size : ℕ
  items : List ι

/-- What the loops of `receive_tensor` do: a bucket is copied from its owner to the staging buffer, or broadcast by its
receiver. -/
inductive Command (ι : Type)
  | copyToH2d (owner : ℕ) (bucket : H2DBucket ι)
  | broadcast (receiver : ℕ) (bucket : H2DBucket ι)

section Schedule

variable {ι : Type}

/-- `receiver_rank_buckets` -/
def receiverRankBuckets (rank : ℕ) (buckets : List (ℕ × ℕ × H2DBucket ι)) : List (ℕ × H2DBucket ι) :=
  (buckets.filter fun b => b.1 = rank).map Prod.snd

/-- `buckets_by_receiver_rank` -/
def bucketsByReceiverRank (buckets : List (ℕ × ℕ × H2DBucket ι)) : List (ℕ × List (H2DBucket ι)) :=
  enqueueAll (buckets.map fun b => (b.1, b.2.2))

/-- `max_len`, the length of the longest list of `buckets_by_receiver_rank` -/
def maxLen (buckets : List (ℕ × ℕ × H2DBucket ι)) : ℕ :=
  ((bucketsByReceiverRank buckets).map fun b => b.2.length).foldr max 0

/-- What a rank does for an index: its own bucket is copied to the staging buffer, then every receiver that has one
broadcasts its bucket. -/
def roundCommands (rank : ℕ) (buckets : List (ℕ × ℕ × H2DBucket ι)) (i : ℕ) : List (Command ι) :=
  ((receiverRankBuckets rank buckets)[i]?.map fun b => Command.copyToH2d b.1 b.2).toList ++
    (round (bucketsByReceiverRank buckets) i).map fun b => .broadcast b.1 b.2

/-- The two loops of `receive_tensor`. -/
def commands (rank : ℕ) (buckets : List (ℕ × ℕ × H2DBucket ι)) : List (Command ι) :=
  (List.range (maxLen buckets)).flatMap (roundCommands rank buckets)

/-- The broadcasts in their order, each with the owner of the bucket. -/
def schedule (buckets : List (ℕ × ℕ × H2DBucket ι)) : List (ℕ × ℕ × H2DBucket ι) :=
  (List.range (maxLen buckets)).flatMap (round (enqueueAll buckets))

variable {buckets : List (ℕ × ℕ × H2DBucket ι)} {rank : ℕ}

theorem bucketsByReceiverRank_eq (buckets : List (ℕ × ℕ × H2DBucket ι)) :
    bucketsByReceiverRank buckets = (enqueueAll buckets).map fun queue => (queue.1, queue.2.map Prod.snd) :=
  enqueueAll_map Prod.snd buckets

theorem le_foldr_max {l : List ℕ} {n : ℕ} (h : n ∈ l) : n ≤ l.foldr max 0 := by
  induction l with
  | nil => cases h
  | cons a l ih =>
    rw [List.foldr_cons]
    rcases List.mem_cons.1 h with rfl | h
    · exact Nat.le_max_left _ _
    · exact (ih h).trans (Nat.le_max_right _ _)

theorem length_le_maxLen {queue : ℕ × List (ℕ × H2DBucket ι)} (h : queue ∈ enqueueAll buckets) :
    queue.2.length ≤ maxLen buckets := by
  refine le_foldr_max (List.mem_map.2 ⟨(queue.1, queue.2.map Prod.snd), ?_, List.length_map _⟩)
  rw [bucketsByReceiverRank_eq]
  exact List.mem_map.2 ⟨queue, h, rfl⟩

/-- **The rounds have every bucket once.** -/
theorem schedule_perm (buckets : List (ℕ × ℕ × H2DBucket ι)) : (schedule buckets).Perm buckets :=
  (rounds_perm fun _ hqueue => length_le_maxLen hqueue).trans (flatten_enqueueAll buckets)

/-- Commands that do the broadcasts of a schedule: what a rank broadcasts itself is at the start of its staging
buffer. -/
inductive Follows (copied : ℕ → H2DBucket ι → List UInt8) (rank : ℕ) :
    List UInt8 → List (Command ι) → List (ℕ × ℕ × H2DBucket ι) → Prop
  | done (h2d : List UInt8) : Follows copied rank h2d [] []
  | copy {h2d : List UInt8} {owner : ℕ} {bucket : H2DBucket ι} {rest : List (Command ι)}
    {todo : List (ℕ × ℕ × H2DBucket ι)}
    (hrest : Follows copied rank (Storage.write h2d 0 (copied owner bucket)) rest todo) :
    Follows copied rank h2d (.copyToH2d owner bucket :: rest) todo
  | broadcast {h2d : List UInt8} {receiver owner : ℕ} {bucket : H2DBucket ι} {rest : List (Command ι)}
    {todo : List (ℕ × ℕ × H2DBucket ι)}
    (hstaged : receiver = rank → Storage.read h2d 0 bucket.size = copied owner bucket)
    (hrest : Follows copied rank h2d rest todo) :
    Follows copied rank h2d (.broadcast receiver bucket :: rest) ((receiver, owner, bucket) :: todo)

variable {copied : ℕ → H2DBucket ι → List UInt8}

theorem Follows.broadcasts {h2d : List UInt8} {rest : List (Command ι)} {entries todo : List (ℕ × ℕ × H2DBucket ι)}
    (hstaged : ∀ e ∈ entries, e.1 = rank → Storage.read h2d 0 e.2.2.size = copied e.2.1 e.2.2)
    (hrest : Follows copied rank h2d rest todo) :
    Follows copied rank h2d (entries.map (fun e => .broadcast e.1 e.2.2) ++ rest) (entries ++ todo) := by
  induction entries with
  | nil => exact hrest
  | cons e entries ih =>
    obtain ⟨receiver, owner, bucket⟩ := e
    have hfirst := hstaged _ List.mem_cons_self
    exact .broadcast hfirst (ih fun e he => hstaged e (List.mem_cons_of_mem _ he))

theorem mem_round_own {i : ℕ} {e : ℕ × ℕ × H2DBucket ι} (h : e ∈ round (enqueueAll buckets) i) (hown : e.1 = rank) :
    (receiverRankBuckets rank buckets)[i]? = some e.2 := by
  obtain ⟨queue, hqueue, hkey, hentry⟩ := mem_round h
  rw [mem_enqueueAll hqueue, hkey, hown] at hentry
  exact hentry

theorem follows_commands (hcopied : ∀ b ∈ buckets, (copied b.2.1 b.2.2).length = b.2.2.size) (h2d : List UInt8) :
    Follows copied rank h2d (commands rank buckets) (schedule buckets) := by
  have hrounds : ∀ (rounds : List ℕ) (h2d : List UInt8), Follows copied rank h2d
      (rounds.flatMap (roundCommands rank buckets)) (rounds.flatMap (round (enqueueAll buckets))) := by
    intro rounds
    induction rounds with
    | nil =>
      intro h2d
      exact .done h2d
    | cons i rounds ih =>
      intro h2d
      have hbroadcasts : ((round (bucketsByReceiverRank buckets) i).map fun b => Command.broadcast b.1 b.2) =
          (round (enqueueAll buckets) i).map fun e => .broadcast e.1 e.2.2 := by
        rw [bucketsByReceiverRank_eq, round_map, List.map_map]
        rfl
      rw [List.flatMap_cons, List.flatMap_cons, roundCommands, hbroadcasts, List.append_assoc]
      cases hown : (receiverRankBuckets rank buckets)[i]? with
      | none =>
        refine Follows.broadcasts (fun e he hrank => ?_) (ih h2d)
        rw [mem_round_own he hrank] at hown
        cases hown
      | some b =>
        refine .copy (Follows.broadcasts (fun e he hrank => ?_) (ih _))
        obtain rfl : e.2 = b := by
          rw [mem_round_own he hrank] at hown
          exact Option.some.inj hown
        have hmem : e ∈ buckets := by
          have hown' := List.mem_of_getElem? hown
          obtain ⟨b, hb, hsnd⟩ := List.mem_map.1 hown'
          have hfst := of_decide_eq_true (List.mem_filter.1 hb).2
          have heq : b = e := Prod.ext (hfst.trans hrank.symm) hsnd
          rw [← heq]
          exact (List.mem_filter.1 hb).1
        rw [← hcopied e hmem]
        exact Storage.read_write_self (Nat.zero_le _)
  exact hrounds _ h2d

end Schedule

end Opd.Verl.KimiEngine

import Mathlib.Algebra.Order.BigOperators.Group.Finset
import Opd.Verl.NcclEngine

/-!
# The broadcast of the weights reaches every receiver

The sequence of buckets is a function of the weights. Rank 0 is described by the number of
operations it has started, a receiver by the number of buckets it has begun to yield; what
is filled, published, sent, received and yielded is then a bucket of that sequence.

* `RootOk`, `ReceiverOk`: the invariant of rank 0 and of one receiver.
* `inv_of_reach`: the invariant of all ranks.
* `progress`: some rank can move until all are done.
* `broadcasts_iff`: every receiver yields the weights, in every run, exactly when the
  packing is aligned.
-/

namespace Opd.Verl.NcclEngine

open Lib

variable {cfg : Config} {n : ℕ} {weights : Weights} {all : List (List Placed)} {k t offset : ℕ}
  {bucketMeta : Dict String TensorMeta} {buffer payload : List UInt8} {bufs : Bool → List UInt8} {buf : Bool}
  {c : Chunk} {current : List Placed} {metadata : Metadata}

/-! ## Buckets and buffers -/

/-- The item of `bucket_meta` for a chunk. -/
def Placed.item (p : Placed) : String × TensorMeta := (p.name, p.tensorMeta)

/-- The metadata describe the bucket with index `i`. -/
def Describes (all : List (List Placed)) (i : ℕ) (metadata : Metadata) : Prop :=
  ∃ bucket, all[i]? = some bucket ∧ metadata.bucketMeta.items = bucket.map Placed.item ∧
    (metadata.isLast = true ↔ i + 1 = all.length)

def Holds (buffer : List UInt8) (bucket : List Placed) : Prop :=
  ∀ p ∈ bucket, readChunk buffer p.tensorMeta = some p.received.2

/-- The bytes are those of the bucket with index `i`. -/
def Carries (all : List (List Placed)) (i : ℕ) (payload : List UInt8) : Prop :=
  ∃ bucket, all[i]? = some bucket ∧ Holds payload bucket

/-- The bucket that is being filled: its metadata, its bytes, and where they end. -/
structure Filling (offset : ℕ) (bucketMeta : Dict String TensorMeta) (buffer : List UInt8)
    (current : List Placed) : Prop where
  items : bucketMeta.items = current.map Placed.item
  holds : Holds buffer current
  below : ∀ p ∈ current, p.start + p.chunk.tensorMeta.chunkSize ≤ offset

theorem Filling.empty (buffer : List UInt8) : Filling 0 .empty buffer [] where
  items := rfl
  holds := fun p hp => by cases hp
  below := fun p hp => by cases hp

theorem Filling.keys (h : Filling offset bucketMeta buffer current) :
    bucketMeta.keys = current.map Placed.name := by
  unfold Dict.keys
  rw [h.items, List.map_map]
  rfl

theorem Filling.place (h : Filling offset bucketMeta buffer current) (hc : c.Fits cfg)
    (hlen : buffer.length = cfg.bucketSize) (hfit : offset + c.tensorMeta.chunkSize ≤ cfg.bucketSize)
    (hnew : c.tensorMeta.name ∉ bucketMeta.keys) :
    Filling (offset + c.tensorMeta.chunkSize)
      (bucketMeta.update c.tensorMeta.name fun _ => { c.tensorMeta with offset := some offset })
      (Storage.write buffer offset c.data) (current ++ [⟨offset, c⟩]) := by
  have hoff : offset ≤ buffer.length := by omega
  refine ⟨?_, ?_, ?_⟩
  · rw [Dict.items_update_of_not_mem _ hnew, h.items, List.map_append]
    rfl
  · intro p hp
    rcases List.mem_append.1 hp with hp | hp
    -- an earlier chunk lies below the new one
    · rw [← h.holds p hp]
      have hread : Storage.read (Storage.write buffer offset c.data) p.start p.chunk.tensorMeta.chunkSize =
          Storage.read buffer p.start p.chunk.tensorMeta.chunkSize := Storage.read_write_before hoff (h.below p hp)
      exact congrArg (fun bytes => some (StorageSlice.mk p.start bytes)) hread
    · obtain rfl := List.mem_singleton.1 hp
      have hread : Storage.read (Storage.write buffer offset c.data) offset c.tensorMeta.chunkSize = c.data := by
        rw [← hc.1]
        exact Storage.read_write_self hoff
      exact congrArg (fun bytes => some (StorageSlice.mk offset bytes)) hread
  · intro p hp
    rcases List.mem_append.1 hp with hp | hp
    · have := h.below p hp
      omega
    · obtain rfl := List.mem_singleton.1 hp
      exact Nat.le_refl _

theorem lt_of_drop_ne_nil (k : ℕ) (h : all.drop k ≠ []) : k < all.length := by
  by_contra hle
  exact h (List.drop_eq_nil_of_le (by omega))

/-! ## Rank 0 -/

/-- The operation of rank 0, when `k` operations have been started and the logs have `m`
and `p` entries. -/
def OpOk (all : List (List Placed)) (bufs : Bool → List UInt8) (k m p : ℕ) : RootOp → Prop
  | .none => k = m ∧ m = p ∧ k = 0
  | .started bucket metadata => k = m + 1 ∧ m = p ∧ Describes all m metadata ∧ Carries all p (bufs bucket)
  | .published bucket => k = m ∧ m = p + 1 ∧ Carries all p (bufs bucket)
  | .sending _ => k = m ∧ m = p
  | .complete => k = m ∧ m = p

/-- `send_weights`, when it has started `k` operations: the bucket that it fills and the
chunks that are left make the other buckets, and no operation reads `send_buf`. -/
def SenderOk (cfg : Config) (all : List (List Placed)) (bufs : Bool → List UInt8) (sendBuf : Bool) (op : RootOp)
    (k : ℕ) : Sender → Prop
  | .fill offset bucketMeta chunks => ∃ current, Filling offset bucketMeta (bufs sendBuf) current ∧
      all.drop k = pack cfg offset current chunks ∧ (∀ c ∈ chunks, c.Fits cfg) ∧ op.bucket? ≠ some sendBuf
  | .place offset bucketMeta chunk chunks => ∃ current, Filling offset bucketMeta (bufs sendBuf) current ∧
      offset + chunk.tensorMeta.chunkSize ≤ cfg.bucketSize ∧
      all.drop k = pack cfg (offset + chunk.tensorMeta.chunkSize) (current ++ [⟨offset, chunk⟩]) chunks ∧
      (∀ c ∈ chunk :: chunks, c.Fits cfg) ∧ op.bucket? ≠ some sendBuf
  | .lastWait => k = all.length
  | .done => k = all.length ∧ op.bucket? = none
  | .failed => False

/-- **The invariant of rank 0.** -/
structure RootOk (cfg : Config) (all : List (List Placed)) (s : State n) : Prop where
  length : ∀ bucket, (s.bufs bucket).length = cfg.bucketSize
  metas : ∀ i metadata, s.metaLog[i]? = some metadata → Describes all i metadata
  payloads : ∀ i payload, s.payloadLog[i]? = some payload → Carries all i payload
  books : ∃ k, OpOk all s.bufs k s.metaLog.length s.payloadLog.length s.op ∧
    SenderOk cfg all s.bufs s.sendBuf s.op k s.sender

theorem OpOk.idle {m p : ℕ} {op : RootOp} (h : OpOk all bufs k m p op) (hidle : op.bucket? = none) :
    k = m ∧ m = p := by
  cases op with
  | none => exact ⟨h.1, h.2.1⟩
  | complete => exact h
  | started bucket metadata => cases hidle
  | published bucket => cases hidle
  | sending bucket => cases hidle

theorem OpOk.write {m p : ℕ} {op : RootOp} (h : OpOk all bufs k m p op) (hfree : op.bucket? ≠ some buf)
    (data : List UInt8) : OpOk all (Function.update bufs buf data) k m p op := by
  have hne : ∀ bucket, op.bucket? = some bucket → Function.update bufs buf data bucket = bufs bucket := by
    intro bucket hbucket
    refine Function.update_of_ne ?_ _ _
    rintro rfl
    exact hfree hbucket
  cases op with
  | none => exact h
  | started bucket metadata =>
    obtain ⟨hk, hm, hdescribes, hcarries⟩ := h
    refine ⟨hk, hm, hdescribes, ?_⟩
    rw [hne bucket rfl]
    exact hcarries
  | published bucket =>
    obtain ⟨hk, hm, hcarries⟩ := h
    refine ⟨hk, hm, ?_⟩
    rw [hne bucket rfl]
    exact hcarries
  | sending bucket => exact h
  | complete => exact h

variable {s s' : State n}

/-- What `send_weights` does up to its next point: it starts the operation of a full bucket
or of the last one, takes the next chunk, puts it into the bucket, fails, or ends. -/
inductive SenderEffect (cfg : Config) (s : State n) : State n → Prop
  | full (offset : ℕ) (bucketMeta : Dict String TensorMeta) (chunk : Chunk) (chunks : List Chunk)
    (hpc : s.sender = .fill offset bucketMeta (chunk :: chunks))
    (hover : offset + chunk.tensorMeta.chunkSize > cfg.bucketSize) (hidle : s.op.bucket? = none) :
    SenderEffect cfg s { s with
      sender := .place 0 .empty chunk chunks
      op := .started s.sendBuf ⟨bucketMeta, false⟩
      sendBuf := !s.sendBuf }
  | room (offset : ℕ) (bucketMeta : Dict String TensorMeta) (chunk : Chunk) (chunks : List Chunk)
    (hpc : s.sender = .fill offset bucketMeta (chunk :: chunks))
    (hover : ¬ offset + chunk.tensorMeta.chunkSize > cfg.bucketSize) :
    SenderEffect cfg s { s with sender := .place offset bucketMeta chunk chunks }
  | last (offset : ℕ) (bucketMeta : Dict String TensorMeta) (hpc : s.sender = .fill offset bucketMeta [])
    (hidle : s.op.bucket? = none) :
    SenderEffect cfg s { s with sender := .lastWait, op := .started s.sendBuf ⟨bucketMeta, true⟩ }
  | placed (offset : ℕ) (bucketMeta : Dict String TensorMeta) (chunk : Chunk) (chunks : List Chunk)
    (hpc : s.sender = .place offset bucketMeta chunk chunks) :
    SenderEffect cfg s { s with
      sender := .fill (offset + chunk.tensorMeta.chunkSize)
        (bucketMeta.update chunk.tensorMeta.name fun _ => { chunk.tensorMeta with offset := some offset }) chunks
      bufs := Function.update s.bufs s.sendBuf (Storage.write (s.bufs s.sendBuf) offset chunk.data) }
  | refused (offset : ℕ) (bucketMeta : Dict String TensorMeta) (chunk : Chunk) (chunks : List Chunk)
    (hpc : s.sender = .place offset bucketMeta chunk chunks)
    (hbad : ¬ (offset + chunk.tensorMeta.chunkSize ≤ cfg.bucketSize ∧ chunk.tensorMeta.name ∉ bucketMeta.keys)) :
    SenderEffect cfg s { s with sender := .failed }
  | ended (hpc : s.sender = .lastWait) (hidle : s.op.bucket? = none) : SenderEffect cfg s { s with sender := .done }

theorem effect_of_senderStep (hstep : senderStep cfg s = some s') : SenderEffect cfg s s' := by
  unfold senderStep at hstep
  split at hstep
  · rename_i offset bucketMeta chunk chunks hpc
    split at hstep
    · rename_i hover
      split at hstep
      · cases hstep
      · rename_i hidle
        obtain rfl := Option.some.inj hstep
        exact .full offset bucketMeta chunk chunks hpc hover (Option.not_isSome_iff_eq_none.1 hidle)
    · rename_i hover
      obtain rfl := Option.some.inj hstep
      exact .room offset bucketMeta chunk chunks hpc hover
  · rename_i offset bucketMeta hpc
    split at hstep
    · cases hstep
    · rename_i hidle
      obtain rfl := Option.some.inj hstep
      exact .last offset bucketMeta hpc (Option.not_isSome_iff_eq_none.1 hidle)
  · rename_i offset bucketMeta chunk chunks hpc
    split at hstep
    · obtain rfl := Option.some.inj hstep
      exact .placed offset bucketMeta chunk chunks hpc
    · rename_i hbad
      obtain rfl := Option.some.inj hstep
      exact .refused offset bucketMeta chunk chunks hpc hbad
  · rename_i hpc
    split at hstep
    · cases hstep
    · rename_i hidle
      obtain rfl := Option.some.inj hstep
      exact .ended hpc (Option.not_isSome_iff_eq_none.1 hidle)
  · cases hstep
  · cases hstep

theorem name_not_mem_keys {chunk : Chunk} {chunks : List Chunk} (hfilling : Filling offset bucketMeta buffer current)
    (hall : all.drop k = pack cfg (offset + chunk.tensorMeta.chunkSize) (current ++ [⟨offset, chunk⟩]) chunks)
    (hnodup : ∀ bucket ∈ all, (bucket.map Placed.name).Nodup) : chunk.tensorMeta.name ∉ bucketMeta.keys := by
  -- the bucket that is being filled is one of the sequence
  obtain ⟨more, buckets, hhead⟩ :=
    pack_head cfg (offset + chunk.tensorMeta.chunkSize) (current ++ [⟨offset, chunk⟩]) chunks
  have hmem : current ++ [⟨offset, chunk⟩] ++ more ∈ all := by
    rw [hhead] at hall
    exact List.mem_of_getElem? (getElem?_of_drop_cons hall).1
  have hbucket := hnodup _ hmem
  rw [List.map_append, List.map_append] at hbucket
  rw [hfilling.keys]
  intro hold
  have hpair := (List.nodup_append.1 (List.nodup_append.1 hbucket).1).2.2
  exact hpair _ hold _ List.mem_cons_self rfl

theorem RootOk.senderStep (h : RootOk cfg all s) (hnodup : ∀ bucket ∈ all, (bucket.map Placed.name).Nodup)
    (hstep : senderStep cfg s = some s') : RootOk cfg all s' := by
  obtain ⟨hlength, hmetas, hpayloads, k, hop, hsender⟩ := h
  cases effect_of_senderStep hstep with
  | full offset bucketMeta chunk chunks hpc hover hidle =>
    rw [hpc] at hsender
    obtain ⟨current, hfilling, hall, hfits, hfree⟩ := hsender
    obtain ⟨hk, hm⟩ := hop.idle hidle
    rw [pack, if_pos hover] at hall
    obtain ⟨hget, hrest⟩ := getElem?_of_drop_cons hall
    have hmore := lt_of_drop_ne_nil (k + 1) (by rw [hrest]; exact pack_ne_nil)
    -- the full bucket is the one with index `k`, and it is not the last
    refine ⟨hlength, hmetas, hpayloads, k + 1, ⟨by rw [← hk], hm, ?_, ?_⟩, [], Filling.empty _, ?_, ?_, hfits, ?_⟩
    · refine ⟨current, by rw [← hk]; exact hget, hfilling.items, iff_of_false Bool.false_ne_true ?_⟩
      rw [← hk]
      omega
    · exact ⟨current, by rw [← hm, ← hk]; exact hget, hfilling.holds⟩
    · rw [Nat.zero_add]
      exact (hfits chunk List.mem_cons_self).2
    · rw [Nat.zero_add]
      exact hrest
    · intro heq
      exact Bool.not_ne_self s.sendBuf (Option.some.inj heq).symm
  | room offset bucketMeta chunk chunks hpc hover =>
    rw [hpc] at hsender
    obtain ⟨current, hfilling, hall, hfits, hfree⟩ := hsender
    rw [pack, if_neg hover] at hall
    exact ⟨hlength, hmetas, hpayloads, k, hop, current, hfilling, Nat.le_of_not_lt hover, hall, hfits, hfree⟩
  | last offset bucketMeta hpc hidle =>
    rw [hpc] at hsender
    obtain ⟨current, hfilling, hall, hfits, hfree⟩ := hsender
    obtain ⟨hk, hm⟩ := hop.idle hidle
    obtain ⟨hget, hrest⟩ := getElem?_of_drop_cons hall
    have hlast : k + 1 = all.length := by
      have hlt := lt_of_drop_ne_nil k (by rw [hall]; exact pack_ne_nil)
      have hle := List.drop_eq_nil_iff.1 hrest
      omega
    refine ⟨hlength, hmetas, hpayloads, k + 1, ⟨by rw [← hk], hm, ?_, ?_⟩, hlast⟩
    · exact ⟨current, by rw [← hk]; exact hget, hfilling.items, iff_of_true rfl (by rw [← hk]; exact hlast)⟩
    · exact ⟨current, by rw [← hm, ← hk]; exact hget, hfilling.holds⟩
  | placed offset bucketMeta chunk chunks hpc =>
    rw [hpc] at hsender
    obtain ⟨current, hfilling, hfit, hall, hfits, hfree⟩ := hsender
    have hchunk := hfits chunk List.mem_cons_self
    refine ⟨?_, hmetas, hpayloads, k, hop.write hfree _, current ++ [⟨offset, chunk⟩], ?_, hall, ?_, hfree⟩
    · intro bucket
      show (Function.update s.bufs s.sendBuf _ bucket).length = cfg.bucketSize
      by_cases hb : bucket = s.sendBuf
      · rw [hb, Function.update_self, Storage.length_write (by rw [hlength, hchunk.1]; exact hfit)]
        exact hlength s.sendBuf
      · rw [Function.update_of_ne hb]
        exact hlength bucket
    · show Filling _ _ (Function.update s.bufs s.sendBuf _ s.sendBuf) _
      rw [Function.update_self]
      exact hfilling.place hchunk (hlength s.sendBuf) hfit (name_not_mem_keys hfilling hall hnodup)
    · exact fun c hc => hfits c (List.mem_cons_of_mem _ hc)
  | refused offset bucketMeta chunk chunks hpc hbad =>
    rw [hpc] at hsender
    obtain ⟨current, hfilling, hfit, hall, -⟩ := hsender
    exact absurd ⟨hfit, name_not_mem_keys hfilling hall hnodup⟩ hbad
  | ended hpc hidle =>
    rw [hpc] at hsender
    exact ⟨hlength, hmetas, hpayloads, k, hop, hsender, hidle⟩

theorem forall_getElem?_concat {α : Type*} {log : List α} {x : α} {P : ℕ → α → Prop}
    (h : ∀ i y, log[i]? = some y → P i y) (hx : P log.length x) : ∀ i y, (log ++ [x])[i]? = some y → P i y := by
  intro i y hi
  by_cases hlt : i < log.length
  · rw [List.getElem?_append_left hlt] at hi
    exact h i y hi
  · rw [List.getElem?_append_right (by omega)] at hi
    obtain ⟨hsub, rfl⟩ := List.getElem?_eq_some_iff.1 hi
    simp only [List.length_singleton] at hsub
    obtain rfl : i = log.length := by omega
    simpa using hx

theorem SenderOk.congr {sender : Sender} {sendBuf : Bool} {op op' : RootOp}
    (h : SenderOk cfg all bufs sendBuf op k sender)
    (hbucket : ∀ bucket, op'.bucket? = some bucket → op.bucket? = some bucket) :
    SenderOk cfg all bufs sendBuf op' k sender := by
  cases sender with
  | fill offset bucketMeta chunks =>
    obtain ⟨current, hfilling, hall, hfits, hfree⟩ := h
    exact ⟨current, hfilling, hall, hfits, fun heq => hfree (hbucket _ heq)⟩
  | place offset bucketMeta chunk chunks =>
    obtain ⟨current, hfilling, hfit, hall, hfits, hfree⟩ := h
    exact ⟨current, hfilling, hfit, hall, hfits, fun heq => hfree (hbucket _ heq)⟩
  | lastWait => exact h
  | done =>
    obtain ⟨hk, hidle⟩ := h
    refine ⟨hk, ?_⟩
    rw [Option.eq_none_iff_forall_ne_some]
    intro bucket heq
    rw [hbucket bucket heq] at hidle
    cases hidle
  | failed => exact h

theorem RootOk.broadcastStep (h : RootOk cfg all s) (hstep : broadcastStep cfg s = some s') : RootOk cfg all s' := by
  obtain ⟨sender, bufs, sendBuf, op, metaLog, payloadLog, receivers⟩ := s
  obtain ⟨hlength, hmetas, hpayloads, k, hop, hsender⟩ := h
  cases op with
  | none => cases hstep
  | started bucket metadata =>
    obtain rfl := Option.some.inj hstep
    -- the metadata of the bucket are published
    obtain ⟨hk, hm, hdescribes, hcarries⟩ := hop
    refine ⟨hlength, forall_getElem?_concat hmetas hdescribes, hpayloads, k, ⟨?_, ?_, hcarries⟩,
      hsender.congr fun _ heq => heq⟩
    · rw [List.length_append]
      exact hk
    · rw [List.length_append, hm]
      rfl
  | published bucket =>
    obtain rfl := Option.some.inj hstep
    -- then its bytes are sent
    obtain ⟨hk, hm, hcarries⟩ := hop
    refine ⟨hlength, hmetas, forall_getElem?_concat hpayloads hcarries, k, ⟨hk, ?_⟩, hsender.congr fun _ heq => heq⟩
    rw [List.length_append]
    exact hm
  | sending bucket =>
    simp only [NcclEngine.broadcastStep] at hstep
    -- and the operation ends when all ranks have them
    split at hstep
    · obtain rfl := Option.some.inj hstep
      exact ⟨hlength, hmetas, hpayloads, k, hop, hsender.congr fun _ heq => by cases heq⟩
    · cases hstep
  | complete => cases hstep

/-! ## The receivers -/

/-- The operation that receives the bucket with index `t` into `recv_buf`, when `received`
metadata and `rounds` broadcasts have been received. -/
inductive OpAt (all : List (List Placed)) (t : ℕ) (bufs : Bool → List UInt8) (recvBuf : Bool) :
    ReceiverOp → ℕ → ℕ → Prop
  | started : OpAt all t bufs recvBuf (.started recvBuf) t t
  | gotMeta (metadata : Metadata) (h : Describes all t metadata) :
    OpAt all t bufs recvBuf (.gotMeta recvBuf metadata) (t + 1) t
  | complete (metadata : Metadata) (h : Describes all t metadata) (hcarries : Carries all t (bufs recvBuf)) :
    OpAt all t bufs recvBuf (.complete metadata) (t + 1) (t + 1)

/-- The operation behind the bucket that is yielded, which is none behind the last one. -/
inductive NextOp (all : List (List Placed)) (t : ℕ) (bufs : Bool → List UInt8) (recvBuf : Bool) :
    Bool → ReceiverOp → ℕ → ℕ → Prop
  | more {op : ReceiverOp} {received rounds : ℕ} (ht : t < all.length)
    (h : OpAt all t bufs recvBuf op received rounds) : NextOp all t bufs recvBuf false op received rounds
  | last (ht : t = all.length) : NextOp all t bufs recvBuf true .none t t

/-- What `merge_weight_chunks` has made of the chunks. -/
def Merged (cfg : Config) (chunks : List Placed) (merge : Option Merge) (yielded : Weights) : Prop :=
  mergeWeightChunks cfg (chunks.map Placed.received) = some (merge, yielded)

/-- **The invariant of a receiver** that has begun to yield `t` buckets. -/
inductive ReceiverOk (cfg : Config) (all : List (List Placed)) : Receiver → Prop
  | init (bufs : Bool → List UInt8) (recvBuf : Bool) :
    ReceiverOk cfg all ⟨.init, bufs, recvBuf, .none, 0, 0, none, []⟩
  | waiting (t : ℕ) (bufs : Bool → List UInt8) (recvBuf : Bool) (op : ReceiverOp) (received rounds : ℕ)
    (merge : Option Merge) (yielded : Weights) (ht : t < all.length)
    (hop : OpAt all t bufs recvBuf op received rounds) (hmerged : Merged cfg (all.take t).flatten merge yielded) :
    ReceiverOk cfg all ⟨.waiting, bufs, recvBuf, op, received, rounds, merge, yielded⟩
  | yielding (t : ℕ) (bufs : Bool → List UInt8) (recvBuf : Bool) (op : ReceiverOp) (received rounds : ℕ)
    (merge : Option Merge) (yielded : Weights) (isLast : Bool) (taken todo : List Placed)
    (hnext : NextOp all t bufs recvBuf isLast op received rounds) (hsplit : (all.take t).flatten = taken ++ todo)
    (hholds : Holds (bufs (!recvBuf)) todo) (hmerged : Merged cfg taken merge yielded) :
    ReceiverOk cfg all
      ⟨.yielding (todo.map Placed.item) isLast, bufs, recvBuf, op, received, rounds, merge, yielded⟩
  | done (bufs : Bool → List UInt8) (recvBuf : Bool) (merge : Option Merge) (yielded : Weights)
    (hmerged : Merged cfg all.flatten merge yielded) :
    ReceiverOk cfg all ⟨.done, bufs, recvBuf, .none, all.length, all.length, merge, yielded⟩
  | failed (r : Receiver) (hpc : r.pc = .failed)
    (hraises : mergeWeightChunks cfg (all.flatten.map Placed.received) = none) : ReceiverOk cfg all r

variable {r r' : Receiver} {merge : Option Merge} {yielded : Weights} {taken : List Placed}

theorem merged_nil : Merged cfg [] none [] := rfl

theorem mergeWeightChunks_concat (h : Merged cfg taken merge yielded) (p : Placed) (rest : List Placed) :
    mergeWeightChunks cfg ((taken ++ p :: rest).map Placed.received) =
      (mergeNext cfg (merge, yielded) p.received).bind fun out => (rest.map Placed.received).foldlM (mergeNext cfg) out := by
  unfold Merged mergeWeightChunks at h
  rw [mergeWeightChunks, List.map_append, List.foldlM_append, h, Option.bind_eq_bind, Option.bind_some, List.map_cons,
    List.foldlM_cons, Option.bind_eq_bind]

variable {metaLog : List Metadata} {payloadLog : List (List UInt8)}

/-- **A step of the thread of a receiver** that has an operation. -/
theorem OpAt.threadStep {op : ReceiverOp} {received rounds : ℕ} {pc : ReceiverPc}
    (h : OpAt all t bufs buf op received rounds)
    (hmetas : ∀ i metadata, metaLog[i]? = some metadata → Describes all i metadata)
    (hpayloads : ∀ i payload, payloadLog[i]? = some payload → Carries all i payload)
    (hstep : threadStep metaLog payloadLog ⟨pc, bufs, buf, op, received, rounds, merge, yielded⟩ = some r') :
    ∃ bufs' op' received' rounds', r' = ⟨pc, bufs', buf, op', received', rounds', merge, yielded⟩ ∧
      OpAt all t bufs' buf op' received' rounds' ∧ bufs' (!buf) = bufs (!buf) := by
  cases h with
  | started =>
    obtain ⟨metadata, hget, rfl⟩ := Option.map_eq_some_iff.1 hstep
    exact ⟨_, _, _, _, rfl, .gotMeta metadata (hmetas _ _ hget), rfl⟩
  | gotMeta metadata hdescribes =>
    obtain ⟨payload, hget, rfl⟩ := Option.map_eq_some_iff.1 hstep
    refine ⟨_, _, _, _, rfl, .complete metadata hdescribes ?_, ?_⟩
    · rw [Function.update_self]
      exact hpayloads _ _ hget
    · exact Function.update_of_ne (Bool.not_ne_self buf) _ _
  | complete metadata hdescribes hcarries => cases hstep

theorem ReceiverOk.threadStep (h : ReceiverOk cfg all r)
    (hmetas : ∀ i metadata, metaLog[i]? = some metadata → Describes all i metadata)
    (hpayloads : ∀ i payload, payloadLog[i]? = some payload → Carries all i payload)
    (hstep : threadStep metaLog payloadLog r = some r') : ReceiverOk cfg all r' := by
  cases h with
  | init bufs recvBuf => cases hstep
  | waiting t bufs recvBuf op received rounds merge yielded ht hop hmerged =>
    obtain ⟨bufs', op', received', rounds', rfl, hop', -⟩ := hop.threadStep hmetas hpayloads hstep
    exact .waiting t bufs' recvBuf op' received' rounds' merge yielded ht hop' hmerged
  | yielding t bufs recvBuf op received rounds merge yielded isLast taken todo hnext hsplit hholds hmerged =>
    cases hnext with
    | more ht hop =>
      -- the operation fills the other buffer, while chunks are yielded from this one
      obtain ⟨bufs', op', received', rounds', rfl, hop', hother⟩ := hop.threadStep hmetas hpayloads hstep
      refine .yielding t bufs' recvBuf op' received' rounds' merge yielded false taken todo (.more ht hop') hsplit ?_ hmerged
      rw [hother]
      exact hholds
    | last ht => cases hstep
  | done bufs recvBuf merge yielded hmerged => cases hstep
  | failed r hpc hraises =>
    refine .failed r' ?_ hraises
    unfold NcclEngine.threadStep at hstep
    split at hstep
    · obtain ⟨metadata, -, rfl⟩ := Option.map_eq_some_iff.1 hstep
      exact hpc
    · obtain ⟨payload, -, rfl⟩ := Option.map_eq_some_iff.1 hstep
      exact hpc
    · cases hstep
    · cases hstep

theorem flatten_take_succ {bucket : List Placed} (h : all[t]? = some bucket) :
    (all.take (t + 1)).flatten = (all.take t).flatten ++ bucket := by
  rw [List.take_add_one, h, List.flatten_append]
  simp

theorem ReceiverOk.receiverStep (hne : all ≠ []) (h : ReceiverOk cfg all r) (hstep : receiverStep cfg r = some r') :
    ReceiverOk cfg all r' := by
  cases h with
  | init bufs recvBuf =>
    obtain rfl := Option.some.inj hstep
    exact .waiting 0 bufs recvBuf _ 0 0 none [] (List.length_pos_iff.2 hne) .started merged_nil
  | waiting t bufs recvBuf op received rounds merge yielded ht hop hmerged =>
    cases hop with
    | started => cases hstep
    | gotMeta metadata hdescribes => cases hstep
    | complete metadata hdescribes hcarries =>
      obtain rfl := Option.some.inj hstep
      obtain ⟨bucket, hget, hitems, hlast⟩ := hdescribes
      obtain ⟨bucket', hget', hholds⟩ := hcarries
      obtain rfl : bucket = bucket' := Option.some.inj (hget.symm.trans hget')
      -- the next operation gets the buffer that is free now
      have hnext : NextOp all (t + 1) bufs (!recvBuf) metadata.isLast
          (if metadata.isLast then .none else .started (!recvBuf)) (t + 1) (t + 1) := by
        cases hm : metadata.isLast with
        | true => exact .last (hlast.1 hm)
        | false =>
          have : t + 1 ≠ all.length := fun heq => by rw [hlast.2 heq] at hm; cases hm
          exact .more (by omega) .started
      have hok := ReceiverOk.yielding (t + 1) bufs (!recvBuf) _ _ _ merge yielded metadata.isLast _ bucket hnext
        (flatten_take_succ hget) (by rw [Bool.not_not]; exact hholds) hmerged
      rw [← hitems] at hok
      exact hok
  | yielding t bufs recvBuf op received rounds merge yielded isLast taken todo hnext hsplit hholds hmerged =>
    cases todo with
    | nil =>
      obtain rfl := Option.some.inj hstep
      -- all chunks of the bucket are merged
      rw [List.append_nil] at hsplit
      rw [← hsplit] at hmerged
      cases hnext with
      | more ht hop => exact .waiting t bufs recvBuf op received rounds merge yielded ht hop hmerged
      | last ht =>
        subst ht
        rw [List.take_length] at hmerged
        exact .done bufs recvBuf merge yielded hmerged
    | cons p todo =>
      obtain ⟨hp, hrest⟩ := List.forall_mem_cons.1 hholds
      have hread : readChunk (bufs (!recvBuf)) p.item.2 = some p.received.2 := hp
      -- one more chunk is merged
      have hconcat := mergeWeightChunks_concat hmerged p
      simp only [NcclEngine.receiverStep, List.map_cons] at hstep
      rw [hread, Option.bind_some] at hstep
      cases hout : mergeNext cfg (merge, yielded) p.received with
      | some out =>
        rw [show mergeNext cfg (merge, yielded) (p.item.2, p.received.2) = some out from hout] at hstep
        obtain rfl := Option.some.inj hstep
        refine .yielding t bufs recvBuf op received rounds out.1 out.2 isLast (taken ++ [p]) todo hnext ?_ hrest ?_
        · rw [hsplit, List.append_assoc, List.singleton_append]
        · rw [Merged, hconcat, hout]
          rfl
      | none =>
        rw [show mergeNext cfg (merge, yielded) (p.item.2, p.received.2) = none from hout] at hstep
        obtain rfl := Option.some.inj hstep
        -- what raises here raises on the whole list
        refine .failed _ rfl ?_
        rw [← List.take_append_drop t all, List.flatten_append, hsplit, List.append_assoc, List.cons_append, hconcat, hout]
        rfl
  | done bufs recvBuf merge yielded hmerged => cases hstep
  | failed r hpc hraises =>
    unfold NcclEngine.receiverStep at hstep
    rw [hpc] at hstep
    cases hstep

/-! ## All ranks -/

/-- **The invariant of all ranks.** -/
structure Inv (cfg : Config) (all : List (List Placed)) (s : State n) : Prop where
  root : RootOk cfg all s
  receivers : ∀ q, ReceiverOk cfg all (s.receivers q)

theorem receivers_senderStep (hstep : senderStep cfg s = some s') : s'.receivers = s.receivers := by
  cases effect_of_senderStep hstep <;> rfl

theorem frame_broadcastStep (hstep : broadcastStep cfg s = some s') :
    s'.receivers = s.receivers ∧ s'.bufs = s.bufs ∧ s'.sender = s.sender := by
  unfold broadcastStep at hstep
  split at hstep
  · obtain rfl := Option.some.inj hstep
    exact ⟨rfl, rfl, rfl⟩
  · obtain rfl := Option.some.inj hstep
    exact ⟨rfl, rfl, rfl⟩
  · split at hstep
    · obtain rfl := Option.some.inj hstep
      exact ⟨rfl, rfl, rfl⟩
    · cases hstep
  · cases hstep
  · cases hstep

theorem Inv.update (h : Inv cfg all s) (q : Fin (n + 1)) (hr : ReceiverOk cfg all r) :
    Inv cfg all { s with receivers := Function.update s.receivers q r } := by
  refine ⟨⟨h.root.length, h.root.metas, h.root.payloads, h.root.books⟩, fun i => ?_⟩
  show ReceiverOk cfg all (Function.update s.receivers q r i)
  by_cases hi : i = q
  · subst hi
    rw [Function.update_self]
    exact hr
  · rw [Function.update_of_ne hi]
    exact h.receivers i

theorem Inv.step (h : Inv cfg all s) (hne : all ≠ []) (hnodup : ∀ bucket ∈ all, (bucket.map Placed.name).Nodup)
    {a : Process n} (hstep : step cfg s a = some s') : Inv cfg all s' := by
  cases a with
  | sender =>
    refine ⟨h.root.senderStep hnodup hstep, ?_⟩
    rw [receivers_senderStep hstep]
    exact h.receivers
  | broadcast =>
    refine ⟨h.root.broadcastStep hstep, ?_⟩
    rw [(frame_broadcastStep hstep).1]
    exact h.receivers
  | receiver q =>
    obtain ⟨next, hnext, rfl⟩ := Option.map_eq_some_iff.1 hstep
    exact h.update q ((h.receivers q).receiverStep hne hnext)
  | thread q =>
    obtain ⟨next, hnext, rfl⟩ := Option.map_eq_some_iff.1 hstep
    exact h.update q ((h.receivers q).threadStep h.root.metas h.root.payloads hnext)

def buckets (cfg : Config) (weights : Weights) : List (List Placed) := pack cfg 0 [] (splitWeightChunks cfg weights)

theorem inv_init (n : ℕ) (weights : Weights) : Inv cfg (buckets cfg weights) (initState cfg n weights) := by
  refine ⟨⟨fun _ => List.length_replicate, fun i metadata hi => ?_, fun i payload hi => ?_, 0, ⟨rfl, rfl, rfl⟩, [],
    Filling.empty _, rfl, fun c hc => fits_of_mem_splitWeightChunks hc, fun h => ?_⟩, fun q => .init _ _⟩
  · cases hi
  · cases hi
  · cases h

/-- **In every reachable state** the ranks are at buckets of one sequence. -/
theorem inv_of_reach (hnames : (weights.map Prod.fst).Nodup) (h : (transfer cfg n weights).Reach s) :
    Inv cfg (buckets cfg weights) s := by
  refine System.Reach.induct (fun s hs => ?_) (fun s a s' _ ih hstep => ?_) h
  · obtain rfl : s = initState cfg n weights := hs
    exact inv_init n weights
  · exact ih.step pack_ne_nil (nodup_pack hnames) hstep

/-! ## Termination -/

def Sender.work : Sender → ℕ
  | .fill _ _ chunks => 8 * chunks.length + 6
  | .place _ _ _ chunks => 8 * chunks.length + 8
  | .lastWait => 1
  | .done => 0
  | .failed => 0

def RootOp.work : RootOp → ℕ
  | .started _ _ => 3
  | .published _ => 2
  | .sending _ => 1
  | .none | .complete => 0

def ReceiverPc.work : ReceiverPc → ℕ
  | .init => 4
  | .yielding items _ => items.length + 1
  | .waiting | .done | .failed => 0

def ReceiverOp.work : ReceiverOp → ℕ
  | .started _ => 2
  | .gotMeta _ _ => 1
  | .none | .complete _ => 0

def Receiver.begun (r : Receiver) : ℕ :=
  match r.op with
  | .complete _ => r.rounds - 1
  | _ => r.rounds

/-- The buckets and the chunks that a receiver has not begun, and its work on the current
bucket and operation. -/
def Receiver.work (all : List (List Placed)) (r : Receiver) : ℕ :=
  8 * (all.length - r.begun) + (all.drop r.begun).flatten.length + r.pc.work + r.op.work

def State.work (all : List (List Placed)) (s : State n) : ℕ :=
  s.sender.work + s.op.work + ∑ q, (s.receivers q).work all

theorem work_senderStep (hstep : senderStep cfg s = some s') :
    s'.sender.work + s'.op.work < s.sender.work + s.op.work := by
  cases effect_of_senderStep hstep with
  | full offset bucketMeta chunk chunks hpc =>
    simp only [hpc, Sender.work, RootOp.work, List.length_cons]
    omega
  | room offset bucketMeta chunk chunks hpc =>
    simp only [hpc, Sender.work, List.length_cons]
    omega
  | last offset bucketMeta hpc =>
    simp only [hpc, Sender.work, RootOp.work, List.length_nil]
    omega
  | placed offset bucketMeta chunk chunks hpc =>
    simp only [hpc, Sender.work]
    omega
  | refused offset bucketMeta chunk chunks hpc =>
    simp only [hpc, Sender.work]
    omega
  | ended hpc =>
    simp only [hpc, Sender.work]
    omega

theorem work_broadcastStep (hstep : broadcastStep cfg s = some s') : s'.op.work < s.op.work := by
  unfold broadcastStep at hstep
  split at hstep
  · rename_i hop
    obtain rfl := Option.some.inj hstep
    rw [hop]
    exact Nat.lt_succ_self 2
  · rename_i hop
    obtain rfl := Option.some.inj hstep
    rw [hop]
    exact Nat.lt_succ_self 1
  · rename_i hop
    split at hstep
    · obtain rfl := Option.some.inj hstep
      rw [hop]
      exact Nat.lt_succ_self 0
    · cases hstep
  · cases hstep
  · cases hstep

theorem work_threadStep (all : List (List Placed)) (hstep : threadStep metaLog payloadLog r = some r') :
    r'.work all < r.work all := by
  obtain ⟨pc, bufs, recvBuf, op, received, rounds, merge, yielded⟩ := r
  cases op with
  | none => cases hstep
  | started bucket =>
    obtain ⟨metadata, -, rfl⟩ := Option.map_eq_some_iff.1 hstep
    exact Nat.lt_succ_self _
  | gotMeta bucket metadata =>
    obtain ⟨payload, -, rfl⟩ := Option.map_eq_some_iff.1 hstep
    exact Nat.lt_succ_self _
  | complete metadata => cases hstep

theorem work_receiverStep (h : ReceiverOk cfg all r) (hstep : receiverStep cfg r = some r') :
    r'.work all < r.work all := by
  cases h with
  | init bufs recvBuf =>
    obtain rfl := Option.some.inj hstep
    simp only [Receiver.work, Receiver.begun, ReceiverPc.work, ReceiverOp.work]
    omega
  | waiting t bufs recvBuf op received rounds merge yielded ht hop hmerged =>
    cases hop with
    | started => cases hstep
    | gotMeta metadata hdescribes => cases hstep
    | complete metadata hdescribes hcarries =>
      obtain rfl := Option.some.inj hstep
      obtain ⟨bucket, hget, hitems, -⟩ := hdescribes
      -- the work on the bucket is taken from that on all later buckets
      have hdrop : (all.drop t).flatten.length = bucket.length + (all.drop (t + 1)).flatten.length := by
        obtain ⟨hlt, rfl⟩ := List.getElem?_eq_some_iff.1 hget
        rw [List.drop_eq_getElem_cons hlt, List.flatten_cons, List.length_append]
      simp only [Receiver.work, ReceiverPc.work, hitems, List.length_map]
      cases metadata.isLast
      · simp only [Receiver.begun, ReceiverOp.work, Nat.add_sub_cancel, hdrop, Bool.false_eq_true, if_false]
        omega
      · simp only [Receiver.begun, ReceiverOp.work, Nat.add_sub_cancel, hdrop, if_true]
        omega
  | yielding t bufs recvBuf op received rounds merge yielded isLast taken todo hnext hsplit hholds hmerged =>
    cases todo with
    | nil =>
      obtain rfl := Option.some.inj hstep
      simp only [Receiver.work, Receiver.begun, ReceiverPc.work, List.map_nil, List.length_nil]
      cases isLast <;> simp only [Bool.false_eq_true, if_false, if_true] <;> omega
    | cons p todo =>
      simp only [receiverStep, List.map_cons] at hstep
      split at hstep
      · obtain rfl := Option.some.inj hstep
        simp only [Receiver.work, Receiver.begun, ReceiverPc.work, List.map_cons, List.length_cons]
        omega
      · obtain rfl := Option.some.inj hstep
        simp only [Receiver.work, Receiver.begun, ReceiverPc.work, List.map_cons, List.length_cons]
        omega
  | done bufs recvBuf merge yielded hmerged => cases hstep
  | failed r hpc hraises =>
    unfold receiverStep at hstep
    rw [hpc] at hstep
    cases hstep

/-- **Every step is progress.** -/
theorem work_step (h : Inv cfg all s) {a : Process n} (hstep : step cfg s a = some s') :
    s'.work all < s.work all := by
  unfold State.work
  cases a with
  | sender =>
    have := work_senderStep hstep
    rw [receivers_senderStep hstep]
    omega
  | broadcast =>
    have := work_broadcastStep hstep
    obtain ⟨hreceivers, -, hsender⟩ := frame_broadcastStep hstep
    rw [hreceivers, hsender]
    omega
  | receiver q =>
    obtain ⟨next, hnext, rfl⟩ := Option.map_eq_some_iff.1 hstep
    have := System.sum_update_lt (fun _ => Receiver.work all) (work_receiverStep (h.receivers q) hnext)
    simp only
    omega
  | thread q =>
    obtain ⟨next, hnext, rfl⟩ := Option.map_eq_some_iff.1 hstep
    have := System.sum_update_lt (fun _ => Receiver.work all) (work_threadStep all hnext)
    simp only
    omega

/-! ## Progress -/

theorem OpOk.le {m p : ℕ} {op : RootOp} (h : OpOk all bufs k m p op) : p ≤ m ∧ m ≤ k := by
  cases op with
  | none =>
    obtain ⟨hk, hm, -⟩ := h
    omega
  | started bucket metadata =>
    obtain ⟨hk, hm, -⟩ := h
    omega
  | published bucket =>
    obtain ⟨hk, hm, -⟩ := h
    omega
  | sending bucket =>
    obtain ⟨hk, hm⟩ := h
    omega
  | complete =>
    obtain ⟨hk, hm⟩ := h
    omega

theorem SenderOk.le {sender : Sender} {sendBuf : Bool} {op : RootOp} (h : SenderOk cfg all bufs sendBuf op k sender) :
    k ≤ all.length := by
  cases sender with
  | fill offset bucketMeta chunks =>
    obtain ⟨current, -, hall, -⟩ := h
    exact Nat.le_of_lt (lt_of_drop_ne_nil k (by rw [hall]; exact pack_ne_nil))
  | place offset bucketMeta chunk chunks =>
    obtain ⟨current, -, -, hall, -⟩ := h
    exact Nat.le_of_lt (lt_of_drop_ne_nil k (by rw [hall]; exact pack_ne_nil))
  | lastWait => exact Nat.le_of_eq h
  | done => exact Nat.le_of_eq h.1
  | failed => cases h

theorem ReceiverOk.of_done (h : ReceiverOk cfg all r) (hpc : r.pc = .done) :
    r.rounds = all.length ∧ Merged cfg all.flatten r.merge r.yielded := by
  cases h with
  | done bufs recvBuf merge yielded hmerged => exact ⟨rfl, hmerged⟩
  | failed r hfailed hraises =>
    rw [hfailed] at hpc
    cases hpc
  | init | waiting | yielding => cases hpc

theorem ReceiverOk.of_failed (h : ReceiverOk cfg all r) (hpc : r.pc = .failed) :
    mergeWeightChunks cfg (all.flatten.map Placed.received) = none := by
  cases h with
  | failed r hfailed hraises => exact hraises
  | init | waiting | yielding | done => cases hpc

/-- A receiver whose next broadcast has been sent, or to which all have been sent, can move
until it is done or has failed. -/
theorem ReceiverOk.progress (h : ReceiverOk cfg all r) (hdone : r.pc ≠ .done) (hfailed : r.pc ≠ .failed)
    (hle : payloadLog.length ≤ metaLog.length)
    (hsent : r.rounds < payloadLog.length ∨ payloadLog.length = all.length) :
    (∃ r', NcclEngine.receiverStep cfg r = some r') ∨ ∃ r', NcclEngine.threadStep metaLog payloadLog r = some r' := by
  cases h with
  | init bufs recvBuf => exact .inl ⟨_, rfl⟩
  | waiting t bufs recvBuf op received rounds merge yielded ht hop hmerged =>
    cases hop with
    | started =>
      -- the metadata are published before the bytes
      have hlt : t < metaLog.length := by
        rcases hsent with hsent | hsent
        · exact Nat.lt_of_lt_of_le hsent hle
        · omega
      exact .inr ⟨_, by rw [NcclEngine.threadStep, List.getElem?_eq_getElem hlt]; rfl⟩
    | gotMeta metadata hdescribes =>
      have hlt : t < payloadLog.length := by
        rcases hsent with hsent | hsent
        · exact hsent
        · omega
      exact .inr ⟨_, by rw [NcclEngine.threadStep, List.getElem?_eq_getElem hlt]; rfl⟩
    | complete metadata hdescribes hcarries => exact .inl ⟨_, rfl⟩
  | yielding t bufs recvBuf op received rounds merge yielded isLast taken todo hnext hsplit hholds hmerged =>
    refine .inl (Option.isSome_iff_exists.1 ?_)
    cases todo with
    | nil => rfl
    | cons p todo =>
      simp only [NcclEngine.receiverStep, List.map_cons]
      split <;> rfl
  | done bufs recvBuf merge yielded hmerged => exact absurd rfl hdone
  | failed r hpc hraises => exact absurd hpc hfailed

theorem receiver_progress (h : Inv cfg all s)
    (hmerge : mergeWeightChunks cfg (all.flatten.map Placed.received) = some (none, weights))
    (hle : s.payloadLog.length ≤ s.metaLog.length) {q : Fin (n + 1)} (hdone : (s.receivers q).pc ≠ .done)
    (hsent : (s.receivers q).rounds < s.payloadLog.length ∨ s.payloadLog.length = all.length) :
    ∃ a s', step cfg s a = some s' := by
  have hfailed : (s.receivers q).pc ≠ .failed := by
    intro hpc
    rw [(h.receivers q).of_failed hpc] at hmerge
    cases hmerge
  rcases (h.receivers q).progress hdone hfailed hle hsent with ⟨r', hr⟩ | ⟨r', hr⟩
  · exact ⟨.receiver q, _, Option.map_eq_some_iff.2 ⟨r', hr, rfl⟩⟩
  · exact ⟨.thread q, _, Option.map_eq_some_iff.2 ⟨r', hr, rfl⟩⟩

theorem sender_progress (hidle : s.op.bucket? = none) (hdone : s.sender ≠ .done) (hfailed : s.sender ≠ .failed) :
    ∃ s', senderStep cfg s = some s' := by
  have hstop : ¬ s.op.bucket?.isSome = true := by
    rw [hidle]
    exact Bool.false_ne_true
  refine Option.isSome_iff_exists.1 ?_
  cases hs : s.sender with
  | fill offset bucketMeta chunks =>
    cases chunks with
    | nil =>
      simp only [senderStep, hs]
      rw [if_neg hstop]
      rfl
    | cons chunk chunks =>
      simp only [senderStep, hs]
      rw [if_neg hstop]
      split <;> rfl
  | place offset bucketMeta chunk chunks =>
    simp only [senderStep, hs]
    split <;> rfl
  | lastWait =>
    simp only [senderStep, hs]
    rw [if_neg hstop]
    rfl
  | done => exact absurd hs hdone
  | failed => exact absurd hs hfailed

theorem broadcast_progress (hbusy : s.op.bucket? ≠ none)
    (hcopies : ∀ q, s.payloadLog.length ≤ (s.receivers q).rounds) : ∃ s', broadcastStep cfg s = some s' := by
  refine Option.isSome_iff_exists.1 ?_
  simp only [broadcastStep]
  cases hs : s.op with
  | none =>
    rw [hs] at hbusy
    exact absurd rfl hbusy
  | complete =>
    rw [hs] at hbusy
    exact absurd rfl hbusy
  | started bucket metadata => rfl
  | published bucket => rfl
  | sending bucket =>
    simp only
    rw [if_pos fun _ => hcopies]
    rfl

/-- **Progress**: some rank can move until all are done, if merging the chunks raises nothing. -/
theorem progress (h : Inv cfg all s)
    (hmerge : mergeWeightChunks cfg (all.flatten.map Placed.received) = some (none, weights))
    (hfinished : ¬ Finished weights s) : ∃ a s', step cfg s a = some s' := by
  obtain ⟨k, hop, hsender⟩ := h.root.books
  obtain ⟨hpm, hmk⟩ := hop.le
  have hk := hsender.le
  by_cases hidle : s.op.bucket? = none
  · by_cases hs : s.sender = .done
    · -- rank 0 is done, so some receiver is not
      rw [hs] at hsender
      obtain ⟨hkm, hmp⟩ := hop.idle hidle
      have hall : s.payloadLog.length = all.length := by
        rw [← hmp, ← hkm]
        exact hsender.1
      by_contra hno
      refine hfinished ⟨hs, fun q => ?_⟩
      have hdone : (s.receivers q).pc = .done := by
        by_contra hpc
        exact hno (receiver_progress h hmerge hpm hpc (.inr hall))
      obtain ⟨hrounds, hmerged⟩ := (h.receivers q).of_done hdone
      rw [Merged, hmerge, Option.some.injEq, Prod.mk.injEq] at hmerged
      exact ⟨hdone, hmerged.2.symm, hrounds.trans hall.symm⟩
    · have hfailed : s.sender ≠ .failed := by
        intro hfailed
        rw [hfailed] at hsender
        cases hsender
      obtain ⟨s', hstep⟩ : ∃ s', senderStep cfg s = some s' := sender_progress hidle hs hfailed
      exact ⟨.sender, s', hstep⟩
  · by_cases hlag : ∃ q, (s.receivers q).rounds < s.payloadLog.length
    · -- a rank that has not received the broadcast is not done
      obtain ⟨q, hq⟩ := hlag
      refine receiver_progress h hmerge hpm (fun hpc => ?_) (.inl hq)
      have := ((h.receivers q).of_done hpc).1
      omega
    · have hcopies : ∀ q, s.payloadLog.length ≤ (s.receivers q).rounds := by
        intro q
        by_contra hlt
        exact hlag ⟨q, Nat.lt_of_not_le hlt⟩
      obtain ⟨s', hstep⟩ : ∃ s', broadcastStep cfg s = some s' := broadcast_progress hidle hcopies
      exact ⟨.broadcast, s', hstep⟩

/-! ## The buffers -/

theorem RootOk.sendBuffer (h : RootOk cfg all s) (hstep : NcclEngine.senderStep cfg s = some s') {bucket : Bool}
    (hbucket : s.op.bucket? = some bucket) : s'.bufs bucket = s.bufs bucket := by
  obtain ⟨-, -, -, k, -, hsender⟩ := h
  cases effect_of_senderStep hstep with
  | placed offset bucketMeta chunk chunks hpc =>
    rw [hpc] at hsender
    obtain ⟨current, -, -, -, -, hfree⟩ := hsender
    refine Function.update_of_ne ?_ _ _
    rintro rfl
    exact hfree hbucket
  | full | room | last | refused | ended => rfl

theorem bufs_receiverStep (hstep : receiverStep cfg r = some r') : r'.bufs = r.bufs := by
  unfold receiverStep at hstep
  split at hstep
  · obtain rfl := Option.some.inj hstep
    rfl
  · split at hstep
    · obtain rfl := Option.some.inj hstep
      rfl
    · cases hstep
  · split at hstep <;> obtain rfl := Option.some.inj hstep <;> rfl
  · obtain rfl := Option.some.inj hstep
    rfl
  · cases hstep
  · cases hstep

theorem bufs_threadStep {bucket : Bool} (hstep : threadStep metaLog payloadLog r = some r')
    (hwrite : r'.bufs bucket ≠ r.bufs bucket) : ∃ metadata, r.op = .gotMeta bucket metadata := by
  unfold threadStep at hstep
  split at hstep
  · obtain ⟨metadata, -, rfl⟩ := Option.map_eq_some_iff.1 hstep
    exact absurd rfl hwrite
  · rename_i bucket' metadata hop
    obtain ⟨payload, -, rfl⟩ := Option.map_eq_some_iff.1 hstep
    obtain rfl : bucket = bucket' := by
      by_contra hne
      exact hwrite (Function.update_of_ne hne _ _)
    exact ⟨metadata, hop⟩
  · cases hstep
  · cases hstep

/-- **A buffer of a receiver changes only by its own operation.** -/
theorem recvBuffer {a : Process n} (hstep : step cfg s a = some s') {q : Fin (n + 1)} {bucket : Bool}
    (hwrite : (s'.receivers q).bufs bucket ≠ (s.receivers q).bufs bucket) :
    a = .thread q ∧ ∃ metadata, (s.receivers q).op = .gotMeta bucket metadata := by
  cases a with
  | sender =>
    rw [receivers_senderStep hstep] at hwrite
    exact absurd rfl hwrite
  | broadcast =>
    rw [(frame_broadcastStep hstep).1] at hwrite
    exact absurd rfl hwrite
  -- yielding reads a buffer only
  | receiver i =>
    obtain ⟨next, hnext, rfl⟩ := Option.map_eq_some_iff.1 hstep
    refine absurd ?_ hwrite
    show (Function.update s.receivers i next q).bufs bucket = _
    by_cases hq : q = i
    · subst hq
      rw [Function.update_self, bufs_receiverStep hnext]
    · rw [Function.update_of_ne hq]
  | thread i =>
    obtain ⟨next, hnext, rfl⟩ := Option.map_eq_some_iff.1 hstep
    replace hwrite : (Function.update s.receivers i next q).bufs bucket ≠ (s.receivers q).bufs bucket := hwrite
    by_cases hq : q = i
    · subst hq
      rw [Function.update_self] at hwrite
      exact ⟨rfl, bufs_threadStep hnext hwrite⟩
    · rw [Function.update_of_ne hq] at hwrite
      exact absurd rfl hwrite

theorem ReceiverOk.op_of_yielding (h : ReceiverOk cfg all r) {items : List (String × TensorMeta)} {isLast : Bool}
    (hpc : r.pc = .yielding items isLast) : r.op ≠ .gotMeta (!r.recvBuf) metadata := by
  intro hop
  cases h with
  | yielding t bufs recvBuf op received rounds merge yielded isLast taken todo hnext hsplit hholds hmerged =>
    cases hnext with
    | more ht h =>
      cases h with
      | gotMeta metadata hdescribes =>
        injection hop with hbuf
        exact Bool.not_ne_self recvBuf hbuf.symm
      | started => cases hop
      | complete => cases hop
    | last ht => cases hop
  | failed r hfailed hraises =>
    rw [hfailed] at hpc
    cases hpc
  | init | waiting | done => cases hpc

/-! ## The broadcast -/

section Claim

variable (hnames : (weights.map Prod.fst).Nodup) (hpos : ∀ item ∈ weights, 0 < item.2.nbytes)

include hnames hpos

theorem aligned_of_broadcasts (h : Broadcasts cfg n weights) : Aligned cfg 0 weights := by
  obtain ⟨s, hreach, hfinished⟩ := h.ends.exists_end rfl
  obtain ⟨hdone, -⟩ := hfinished.2 0
  obtain ⟨-, hmerged⟩ := ((inv_of_reach hnames hreach).receivers 0).of_done hdone
  exact ((merge_iff hpos).1 hmerged).1

theorem broadcasts_of_aligned (haligned : Aligned cfg 0 weights) : Broadcasts cfg n weights := by
  have hmerge := (merge_iff hpos).2 ⟨haligned, rfl⟩
  refine ⟨System.endsIn_of_measure (State.work (buckets cfg weights)) (fun s a s' hreach hstep => ?_)
    (fun s hreach hfinished => ?_), fun s a s' hreach hstep bucket hbucket => ?_,
    fun s a s' hreach hstep q bucket hwrite => recvBuffer hstep hwrite,
    fun s a s' hreach hstep q items isLast hpc => ?_, fun s hreach hfailed => ?_⟩
  · exact work_step (inv_of_reach hnames hreach) hstep
  · exact progress (inv_of_reach hnames hreach) hmerge hfinished
  · cases a with
    | sender => exact (inv_of_reach hnames hreach).root.sendBuffer hstep hbucket
    | broadcast => rw [(frame_broadcastStep hstep).2.1]
    | receiver q =>
      obtain ⟨next, -, rfl⟩ := Option.map_eq_some_iff.1 hstep
      rfl
    | thread q =>
      obtain ⟨next, -, rfl⟩ := Option.map_eq_some_iff.1 hstep
      rfl
  · by_contra hwrite
    obtain ⟨-, metadata, hop⟩ := recvBuffer hstep hwrite
    exact ((inv_of_reach hnames hreach).receivers q).op_of_yielding hpc hop
  · obtain ⟨k, -, hsender⟩ := (inv_of_reach hnames hreach).root.books
    rw [hfailed] at hsender
    cases hsender

/-- **The weights reach every receiver exactly when** the packing of the sender is aligned. -/
theorem broadcasts_iff : Broadcasts cfg n weights ↔ Aligned cfg 0 weights :=
  ⟨aligned_of_broadcasts hnames hpos, broadcasts_of_aligned hnames hpos⟩

end Claim

/-! ## An aligned and a misaligned packing -/

def exampleConfig : Config := ⟨1048576, by decide, true, fun _ => 0⟩

def exampleFloat : Tensor := ⟨[1], .float32, [0, 0, 0, 64], by decide⟩

def exampleByte : Tensor := ⟨[1], .uint8, [9], by decide⟩

theorem broadcasts_floatFirst : Broadcasts exampleConfig 0 [("b", exampleFloat), ("a", exampleByte)] := by
  refine (broadcasts_iff (by decide) (by decide)).2 ?_
  simp [Aligned, exampleConfig, exampleFloat, exampleByte, Tensor.nbytes, DType.itemsize]

/-- **One byte before a `float32`**: the chunk of the float starts at offset 1, and
`merge_weight_chunks` raises when it views it. -/
theorem misaligned_not_broadcast : ¬ Broadcasts exampleConfig 0 [("a", exampleByte), ("b", exampleFloat)] := by
  intro h
  have haligned := aligned_of_broadcasts (by decide) (by decide) h
  simp [Aligned, exampleConfig, exampleFloat, exampleByte, Tensor.nbytes, DType.itemsize] at haligned

end Opd.Verl.NcclEngine

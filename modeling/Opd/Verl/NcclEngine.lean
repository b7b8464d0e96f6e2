import Mathlib.Data.Fintype.Basic
import Opd.Lib.Dict
import Opd.Lib.System
import Opd.Verl.WeightChunks

/-!
# The NCCL checkpoint engine

Rank 0 fills two buffers in turn: while it fills one of them, a thread publishes the
metadata of the other one and broadcasts it. Every other rank has two buffers as well and
yields the chunks of one of them while a thread receives into the other one. The metadata
reach every rank in the order of publication, and the broadcasts of the ranks are matched
in their order.

* `senderStep`, `broadcastStep`: `send_weights` and the thread of its `BroadcastOperation`.
* `receiverStep`, `threadStep`: `receive_weights` and the threads of its operations.
* `transfer`: all ranks as one transition system.
* `Broadcasts`: what the engine is for.
-/

namespace Opd.Verl.NcclEngine

open Lib

/-- `{"bucket_meta": ..., "is_last": ...}` -/
structure Metadata where
  bucketMeta : Dict String TensorMeta
  isLast : Bool

/-! ## The states of the ranks -/

/-- `send_weights`, with its local variables and the chunks it has not taken yet. -/
inductive Sender
  | fill (offset : ℕ) (bucketMeta : Dict String TensorMeta) (chunks : List Chunk)
  /-- The chunk fits; the assertions come next. -/
  | place (offset : ℕ) (bucketMeta : Dict String TensorMeta) (chunk : Chunk) (chunks : List Chunk)
  | lastWait
  | done
  | failed

/-- The `BroadcastOperation` of rank 0, with the buffer it was created with. -/
inductive RootOp
  | none
  | started (bucket : Bool) (metadata : Metadata)
  | published (bucket : Bool)
  /-- The bucket is on its way. -/
  | sending (bucket : Bool)
  | complete

def RootOp.bucket? : RootOp → Option Bool
  | .started bucket _ | .published bucket | .sending bucket => some bucket
  | .none | .complete => Option.none

/-- The `BroadcastOperation` of another rank, with the buffer it was created with. -/
inductive ReceiverOp
  | none
  | started (bucket : Bool)
  | gotMeta (bucket : Bool) (metadata : Metadata)
  | complete (metadata : Metadata)

/-- `_receive_weight_chunks` -/
inductive ReceiverPc
  | init
  | waiting
  /-- The items that are still to be yielded from `send_buf`. -/
  | yielding (items : List (String × TensorMeta)) (isLast : Bool)
  | done
  | failed

/-- A receiving rank. `recvBuf` says which of its buffers is `recv_buf`; `received` and
`rounds` count the metadata and the broadcasts it has received. -/
structure Receiver where
  pc : ReceiverPc
  bufs : Bool → List UInt8
  recvBuf : Bool
  op : ReceiverOp
  received : ℕ
  rounds : ℕ
  merge : Option Merge
  yielded : Weights

/-- All ranks. `sendBuf` says which of the buffers of rank 0 is `send_buf`; the logs are
what it has published and broadcast. -/
structure State (n : ℕ) where
  sender : Sender
  bufs : Bool → List UInt8
  sendBuf : Bool
  op : RootOp
  metaLog : List Metadata
  payloadLog : List (List UInt8)
  receivers : Fin (n + 1) → Receiver

inductive Process (n : ℕ)
  | sender
  | broadcast
  | receiver (r : Fin (n + 1))
  | thread (r : Fin (n + 1))

variable (cfg : Config) {n : ℕ}

/-! ## Rank 0 -/

/-- `send_weights` up to the next point where another thread may run. -/
def senderStep (s : State n) : Option (State n) :=
  match s.sender with
  | .fill offset bucketMeta (chunk :: chunks) =>
    if offset + chunk.tensorMeta.chunkSize > cfg.bucketSize then
      -- `wait_for_complete` of the previous operation, then the next one and the swap.
      if s.op.bucket?.isSome then none
      else some { s with
        sender := .place 0 .empty chunk chunks
        op := .started s.sendBuf ⟨bucketMeta, false⟩
        sendBuf := !s.sendBuf }
    else some { s with sender := .place offset bucketMeta chunk chunks }
  | .fill _ bucketMeta [] =>
    if s.op.bucket?.isSome then none
    else some { s with sender := .lastWait, op := .started s.sendBuf ⟨bucketMeta, true⟩ }
  | .place offset bucketMeta chunk chunks =>
    if offset + chunk.tensorMeta.chunkSize ≤ cfg.bucketSize ∧ chunk.tensorMeta.name ∉ bucketMeta.keys then
      some { s with
        sender := .fill (offset + chunk.tensorMeta.chunkSize)
          (bucketMeta.update chunk.tensorMeta.name fun _ => { chunk.tensorMeta with offset := some offset }) chunks
        bufs := Function.update s.bufs s.sendBuf (Storage.write (s.bufs s.sendBuf) offset chunk.data) }
    else some { s with sender := .failed }
  | .lastWait => if s.op.bucket?.isSome then none else some { s with sender := .done }
  | .done => none
  | .failed => none

/-- The thread of the operation of rank 0. With `rendezvous`, its broadcast returns when
every rank has its copy. -/
def broadcastStep (s : State n) : Option (State n) :=
  match s.op with
  | .started bucket metadata => some { s with op := .published bucket, metaLog := s.metaLog ++ [metadata] }
  | .published bucket => some { s with op := .sending bucket, payloadLog := s.payloadLog ++ [s.bufs bucket] }
  | .sending _ =>
    if cfg.rendezvous = true → ∀ r, s.payloadLog.length ≤ (s.receivers r).rounds then some { s with op := .complete }
    else none
  | .none => none
  | .complete => none

/-! ## The other ranks -/

/-- `send_buf[tensor_meta.offset : tensor_meta.offset + tensor_meta.chunk_size]` -/
def readChunk (buffer : List UInt8) (tensorMeta : TensorMeta) : Option StorageSlice :=
  tensorMeta.offset.map fun offset => ⟨offset, Storage.read buffer offset tensorMeta.chunkSize⟩

/-- `receive_weights` up to the next point where another thread may run. -/
def receiverStep (r : Receiver) : Option Receiver :=
  match r.pc with
  | .init => some { r with pc := .waiting, op := .started r.recvBuf }
  | .waiting =>
    match r.op with
    | .complete metadata =>
      -- The swap; the next operation gets the buffer whose chunks have all been yielded.
      some { r with
        pc := .yielding metadata.bucketMeta.items metadata.isLast
        recvBuf := !r.recvBuf
        op := if metadata.isLast then .none else .started (!r.recvBuf) }
    | _ => none
  | .yielding (item :: items) isLast =>
    match (readChunk (r.bufs (!r.recvBuf)) item.2).bind fun chunk =>
        mergeNext cfg (r.merge, r.yielded) (item.2, chunk) with
    | some (merge, yielded) => some { r with pc := .yielding items isLast, merge := merge, yielded := yielded }
    | none => some { r with pc := .failed }
  | .yielding [] isLast => some { r with pc := if isLast then .done else .waiting }
  | .done => none
  | .failed => none

/-- The thread of an operation: the next metadata, then the next broadcast. -/
def threadStep (metaLog : List Metadata) (payloadLog : List (List UInt8)) (r : Receiver) : Option Receiver :=
  match r.op with
  | .started bucket => (metaLog[r.received]?).map fun metadata =>
      { r with op := .gotMeta bucket metadata, received := r.received + 1 }
  | .gotMeta bucket metadata => (payloadLog[r.rounds]?).map fun payload =>
      { r with op := .complete metadata, bufs := Function.update r.bufs bucket payload, rounds := r.rounds + 1 }
  | .none => none
  | .complete _ => none

/-! ## The transfer -/

def step (s : State n) : Process n → Option (State n)
  | .sender => senderStep cfg s
  | .broadcast => broadcastStep cfg s
  | .receiver r =>
    (receiverStep cfg (s.receivers r)).map fun next => { s with receivers := Function.update s.receivers r next }
  | .thread r =>
    (threadStep s.metaLog s.payloadLog (s.receivers r)).map fun next =>
      { s with receivers := Function.update s.receivers r next }

/-- A buffer as `prepare` allocates it. -/
def zeros : List UInt8 := List.replicate cfg.bucketSize 0

def initReceiver : Receiver := ⟨.init, fun _ => zeros cfg, true, .none, 0, 0, none, []⟩

def initState (n : ℕ) (weights : Weights) : State n :=
  ⟨.fill 0 .empty (splitWeightChunks cfg weights), fun _ => zeros cfg, false, .none, [], [], fun _ => initReceiver cfg⟩

/-- The broadcast of the weights to `n + 1` receivers as a transition system. -/
def transfer (n : ℕ) (weights : Weights) : System (State n) (Process n) :=
  System.ofFn (· = initState cfg n weights) (step cfg)

/-! ## What the engine is for -/

/-- All ranks have returned, every receiver has yielded the weights and has performed as
many broadcasts as rank 0. -/
def Finished (weights : Weights) (s : State n) : Prop :=
  s.sender = .done ∧ ∀ r, (s.receivers r).pc = .done ∧ (s.receivers r).yielded = weights ∧
    (s.receivers r).rounds = s.payloadLog.length

/-- **The broadcast of the weights.** Every run ends with all ranks done and the weights
yielded. No buffer of rank 0 changes while an operation reads it; a buffer of a receiver
changes only by its own operation, and never while its chunks are yielded. No assertion of
`send_weights` fails. -/
structure Broadcasts (n : ℕ) (weights : Weights) : Prop where
  ends : (transfer cfg n weights).EndsIn (Finished weights)
  sendBuffer : ∀ s a s', (transfer cfg n weights).Reach s → (transfer cfg n weights).step s a s' →
    ∀ bucket, s.op.bucket? = some bucket → s'.bufs bucket = s.bufs bucket
  recvBuffer : ∀ s a s', (transfer cfg n weights).Reach s → (transfer cfg n weights).step s a s' →
    ∀ r bucket, (s'.receivers r).bufs bucket ≠ (s.receivers r).bufs bucket →
      a = .thread r ∧ ∃ metadata, (s.receivers r).op = .gotMeta bucket metadata
  yielding : ∀ s a s', (transfer cfg n weights).Reach s → (transfer cfg n weights).step s a s' →
    ∀ r items isLast, (s.receivers r).pc = .yielding items isLast →
      (s'.receivers r).bufs (!(s.receivers r).recvBuf) = (s.receivers r).bufs (!(s.receivers r).recvBuf)
  assertions : ∀ s, (transfer cfg n weights).Reach s → s.sender ≠ .failed

end Opd.Verl.NcclEngine

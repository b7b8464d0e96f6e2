import Opd.Lib.Dict
import Opd.Lib.Storage
import Opd.Lib.System

/-!
# The bucketed weight transfer

`BucketedWeightSender` packs tensors into a buffer that it shares with
`BucketedWeightReceiver`, in another process. The two talk over a REQ/REP socket: every
request describes one bucket by its metadata, and the receiver replies when it has handed
the tensors on. A tensor larger than the bucket goes by its own CUDA IPC handle.

* `Aligned`: the packing of the sender puts every tensor of the buffer at a multiple of
  its item size.
* `Described`, `unpackBucket_iff`: what the receiver reads of a bucket.
-/

namespace Opd.Clight.BucketedTransfer

open Lib

/-! ## The two processes -/

/-- The options both processes are created with. -/
structure Config where
  bucketSizeMb : ℕ
  useShm : Bool

/-- `self.bucket_size_mb << 20` -/
def Config.bucketSize (cfg : Config) : ℕ := cfg.bucketSizeMb <<< 20

/-- CUDA IPC: what `reduce_tensor` returns is rebuilt to the same tensor. -/
structure Ipc where
  Handle : Type
  reduceTensor : Tensor → Handle
  rebuildIpc : Handle → Tensor
  rebuild_reduce : ∀ w, rebuildIpc (reduceTensor w) = w

structure TensorMetadata (H : Type) where
  name : String
  shape : List ℕ
  dtype : DType
  offset : ℕ
  handle : Option H

abbrev BucketMeta (H : Type) := Dict String (TensorMetadata H)

/-- The requests: the buffer, or a bucket. -/
inductive Message (H : Type)
  | comm (size : ℕ)
  | bucket (bucketMeta : BucketMeta H) (isLast : Bool)

abbrev Weights := List (String × Tensor)

inductive SendError
  /-- `SharedMemory(create=True, size=0)` -/
  | emptySegment
  | tooLarge (name : String) (shape : List ℕ) (dtype : DType) (bucketSizeMb : ℕ)

/-- `async_send_weights`, with its local variables and the weights it has not taken yet. -/
inductive Sender (H : Type)
  | init (weights : Weights)
  | initWait (weights : Weights)
  | loop (offset : ℕ) (bucketMeta : BucketMeta H) (weights : Weights)
  /-- The bucket is sent because the next weight does not fit. -/
  | flushWait (name : String) (weight : Tensor) (weights : Weights)
  /-- The second test of the loop. -/
  | place (offset : ℕ) (bucketMeta : BucketMeta H) (name : String) (weight : Tensor) (weights : Weights)
  | directWait (offset : ℕ) (bucketMeta : BucketMeta H) (weights : Weights)
  | lastWait
  | done
  | failed (error : SendError)

/-- `receive_weights` -/
inductive Receiver (H : Type)
  | init
  | initAck
  | recv
  | unpack (bucketMeta : BucketMeta H) (isLast : Bool)
  | ack (isLast : Bool)
  | done
  | failed

/-- Both processes, the request and the reply on their way, the shared buffer, and the
lists given to `on_bucket_received`. -/
structure State (H : Type) where
  sender : Sender H
  receiver : Receiver H
  request : Option (Message H)
  reply : Bool
  buffer : List UInt8
  delivered : List Weights

inductive Process
  | sender
  | receiver

variable (cfg : Config) (ipc : Ipc)

def bufferMeta {H : Type} (name : String) (weight : Tensor) (offset : ℕ) : TensorMetadata H :=
  ⟨name, weight.shape, weight.dtype, offset, none⟩

/-- The metadata of `_direct_send_large_weight`. -/
def directMeta (name : String) (weight : Tensor) : TensorMetadata ipc.Handle :=
  ⟨name, weight.shape, weight.dtype, 0, some (ipc.reduceTensor weight)⟩

def senderStep (s : State ipc.Handle) : Option (State ipc.Handle) :=
  match s.sender with
  | .init weights =>
    if cfg.useShm ∧ cfg.bucketSize = 0 then some { s with sender := .failed .emptySegment }
    else some { s with
      sender := .initWait weights
      buffer := List.replicate cfg.bucketSize 0
      request := some (.comm cfg.bucketSize) }
  | .initWait weights => if s.reply then some { s with sender := .loop 0 .empty weights, reply := false } else none
  | .loop _ bucketMeta [] => some { s with sender := .lastWait, request := some (.bucket bucketMeta true) }
  | .loop offset bucketMeta ((name, weight) :: weights) =>
    if offset + weight.nbytes > cfg.bucketSize ∧ bucketMeta.items ≠ [] then
      some { s with sender := .flushWait name weight weights, request := some (.bucket bucketMeta false) }
    else some { s with sender := .place offset bucketMeta name weight weights }
  | .flushWait name weight weights =>
    if s.reply then some { s with sender := .place 0 .empty name weight weights, reply := false } else none
  | .place offset bucketMeta name weight weights =>
    if offset + weight.nbytes > cfg.bucketSize then
      if cfg.useShm then
        some { s with sender := .failed (.tooLarge name weight.shape weight.dtype cfg.bucketSizeMb) }
      else
        let direct := Dict.empty.update name fun _ => directMeta ipc name weight
        some { s with sender := .directWait offset bucketMeta weights, request := some (.bucket direct false) }
    else some { s with
      buffer := Storage.write s.buffer offset weight.bytes
      sender := .loop (offset + weight.nbytes)
        (bucketMeta.update name fun _ => bufferMeta name weight offset) weights }
  | .directWait offset bucketMeta weights =>
    if s.reply then some { s with sender := .loop offset bucketMeta weights, reply := false } else none
  | .lastWait => if s.reply then some { s with sender := .done, reply := false } else none
  | .done => none
  | .failed _ => none

/-- One tensor of a bucket: rebuilt from its handle, or a view of the buffer. -/
def unpackTensor (buffer : List UInt8) (m : TensorMetadata ipc.Handle) : Option Tensor :=
  match m.handle with
  | some handle => some (ipc.rebuildIpc handle)
  | none => viewAs (Storage.read buffer m.offset (m.dtype.itemsize * m.shape.prod)) m.offset m.shape m.dtype

def unpackBucket (buffer : List UInt8) (items : List (String × TensorMetadata ipc.Handle)) : Option Weights :=
  items.mapM fun item => (unpackTensor ipc buffer item.2).map (item.1, ·)

def receiverStep (s : State ipc.Handle) : Option (State ipc.Handle) :=
  match s.receiver with
  | .init =>
    match s.request with
    | some (.comm _) => some { s with receiver := .initAck, request := none }
    | _ => none
  | .initAck => some { s with receiver := .recv, reply := true }
  | .recv =>
    match s.request with
    | some (.bucket bucketMeta isLast) => some { s with receiver := .unpack bucketMeta isLast, request := none }
    | _ => none
  | .unpack bucketMeta isLast =>
    match unpackBucket ipc s.buffer bucketMeta.items with
    | some weights => some { s with receiver := .ack isLast, delivered := s.delivered ++ [weights] }
    | none => some { s with receiver := .failed }
  | .ack isLast => some { s with receiver := if isLast then .done else .recv, reply := true }
  | .done => none
  | .failed => none

def step (s : State ipc.Handle) : Process → Option (State ipc.Handle)
  | .sender => senderStep cfg ipc s
  | .receiver => receiverStep ipc s

def initState (weights : Weights) : State ipc.Handle := ⟨.init weights, .init, none, false, [], []⟩

def transfer (weights : Weights) : System (State ipc.Handle) Process :=
  System.ofFn (· = initState ipc weights) (step cfg ipc)

/-! ## The packing -/

/-- **Aligned packing**: with `offset` bytes of the bucket used (`filled` when it holds a
tensor), every following tensor that is put into the buffer starts at a multiple of its
item size. -/
def Aligned (bucketSize : ℕ) : ℕ → Bool → Weights → Prop
  | _, _, [] => True
  | offset, filled, (_, weight) :: weights =>
    let start := if filled ∧ offset + weight.nbytes > bucketSize then 0 else offset
    if start + weight.nbytes > bucketSize then Aligned bucketSize start false weights
    else start % weight.dtype.itemsize = 0 ∧ Aligned bucketSize (start + weight.nbytes) true weights

/-- `Aligned` at the second test of the loop. -/
def AlignedAt (bucketSize start : ℕ) (weight : Tensor) (weights : Weights) : Prop :=
  if start + weight.nbytes > bucketSize then Aligned bucketSize start false weights
  else start % weight.dtype.itemsize = 0 ∧ Aligned bucketSize (start + weight.nbytes) true weights

theorem aligned_cons (bucketSize offset : ℕ) (filled : Bool) (name : String) (weight : Tensor) (weights : Weights) :
    Aligned bucketSize offset filled ((name, weight) :: weights) ↔
      AlignedAt bucketSize (if filled ∧ offset + weight.nbytes > bucketSize then 0 else offset) weight weights :=
  Iff.rfl

/-! ## What a bucket describes -/

variable {ipc} {buffer : List UInt8}

/-- The receiver can read the weight from its metadata, up to the alignment. -/
def Described (ipc : Ipc) (buffer : List UInt8) (item : String × TensorMetadata ipc.Handle)
    (x : String × Tensor) : Prop :=
  item.1 = x.1 ∧ item.2.shape = x.2.shape ∧ item.2.dtype = x.2.dtype ∧
    match item.2.handle with
    | some handle => ipc.rebuildIpc handle = x.2
    | none => item.2.offset + x.2.nbytes ≤ buffer.length ∧
        Storage.read buffer item.2.offset x.2.nbytes = x.2.bytes

/-- The tensor starts at a multiple of its item size, if it is in the buffer. -/
def AlignedItem {H : Type} (item : String × TensorMetadata H) : Prop :=
  item.2.handle = none → item.2.offset % item.2.dtype.itemsize = 0

theorem unpackTensor_iff {item : String × TensorMetadata ipc.Handle} {x : String × Tensor} {w : Tensor}
    (h : Described ipc buffer item x) : unpackTensor ipc buffer item.2 = some w ↔ AlignedItem item ∧ w = x.2 := by
  obtain ⟨-, hshape, hdtype, hdata⟩ := h
  unfold unpackTensor AlignedItem
  cases hh : item.2.handle with
  | some handle =>
    rw [hh] at hdata
    simp only [reduceCtorEq, false_implies, true_and]
    rw [hdata, Option.some.injEq, eq_comm]
  | none =>
    rw [hh] at hdata
    have hsize : item.2.dtype.itemsize * item.2.shape.prod = x.2.nbytes := by
      rw [hdtype, hshape, ← x.2.length_bytes]
      rfl
    simp only [true_implies]
    rw [hsize, hdata.2, hshape, hdtype]
    by_cases halign : item.2.offset % x.2.dtype.itemsize = 0
    · rw [viewAs_bytes x.2 halign, Option.some.injEq, eq_comm]
      exact (and_iff_right halign).symm
    · rw [viewAs_eq_none halign]
      simp [halign]

/-- **What the receiver reads of a bucket**: the weights that it describes, if all of them
are aligned. -/
theorem unpackBucket_iff {items : List (String × TensorMetadata ipc.Handle)} {held ws : Weights}
    (h : List.Forall₂ (Described ipc buffer) items held) :
    unpackBucket ipc buffer items = some ws ↔ (∀ item ∈ items, AlignedItem item) ∧ ws = held := by
  induction h generalizing ws with
  | nil => simp [unpackBucket, eq_comm]
  | @cons item x items held hitem hrest ih =>
    have hcons : unpackBucket ipc buffer (item :: items) = some ws ↔
        ∃ w, unpackTensor ipc buffer item.2 = some w ∧ ∃ ws', unpackBucket ipc buffer items = some ws' ∧
          (item.1, w) :: ws' = ws := by
      simp [unpackBucket, List.mapM_cons, Option.bind_eq_some_iff, Option.map_eq_some_iff]
    rw [hcons, List.forall_mem_cons]
    constructor
    · rintro ⟨w, hw, ws', hws', rfl⟩
      obtain ⟨halign, rfl⟩ := (unpackTensor_iff hitem).1 hw
      obtain ⟨hall, rfl⟩ := ih.1 hws'
      exact ⟨⟨halign, hall⟩, by rw [hitem.1]⟩
    · rintro ⟨⟨halign, hall⟩, rfl⟩
      exact ⟨x.2, (unpackTensor_iff hitem).2 ⟨halign, rfl⟩, held, ih.2 ⟨hall, rfl⟩, by rw [hitem.1]⟩

/-- All regions of a bucket lie in the first `offset` bytes of the buffer. -/
def Packed {H : Type} (bucketMeta : BucketMeta H) (offset : ℕ) : Prop :=
  (∀ item ∈ bucketMeta.items, item.2.handle = none ∧
    item.2.offset + item.2.dtype.itemsize * item.2.shape.prod ≤ offset) ∧
    (bucketMeta.items = [] → offset = 0)

theorem described_write {item : String × TensorMetadata ipc.Handle} {x : String × Tensor} {offset : ℕ}
    {data : List UInt8} (h : Described ipc buffer item x)
    (hpacked : item.2.offset + item.2.dtype.itemsize * item.2.shape.prod ≤ offset)
    (hfit : offset + data.length ≤ buffer.length) : Described ipc (Storage.write buffer offset data) item x := by
  obtain ⟨hname, hshape, hdtype, hdata⟩ := h
  refine ⟨hname, hshape, hdtype, ?_⟩
  cases hh : item.2.handle with
  | some handle =>
    rw [hh] at hdata
    exact hdata
  | none =>
    rw [hh] at hdata
    have hsize : item.2.dtype.itemsize * item.2.shape.prod = x.2.nbytes := by
      rw [hdtype, hshape, ← x.2.length_bytes]
      rfl
    rw [hsize] at hpacked
    refine ⟨by rw [Storage.length_write hfit]; exact hdata.1, ?_⟩
    rw [Storage.read_write_before (by omega) hpacked]
    exact hdata.2

theorem described_bufferMeta (name : String) {weight : Tensor} {offset : ℕ}
    (hfit : offset + weight.nbytes ≤ buffer.length) :
    Described ipc (Storage.write buffer offset weight.bytes) (name, bufferMeta name weight offset) (name, weight) := by
  have hlen : offset + weight.bytes.length ≤ buffer.length := hfit
  refine ⟨rfl, rfl, rfl, ?_, Storage.read_write_self (by omega)⟩
  rw [Storage.length_write hlen]
  exact hfit

theorem described_directMeta (name : String) (weight : Tensor) :
    Described ipc buffer (name, directMeta ipc name weight) (name, weight) :=
  ⟨rfl, rfl, rfl, ipc.rebuild_reduce weight⟩

end Opd.Clight.BucketedTransfer

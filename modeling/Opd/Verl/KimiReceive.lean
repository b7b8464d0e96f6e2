import Mathlib.Data.Finset.Max
import Mathlib.Data.Fintype.Basic
import Opd.Lib.System
import Opd.Verl.KimiSchedule

/-!
# The rollout ranks of the Kimi checkpoint engine

Every rollout rank broadcasts the same buckets in the same order, into the two halves of its buffer in turn. A thread
runs the broadcast, while the tensors of the bucket before are yielded to the consumer.

* `mainStep`, `threadStep`: `receive_tensor` and the thread of its `BroadcastOperation`.
* `transfer`: all rollout ranks as one transition system.
* `Transfers`: what the engine is for.
* `RankOk`, `inv_of_reach`: the invariant of a rank, and of all ranks.
* `progress`: some rank can move until all have returned.
* `weights_delivered`: the weights reach every rollout rank, in every run.
-/

namespace Opd.Verl.KimiEngine

open Lib

/-- An item of `_to_named_tensor`. -/
structure NamedTensor where
  name : String
  shape : List ℕ
  dtype : DType
  offset : ℕ

/-- The settings of the ranks and what the package of the parameter server gives them: the number of
`_current_global_parameter_metas`, the buckets of `_gen_h2d_buckets`, the bytes that `_copy_to_buffer` copies from an
owner, and `_to_named_tensor`. With `rendezvous`, a broadcast returns at its source when every rank has its copy. -/
structure Server (ι : Type) where
  actorWorldSize : ℕ
  bucketSize : ℕ
  rendezvous : Bool
  metas : ℕ
  buckets : List (ℕ × ℕ × H2DBucket ι)
  copyToBuffer : ℕ → H2DBucket ι → List UInt8
  toNamedTensor : List ι → ℕ → List NamedTensor

/-! ## The states of the ranks -/

/-- Where `receive_tensor` is. -/
inductive Phase (ι : Type)
  | start
  /-- In the first barrier. -/
  | entering
  /-- Between two commands of the loops. -/
  | loop (rest : List (Command ι))
  /-- The tensors that are still to be yielded, and what follows: the rest of the loops, or their end. -/
  | yielding (items : List NamedTensor) (rest : Option (List (Command ι)))
  /-- In `wait_for_complete`. -/
  | waiting (rest : List (Command ι))
  /-- In the last barrier. -/
  | leaving (ok : Bool)
  | returned
  | raised

/-- `BroadcastOperation`: its source, where its part of the buffer starts, and the bucket. -/
inductive Op (ι : Type)
  | none
  | started (src start : ℕ) (bucket : H2DBucket ι)
  /-- The bytes are on their way. -/
  | sending (src start : ℕ) (bucket : H2DBucket ι)
  | complete (bucket : H2DBucket ι)

/-- Where the part of the buffer starts that a running operation uses. -/
def Op.start? {ι : Type} : Op ι → Option ℕ
  | .started _ start _ | .sending _ start _ => some start
  | .none | .complete _ => Option.none

/-- A rollout rank. `barriers` counts the barriers it has come to; `broadcasts` are the broadcasts it has made, each
with its source; `released` counts the broadcasts behind whose last tensor the consumer has asked for one. -/
structure RankState (ι : Type) where
  phase : Phase ι
  barriers : ℕ
  gidx : ℕ
  metadata : Option (List ι)
  h2dBuffer : List UInt8
  buffer : List UInt8
  op : Op ι
  broadcasts : List (ℕ × H2DBucket ι)
  yielded : List (String × Tensor)
  released : ℕ

/-- What has been broadcast, by the number of the broadcast: the source and the bytes. -/
abbrev Messages : Type := ℕ → Option (ℕ × List UInt8)

structure State (n : ℕ) (ι : Type) where
  messages : Messages
  ranks : Fin n → RankState ι

inductive Process (n : ℕ)
  | main (q : Fin n)
  | thread (q : Fin n)

variable {ι : Type} (srv : Server ι)

/-! ## `receive_tensor` -/

/-- An exception in the loops: the `finally` clause comes to the last barrier. -/
def RankState.fail (r : RankState ι) : RankState ι := { r with phase := .leaving false, barriers := r.barriers + 1 }

/-- `meta_list = _to_named_tensor(metadata, (gidx - 1) % 2 * bucket_size)`, which raises before the first broadcast. -/
def RankState.yieldBucket (r : RankState ι) (rest : Option (List (Command ι))) : RankState ι :=
  match r.metadata with
  | some metadata =>
    { r with phase := .yielding (srv.toNamedTensor metadata ((r.gidx - 1) % 2 * srv.bucketSize)) rest }
  | none => r.fail

/-- The rank puts its own bucket into its part of the buffer, and creates the `BroadcastOperation`. -/
def RankState.broadcast (rank : ℕ) (r : RankState ι) (receiver : ℕ) (bucket : H2DBucket ι) : RankState ι :=
  { r with
    buffer := if receiver = rank then
        Storage.write r.buffer (r.gidx % 2 * srv.bucketSize) (Storage.read r.h2dBuffer 0 bucket.size)
      else r.buffer
    op := .started receiver (r.gidx % 2 * srv.bucketSize) bucket }

/-- `tensor = buffer[offset : offset + size].view(dtype=dtype).view(shape)` -/
def viewTensor (buffer : List UInt8) (item : NamedTensor) : Option Tensor :=
  viewAs (Storage.read buffer item.offset (item.dtype.itemsize * item.shape.prod)) item.offset item.shape item.dtype

/-- `receive_tensor` up to the next point where another thread may run. `passed` says whether all ranks have come to a
barrier. -/
def mainStep (rank : ℕ) (passed : ℕ → Bool) (r : RankState ι) : Option (RankState ι) :=
  match r.phase with
  | .start =>
    -- the assertion stands before the `try`
    if srv.metas = 0 then some { r with phase := .raised }
    else some { r with phase := .entering, barriers := r.barriers + 1 }
  | .entering => if passed 1 then some { r with phase := .loop (commands rank srv.buckets) } else none
  | .loop (.copyToH2d owner bucket :: rest) =>
    some { r with phase := .loop rest, h2dBuffer := Storage.write r.h2dBuffer 0 (srv.copyToBuffer owner bucket) }
  | .loop (.broadcast receiver bucket :: rest) =>
    if r.gidx = 0 then some { r.broadcast srv rank receiver bucket with phase := .waiting rest }
    else some ((r.broadcast srv rank receiver bucket).yieldBucket srv (some rest))
  | .loop [] => some (r.yieldBucket srv none)
  | .yielding (item :: items) rest =>
    match viewTensor r.buffer item with
    | some tensor => some { r with phase := .yielding items rest, yielded := r.yielded ++ [(item.name, tensor)] }
    | none => some r.fail
  -- the consumer asks for the tensor after the last one
  | .yielding [] (some rest) => some { r with phase := .waiting rest, released := r.released + 1 }
  | .yielding [] none =>
    some { r with phase := .leaving true, released := r.released + 1, barriers := r.barriers + 1 }
  | .waiting rest =>
    match r.op with
    | .complete bucket =>
      some { r with phase := .loop rest, metadata := some bucket.items, gidx := r.gidx + 1, op := .none }
    | _ => none
  | .leaving ok => if passed 2 then some { r with phase := if ok then .returned else .raised } else none
  | .returned => none
  | .raised => none

/-- `_run`: `dist.broadcast`, which the ranks match in the order of their calls. `everywhere` says whether all other
ranks have made it. -/
def threadStep (rank : ℕ) (messages : Messages) (everywhere : Bool) (r : RankState ι) :
    Option (Messages × RankState ι) :=
  match r.op with
  | .started src start bucket =>
    if src = rank then
      some (Function.update messages r.broadcasts.length (some (rank, Storage.read r.buffer start bucket.size)),
        { r with op := .sending src start bucket })
    else
      match messages r.broadcasts.length with
      | some (sender, payload) =>
        if sender = src ∧ payload.length = bucket.size then
          some (messages, { r with
            op := .complete bucket
            buffer := Storage.write r.buffer start payload
            broadcasts := r.broadcasts ++ [(src, bucket)] })
        else none
      | none => none
  | .sending src _ bucket =>
    if srv.rendezvous = true → everywhere = true then
      some (messages, { r with op := .complete bucket, broadcasts := r.broadcasts ++ [(src, bucket)] })
    else none
  | .none => none
  | .complete _ => none

/-! ## All rollout ranks -/

variable {n : ℕ}

def rankOf (q : Fin n) : ℕ := srv.actorWorldSize + q

def step (s : State n ι) : Process n → Option (State n ι)
  | .main q =>
    (mainStep srv (rankOf srv q) (fun k => decide (∀ p, k ≤ (s.ranks p).barriers)) (s.ranks q)).map fun r =>
      { s with ranks := Function.update s.ranks q r }
  | .thread q =>
    (threadStep srv (rankOf srv q) s.messages
      (decide (∀ p, p = q ∨ (s.ranks q).broadcasts.length < (s.ranks p).broadcasts.length)) (s.ranks q)).map fun r =>
        ⟨r.1, Function.update s.ranks q r.2⟩

/-- A rank at its start: nothing has been done, and its buffer holds anything. -/
structure Fresh (r : RankState ι) : Prop where
  gidx : r.gidx = 0
  metadata : r.metadata = none
  op : r.op = .none
  broadcasts : r.broadcasts = []
  yielded : r.yielded = []
  released : r.released = 0
  buffer : r.buffer.length = 2 * srv.bucketSize

structure Init (s : State n ι) : Prop where
  messages : ∀ k, s.messages k = none
  ranks : ∀ q, (s.ranks q).phase = .start ∧ (s.ranks q).barriers = 0 ∧ Fresh srv (s.ranks q)

/-- **The transfer** to `n` rollout ranks. -/
def transfer (n : ℕ) : System (State n ι) (Process n) := System.ofFn (Init srv) (step srv)

/-! ## What the engine is for -/

/-- A half of the buffer has tensors: it has been filled by a broadcast behind whose last tensor the consumer has not
asked for one. -/
def RankState.Holds (r : RankState ι) (half : ℕ) : Prop :=
  ∃ k, r.released ≤ k ∧ k < r.broadcasts.length ∧ k % 2 = half

/-- The rank has returned: it has made all broadcasts and has yielded the tensors. -/
def RankState.Finished (registered : List (String × Tensor)) (r : RankState ι) : Prop :=
  r.phase = .returned ∧ r.broadcasts = (schedule srv.buckets).map (fun e => (e.1, e.2.2)) ∧
    r.yielded.Perm registered

/-- Every run ends with all ranks returned, and none of them raises. The broadcasts of every rank are those of one
schedule, from its start. A half with tensors is not written, and no operation uses it. -/
structure Transfers (n : ℕ) (registered : List (String × Tensor)) : Prop where
  ends : (transfer srv n).EndsIn fun s => ∀ q, (s.ranks q).Finished srv registered
  total : ∀ s, (transfer srv n).Reach s → ∀ q, (s.ranks q).phase ≠ .raised ∧ (s.ranks q).phase ≠ .leaving false
  order : ∀ s, (transfer srv n).Reach s → ∀ q,
    (s.ranks q).broadcasts.IsPrefix ((schedule srv.buckets).map fun e => (e.1, e.2.2))
  unused : ∀ s, (transfer srv n).Reach s → ∀ q half, (s.ranks q).Holds half →
    (s.ranks q).op.start? ≠ some (half * srv.bucketSize)
  unwritten : ∀ s a s', (transfer srv n).Reach s → (transfer srv n).step s a s' → ∀ q half, (s.ranks q).Holds half →
    Storage.read (s'.ranks q).buffer (half * srv.bucketSize) srv.bucketSize =
      Storage.read (s.ranks q).buffer (half * srv.bucketSize) srv.bucketSize

/-! ## The invariant of a rank -/

/-- Where `_to_named_tensor` puts a tensor, for the bytes of its bucket from an offset on. -/
structure Places (bytes : List UInt8) (base : ℕ) (item : NamedTensor) (t : String × Tensor) : Prop where
  name : item.name = t.1
  shape : item.shape = t.2.shape
  dtype : item.dtype = t.2.dtype
  le : base ≤ item.offset
  fits : item.offset + t.2.nbytes ≤ base + bytes.length
  bytes : Storage.read bytes (item.offset - base) t.2.nbytes = t.2.bytes

/-- A bucket of an owner with its tensors: what is copied is as long as the bucket, and the tensors are laid out in
it. -/
structure LaidOut (owner : ℕ) (bucket : H2DBucket ι) (tensors : List (String × Tensor)) : Prop where
  length : (srv.copyToBuffer owner bucket).length = bucket.size
  le : bucket.size ≤ srv.bucketSize
  places : ∀ base, List.Forall₂ (Places (srv.copyToBuffer owner bucket) base) (srv.toNamedTensor bucket.items base)
    tensors

/-- The tensors of a bucket are put at multiples of their item sizes, from an offset on. -/
def AlignedAt (bucket : H2DBucket ι) (base : ℕ) : Prop :=
  ∀ item ∈ srv.toNamedTensor bucket.items base, item.offset % item.dtype.itemsize = 0

def Server.base (k : ℕ) : ℕ := k % 2 * srv.bucketSize

def tensorsOf (contents : ℕ → H2DBucket ι → List (String × Tensor)) (todo : List (ℕ × ℕ × H2DBucket ι)) :
    List (String × Tensor) := todo.flatMap fun e => contents e.2.1 e.2.2

/-- What the ranks rely on: the buckets of the schedule are laid out and aligned, and their receivers are ranks. -/
structure Planned (n : ℕ) (S : List (ℕ × ℕ × H2DBucket ι)) (contents : ℕ → H2DBucket ι → List (String × Tensor)) :
    Prop where
  nonempty : S ≠ []
  metas : srv.metas ≠ 0
  receivers : ∀ e ∈ S, ∃ q : Fin n, e.1 = rankOf srv q
  laidOut : ∀ e ∈ S, LaidOut srv e.2.1 e.2.2 (contents e.2.1 e.2.2)
  aligned : ∀ k e, S[k]? = some e → AlignedAt srv e.2.2 (srv.base k)
  follows : ∀ rank h2d, Follows srv.copyToBuffer rank h2d (commands rank srv.buckets) S

variable {srv} {S : List (ℕ × ℕ × H2DBucket ι)} {contents : ℕ → H2DBucket ι → List (String × Tensor)} {rank : ℕ}
  {messages messages' : Messages} {r r' : RankState ι} {rest : List (Command ι)}

def Server.bytesOf (srv : Server ι) (e : ℕ × ℕ × H2DBucket ι) : List UInt8 := srv.copyToBuffer e.2.1 e.2.2

/-- The buffer has the bytes of a scheduled bucket, in the half for a number. -/
def Filled (srv : Server ι) (buffer : List UInt8) (k : ℕ) (e : ℕ × ℕ × H2DBucket ι) : Prop :=
  Storage.read buffer (srv.base k) e.2.2.size = srv.bytesOf e

variable (srv S contents)

/-- Between two commands: `gidx` broadcasts have been made, and the tensors of all but the last one yielded. -/
structure AtLoop (rank : ℕ) (rest : List (Command ι)) (r : RankState ι) : Prop where
  op : r.op = .none
  made : r.broadcasts.length = r.gidx
  released : r.released = r.gidx - 1
  metadata : r.metadata = if r.gidx = 0 then none else S[r.gidx - 1]?.map fun e => e.2.2.items
  yielded : r.yielded = tensorsOf contents (S.take (r.gidx - 1))
  follows : Follows srv.copyToBuffer rank r.h2dBuffer rest (S.drop r.gidx)

/-- The operation for the scheduled bucket with number `gidx`. -/
def OpOk (rank : ℕ) (messages : Messages) (r : RankState ι) (e : ℕ × ℕ × H2DBucket ι) : Op ι → Prop
  | .none => False
  | .started src start bucket => r.broadcasts.length = r.gidx ∧ src = e.1 ∧ start = srv.base r.gidx ∧ bucket = e.2.2 ∧
      (src = rank → Filled srv r.buffer r.gidx e)
  | .sending src start bucket => r.broadcasts.length = r.gidx ∧ src = e.1 ∧ start = srv.base r.gidx ∧ bucket = e.2.2 ∧
      src = rank ∧ messages r.gidx ≠ none ∧ Filled srv r.buffer r.gidx e
  | .complete bucket => r.broadcasts.length = r.gidx + 1 ∧ bucket = e.2.2

def Running (rank : ℕ) (messages : Messages) (rest : List (Command ι)) (r : RankState ι) : Prop :=
  ∃ e, S[r.gidx]? = some e ∧ Follows srv.copyToBuffer rank r.h2dBuffer rest (S.drop (r.gidx + 1)) ∧
    OpOk srv rank messages r e r.op

/-- The tensors of the bucket with a number that are still to be yielded. -/
structure Yielding (k : ℕ) (items : List NamedTensor) (r : RankState ι) : Prop where
  released : r.released = k
  books : ∃ e done todo, S[k]? = some e ∧ contents e.2.1 e.2.2 = done ++ todo ∧
    r.yielded = tensorsOf contents (S.take k) ++ done ∧
    List.Forall₂ (Places (srv.bytesOf e) (srv.base k)) items todo
  aligned : ∀ item ∈ items, item.offset % item.dtype.itemsize = 0

/-- All broadcasts have been made and all tensors yielded. -/
structure AtEnd (r : RankState ι) : Prop where
  op : r.op = .none
  made : r.broadcasts.length = S.length
  released : r.released = S.length
  yielded : r.yielded = tensorsOf contents S
  barriers : r.barriers = 2

def PhaseOk (rank : ℕ) (messages : Messages) (r : RankState ι) : Phase ι → Prop
  | .start => r.barriers = 0 ∧ Fresh srv r
  | .entering => r.barriers = 1 ∧ Fresh srv r
  | .loop rest => r.barriers = 1 ∧ AtLoop srv S contents rank rest r
  | .yielding items (some rest) => r.barriers = 1 ∧ 0 < r.gidx ∧ Running srv S rank messages rest r ∧
      Yielding srv S contents (r.gidx - 1) items r
  | .waiting rest => r.barriers = 1 ∧ Running srv S rank messages rest r ∧ r.released = r.gidx ∧
      r.yielded = tensorsOf contents (S.take r.gidx)
  | .yielding items none => r.barriers = 1 ∧ r.op = .none ∧ r.broadcasts.length = S.length ∧ 0 < S.length ∧
      Yielding srv S contents (S.length - 1) items r
  | .leaving ok => ok = true ∧ AtEnd S contents r
  | .returned => AtEnd S contents r
  | .raised => False

/-- **The invariant of a rank.** -/
structure RankOk (rank : ℕ) (messages : Messages) (r : RankState ι) : Prop where
  length : r.buffer.length = 2 * srv.bucketSize
  order : r.broadcasts.IsPrefix (S.map fun e => (e.1, e.2.2))
  halves : ∀ k e, r.released ≤ k → k < r.broadcasts.length → S[k]? = some e → Filled srv r.buffer k e
  sent : ∀ k e, k < r.broadcasts.length → S[k]? = some e → e.1 = rank → messages k ≠ none
  phase : PhaseOk srv S contents rank messages r r.phase

variable {srv S contents}

/-! ## The halves of the buffer -/

theorem Server.base_eq (srv : Server ι) (k : ℕ) : srv.base k = 0 ∨ srv.base k = srv.bucketSize := by
  unfold Server.base
  rcases Nat.mod_two_eq_zero_or_one k with h | h
  · exact Or.inl (by rw [h, Nat.zero_mul])
  · exact Or.inr (by rw [h, Nat.one_mul])

theorem Server.base_ne {k m : ℕ} (h : k % 2 ≠ m % 2) :
    (srv.base k = 0 ∧ srv.base m = srv.bucketSize) ∨ (srv.base k = srv.bucketSize ∧ srv.base m = 0) := by
  unfold Server.base
  rcases Nat.mod_two_eq_zero_or_one k with hk | hk
  · have hm : m % 2 = 1 := by omega
    exact Or.inl ⟨by rw [hk, Nat.zero_mul], by rw [hm, Nat.one_mul]⟩
  · have hm : m % 2 = 0 := by omega
    exact Or.inr ⟨by rw [hk, Nat.one_mul], by rw [hm, Nat.zero_mul]⟩

/-- **The other half** is not touched by a write. -/
theorem read_write_base {buffer data : List UInt8} {k m size : ℕ} (hlength : buffer.length = 2 * srv.bucketSize)
    (hdata : data.length ≤ srv.bucketSize) (hsize : size ≤ srv.bucketSize) (hne : k % 2 ≠ m % 2) :
    Storage.read (Storage.write buffer (srv.base k) data) (srv.base m) size =
      Storage.read buffer (srv.base m) size := by
  rcases Server.base_ne hne with ⟨hk, hm⟩ | ⟨hk, hm⟩
  · rw [hk, hm]
    exact Storage.read_write_after (by omega) (by omega)
  · rw [hk, hm]
    exact Storage.read_write_before (by omega) (by omega)

theorem length_write_base {buffer data : List UInt8} {k : ℕ} (hlength : buffer.length = 2 * srv.bucketSize)
    (hdata : data.length ≤ srv.bucketSize) :
    (Storage.write buffer (srv.base k) data).length = 2 * srv.bucketSize := by
  rw [Storage.length_write, hlength]
  rcases srv.base_eq k with hk | hk
  · omega
  · omega

theorem filled_write {buffer : List UInt8} {k : ℕ} {e : ℕ × ℕ × H2DBucket ι} {data : List UInt8}
    (hlength : buffer.length = 2 * srv.bucketSize) (hdata : data = srv.bytesOf e) (hsize : data.length = e.2.2.size) :
    Filled srv (Storage.write buffer (srv.base k) data) k e := by
  unfold Filled
  rw [← hdata, ← hsize]
  refine Storage.read_write_self ?_
  rcases srv.base_eq k with hk | hk
  · omega
  · omega

/-! ## A step of `receive_tensor` -/

theorem tensorsOf_take_succ {k : ℕ} {e : ℕ × ℕ × H2DBucket ι} (h : S[k]? = some e) :
    tensorsOf contents (S.take (k + 1)) = tensorsOf contents (S.take k) ++ contents e.2.1 e.2.2 := by
  unfold tensorsOf
  rw [List.take_add_one, h, List.flatMap_append]
  exact congrArg _ (List.flatMap_singleton _ _)

/-- What is left of `receive_tensor`. -/
def phaseWork (srv : Server ι) (rank : ℕ) : Phase ι → ℕ
  | .start => 8 * (commands rank srv.buckets).length + 10
  | .entering => 8 * (commands rank srv.buckets).length + 9
  | .loop rest => 8 * rest.length + 5
  | .yielding _ (some rest) => 8 * rest.length + 7
  | .waiting rest => 8 * rest.length + 6
  | .yielding _ none => 4
  | .leaving _ => 3
  | .returned => 0
  | .raised => 0

def opWork : Op ι → ℕ
  | .none => 0
  | .complete _ => 1
  | .sending _ _ _ => 2
  | .started _ _ _ => 3

def RankState.work (srv : Server ι) (total rank : ℕ) (r : RankState ι) : ℕ :=
  phaseWork srv rank r.phase + opWork r.op + (total - r.yielded.length)

theorem Yielding.length_lt {k : ℕ} {item : NamedTensor} {items : List NamedTensor}
    (h : Yielding srv S contents k (item :: items) r) : r.yielded.length < (tensorsOf contents S).length := by
  obtain ⟨-, ⟨e, done, todo, hget, hsplit, hyielded, hplaces⟩, -⟩ := h
  cases hplaces with
  | cons hplace hrest =>
    rename_i t todo
    have htake : tensorsOf contents (S.take (k + 1)) = r.yielded ++ t :: todo := by
      rw [tensorsOf_take_succ hget, hsplit, hyielded, List.append_assoc]
    have hall : tensorsOf contents S = r.yielded ++ t :: todo ++ tensorsOf contents (S.drop (k + 1)) := by
      rw [← htake]
      unfold tensorsOf
      rw [← List.flatMap_append, List.take_append_drop]
    rw [hall, List.length_append, List.length_append, List.length_cons]
    omega

theorem RankOk.length_lt {item : NamedTensor} {items : List NamedTensor} {next : Option (List (Command ι))}
    (h : RankOk srv S contents rank messages r) (hphase : r.phase = .yielding (item :: items) next) :
    r.yielded.length < (tensorsOf contents S).length := by
  have hok := h.phase
  rw [hphase] at hok
  cases next with
  | some rest => exact hok.2.2.2.length_lt
  | none => exact hok.2.2.2.2.length_lt

theorem work_yieldBucket (total : ℕ) (r : RankState ι) (next : Option (List (Command ι))) :
    (r.yieldBucket srv next).work srv total rank ≤
      phaseWork srv rank (.yielding [] next) + opWork r.op + (total - r.yielded.length) := by
  unfold RankState.yieldBucket
  split
  · cases next with
    | some rest => exact Nat.le_refl _
    | none => exact Nat.le_refl _
  · cases next with
    | some rest =>
      simp only [RankState.work, RankState.fail, phaseWork]
      omega
    | none =>
      simp only [RankState.work, RankState.fail, phaseWork]
      omega

theorem buffer_yieldBucket (r : RankState ι) (next : Option (List (Command ι))) :
    (r.yieldBucket srv next).buffer = r.buffer := by
  unfold RankState.yieldBucket
  split
  · rfl
  · rfl

theorem RankOk.enterLoop (hplan : Planned srv n S contents) (h : RankOk srv S contents rank messages r)
    (hphase : r.phase = .entering) :
    RankOk srv S contents rank messages { r with phase := .loop (commands rank srv.buckets) } := by
  obtain ⟨hlength, horder, hhalves, hsent, hok⟩ := h
  rw [hphase] at hok
  obtain ⟨hbarriers, hfresh⟩ := hok
  refine ⟨hlength, horder, hhalves, hsent, hbarriers, hfresh.op, ?_, ?_, ?_, ?_, ?_⟩
  · exact (congrArg List.length hfresh.broadcasts).trans hfresh.gidx.symm
  · exact hfresh.released.trans (by rw [hfresh.gidx])
  · rw [if_pos hfresh.gidx]
    exact hfresh.metadata
  · rw [hfresh.gidx]
    exact hfresh.yielded
  · rw [hfresh.gidx, List.drop_zero]
    exact hplan.follows rank r.h2dBuffer

theorem RankOk.copyToH2d {owner : ℕ} {bucket : H2DBucket ι} (h : RankOk srv S contents rank messages r)
    (hphase : r.phase = .loop (.copyToH2d owner bucket :: rest)) :
    RankOk srv S contents rank messages
      { r with phase := .loop rest, h2dBuffer := Storage.write r.h2dBuffer 0 (srv.copyToBuffer owner bucket) } := by
  obtain ⟨hlength, horder, hhalves, hsent, hok⟩ := h
  rw [hphase] at hok
  obtain ⟨hbarriers, hop, hmade, hreleased, hmetadata, hyielded, hfollows⟩ := hok
  refine ⟨hlength, horder, hhalves, hsent, hbarriers, hop, hmade, hreleased, hmetadata, hyielded, ?_⟩
  cases hfollows with
  | copy hrest => exact hrest

/-- The next broadcast is that of the schedule, and its source has the bytes in its staging buffer. -/
theorem RankOk.staged (hplan : Planned srv n S contents) {receiver : ℕ} {bucket : H2DBucket ι}
    (h : RankOk srv S contents rank messages r) (hphase : r.phase = .loop (.broadcast receiver bucket :: rest)) :
    ∃ e, S[r.gidx]? = some e ∧ receiver = e.1 ∧ bucket = e.2.2 ∧
      Follows srv.copyToBuffer rank r.h2dBuffer rest (S.drop (r.gidx + 1)) ∧
      (receiver = rank → Storage.read r.h2dBuffer 0 bucket.size = srv.bytesOf e ∧
        (Storage.read r.h2dBuffer 0 bucket.size).length = bucket.size) ∧ bucket.size ≤ srv.bucketSize := by
  have hok := h.phase
  rw [hphase] at hok
  have hfollows := hok.2.follows
  generalize htodo : S.drop r.gidx = todo at hfollows
  cases hfollows with
  | broadcast hstaged hrest =>
    rename_i owner todo
    obtain ⟨hget, hdrop⟩ := getElem?_of_drop_cons htodo
    have hlaid := hplan.laidOut _ (List.mem_of_getElem? hget)
    rw [← hdrop] at hrest
    refine ⟨_, hget, rfl, rfl, hrest, fun hown => ⟨hstaged hown, ?_⟩, hlaid.le⟩
    rw [hstaged hown]
    exact hlaid.length

theorem RankOk.loop_free (h : RankOk srv S contents rank messages r) (hphase : r.phase = .loop rest) {k : ℕ}
    (hk : r.released ≤ k) (hlt : k < r.broadcasts.length) : r.gidx % 2 ≠ k % 2 := by
  have hok := h.phase
  rw [hphase] at hok
  have hmade := hok.2.made
  have hreleased := hok.2.released
  omega

theorem RankOk.read_broadcast (hplan : Planned srv n S contents) {receiver : ℕ} {bucket : H2DBucket ι}
    (h : RankOk srv S contents rank messages r) (hphase : r.phase = .loop (.broadcast receiver bucket :: rest))
    {k size : ℕ} (hk : r.released ≤ k) (hlt : k < r.broadcasts.length) (hsize : size ≤ srv.bucketSize) :
    Storage.read (r.broadcast srv rank receiver bucket).buffer (srv.base k) size =
      Storage.read r.buffer (srv.base k) size := by
  obtain ⟨e, -, -, -, -, hstaged, hle⟩ := h.staged hplan hphase
  by_cases hown : receiver = rank
  · have hbuffer : (r.broadcast srv rank receiver bucket).buffer =
        Storage.write r.buffer (srv.base r.gidx) (Storage.read r.h2dBuffer 0 bucket.size) := if_pos hown
    rw [hbuffer]
    refine read_write_base h.length ?_ hsize (h.loop_free hphase hk hlt)
    rw [(hstaged hown).2]
    exact hle
  · have hbuffer : (r.broadcast srv rank receiver bucket).buffer = r.buffer := if_neg hown
    rw [hbuffer]

theorem RankOk.broadcast (hplan : Planned srv n S contents) {receiver : ℕ} {bucket : H2DBucket ι}
    (h : RankOk srv S contents rank messages r) (hphase : r.phase = .loop (.broadcast receiver bucket :: rest)) :
    Running srv S rank messages rest (r.broadcast srv rank receiver bucket) ∧
      (r.broadcast srv rank receiver bucket).buffer.length = 2 * srv.bucketSize ∧
      ∀ k e, r.released ≤ k → k < r.broadcasts.length → S[k]? = some e →
        Filled srv (r.broadcast srv rank receiver bucket).buffer k e := by
  have hok := h.phase
  rw [hphase] at hok
  have hmade := hok.2.made
  obtain ⟨e, hget, hreceiver, hbucket, hrest, hstaged, hle⟩ := h.staged hplan hphase
  refine ⟨⟨e, hget, hrest, hmade, hreceiver, rfl, hbucket, fun hown => ?_⟩, ?_, fun k ek hk hlt hek => ?_⟩
  · obtain ⟨hread, hsize⟩ := hstaged hown
    have hbuffer : (r.broadcast srv rank receiver bucket).buffer =
        Storage.write r.buffer (srv.base r.gidx) (Storage.read r.h2dBuffer 0 bucket.size) := if_pos hown
    rw [hbuffer]
    exact filled_write h.length hread (by rw [hsize, hbucket])
  · by_cases hown : receiver = rank
    · have hbuffer : (r.broadcast srv rank receiver bucket).buffer =
          Storage.write r.buffer (srv.base r.gidx) (Storage.read r.h2dBuffer 0 bucket.size) := if_pos hown
      rw [hbuffer]
      refine length_write_base h.length ?_
      rw [(hstaged hown).2]
      exact hle
    · have hbuffer : (r.broadcast srv rank receiver bucket).buffer = r.buffer := if_neg hown
      rw [hbuffer]
      exact h.length
  -- the bucket before is in the other half
  · unfold Filled
    rw [h.read_broadcast hplan hphase hk hlt (hplan.laidOut ek (List.mem_of_getElem? hek)).le]
    exact h.halves k ek hk hlt hek

theorem yielding_start (hplan : Planned srv n S contents) {k : ℕ} {e : ℕ × ℕ × H2DBucket ι} (hget : S[k]? = some e)
    (hreleased : r.released = k) (hyielded : r.yielded = tensorsOf contents (S.take k)) :
    Yielding srv S contents k (srv.toNamedTensor e.2.2.items (srv.base k)) r where
  released := hreleased
  books := ⟨e, [], contents e.2.1 e.2.2, hget, rfl, by rw [List.append_nil, hyielded],
    (hplan.laidOut e (List.mem_of_getElem? hget)).places _⟩
  aligned := hplan.aligned k e hget

theorem yieldBucket_eq {metadata : List ι} (h : r.metadata = some metadata) (rest : Option (List (Command ι))) :
    r.yieldBucket srv rest =
      { r with phase := .yielding (srv.toNamedTensor metadata (srv.base (r.gidx - 1))) rest } := by
  obtain ⟨phase, barriers, gidx, metadata', h2dBuffer, buffer, op, broadcasts, yielded, released⟩ := r
  obtain rfl : metadata' = some metadata := h
  rfl

theorem RankOk.startBroadcast (hplan : Planned srv n S contents) {receiver : ℕ} {bucket : H2DBucket ι}
    (h : RankOk srv S contents rank messages r) (hphase : r.phase = .loop (.broadcast receiver bucket :: rest)) :
    RankOk srv S contents rank messages
      (if r.gidx = 0 then { r.broadcast srv rank receiver bucket with phase := .waiting rest }
        else (r.broadcast srv rank receiver bucket).yieldBucket srv (some rest)) := by
  obtain ⟨hrunning, hlength, hhalves⟩ := h.broadcast hplan hphase
  obtain ⟨-, horder, -, hsent, hok⟩ := h
  rw [hphase] at hok
  obtain ⟨hbarriers, -, hmade, hreleased, hmetadata, hyielded, -⟩ := hok
  by_cases hfirst : r.gidx = 0
  · rw [if_pos hfirst]
    refine ⟨hlength, horder, hhalves, hsent, hbarriers, hrunning, ?_, ?_⟩
    · show r.released = r.gidx
      omega
    · rw [hfirst] at hyielded
      show r.yielded = tensorsOf contents (S.take r.gidx)
      rw [hyielded, hfirst]
  · rw [if_neg hfirst]
    obtain ⟨e, hget⟩ : ∃ e, S[r.gidx - 1]? = some e := by
      obtain ⟨e, he, -⟩ := hrunning
      have hlt : r.gidx < S.length := (List.getElem?_eq_some_iff.1 he).1
      exact ⟨_, List.getElem?_eq_getElem (by omega)⟩
    rw [if_neg hfirst, hget] at hmetadata
    have hmetadata' : (r.broadcast srv rank receiver bucket).metadata = some e.2.2.items := hmetadata
    rw [yieldBucket_eq hmetadata']
    exact ⟨hlength, horder, hhalves, hsent, hbarriers, Nat.pos_of_ne_zero hfirst, hrunning,
      yielding_start hplan hget hreleased hyielded⟩

theorem RankOk.endLoop (hplan : Planned srv n S contents) (h : RankOk srv S contents rank messages r)
    (hphase : r.phase = .loop []) : RankOk srv S contents rank messages (r.yieldBucket srv none) := by
  obtain ⟨hlength, horder, hhalves, hsent, hok⟩ := h
  rw [hphase] at hok
  obtain ⟨hbarriers, hop, hmade, hreleased, hmetadata, hyielded, hfollows⟩ := hok
  have hend : S.length ≤ r.gidx := by
    generalize htodo : S.drop r.gidx = todo at hfollows
    cases hfollows with
    | done => exact List.drop_eq_nil_iff.1 htodo
  have hle : r.broadcasts.length ≤ S.length := by
    have := horder.length_le
    rwa [List.length_map] at this
  have hpos : 0 < S.length := List.length_pos_iff.2 hplan.nonempty
  have hgidx : r.gidx = S.length := by omega
  obtain ⟨e, hget⟩ : ∃ e, S[S.length - 1]? = some e := ⟨_, List.getElem?_eq_getElem (by omega)⟩
  rw [if_neg (by omega), hgidx, hget] at hmetadata
  have hmetadata' : r.metadata = some e.2.2.items := hmetadata
  rw [yieldBucket_eq hmetadata', hgidx]
  rw [hgidx] at hreleased hyielded
  exact ⟨hlength, horder, hhalves, hsent, hbarriers, hop, by rw [hmade, hgidx], hpos,
    yielding_start hplan hget hreleased hyielded⟩

/-- **A tensor is yielded** with its name and its bytes. -/
theorem Yielding.yield {k : ℕ} {item : NamedTensor} {items : List NamedTensor}
    (h : Yielding srv S contents k (item :: items) r) (hplan : Planned srv n S contents)
    (hfilled : ∀ e, S[k]? = some e → Filled srv r.buffer k e) (phase : Phase ι) :
    ∃ tensor, viewTensor r.buffer item = some tensor ∧ Yielding srv S contents k items
      { r with phase := phase, yielded := r.yielded ++ [(item.name, tensor)] } := by
  obtain ⟨hreleased, ⟨e, done, todo, hget, hsplit, hyielded, hplaces⟩, haligned⟩ := h
  cases hplaces with
  | cons hplace hrest =>
    rename_i t todo
    obtain ⟨hname, hshape, hdtype, hle, hfits, hbytes⟩ := hplace
    have hsize : item.dtype.itemsize * item.shape.prod = t.2.nbytes := by
      rw [hdtype, hshape]
      exact t.2.length_bytes.symm
    have hlaid := (hplan.laidOut e (List.mem_of_getElem? hget)).length
    have hregion : item.offset - srv.base k + t.2.nbytes ≤ e.2.2.size := by
      have hbytesLength : (srv.bytesOf e).length = e.2.2.size := hlaid
      omega
    have hread : Storage.read r.buffer item.offset t.2.nbytes = t.2.bytes := by
      rw [← hbytes, ← hfilled e hget, Storage.read_read hregion, Nat.add_sub_cancel' hle]
    refine ⟨t.2, ?_, hreleased, ⟨e, done ++ [t], todo, hget, ?_, ?_, hrest⟩, ?_⟩
    · have hzero := haligned item List.mem_cons_self
      unfold viewTensor
      rw [hsize, hread, hshape, hdtype]
      exact viewAs_bytes t.2 (by rw [← hdtype]; exact hzero)
    · rw [hsplit, List.append_assoc]
      rfl
    · show r.yielded ++ [(item.name, t.2)] = _
      rw [hyielded, hname, List.append_assoc]
    · exact fun i hi => haligned i (List.mem_cons_of_mem _ hi)

theorem Yielding.done {k : ℕ} (h : Yielding srv S contents k [] r) :
    r.yielded = tensorsOf contents (S.take (k + 1)) := by
  obtain ⟨-, ⟨e, done, todo, hget, hsplit, hyielded, hplaces⟩, -⟩ := h
  cases hplaces
  rw [hyielded, tensorsOf_take_succ hget, hsplit, List.append_nil]

theorem Running.le (h : Running srv S rank messages rest r) : r.gidx ≤ r.broadcasts.length := by
  obtain ⟨e, -, -, hop⟩ := h
  unfold OpOk at hop
  split at hop
  · cases hop
  · exact Nat.le_of_eq hop.1.symm
  · exact Nat.le_of_eq hop.1.symm
  · rw [hop.1]
    exact Nat.le_succ _

theorem RankOk.yieldTensor (hplan : Planned srv n S contents) {item : NamedTensor} {items : List NamedTensor}
    {next : Option (List (Command ι))} (h : RankOk srv S contents rank messages r)
    (hphase : r.phase = .yielding (item :: items) next) :
    ∃ tensor, viewTensor r.buffer item = some tensor ∧ RankOk srv S contents rank messages
      { r with phase := .yielding items next, yielded := r.yielded ++ [(item.name, tensor)] } := by
  obtain ⟨hlength, horder, hhalves, hsent, hok⟩ := h
  rw [hphase] at hok
  cases next with
  | some rest =>
    obtain ⟨hbarriers, hpos, hrunning, hyielding⟩ := hok
    have hle := hrunning.le
    obtain ⟨tensor, hview, hnext⟩ := hyielding.yield hplan
      (fun e he => hhalves _ e (Nat.le_of_eq hyielding.released) (by omega) he) (.yielding items (some rest))
    exact ⟨tensor, hview, hlength, horder, hhalves, hsent, hbarriers, hpos, hrunning, hnext⟩
  | none =>
    obtain ⟨hbarriers, hop, hmade, hpos, hyielding⟩ := hok
    obtain ⟨tensor, hview, hnext⟩ := hyielding.yield hplan
      (fun e he => hhalves _ e (Nat.le_of_eq hyielding.released) (by omega) he) (.yielding items none)
    exact ⟨tensor, hview, hlength, horder, hhalves, hsent, hbarriers, hop, hmade, hpos, hnext⟩

theorem RankOk.release (h : RankOk srv S contents rank messages r) (hphase : r.phase = .yielding [] (some rest)) :
    RankOk srv S contents rank messages { r with phase := .waiting rest, released := r.released + 1 } := by
  obtain ⟨hlength, horder, hhalves, hsent, hok⟩ := h
  rw [hphase] at hok
  obtain ⟨hbarriers, hpos, hrunning, hyielding⟩ := hok
  have hreleased := hyielding.released
  refine ⟨hlength, horder, fun k e hk => hhalves k e (Nat.le_of_succ_le hk), hsent, hbarriers, hrunning, ?_, ?_⟩
  · show r.released + 1 = r.gidx
    omega
  · have hdone := hyielding.done
    rwa [Nat.sub_add_cancel hpos] at hdone

theorem RankOk.releaseLast (h : RankOk srv S contents rank messages r) (hphase : r.phase = .yielding [] none) :
    RankOk srv S contents rank messages
      { r with phase := .leaving true, released := r.released + 1, barriers := r.barriers + 1 } := by
  obtain ⟨hlength, horder, hhalves, hsent, hok⟩ := h
  rw [hphase] at hok
  obtain ⟨hbarriers, hop, hmade, hpos, hyielding⟩ := hok
  have hreleased := hyielding.released
  refine ⟨hlength, horder, fun k e hk => hhalves k e (Nat.le_of_succ_le hk), hsent, rfl, hop, hmade, ?_, ?_, ?_⟩
  · show r.released + 1 = S.length
    omega
  · have hdone := hyielding.done
    rwa [Nat.sub_add_cancel hpos, List.take_length] at hdone
  · show r.barriers + 1 = 2
    omega

theorem RankOk.completeOp {bucket : H2DBucket ι} (h : RankOk srv S contents rank messages r)
    (hphase : r.phase = .waiting rest) (hop : r.op = .complete bucket) :
    RankOk srv S contents rank messages
      { r with phase := .loop rest, metadata := some bucket.items, gidx := r.gidx + 1, op := .none } := by
  obtain ⟨hlength, horder, hhalves, hsent, hok⟩ := h
  rw [hphase] at hok
  obtain ⟨hbarriers, ⟨e, hget, hfollows, hopOk⟩, hreleased, hyielded⟩ := hok
  rw [hop] at hopOk
  obtain ⟨hmade, hbucket⟩ := hopOk
  refine ⟨hlength, horder, hhalves, hsent, hbarriers, rfl, hmade, hreleased, ?_, hyielded, hfollows⟩
  show some bucket.items = if r.gidx + 1 = 0 then none else S[r.gidx]?.map fun e => e.2.2.items
  rw [if_neg (Nat.succ_ne_zero _), hget, hbucket]
  rfl

/-- What a step does to a rank: it keeps the invariant, leaves less work, and does not write a half with tensors. -/
structure Moves (srv : Server ι) (S : List (ℕ × ℕ × H2DBucket ι)) (contents : ℕ → H2DBucket ι → List (String × Tensor))
    (rank : ℕ) (messages : Messages) (r r' : RankState ι) : Prop where
  ok : RankOk srv S contents rank messages r'
  work : r'.work srv (tensorsOf contents S).length rank < r.work srv (tensorsOf contents S).length rank
  held : ∀ k, r.released ≤ k → k < r.broadcasts.length →
    Storage.read r'.buffer (srv.base k) srv.bucketSize = Storage.read r.buffer (srv.base k) srv.bucketSize

/-- **A step of `receive_tensor`**. -/
theorem RankOk.mainStep (hplan : Planned srv n S contents) (h : RankOk srv S contents rank messages r)
    {passed : ℕ → Bool} (hstep : mainStep srv rank passed r = some r') : Moves srv S contents rank messages r r' := by
  unfold KimiEngine.mainStep at hstep
  split at hstep
  · rename_i hphase
    rw [if_neg hplan.metas] at hstep
    obtain rfl := Option.some.inj hstep
    have hok := h.phase
    rw [hphase] at hok
    obtain ⟨hbarriers, hfresh⟩ := hok
    refine ⟨⟨h.length, h.order, h.halves, h.sent, congrArg (· + 1) hbarriers,
      ⟨hfresh.gidx, hfresh.metadata, hfresh.op, hfresh.broadcasts, hfresh.yielded, hfresh.released, hfresh.buffer⟩⟩, ?_,
      fun _ _ _ => rfl⟩
    simp only [RankState.work, hphase, phaseWork]
    omega
  · rename_i hphase
    split at hstep
    · obtain rfl := Option.some.inj hstep
      refine ⟨h.enterLoop hplan hphase, ?_, fun _ _ _ => rfl⟩
      simp only [RankState.work, hphase, phaseWork]
      omega
    · cases hstep
  · rename_i owner bucket rest hphase
    obtain rfl := Option.some.inj hstep
    refine ⟨h.copyToH2d hphase, ?_, fun _ _ _ => rfl⟩
    simp only [RankState.work, hphase, phaseWork, List.length_cons]
    omega
  · rename_i receiver bucket rest hphase
    rw [← apply_ite some] at hstep
    obtain rfl := Option.some.inj hstep
    refine ⟨h.startBroadcast hplan hphase, ?_, fun k hk hlt => ?_⟩
    · split
      · simp only [RankState.work, RankState.broadcast, hphase, phaseWork, opWork, List.length_cons]
        omega
      · refine Nat.lt_of_le_of_lt (work_yieldBucket _ _ _) ?_
        simp only [RankState.work, RankState.broadcast, hphase, phaseWork, opWork, List.length_cons]
        omega
    · have hread := h.read_broadcast hplan hphase hk hlt (Nat.le_refl srv.bucketSize)
      split
      · exact hread
      · rw [buffer_yieldBucket]
        exact hread
  · rename_i hphase
    obtain rfl := Option.some.inj hstep
    refine ⟨h.endLoop hplan hphase, Nat.lt_of_le_of_lt (work_yieldBucket _ r none) ?_, fun _ _ _ => ?_⟩
    · simp only [RankState.work, hphase, phaseWork, List.length_nil]
      omega
    · rw [buffer_yieldBucket]
  · rename_i item items next hphase
    obtain ⟨tensor, hview, hnext⟩ := h.yieldTensor hplan hphase
    rw [hview] at hstep
    obtain rfl := Option.some.inj hstep
    refine ⟨hnext, ?_, fun _ _ _ => rfl⟩
    have hlt := h.length_lt hphase
    cases next with
    | some rest =>
      simp only [RankState.work, hphase, phaseWork, List.length_append, List.length_singleton]
      omega
    | none =>
      simp only [RankState.work, hphase, phaseWork, List.length_append, List.length_singleton]
      omega
  · rename_i rest hphase
    obtain rfl := Option.some.inj hstep
    refine ⟨h.release hphase, ?_, fun _ _ _ => rfl⟩
    simp only [RankState.work, hphase, phaseWork]
    omega
  · rename_i hphase
    obtain rfl := Option.some.inj hstep
    refine ⟨h.releaseLast hphase, ?_, fun _ _ _ => rfl⟩
    simp only [RankState.work, hphase, phaseWork]
    omega
  · rename_i rest hphase
    split at hstep
    · rename_i bucket hop
      obtain rfl := Option.some.inj hstep
      refine ⟨h.completeOp hphase hop, ?_, fun _ _ _ => rfl⟩
      simp only [RankState.work, hphase, hop, phaseWork, opWork]
      omega
    · cases hstep
  · rename_i ok hphase
    split at hstep
    · obtain rfl := Option.some.inj hstep
      have hok := h.phase
      rw [hphase] at hok
      obtain ⟨rfl, hend⟩ := hok
      refine ⟨⟨h.length, h.order, h.halves, h.sent, hend.op, hend.made, hend.released, hend.yielded, hend.barriers⟩, ?_,
        fun _ _ _ => rfl⟩
      simp only [RankState.work, hphase, phaseWork, if_true]
      omega
    · cases hstep
  · cases hstep
  · cases hstep

/-! ## A step of a thread -/

def MessagesOk (srv : Server ι) (S : List (ℕ × ℕ × H2DBucket ι)) (messages : Messages) : Prop :=
  ∀ k sender payload, messages k = some (sender, payload) →
    ∃ e, S[k]? = some e ∧ sender = e.1 ∧ payload = srv.bytesOf e

theorem RankOk.opOk (h : RankOk srv S contents rank messages r) (hop : r.op ≠ .none) :
    ∃ e, S[r.gidx]? = some e ∧ OpOk srv rank messages r e r.op ∧ r.gidx - 1 ≤ r.released ∧
      ∀ messages' op' buffer' broadcasts',
        OpOk srv rank messages' { r with op := op', buffer := buffer', broadcasts := broadcasts' } e op' →
        PhaseOk srv S contents rank messages' { r with op := op', buffer := buffer', broadcasts := broadcasts' }
          r.phase := by
  obtain ⟨-, -, -, -, hok⟩ := h
  unfold PhaseOk at hok
  split at hok
  · exact absurd hok.2.op hop
  · exact absurd hok.2.op hop
  · exact absurd hok.2.op hop
  · rename_i items rest hphase
    obtain ⟨hbarriers, hpos, ⟨e, hget, hfollows, hopOk⟩, hyielding⟩ := hok
    refine ⟨e, hget, hopOk, Nat.le_of_eq hyielding.released.symm, fun messages' op' buffer' broadcasts' hnext => ?_⟩
    rw [hphase]
    exact ⟨hbarriers, hpos, ⟨e, hget, hfollows, hnext⟩, hyielding.released, hyielding.books, hyielding.aligned⟩
  · rename_i rest hphase
    obtain ⟨hbarriers, ⟨e, hget, hfollows, hopOk⟩, hreleased, hyielded⟩ := hok
    refine ⟨e, hget, hopOk, by omega, fun messages' op' buffer' broadcasts' hnext => ?_⟩
    rw [hphase]
    exact ⟨hbarriers, ⟨e, hget, hfollows, hnext⟩, hreleased, hyielded⟩
  · exact absurd hok.2.1 hop
  · exact absurd hok.2.op hop
  · exact absurd hok.op hop
  · cases hok

theorem isPrefix_concat {α : Type*} {front l : List α} {a : α} (h : front.IsPrefix l) (hget : l[front.length]? = some a) :
    (front ++ [a]).IsPrefix l := by
  obtain ⟨tail, rfl⟩ := h
  rw [List.getElem?_append_right (Nat.le_refl _), Nat.sub_self] at hget
  cases tail with
  | nil => cases hget
  | cons b tail =>
    obtain rfl : b = a := Option.some.inj hget
    exact ⟨tail, by rw [List.append_assoc]; rfl⟩

theorem RankOk.concat {e : ℕ × ℕ × H2DBucket ι} (horder : r.broadcasts.IsPrefix (S.map fun e => (e.1, e.2.2)))
    (hmade : r.broadcasts.length = r.gidx) (hget : S[r.gidx]? = some e) :
    (r.broadcasts ++ [(e.1, e.2.2)]).IsPrefix (S.map fun e => (e.1, e.2.2)) := by
  refine isPrefix_concat horder ?_
  rw [List.getElem?_map, hmade, hget]
  rfl

/-- The broadcast of a rank has been made: its half of the buffer is filled, and the other one has its tensors. -/
theorem RankOk.made {e : ℕ × ℕ × H2DBucket ι} {buffer : List UInt8} (h : RankOk srv S contents rank messages r)
    (hmade : r.broadcasts.length = r.gidx) (hget : S[r.gidx]? = some e) (hlength : buffer.length = 2 * srv.bucketSize)
    (hfilled : Filled srv buffer r.gidx e) (hsent : e.1 = rank → messages r.gidx ≠ none)
    (hothers : ∀ k ek, r.released ≤ k → k < r.gidx → S[k]? = some ek → Filled srv buffer k ek)
    (hphase : PhaseOk srv S contents rank messages
      { r with op := .complete e.2.2, buffer := buffer, broadcasts := r.broadcasts ++ [(e.1, e.2.2)] } r.phase) :
    RankOk srv S contents rank messages
      { r with op := .complete e.2.2, buffer := buffer, broadcasts := r.broadcasts ++ [(e.1, e.2.2)] } := by
  have hlt : (r.broadcasts ++ [(e.1, e.2.2)]).length = r.gidx + 1 := by
    rw [List.length_append, hmade]
    rfl
  refine ⟨hlength, RankOk.concat h.order hmade hget, fun k ek hk hkm hek => ?_, fun k ek hkm hek hrank => ?_, hphase⟩
  · replace hkm : k < (r.broadcasts ++ [(e.1, e.2.2)]).length := hkm
    rw [hlt] at hkm
    rcases Nat.lt_succ_iff_lt_or_eq.1 hkm with hbefore | rfl
    · exact hothers k ek hk hbefore hek
    · obtain rfl := Option.some.inj (hget.symm.trans hek)
      exact hfilled
  · replace hkm : k < (r.broadcasts ++ [(e.1, e.2.2)]).length := hkm
    rw [hlt] at hkm
    rcases Nat.lt_succ_iff_lt_or_eq.1 hkm with hbefore | rfl
    · exact h.sent k ek (by omega) hek hrank
    · obtain rfl := Option.some.inj (hget.symm.trans hek)
      exact hsent hrank

/-- **A step of a thread** also keeps what has been broadcast, and takes nothing back. -/
theorem RankOk.threadStep (hplan : Planned srv n S contents) (hmessages : MessagesOk srv S messages)
    (h : RankOk srv S contents rank messages r) {everywhere : Bool}
    (hstep : threadStep srv rank messages everywhere r = some (messages', r')) :
    Moves srv S contents rank messages' r r' ∧ MessagesOk srv S messages' ∧
      ∀ k, messages k ≠ none → messages' k ≠ none := by
  unfold KimiEngine.threadStep at hstep
  split at hstep
  · rename_i src start bucket hop
    obtain ⟨e, hget, hopOk, hreleased, hphase⟩ := h.opOk (by rw [hop]; exact fun heq => by cases heq)
    rw [hop] at hopOk
    obtain ⟨hmade, rfl, rfl, rfl, hfilled⟩ := hopOk
    by_cases hown : e.1 = rank
    -- the source puts its bytes on their way
    · rw [if_pos hown] at hstep
      obtain ⟨rfl, rfl⟩ := Prod.mk.inj (Option.some.inj hstep)
      have hmore : ∀ k, messages k ≠ none → Function.update messages r.broadcasts.length
          (some (rank, Storage.read r.buffer (srv.base r.gidx) e.2.2.size)) k ≠ none := by
        intro k hk
        by_cases heq : k = r.broadcasts.length
        · rw [heq, Function.update_self]
          exact Option.some_ne_none _
        · rw [Function.update_of_ne heq]
          exact hk
      refine ⟨⟨⟨h.length, h.order, h.halves, fun k e' hk hek hrank => hmore k (h.sent k e' hk hek hrank),
        hphase _ _ _ _ ⟨hmade, rfl, rfl, rfl, hown, ?_, hfilled hown⟩⟩, ?_, fun _ _ _ => rfl⟩,
        fun k sender payload hk => ?_, hmore⟩
      · rw [hmade, Function.update_self]
        exact Option.some_ne_none _
      · simp only [RankState.work, hop, opWork]
        omega
      · by_cases heq : k = r.broadcasts.length
        · rw [heq, Function.update_self] at hk
          obtain ⟨rfl, rfl⟩ := Prod.mk.inj (Option.some.inj hk)
          rw [heq, hmade]
          exact ⟨e, hget, hown.symm, hfilled hown⟩
        · rw [Function.update_of_ne heq] at hk
          exact hmessages k sender payload hk
    -- another rank receives them into the half that has no tensors
    · rw [if_neg hown] at hstep
      split at hstep
      · rename_i sender payload hmessage
        split at hstep
        · rename_i hmatch
          obtain ⟨rfl, rfl⟩ := Prod.mk.inj (Option.some.inj hstep)
          obtain ⟨e', hget', hsender, hpayload⟩ := hmessages _ _ _ hmessage
          rw [hmade, hget] at hget'
          obtain rfl := Option.some.inj hget'
          have hle : payload.length ≤ srv.bucketSize := by
            rw [hmatch.2]
            exact (hplan.laidOut e (List.mem_of_getElem? hget)).le
          have hheld : ∀ k size, r.released ≤ k → k < r.gidx → size ≤ srv.bucketSize →
              Storage.read (Storage.write r.buffer (srv.base r.gidx) payload) (srv.base k) size =
                Storage.read r.buffer (srv.base k) size :=
            fun k size hk hlt hsize => read_write_base h.length hle hsize (by omega)
          refine ⟨⟨h.made hmade hget (length_write_base h.length hle) (filled_write h.length hpayload hmatch.2)
            (fun hrank => absurd hrank hown) (fun k ek hk hlt hek => ?_)
            (hphase _ _ _ _ ⟨List.length_append.trans (congrArg (· + 1) hmade), rfl⟩), ?_,
            fun k hk hlt => hheld k _ hk (by omega) (Nat.le_refl _)⟩, hmessages, fun k hk => hk⟩
          · refine Eq.trans ?_ (h.halves k ek hk (by omega) hek)
            exact hheld k _ hk hlt (hplan.laidOut ek (List.mem_of_getElem? hek)).le
          · simp only [RankState.work, hop, opWork]
            omega
        · cases hstep
      · cases hstep
  · rename_i src start bucket hop
    obtain ⟨e, hget, hopOk, hreleased, hphase⟩ := h.opOk (by rw [hop]; exact fun heq => by cases heq)
    rw [hop] at hopOk
    obtain ⟨hmade, rfl, rfl, rfl, hown, hposted, hfilled⟩ := hopOk
    split at hstep
    -- the broadcast returns at its source
    · obtain ⟨rfl, rfl⟩ := Prod.mk.inj (Option.some.inj hstep)
      refine ⟨⟨h.made hmade hget h.length hfilled (fun _ => hposted)
        (fun k ek hk hlt hek => h.halves k ek hk (by omega) hek)
        (hphase _ _ _ _ ⟨List.length_append.trans (congrArg (· + 1) hmade), rfl⟩), ?_, fun _ _ _ => rfl⟩, hmessages,
        fun k hk => hk⟩
      simp only [RankState.work, hop, opWork]
      omega
    · cases hstep
  · cases hstep
  · cases hstep

theorem RankOk.mono (h : RankOk srv S contents rank messages r) (hmore : ∀ k, messages k ≠ none → messages' k ≠ none) :
    RankOk srv S contents rank messages' r := by
  have hop : ∀ e, OpOk srv rank messages r e r.op → OpOk srv rank messages' r e r.op := by
    intro e he
    unfold OpOk at he ⊢
    split at he
    · cases he
    · exact he
    · obtain ⟨hmade, hsrc, hstart, hbucket, hown, hposted, hfilled⟩ := he
      exact ⟨hmade, hsrc, hstart, hbucket, hown, hmore _ hposted, hfilled⟩
    · exact he
  obtain ⟨hlength, horder, hhalves, hsent, hok⟩ := h
  refine ⟨hlength, horder, hhalves, fun k e hk hek hrank => hmore k (hsent k e hk hek hrank), ?_⟩
  unfold PhaseOk at hok ⊢
  split at hok
  · exact hok
  · exact hok
  · exact hok
  · obtain ⟨hbarriers, hpos, ⟨e, hget, hfollows, hopOk⟩, hyielding⟩ := hok
    exact ⟨hbarriers, hpos, ⟨e, hget, hfollows, hop e hopOk⟩, hyielding⟩
  · obtain ⟨hbarriers, ⟨e, hget, hfollows, hopOk⟩, hreleased⟩ := hok
    exact ⟨hbarriers, ⟨e, hget, hfollows, hop e hopOk⟩, hreleased⟩
  · exact hok
  · exact hok
  · exact hok
  · exact hok

/-! ## The invariant of all ranks -/

/-- **The invariant.** -/
structure Inv (srv : Server ι) (S : List (ℕ × ℕ × H2DBucket ι)) (contents : ℕ → H2DBucket ι → List (String × Tensor))
    (s : State n ι) : Prop where
  messages : MessagesOk srv S s.messages
  ranks : ∀ q, RankOk srv S contents (rankOf srv q) s.messages (s.ranks q)

variable {s s' : State n ι}

theorem inv_init (h : Init srv s) : Inv srv S contents s := by
  refine ⟨fun k sender payload hk => ?_, fun q => ?_⟩
  · rw [h.messages k] at hk
    cases hk
  · obtain ⟨hphase, hbarriers, hfresh⟩ := h.ranks q
    have hnone : (s.ranks q).broadcasts.length = 0 := congrArg List.length hfresh.broadcasts
    refine ⟨hfresh.buffer, ?_, fun k e _ hlt => ?_, fun k e hlt => ?_, ?_⟩
    · rw [hfresh.broadcasts]
      exact List.nil_prefix
    · rw [hnone] at hlt
      exact absurd hlt (Nat.not_lt_zero k)
    · rw [hnone] at hlt
      exact absurd hlt (Nat.not_lt_zero k)
    · rw [hphase]
      exact ⟨hbarriers, hfresh⟩

theorem moves_of_step (hplan : Planned srv n S contents) (h : Inv srv S contents s) {a : Process n}
    (hstep : step srv s a = some s') :
    ∃ q r, s'.ranks = Function.update s.ranks q r ∧ Moves srv S contents (rankOf srv q) s'.messages (s.ranks q) r ∧
      MessagesOk srv S s'.messages ∧ ∀ k, s.messages k ≠ none → s'.messages k ≠ none := by
  cases a with
  | main q =>
    obtain ⟨r, hr, rfl⟩ := Option.map_eq_some_iff.1 hstep
    exact ⟨q, r, rfl, (h.ranks q).mainStep hplan hr, h.messages, fun _ hk => hk⟩
  | thread q =>
    obtain ⟨⟨messages, r⟩, hr, rfl⟩ := Option.map_eq_some_iff.1 hstep
    exact ⟨q, r, rfl, (h.ranks q).threadStep hplan h.messages hr⟩

theorem inv_step (hplan : Planned srv n S contents) (h : Inv srv S contents s) {a : Process n}
    (hstep : step srv s a = some s') : Inv srv S contents s' := by
  obtain ⟨q, r, hranks, hmoves, hmessages, hmore⟩ := moves_of_step hplan h hstep
  refine ⟨hmessages, fun p => ?_⟩
  rw [hranks]
  by_cases hp : p = q
  · subst hp
    rw [Function.update_self]
    exact hmoves.ok
  · rw [Function.update_of_ne hp]
    exact (h.ranks p).mono hmore

def State.work (srv : Server ι) (total : ℕ) (s : State n ι) : ℕ := ∑ q, (s.ranks q).work srv total (rankOf srv q)

theorem work_step (hplan : Planned srv n S contents) (h : Inv srv S contents s) {a : Process n}
    (hstep : step srv s a = some s') :
    s'.work srv (tensorsOf contents S).length < s.work srv (tensorsOf contents S).length := by
  obtain ⟨q, r, hranks, hmoves, -⟩ := moves_of_step hplan h hstep
  unfold State.work
  rw [hranks]
  exact System.sum_update_lt (fun (q : Fin n) (r : RankState ι) => r.work srv (tensorsOf contents S).length (rankOf srv q))
    hmoves.work

theorem unwritten (hplan : Planned srv n S contents) (h : Inv srv S contents s) {a : Process n}
    (hstep : step srv s a = some s') {q : Fin n} {half : ℕ} (hholds : (s.ranks q).Holds half) :
    Storage.read (s'.ranks q).buffer (half * srv.bucketSize) srv.bucketSize =
      Storage.read (s.ranks q).buffer (half * srv.bucketSize) srv.bucketSize := by
  obtain ⟨k, hk, hlt, rfl⟩ := hholds
  obtain ⟨p, r, hranks, hmoves, -⟩ := moves_of_step hplan h hstep
  rw [hranks]
  by_cases hp : q = p
  · subst hp
    rw [Function.update_self]
    exact hmoves.held k hk hlt
  · rw [Function.update_of_ne hp]

/-- **The invariant holds in every reachable state.** -/
theorem inv_of_reach (hplan : Planned srv n S contents) (h : (transfer srv n).Reach s) : Inv srv S contents s := by
  refine System.Reach.induct (P := Inv srv S contents) (fun _ hinit => inv_init hinit) ?_ h
  intro s a s' _ hinv hstep
  exact inv_step hplan hinv hstep

/-! ## Progress -/

/-- The bucket that a rank waits for: its source has not sent it, or the rank is the source and some rank does not have
it. -/
structure Blocked (srv : Server ι) (S : List (ℕ × ℕ × H2DBucket ι)) (rank : ℕ) (messages : Messages)
    (everywhere : Bool) (r : RankState ι) (e : ℕ × ℕ × H2DBucket ι) : Prop where
  get : S[r.gidx]? = some e
  made : r.broadcasts.length = r.gidx
  cause : (e.1 ≠ rank ∧ messages r.gidx = none) ∨ (e.1 = rank ∧ messages r.gidx ≠ none ∧ everywhere = false)

theorem RankOk.blocked (hplan : Planned srv n S contents) (hmessages : MessagesOk srv S messages)
    (h : RankOk srv S contents rank messages r) {everywhere : Bool} {passed : ℕ → Bool}
    (hphase : r.phase = .waiting rest) (hmain : KimiEngine.mainStep srv rank passed r = none)
    (hthread : KimiEngine.threadStep srv rank messages everywhere r = none) :
    ∃ e, Blocked srv S rank messages everywhere r e := by
  have hok := h.phase
  rw [hphase] at hok
  obtain ⟨-, ⟨e, hget, -, hop⟩, -⟩ := hok
  unfold KimiEngine.mainStep at hmain
  rw [hphase] at hmain
  unfold KimiEngine.threadStep at hthread
  cases hcase : r.op with
  | none =>
    rw [hcase] at hop
    cases hop
  | started src start bucket =>
    rw [hcase] at hop hthread
    obtain ⟨hmade, rfl, rfl, rfl, -⟩ := hop
    simp only at hthread
    by_cases hown : e.1 = rank
    · rw [if_pos hown] at hthread
      cases hthread
    · rw [if_neg hown] at hthread
      refine ⟨e, hget, hmade, Or.inl ⟨hown, ?_⟩⟩
      cases hmessage : messages r.gidx with
      | none => rfl
      | some message =>
        obtain ⟨sender, payload⟩ := message
        obtain ⟨e', hget', hsender, hpayload⟩ := hmessages _ _ _ hmessage
        rw [hget] at hget'
        obtain rfl := Option.some.inj hget'
        have hsize : payload.length = e.2.2.size := by
          rw [hpayload]
          exact (hplan.laidOut e (List.mem_of_getElem? hget)).length
        rw [hmade, hmessage] at hthread
        simp only at hthread
        rw [if_pos ⟨hsender, hsize⟩] at hthread
        cases hthread
  | sending src start bucket =>
    rw [hcase] at hop hthread
    obtain ⟨hmade, rfl, -, -, hown, hposted, -⟩ := hop
    simp only at hthread
    refine ⟨e, hget, hmade, Or.inr ⟨hown, hposted, ?_⟩⟩
    cases everywhere with
    | false => rfl
    | true =>
      rw [if_pos fun _ => rfl] at hthread
      cases hthread
  | complete bucket =>
    rw [hcase] at hmain
    cases hmain

/-- A rank that cannot move waits for a bucket, or for a barrier, or has returned. -/
theorem RankOk.stuck (hplan : Planned srv n S contents) (h : RankOk srv S contents rank messages r)
    {passed : ℕ → Bool} (hmain : KimiEngine.mainStep srv rank passed r = none) :
    (r.phase = .entering ∧ r.barriers = 1 ∧ passed 1 = false) ∨ (∃ rest, r.phase = .waiting rest ∧ r.barriers = 1) ∨
      (∃ ok, r.phase = .leaving ok ∧ AtEnd S contents r ∧ passed 2 = false) ∨
        r.phase = .returned ∧ AtEnd S contents r := by
  have hok := h.phase
  unfold KimiEngine.mainStep at hmain
  split at hmain
  · rw [if_neg hplan.metas] at hmain
    cases hmain
  · rename_i hphase
    rw [hphase] at hok
    refine Or.inl ⟨hphase, hok.1, ?_⟩
    cases hpassed : passed 1 with
    | false => rfl
    | true =>
      rw [hpassed, if_pos rfl] at hmain
      cases hmain
  · cases hmain
  · rw [← apply_ite some] at hmain
    cases hmain
  · cases hmain
  · split at hmain <;> cases hmain
  · cases hmain
  · cases hmain
  · rename_i rest hphase
    rw [hphase] at hok
    exact Or.inr (Or.inl ⟨rest, hphase, hok.1⟩)
  · rename_i ok hphase
    rw [hphase] at hok
    refine Or.inr (Or.inr (Or.inl ⟨ok, hphase, hok.2, ?_⟩))
    cases hpassed : passed 2 with
    | false => rfl
    | true =>
      rw [hpassed, if_pos rfl] at hmain
      cases hmain
  · rename_i hphase
    rw [hphase] at hok
    exact Or.inr (Or.inr (Or.inr ⟨hphase, hok⟩))
  · rename_i hphase
    rw [hphase] at hok
    cases hok

theorem RankOk.finished (h : RankOk srv S contents rank messages r) (hschedule : S = schedule srv.buckets)
    {registered : List (String × Tensor)} (htensors : (tensorsOf contents S).Perm registered)
    (hphase : r.phase = .returned) (hend : AtEnd S contents r) : r.Finished srv registered := by
  refine ⟨hphase, ?_, ?_⟩
  · rw [← hschedule]
    refine h.order.eq_of_length ?_
    rw [hend.made, List.length_map]
  · rw [hend.yielded]
    exact htensors

/-- A rank whose broadcast nobody has sent: its source comes to it, or has passed it. -/
theorem not_blocked (hplan : Planned srv n S contents) (hinv : Inv srv S contents s) {q : Fin n}
    {everywhere : Fin n → Bool} (heverywhere : ∀ q, everywhere q = false →
      ∃ p, p ≠ q ∧ (s.ranks p).broadcasts.length ≤ (s.ranks q).broadcasts.length)
    (hothers : ∀ p, (∃ e, Blocked srv S (rankOf srv p) s.messages (everywhere p) (s.ranks p) e) ∨
      AtEnd S contents (s.ranks p))
    (hleast : ∀ p e, Blocked srv S (rankOf srv p) s.messages (everywhere p) (s.ranks p) e →
      (s.ranks q).gidx ≤ (s.ranks p).gidx)
    {e : ℕ × ℕ × H2DBucket ι} (h : Blocked srv S (rankOf srv q) s.messages (everywhere q) (s.ranks q) e) : False := by
  obtain ⟨hget, hmade, hcause⟩ := h
  have hlt : (s.ranks q).gidx < S.length := (List.getElem?_eq_some_iff.1 hget).1
  rcases hcause with ⟨hother, hnone⟩ | ⟨hown, hposted, hwait⟩
  · obtain ⟨p, hp⟩ := hplan.receivers e (List.mem_of_getElem? hget)
    -- a source behind the broadcast has sent it
    have hpassed : ¬ (s.ranks q).gidx < (s.ranks p).broadcasts.length := fun hpast =>
      (hinv.ranks p).sent _ e hpast hget hp hnone
    rcases hothers p with ⟨e', hblocked⟩ | hend
    · have hle := hleast p e' hblocked
      have hmade' := hblocked.made
      have heq : (s.ranks p).gidx = (s.ranks q).gidx := by omega
      have hget' := hblocked.get
      rw [heq, hget] at hget'
      obtain rfl := Option.some.inj hget'
      rcases hblocked.cause with ⟨hne, -⟩ | ⟨-, hsome, -⟩
      · exact hne hp
      · rw [heq] at hsome
        exact hsome hnone
    · have hmade' := hend.made
      omega
  · obtain ⟨p, hpq, hle⟩ := heverywhere q hwait
    rcases hothers p with ⟨e', hblocked⟩ | hend
    · have hleast' := hleast p e' hblocked
      have hmade' := hblocked.made
      have heq : (s.ranks p).gidx = (s.ranks q).gidx := by omega
      have hget' := hblocked.get
      rw [heq, hget] at hget'
      obtain rfl := Option.some.inj hget'
      rcases hblocked.cause with ⟨-, hnone⟩ | ⟨hown', -, -⟩
      · rw [heq] at hnone
        exact hposted hnone
      -- a broadcast has one source
      · refine hpq (Fin.ext ?_)
        have hranks : rankOf srv p = rankOf srv q := hown'.symm.trans hown
        unfold rankOf at hranks
        omega
    · have hmade' := hend.made
      omega

/-- **Progress**: some rank can move until all have returned. -/
theorem progress (hplan : Planned srv n S contents) (hschedule : S = schedule srv.buckets)
    {registered : List (String × Tensor)} (htensors : (tensorsOf contents S).Perm registered)
    (hinv : Inv srv S contents s) (hfinished : ¬ ∀ q, (s.ranks q).Finished srv registered) :
    ∃ a s', step srv s a = some s' := by
  by_contra hno
  have hmain : ∀ q, mainStep srv (rankOf srv q) (fun k => decide (∀ p, k ≤ (s.ranks p).barriers)) (s.ranks q) =
      none := by
    intro q
    rw [Option.eq_none_iff_forall_ne_some]
    intro r hr
    exact hno ⟨.main q, _, Option.map_eq_some_iff.2 ⟨r, hr, rfl⟩⟩
  have hthread : ∀ q, threadStep srv (rankOf srv q) s.messages
      (decide (∀ p, p = q ∨ (s.ranks q).broadcasts.length < (s.ranks p).broadcasts.length)) (s.ranks q) = none := by
    intro q
    rw [Option.eq_none_iff_forall_ne_some]
    intro r hr
    exact hno ⟨.thread q, _, Option.map_eq_some_iff.2 ⟨r, hr, rfl⟩⟩
  -- all ranks have passed the first barrier
  have hfirst : decide (∀ p, 1 ≤ (s.ranks p).barriers) = true := by
    refine decide_eq_true fun p => ?_
    rcases (hinv.ranks p).stuck hplan (hmain p) with ⟨-, hp, -⟩ | ⟨-, -, hp⟩ | ⟨-, -, hp, -⟩ | ⟨-, hp⟩
    · exact Nat.le_of_eq hp.symm
    · exact Nat.le_of_eq hp.symm
    · rw [hp.barriers]
      exact Nat.le_succ 1
    · rw [hp.barriers]
      exact Nat.le_succ 1
  have hothers : ∀ p, (∃ e, Blocked srv S (rankOf srv p) s.messages
      (decide (∀ p', p' = p ∨ (s.ranks p).broadcasts.length < (s.ranks p').broadcasts.length)) (s.ranks p) e) ∨
      AtEnd S contents (s.ranks p) := by
    intro p
    rcases (hinv.ranks p).stuck hplan (hmain p) with ⟨-, -, hp⟩ | ⟨rest, hp, -⟩ | ⟨-, -, hp, -⟩ | ⟨-, hp⟩
    · rw [hfirst] at hp
      cases hp
    · exact Or.inl ((hinv.ranks p).blocked hplan hinv.messages hp (hmain p) (hthread p))
    · exact Or.inr hp
    · exact Or.inr hp
  by_cases hsome : ∃ p e, Blocked srv S (rankOf srv p) s.messages
      (decide (∀ p', p' = p ∨ (s.ranks p).broadcasts.length < (s.ranks p').broadcasts.length)) (s.ranks p) e
  -- of the ranks that wait, one with the least number of broadcasts
  · classical
    have hnonempty : (Finset.univ.filter fun p => ∃ e, Blocked srv S (rankOf srv p) s.messages
        (decide (∀ p', p' = p ∨ (s.ranks p).broadcasts.length < (s.ranks p').broadcasts.length))
        (s.ranks p) e).Nonempty := by
      obtain ⟨p, hp⟩ := hsome
      exact ⟨p, Finset.mem_filter.2 ⟨Finset.mem_univ p, hp⟩⟩
    obtain ⟨q, hq, hleast⟩ := Finset.exists_min_image _ (fun p => (s.ranks p).gidx) hnonempty
    obtain ⟨e, he⟩ := (Finset.mem_filter.1 hq).2
    refine not_blocked hplan hinv (fun p hp => ?_) hothers (fun p e' hp => ?_) he
    · have hfalse := of_decide_eq_false hp
      push Not at hfalse
      exact hfalse
    · exact hleast p (Finset.mem_filter.2 ⟨Finset.mem_univ p, e', hp⟩)
  · have hend : ∀ p, AtEnd S contents (s.ranks p) := fun p =>
      (hothers p).resolve_left fun ⟨e, he⟩ => hsome ⟨p, e, he⟩
    refine hfinished fun q => ?_
    rcases (hinv.ranks q).stuck hplan (hmain q) with ⟨-, hq, -⟩ | ⟨-, -, hq⟩ | ⟨-, -, -, hq⟩ | ⟨hq, -⟩
    · have hbarriers := (hend q).barriers
      omega
    · have hbarriers := (hend q).barriers
      omega
    · refine absurd (fun p => ?_) (of_decide_eq_false hq)
      exact Nat.le_of_eq (hend p).barriers.symm
    · exact (hinv.ranks q).finished hschedule htensors hq (hend q)

/-! ## The halves with tensors -/

theorem RankOk.op_free (h : RankOk srv S contents rank messages r) (hop : r.op.start? ≠ none) {k : ℕ}
    (hk : r.released ≤ k) (hlt : k < r.broadcasts.length) :
    r.op.start? = some (srv.base r.gidx) ∧ r.gidx % 2 ≠ k % 2 := by
  obtain ⟨e, -, hopOk, hreleased, -⟩ := h.opOk (fun heq => hop (by rw [heq]; rfl))
  cases hcase : r.op with
  | none =>
    rw [hcase] at hop
    exact absurd rfl hop
  | complete bucket =>
    rw [hcase] at hop
    exact absurd rfl hop
  | started src start bucket =>
    rw [hcase] at hopOk
    obtain ⟨hmade, -, rfl, -⟩ := hopOk
    exact ⟨rfl, by omega⟩
  | sending src start bucket =>
    rw [hcase] at hopOk
    obtain ⟨hmade, -, rfl, -⟩ := hopOk
    exact ⟨rfl, by omega⟩

theorem RankOk.unused (h : RankOk srv S contents rank messages r) (hpos : 0 < srv.bucketSize) {half : ℕ}
    (hholds : r.Holds half) : r.op.start? ≠ some (half * srv.bucketSize) := by
  obtain ⟨k, hk, hlt, rfl⟩ := hholds
  intro hstart
  obtain ⟨hbase, hne⟩ := h.op_free (by rw [hstart]; exact Option.some_ne_none _) hk hlt
  rw [hstart] at hbase
  have heq : k % 2 * srv.bucketSize = r.gidx % 2 * srv.bucketSize := Option.some.inj hbase
  exact hne (Nat.eq_of_mul_eq_mul_right hpos heq).symm

theorem transfers (hplan : Planned srv n S contents) (hpos : 0 < srv.bucketSize) (hschedule : S = schedule srv.buckets)
    {registered : List (String × Tensor)} (htensors : (tensorsOf contents S).Perm registered) :
    Transfers srv n registered where
  ends := by
    refine System.endsIn_of_measure (State.work srv (tensorsOf contents S).length) (fun s a s' hreach hstep => ?_)
      fun s hreach hfinished => ?_
    · exact work_step hplan (inv_of_reach hplan hreach) hstep
    · exact progress hplan hschedule htensors (inv_of_reach hplan hreach) hfinished
  total := by
    intro s hreach q
    have hok := ((inv_of_reach hplan hreach).ranks q).phase
    refine ⟨fun hphase => ?_, fun hphase => ?_⟩
    · rw [hphase] at hok
      exact hok
    · rw [hphase] at hok
      exact Bool.false_ne_true hok.1
  order := by
    intro s hreach q
    rw [← hschedule]
    exact ((inv_of_reach hplan hreach).ranks q).order
  unused := fun s hreach q half hholds => ((inv_of_reach hplan hreach).ranks q).unused hpos hholds
  unwritten := fun s a s' hreach hstep q half hholds => unwritten hplan (inv_of_reach hplan hreach) hstep hholds

/-! ## From the weights to the rollout ranks -/

section Claim

def registeredTensors (actorWorldSize : ℕ) (completed : ℕ → List (List (String × Tensor))) : List (String × Tensor) :=
  (List.range actorWorldSize).flatMap fun rank => (namedTensors (completed rank)).items

/-- **What is assumed** of the weights and of the package: the names are distinct; the copies of the buckets of each
actor rank end in some order; the metas are those of all ranks; the buckets are received by rollout ranks, cover the
registered tensors once and are laid out. -/
structure Assumed (srv : Server ι) (n : ℕ) (toDtype : Tensor → Tensor) (weights : List (String × Tensor))
    (completed : ℕ → List (List (String × Tensor))) (contents : ℕ → H2DBucket ι → List (String × Tensor)) : Prop where
  nodup : (weights.map Prod.fst).Nodup
  actors : 0 < srv.actorWorldSize
  bucketSize : 1 ≤ srv.bucketSize
  copies : ∀ rank < srv.actorWorldSize, ∃ buckets, ckptGetNamedTensorBuckets toDtype Tensor.nbytes srv.bucketSize
    srv.actorWorldSize rank weights = some buckets ∧ Completed buckets (completed rank)
  metas : registeredTensors srv.actorWorldSize completed ≠ [] → srv.metas ≠ 0
  receivers : ∀ b ∈ srv.buckets, ∃ q : Fin n, b.1 = rankOf srv q
  laidOut : ∀ b ∈ srv.buckets, LaidOut srv b.2.1 b.2.2 (contents b.2.1 b.2.2)
  covers : (tensorsOf contents srv.buckets).Perm (registeredTensors srv.actorWorldSize completed)

/-- The dictionaries of the actor ranks are a partition of the weights, and the rollout ranks receive them. -/
def Delivers (srv : Server ι) (n : ℕ) (toDtype : Tensor → Tensor) (weights : List (String × Tensor))
    (completed : ℕ → List (List (String × Tensor))) : Prop :=
  (registeredTensors srv.actorWorldSize completed).Perm (weights.map fun w => (w.1, toDtype w.2)) ∧
    Transfers srv n (registeredTensors srv.actorWorldSize completed)

variable {toDtype : Tensor → Tensor} {weights : List (String × Tensor)}
  {completed : ℕ → List (List (String × Tensor))}

theorem Assumed.partition (h : Assumed srv n toDtype weights completed contents) :
    (registeredTensors srv.actorWorldSize completed).Perm (weights.map fun w => (w.1, toDtype w.2)) := by
  have hbuckets := h.copies
  choose! buckets hbuckets using hbuckets
  exact registered_partition h.nodup h.actors (fun rank hrank => (hbuckets rank hrank).1)
    fun rank hrank => (hbuckets rank hrank).2

theorem Assumed.tensors_schedule (h : Assumed srv n toDtype weights completed contents) :
    (tensorsOf contents (schedule srv.buckets)).Perm (registeredTensors srv.actorWorldSize completed) :=
  ((schedule_perm srv.buckets).flatMap_right _).trans h.covers

theorem Assumed.planned (h : Assumed srv n toDtype weights completed contents) (hnonempty : weights ≠ [])
    (haligned : ∀ k e, (schedule srv.buckets)[k]? = some e → AlignedAt srv e.2.2 (srv.base k)) :
    Planned srv n (schedule srv.buckets) contents := by
  have hregistered : registeredTensors srv.actorWorldSize completed ≠ [] := by
    intro hnil
    have hlength := h.partition.length_eq
    rw [hnil, List.length_map] at hlength
    exact hnonempty (List.eq_nil_of_length_eq_zero hlength.symm)
  refine ⟨fun hnil => ?_, h.metas hregistered, fun e he => ?_, fun e he => ?_, haligned, fun rank h2d => ?_⟩
  · have hperm := h.tensors_schedule
    rw [hnil] at hperm
    exact hregistered (List.Perm.nil_eq hperm).symm
  · exact h.receivers e ((schedule_perm srv.buckets).mem_iff.1 he)
  · exact h.laidOut e ((schedule_perm srv.buckets).mem_iff.1 he)
  · exact follows_commands (fun b hb => (h.laidOut b hb).length) h2d

/-- **The weights reach every rollout rank**, if there are any and each is put at a multiple of its item size. -/
theorem weights_delivered (h : Assumed srv n toDtype weights completed contents) (hnonempty : weights ≠ [])
    (haligned : ∀ k e, (schedule srv.buckets)[k]? = some e → AlignedAt srv e.2.2 (srv.base k)) :
    Delivers srv n toDtype weights completed :=
  ⟨h.partition, transfers (h.planned hnonempty haligned) h.bucketSize rfl h.tensors_schedule⟩

end Claim

/-! ## Three weights, an odd bucket size, and no weights -/

/-- `ParameterMeta` -/
structure ParameterMeta where
  name : String
  shape : List ℕ
  dtype : DType
  alignedSize : ℕ

def placeTensors : List ParameterMeta → ℕ → List NamedTensor
  | [], _ => []
  | m :: metas, offset => ⟨m.name, m.shape, m.dtype, offset⟩ :: placeTensors metas (offset + m.alignedSize)

def exampleTensor (x : UInt8) : Tensor := ⟨[1], .bfloat16, [x, 64], rfl⟩

def exampleWeights : List (String × Tensor) := [("a", exampleTensor 1), ("b", exampleTensor 2), ("c", exampleTensor 3)]

def exampleBucket (name : String) : H2DBucket ParameterMeta := ⟨256, [⟨name, [1], .bfloat16, 256⟩]⟩

def exampleContents (_ : ℕ) (bucket : H2DBucket ParameterMeta) : List (String × Tensor) :=
  bucket.items.filterMap fun m => (exampleWeights.lookup m.name).map (Prod.mk m.name)

def exampleCopy (owner : ℕ) (bucket : H2DBucket ParameterMeta) : List UInt8 :=
  (exampleContents owner bucket).flatMap fun t => t.2.bytes ++ List.replicate (256 - t.2.nbytes) 0

def exampleServer (bucketSize : ℕ) (buckets : List (ℕ × ℕ × H2DBucket ParameterMeta)) : Server ParameterMeta where
  actorWorldSize := 1
  bucketSize := bucketSize
  rendezvous := true
  metas := buckets.length
  buckets := buckets
  copyToBuffer := exampleCopy
  toNamedTensor := placeTensors

def exampleCompleted (weights : List (String × Tensor)) (_ : ℕ) : List (List (String × Tensor)) :=
  if weights = [] then [] else [weights.reverse]

def exampleBuckets : List (ℕ × ℕ × H2DBucket ParameterMeta) :=
  [(1, 0, exampleBucket "a"), (1, 0, exampleBucket "b"), (2, 0, exampleBucket "c")]

def exampleBucketsOne : List (ℕ × ℕ × H2DBucket ParameterMeta) :=
  [(1, 0, exampleBucket "a"), (1, 0, exampleBucket "b"), (1, 0, exampleBucket "c")]

theorem example_laidOut {bucketSize : ℕ} {buckets : List (ℕ × ℕ × H2DBucket ParameterMeta)} (h : 256 ≤ bucketSize)
    {name : String} {x : UInt8} (hcontents : exampleContents 0 (exampleBucket name) = [(name, exampleTensor x)]) :
    LaidOut (exampleServer bucketSize buckets) 0 (exampleBucket name) (exampleContents 0 (exampleBucket name)) := by
  have hcopy : (exampleServer bucketSize buckets).copyToBuffer 0 (exampleBucket name) =
      [x, 64] ++ List.replicate 254 0 := by
    show exampleCopy 0 (exampleBucket name) = _
    rw [exampleCopy, hcontents, List.flatMap_singleton]
    rfl
  have hlength : ([x, 64] ++ List.replicate 254 (0 : UInt8)).length = 256 := by
    rw [List.length_append, List.length_replicate]
    rfl
  refine ⟨by rw [hcopy]; exact hlength, h, fun base => ?_⟩
  rw [hcopy, hcontents]
  refine .cons ⟨rfl, rfl, rfl, Nat.le_refl _, ?_, ?_⟩ .nil
  · rw [hlength]
    exact Nat.add_le_add_left (show 2 ≤ 256 by decide) base
  · show Storage.read _ (base - base) 2 = [x, 64]
    rw [Nat.sub_self]
    rfl

theorem example_assumed {n bucketSize : ℕ} {buckets : List (ℕ × ℕ × H2DBucket ParameterMeta)} (h : 256 ≤ bucketSize)
    (hcopies : (ckptGetNamedTensorBuckets id Tensor.nbytes bucketSize 1 0 exampleWeights).map
      (fun buckets => buckets.map Dict.items) = some [exampleWeights])
    (hbuckets : buckets.map Prod.snd = [(0, exampleBucket "a"), (0, exampleBucket "b"), (0, exampleBucket "c")])
    (hreceivers : ∀ receiver ∈ buckets.map Prod.fst, ∃ q : Fin n, receiver = 1 + q.1) :
    Assumed (exampleServer bucketSize buckets) n id exampleWeights (exampleCompleted exampleWeights)
      exampleContents where
  nodup := by decide
  actors := Nat.one_pos
  bucketSize := show 1 ≤ bucketSize by omega
  copies := by
    intro rank hrank
    obtain rfl : rank = 0 := Nat.lt_one_iff.1 hrank
    obtain ⟨named, hnamed, hitems⟩ := Option.map_eq_some_iff.1 hcopies
    refine ⟨named, hnamed, ?_⟩
    obtain ⟨bucket, rfl, hbucket⟩ := List.map_eq_singleton_iff.1 hitems
    refine .cons ?_ .nil
    rw [hbucket]
    exact List.reverse_perm _
  metas := by
    rintro - hzero
    obtain rfl : buckets = [] := List.eq_nil_of_length_eq_zero hzero
    cases hbuckets
  receivers := fun b hb => hreceivers b.1 (List.mem_map_of_mem hb)
  laidOut := by
    intro b hb
    have hmem : b.2 ∈ buckets.map Prod.snd := List.mem_map_of_mem hb
    rw [hbuckets] at hmem
    rcases List.mem_cons.1 hmem with hpair | hmem
    · rw [hpair]
      exact example_laidOut (x := 1) h (by decide)
    · rcases List.mem_cons.1 hmem with hpair | hmem
      · rw [hpair]
        exact example_laidOut (x := 2) h (by decide)
      · rw [List.mem_singleton.1 hmem]
        exact example_laidOut (x := 3) h (by decide)
  covers := by
    have htensors : (buckets.map Prod.snd).flatMap (fun b => exampleContents b.1 b.2) = exampleWeights := by
      rw [hbuckets]
      decide
    rw [List.flatMap_map] at htensors
    have hcovers : tensorsOf exampleContents buckets = exampleWeights := htensors
    show (tensorsOf exampleContents buckets).Perm (registeredTensors 1 (exampleCompleted exampleWeights))
    rw [hcovers]
    decide

theorem weights_delivered_uneven :
    Delivers (exampleServer 256 exampleBuckets) 2 id exampleWeights (exampleCompleted exampleWeights) := by
  have hassumed : Assumed (exampleServer 256 exampleBuckets) 2 id exampleWeights (exampleCompleted exampleWeights)
      exampleContents := by
    refine example_assumed (Nat.le_refl _) (by decide) rfl fun receiver hreceiver => ?_
    rcases List.mem_cons.1 hreceiver with rfl | hreceiver
    · exact ⟨0, rfl⟩
    · rcases List.mem_cons.1 hreceiver with rfl | hreceiver
      · exact ⟨0, rfl⟩
      · exact ⟨1, List.mem_singleton.1 hreceiver⟩
  refine weights_delivered hassumed (by decide) fun k e he item hitem => ?_
  -- every bucket starts at a multiple of 256
  have hmem : e ∈ exampleBuckets := (schedule_perm exampleBuckets).mem_iff.1 (List.mem_of_getElem? he)
  have hoffset : item.offset = k % 2 * 256 ∧ item.dtype = .bfloat16 := by
    rcases List.mem_cons.1 hmem with rfl | hmem
    · obtain rfl := List.mem_singleton.1 hitem
      exact ⟨rfl, rfl⟩
    · rcases List.mem_cons.1 hmem with rfl | hmem
      · obtain rfl := List.mem_singleton.1 hitem
        exact ⟨rfl, rfl⟩
      · obtain rfl := List.mem_singleton.1 hmem
        obtain rfl := List.mem_singleton.1 hitem
        exact ⟨rfl, rfl⟩
  rw [hoffset.1, hoffset.2]
  show k % 2 * 256 % 2 = 0
  omega

def exampleState (bucketSize n : ℕ) : State n ParameterMeta where
  messages := fun _ => none
  ranks := fun _ =>
    ⟨.start, 0, 0, none, List.replicate bucketSize 0, List.replicate (2 * bucketSize) 0, .none, [], [], 0⟩

theorem example_init (bucketSize n : ℕ) (buckets : List (ℕ × ℕ × H2DBucket ParameterMeta)) :
    Init (exampleServer bucketSize buckets) (exampleState bucketSize n) :=
  ⟨fun _ => rfl, fun _ => ⟨rfl, rfl, rfl, rfl, rfl, rfl, rfl, rfl, List.length_replicate⟩⟩

def RankState.failed {ι : Type} (r : RankState ι) : Bool :=
  match r.phase with
  | .raised => true
  | .leaving false => true
  | _ => false

theorem not_delivers_of_run {bucketSize : ℕ} {buckets : List (ℕ × ℕ × H2DBucket ParameterMeta)}
    {weights : List (String × Tensor)} {completed : ℕ → List (List (String × Tensor))} {toDtype : Tensor → Tensor}
    {run : List (Process 1)}
    (h : (System.runFn (step (exampleServer bucketSize buckets)) (exampleState bucketSize 1) run).map
      (fun s => (s.ranks (Fin.last 0)).failed) = some true) :
    ¬ Delivers (exampleServer bucketSize buckets) 1 toDtype weights completed := by
  intro hdelivers
  obtain ⟨s, hrun, hfailed⟩ := Option.map_eq_some_iff.1 h
  have hreach := System.reach_of_run (.init (example_init bucketSize 1 buckets)) hrun
  obtain ⟨hraised, hleaving⟩ := hdelivers.2.total s hreach (Fin.last 0)
  unfold RankState.failed at hfailed
  split at hfailed
  · rename_i hphase
    exact hraised hphase
  · rename_i hphase
    exact hleaving hphase
  · cases hfailed

/-- **Without weights** the assertion fails. **With an odd bucket size** the second bucket is at an odd offset, and no
tensor of two bytes an item can be viewed there. -/
theorem noWeights_oddBucketSize :
    (Assumed (exampleServer 256 []) 1 id [] (exampleCompleted []) exampleContents ∧
      ¬ Delivers (exampleServer 256 []) 1 id [] (exampleCompleted [])) ∧
    (Assumed (exampleServer 257 exampleBucketsOne) 1 id exampleWeights (exampleCompleted exampleWeights)
        exampleContents ∧
      ¬ Delivers (exampleServer 257 exampleBucketsOne) 1 id exampleWeights (exampleCompleted exampleWeights)) := by
  refine ⟨⟨⟨List.nodup_nil, Nat.one_pos, by decide, fun rank _ => ⟨[], rfl, .nil⟩, fun h => absurd rfl h,
    fun b hb => absurd hb List.not_mem_nil, fun b hb => absurd hb List.not_mem_nil, List.Perm.refl _⟩, ?_⟩, ?_, ?_⟩
  · exact @not_delivers_of_run 256 [] _ _ _ [.main 0] rfl
  · refine example_assumed (by decide) (by decide) rfl fun receiver hreceiver => ⟨0, ?_⟩
    exact (List.mem_replicate (n := 3)).1 hreceiver |>.2
  · refine @not_delivers_of_run 257 exampleBucketsOne _ _ _
      ([.main 0, .main 0, .main 0, .main 0, .thread 0, .thread 0, .main 0] ++
        [.main 0, .main 0, .main 0, .main 0, .thread 0, .thread 0, .main 0] ++ [.main 0, .main 0, .main 0]) ?_
    decide +kernel

end Opd.Verl.KimiEngine

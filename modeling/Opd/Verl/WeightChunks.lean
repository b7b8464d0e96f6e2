import Mathlib.Algebra.BigOperators.Ring.List
import Mathlib.Data.List.Nodup
import Opd.Lib.Storage

/-!
# Weight chunks and buckets

`split_weight_chunks` cuts every weight into chunks of at most one bucket, the sender puts
the chunks one behind the other into buckets, and `merge_weight_chunks` makes weights of
the chunks that the receiver reads from the buckets.

* `flatten_pack`: the buckets hold the chunks in order.
* `nodup_pack`: no bucket holds two chunks of one weight.
* `merge_iff`: merging gives the weights back exactly when every weight that fits into a
  bucket starts at a multiple of its item size.
* `splitMerge_iff`: without buckets between, the weights come back unless one has no elements.
-/

namespace Opd.Verl.NcclEngine

open Lib

/-! ## Splitting -/

/-- The engine: the bucket size, whether a broadcast of the root returns only when every
rank has its copy, and what `torch.empty` finds in memory. -/
structure Config where
  bucketSize : ℕ
  bucketSize_pos : 0 < bucketSize
  rendezvous : Bool
  uninit : ℕ → UInt8

abbrev Weights := List (String × Tensor)

structure TensorMeta where
  name : String
  shape : List ℕ
  dtype : DType
  chunkOffset : ℕ
  chunkSize : ℕ
  offset : Option ℕ

/-- A chunk as `split_weight_chunks` yields it. -/
structure Chunk where
  tensorMeta : TensorMeta
  data : List UInt8

variable (cfg : Config)

/-- `min(bucket_size, weight.nbytes - chunk_offset)` -/
def chunkSizeAt (weight : Tensor) (chunkOffset : ℕ) : ℕ := min cfg.bucketSize (weight.nbytes - chunkOffset)

def chunkAt (name : String) (weight : Tensor) (chunkOffset : ℕ) : Chunk where
  tensorMeta := ⟨name, weight.shape, weight.dtype, chunkOffset, chunkSizeAt cfg weight chunkOffset, none⟩
  data := Storage.read weight.bytes chunkOffset (chunkSizeAt cfg weight chunkOffset)

def splitWeight (name : String) (weight : Tensor) (chunkOffset : ℕ) : List Chunk :=
  if chunkOffset < weight.nbytes then
    chunkAt cfg name weight chunkOffset ::
      splitWeight name weight (chunkOffset + chunkSizeAt cfg weight chunkOffset)
  else []
termination_by weight.nbytes - chunkOffset
decreasing_by
  have := cfg.bucketSize_pos
  unfold chunkSizeAt
  omega

/-- `split_weight_chunks` -/
def splitWeightChunks (weights : Weights) : List Chunk :=
  weights.flatMap fun item => splitWeight cfg item.1 item.2 0

/-! ## Merging -/

/-- `merge_name`, `merge_weight` and `merge_offset`. -/
structure Merge where
  name : String
  weight : Tensor
  offset : ℕ

/-- What a chunk of a larger weight is merged into: a new weight when there is none, which
raises if the chunk is not the first one. -/
def mergeInto (tensorMeta : TensorMeta) : Option Merge → Option Merge
  | some current => some current
  | none =>
    if tensorMeta.chunkOffset = 0 then
      some ⟨tensorMeta.name, Tensor.empty cfg.uninit tensorMeta.shape tensorMeta.dtype, 0⟩
    else none

/-- One round of `merge_weight_chunks`: what is merged after it and what it yields, or
`none` if it raises. -/
def mergeStep (tensorMeta : TensorMeta) (chunk : StorageSlice) (merge : Option Merge) :
    Option (Option Merge × Weights) :=
  let nbytes := tensorMeta.shape.prod * tensorMeta.dtype.itemsize
  if nbytes ≤ cfg.bucketSize then
    -- The chunk is the whole weight; it is viewed where it lies.
    if merge.isSome then none
    else (viewAs chunk.bytes chunk.start tensorMeta.shape tensorMeta.dtype).map fun weight =>
      (none, [(tensorMeta.name, weight)])
  else
    (mergeInto cfg tensorMeta merge).bind fun current =>
      if tensorMeta.name = current.name ∧ current.offset = tensorMeta.chunkOffset ∧
          chunk.bytes.length = tensorMeta.chunkSize then
        (current.weight.write tensorMeta.chunkOffset chunk.bytes).map fun weight =>
          if tensorMeta.chunkOffset + tensorMeta.chunkSize = nbytes then (none, [(current.name, weight)])
          else (some ⟨current.name, weight, current.offset + tensorMeta.chunkSize⟩, [])
      else none

def mergeNext (out : Option Merge × Weights) (item : TensorMeta × StorageSlice) : Option (Option Merge × Weights) :=
  (mergeStep cfg item.1 item.2 out.1).map fun next => (next.1, out.2 ++ next.2)

/-- `merge_weight_chunks` -/
def mergeWeightChunks (items : List (TensorMeta × StorageSlice)) : Option (Option Merge × Weights) :=
  items.foldlM (mergeNext cfg) (none, [])

/-! ## The buckets -/

structure Placed where
  start : ℕ
  chunk : Chunk

/-- The metadata with `tensor_meta.offset` set. -/
def Placed.tensorMeta (p : Placed) : TensorMeta := { p.chunk.tensorMeta with offset := some p.start }

def Placed.name (p : Placed) : String := p.chunk.tensorMeta.name

def Placed.received (p : Placed) : TensorMeta × StorageSlice := (p.tensorMeta, ⟨p.start, p.chunk.data⟩)

/-- Where a chunk goes when `offset` bytes of the bucket are used. -/
def startAt (offset : ℕ) (c : Chunk) : ℕ := if offset + c.tensorMeta.chunkSize > cfg.bucketSize then 0 else offset

def placeFrom : ℕ → List Chunk → List Placed
  | _, [] => []
  | offset, c :: cs => ⟨startAt cfg offset c, c⟩ :: placeFrom (startAt cfg offset c + c.tensorMeta.chunkSize) cs

/-- The buckets of the following chunks, when the current one holds `current` and `offset`
bytes of it are used. -/
def pack : ℕ → List Placed → List Chunk → List (List Placed)
  | _, current, [] => [current]
  | offset, current, c :: cs =>
    if offset + c.tensorMeta.chunkSize > cfg.bucketSize then
      current :: pack c.tensorMeta.chunkSize [⟨0, c⟩] cs
    else pack (offset + c.tensorMeta.chunkSize) (current ++ [⟨offset, c⟩]) cs

/-- **Aligned packing**: with `offset` bytes of the bucket used, every following weight that
fits into a bucket starts at a multiple of its item size. After a larger weight its last
chunk is alone in its bucket. -/
def Aligned : ℕ → Weights → Prop
  | _, [] => True
  | offset, (_, weight) :: weights =>
    if weight.nbytes ≤ cfg.bucketSize then
      let start := if offset + weight.nbytes > cfg.bucketSize then 0 else offset
      start % weight.dtype.itemsize = 0 ∧ Aligned (start + weight.nbytes) weights
    else Aligned ((weight.nbytes - 1) % cfg.bucketSize + 1) weights

variable {cfg} {name : String} {weight : Tensor} {weights : Weights} {offset chunkOffset : ℕ} {c : Chunk}
  {cs rest : List Chunk} {current : List Placed}

/-- **The buckets hold the chunks in order.** -/
theorem flatten_pack : (pack cfg offset current cs).flatten = current ++ placeFrom cfg offset cs := by
  induction cs generalizing offset current with
  | nil => simp [pack, placeFrom]
  | cons c cs ih =>
    unfold pack placeFrom startAt
    split
    · rw [List.flatten_cons, ih, Nat.zero_add, List.singleton_append]
    · rw [ih, List.append_assoc, List.singleton_append]

theorem pack_ne_nil : pack cfg offset current cs ≠ [] := by
  induction cs generalizing offset current with
  | nil => simp [pack]
  | cons c cs ih =>
    unfold pack
    split
    · exact List.cons_ne_nil _ _
    · exact ih

theorem pack_head (cfg : Config) (offset : ℕ) (current : List Placed) (cs : List Chunk) :
    ∃ more buckets, pack cfg offset current cs = (current ++ more) :: buckets := by
  induction cs generalizing offset current with
  | nil => exact ⟨[], [], by rw [pack, List.append_nil]⟩
  | cons c cs ih =>
    unfold pack
    split
    · exact ⟨[], _, by rw [List.append_nil]⟩
    · obtain ⟨more, buckets, h⟩ := ih (offset + c.tensorMeta.chunkSize) (current ++ [⟨offset, c⟩])
      exact ⟨⟨offset, c⟩ :: more, buckets, by rw [h, List.append_assoc, List.singleton_append]⟩

/-! ## Chunks of one weight -/

theorem chunkSizeAt_pos (cfg : Config) (h : chunkOffset < weight.nbytes) : 0 < chunkSizeAt cfg weight chunkOffset := by
  have := cfg.bucketSize_pos
  unfold chunkSizeAt
  omega

theorem length_chunkAt (cfg : Config) (name : String) (h : chunkOffset < weight.nbytes) :
    (chunkAt cfg name weight chunkOffset).data.length = chunkSizeAt cfg weight chunkOffset := by
  have : chunkOffset + chunkSizeAt cfg weight chunkOffset ≤ weight.bytes.length := by
    unfold chunkSizeAt
    unfold Tensor.nbytes at *
    omega
  exact Storage.length_read this

theorem splitWeight_of_lt (h : chunkOffset < weight.nbytes) :
    splitWeight cfg name weight chunkOffset = chunkAt cfg name weight chunkOffset ::
      splitWeight cfg name weight (chunkOffset + chunkSizeAt cfg weight chunkOffset) := by
  rw [splitWeight, if_pos h]

theorem splitWeight_of_le (h : weight.nbytes ≤ chunkOffset) : splitWeight cfg name weight chunkOffset = [] := by
  rw [splitWeight, if_neg (by omega)]

/-- A chunk that fits into a bucket and has as many bytes as its metadata says. -/
def Chunk.Fits (cfg : Config) (c : Chunk) : Prop :=
  c.data.length = c.tensorMeta.chunkSize ∧ c.tensorMeta.chunkSize ≤ cfg.bucketSize

theorem fits_of_mem_splitWeight (h : c ∈ splitWeight cfg name weight chunkOffset) : c.Fits cfg := by
  fun_induction splitWeight cfg name weight chunkOffset with
  | case1 chunkOffset hlt ih =>
    rcases List.mem_cons.1 h with rfl | h
    · exact ⟨length_chunkAt cfg name hlt, Nat.min_le_left _ _⟩
    · exact ih h
  | case2 chunkOffset hlt => cases h

theorem fits_of_mem_splitWeightChunks (h : c ∈ splitWeightChunks cfg weights) : c.Fits cfg := by
  obtain ⟨item, -, hc⟩ := List.mem_flatMap.1 h
  exact fits_of_mem_splitWeight hc

/-! ## Names in a bucket -/

/-- One weight: after a full chunk the bucket is full, so that the next chunk of the same
weight goes to another one. `hrest` is about the chunks of the later weights. -/
theorem nodup_pack_splitWeight (hcurrent : (current.map Placed.name).Nodup)
    (hoffset : chunkOffset < weight.nbytes → offset = cfg.bucketSize ∨ name ∉ current.map Placed.name)
    (hrest : ∀ offset' current', (current'.map Placed.name).Nodup →
      (∀ n ∈ current'.map Placed.name, n = name ∨ n ∈ current.map Placed.name) →
        ∀ bucket ∈ pack cfg offset' current' rest, (bucket.map Placed.name).Nodup) :
    ∀ bucket ∈ pack cfg offset current (splitWeight cfg name weight chunkOffset ++ rest),
      (bucket.map Placed.name).Nodup := by
  fun_induction splitWeight cfg name weight chunkOffset generalizing offset current with
  | case2 chunkOffset hle => exact hrest offset current hcurrent fun n hn => .inr hn
  | case1 chunkOffset hlt ih =>
    have hpos := chunkSizeAt_pos cfg hlt
    have hfull : chunkOffset + chunkSizeAt cfg weight chunkOffset < weight.nbytes →
        chunkSizeAt cfg weight chunkOffset = cfg.bucketSize := by
      unfold chunkSizeAt
      omega
    rw [List.cons_append, pack]
    split
    -- the bucket is full: the chunk is the first of the next one
    · intro bucket hbucket
      rcases List.mem_cons.1 hbucket with rfl | hbucket
      · exact hcurrent
      · have hone : (([⟨0, chunkAt cfg name weight chunkOffset⟩] : List Placed).map Placed.name).Nodup :=
          List.nodup_singleton _
        refine ih hone (fun hmore => .inl (hfull hmore)) ?_ bucket hbucket
        intro offset' current' hnodup hsub
        refine hrest offset' current' hnodup fun n hn => .inl ?_
        rcases hsub n hn with h | h
        · exact h
        · exact List.mem_singleton.1 h
    · rename_i hfit
      have hsize : (chunkAt cfg name weight chunkOffset).tensorMeta.chunkSize = chunkSizeAt cfg weight chunkOffset :=
        rfl
      rw [hsize] at hfit ⊢
      -- there is room, so the bucket has no chunk of this weight
      have hnew : name ∉ current.map Placed.name := by
        rcases hoffset hlt with h | h
        · omega
        · exact h
      have hmap : (current ++ [(⟨offset, chunkAt cfg name weight chunkOffset⟩ : Placed)]).map Placed.name =
          current.map Placed.name ++ [name] := by
        rw [List.map_append]
        rfl
      have hnext : ((current ++ [(⟨offset, chunkAt cfg name weight chunkOffset⟩ : Placed)]).map Placed.name).Nodup := by
        rw [hmap, ← List.concat_eq_append]
        exact hcurrent.concat hnew
      refine ih hnext (fun hmore => .inl ?_) ?_
      · have := hfull hmore
        omega
      · intro offset' current' hnodup hsub
        refine hrest offset' current' hnodup fun n hn => ?_
        rcases hsub n hn with h | h
        · exact .inl h
        · rw [hmap, List.mem_append, List.mem_singleton] at h
          exact h.symm

theorem nodup_pack_of (hnames : (weights.map Prod.fst).Nodup) (hcurrent : (current.map Placed.name).Nodup)
    (hnew : ∀ n ∈ current.map Placed.name, n ∉ weights.map Prod.fst) :
    ∀ bucket ∈ pack cfg offset current (splitWeightChunks cfg weights), (bucket.map Placed.name).Nodup := by
  induction weights generalizing offset current with
  | nil =>
    intro bucket hbucket
    obtain rfl := List.mem_singleton.1 hbucket
    exact hcurrent
  | cons item weights ih =>
    rw [List.map_cons, List.nodup_cons] at hnames
    refine nodup_pack_splitWeight hcurrent (fun _ => .inr fun h => hnew _ h List.mem_cons_self) ?_
    intro offset' current' hnodup hsub
    refine ih hnames.2 hnodup fun n hn => ?_
    rcases hsub n hn with rfl | h
    · exact hnames.1
    · exact fun hmem => hnew n h (List.mem_cons_of_mem _ hmem)

/-- **No bucket holds two chunks of one weight.** -/
theorem nodup_pack (hnames : (weights.map Prod.fst).Nodup) :
    ∀ bucket ∈ pack cfg 0 [] (splitWeightChunks cfg weights), (bucket.map Placed.name).Nodup :=
  nodup_pack_of hnames List.nodup_nil fun n hn => by cases hn

/-! ## Merging gives the weights back -/

theorem splitWeight_small (hpos : 0 < weight.nbytes) (h : weight.nbytes ≤ cfg.bucketSize) :
    splitWeight cfg name weight 0 =
      [⟨⟨name, weight.shape, weight.dtype, 0, weight.nbytes, none⟩, weight.bytes⟩] := by
  have hsize : chunkSizeAt cfg weight 0 = weight.nbytes := by
    unfold chunkSizeAt
    omega
  rw [splitWeight_of_lt hpos, splitWeight_of_le (by omega), chunkAt, hsize, Storage.read, List.drop_zero]
  rw [Tensor.nbytes, List.take_length]

/-- A larger weight: its first chunk and the chunks after it start at offset 0. -/
theorem placeFrom_large (rest : List Chunk) (h : chunkOffset < weight.nbytes)
    (hoffset : offset = cfg.bucketSize ∨ cfg.bucketSize < weight.nbytes - chunkOffset) :
    ∃ P, P.map Placed.chunk = splitWeight cfg name weight chunkOffset ∧
      placeFrom cfg offset (splitWeight cfg name weight chunkOffset ++ rest) =
        P ++ placeFrom cfg ((weight.nbytes - chunkOffset - 1) % cfg.bucketSize + 1) rest := by
  fun_induction splitWeight cfg name weight chunkOffset generalizing offset with
  | case2 chunkOffset hle => exact absurd h hle
  | case1 chunkOffset hlt ih =>
    have hB := cfg.bucketSize_pos
    have hpos := chunkSizeAt_pos cfg hlt
    -- behind a full bucket, or as a full chunk, it starts a bucket
    have hstart : startAt cfg offset (chunkAt cfg name weight chunkOffset) = 0 := by
      by_cases hfit : offset + chunkSizeAt cfg weight chunkOffset > cfg.bucketSize
      · exact if_pos hfit
      · refine (if_neg hfit).trans ?_
        unfold chunkSizeAt at hpos hfit
        omega
    rw [List.cons_append, placeFrom, hstart, Nat.zero_add]
    by_cases hmore : cfg.bucketSize < weight.nbytes - chunkOffset
    -- a full chunk leaves a full bucket to the next one
    · have hsize : chunkSizeAt cfg weight chunkOffset = cfg.bucketSize := by
        unfold chunkSizeAt
        omega
      obtain ⟨P, hP, hplace⟩ := @ih cfg.bucketSize (by omega) (.inl rfl)
      refine ⟨⟨0, chunkAt cfg name weight chunkOffset⟩ :: P, by rw [List.map_cons, hP], ?_⟩
      have hend : (weight.nbytes - (chunkOffset + chunkSizeAt cfg weight chunkOffset) - 1) % cfg.bucketSize =
          (weight.nbytes - chunkOffset - 1) % cfg.bucketSize := by
        rw [hsize, Nat.mod_eq_sub_mod (show weight.nbytes - chunkOffset - 1 ≥ cfg.bucketSize by omega)]
        congr 1
        omega
      rw [show (chunkAt cfg name weight chunkOffset).tensorMeta.chunkSize = cfg.bucketSize from hsize, hplace, hend,
        List.cons_append]
    -- the last chunk
    · have hsize : chunkSizeAt cfg weight chunkOffset = weight.nbytes - chunkOffset := by
        unfold chunkSizeAt
        omega
      have hlast : (weight.nbytes - chunkOffset - 1) % cfg.bucketSize + 1 = weight.nbytes - chunkOffset := by
        rw [Nat.mod_eq_of_lt (by omega)]
        omega
      rw [splitWeight_of_le (by omega)]
      refine ⟨[⟨0, chunkAt cfg name weight chunkOffset⟩], rfl, ?_⟩
      rw [hlast, ← hsize]
      rfl

/-- The merge of a larger weight has its first `chunkOffset` bytes. -/
def Merging (name : String) (weight : Tensor) (chunkOffset : ℕ) (merge : Option Merge) : Prop :=
  (chunkOffset = 0 ∧ merge = none) ∨ ∃ t : Tensor, merge = some ⟨name, t, chunkOffset⟩ ∧ t.shape = weight.shape ∧
    t.dtype = weight.dtype ∧ t.bytes.take chunkOffset = weight.bytes.take chunkOffset

variable {merge : Option Merge}

theorem Merging.into (cfg : Config) (h : Merging name weight chunkOffset merge) :
    ∃ t : Tensor, t.shape = weight.shape ∧ t.dtype = weight.dtype ∧
      t.bytes.take chunkOffset = weight.bytes.take chunkOffset ∧
        mergeInto cfg (chunkAt cfg name weight chunkOffset).tensorMeta merge = some ⟨name, t, chunkOffset⟩ := by
  rcases h with ⟨rfl, rfl⟩ | ⟨t, rfl, hshape, hdtype, htake⟩
  · exact ⟨Tensor.empty cfg.uninit weight.shape weight.dtype, rfl, rfl, rfl, rfl⟩
  · exact ⟨t, hshape, hdtype, htake, rfl⟩

theorem mergeStep_of_large {tensorMeta : TensorMeta} {chunk : StorageSlice} {current : Merge}
    (hlarge : cfg.bucketSize < tensorMeta.shape.prod * tensorMeta.dtype.itemsize)
    (hinto : mergeInto cfg tensorMeta merge = some current) (hname : tensorMeta.name = current.name)
    (hoffset : current.offset = tensorMeta.chunkOffset) (hlen : chunk.bytes.length = tensorMeta.chunkSize) :
    mergeStep cfg tensorMeta chunk merge =
      (current.weight.write tensorMeta.chunkOffset chunk.bytes).map fun weight =>
        if tensorMeta.chunkOffset + tensorMeta.chunkSize = tensorMeta.shape.prod * tensorMeta.dtype.itemsize then
          (none, [(current.name, weight)])
        else (some ⟨current.name, weight, current.offset + tensorMeta.chunkSize⟩, []) := by
  simp only [mergeStep]
  rw [if_neg (by omega), hinto, Option.bind_some, if_pos ⟨hname, hoffset, hlen⟩]

/-- **A chunk of a larger weight is written behind the ones before it.** -/
theorem mergeStep_chunkAt (start : ℕ) (hlarge : cfg.bucketSize < weight.nbytes) (h : chunkOffset < weight.nbytes)
    (hm : Merging name weight chunkOffset merge) :
    ∃ t : Tensor, t.shape = weight.shape ∧ t.dtype = weight.dtype ∧
      t.bytes.take (chunkOffset + chunkSizeAt cfg weight chunkOffset) =
        weight.bytes.take (chunkOffset + chunkSizeAt cfg weight chunkOffset) ∧
      mergeStep cfg (Placed.tensorMeta ⟨start, chunkAt cfg name weight chunkOffset⟩)
        ⟨start, (chunkAt cfg name weight chunkOffset).data⟩ merge =
        some (if chunkOffset + chunkSizeAt cfg weight chunkOffset = weight.nbytes then (none, [(name, t)])
          else (some ⟨name, t, chunkOffset + chunkSizeAt cfg weight chunkOffset⟩, [])) := by
  obtain ⟨t, hshape, hdtype, htake, hinto⟩ := hm.into cfg
  have hlen := length_chunkAt cfg name h
  have hbytes : t.bytes.length = weight.bytes.length := by
    rw [t.length_bytes, weight.length_bytes, hshape, hdtype]
  -- the chunk ends inside the buffer of the weight
  have hfit : chunkOffset + (chunkAt cfg name weight chunkOffset).data.length ≤ t.bytes.length := by
    rw [hlen, hbytes]
    unfold chunkSizeAt
    unfold Tensor.nbytes at h ⊢
    omega
  refine ⟨⟨t.shape, t.dtype, Storage.write t.bytes chunkOffset (chunkAt cfg name weight chunkOffset).data, by
    rw [Storage.length_write hfit, t.length_bytes]⟩, hshape, hdtype, ?_, ?_⟩
  -- what was there before, and the new chunk
  · have hoff : chunkOffset ≤ t.bytes.length := by omega
    have hwrite := Storage.take_write (chunkAt cfg name weight chunkOffset).data hoff
    rw [hlen, htake] at hwrite
    rw [hwrite, List.take_add]
    rfl
  · rw [weight.nbytes_eq] at hlarge ⊢
    have hinto' : mergeInto cfg (Placed.tensorMeta ⟨start, chunkAt cfg name weight chunkOffset⟩) merge =
        some ⟨name, t, chunkOffset⟩ := by
      rw [← hinto]
      cases merge <;> rfl
    rw [mergeStep_of_large hlarge hinto' rfl rfl hlen]
    refine (congrArg _ (dif_pos hfit)).trans ?_
    rfl

/-- **The chunks of a larger weight are merged to it**, wherever they lie. -/
theorem merge_large {P : List Placed} {out : Weights} (hlarge : cfg.bucketSize < weight.nbytes)
    (h : chunkOffset < weight.nbytes) (hP : P.map Placed.chunk = splitWeight cfg name weight chunkOffset)
    (hm : Merging name weight chunkOffset merge) :
    (P.map Placed.received).foldlM (mergeNext cfg) (merge, out) = some (none, out ++ [(name, weight)]) := by
  induction P generalizing chunkOffset merge with
  | nil =>
    rw [splitWeight_of_lt h] at hP
    cases hP
  | cons p P ih =>
    rw [splitWeight_of_lt h, List.map_cons, List.cons.injEq] at hP
    obtain ⟨start, c⟩ := p
    obtain ⟨rfl, hP⟩ := hP
    obtain ⟨t, hshape, hdtype, htake, hstep⟩ := mergeStep_chunkAt start hlarge h hm
    rw [List.map_cons, List.foldlM_cons, mergeNext]
    simp only [Placed.received]
    rw [hstep, Option.map_some, Option.bind_eq_bind, Option.bind_some]
    split
    · rename_i hend
      -- The last chunk: all bytes are there.
      rw [splitWeight_of_le (Nat.le_of_eq hend.symm), List.map_eq_nil_iff] at hP
      subst hP
      have hbytes : t.bytes.length = weight.bytes.length := by
        rw [t.length_bytes, weight.length_bytes, hshape, hdtype]
      rw [hend, Tensor.nbytes, ← hbytes, List.take_length, hbytes, List.take_length] at htake
      obtain rfl := Tensor.ext hshape hdtype htake
      rfl
    · rename_i hend
      rw [List.append_nil]
      refine ih ?_ hP (.inr ⟨t, rfl, hshape, hdtype, htake⟩)
      unfold chunkSizeAt at hend ⊢
      omega

theorem mergeStep_of_small {tensorMeta : TensorMeta} {chunk : StorageSlice}
    (hsmall : tensorMeta.shape.prod * tensorMeta.dtype.itemsize ≤ cfg.bucketSize) :
    mergeStep cfg tensorMeta chunk none =
      (viewAs chunk.bytes chunk.start tensorMeta.shape tensorMeta.dtype).map fun weight =>
        (none, [(tensorMeta.name, weight)]) :=
  if_pos hsmall

theorem mergeNext_small {start : ℕ} {out : Weights} (h : weight.nbytes ≤ cfg.bucketSize) :
    mergeNext cfg (none, out)
        (Placed.received ⟨start, ⟨⟨name, weight.shape, weight.dtype, 0, weight.nbytes, none⟩, weight.bytes⟩⟩) =
      if start % weight.dtype.itemsize = 0 then some (none, out ++ [(name, weight)]) else none := by
  rw [weight.nbytes_eq] at h
  rw [mergeNext, Placed.received, mergeStep_of_small h]
  simp only [Placed.tensorMeta]
  by_cases halign : start % weight.dtype.itemsize = 0
  · rw [if_pos halign, viewAs_bytes weight halign]
    rfl
  · rw [if_neg halign, viewAs_eq_none halign]
    rfl

theorem merge_placeFrom {out : Weights} {result : Option Merge × Weights} (hpos : ∀ item ∈ weights, 0 < item.2.nbytes) :
    ((placeFrom cfg offset (splitWeightChunks cfg weights)).map Placed.received).foldlM (mergeNext cfg) (none, out) =
      some result ↔ Aligned cfg offset weights ∧ result = (none, out ++ weights) := by
  induction weights generalizing offset out with
  | nil => simp [splitWeightChunks, placeFrom, Aligned, eq_comm]
  | cons item weights ih =>
    obtain ⟨name, weight⟩ := item
    obtain ⟨hweight, hweights⟩ := List.forall_mem_cons.1 hpos
    have hsplit : splitWeightChunks cfg ((name, weight) :: weights) =
        splitWeight cfg name weight 0 ++ splitWeightChunks cfg weights := List.flatMap_cons
    rw [hsplit]
    by_cases hsmall : weight.nbytes ≤ cfg.bucketSize
    -- a small weight is one chunk, viewed at its start
    · have hstart : startAt cfg offset
          ⟨⟨name, weight.shape, weight.dtype, 0, weight.nbytes, none⟩, weight.bytes⟩ =
            if offset + weight.nbytes > cfg.bucketSize then 0 else offset := rfl
      rw [splitWeight_small hweight hsmall, List.singleton_append, placeFrom, hstart, List.map_cons, List.foldlM_cons,
        mergeNext_small hsmall, Aligned, if_pos hsmall]
      generalize (if offset + weight.nbytes > cfg.bucketSize then 0 else offset) = start
      by_cases halign : start % weight.dtype.itemsize = 0
      · rw [if_pos halign, Option.bind_eq_bind, Option.bind_some, ih hweights, List.append_assoc, List.singleton_append]
        exact ⟨fun h => ⟨⟨halign, h.1⟩, h.2⟩, fun h => ⟨h.1.2, h.2⟩⟩
      · rw [if_neg halign]
        constructor
        · intro h
          cases h
        · intro h
          exact absurd h.1.1 halign
    -- a larger weight is copied chunk by chunk, wherever these lie
    · have hlarge : cfg.bucketSize < weight.nbytes - 0 := by omega
      obtain ⟨P, hP, hplace⟩ := placeFrom_large (splitWeightChunks cfg weights) hweight (.inr hlarge)
      rw [hplace, List.map_append, List.foldlM_append, merge_large hlarge hweight hP (.inl ⟨rfl, rfl⟩), Aligned,
        if_neg hsmall, Option.bind_eq_bind, Option.bind_some, ih hweights, List.append_assoc, List.singleton_append,
        Nat.sub_zero]

/-- **Merging the packed chunks** gives the weights back exactly when the packing is aligned. -/
theorem merge_iff {result : Option Merge × Weights} (hpos : ∀ item ∈ weights, 0 < item.2.nbytes) :
    mergeWeightChunks cfg ((pack cfg 0 [] (splitWeightChunks cfg weights)).flatten.map Placed.received) = some result ↔
      Aligned cfg 0 weights ∧ result = (none, weights) := by
  rw [flatten_pack, List.nil_append]
  exact merge_placeFrom hpos

/-! ## Without buckets -/

/-- A contiguous weight, and the element of its storage where it starts. -/
structure StoredWeight where
  name : String
  weight : Tensor
  storageOffset : ℕ

def StoredWeight.entry (w : StoredWeight) : String × Tensor := (w.name, w.weight)

def yielded (start : ℕ) (c : Chunk) : TensorMeta × StorageSlice :=
  (c.tensorMeta, ⟨start + c.tensorMeta.chunkOffset, c.data⟩)

/-- What `split_weight_chunks` yields. -/
def yieldChunks (cfg : Config) (weights : List StoredWeight) : List (TensorMeta × StorageSlice) :=
  weights.flatMap fun w =>
    (splitWeight cfg w.name w.weight 0).map (yielded (w.storageOffset * w.weight.dtype.itemsize))

theorem mergeNext_received (out : Option Merge × Weights) (p : Placed) :
    mergeNext cfg out p.received = mergeNext cfg out (p.chunk.tensorMeta, ⟨p.start, p.chunk.data⟩) := by
  obtain ⟨merge, done⟩ := out
  cases merge <;> rfl

theorem foldlM_received (P : List Placed) (out : Option Merge × Weights) :
    (P.map Placed.received).foldlM (mergeNext cfg) out =
      (P.map fun p => (p.chunk.tensorMeta, (⟨p.start, p.chunk.data⟩ : StorageSlice))).foldlM (mergeNext cfg) out := by
  rw [List.foldlM_map, List.foldlM_map]
  exact congrArg (fun f => P.foldlM f out) (funext₂ fun out p => mergeNext_received out p)

theorem pos_of_mem_splitWeight (h : c ∈ splitWeight cfg name weight chunkOffset) : 0 < c.tensorMeta.chunkSize := by
  fun_induction splitWeight cfg name weight chunkOffset with
  | case1 chunkOffset hlt ih =>
    rcases List.mem_cons.1 h with rfl | h
    · exact chunkSizeAt_pos cfg hlt
    · exact ih h
  | case2 chunkOffset hlt => cases h

/-- **The chunks of a weight are merged to it**, unless it has no bytes. -/
theorem merge_weight (w : StoredWeight) (out : Weights) :
    ((splitWeight cfg w.name w.weight 0).map (yielded (w.storageOffset * w.weight.dtype.itemsize))).foldlM
        (mergeNext cfg) (none, out) =
      some (none, out ++ if 0 < w.weight.nbytes then [w.entry] else []) := by
  by_cases hpos : 0 < w.weight.nbytes
  · rw [if_pos hpos]
    by_cases hsmall : w.weight.nbytes ≤ cfg.bucketSize
    -- one chunk, which starts at a multiple of the item size
    · have hnext := @mergeNext_small cfg w.name w.weight (w.storageOffset * w.weight.dtype.itemsize) out hsmall
      rw [mergeNext_received, if_pos (Nat.mul_mod_left _ _)] at hnext
      rw [splitWeight_small hpos hsmall, List.map_singleton, List.foldlM_cons, yielded, Nat.add_zero, hnext]
      rfl
    · have hmerge := @merge_large cfg w.name w.weight 0 none
        ((splitWeight cfg w.name w.weight 0).map fun c =>
          ⟨w.storageOffset * w.weight.dtype.itemsize + c.tensorMeta.chunkOffset, c⟩) out
        (by omega) hpos (by rw [List.map_map]; exact List.map_id _) (.inl ⟨rfl, rfl⟩)
      rw [foldlM_received, List.map_map] at hmerge
      exact hmerge
  · rw [if_neg hpos, splitWeight_of_le (by omega), List.append_nil]
    rfl

theorem merge_yieldChunks (weights : List StoredWeight) (out : Weights) :
    (yieldChunks cfg weights).foldlM (mergeNext cfg) (none, out) =
      some (none, out ++ (weights.filter fun w => 0 < w.weight.nbytes).map StoredWeight.entry) := by
  induction weights generalizing out with
  | nil =>
    rw [List.filter_nil, List.map_nil, List.append_nil]
    rfl
  | cons w weights ih =>
    have hchunks : yieldChunks cfg (w :: weights) =
        (splitWeight cfg w.name w.weight 0).map (yielded (w.storageOffset * w.weight.dtype.itemsize)) ++
          yieldChunks cfg weights := List.flatMap_cons
    rw [hchunks, List.foldlM_append, merge_weight, Option.bind_eq_bind, Option.bind_some, ih]
    by_cases hpos : 0 < w.weight.nbytes
    · rw [if_pos hpos, List.filter_cons, if_pos (decide_eq_true hpos), List.map_cons, List.append_assoc,
        List.singleton_append]
    · rw [if_neg hpos, List.filter_cons, if_neg (by simpa using hpos), List.append_nil]

/-- A round trip through chunks: nothing raises, every weight comes back, and every chunk has bytes but not more than a
bucket. -/
structure RoundTrip (cfg : Config) (weights : List StoredWeight) : Prop where
  merged : mergeWeightChunks cfg (yieldChunks cfg weights) = some (none, weights.map StoredWeight.entry)
  chunks : ∀ item ∈ yieldChunks cfg weights, item.2.bytes.length = item.1.chunkSize ∧
    1 ≤ item.1.chunkSize ∧ item.1.chunkSize ≤ cfg.bucketSize

/-- **The round trip** holds exactly when no weight has a dimension of size 0. -/
theorem splitMerge_iff (cfg : Config) (weights : List StoredWeight) :
    RoundTrip cfg weights ↔ ∀ w ∈ weights, 0 ∉ w.weight.shape := by
  have hbytes : ∀ w : StoredWeight, 0 < w.weight.nbytes ↔ 0 ∉ w.weight.shape := by
    intro w
    have hitem : w.weight.dtype.itemsize ≠ 0 := by
      cases w.weight.dtype <;> decide
    rw [Nat.pos_iff_ne_zero, Tensor.nbytes_eq, Nat.mul_ne_zero_iff, and_iff_left hitem, ne_eq,
      List.prod_eq_zero_iff]
  have hmerge : mergeWeightChunks cfg (yieldChunks cfg weights) =
      some (none, (weights.filter fun w => 0 < w.weight.nbytes).map StoredWeight.entry) := merge_yieldChunks weights []
  constructor
  · intro h w hw
    have hmerged := h.merged
    rw [hmerge, Option.some_inj, Prod.mk.injEq] at hmerged
    have hlength := congrArg List.length hmerged.2
    rw [List.length_map, List.length_map, List.length_filter_eq_length_iff] at hlength
    exact (hbytes w).1 (of_decide_eq_true (hlength w hw))
  · intro h
    refine ⟨?_, ?_⟩
    · have hall : (weights.filter fun w => 0 < w.weight.nbytes) = weights :=
        List.filter_eq_self.2 fun w hw => decide_eq_true ((hbytes w).2 (h w hw))
      rw [hmerge, hall]
    · intro item hitem
      obtain ⟨w, -, hitem⟩ := List.mem_flatMap.1 hitem
      obtain ⟨c, hc, rfl⟩ := List.mem_map.1 hitem
      obtain ⟨hlength, hfits⟩ := fits_of_mem_splitWeight hc
      exact ⟨hlength, pos_of_mem_splitWeight hc, hfits⟩

/-- A weight of shape `[0]` has no chunk, and does not come back. -/
theorem not_roundTrip_empty : ∃ (cfg : Config) (w : StoredWeight), cfg.bucketSize = 4 ∧ w.weight.shape = [0] ∧
    w.weight.dtype = .float32 ∧ yieldChunks cfg [w] = [] ∧ mergeWeightChunks cfg (yieldChunks cfg [w]) = some (none, []) ∧
      ¬ RoundTrip cfg [w] := by
  have hchunks : ∀ (cfg : Config) (w : StoredWeight), w.weight.nbytes ≤ 0 → yieldChunks cfg [w] = [] := by
    intro cfg w hbytes
    have hflat : yieldChunks cfg [w] =
        (splitWeight cfg w.name w.weight 0).map (yielded (w.storageOffset * w.weight.dtype.itemsize)) ++ [] :=
      List.flatMap_cons
    rw [hflat, splitWeight_of_le hbytes, List.map_nil, List.append_nil]
  have hempty : ∀ cfg : Config, yieldChunks cfg [⟨"w", ⟨[0], .float32, [], rfl⟩, 0⟩] = [] :=
    fun cfg => hchunks cfg _ (Nat.le_refl 0)
  refine ⟨⟨4, by decide, true, fun _ => 0⟩, ⟨"w", ⟨[0], .float32, [], rfl⟩, 0⟩, rfl, rfl, rfl, hempty _, ?_, fun h => ?_⟩
  · rw [hempty]
    rfl
  · have hmerged := h.merged
    rw [hempty] at hmerged
    cases hmerged

end Opd.Verl.NcclEngine

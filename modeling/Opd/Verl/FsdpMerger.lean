import Mathlib.Data.String.Basic
import Opd.Lib.NdTensor
import Opd.Lib.Tensor

/-!
# Merging FSDP checkpoints

Each rank saves its part of a model in a file. The merger reads the world size from a configuration
file, the number of shards from the first tensor of rank 0, and the files of as many ranks. It
concatenates or takes the parts of each tensor.

* `mergesTo_iff`: when this gives back the original tensors.
-/

namespace Opd.Verl.FsdpMerger

open Lib

variable {α β : Type}

/-! ## Checkpoint files -/

/-- How a DTensor is placed along a dimension of its mesh. -/
inductive Placement
  | replicate
  | shard (dim : ℕ)
  | partialSum
deriving DecidableEq

structure Mesh where
  shape : List ℕ
  dimNames : List String
deriving DecidableEq

/-- What a rank has saved under a name. -/
inductive Stored (α : Type)
  | dtensor (mesh : Mesh) (placements : List Placement) (localTensor : NdTensor α)
  | plain (tensor : NdTensor α)

abbrev StateDict (α : Type) := List (String × Stored α)

/-- The local directory: `world_size` in `fsdp_config.json`, if there are such a file and such a key, and the file
`model_world_size_{world_size}_rank_{rank}.pt` of each rank. -/
structure Directory (α : Type) where
  config : Option (Option ℕ)
  model : ℕ → ℕ → Option (StateDict α)

inductive MergeError
  | fileNotFoundError
  | valueError (message : String)
  | indexError
  | keyError (key : String)
  | unsupportedMeshDimNames (names : List String)
  | assertionError
  | notImplementedError (message : String)
  | runtimeError
deriving DecidableEq

/-! ## The merger -/

/-- `_get_world_size` -/
def getWorldSize (dir : Directory α) : Except MergeError ℕ :=
  match dir.config with
  | none => .error .fileNotFoundError
  | some none => .error (.valueError "World size not found in the config file.")
  | some (some worldSize) => .ok worldSize

/-- `torch.load` of the file of a rank. -/
def loadShard (dir : Directory α) (worldSize rank : ℕ) : Except MergeError (StateDict α) :=
  match dir.model worldSize rank with
  | none => .error .fileNotFoundError
  | some stateDict => .ok stateDict

/-- `state_dict[key]` -/
def lookup (stateDict : StateDict α) (key : String) : Except MergeError (Stored α) :=
  match List.lookup key stateDict with
  | none => .error (.keyError key)
  | some stored => .ok stored

/-- `sorted(keys)[0]` -/
def pivotKey (stateDict : StateDict α) : Except MergeError String :=
  match ((stateDict.map Prod.fst).mergeSort fun a b => decide (a ≤ b)).head? with
  | none => .error .indexError
  | some key => .ok key

/-- The mesh of a tensor. Without one, it is an array of one number, the world size. -/
def meshOf (worldSize : ℕ) : Stored α → Mesh
  | .dtensor mesh _ _ => mesh
  | .plain _ => ⟨[[worldSize].length], ["fsdp"]⟩

/-- `_extract_device_mesh_info` -/
def extractDeviceMeshInfo (stateDict : StateDict α) (worldSize : ℕ) : Except MergeError Mesh := do
  let key ← pivotKey stateDict
  let weight ← lookup stateDict key
  .ok (meshOf worldSize weight)

/-- `_calculate_shard_configuration` -/
def calculateShardConfiguration (mesh : Mesh) : Except MergeError (ℕ × List ℕ) :=
  if mesh.dimNames = ["fsdp"] ∨ mesh.dimNames = ["ddp", "fsdp"] then
    match mesh.shape.getLast? with
    | none => .error .indexError
    | some size => .ok (size, [size])
  else .error (.unsupportedMeshDimNames mesh.dimNames)

/-- `torch.cat` -/
def torchCat (dim : ℕ) (tensors : List (NdTensor β)) : Except MergeError (NdTensor β) :=
  match NdTensor.cat dim tensors with
  | none => .error .runtimeError
  | some tensor => .ok tensor

/-- `_merge_by_placement` -/
def mergeByPlacement (tensors : List (NdTensor β)) : Placement → Except MergeError (NdTensor β)
  | .replicate =>
    match tensors with
    | [] => .error .indexError
    | tensor :: _ => .ok tensor
  | .partialSum => .error (.notImplementedError "Partial placement is not supported yet")
  | .shard dim => torchCat dim tensors

/-- The tensors of a key so far, and its placements. -/
structure Collected (β : Type) where
  tensors : List (NdTensor β)
  placements : Option (List Placement)

/-- The placements without that of the first dimension, if it is one of data parallelism. -/
def shardPlacements (dimNames : List String) (placements : List Placement) : List Placement :=
  if dimNames.head? = some "dp" ∨ dimNames.head? = some "ddp" then placements.drop 1 else placements

def addShard (bfloat16 : α → β) (dimNames : List String) (collected : Collected β) :
    Stored α → Except MergeError (Collected β)
  | .dtensor _ placements localTensor =>
    let placements := shardPlacements dimNames placements
    match collected.placements with
    | none => .ok ⟨collected.tensors ++ [localTensor.map bfloat16], some placements⟩
    | some seen =>
      if seen = placements then .ok ⟨collected.tensors ++ [localTensor.map bfloat16], some seen⟩
      else .error .assertionError
  | .plain tensor => .ok ⟨collected.tensors ++ [tensor.map bfloat16], collected.placements⟩

def collect (bfloat16 : α → β) (dimNames : List String) (stored : List (Stored α)) :
    Except MergeError (Collected β) := stored.foldlM (addShard bfloat16 dimNames) ⟨[], none⟩

def mergeTensors (meshShape : List ℕ) (collected : Collected β) : Except MergeError (NdTensor β) :=
  match collected.placements with
  | some placements =>
    if meshShape.length = 1 then
      match placements with
      | [placement] => mergeByPlacement collected.tensors placement
      | _ => .error .assertionError
    else .error (.notImplementedError "FSDP + TP is not supported yet")
  | none => torchCat 0 collected.tensors

def mergeKey (bfloat16 : α → β) (dimNames : List String) (meshShape : List ℕ) (shards : List (StateDict α))
    (key : String) : Except MergeError (String × NdTensor β) := do
  let stored ← shards.mapM fun shard => lookup shard key
  let collected ← collect bfloat16 dimNames stored
  let merged ← mergeTensors meshShape collected
  .ok (key, merged)

/-- `_load_and_merge_state_dicts` -/
def loadAndMergeStateDicts (bfloat16 : α → β) (dir : Directory α) (worldSize totalShards : ℕ) (meshShape : List ℕ)
    (dimNames : List String) : Except MergeError (List (String × NdTensor β)) := do
  let shards ← (List.range totalShards).mapM (loadShard dir worldSize)
  match shards with
  | [] => .error .indexError
  | first :: _ => (first.map Prod.fst).mapM (mergeKey bfloat16 dimNames meshShape shards)

/-- **The merged state dict** of `merge_and_save`. -/
def mergeAndSave (bfloat16 : α → β) (dir : Directory α) : Except MergeError (List (String × NdTensor β)) := do
  let worldSize ← getWorldSize dir
  let rankZeroStateDict ← loadShard dir worldSize 0
  let mesh ← extractDeviceMeshInfo rankZeroStateDict worldSize
  let (totalShards, meshShape) ← calculateShardConfiguration mesh
  loadAndMergeStateDicts bfloat16 dir worldSize totalShards meshShape mesh.dimNames

/-! ## Checkpoints -/

/-- How a tensor is saved: as a DTensor that is sharded along a dimension or replicated, in plain shards along
dimension 0, or as a plain buffer on each rank. -/
inductive Kind
  | sharded (dim : ℕ) (sizes : List ℕ)
  | replicated
  | plainShard (sizes : List ℕ)
  | buffer

def Kind.isDTensor : Kind → Bool
  | sharded _ _ => true
  | replicated => true
  | plainShard _ => false
  | buffer => false

def Kind.isPlainShard : Kind → Bool
  | plainShard _ => true
  | _ => false

def Kind.isBuffer : Kind → Bool
  | buffer => true
  | _ => false

/-- A tensor of the original state dict, and how it is saved. -/
structure Entry (α : Type) where
  name : String
  tensor : NdTensor α
  kind : Kind

namespace Entry

/-- The shards, some of which may be empty, are those of a dimension. -/
def WellFormed (e : Entry α) (shards : ℕ) : Prop :=
  match e.kind with
  | .sharded dim sizes => dim < e.tensor.shape.length ∧ sizes.length = shards ∧ sizes.sum = e.tensor.size dim
  | .plainShard sizes => 0 < e.tensor.shape.length ∧ sizes.length = shards ∧ sizes.sum = e.tensor.size 0
  | _ => True

def piece (dim : ℕ) (sizes : List ℕ) (t : NdTensor α) (coordinate : ℕ) : NdTensor α :=
  NdTensor.slice dim (sizes.take coordinate).sum (sizes.getD coordinate 0) t

def part (e : Entry α) (coordinate : ℕ) : NdTensor α :=
  match e.kind with
  | .sharded dim sizes => piece dim sizes e.tensor coordinate
  | .replicated => e.tensor
  | .plainShard sizes => piece 0 sizes e.tensor coordinate
  | .buffer => e.tensor

def placement? (e : Entry α) : Option Placement :=
  match e.kind with
  | .sharded dim _ => some (.shard dim)
  | .replicated => some .replicate
  | _ => none

/-- What a rank saves: a DTensor is replicated along a dimension of data parallelism. -/
def stored (mesh : Mesh) (coordinate : ℕ) (e : Entry α) : Stored α :=
  match e.placement? with
  | some placement =>
    .dtensor mesh (List.replicate (mesh.shape.length - 1) .replicate ++ [placement]) (e.part coordinate)
  | none => .plain (e.part coordinate)

end Entry

/-- **A checkpoint** of a state dict over a mesh of ranks in row-major order, with or without a dimension of data
parallelism: either in plain shards, or with DTensors and buffers. -/
structure Checkpoint (α : Type) where
  ddp : Option ℕ
  fsdp : ℕ
  entries : List (Entry α)
  ddp_pos : ∀ n ∈ ddp, 0 < n
  fsdp_pos : 0 < fsdp
  nodup : (entries.map Entry.name).Nodup
  wellFormed : ∀ e ∈ entries, e.WellFormed fsdp
  kinds : (∀ e ∈ entries, e.kind.isPlainShard = true) ∨
    (∀ e ∈ entries, e.kind.isPlainShard = false) ∧ ∃ e ∈ entries, e.kind.isDTensor = true

namespace Checkpoint

def mesh (c : Checkpoint α) : Mesh :=
  match c.ddp with
  | none => ⟨[c.fsdp], ["fsdp"]⟩
  | some ddp => ⟨[ddp, c.fsdp], ["ddp", "fsdp"]⟩

def worldSize (c : Checkpoint α) : ℕ := c.ddp.getD 1 * c.fsdp

def stateDict (c : Checkpoint α) (rank : ℕ) : StateDict α :=
  c.entries.map fun e => (e.name, e.stored c.mesh (rank % c.fsdp))

def directory (c : Checkpoint α) : Directory α where
  config := some (some c.worldSize)
  model worldSize rank := if worldSize = c.worldSize ∧ rank < c.worldSize then some (c.stateDict rank) else none

/-- **The merger gives back the state dict**, up to the cast. -/
def MergesTo (bfloat16 : α → β) (c : Checkpoint α) : Prop :=
  mergeAndSave bfloat16 c.directory = .ok (c.entries.map fun e => (e.name, e.tensor.map bfloat16))

def pivot (c : Checkpoint α) : Option (Entry α) :=
  ((c.entries.map Entry.name).mergeSort fun a b => decide (a ≤ b)).head?.bind fun key =>
    c.entries.find? fun e => e.name == key

end Checkpoint

def Entry.FirstIsWhole (e : Entry α) : Prop :=
  match e.kind with
  | .sharded dim sizes => sizes.getD 0 0 = e.tensor.size dim
  | .replicated => True
  | .plainShard sizes => sizes.getD 0 0 = e.tensor.size 0
  | .buffer => 0 < e.tensor.shape.length

/-- **The checkpoints that are merged**: the first tensor is a DTensor, and no buffer is repeated, or it is plain
and all of the model is on rank 0. -/
structure Checkpoint.Mergeable (c : Checkpoint α) : Prop where
  nonempty : c.entries ≠ []
  byDTensor : ∀ pivot ∈ c.pivot, pivot.kind.isDTensor = true → ∀ e ∈ c.entries, e.kind.isBuffer = true →
    0 < e.tensor.shape.length ∧ (c.fsdp = 1 ∨ e.tensor.size 0 = 0)
  byPlain : ∀ pivot ∈ c.pivot, pivot.kind.isDTensor = false → ∀ e ∈ c.entries,
    e.FirstIsWhole ∧ (e.kind.isDTensor = true → c.ddp = none)

/-! ## What is loaded -/

variable {c : Checkpoint α} {e : Entry α}

theorem worldSize_pos (c : Checkpoint α) : 0 < c.worldSize := by
  refine Nat.mul_pos ?_ c.fsdp_pos
  cases hddp : c.ddp with
  | none => exact Nat.one_pos
  | some n => exact c.ddp_pos n hddp

theorem fsdp_le_worldSize (c : Checkpoint α) : c.fsdp ≤ c.worldSize := by
  refine Nat.le_mul_of_pos_left c.fsdp ?_
  cases hddp : c.ddp with
  | none => exact Nat.one_pos
  | some n => exact c.ddp_pos n hddp

theorem loadShard_eq {rank : ℕ} (h : rank < c.worldSize) :
    loadShard c.directory c.worldSize rank = .ok (c.stateDict rank) := by
  have hfile : c.directory.model c.worldSize rank = some (c.stateDict rank) := if_pos ⟨rfl, h⟩
  rw [loadShard, hfile]

theorem lookup_map {entries : List (Entry α)} (hnodup : (entries.map Entry.name).Nodup) (he : e ∈ entries)
    (f : Entry α → Stored α) : List.lookup e.name (entries.map fun e => (e.name, f e)) = some (f e) := by
  induction entries with
  | nil => cases he
  | cons first entries ih =>
    rw [List.map_cons, List.nodup_cons] at hnodup
    rw [List.map_cons, List.lookup_cons]
    rcases List.mem_cons.1 he with rfl | he
    · rw [beq_self_eq_true]
    · have hne : (e.name == first.name) = false :=
        beq_eq_false_iff_ne.2 fun h => hnodup.1 (h ▸ List.mem_map_of_mem he)
      rw [hne]
      exact ih hnodup.2 he

theorem lookup_stateDict (he : e ∈ c.entries) (rank : ℕ) :
    lookup (c.stateDict rank) e.name = .ok (e.stored c.mesh (rank % c.fsdp)) := by
  rw [lookup, Checkpoint.stateDict, lookup_map c.nodup he]

theorem collect_stored (bfloat16 : α → β) (dimNames : List String) (mesh : Mesh) (e : Entry α) {ranks : List ℕ}
    (hranks : ranks ≠ []) :
    collect bfloat16 dimNames (ranks.map fun rank => e.stored mesh rank) =
      .ok ⟨ranks.map fun rank => (e.part rank).map bfloat16, e.placement?.map fun placement =>
        shardPlacements dimNames (List.replicate (mesh.shape.length - 1) .replicate ++ [placement])⟩ := by
  have hmore : ∀ (ranks : List ℕ) (tensors : List (NdTensor β)),
      (ranks.map fun rank => e.stored mesh rank).foldlM (addShard bfloat16 dimNames)
        ⟨tensors, e.placement?.map fun placement =>
          shardPlacements dimNames (List.replicate (mesh.shape.length - 1) .replicate ++ [placement])⟩ =
      .ok ⟨tensors ++ ranks.map fun rank => (e.part rank).map bfloat16, e.placement?.map fun placement =>
        shardPlacements dimNames (List.replicate (mesh.shape.length - 1) .replicate ++ [placement])⟩ := by
    intro ranks
    induction ranks with
    | nil =>
      intro tensors
      rw [List.map_nil, List.map_nil, List.append_nil]
      rfl
    | cons rank ranks ih =>
      intro tensors
      rw [List.map_cons, List.foldlM_cons]
      have hstep : addShard bfloat16 dimNames ⟨tensors, e.placement?.map fun placement =>
          shardPlacements dimNames (List.replicate (mesh.shape.length - 1) .replicate ++ [placement])⟩
          (e.stored mesh rank) =
          .ok ⟨tensors ++ [(e.part rank).map bfloat16], e.placement?.map fun placement =>
            shardPlacements dimNames (List.replicate (mesh.shape.length - 1) .replicate ++ [placement])⟩ := by
        rw [Entry.stored]
        cases e.placement? with
        | none => rfl
        | some placement => exact if_pos rfl
      rw [hstep]
      refine (ih _).trans ?_
      rw [List.map_cons, List.append_assoc]
      rfl
  obtain ⟨first, ranks, rfl⟩ := List.exists_cons_of_ne_nil hranks
  rw [collect, List.map_cons, List.foldlM_cons]
  have hstep : addShard bfloat16 dimNames ⟨[], none⟩ (e.stored mesh first) =
      .ok ⟨[(e.part first).map bfloat16], e.placement?.map fun placement =>
        shardPlacements dimNames (List.replicate (mesh.shape.length - 1) .replicate ++ [placement])⟩ := by
    rw [Entry.stored]
    cases e.placement? with
    | none => rfl
    | some placement => rfl
  rw [hstep]
  exact hmore ranks _

/-! ## What is merged -/

theorem torchCat_eq_ok {dim : ℕ} {tensors : List (NdTensor β)} {t : NdTensor β} :
    torchCat dim tensors = .ok t ↔ NdTensor.cat dim tensors = some t := by
  rw [torchCat]
  cases NdTensor.cat dim tensors with
  | none => exact iff_of_false nofun nofun
  | some t' => rw [Except.ok.injEq, Option.some.injEq]

/-- The placements that are left, and the parts of the first ranks. -/
def Entry.collected (bfloat16 : α → β) (dimNames : List String) (mesh : Mesh) (totalShards : ℕ) (e : Entry α) :
    Collected β :=
  ⟨(List.range totalShards).map fun rank => (e.part rank).map bfloat16, e.placement?.map fun placement =>
    shardPlacements dimNames (List.replicate (mesh.shape.length - 1) .replicate ++ [placement])⟩

theorem mergeKey_eq {totalShards : ℕ} (hpos : 0 < totalShards) (hle : totalShards ≤ c.fsdp) (he : e ∈ c.entries)
    (bfloat16 : α → β) (dimNames : List String) (meshShape : List ℕ) :
    mergeKey bfloat16 dimNames meshShape ((List.range totalShards).map c.stateDict) e.name =
      (mergeTensors meshShape (e.collected bfloat16 dimNames c.mesh totalShards)).map (Prod.mk e.name) := by
  have hlookup : ((List.range totalShards).map c.stateDict).mapM (fun shard => lookup shard e.name) =
      .ok ((List.range totalShards).map fun rank => e.stored c.mesh rank) := by
    refine mapM_map_eq fun rank hrank => ?_
    rw [lookup_stateDict he, Nat.mod_eq_of_lt ((List.mem_range.1 hrank).trans_le hle)]
  have hne : List.range totalShards ≠ [] := by
    rw [Ne, List.range_eq_nil]
    omega
  rw [mergeKey, hlookup]
  change (collect bfloat16 dimNames _ >>= _) = _
  rw [collect_stored bfloat16 dimNames c.mesh e hne]
  change (mergeTensors meshShape (e.collected bfloat16 dimNames c.mesh totalShards) >>= _) = _
  cases mergeTensors meshShape (e.collected bfloat16 dimNames c.mesh totalShards) <;> rfl

theorem loadAndMerge_iff {totalShards : ℕ} (hpos : 0 < totalShards) (hle : totalShards ≤ c.fsdp) (bfloat16 : α → β)
    (dimNames : List String) (meshShape : List ℕ) :
    loadAndMergeStateDicts bfloat16 c.directory c.worldSize totalShards meshShape dimNames =
        .ok (c.entries.map fun e => (e.name, e.tensor.map bfloat16)) ↔
      ∀ e ∈ c.entries,
        mergeTensors meshShape (e.collected bfloat16 dimNames c.mesh totalShards) = .ok (e.tensor.map bfloat16) := by
  have hshards : (List.range totalShards).mapM (loadShard c.directory c.worldSize) =
      .ok ((List.range totalShards).map c.stateDict) :=
    mapM_eq_map fun rank hrank => loadShard_eq ((List.mem_range.1 hrank).trans_le (hle.trans (fsdp_le_worldSize c)))
  have hfirst : ∃ more, (List.range totalShards).map c.stateDict = c.stateDict 0 :: more := by
    obtain ⟨n, rfl⟩ : ∃ n, totalShards = n + 1 := ⟨totalShards - 1, by omega⟩
    rw [List.range_succ_eq_map]
    exact ⟨_, rfl⟩
  obtain ⟨more, hmore⟩ := hfirst
  have hkeys : (c.stateDict 0).map Prod.fst = c.entries.map Entry.name := by
    rw [Checkpoint.stateDict, List.map_map]
    rfl
  have hload : loadAndMergeStateDicts bfloat16 c.directory c.worldSize totalShards meshShape dimNames =
      (c.entries.map Entry.name).mapM
        (mergeKey bfloat16 dimNames meshShape ((List.range totalShards).map c.stateDict)) := by
    rw [loadAndMergeStateDicts, hshards, hmore, ← hkeys]
    rfl
  rw [hload, mapM_eq_ok_iff, List.forall₂_map_left_iff, List.forall₂_map_right_iff, List.forall₂_same]
  refine forall_congr' fun e => forall_congr' fun he => ?_
  rw [mergeKey_eq hpos hle he]
  cases mergeTensors meshShape (e.collected bfloat16 dimNames c.mesh totalShards) with
  | error _ => exact iff_of_false nofun nofun
  | ok t =>
    change Except.ok (e.name, t) = _ ↔ _
    rw [Except.ok.injEq, Except.ok.injEq, Prod.mk.injEq, and_iff_right rfl]

theorem map_piece (dim : ℕ) (sizes : List ℕ) (t : NdTensor α) :
    (List.range sizes.length).map (Entry.piece dim sizes t) = NdTensor.slices dim 0 t sizes := by
  have hstart : ∀ (sizes : List ℕ) (start : ℕ),
      (List.range sizes.length).map (fun i => NdTensor.slice dim (start + (sizes.take i).sum) (sizes.getD i 0) t) =
        NdTensor.slices dim start t sizes := by
    intro sizes
    induction sizes with
    | nil => exact fun _ => rfl
    | cons n sizes ih =>
      intro start
      rw [List.length_cons, List.range_succ_eq_map, List.map_cons, List.map_map, NdTensor.slices, ← ih (start + n)]
      refine congrArg₂ List.cons rfl (List.map_congr_left fun i _ => ?_)
      rw [Function.comp_apply, Nat.succ_eq_add_one, List.take_succ_cons, List.sum_cons, List.getD_cons_succ, Nat.add_assoc]
  rw [← hstart sizes 0]
  refine List.map_congr_left fun i _ => ?_
  rw [Entry.piece, Nat.zero_add]

theorem cat_pieces {dim : ℕ} {sizes : List ℕ} {t : NdTensor α} (bfloat16 : α → β) (hdim : dim < t.shape.length)
    (hpos : 0 < sizes.length) (hsum : sizes.sum = t.size dim) :
    NdTensor.cat dim ((List.range sizes.length).map fun i => (Entry.piece dim sizes t i).map bfloat16) =
      some (t.map bfloat16) := by
  have hpieces : ((List.range sizes.length).map fun i => (Entry.piece dim sizes t i).map bfloat16) =
      NdTensor.slices dim 0 (t.map bfloat16) sizes := by
    rw [← map_piece]
    refine List.map_congr_left fun i _ => ?_
    rw [Entry.piece, NdTensor.map_slice]
    rfl
  rw [hpieces, NdTensor.cat_slices (t := t.map bfloat16) hdim (List.ne_nil_of_length_pos hpos)
    (by rw [hsum, Nat.zero_add]; exact Nat.le_refl _), hsum]
  exact congrArg some (NdTensor.slice_all dim (t.map bfloat16))

theorem mergeTensors_dtensor {tensors : List (NdTensor β)} {placement : Placement} (n : ℕ) :
    mergeTensors [n] ⟨tensors, some [placement]⟩ = mergeByPlacement tensors placement := rfl

/-- **All shards of an entry**: only the copies of a buffer are too many. -/
theorem merged_all (hwell : e.WellFormed c.fsdp) (hkind : e.kind.isPlainShard = false) (bfloat16 : α → β)
    {dimNames : List String}
    (hplace : ∀ placement,
      shardPlacements dimNames (List.replicate (c.mesh.shape.length - 1) .replicate ++ [placement]) = [placement]) :
    mergeTensors [c.fsdp] (e.collected bfloat16 dimNames c.mesh c.fsdp) = .ok (e.tensor.map bfloat16) ↔
      (e.kind.isBuffer = true → 0 < e.tensor.shape.length ∧ (c.fsdp = 1 ∨ e.tensor.size 0 = 0)) := by
  have hpos := c.fsdp_pos
  obtain ⟨name, tensor, kind⟩ := e
  cases kind with
  | sharded dim sizes =>
    obtain ⟨hdim, hlength, hsum⟩ := hwell
    refine iff_of_true ?_ nofun
    rw [Entry.collected, Entry.placement?, Option.map_some, hplace, mergeTensors_dtensor, mergeByPlacement, torchCat_eq_ok,
      ← hlength]
    exact cat_pieces bfloat16 hdim (hlength ▸ hpos) hsum
  | replicated =>
    refine iff_of_true ?_ nofun
    obtain ⟨n, hn⟩ : ∃ n, c.fsdp = n + 1 := ⟨c.fsdp - 1, by omega⟩
    rw [Entry.collected, Entry.placement?, Option.map_some, hplace, mergeTensors_dtensor, hn, List.range_succ_eq_map]
    rfl
  | plainShard sizes => cases hkind
  | buffer =>
    have hcopies : ((List.range c.fsdp).map fun rank =>
        (Entry.part ⟨name, tensor, .buffer⟩ rank).map bfloat16) = List.replicate c.fsdp (tensor.map bfloat16) := by
      change (List.range c.fsdp).map (fun _ => tensor.map bfloat16) = _
      rw [List.map_const', List.length_range]
    obtain ⟨n, hn⟩ : ∃ n, c.fsdp = n + 1 := ⟨c.fsdp - 1, by omega⟩
    rw [Entry.collected, hcopies, hn]
    refine torchCat_eq_ok.trans ((NdTensor.cat_replicate n).trans ?_)
    change (0 < tensor.shape.length ∧ (n = 0 ∨ tensor.size 0 = 0)) ↔
      (true = true → 0 < tensor.shape.length ∧ (n + 1 = 1 ∨ tensor.size 0 = 0))
    rw [imp_iff_right rfl, Nat.succ.injEq]

theorem piece_zero {dim : ℕ} {sizes : List ℕ} {t : NdTensor α} (bfloat16 : α → β) (hdim : dim < t.shape.length)
    (hsum : sizes.sum = t.size dim) :
    NdTensor.cat dim [(Entry.piece dim sizes t 0).map bfloat16] = some (t.map bfloat16) ↔
      sizes.getD 0 0 = t.size dim := by
  have hle : sizes.getD 0 0 ≤ (t.map bfloat16).size dim := by
    change _ ≤ t.size dim
    rw [← hsum]
    cases sizes with
    | nil => exact Nat.zero_le _
    | cons first sizes =>
      rw [List.getD_cons_zero, List.sum_cons]
      exact Nat.le_add_right _ _
  rw [Entry.piece, NdTensor.map_slice, List.take_zero, List.sum_nil]
  have hone : NdTensor.cat dim [NdTensor.slice dim 0 (sizes.getD 0 0) (t.map bfloat16)] =
      some (NdTensor.slice dim 0 (sizes.getD 0 0) (t.map bfloat16)) := by
    refine if_pos ?_
    rw [NdTensor.shape_slice, List.length_set]
    exact hdim
  rw [hone, Option.some.injEq]
  exact NdTensor.slice_eq_iff (t := t.map bfloat16) hdim hle

/-- **The part of rank 0**, along a mesh of one dimension: it has to be the whole tensor. -/
theorem merged_one (hwell : e.WellFormed c.fsdp) (bfloat16 : α → β) :
    mergeTensors [1] (e.collected bfloat16 ["fsdp"] c.mesh 1) = .ok (e.tensor.map bfloat16) ↔
      e.FirstIsWhole ∧ (e.kind.isDTensor = true → c.ddp = none) := by
  have hplace : ∀ placement, shardPlacements ["fsdp"]
      (List.replicate (c.mesh.shape.length - 1) .replicate ++ [placement]) =
        if c.ddp = none then [placement] else [.replicate, placement] := by
    intro placement
    rw [Checkpoint.mesh]
    cases c.ddp with
    | none => rfl
    | some n => rfl
  obtain ⟨name, tensor, kind⟩ := e
  cases kind with
  | sharded dim sizes =>
    obtain ⟨hdim, hlength, hsum⟩ := hwell
    rw [Entry.collected, Entry.placement?, Option.map_some, hplace]
    by_cases hddp : c.ddp = none
    · rw [if_pos hddp, mergeTensors_dtensor, mergeByPlacement, torchCat_eq_ok]
      refine (piece_zero bfloat16 hdim hsum).trans ?_
      exact (and_iff_left fun _ => hddp).symm
    · rw [if_neg hddp]
      exact iff_of_false nofun fun h => hddp (h.2 rfl)
  | replicated =>
    rw [Entry.collected, Entry.placement?, Option.map_some, hplace]
    by_cases hddp : c.ddp = none
    · rw [if_pos hddp]
      exact iff_of_true rfl ⟨trivial, fun _ => hddp⟩
    · rw [if_neg hddp]
      exact iff_of_false nofun fun h => hddp (h.2 rfl)
  | plainShard sizes =>
    obtain ⟨hdim, hlength, hsum⟩ := hwell
    refine torchCat_eq_ok.trans ((piece_zero bfloat16 hdim hsum).trans ?_)
    exact (and_iff_left nofun).symm
  | buffer =>
    refine torchCat_eq_ok.trans ((NdTensor.cat_replicate 0).trans ?_)
    exact and_congr_right fun _ => iff_of_true (.inl rfl) nofun

/-! ## When a checkpoint is merged -/

theorem exists_pivot (hne : c.entries ≠ []) :
    ∃ pivot ∈ c.entries, c.pivot = some pivot ∧ pivotKey (c.stateDict 0) = .ok pivot.name := by
  have hkeys : (c.stateDict 0).map Prod.fst = c.entries.map Entry.name := by
    rw [Checkpoint.stateDict, List.map_map]
    rfl
  cases hsorted : (c.entries.map Entry.name).mergeSort fun a b => decide (a ≤ b) with
  | nil =>
    have hlength := congrArg List.length hsorted
    rw [List.length_mergeSort, List.length_map, List.length_nil] at hlength
    exact absurd (List.length_eq_zero_iff.1 hlength) hne
  | cons key rest =>
    have hmem : key ∈ c.entries.map Entry.name := by
      rw [← @List.mem_mergeSort _ (fun a b => decide (a ≤ b)), hsorted]
      exact List.mem_cons_self
    obtain ⟨e, he, hname⟩ := List.mem_map.1 hmem
    obtain ⟨pivot, hfind⟩ : ∃ pivot, c.entries.find? (fun e => e.name == key) = some pivot :=
      Option.isSome_iff_exists.1 (List.find?_isSome.2 ⟨e, he, beq_iff_eq.2 hname⟩)
    have hpivot : pivot.name = key := by
      have := List.find?_some hfind
      exact beq_iff_eq.1 this
    refine ⟨pivot, List.mem_of_find?_eq_some hfind, ?_, ?_⟩
    · rw [Checkpoint.pivot, hsorted]
      exact hfind
    · rw [pivotKey, hkeys, hsorted, hpivot]
      rfl

theorem meshOf_stored (worldSize coordinate : ℕ) (mesh : Mesh) (e : Entry α) :
    meshOf worldSize (e.stored mesh coordinate) = if e.kind.isDTensor = true then mesh else ⟨[1], ["fsdp"]⟩ := by
  obtain ⟨name, tensor, kind⟩ := e
  cases kind <;> rfl

theorem calculate_mesh (c : Checkpoint α) : calculateShardConfiguration c.mesh = .ok (c.fsdp, [c.fsdp]) := by
  rw [Checkpoint.mesh]
  cases c.ddp <;> rfl

theorem shardPlacements_mesh (c : Checkpoint α) (placement : Placement) :
    shardPlacements c.mesh.dimNames (List.replicate (c.mesh.shape.length - 1) .replicate ++ [placement]) =
      [placement] := by
  rw [Checkpoint.mesh]
  cases c.ddp <;> rfl

theorem mergeAndSave_eq (bfloat16 : α → β) {pivot : Entry α} (hmem : pivot ∈ c.entries)
    (hkey : pivotKey (c.stateDict 0) = .ok pivot.name) :
    mergeAndSave bfloat16 c.directory =
      if pivot.kind.isDTensor = true then
        loadAndMergeStateDicts bfloat16 c.directory c.worldSize c.fsdp [c.fsdp] c.mesh.dimNames
      else loadAndMergeStateDicts bfloat16 c.directory c.worldSize 1 [1] ["fsdp"] := by
  have hmesh : extractDeviceMeshInfo (c.stateDict 0) c.worldSize =
      .ok (if pivot.kind.isDTensor = true then c.mesh else ⟨[1], ["fsdp"]⟩) := by
    rw [extractDeviceMeshInfo, hkey]
    change (lookup (c.stateDict 0) pivot.name >>= _) = _
    rw [lookup_stateDict hmem, ← meshOf_stored c.worldSize (0 % c.fsdp) c.mesh pivot]
    rfl
  change (loadShard c.directory c.worldSize 0 >>= _) = _
  rw [loadShard_eq (worldSize_pos c)]
  change (extractDeviceMeshInfo (c.stateDict 0) c.worldSize >>= _) = _
  rw [hmesh]
  split_ifs
  · change (calculateShardConfiguration c.mesh >>= _) = _
    rw [calculate_mesh]
    rfl
  · rfl

/-- **When the merger gives back the state dict.** -/
theorem mergesTo_iff (bfloat16 : α → β) (c : Checkpoint α) : c.MergesTo bfloat16 ↔ c.Mergeable := by
  by_cases hne : c.entries = []
  · refine iff_of_false (fun h => ?_) fun h => h.nonempty hne
    have hkey : pivotKey (c.stateDict 0) = .error .indexError := by
      rw [pivotKey, Checkpoint.stateDict, hne, List.map_nil, List.map_nil, List.mergeSort_nil]
      rfl
    have herror : mergeAndSave bfloat16 c.directory = .error .indexError := by
      change (loadShard c.directory c.worldSize 0 >>= _) = _
      rw [loadShard_eq (worldSize_pos c)]
      change (extractDeviceMeshInfo (c.stateDict 0) c.worldSize >>= _) = _
      rw [extractDeviceMeshInfo, hkey]
      rfl
    rw [Checkpoint.MergesTo, herror] at h
    cases h
  · obtain ⟨pivot, hmem, hpivot, hkey⟩ := exists_pivot hne
    rw [Checkpoint.MergesTo, mergeAndSave_eq bfloat16 hmem hkey]
    by_cases hdtensor : pivot.kind.isDTensor = true
    · rw [if_pos hdtensor, loadAndMerge_iff c.fsdp_pos (Nat.le_refl _)]
      have hkinds : ∀ e ∈ c.entries, e.kind.isPlainShard = false := by
        rcases c.kinds with hplain | hmixed
        · have hplainPivot := hplain pivot hmem
          cases hk : pivot.kind <;> rw [hk] at hdtensor hplainPivot
          · cases hplainPivot
          · cases hplainPivot
          · cases hdtensor
          · cases hdtensor
        · exact hmixed.1
      have heach := fun e he => merged_all (c.wellFormed e he) (hkinds e he) bfloat16 (shardPlacements_mesh c)
      constructor
      · intro h
        refine ⟨hne, fun p hp _ e he => (heach e he).1 (h e he), fun p hp hnot => ?_⟩
        rw [hpivot] at hp
        cases hp
        rw [hdtensor] at hnot
        cases hnot
      · exact fun h e he => (heach e he).2 (h.byDTensor pivot hpivot hdtensor e he)
    · rw [if_neg hdtensor, loadAndMerge_iff Nat.one_pos c.fsdp_pos]
      have heach := fun e he => merged_one (c := c) (e := e) (c.wellFormed e he) bfloat16
      rw [Bool.not_eq_true] at hdtensor
      constructor
      · intro h
        refine ⟨hne, fun p hp hnot => ?_, fun p hp _ e he => (heach e he).1 (h e he)⟩
        rw [hpivot] at hp
        cases hp
        rw [hdtensor] at hnot
        cases hnot
      · exact fun h e he => (heach e he).2 (h.byPlain pivot hpivot hdtensor e he)

def listGet (l : List α) : List ℕ → Option α
  | [i] => l[i]?
  | _ => none

theorem isSome_listGet (l : List α) (idx : List ℕ) : (listGet l idx).isSome = true ↔ InBounds [l.length] idx := by
  rcases idx with _ | ⟨i, _ | ⟨j, more⟩⟩
  · exact iff_of_false Bool.false_ne_true fun h => absurd h.1 Nat.zero_ne_one
  · rw [listGet, isSome_getElem?]
    constructor
    · intro h
      refine ⟨rfl, fun d hd => ?_⟩
      obtain rfl : d = 0 := Nat.lt_one_iff.1 hd
      exact h
    · exact fun h => h.2 0 Nat.one_pos
  · exact iff_of_false Bool.false_ne_true fun h => absurd (Nat.succ.inj h.1) (Nat.succ_ne_zero _)

def ofList (l : List α) : NdTensor α := ⟨[l.length], listGet l, isSome_listGet l⟩

def twoElements : Entry ℕ := ⟨"weight", ofList [7, 8], .plainShard [1, 1]⟩

theorem nodup_twoElements : ([twoElements].map Entry.name).Nodup := List.nodup_singleton _

theorem wellFormed_twoElements : ∀ e ∈ [twoElements], e.WellFormed 2 := by
  intro e he
  rw [List.mem_singleton.1 he]
  exact ⟨Nat.one_pos, rfl, rfl⟩

theorem isPlainShard_twoElements : (∀ e ∈ [twoElements], e.kind.isPlainShard = true) ∨
    (∀ e ∈ [twoElements], e.kind.isPlainShard = false) ∧ ∃ e ∈ [twoElements], e.kind.isDTensor = true := by
  refine .inl fun e he => ?_
  rw [List.mem_singleton.1 he]
  rfl

def twoShards : Checkpoint ℕ where
  ddp := none
  fsdp := 2
  entries := [twoElements]
  ddp_pos := nofun
  fsdp_pos := Nat.two_pos
  nodup := nodup_twoElements
  wellFormed := wellFormed_twoElements
  kinds := isPlainShard_twoElements

theorem not_mergesTo : ¬∀ c : Checkpoint ℕ, c.MergesTo id := by
  intro h
  have htwo := h twoShards
  obtain ⟨pivot, hmem, -, hkey⟩ := exists_pivot (c := twoShards) (List.cons_ne_nil _ _)
  have hplain : ¬twoElements.kind.isDTensor = true := Bool.false_ne_true
  rw [Checkpoint.MergesTo, mergeAndSave_eq id hmem hkey, List.mem_singleton.1 hmem, if_neg hplain,
    loadAndMerge_iff Nat.one_pos (Nat.le_succ 1)] at htwo
  have hfirst := ((merged_one (wellFormed_twoElements _ (List.mem_singleton_self _)) id).1
    (htwo twoElements (List.mem_singleton_self _))).1
  exact absurd hfirst (Nat.succ_ne_self 1).symm

end Opd.Verl.FsdpMerger

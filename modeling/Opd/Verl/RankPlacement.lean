import Mathlib.Data.List.Dedup
import Mathlib.Order.Lattice
import Opd.Lib.Blocks
import Opd.Lib.Sorting
import Opd.Lib.System
import Opd.Lib.Tensor

/-!
# The placement of ranks in a resource pool and its splits

A `RayResourcePool` makes its placement groups when it is used for the first time, and keeps them sorted by the addresses
of their nodes. `split_resource_pool` gives the placement groups of a pool to parts of it, and a `RayWorkerGroup` places
its ranks on the bundles of a pool or of a part.

* `workers_whole`, `workers_part`: where the ranks are.
* `inv_of_run`: what the parts have, after the pool was used in any order.
* `consistent_iff`: a split agrees with the whole pool exactly when it was not the first use of the pool, or when the
  placement groups were sorted from the start.
-/

namespace Opd.Verl.RankPlacement

open Lib

variable {ι : Type} [LinearOrder ι]

/-! ## Pools -/

/-- A placement group, by its index among those that were made with it. -/
structure PlacementGroup where
  idx : ℕ
  bundleCount : ℕ
  deriving DecidableEq

/-- A `RayResourcePool`. A `SubRayResourcePool` has `part`: its `start_bundle_index` and its `subgroup_world_size`. -/
structure Pool where
  store : List ℕ
  pgs : Option (List PlacementGroup)
  part : Option (ℕ × ℕ)

inductive Error
  | assertionError
  | indexError
  | zeroDivisionError
  deriving DecidableEq

def Pool.worldSize (pool : Pool) : ℕ :=
  match pool.part with
  | none => pool.store.sum
  | some part => part.2

/-- `sort_placement_group_by_node_ip`, where `ip` is the address of the node of a placement group. -/
def sortPlacementGroupByNodeIp (ip : ℕ → ι) (pgs : List PlacementGroup) : List PlacementGroup :=
  pgs.insertionSort fun a b => ip a.idx ≤ ip b.idx

def makePlacementGroups (store : List ℕ) : List PlacementGroup := store.zipIdx.map fun entry => ⟨entry.2, entry.1⟩

/-- `get_placement_groups`: the first call keeps the sorted ones and returns those as they were made. -/
def getPlacementGroups (ip : ℕ → ι) (pool : Pool) : List PlacementGroup × Pool :=
  match pool.pgs with
  | some pgs => (pgs, pool)
  | none =>
    let pgs := makePlacementGroups pool.store
    (pgs, { pool with pgs := some (sortPlacementGroupByNodeIp ip pgs) })

/-- `split_size`: one size for all parts, or a size for each. -/
inductive SplitSize
  | every (size : ℕ)
  | each (sizes : List ℕ)

def splitSizeList (pool : Pool) : SplitSize → Except Error (List ℕ)
  | .every size =>
    if size = 0 then .error .zeroDivisionError
    else if pool.worldSize % size = 0 then .ok (List.replicate (pool.worldSize / size) size)
    else .error .assertionError
  | .each sizes => .ok sizes

/-- The parts, which begin one behind the other from `start` on. -/
def parts (store : List ℕ) (pgs : List PlacementGroup) (start : ℕ) (sizes : List ℕ) : List Pool :=
  ((cumsum 0 (start :: sizes.dropLast)).zip sizes).map fun part => ⟨store, some pgs, some part⟩

/-- `split_resource_pool` -/
def splitResourcePool (ip : ℕ → ι) (pool : Pool) (splitSize : SplitSize) : Except Error (List Pool × Pool) := do
  let sizes ← splitSizeList pool splitSize
  if sizes.sum = pool.worldSize then
    let placementGroups := getPlacementGroups ip pool
    .ok (parts pool.store placementGroups.1 ((pool.part.map Prod.fst).getD 0) sizes, placementGroups.2)
  else .error .assertionError

/-! ## Worker groups -/

structure Worker where
  rank : ℕ
  pgIdx : ℕ
  pg : PlacementGroup
  localRank : ℕ
  deriving DecidableEq

/-- A `RayWorkerGroup`. The address and the port of the master are taken from a bundle. -/
structure WorkerGroup where
  worldSize : ℕ
  localWorldSize : ℕ
  master : Option (PlacementGroup × ℕ)
  workers : List Worker
  deriving DecidableEq

/-- The loop of `_init_with_resource_pool`, from a placement group on. -/
def wholeWorkers (localWorldSize : ℕ) : ℕ → ℕ → List PlacementGroup → Except Error (List Worker)
  | _, _, [] => .ok []
  | pgIdx, rank, pg :: pgs => do
    if localWorldSize ≤ pg.bundleCount then
      let rest ← wholeWorkers localWorldSize (pgIdx + 1) (rank + localWorldSize) pgs
      .ok ((List.range localWorldSize).map (fun localRank => ⟨rank + localRank, pgIdx, pg, localRank⟩) ++ rest)
    else .error .assertionError

/-- `_init_with_resource_pool` -/
def initWithResourcePool (ip : ℕ → ι) (pool : Pool) : Except Error (WorkerGroup × Pool) :=
  let pgs := getPlacementGroups ip pool
  match pool.store with
  | [] => .error .indexError
  | localWorldSize :: _ => do
    let sorted := sortPlacementGroupByNodeIp ip pgs.1
    let workers ← wholeWorkers localWorldSize 0 0 sorted
    .ok (⟨pool.worldSize, localWorldSize, sorted.head?.map fun pg => (pg, 0), workers⟩, pgs.2)

/-- One pass of the loop of `_init_with_subresource_pool`. -/
def partWorker (localWorldSize start : ℕ) (pgs : List PlacementGroup) (rank : ℕ) : Except Error Worker :=
  match pgs[(start + rank) / localWorldSize]? with
  | none => .error .indexError
  | some pg =>
    if localWorldSize ≤ pg.bundleCount then
      .ok ⟨rank, (start + rank) / localWorldSize, pg, (start + rank) % localWorldSize⟩
    else .error .assertionError

/-- `_init_with_subresource_pool` -/
def initWithSubresourcePool (ip : ℕ → ι) (pool : Pool) (start : ℕ) : Except Error (WorkerGroup × Pool) :=
  let pgs := getPlacementGroups ip pool
  match pool.store with
  | [] => .error .indexError
  | localWorldSize :: _ =>
    match pgs.1[start / localWorldSize]? with
    | none => .error .indexError
    | some masterPg => do
      let workers ← (List.range pool.worldSize).mapM (partWorker localWorldSize start pgs.1)
      .ok (⟨pool.worldSize, localWorldSize, some (masterPg, start % localWorldSize), workers⟩, pgs.2)

/-- The initialisation of a worker group on a pool or on a part of one. -/
def initWorkerGroup (ip : ℕ → ι) (pool : Pool) : Except Error (WorkerGroup × Pool) :=
  match pool.part with
  | none => initWithResourcePool ip pool
  | some part => initWithSubresourcePool ip pool part.1

def Worker.bundle (worker : Worker) : PlacementGroup × ℕ := (worker.pg, worker.localRank)

/-! ## The uses of a pool -/

/-- A pool is used by a worker group, by a split, or by a worker group on a part: the split, and the part in it. -/
inductive Use
  | whole
  | split (splitSize : SplitSize)
  | part (split index : ℕ)

/-- A pool, its splits in their order, and the worker groups with what they are on. -/
structure Session where
  pool : Pool
  splits : List (List Pool)
  groups : List (Option (ℕ × ℕ) × WorkerGroup)

def fresh (store : List ℕ) : Session := ⟨⟨store, none, none⟩, [], []⟩

/-- A use that does not raise. A part has its placement groups already, so that it stays as it is. -/
def step (ip : ℕ → ι) (s : Session) : Use → Option Session
  | .whole =>
    match initWorkerGroup ip s.pool with
    | .ok (group, pool) => some { s with pool := pool, groups := s.groups ++ [(none, group)] }
    | .error _ => none
  | .split splitSize =>
    match splitResourcePool ip s.pool splitSize with
    | .ok (pools, pool) => some { s with pool := pool, splits := s.splits ++ [pools] }
    | .error _ => none
  | .part split index =>
    match (s.splits[split]?).bind fun pools => pools[index]? with
    | none => none
    | some part =>
      match initWorkerGroup ip part with
      | .ok (group, _) => some { s with groups := s.groups ++ [(some (split, index), group)] }
      | .error _ => none

/-- The bundles that a pool or a part is given, one for each rank. -/
def bundlesOf (ip : ℕ → ι) (pool : Pool) : List (PlacementGroup × ℕ) :=
  match initWorkerGroup ip pool with
  | .ok (group, _) => group.workers.map Worker.bundle
  | .error _ => []

def allBundles (pgs : List PlacementGroup) : List (PlacementGroup × ℕ) :=
  pgs.flatMap fun pg => (List.range pg.bundleCount).map fun bundle => (pg, bundle)

def UsesAllOnce (store : List ℕ) (bundles : List (PlacementGroup × ℕ)) : Prop :=
  bundles.Nodup ∧ ∀ bundle, bundle ∈ bundles ↔ bundle ∈ allBundles (makePlacementGroups store)

/-- **A split agrees with the whole pool.** -/
structure Consistent (ip : ℕ → ι) (pool : Pool) (pools : List Pool) : Prop where
  covered : ∀ r < pool.worldSize, ∃ sub ∈ pools, ∃ part, sub.part = some part ∧ part.1 ≤ r ∧ r < part.1 + part.2
  agrees : ∀ sub ∈ pools, ∀ part, sub.part = some part → ∀ r, part.1 ≤ r → r < part.1 + part.2 →
    ∃ whole group : WorkerGroup × Pool, initWorkerGroup ip pool = .ok whole ∧ initWorkerGroup ip sub = .ok group ∧
      ∃ w ∈ whole.1.workers, ∃ w' ∈ group.1.workers, w.rank = r ∧ w'.rank = r - part.1 ∧ w.bundle = w'.bundle
  wholeOnce : UsesAllOnce pool.store (bundlesOf ip pool)
  splitOnce : UsesAllOnce pool.store (pools.flatMap (bundlesOf ip))

/-! ## Placement groups -/

section groups

variable {n m : ℕ} {pgs : List PlacementGroup}

theorem makePlacementGroups_replicate (n m : ℕ) :
    makePlacementGroups (List.replicate n m) = (List.range n).map fun idx => ⟨idx, m⟩ := by
  refine List.ext_getElem? fun i => ?_
  unfold makePlacementGroups
  rw [List.getElem?_map, List.getElem?_zipIdx, List.getElem?_map, List.getElem?_replicate]
  by_cases hi : i < n
  · rw [if_pos hi, List.getElem?_range hi, Nat.zero_add]
    rfl
  · rw [if_neg hi, List.getElem?_eq_none (by rw [List.length_range]; omega)]
    rfl

/-- The placement groups of a pool of `n` nodes with `m` processes each, in any order. -/
def OfPool (n m : ℕ) (pgs : List PlacementGroup) : Prop := pgs.Perm ((List.range n).map fun idx => ⟨idx, m⟩)

theorem OfPool.length_eq (h : OfPool n m pgs) : pgs.length = n := by
  rw [List.Perm.length_eq h, List.length_map, List.length_range]

theorem OfPool.bundleCount_eq (h : OfPool n m pgs) {pg : PlacementGroup} (hpg : pg ∈ pgs) : pg.bundleCount = m := by
  obtain ⟨idx, _, rfl⟩ := List.mem_map.1 (List.Perm.mem_iff h |>.1 hpg)
  rfl

theorem ofPool_make (n m : ℕ) : OfPool n m (makePlacementGroups (List.replicate n m)) :=
  List.Perm.of_eq (makePlacementGroups_replicate n m)

theorem OfPool.sort (h : OfPool n m pgs) (ip : ℕ → ι) : OfPool n m (sortPlacementGroupByNodeIp ip pgs) :=
  (List.perm_insertionSort _ pgs).trans h

theorem sort_sort (ip : ℕ → ι) (pgs : List PlacementGroup) :
    sortPlacementGroupByNodeIp ip (sortPlacementGroupByNodeIp ip pgs) = sortPlacementGroupByNodeIp ip pgs := by
  have htotal : Std.Total fun a b : PlacementGroup => ip a.idx ≤ ip b.idx := ⟨fun a b => le_total (ip a.idx) (ip b.idx)⟩
  have htrans : IsTrans PlacementGroup fun a b => ip a.idx ≤ ip b.idx := ⟨fun a b c hab hbc => le_trans hab hbc⟩
  exact (List.pairwise_insertionSort _ pgs).insertionSort_eq

/-- **The placement groups are sorted from the start** when the addresses are. -/
theorem sort_eq_make_iff (ip : ℕ → ι) (n m : ℕ) :
    sortPlacementGroupByNodeIp ip (makePlacementGroups (List.replicate n m)) =
        makePlacementGroups (List.replicate n m) ↔ ∀ i j, i < j → j < n → ip i ≤ ip j := by
  have htotal : Std.Total fun a b : PlacementGroup => ip a.idx ≤ ip b.idx := ⟨fun a b => le_total (ip a.idx) (ip b.idx)⟩
  have htrans : IsTrans PlacementGroup fun a b => ip a.idx ≤ ip b.idx := ⟨fun a b c hab hbc => le_trans hab hbc⟩
  have hpairwise : (makePlacementGroups (List.replicate n m)).Pairwise (fun a b => ip a.idx ≤ ip b.idx) ↔
      ∀ i j, i < j → j < n → ip i ≤ ip j := by
    rw [makePlacementGroups_replicate, List.pairwise_map, List.pairwise_iff_getElem]
    simp only [List.getElem_range, List.length_range]
    exact ⟨fun h i j hij hj => h i j (by omega) hj hij, fun h i j _ hj hij => h i j hij hj⟩
  rw [← hpairwise]
  constructor
  · intro h
    rw [← h]
    exact List.pairwise_insertionSort _ _
  · exact fun h => h.insertionSort_eq

theorem getElem?_allBundles (h : OfPool n m pgs) {r : ℕ} (hr : r < n * m) :
    (allBundles pgs)[r]? = (pgs[r / m]?).map fun pg => (pg, r % m) := by
  have hm : 0 < m := Nat.pos_of_mul_pos_left (Nat.lt_of_le_of_lt (Nat.zero_le r) hr)
  have hlength : ∀ pg ∈ pgs, ((List.range pg.bundleCount).map fun bundle => (pg, bundle)).length = m := by
    intro pg hpg
    rw [List.length_map, List.length_range, h.bundleCount_eq hpg]
  have hmod := Nat.mod_lt r hm
  have hget := getElem?_flatMap_of_length hlength (i := r / m) hmod
  rw [Nat.div_add_mod'] at hget
  refine hget.trans ?_
  cases hpg : pgs[r / m]? with
  | none => rfl
  | some pg =>
    rw [Option.bind_some, List.getElem?_map, h.bundleCount_eq (List.mem_of_getElem? hpg), List.getElem?_range hmod]
    rfl

theorem length_allBundles (h : OfPool n m pgs) : (allBundles pgs).length = n * m := by
  have hlength : ∀ pg ∈ pgs, ((List.range pg.bundleCount).map fun bundle => (pg, bundle)).length = m := by
    intro pg hpg
    rw [List.length_map, List.length_range, h.bundleCount_eq hpg]
  rw [allBundles, List.length_flatMap, List.map_congr_left hlength, List.map_const', List.sum_replicate_nat, h.length_eq]

theorem usesAllOnce_allBundles (h : OfPool n m pgs) : UsesAllOnce (List.replicate n m) (allBundles pgs) := by
  have hperm : pgs.Perm (makePlacementGroups (List.replicate n m)) :=
    List.Perm.trans h (List.Perm.of_eq (makePlacementGroups_replicate n m).symm)
  constructor
  · have hnodup : pgs.Nodup := by
      refine (List.Perm.nodup_iff h).2 (List.nodup_range.map fun a b hab => ?_)
      exact congrArg PlacementGroup.idx hab
    refine List.nodup_flatMap.2 ⟨fun pg _ => List.nodup_range.map fun a b hab => congrArg Prod.snd hab, ?_⟩
    refine hnodup.imp fun hne => ?_
    intro bundle hbundle hbundle'
    obtain ⟨_, _, rfl⟩ := List.mem_map.1 hbundle
    obtain ⟨_, _, heq⟩ := List.mem_map.1 hbundle'
    exact hne (congrArg Prod.fst heq).symm
  · exact fun bundle => (hperm.flatMap_right _).mem_iff

end groups

/-! ## Workers -/

section workers

variable {n m : ℕ} {pgs : List PlacementGroup}

/-- The worker of a rank of a group whose first rank is on bundle `start`. -/
def workerAt (m start : ℕ) (pgs : List PlacementGroup) (rank : ℕ) : Option Worker :=
  (pgs[(start + rank) / m]?).map fun pg => ⟨rank, (start + rank) / m, pg, (start + rank) % m⟩

theorem wholeWorkers_eq (hcount : ∀ pg ∈ pgs, pg.bundleCount = m) (pgIdx : ℕ) :
    wholeWorkers m pgIdx (pgIdx * m) pgs =
      .ok ((pgs.zipIdx pgIdx).flatMap fun entry => (List.range m).map fun l => ⟨entry.2 * m + l, entry.2, entry.1, l⟩) := by
  induction pgs generalizing pgIdx with
  | nil => rfl
  | cons pg pgs ih =>
    have hrest := ih (fun pg' hpg' => hcount pg' (List.mem_cons_of_mem pg hpg')) (pgIdx + 1)
    rw [Nat.succ_mul] at hrest
    unfold wholeWorkers
    rw [if_pos (hcount pg List.mem_cons_self).ge]
    simp only [hrest, bind, Except.bind]
    rw [List.zipIdx_cons, List.flatMap_cons]

theorem workers_whole (h : OfPool n m pgs) : ∃ workers, wholeWorkers m 0 0 pgs = .ok workers ∧
    workers.length = n * m ∧ ∀ r < n * m, workers[r]? = workerAt m 0 pgs r := by
  have hloop := wholeWorkers_eq (fun pg => h.bundleCount_eq) 0
  rw [Nat.zero_mul] at hloop
  have hlength : ∀ entry ∈ pgs.zipIdx 0,
      ((List.range m).map fun l => (⟨entry.2 * m + l, entry.2, entry.1, l⟩ : Worker)).length = m := by
    intro entry _
    rw [List.length_map, List.length_range]
  refine ⟨_, hloop, ?_, fun r hr => ?_⟩
  · rw [List.length_flatMap, List.map_congr_left hlength, List.map_const', List.sum_replicate_nat, List.length_zipIdx,
      h.length_eq]
  · have hm : 0 < m := Nat.pos_of_mul_pos_left (Nat.lt_of_le_of_lt (Nat.zero_le r) hr)
    have hmod := Nat.mod_lt r hm
    have hget := getElem?_flatMap_of_length hlength (i := r / m) hmod
    rw [Nat.div_add_mod'] at hget
    refine hget.trans ?_
    rw [List.getElem?_zipIdx]
    simp only [workerAt, Nat.zero_add]
    cases pgs[r / m]? with
    | none => rfl
    | some pg =>
      rw [Option.map_some, Option.bind_some, List.getElem?_map, List.getElem?_range hmod, Option.map_some,
        Option.map_some, Nat.div_add_mod']

theorem workers_part (h : OfPool n m pgs) {start size : ℕ} (hpart : start + size ≤ n * m) :
    ∃ workers, (List.range size).mapM (partWorker m start pgs) = .ok workers ∧
      workers.length = size ∧ ∀ r < size, workers[r]? = workerAt m start pgs r := by
  have hworker : ∀ r < size, ∃ worker, workerAt m start pgs r = some worker ∧ partWorker m start pgs r = .ok worker := by
    intro r hr
    have hlt : (start + r) / m < pgs.length := by
      rw [h.length_eq]
      exact Nat.div_lt_of_lt_mul (by rw [Nat.mul_comm]; omega)
    have hget := List.getElem?_eq_getElem hlt
    unfold partWorker workerAt
    rw [hget]
    exact ⟨_, rfl, if_pos (h.bundleCount_eq (List.getElem_mem hlt)).ge⟩
  obtain ⟨workers, hworkers⟩ := mapM_of_forall (f := partWorker m start pgs) (l := List.range size) fun r hr => by
    obtain ⟨worker, _, hok⟩ := hworker r (List.mem_range.1 hr)
    exact ⟨worker, hok⟩
  have hall := mapM_eq_ok_iff.1 hworkers
  refine ⟨workers, hworkers, hall.length_eq.symm.trans List.length_range, fun r hr => ?_⟩
  obtain ⟨worker, hworkerAt, hok⟩ := hworker r hr
  obtain ⟨worker', hget, hok'⟩ := getElem?_of_forall₂ hall (List.getElem?_range hr)
  rw [hget, hworkerAt, ← Except.ok.inj (hok.symm.trans hok')]

theorem bundles_of_workerAt (h : OfPool n m pgs) (start : ℕ) {size : ℕ} (hpart : start + size ≤ n * m) {workers : List Worker}
    (hlength : workers.length = size) (hworkers : ∀ r < size, workers[r]? = workerAt m start pgs r) :
    workers.map Worker.bundle = block start size (allBundles pgs) := by
  refine List.ext_getElem? fun r => ?_
  by_cases hr : r < size
  · rw [List.getElem?_map, hworkers r hr, getElem?_block hr, getElem?_allBundles h (by omega), workerAt, Option.map_map]
    rfl
  · rw [List.getElem?_eq_none (by rw [List.length_map]; omega),
      List.getElem?_eq_none (by rw [block, List.length_take]; omega)]

end workers

/-! ## Parts -/

section parts

variable {n m : ℕ} {pgs : List PlacementGroup}

theorem zip_starts (start : ℕ) (sizes : List ℕ) :
    (cumsum 0 (start :: sizes.dropLast)).zip sizes = (start :: cumsum start sizes).zip sizes := by
  rw [cumsum, Nat.zero_add]
  induction sizes generalizing start with
  | nil => rfl
  | cons size sizes ih =>
    rw [List.zip_cons_cons, List.zip_cons_cons]
    refine congrArg _ ?_
    cases sizes with
    | nil => rw [List.zip_nil_right, List.zip_nil_right]
    | cons size' sizes =>
      rw [List.dropLast_cons_cons, cumsum]
      exact ih (start + size)

theorem part_le {start : ℕ} {sizes : List ℕ} {piece : ℕ × ℕ} (h : piece ∈ (start :: cumsum start sizes).zip sizes) :
    piece.1 + piece.2 ≤ start + sizes.sum := by
  induction sizes generalizing start with
  | nil => exact absurd h List.not_mem_nil
  | cons size sizes ih =>
    rw [List.zip_cons_cons, List.mem_cons] at h
    rw [List.sum_cons]
    rcases h with rfl | h
    · dsimp only
      omega
    · have hrest := ih h
      omega

theorem exists_part {start r : ℕ} {sizes : List ℕ} (hle : start ≤ r) (hlt : r < start + sizes.sum) :
    ∃ piece ∈ (start :: cumsum start sizes).zip sizes, piece.1 ≤ r ∧ r < piece.1 + piece.2 := by
  induction sizes generalizing start with
  | nil =>
    rw [List.sum_nil] at hlt
    omega
  | cons size sizes ih =>
    rw [List.sum_cons] at hlt
    by_cases hr : r < start + size
    · exact ⟨(start, size), List.mem_cons_self, hle, hr⟩
    · obtain ⟨piece, hpiece, hcovers⟩ := ih (by omega : start + size ≤ r) (by omega)
      exact ⟨piece, List.mem_cons_of_mem _ hpiece, hcovers⟩

theorem mem_parts {store sizes : List ℕ} {start : ℕ} {sub : Pool} :
    sub ∈ parts store pgs start sizes ↔
      ∃ piece ∈ (start :: cumsum start sizes).zip sizes, (⟨store, some pgs, some piece⟩ : Pool) = sub := by
  rw [parts, zip_starts, List.mem_map]

theorem init_part (ip : ℕ → ι) (h : OfPool n m pgs) {piece : ℕ × ℕ} (hpart : piece.1 + piece.2 ≤ n * m)
    (hpos : 0 < piece.2) : ∃ group, initWorkerGroup ip ⟨List.replicate n m, some pgs, some piece⟩ = .ok group ∧
      group.1.workers.length = piece.2 ∧ ∀ r < piece.2, group.1.workers[r]? = workerAt m piece.1 pgs r := by
  obtain ⟨workers, hworkers, hlength, hat⟩ := workers_part h hpart
  have hn : 0 < n := Nat.pos_of_mul_pos_right (by omega : 0 < n * m)
  obtain ⟨nodes, rfl⟩ := Nat.exists_eq_succ_of_ne_zero hn.ne'
  have hlt : piece.1 / m < pgs.length := by
    rw [h.length_eq]
    exact Nat.div_lt_of_lt_mul (by rw [Nat.mul_comm]; omega)
  refine ⟨(⟨piece.2, m, some (pgs[piece.1 / m], piece.1 % m), workers⟩,
    ⟨List.replicate (nodes + 1) m, some pgs, some piece⟩), ?_, hlength, hat⟩
  unfold initWorkerGroup initWithSubresourcePool
  simp only [List.replicate_succ, getPlacementGroups, List.getElem?_eq_getElem hlt, Pool.worldSize, hworkers, bind,
    Except.bind]

theorem bundlesOf_part (ip : ℕ → ι) (h : OfPool n m pgs) {piece : ℕ × ℕ} (hpart : piece.1 + piece.2 ≤ n * m) :
    bundlesOf ip ⟨List.replicate n m, some pgs, some piece⟩ = block piece.1 piece.2 (allBundles pgs) := by
  by_cases hpos : 0 < piece.2
  · obtain ⟨group, hgroup, hlength, hat⟩ := init_part ip h hpart hpos
    unfold bundlesOf
    rw [hgroup]
    exact bundles_of_workerAt h _ hpart hlength hat
  · -- a part without ranks, which a worker group may refuse
    have hzero : piece.2 = 0 := by omega
    have hempty : block piece.1 piece.2 (allBundles pgs) = [] := by rw [hzero, block, List.take_zero]
    rw [hempty]
    unfold bundlesOf initWorkerGroup initWithSubresourcePool
    simp only [getPlacementGroups, Pool.worldSize, hzero]
    split
    · rename_i group pool heq
      split at heq
      · cases heq
      · split at heq
        · cases heq
        · cases heq
          rfl
    · rfl

theorem bundlesOf_parts (ip : ℕ → ι) (h : OfPool n m pgs) {sizes : List ℕ} (hsum : sizes.sum = n * m) :
    (parts (List.replicate n m) pgs 0 sizes).flatMap (bundlesOf ip) = allBundles pgs := by
  have hblocks := @flatMap_blocks _ 0 1 sizes (allBundles pgs) (by
    rw [length_allBundles h, hsum]
    omega)
  rw [Nat.zero_mul, List.drop_zero] at hblocks
  rw [parts, zip_starts, List.flatMap_map, ← hblocks]
  refine List.flatMap_congr fun piece hpiece => ?_
  have hle := part_le hpiece
  rw [bundlesOf_part ip h (by omega), Nat.mul_one, Nat.mul_one]

end parts

/-! ## Whole pools -/

section whole

variable {n m : ℕ}

def usedPool (ip : ℕ → ι) (n m : ℕ) : Pool :=
  ⟨List.replicate n m, some (sortPlacementGroupByNodeIp ip (makePlacementGroups (List.replicate n m))), none⟩

theorem ofPool_sorted (ip : ℕ → ι) (n m : ℕ) :
    OfPool n m (sortPlacementGroupByNodeIp ip (makePlacementGroups (List.replicate n m))) := (ofPool_make n m).sort ip

/-- **A worker group on the whole pool** is the same before the first use and after it. -/
theorem init_whole (ip : ℕ → ι) (hn : 0 < n) (m : ℕ) : ∃ group : WorkerGroup,
    initWorkerGroup ip (fresh (List.replicate n m)).pool = .ok (group, usedPool ip n m) ∧
      initWorkerGroup ip (usedPool ip n m) = .ok (group, usedPool ip n m) ∧ group.workers.length = n * m ∧
      ∀ r < n * m, group.workers[r]? =
        workerAt m 0 (sortPlacementGroupByNodeIp ip (makePlacementGroups (List.replicate n m))) r := by
  obtain ⟨nodes, rfl⟩ := Nat.exists_eq_succ_of_ne_zero hn.ne'
  obtain ⟨workers, hworkers, hlength, hat⟩ := workers_whole (ofPool_sorted ip (nodes + 1) m)
  let pgs := sortPlacementGroupByNodeIp ip (makePlacementGroups (List.replicate (nodes + 1) m))
  refine ⟨⟨(nodes + 1) * m, m, pgs.head?.map fun pg => (pg, 0), workers⟩, ?_, ?_, hlength, hat⟩
  · unfold initWorkerGroup initWithResourcePool
    simp only [fresh, List.replicate_succ, getPlacementGroups, Pool.worldSize]
    rw [← List.replicate_succ, hworkers]
    simp only [bind, Except.bind, List.sum_replicate_nat]
    rfl
  · unfold initWorkerGroup initWithResourcePool
    simp only [usedPool, List.replicate_succ, getPlacementGroups, Pool.worldSize, sort_sort]
    rw [← List.replicate_succ, hworkers]
    simp only [bind, Except.bind, List.sum_replicate_nat]
    rfl

end whole

/-! ## Agreement -/

section agreement

variable {n m : ℕ} {pgs : List PlacementGroup}

theorem worldSize_used (ip : ℕ → ι) (n m : ℕ) : (usedPool ip n m).worldSize = n * m := List.sum_replicate_nat

theorem bundlesOf_whole (ip : ℕ → ι) (n m : ℕ) : bundlesOf ip (usedPool ip n m) =
    allBundles (sortPlacementGroupByNodeIp ip (makePlacementGroups (List.replicate n m))) := by
  have hpool := ofPool_sorted ip n m
  rcases Nat.eq_zero_or_pos n with rfl | hn
  · rfl
  · obtain ⟨group, _, hgroup, hlength, hat⟩ := init_whole ip hn m
    have hbundles := bundles_of_workerAt hpool 0 (by omega) hlength hat
    unfold bundlesOf
    rw [hgroup]
    refine hbundles.trans ?_
    rw [block, List.drop_zero, ← length_allBundles hpool, List.take_length]

theorem workerAt_of_mem {start size : ℕ} {workers : List Worker} (hlength : workers.length = size)
    (hat : ∀ r < size, workers[r]? = workerAt m start pgs r) {worker : Worker} (h : worker ∈ workers) :
    workerAt m start pgs worker.rank = some worker := by
  obtain ⟨r, hr, rfl⟩ := List.getElem_of_mem h
  have hworker := hat r (hlength ▸ hr)
  rw [List.getElem?_eq_getElem hr] at hworker
  have hrank : workers[r].rank = r := by
    obtain ⟨pg, _, hpg⟩ := Option.map_eq_some_iff.1 hworker.symm
    rw [← hpg]
  rw [hrank]
  exact hworker.symm

theorem bundle_workerAt {start rank : ℕ} : (workerAt m start pgs rank).map Worker.bundle =
    (pgs[(start + rank) / m]?).map fun pg => (pg, (start + rank) % m) := by
  rw [workerAt, Option.map_map]
  rfl

/-- **The parts agree with the whole pool** exactly when they have its sorted placement groups. -/
theorem consistent_parts_iff (ip : ℕ → ι) (hm : 0 < m) (h : OfPool n m pgs) {sizes : List ℕ} (hsum : sizes.sum = n * m) :
    Consistent ip (usedPool ip n m) (parts (List.replicate n m) pgs 0 sizes) ↔
      pgs = sortPlacementGroupByNodeIp ip (makePlacementGroups (List.replicate n m)) := by
  have hsorted := ofPool_sorted ip n m
  have hle : ∀ piece ∈ (0 :: cumsum 0 sizes).zip sizes, piece.1 + piece.2 ≤ n * m := by
    intro piece hpiece
    have hpart := part_le hpiece
    omega
  constructor
  · intro hconsistent
    refine List.ext_getElem? fun i => ?_
    by_cases hi : i < n
    · -- the first rank on the node
      have hr : i * m < n * m := Nat.mul_lt_mul_of_pos_right hi hm
      obtain ⟨sub, hsub, part, hpart, hlo, hhi⟩ := hconsistent.covered (i * m) (by rwa [worldSize_used])
      obtain ⟨whole, group, hwhole, hgroup, w, hw, w', hw', hrank, hrank', hbundle⟩ :=
        hconsistent.agrees sub hsub part hpart (i * m) hlo hhi
      obtain ⟨piece, hpiece, rfl⟩ := mem_parts.1 hsub
      obtain rfl : piece = part := Option.some.inj hpart
      obtain ⟨_, _, hinit, hlength, hat⟩ := init_whole ip (by omega : 0 < n) m
      obtain ⟨_, hinit', hlength', hat'⟩ := init_part ip h (hle piece hpiece) (by omega)
      obtain rfl := Except.ok.inj (hinit.symm.trans hwhole)
      obtain rfl := Except.ok.inj (hinit'.symm.trans hgroup)
      have hworker := congrArg (Option.map Worker.bundle) (workerAt_of_mem hlength hat hw)
      have hworker' := congrArg (Option.map Worker.bundle) (workerAt_of_mem hlength' hat' hw')
      have hplace : piece.1 + w'.rank = i * m := by omega
      rw [bundle_workerAt, hrank, Nat.zero_add, Nat.mul_div_cancel _ hm, Option.map_some, hbundle] at hworker
      rw [bundle_workerAt, hplace, Nat.mul_div_cancel _ hm, Option.map_some] at hworker'
      obtain ⟨pg, hpg, heq⟩ := Option.map_eq_some_iff.1 hworker
      obtain ⟨pg', hpg', heq'⟩ := Option.map_eq_some_iff.1 hworker'
      have hsame : pg = pg' := congrArg Prod.fst (heq.trans heq'.symm)
      rw [hpg, hpg', hsame]
    · rw [List.getElem?_eq_none (by rw [h.length_eq]; omega), List.getElem?_eq_none (by rw [hsorted.length_eq]; omega)]
  · rintro rfl
    refine ⟨?_, ?_, ?_, ?_⟩
    · intro r hr
      rw [worldSize_used] at hr
      obtain ⟨piece, hpiece, hcovers⟩ := exists_part (Nat.zero_le r) (by omega : r < 0 + sizes.sum)
      exact ⟨_, mem_parts.2 ⟨piece, hpiece, rfl⟩, piece, rfl, hcovers⟩
    · intro sub hsub part hpart r hlo hhi
      obtain ⟨piece, hpiece, rfl⟩ := mem_parts.1 hsub
      obtain rfl : piece = part := Option.some.inj hpart
      have hpiece := hle piece hpiece
      have hn : 0 < n := Nat.pos_of_mul_pos_right (by omega : 0 < n * m)
      obtain ⟨whole, _, hinit, _, hat⟩ := init_whole ip hn m
      obtain ⟨group, hinit', _, hat'⟩ := init_part ip h hpiece (by omega)
      have hworker := hat r (by omega)
      have hworker' := hat' (r - piece.1) (by omega)
      have hlt : r / m < (sortPlacementGroupByNodeIp ip (makePlacementGroups (List.replicate n m))).length := by
        rw [hsorted.length_eq]
        exact Nat.div_lt_of_lt_mul (by rw [Nat.mul_comm]; omega)
      unfold workerAt at hworker hworker'
      rw [Nat.zero_add, List.getElem?_eq_getElem hlt] at hworker
      rw [show piece.1 + (r - piece.1) = r by omega, List.getElem?_eq_getElem hlt] at hworker'
      exact ⟨_, group, hinit, hinit', _, List.mem_of_getElem? hworker, _, List.mem_of_getElem? hworker', rfl, rfl, rfl⟩
    · rw [bundlesOf_whole]
      exact usesAllOnce_allBundles hsorted
    · rw [bundlesOf_parts ip h hsum]
      exact usesAllOnce_allBundles h

end agreement

/-! ## Runs -/

section runs

variable {n m : ℕ}

/-- The placement groups of a split, in a run that begins with the use `first`. -/
def splitGroups (ip : ℕ → ι) (n m : ℕ) : Use → ℕ → List PlacementGroup
  | .split _, 0 => makePlacementGroups (List.replicate n m)
  | _, _ => sortPlacementGroupByNodeIp ip (makePlacementGroups (List.replicate n m))

/-- **The invariant** of the runs that begin with the use `first`. -/
structure Inv (ip : ℕ → ι) (n m : ℕ) (first : Use) (s : Session) : Prop where
  pool : s.pool = usedPool ip n m
  started : (∃ splitSize, first = .split splitSize) → 0 < s.splits.length
  splits : ∀ k pools, s.splits[k]? = some pools →
    ∃ sizes, sizes.sum = n * m ∧ pools = parts (List.replicate n m) (splitGroups ip n m first k) 0 sizes
  whole : ∀ group, (none, group) ∈ s.groups → initWorkerGroup ip (usedPool ip n m) = .ok (group, usedPool ip n m)
  part : ∀ k j group, (some (k, j), group) ∈ s.groups → ∃ pools sub pool, s.splits[k]? = some pools ∧
    pools[j]? = some sub ∧ initWorkerGroup ip sub = .ok (group, pool)

variable {ip : ℕ → ι}

theorem splitResourcePool_eq_ok {pool : Pool} {splitSize : SplitSize} {out : List Pool × Pool}
    (h : splitResourcePool ip pool splitSize = .ok out) : ∃ sizes : List ℕ, sizes.sum = pool.worldSize ∧
      out = (parts pool.store (getPlacementGroups ip pool).1 ((pool.part.map Prod.fst).getD 0) sizes,
        (getPlacementGroups ip pool).2) := by
  obtain ⟨sizes, _, hout⟩ := bind_eq_ok.1 h
  split at hout
  · rename_i hsum
    exact ⟨sizes, hsum, (Except.ok.inj hout).symm⟩
  · cases hout

theorem snd_of_init {pool : Pool} {out : WorkerGroup × Pool} (h : initWorkerGroup ip pool = .ok out) :
    out.2 = (getPlacementGroups ip pool).2 := by
  unfold initWorkerGroup at h
  split at h
  · unfold initWithResourcePool at h
    dsimp only at h
    split at h
    · cases h
    · obtain ⟨workers, _, hout⟩ := bind_eq_ok.1 h
      rw [← Except.ok.inj hout]
  · unfold initWithSubresourcePool at h
    dsimp only at h
    split at h
    · cases h
    · split at h
      · cases h
      · obtain ⟨workers, _, hout⟩ := bind_eq_ok.1 h
        rw [← Except.ok.inj hout]

theorem init_used_of_fresh {out : WorkerGroup × Pool}
    (h : initWorkerGroup ip (fresh (List.replicate n m)).pool = .ok out) :
    out.2 = usedPool ip n m ∧ initWorkerGroup ip (usedPool ip n m) = .ok (out.1, usedPool ip n m) := by
  rcases Nat.eq_zero_or_pos n with rfl | hn
  · cases h
  · obtain ⟨group, hfresh, hused, _⟩ := init_whole ip hn m
    obtain rfl := Except.ok.inj (hfresh.symm.trans h)
    exact ⟨rfl, hused⟩

variable {s s' : Session}

theorem step_whole (h : step ip s .whole = some s') : ∃ out : WorkerGroup × Pool,
    initWorkerGroup ip s.pool = .ok out ∧ s' = { s with pool := out.2, groups := s.groups ++ [(none, out.1)] } := by
  rcases hinit : initWorkerGroup ip s.pool with _ | out
  · simp only [step, hinit] at h
    cases h
  · simp only [step, hinit] at h
    exact ⟨out, rfl, (Option.some.inj h).symm⟩

theorem step_split {splitSize : SplitSize} (h : step ip s (.split splitSize) = some s') :
    ∃ out : List Pool × Pool, splitResourcePool ip s.pool splitSize = .ok out ∧
      s' = { s with pool := out.2, splits := s.splits ++ [out.1] } := by
  rcases hsplit : splitResourcePool ip s.pool splitSize with _ | out
  · simp only [step, hsplit] at h
    cases h
  · simp only [step, hsplit] at h
    exact ⟨out, rfl, (Option.some.inj h).symm⟩

theorem step_part {k j : ℕ} (h : step ip s (.part k j) = some s') :
    ∃ pools sub, ∃ out : WorkerGroup × Pool, s.splits[k]? = some pools ∧ pools[j]? = some sub ∧
      initWorkerGroup ip sub = .ok out ∧ s' = { s with groups := s.groups ++ [(some (k, j), out.1)] } := by
  rcases hsub : (s.splits[k]?).bind fun pools => pools[j]? with _ | sub
  · simp only [step, hsub] at h
    cases h
  · rcases hinit : initWorkerGroup ip sub with _ | out
    · simp only [step, hsub, hinit] at h
      cases h
    · simp only [step, hsub, hinit] at h
      obtain ⟨pools, hpools, hj⟩ := Option.bind_eq_some_iff.1 hsub
      exact ⟨pools, sub, out, hpools, hj, hinit, (Option.some.inj h).symm⟩

theorem inv_first {first : Use} {s : Session} (h : step ip (fresh (List.replicate n m)) first = some s) :
    Inv ip n m first s := by
  cases first with
  | whole =>
    obtain ⟨out, hinit, rfl⟩ := step_whole h
    obtain ⟨hpool, hused⟩ := init_used_of_fresh hinit
    refine ⟨hpool, fun ⟨_, hsplit⟩ => (nomatch hsplit), fun k pools hk => absurd hk nofun, ?_, ?_⟩
    · intro group hgroup
      obtain rfl : group = out.1 := congrArg Prod.snd (List.mem_singleton.1 hgroup)
      exact hused
    · intro k j group hgroup
      exact absurd (congrArg Prod.fst (List.mem_singleton.1 hgroup)) nofun
  | split splitSize =>
    obtain ⟨out, hsplit, rfl⟩ := step_split h
    obtain ⟨sizes, hsum, rfl⟩ := splitResourcePool_eq_ok hsplit
    refine ⟨rfl, fun _ => Nat.one_pos, ?_, fun group hgroup => absurd hgroup List.not_mem_nil,
      fun k j group hgroup => absurd hgroup List.not_mem_nil⟩
    intro k pools hk
    cases k with
    | zero => exact ⟨sizes, hsum.trans List.sum_replicate_nat, (Option.some.inj hk).symm⟩
    | succ k => exact absurd hk nofun
  | part k j =>
    obtain ⟨pools, _, _, hpools, _⟩ := step_part h
    exact absurd hpools nofun

theorem inv_step {first use : Use} (hi : Inv ip n m first s) (h : step ip s use = some s') : Inv ip n m first s' := by
  cases use with
  | whole =>
    obtain ⟨out, hinit, rfl⟩ := step_whole h
    rw [hi.pool] at hinit
    have hpool : out.2 = usedPool ip n m := snd_of_init hinit
    refine ⟨hpool, hi.started, hi.splits, ?_, ?_⟩
    · intro group hgroup
      rcases List.mem_append.1 hgroup with hold | hnew
      · exact hi.whole group hold
      · obtain rfl : group = out.1 := congrArg Prod.snd (List.mem_singleton.1 hnew)
        rw [hinit, ← hpool]
    · intro k j group hgroup
      rcases List.mem_append.1 hgroup with hold | hnew
      · exact hi.part k j group hold
      · exact absurd (congrArg Prod.fst (List.mem_singleton.1 hnew)) nofun
  | split splitSize =>
    obtain ⟨out, hsplit, rfl⟩ := step_split h
    rw [hi.pool] at hsplit
    obtain ⟨sizes, hsum, rfl⟩ := splitResourcePool_eq_ok hsplit
    refine ⟨rfl, fun _ => by rw [List.length_append]; exact Nat.succ_pos _, ?_, hi.whole, ?_⟩
    · intro k pools hk
      by_cases hlt : k < s.splits.length
      · rw [List.getElem?_append_left hlt] at hk
        exact hi.splits k pools hk
      · -- not the first split when the run begins with one
        have hgroups : splitGroups ip n m first k =
            sortPlacementGroupByNodeIp ip (makePlacementGroups (List.replicate n m)) := by
          unfold splitGroups
          split
          · exact absurd (hi.started ⟨_, rfl⟩) hlt
          · rfl
        rw [List.getElem?_append_right (by omega)] at hk
        have hpools := List.mem_singleton.1 (List.mem_of_getElem? hk)
        rw [hgroups]
        exact ⟨sizes, hsum.trans (worldSize_used ip n m), hpools⟩
    · intro k j group hgroup
      obtain ⟨pools, sub, pool, hpools, hrest⟩ := hi.part k j group hgroup
      refine ⟨pools, sub, pool, ?_, hrest⟩
      rw [List.getElem?_append_left (List.getElem?_eq_some_iff.1 hpools).1]
      exact hpools
  | part k j =>
    obtain ⟨pools, sub, out, hpools, hsub, hinit, rfl⟩ := step_part h
    refine ⟨hi.pool, hi.started, hi.splits, ?_, ?_⟩
    · intro group hgroup
      rcases List.mem_append.1 hgroup with hold | hnew
      · exact hi.whole group hold
      · exact absurd (congrArg Prod.fst (List.mem_singleton.1 hnew)) nofun
    · intro k' j' group hgroup
      rcases List.mem_append.1 hgroup with hold | hnew
      · exact hi.part k' j' group hold
      · have hentry := List.mem_singleton.1 hnew
        obtain ⟨rfl, rfl⟩ : k' = k ∧ j' = j := Prod.mk.inj (Option.some.inj (congrArg Prod.fst hentry))
        obtain rfl : group = out.1 := congrArg Prod.snd hentry
        exact ⟨pools, sub, out.2, hpools, hsub, hinit⟩

theorem inv_of_run {first : Use} {uses : List Use} (hi : Inv ip n m first s)
    (h : System.runFn (step ip) s uses = some s') : Inv ip n m first s' := by
  induction uses generalizing s with
  | nil =>
    obtain rfl : s = s' := Option.some.inj h
    exact hi
  | cons use uses ih =>
    rw [System.runFn, Option.bind_eq_some_iff] at h
    obtain ⟨next, hnext, hrest⟩ := h
    exact ih (inv_step hi hnext) hrest

/-- **The placement of ranks**, after the pool was used in any order. Every worker group is where a new one is placed, and
a split agrees with the whole pool exactly when it was not the first use of the pool, or when the addresses were sorted. -/
theorem consistent_iff (ip : ℕ → ι) {n m : ℕ} (hm : 0 < m) {uses : List Use} {s : Session}
    (h : System.runFn (step ip) (fresh (List.replicate n m)) uses = some s) :
    (∀ group, (none, group) ∈ s.groups → ∃ pool, initWorkerGroup ip s.pool = .ok (group, pool)) ∧
      (∀ k j group, (some (k, j), group) ∈ s.groups → ∃ pools sub pool, s.splits[k]? = some pools ∧
        pools[j]? = some sub ∧ initWorkerGroup ip sub = .ok (group, pool)) ∧
      ∀ k pools, s.splits[k]? = some pools →
        (Consistent ip s.pool pools ↔
          (0 < k ∨ uses.head? = some .whole) ∨ ∀ i j, i < j → j < n → ip i ≤ ip j) := by
  cases uses with
  | nil =>
    obtain rfl : fresh (List.replicate n m) = s := Option.some.inj h
    refine ⟨fun _ hgroup => absurd hgroup List.not_mem_nil, fun _ _ _ hgroup => absurd hgroup List.not_mem_nil, ?_⟩
    intro k pools hk
    cases hk
  | cons first uses =>
    rw [System.runFn, Option.bind_eq_some_iff] at h
    obtain ⟨next, hnext, hrest⟩ := h
    have hi := inv_of_run (inv_first hnext) hrest
    refine ⟨fun group hgroup => ⟨_, hi.pool ▸ hi.whole group hgroup⟩, hi.part, fun k pools hk => ?_⟩
    obtain ⟨sizes, hsum, rfl⟩ := hi.splits k pools hk
    have hmade := ofPool_make n m
    have hsorted := ofPool_sorted ip n m
    rw [hi.pool]
    unfold splitGroups
    split
    · rw [consistent_parts_iff ip hm hmade hsum, eq_comm, sort_eq_make_iff]
      refine (or_iff_right ?_).symm
      rintro (hk | hwhole)
      · exact absurd hk (Nat.lt_irrefl 0)
      · cases hwhole
    · rename_i hfirst
      refine iff_of_true ((consistent_parts_iff ip hm hsorted hsum).2 rfl) (.inl ?_)
      cases first with
      | whole => exact .inr rfl
      | split splitSize => exact .inl (Nat.pos_of_ne_zero fun hzero => hfirst splitSize rfl hzero)
      | part k j => cases hnext

def swappedIp (idx : ℕ) : ℕ := 1 - idx

theorem consistent_after_whole : ∃ s pools,
    System.runFn (step swappedIp) (fresh [2, 2]) [.whole, .split (.each [1, 3])] = some s ∧
      s.splits[0]? = some pools ∧ Consistent swappedIp s.pool pools := by
  obtain ⟨s, hrun, pools, hpools⟩ : ∃ s, System.runFn (step swappedIp) (fresh [2, 2])
      [.whole, .split (.each [1, 3])] = some s ∧ ∃ pools, s.splits[0]? = some pools := ⟨_, rfl, _, rfl⟩
  exact ⟨s, pools, hrun, hpools, ((consistent_iff swappedIp (n := 2) Nat.two_pos hrun).2.2 0 pools hpools).2
    (.inl (.inr rfl))⟩

/-- The split as the first use: rank 0 of the whole pool and rank 0 of its first part are on different nodes. -/
theorem not_consistent_split_first : ∃ s pools,
    System.runFn (step swappedIp) (fresh [2, 2]) [.split (.each [2, 2]), .whole] = some s ∧
      s.splits[0]? = some pools ∧ ¬ Consistent swappedIp s.pool pools := by
  obtain ⟨s, hrun, pools, hpools⟩ : ∃ s, System.runFn (step swappedIp) (fresh [2, 2])
      [.split (.each [2, 2]), .whole] = some s ∧ ∃ pools, s.splits[0]? = some pools := ⟨_, rfl, _, rfl⟩
  have hs : s.pool = usedPool swappedIp 2 2 := by
    obtain rfl := Option.some.inj hrun
    rfl
  have hparts : pools = parts (List.replicate 2 2) (makePlacementGroups (List.replicate 2 2)) 0 [2, 2] := by
    obtain rfl := Option.some.inj hrun
    exact (Option.some.inj hpools).symm
  refine ⟨s, pools, hrun, hpools, fun hconsistent => ?_⟩
  rw [hs, hparts, consistent_parts_iff swappedIp Nat.two_pos (ofPool_make 2 2) rfl] at hconsistent
  exact absurd hconsistent (by decide)

end runs

end Opd.Verl.RankPlacement

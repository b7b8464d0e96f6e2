import Opd.Clight.BucketedDelivery

/-!
# The weights of a synchronisation

`send_weight_items_ipc` sends the tensors among its items, each of them cast to the sync dtype when the
sender comes to it. With shared memory it first compares the largest one, in the dtype that it will have,
with the bucket.

* `nbytes_prepared`: what is estimated is the size after the cast.
* `aligned_of_dtype`: tensors of one dtype are packed at multiples of its item size.
* `sendWeightItemsIpc_spec`: a weight does not fit, or every run delivers all weights.
-/

namespace Opd.Clight.BucketedTransfer

open Lib

/-- `is_floating_point` -/
def isFloatingPoint : DType → Bool
  | .float8E4m3fn | .float8E5m2 | .float16 | .bfloat16 | .float32 | .float64 => true
  | _ => false

/-- `value.to(dtype=...)` -/
structure Cast where
  toDtype : DType → Tensor → Tensor
  shape_toDtype : ∀ dtype t, (toDtype dtype t).shape = t.shape
  dtype_toDtype : ∀ dtype t, (toDtype dtype t).dtype = dtype

abbrev WeightItems := List (String × Option Tensor)

/-- `_iter_prepared_weight_items_for_ipc`, at one tensor. -/
def prepared (cast : Cast) (syncDtype : Option DType) (t : Tensor) : Tensor :=
  match syncDtype with
  | some dtype => if isFloatingPoint t.dtype then cast.toDtype dtype t else t
  | none => t

/-- `_iter_prepared_weight_items_for_ipc` -/
def iterPreparedWeightItemsForIpc (cast : Cast) (syncDtype : Option DType) (weights : WeightItems) : Weights :=
  weights.filterMap fun item => item.2.map fun t => (item.1, prepared cast syncDtype t)

/-- `_estimated_ipc_nbytes` -/
def estimatedIpcNbytes (syncDtype : Option DType) (t : Tensor) : ℕ :=
  let dtype := match syncDtype with
    | some dtype => if isFloatingPoint t.dtype then dtype else t.dtype
    | none => t.dtype
  t.shape.prod * dtype.itemsize

/-- The loop of `_largest_weight_item_for_ipc`: the first one of the largest. -/
def largerWeight (syncDtype : Option DType) (largest : Option (String × Tensor × ℕ)) (item : String × Option Tensor) :
    Option (String × Tensor × ℕ) :=
  match item.2, largest with
  | none, _ => largest
  | some t, none => some (item.1, t, estimatedIpcNbytes syncDtype t)
  | some t, some old =>
    if old.2.2 < estimatedIpcNbytes syncDtype t then some (item.1, t, estimatedIpcNbytes syncDtype t) else some old

/-- `_largest_weight_item_for_ipc` -/
def largestWeightItemForIpc (syncDtype : Option DType) (weights : WeightItems) : Option (String × Tensor × ℕ) :=
  weights.foldl (largerWeight syncDtype) none

/-- `send_weight_items_ipc` up to the transfer: the weights that the sender gets. -/
def sendWeightItemsIpc (cast : Cast) (cfg : Config) (syncDtype : Option DType) (weights : WeightItems) :
    Except SendError Weights :=
  match if cfg.useShm then largestWeightItemForIpc syncDtype weights else none with
  | some largest =>
    if largest.2.2 > cfg.bucketSize then
      .error (.tooLarge largest.1 largest.2.1.shape largest.2.1.dtype cfg.bucketSizeMb)
    else .ok (iterPreparedWeightItemsForIpc cast syncDtype weights)
  | none => .ok (iterPreparedWeightItemsForIpc cast syncDtype weights)

variable {cast : Cast} {cfg : Config} {ipc : Ipc} {syncDtype : Option DType} {weights : WeightItems}

/-! ## The check -/

/-- **The estimate** is the size after the cast. -/
theorem nbytes_prepared (cast : Cast) (syncDtype : Option DType) (t : Tensor) :
    (prepared cast syncDtype t).nbytes = estimatedIpcNbytes syncDtype t := by
  rw [Tensor.nbytes_eq]
  unfold prepared estimatedIpcNbytes
  cases syncDtype with
  | none => rfl
  | some dtype =>
    dsimp only
    split
    · rw [cast.shape_toDtype, cast.dtype_toDtype]
    · rfl

theorem mem_prepared {x : String × Tensor} : x ∈ iterPreparedWeightItemsForIpc cast syncDtype weights ↔
    ∃ t, (x.1, some t) ∈ weights ∧ x.2 = prepared cast syncDtype t := by
  unfold iterPreparedWeightItemsForIpc
  rw [List.mem_filterMap]
  constructor
  · rintro ⟨⟨name, value⟩, hitem, hx⟩
    obtain ⟨t, rfl, rfl⟩ := Option.map_eq_some_iff.1 hx
    exact ⟨t, hitem, rfl⟩
  · rintro ⟨t, hitem, hx⟩
    exact ⟨_, hitem, congrArg some (Prod.ext rfl hx.symm)⟩

def largestBytes (largest : Option (String × Tensor × ℕ)) : ℕ := (largest.map fun weight => weight.2.2).getD 0

theorem largestBytes_largerWeight (largest : Option (String × Tensor × ℕ)) (name : String) (t : Tensor) :
    largestBytes (largerWeight syncDtype largest (name, some t)) =
      max (largestBytes largest) (estimatedIpcNbytes syncDtype t) := by
  cases largest with
  | none => exact (Nat.zero_max _).symm
  | some old =>
    simp only [largerWeight]
    split
    · rename_i hlt
      exact (Nat.max_eq_right (Nat.le_of_lt hlt)).symm
    · rename_i hle
      exact (Nat.max_eq_left (Nat.le_of_not_lt hle)).symm

/-- **The loop** finds a weight that no other exceeds. -/
theorem largestBytes_le_iff {n : ℕ} (largest : Option (String × Tensor × ℕ)) :
    largestBytes (weights.foldl (largerWeight syncDtype) largest) ≤ n ↔
      largestBytes largest ≤ n ∧ ∀ name t, (name, some t) ∈ weights → estimatedIpcNbytes syncDtype t ≤ n := by
  induction weights generalizing largest with
  | nil => simp
  | cons item weights ih =>
    obtain ⟨name, value⟩ := item
    rw [List.foldl_cons, ih]
    cases value with
    | none => simp [largerWeight]
    | some t =>
      rw [largestBytes_largerWeight, Nat.max_le]
      simp only [List.mem_cons, Prod.mk.injEq, Option.some.injEq]
      constructor
      · rintro ⟨⟨hlargest, ht⟩, hrest⟩
        refine ⟨hlargest, fun name' t' hmem => ?_⟩
        rcases hmem with ⟨-, rfl⟩ | hmem
        · exact ht
        · exact hrest name' t' hmem
      · rintro ⟨hlargest, hall⟩
        exact ⟨⟨hlargest, hall name t (.inl ⟨rfl, rfl⟩)⟩, fun name' t' hmem => hall name' t' (.inr hmem)⟩

/-- **The check** passes exactly when, with shared memory, every weight fits after its cast. -/
theorem sendWeightItemsIpc_cases :
    (sendWeightItemsIpc cast cfg syncDtype weights = .ok (iterPreparedWeightItemsForIpc cast syncDtype weights) ∧
        (cfg.useShm = true → ∀ x ∈ iterPreparedWeightItemsForIpc cast syncDtype weights,
          x.2.nbytes ≤ cfg.bucketSize)) ∨
      (∃ error, sendWeightItemsIpc cast cfg syncDtype weights = .error error) ∧ cfg.useShm = true ∧
        ∃ x ∈ iterPreparedWeightItemsForIpc cast syncDtype weights, cfg.bucketSize < x.2.nbytes := by
  have hle : largestBytes (largestWeightItemForIpc syncDtype weights) ≤ cfg.bucketSize ↔
      ∀ x ∈ iterPreparedWeightItemsForIpc cast syncDtype weights, x.2.nbytes ≤ cfg.bucketSize := by
    refine (largestBytes_le_iff none).trans ⟨fun h x hx => ?_, fun h => ⟨Nat.zero_le _, fun name t hitem => ?_⟩⟩
    · obtain ⟨t, hitem, hx⟩ := mem_prepared.1 hx
      rw [hx, nbytes_prepared]
      exact h.2 x.1 t hitem
    · rw [← nbytes_prepared cast]
      exact h (name, _) (mem_prepared.2 ⟨t, hitem, rfl⟩)
  unfold sendWeightItemsIpc
  cases hshm : cfg.useShm with
  | false => exact .inl ⟨rfl, nofun⟩
  | true =>
    rw [if_pos rfl]
    rcases hlargest : largestWeightItemForIpc syncDtype weights with _ | largest <;> rw [hlargest] at hle
    · exact .inl ⟨rfl, fun _ => hle.1 (Nat.zero_le _)⟩
    · by_cases hfit : largest.2.2 ≤ cfg.bucketSize
      · exact .inl ⟨if_neg (Nat.not_lt.2 hfit), fun _ => hle.1 hfit⟩
      · refine .inr ⟨⟨_, if_pos (Nat.lt_of_not_le hfit)⟩, rfl, ?_⟩
        simpa using mt hle.2 hfit

/-! ## The transfer -/

/-- **Tensors of one dtype** start at multiples of its item size. -/
theorem aligned_of_dtype {items : Weights} {dtype : DType} (h : ∀ x ∈ items, x.2.dtype = dtype) {offset : ℕ}
    (hoffset : dtype.itemsize ∣ offset) (filled : Bool) : Aligned cfg.bucketSize offset filled items := by
  induction items generalizing offset filled with
  | nil => trivial
  | cons x items ih =>
    obtain ⟨name, weight⟩ := x
    have hdtype : weight.dtype = dtype := h _ List.mem_cons_self
    have hrest := fun offset hoffset filled => @ih (fun y hy => h y (List.mem_cons_of_mem _ hy)) offset hoffset filled
    have hbytes : dtype.itemsize ∣ weight.nbytes := by
      rw [Tensor.nbytes_eq, hdtype]
      exact Nat.dvd_mul_left _ _
    have hstart : dtype.itemsize ∣ if filled ∧ offset + weight.nbytes > cfg.bucketSize then 0 else offset := by
      split
      · exact Nat.dvd_zero _
      · exact hoffset
    rw [aligned_cons]
    generalize (if filled ∧ offset + weight.nbytes > cfg.bucketSize then 0 else offset) = start at hstart
    unfold AlignedAt
    split
    · exact hrest _ hstart false
    · rw [hdtype]
      exact ⟨Nat.mod_eq_zero_of_dvd hstart, hrest _ (Nat.dvd_add hstart hbytes) true⟩

theorem nodup_prepared (h : (weights.map Prod.fst).Nodup) :
    ((iterPreparedWeightItemsForIpc cast syncDtype weights).map Prod.fst).Nodup := by
  refine h.sublist ?_
  unfold iterPreparedWeightItemsForIpc
  clear h
  induction weights with
  | nil => exact .slnil
  | cons item weights ih =>
    obtain ⟨name, value⟩ := item
    cases value with
    | none => exact ih.cons _
    | some t => exact ih.cons_cons _

/-- The weights of the receiver: the tensors among the items, in the sync dtype. -/
def syncedWeights (cast : Cast) (dtype : DType) (weights : WeightItems) : Weights :=
  weights.filterMap fun item => item.2.map fun t => (item.1, cast.toDtype dtype t)

theorem iterPrepared_of_floating {dtype : DType}
    (h : ∀ name t, (name, some t) ∈ weights → isFloatingPoint t.dtype = true) :
    iterPreparedWeightItemsForIpc cast (some dtype) weights = syncedWeights cast dtype weights := by
  refine List.filterMap_congr fun item hitem => ?_
  obtain ⟨name, value⟩ := item
  cases value with
  | none => rfl
  | some t => exact congrArg (fun t => some (name, t)) (if_pos (h name t hitem))

/-- **A synchronisation of floating-point weights.** With a sync dtype every run of the sender and the receiver
delivers all tensors in that dtype, unless one of them does not fit into the shared memory: then nothing is sent. -/
theorem sendWeightItemsIpc_spec (cast : Cast) (ipc : Ipc) (cfg : Config) (dtype : DType) (weights : WeightItems)
    (hnames : (weights.map Prod.fst).Nodup) (hbucket : 0 < cfg.bucketSizeMb)
    (hfloating : ∀ name t, (name, some t) ∈ weights → isFloatingPoint t.dtype = true) :
    (sendWeightItemsIpc cast cfg (some dtype) weights = .ok (syncedWeights cast dtype weights) ∧
        Delivers cfg ipc (syncedWeights cast dtype weights)) ∨
      (∃ error, sendWeightItemsIpc cast cfg (some dtype) weights = .error error) ∧ cfg.useShm = true ∧
        ∃ x ∈ syncedWeights cast dtype weights, cfg.bucketSize < x.2.nbytes := by
  have hcases := @sendWeightItemsIpc_cases cast cfg (some dtype) weights
  have hitems := @nodup_prepared cast (some dtype) weights hnames
  rw [iterPrepared_of_floating hfloating] at hcases hitems
  refine hcases.imp_left fun ⟨hok, hfit⟩ => ⟨hok, delivers_of_aligned hitems hfit ?_ ?_⟩
  · refine aligned_of_dtype (fun x hx => ?_) (Nat.dvd_zero dtype.itemsize) false
    obtain ⟨item, -, hx⟩ := List.mem_filterMap.1 hx
    obtain ⟨t, -, rfl⟩ := Option.map_eq_some_iff.1 hx
    exact cast.dtype_toDtype dtype t
  · rintro ⟨-, hzero⟩
    exact Nat.ne_of_gt hbucket (Nat.shiftLeft_eq_zero_iff.1 hzero)

/-- A cast that changes nothing where the dtype is the one of the tensor. -/
def exampleCast : Cast where
  toDtype dtype t := if t.dtype = dtype then t else Tensor.empty (fun _ => 0) t.shape dtype
  shape_toDtype _ _ := (apply_ite Tensor.shape _ _ _).trans (ite_self _)
  dtype_toDtype dtype t := by
    split
    · assumption
    · rfl

/-- One `float32`, and an item that is no tensor. -/
def exampleItems : WeightItems := [("a", some exampleFloat), ("b", none)]

theorem sendWeightItemsIpc_exampleItems :
    (sendWeightItemsIpc exampleCast ⟨1, true⟩ (some .float32) exampleItems =
        .ok (syncedWeights exampleCast .float32 exampleItems) ∧
        Delivers ⟨1, true⟩ exampleIpc (syncedWeights exampleCast .float32 exampleItems)) ∨
      (∃ error, sendWeightItemsIpc exampleCast ⟨1, true⟩ (some .float32) exampleItems = .error error) ∧ true = true ∧
        ∃ x ∈ syncedWeights exampleCast .float32 exampleItems, Config.bucketSize ⟨1, true⟩ < x.2.nbytes :=
  sendWeightItemsIpc_spec exampleCast exampleIpc ⟨1, true⟩ .float32 _ (by decide) Nat.one_pos fun name t hitem => by
    simp [exampleItems] at hitem
    rw [hitem.2]
    rfl

end Opd.Clight.BucketedTransfer

import Mathlib.Algebra.BigOperators.Group.List.Basic
import Mathlib.Algebra.GroupWithZero.Nat
import Opd.Lib.Dict
import Opd.Lib.Tensor

/-!
# Folding the batch dimension

`fold_batch_dim` gives tensors and arrays a second batch dimension, and `unfold_batch_dim` takes it away. Both make a
new batch, but the first writes the folded arrays into the dictionary of its argument, and the second sets the batch
size of the tensors of its argument. A call is its result together with its argument afterwards.

* `unfold_fold`: the rows come back.
* `assignItems_ne`, `autoBatchSize_ne`: what the calls change.
* `foldsBack_iff`: no batch with tensors or arrays is left as it was.
-/

namespace Opd.Verl.FoldBatch

open Lib

/-! ## Tensors and arrays -/

/-- A tensor or an array: its shape, and its elements row by row. -/
@[ext]
structure Arr (α : Type) where
  shape : List ℕ
  data : List α
  length_data : data.length = shape.prod

inductive FoldError
  | attributeError
  | indexError
  | zeroDivisionError
  | assertionError (message : String)
  | runtimeError (message : String)
  | valueError (message : String)

variable {α ν μ : Type}

/-- The same elements in another shape. -/
def Arr.reshape (a : Arr α) (shape : List ℕ) : Except FoldError (Arr α) :=
  if h : a.data.length = shape.prod then .ok ⟨shape, a.data, h⟩
  else .error (.valueError "cannot reshape array into shape")

/-- `np.reshape(a, (*front, -1, *rest))` -/
def Arr.reshapeInfer (a : Arr α) (front rest : List ℕ) : Except FoldError (Arr α) :=
  let known := front.prod * rest.prod
  if known = 0 ∨ a.data.length % known ≠ 0 then .error (.valueError "cannot reshape array into shape")
  else a.reshape (front ++ [a.data.length / known] ++ rest)

/-- `TensorDict`: the batch dimensions are the first ones of every tensor. -/
structure TensorDict (α : Type) where
  batchSize : List ℕ
  items : Dict String (Arr α)

namespace TensorDict

/-- `view` with another batch shape. -/
def view (td : TensorDict α) (shape : List ℕ) : Except FoldError (TensorDict α) := do
  let items ← td.items.mapM fun a => a.reshape (shape ++ a.shape.drop td.batchSize.length)
  return ⟨shape, items⟩

/-- `view(*front, -1)`; the number of elements of a batch is at least 1. -/
def viewInfer (td : TensorDict α) (front : List ℕ) : Except FoldError (TensorDict α) :=
  let numel := max 1 td.batchSize.prod
  if front.prod = 0 ∨ numel % front.prod ≠ 0 then .error (.runtimeError "shape is invalid")
  else td.view (front ++ [numel / front.prod])

/-- The first dimensions that shapes have in common, so many at most. -/
def commonDims : ℕ → List ℕ → List (List ℕ) → List ℕ
  | 0, _, _ | _, [], _ => []
  | k + 1, dim :: first, others =>
    if others.all fun shape => shape.head? = some dim then dim :: commonDims k first (others.map List.tail) else []

/-- `auto_batch_size_(batch_dims)`: the largest batch size of the tensors. -/
def autoBatchSize (batchDims : ℕ) (td : TensorDict α) : TensorDict α where
  batchSize :=
    match td.items.items.map fun item => item.2.shape with
    | [] => td.batchSize.take batchDims
    | first :: others => commonDims batchDims first others
  items := td.items

end TensorDict

/-! ## Batches -/

/-- `DataProto` -/
structure Proto (α ν μ : Type) where
  batch : Option (TensorDict α)
  nonTensorBatch : Dict String (Arr ν)
  metaInfo : μ

/-- `check_consistency`, made by every construction. -/
def Proto.new (batch : Option (TensorDict α)) (nonTensorBatch : Dict String (Arr ν)) (metaInfo : μ) :
    Except FoldError (Proto α ν μ) :=
  match batch with
  | none => .ok ⟨none, nonTensorBatch, metaInfo⟩
  | some td =>
    if td.batchSize.length ≠ 1 then .error (.assertionError "only support num_batch_dims=1")
    else if nonTensorBatch.items.any fun item => item.2.shape.head? ≠ td.batchSize.head? then
      .error (.assertionError "length is not equal to batch size")
    else .ok ⟨some td, nonTensorBatch, metaInfo⟩

/-- The loop over a dictionary that assigns to its keys: what it raises, and the entries afterwards. -/
def assignItems (f : Arr ν → Except FoldError (Arr ν)) :
    List (String × Arr ν) → Option FoldError × List (String × Arr ν)
  | [] => (none, [])
  | item :: items =>
    match f item.2 with
    | .error e => (some e, item :: items)
    | .ok v => ((assignItems f items).1, (item.1, v) :: (assignItems f items).2)

theorem fst_assignItems (f : Arr ν → Except FoldError (Arr ν)) (items : List (String × Arr ν)) :
    (assignItems f items).2.map Prod.fst = items.map Prod.fst := by
  induction items with
  | nil => rfl
  | cons item items ih =>
    unfold assignItems
    cases f item.2 with
    | error e => rfl
    | ok v => rw [List.map_cons, List.map_cons, ih]

def assigned (f : Arr ν → Except FoldError (Arr ν)) (d : Dict String (Arr ν)) : Dict String (Arr ν) :=
  ⟨(assignItems f d.items).2, (fst_assignItems f d.items).symm ▸ d.nodup⟩

def foldTensors (data : Proto α ν μ) (newBatchSize : ℕ) : Except FoldError (TensorDict α) :=
  match data.batch with
  | none => .error .attributeError
  | some td =>
    match td.batchSize with
    | [] => .error .indexError
    | batchSize :: _ =>
      if newBatchSize = 0 then .error .zeroDivisionError
      else if batchSize % newBatchSize ≠ 0 then .error (.assertionError "")
      else (td.viewInfer [newBatchSize]).map (TensorDict.autoBatchSize 1)

/-- `fold_batch_dim` -/
def foldBatchDim (data : Proto α ν μ) (newBatchSize : ℕ) : Except FoldError (Proto α ν μ) × Proto α ν μ :=
  match foldTensors data newBatchSize with
  | .error e => (.error e, data)
  | .ok tensor =>
    let f := fun val : Arr ν => val.reshapeInfer [newBatchSize] val.shape.tail
    let nonTensor := assigned f data.nonTensorBatch
    match (assignItems f data.nonTensorBatch.items).1 with
    | some e => (.error e, { data with nonTensorBatch := nonTensor })
    | none => (Proto.new (some tensor) nonTensor data.metaInfo, { data with nonTensorBatch := nonTensor })

def unfoldWith (tensor : TensorDict α) (data : Proto α ν μ) (batchDims : ℕ) : Except FoldError (Proto α ν μ) := do
  let tensor ← tensor.viewInfer []
  match tensor.batchSize with
  | [] => .error .indexError
  | batchSize :: _ =>
    let nonTensorNew ← data.nonTensorBatch.mapM fun val => val.reshape (batchSize :: val.shape.drop batchDims)
    Proto.new (some tensor) nonTensorNew data.metaInfo

/-- `unfold_batch_dim` -/
def unfoldBatchDim (data : Proto α ν μ) (batchDims : ℕ) : Except FoldError (Proto α ν μ) × Proto α ν μ :=
  match data.batch with
  | none => (.error .attributeError, data)
  | some td =>
    (unfoldWith (td.autoBatchSize batchDims) data batchDims, { data with batch := some (td.autoBatchSize batchDims) })

/-- A batch folds back: unfolding the folded batch gives it, and neither call changes its argument. -/
def FoldsBack (d : Proto α ν μ) (newBatchSize : ℕ) : Prop :=
  ∃ folded, foldBatchDim d newBatchSize = (.ok folded, d) ∧ unfoldBatchDim folded 2 = (.ok d, folded)

/-! ## Reshaping -/

theorem Arr.reshape_eq_ok {a b : Arr α} {shape : List ℕ} :
    a.reshape shape = .ok b ↔ b.shape = shape ∧ b.data = a.data := by
  unfold reshape
  by_cases hshape : a.data.length = shape.prod
  · rw [dif_pos hshape]
    constructor
    · intro h
      cases h
      exact ⟨rfl, rfl⟩
    · rintro ⟨hb, hdata⟩
      exact congrArg Except.ok (Arr.ext hb.symm hdata.symm)
  · rw [dif_neg hshape]
    constructor
    · intro h
      cases h
    · rintro ⟨rfl, hdata⟩
      exact absurd (hdata ▸ b.length_data) hshape

theorem Arr.exists_reshape {a : Arr α} {shape : List ℕ} (h : a.shape.prod = shape.prod) :
    ∃ b, a.reshape shape = .ok b ∧ b.shape = shape ∧ b.data = a.data := by
  have hlen : a.data.length = shape.prod := a.length_data.trans h
  exact ⟨⟨shape, a.data, hlen⟩, dif_pos hlen, rfl, rfl⟩

theorem Arr.shape_of_reshapeInfer {a b : Arr α} {front rest : List ℕ} (h : a.reshapeInfer front rest = .ok b) :
    ∃ size, b.shape = front ++ [size] ++ rest := by
  unfold reshapeInfer at h
  simp only at h
  split at h
  · cases h
  · exact ⟨_, (Arr.reshape_eq_ok.1 h).1⟩

theorem Arr.reshapeInfer_eq {a : Arr α} {k q : ℕ} {rest : List ℕ} (h : a.shape = k * q :: rest) (hk : 0 < k)
    (hrest : 0 < rest.prod) : a.reshapeInfer [k] rest = a.reshape (k :: q :: rest) := by
  have hlen : a.data.length = k * rest.prod * q := by
    rw [a.length_data, h, List.prod_cons]
    exact Nat.mul_right_comm k q rest.prod
  have hknown : 0 < k * rest.prod := Nat.mul_pos hk hrest
  unfold reshapeInfer
  simp only [List.prod_singleton]
  rw [if_neg, hlen, Nat.mul_div_cancel_left q hknown]
  · rfl
  · rw [hlen, Nat.mul_mod_right]
    omega

/-! ## Views -/

namespace TensorDict

theorem view_eq_ok {td out : TensorDict α} {shape : List ℕ} : td.view shape = .ok out ↔ out.batchSize = shape ∧
    td.items.mapM (fun a => a.reshape (shape ++ a.shape.drop td.batchSize.length)) = .ok out.items := by
  unfold view
  rw [bind_eq_ok]
  constructor
  · rintro ⟨items, hitems, hout⟩
    cases hout
    exact ⟨rfl, hitems⟩
  · rintro ⟨hsize, hitems⟩
    refine ⟨out.items, hitems, ?_⟩
    cases out
    cases hsize
    rfl

theorem shape_of_view {td out : TensorDict α} {shape : List ℕ} (h : td.view shape = .ok out) :
    ∀ item ∈ out.items.items, ∃ rest, item.2.shape = shape ++ rest := by
  intro item hitem
  have hall := Dict.mapM_eq_ok_iff.1 (view_eq_ok.1 h).2
  obtain ⟨i, hi, rfl⟩ := List.getElem_of_mem hitem
  have hback := (hall.get (hall.length_eq ▸ hi) hi).1
  exact ⟨_, (Arr.reshape_eq_ok.1 hback).1⟩

theorem isEmpty_of_view {td out : TensorDict α} {shape : List ℕ} (h : td.view shape = .ok out) :
    out.items.items = [] ↔ td.items.items = [] := by
  have hlen := (Dict.mapM_eq_ok_iff.1 (view_eq_ok.1 h).2).length_eq
  rw [← List.length_eq_zero_iff, ← List.length_eq_zero_iff, hlen]

variable {td : TensorDict α}

theorem view_empty {shape : List ℕ} (h : td.items.items = []) : td.view shape = .ok ⟨shape, td.items⟩ := by
  refine view_eq_ok.2 ⟨rfl, Dict.mapM_eq_ok_iff.2 ?_⟩
  rw [h]
  exact .nil

theorem viewInfer_eq {front : List ℕ} {q : ℕ} (hfront : 0 < front.prod) (hsize : td.batchSize.prod = front.prod * q)
    (hq : 0 < q) : td.viewInfer front = td.view (front ++ [q]) := by
  have hnumel : max 1 td.batchSize.prod = front.prod * q := by
    rw [hsize]
    exact max_eq_right (Nat.mul_pos hfront hq)
  unfold viewInfer
  simp only [hnumel]
  rw [if_neg, Nat.mul_div_cancel_left q hfront]
  rw [Nat.mul_mod_right]
  omega

theorem commonDims_append (front rest : List ℕ) {others : List (List ℕ)}
    (h : ∀ shape ∈ others, ∃ rest, shape = front ++ rest) :
    commonDims front.length (front ++ rest) others = front := by
  induction front generalizing others with
  | nil => rfl
  | cons dim front ih =>
    have hhead : (others.all fun shape => shape.head? = some dim) = true := by
      rw [List.all_eq_true]
      intro shape hshape
      obtain ⟨rest, rfl⟩ := h shape hshape
      exact decide_eq_true rfl
    have htail : ∀ shape ∈ others.map List.tail, ∃ rest, shape = front ++ rest := by
      intro shape hshape
      obtain ⟨shape, hmem, rfl⟩ := List.mem_map.1 hshape
      obtain ⟨rest, rfl⟩ := h shape hmem
      exact ⟨rest, rfl⟩
    show commonDims (front.length + 1) (dim :: (front ++ rest)) others = dim :: front
    rw [commonDims, if_pos hhead, ih htail]

/-- **The largest batch size** is what leads the shape of every tensor. -/
theorem autoBatchSize_eq {front : List ℕ} (hne : td.items.items ≠ [])
    (h : ∀ item ∈ td.items.items, ∃ rest, item.2.shape = front ++ rest) :
    (td.autoBatchSize front.length).batchSize = front := by
  unfold autoBatchSize
  simp only
  cases hitems : td.items.items with
  | nil => exact absurd hitems hne
  | cons first others =>
    rw [hitems] at h
    obtain ⟨rest, hrest⟩ := h first List.mem_cons_self
    simp only [List.map_cons]
    rw [hrest]
    refine commonDims_append front rest ?_
    intro shape hshape
    obtain ⟨item, hitem, rfl⟩ := List.mem_map.1 hshape
    exact h item (List.mem_cons_of_mem _ hitem)

theorem autoBatchSize_empty {batchDims : ℕ} (h : td.items.items = []) :
    (td.autoBatchSize batchDims).batchSize = td.batchSize.take batchDims := by
  unfold autoBatchSize
  simp only [h, List.map_nil]

/-- **The batch size changes** where the tensors share more dimensions than it has. -/
theorem autoBatchSize_ne {front : List ℕ} (hne : td.items.items ≠ [])
    (h : ∀ item ∈ td.items.items, ∃ rest, item.2.shape = front ++ rest) (hlen : td.batchSize.length < front.length) :
    td.autoBatchSize front.length ≠ td := by
  intro heq
  have hsize := autoBatchSize_eq hne h
  rw [heq] at hsize
  rw [hsize] at hlen
  exact absurd hlen (lt_irrefl _)

end TensorDict

/-! ## The loop over the arrays -/

variable {f : Arr ν → Except FoldError (Arr ν)}

theorem assignItems_eq {items out : List (String × Arr ν)} :
    assignItems f items = (none, out) ↔
      List.Forall₂ (fun item pair => f item.2 = .ok pair.2 ∧ pair.1 = item.1) items out := by
  induction items generalizing out with
  | nil =>
    rw [List.forall₂_nil_left_iff]
    exact ⟨fun h => (congrArg Prod.snd h).symm, fun h => congrArg (Prod.mk none) h.symm⟩
  | cons item items ih =>
    rw [List.forall₂_cons_left_iff]
    unfold assignItems
    cases hf : f item.2 with
    | error e =>
      constructor
      · intro h
        cases congrArg Prod.fst h
      · rintro ⟨pair, rest, ⟨hpair, -⟩, -⟩
        cases hpair
    | ok v =>
      constructor
      · intro h
        have hloop : ((assignItems f items).1, (item.1, v) :: (assignItems f items).2) = (none, out) := h
        obtain ⟨hnone, hout⟩ := Prod.ext_iff.1 hloop
        have hrest : assignItems f items = (none, (assignItems f items).2) := Prod.ext hnone rfl
        exact ⟨(item.1, v), _, ⟨rfl, rfl⟩, ih.1 hrest, hout.symm⟩
      · rintro ⟨pair, rest, ⟨hpair, hkey⟩, hall, rfl⟩
        obtain rfl : v = pair.2 := Except.ok.inj hpair
        show ((assignItems f items).1, (item.1, pair.2) :: (assignItems f items).2) = (none, pair :: rest)
        rw [ih.2 hall, ← hkey]

/-- **A loop that assigns to every key** leaves what a comprehension gives. -/
theorem assigned_iff {d out : Dict String (Arr ν)} :
    (assignItems f d.items).1 = none ∧ assigned f d = out ↔ d.mapM f = .ok out := by
  rw [Dict.mapM_eq_ok_iff, ← assignItems_eq]
  constructor
  · rintro ⟨hnone, rfl⟩
    exact Prod.ext hnone rfl
  · intro h
    exact ⟨congrArg Prod.fst h, Dict.ext_items (congrArg Prod.snd h)⟩

/-- **Arrays change** where the loop gives each of them another value. -/
theorem assignItems_ne (hf : ∀ v, f v ≠ .ok v) {d : Dict String (Arr ν)} (hne : d.items ≠ [])
    (h : (assignItems f d.items).1 = none) : assigned f d ≠ d := by
  intro heq
  have hall := Dict.mapM_eq_ok_iff.1 (assigned_iff.1 ⟨h, heq⟩)
  obtain ⟨item, rest, hitems⟩ := List.exists_cons_of_ne_nil hne
  rw [hitems, List.forall₂_cons] at hall
  exact hf item.2 hall.1.1

/-! ## Folding and unfolding -/

variable {td : TensorDict α} {d : Proto α ν μ}

theorem Proto.new_eq_ok {arrays : Dict String (Arr ν)} {info : μ} :
    Proto.new (some td) arrays info = .ok d ↔ td.batchSize.length = 1 ∧
      (∀ item ∈ arrays.items, item.2.shape.head? = td.batchSize.head?) ∧ d = ⟨some td, arrays, info⟩ := by
  unfold Proto.new
  simp only
  by_cases hlen : td.batchSize.length = 1
  · rw [if_neg (not_not.2 hlen)]
    by_cases hheads : ∀ item ∈ arrays.items, item.2.shape.head? = td.batchSize.head?
    · rw [if_neg]
      · constructor
        · intro h
          cases h
          exact ⟨hlen, hheads, rfl⟩
        · rintro ⟨-, -, rfl⟩
          rfl
      · rw [List.any_eq_true]
        rintro ⟨item, hitem, hne⟩
        exact of_decide_eq_true hne (hheads item hitem)
    · rw [if_pos]
      · constructor
        · intro h
          cases h
        · rintro ⟨-, hall, -⟩
          exact absurd hall hheads
      · push Not at hheads
        obtain ⟨item, hitem, hne⟩ := hheads
        exact List.any_eq_true.2 ⟨item, hitem, decide_eq_true hne⟩
  · rw [if_pos hlen]
    constructor
    · intro h
      cases h
    · rintro ⟨hone, -, -⟩
      exact absurd hone hlen

theorem foldTensors_eq_ok {k : ℕ} {tensor : TensorDict α} (h : foldTensors d k = .ok tensor) :
    0 < k ∧ ∃ td view q, d.batch = some td ∧ td.view [k, q] = .ok view ∧ tensor = view.autoBatchSize 1 := by
  unfold foldTensors at h
  split at h
  · cases h
  · rename_i td hbatch
    split at h
    · cases h
    · by_cases hk : k = 0
      · rw [if_pos hk] at h
        cases h
      · rw [if_neg hk] at h
        split at h
        · cases h
        · unfold TensorDict.viewInfer at h
          simp only at h
          split at h
          · cases h
          · rw [List.singleton_append] at h
            cases hview : td.view [k, max 1 td.batchSize.prod / [k].prod] with
            | error e =>
              rw [hview] at h
              cases h
            | ok view =>
              rw [hview] at h
              cases h
              exact ⟨Nat.pos_of_ne_zero hk, td, view, _, hbatch, hview, rfl⟩

theorem foldTensors_of {td view : TensorDict α} {k q : ℕ} (hbatch : d.batch = some td)
    (hsize : td.batchSize = [k * q]) (hk : 0 < k) (hq : 0 < q) (hview : td.view [k, q] = .ok view) :
    foldTensors d k = .ok (view.autoBatchSize 1) := by
  have hinfer : td.viewInfer [k] = td.view [k, q] := by
    refine TensorDict.viewInfer_eq ?_ ?_ hq
    · rw [List.prod_singleton]
      exact hk
    · rw [hsize, List.prod_singleton, List.prod_singleton]
  unfold foldTensors
  rw [hbatch]
  simp only
  rw [hsize]
  simp only
  rw [if_neg hk.ne', if_neg (not_not.2 (Nat.mul_mod_right k q)), hinfer, hview]
  rfl

/-- **A folded batch**: its tensors and its arrays, which the argument has as well. -/
theorem foldBatchDim_eq_ok {d d' folded : Proto α ν μ} {k : ℕ} : foldBatchDim d k = (.ok folded, d') ↔
    ∃ tensor arrays, foldTensors d k = .ok tensor ∧
      d.nonTensorBatch.mapM (fun val => val.reshapeInfer [k] val.shape.tail) = .ok arrays ∧
      Proto.new (some tensor) arrays d.metaInfo = .ok folded ∧ d' = { d with nonTensorBatch := arrays } := by
  unfold foldBatchDim
  constructor
  · intro h
    split at h
    · cases congrArg Prod.fst h
    · rename_i tensor htensor
      simp only at h
      split at h
      · cases congrArg Prod.fst h
      · rename_i hnone
        obtain ⟨hfolded, hd⟩ := Prod.ext_iff.1 h
        exact ⟨tensor, _, htensor, assigned_iff.1 ⟨hnone, rfl⟩, hfolded, hd.symm⟩
  · rintro ⟨tensor, arrays, htensor, harrays, hfolded, rfl⟩
    obtain ⟨hnone, rfl⟩ := assigned_iff.2 harrays
    rw [htensor]
    simp only
    rw [hnone]
    exact congrArg (fun out => (out, _)) hfolded

theorem unfoldWith_eq_ok {tensor : TensorDict α} {data d : Proto α ν μ} {batchDims : ℕ} :
    unfoldWith tensor data batchDims = .ok d ↔ ∃ out n rest arrays, tensor.viewInfer [] = .ok out ∧
      out.batchSize = n :: rest ∧
      data.nonTensorBatch.mapM (fun val => val.reshape (n :: val.shape.drop batchDims)) = .ok arrays ∧
      Proto.new (some out) arrays data.metaInfo = .ok d := by
  unfold unfoldWith
  rw [bind_eq_ok]
  constructor
  · rintro ⟨out, hout, h⟩
    split at h
    · cases h
    · rename_i n rest hsize
      obtain ⟨arrays, harrays, hd⟩ := bind_eq_ok.1 h
      exact ⟨out, n, rest, arrays, hout, hsize, harrays, hd⟩
  · rintro ⟨out, n, rest, arrays, hout, hsize, harrays, hd⟩
    refine ⟨out, hout, ?_⟩
    rw [hsize]
    exact bind_eq_ok.2 ⟨arrays, harrays, hd⟩

theorem Arr.split_first {a : Arr α} {k q : ℕ} {rest : List ℕ} (h : a.shape = k * q :: rest) :
    ∃ b, a.reshape (k :: q :: rest) = .ok b ∧ b.shape = k :: q :: rest ∧ b.reshape (k * q :: rest) = .ok a := by
  obtain ⟨b, hb, hshape, hdata⟩ := @Arr.exists_reshape α a (k :: q :: rest) (by
    rw [h, List.prod_cons, List.prod_cons, List.prod_cons, Nat.mul_assoc])
  exact ⟨b, hb, hshape, Arr.reshape_eq_ok.2 ⟨h, hdata.symm⟩⟩

theorem exists_tail {shape : List ℕ} {n : ℕ} (h : shape.head? = some n) : ∃ rest, shape = n :: rest := by
  cases shape with
  | nil => cases h
  | cons dim rest =>
    obtain rfl := Option.some.inj h
    exact ⟨rest, rfl⟩

theorem TensorDict.view_back {k q : ℕ} (hsize : td.batchSize = [k * q]) (hne : td.items.items ≠ [])
    (h : ∀ item ∈ td.items.items, item.2.shape.head? = some (k * q)) :
    ∃ view : TensorDict α, td.view [k, q] = .ok view ∧ view.items.items ≠ [] ∧
      (∀ item ∈ view.items.items, ∃ rest, item.2.shape = [k, q] ++ rest) ∧
      (⟨[k, q], view.items⟩ : TensorDict α).view [k * q] = .ok td := by
  have hback := Dict.mapM_back (d := td.items) (P := fun a : Arr α => ∃ rest, a.shape = [k, q] ++ rest)
    (f := fun a => a.reshape ([k, q] ++ a.shape.drop td.batchSize.length))
    (g := fun a => a.reshape ([k * q] ++ a.shape.drop 2)) (by
      intro item hitem
      obtain ⟨rest, hrest⟩ := exists_tail (h item hitem)
      obtain ⟨b, hb, hshape, ha⟩ := Arr.split_first hrest
      refine ⟨b, ?_, ⟨rest, hshape⟩, ?_⟩
      · rw [hsize, hrest]
        exact hb
      · rw [hshape]
        exact ha)
  obtain ⟨items, hitems, hlead, htaken⟩ := hback
  refine ⟨⟨[k, q], items⟩, TensorDict.view_eq_ok.2 ⟨rfl, hitems⟩, ?_, hlead,
    TensorDict.view_eq_ok.2 ⟨hsize, htaken⟩⟩
  intro hnil
  refine hne (List.length_eq_zero_iff.1 ?_)
  rw [(Dict.mapM_eq_ok_iff.1 hitems).length_eq, hnil]
  rfl

theorem arrays_back {d : Dict String (Arr ν)} {k q : ℕ} (hk : 0 < k)
    (h : ∀ item ∈ d.items, item.2.shape.head? = some (k * q) ∧ 0 < item.2.shape.tail.prod) :
    ∃ arrays : Dict String (Arr ν), d.mapM (fun val => val.reshapeInfer [k] val.shape.tail) = .ok arrays ∧
      (∀ item ∈ arrays.items, item.2.shape.head? = some k) ∧
      arrays.mapM (fun val => val.reshape (k * q :: val.shape.drop 2)) = .ok d := by
  refine Dict.mapM_back (P := fun a : Arr ν => a.shape.head? = some k) ?_
  intro item hitem
  obtain ⟨hhead, hpos⟩ := h item hitem
  obtain ⟨rest, hrest⟩ := exists_tail hhead
  obtain ⟨b, hb, hshape, ha⟩ := Arr.split_first hrest
  rw [hrest, List.tail_cons] at hpos
  refine ⟨b, ?_, ?_, ?_⟩
  · rw [hrest, List.tail_cons, Arr.reshapeInfer_eq hrest hk hpos]
    exact hb
  · rw [hshape, List.head?_cons]
  · rw [hshape]
    exact ha

theorem viewInfer_nil (h : 0 < td.batchSize.prod) : td.viewInfer [] = td.view [td.batchSize.prod] :=
  TensorDict.viewInfer_eq Nat.one_pos (Nat.one_mul _).symm h

/-- **The rows come back** from a batch with tensors: the unfolded batch has them under the same keys, in the same
order and with the same shapes. -/
theorem unfold_fold {k q : ℕ} (hbatch : d.batch = some td) (hsize : td.batchSize = [k * q]) (hk : 0 < k) (hq : 0 < q)
    (hne : td.items.items ≠ []) (htensors : ∀ item ∈ td.items.items, item.2.shape.head? = some (k * q))
    (harrays : ∀ item ∈ d.nonTensorBatch.items, item.2.shape.head? = some (k * q) ∧ 0 < item.2.shape.tail.prod) :
    ∃ folded, (foldBatchDim d k).1 = .ok folded ∧ (unfoldBatchDim folded 2).1 = .ok d := by
  obtain ⟨view, hview, hviewNe, hlead, hback⟩ := TensorDict.view_back hsize hne htensors
  obtain ⟨arrays, hfolded, hheads, hunfolded⟩ := arrays_back hk harrays
  have htensor := foldTensors_of hbatch hsize hk hq hview
  have hone : (view.autoBatchSize 1).batchSize = [k] :=
    @TensorDict.autoBatchSize_eq α view [k] hviewNe fun item hitem =>
      (hlead item hitem).imp' (q :: ·) fun _ h => h
  have htwo : ((view.autoBatchSize 1).autoBatchSize 2).batchSize = [k, q] :=
    @TensorDict.autoBatchSize_eq α (view.autoBatchSize 1) [k, q] hviewNe hlead
  have hnew : Proto.new (some (view.autoBatchSize 1)) arrays d.metaInfo =
      .ok ⟨some (view.autoBatchSize 1), arrays, d.metaInfo⟩ := by
    refine Proto.new_eq_ok.2 ⟨congrArg List.length hone, ?_, rfl⟩
    intro item hitem
    rw [hone, hheads item hitem, List.head?_cons]
  have hfold := foldBatchDim_eq_ok.2 ⟨_, arrays, htensor, hfolded, hnew, rfl⟩
  refine ⟨_, congrArg Prod.fst hfold, unfoldWith_eq_ok.2 ⟨td, k * q, [], d.nonTensorBatch, ?_, hsize, hunfolded, ?_⟩⟩
  · have hprod : ((view.autoBatchSize 1).autoBatchSize 2).batchSize.prod = k * q := by
      rw [htwo, List.prod_cons, List.prod_singleton]
    have hview' : (view.autoBatchSize 1).autoBatchSize 2 = ⟨[k, q], view.items⟩ :=
      congrArg (fun size => (⟨size, view.items⟩ : TensorDict α)) htwo
    rw [viewInfer_nil (hprod ▸ Nat.mul_pos hk hq), hprod, hview']
    exact hback
  · refine Proto.new_eq_ok.2 ⟨congrArg List.length hsize, ?_, ?_⟩
    · intro item hitem
      rw [hsize, (harrays item hitem).1, List.head?_cons]
    · rw [← hbatch]

/-- **No batch with tensors or arrays folds back** without a change of an argument. -/
theorem foldsBack_iff (d : Proto α ν μ) (k : ℕ) : FoldsBack d k ↔
    0 < k ∧ d.nonTensorBatch.items = [] ∧ ∃ td, d.batch = some td ∧ td.items.items = [] ∧ td.batchSize = [k] := by
  constructor
  · rintro ⟨folded, hfold, hunfold⟩
    obtain ⟨tensor, arrays, htensor, harrays, hfolded, hd⟩ := foldBatchDim_eq_ok.1 hfold
    obtain ⟨hk, td, view, q, hbatch, hview, rfl⟩ := foldTensors_eq_ok htensor
    obtain ⟨-, -, rfl⟩ := Proto.new_eq_ok.1 hfolded
    obtain ⟨hunfolded, hsame⟩ := Prod.ext_iff.1 hunfold
    -- the arrays are the ones that the loop wrote
    have hnil : d.nonTensorBatch.items = [] := by
      by_contra hne
      have hwritten : arrays = d.nonTensorBatch := (congrArg Proto.nonTensorBatch hd).symm
      rw [hwritten] at harrays
      obtain ⟨hnone, hassigned⟩ := assigned_iff.2 harrays
      refine assignItems_ne ?_ hne hnone hassigned
      intro v hv
      obtain ⟨size, hshape⟩ := Arr.shape_of_reshapeInfer hv
      have hlen := congrArg List.length hshape
      simp at hlen
      omega
    -- the tensors have the batch size that unfolding sets
    have hauto : (view.autoBatchSize 1).autoBatchSize 2 = view.autoBatchSize 1 :=
      Option.some.inj (congrArg Proto.batch hsame)
    have hempty : view.items.items = [] := by
      by_contra hne
      have hlead := TensorDict.shape_of_view hview
      have hone : (view.autoBatchSize 1).batchSize = [k] :=
        @TensorDict.autoBatchSize_eq α view [k] hne fun item hitem =>
          (hlead item hitem).imp' (q :: ·) fun _ h => h
      refine @TensorDict.autoBatchSize_ne α (view.autoBatchSize 1) [k, q] hne hlead ?_ hauto
      rw [hone]
      exact Nat.one_lt_two
    have hone : (view.autoBatchSize 1).batchSize = [k] := by
      rw [TensorDict.autoBatchSize_empty hempty, (TensorDict.view_eq_ok.1 hview).1]
      rfl
    obtain ⟨out, n, rest, arrays', hout, hsize, -, hnew⟩ := unfoldWith_eq_ok.1 hunfolded
    obtain ⟨-, -, hback⟩ := Proto.new_eq_ok.1 hnew
    obtain rfl : out = td := Option.some.inj ((congrArg Proto.batch hback).symm.trans hbatch)
    refine ⟨hk, hnil, out, hbatch, (TensorDict.isEmpty_of_view hview).1 hempty, ?_⟩
    rw [hauto, viewInfer_nil (by rw [hone, List.prod_singleton]; exact hk), hone, List.prod_singleton] at hout
    exact (TensorDict.view_eq_ok.1 hout).1
  · rintro ⟨hk, harrays, td, hbatch, hitems, hsize⟩
    have htensor := foldTensors_of hbatch (by rw [Nat.mul_one]; exact hsize) hk Nat.one_pos
      (TensorDict.view_empty hitems)
    have hone : (TensorDict.autoBatchSize 1 (⟨[k, 1], td.items⟩ : TensorDict α)) = td := by
      refine (congrArg (fun size => (⟨size, td.items⟩ : TensorDict α)) ?_).trans
        (congrArg (fun size => (⟨size, td.items⟩ : TensorDict α)) hsize).symm
      exact TensorDict.autoBatchSize_empty hitems
    have htwo : td.autoBatchSize 2 = td := by
      refine congrArg (fun size => (⟨size, td.items⟩ : TensorDict α)) ?_
      refine (TensorDict.autoBatchSize_empty hitems).trans ?_
      rw [hsize]
      rfl
    rw [hone] at htensor
    have hkept : ∀ f : Arr ν → Except FoldError (Arr ν), d.nonTensorBatch.mapM f = .ok d.nonTensorBatch := by
      intro f
      rw [Dict.mapM_eq_ok_iff, harrays]
      exact .nil
    have hnew : Proto.new (some td) d.nonTensorBatch d.metaInfo = .ok d := by
      refine Proto.new_eq_ok.2 ⟨congrArg List.length hsize, ?_, by rw [← hbatch]⟩
      rw [harrays]
      intro item hitem
      cases hitem
    refine ⟨d, foldBatchDim_eq_ok.2 ⟨td, d.nonTensorBatch, htensor, hkept _, hnew, rfl⟩, ?_⟩
    unfold unfoldBatchDim
    rw [hbatch]
    simp only
    rw [htwo]
    refine Prod.ext (unfoldWith_eq_ok.2 ⟨td, k, [], d.nonTensorBatch, ?_, hsize, hkept _, hnew⟩) ?_
    · rw [viewInfer_nil (by rw [hsize, List.prod_singleton]; exact hk), hsize, List.prod_singleton,
        TensorDict.view_empty hitems, ← hsize]
    · rw [← hbatch]

def Arr.ofList (l : List α) : Arr α := ⟨[l.length], l, List.prod_singleton.symm⟩

def fourRows : Proto ℕ ℕ Unit :=
  ⟨some ⟨[4], Dict.empty.update "input_ids" fun _ => Arr.ofList [1, 2, 3, 4]⟩,
    Dict.empty.update "uid" fun _ => Arr.ofList [5, 6, 7, 8], ()⟩

theorem unfold_fold_fourRows :
    ∃ folded, (foldBatchDim fourRows 2).1 = .ok folded ∧ (unfoldBatchDim folded 2).1 = .ok fourRows :=
  @unfold_fold ℕ ℕ Unit _ fourRows 2 2 rfl rfl (by decide) (by decide) (by decide) (by decide) (by decide)

theorem not_foldsBack_fourRows : 2 ∣ 4 ∧
    (fourRows.nonTensorBatch.items.map fun item => item.2.shape) = [[4]] ∧
    ((foldBatchDim fourRows 2).2.nonTensorBatch.items.map fun item => item.2.shape) = [[2, 2]] ∧
    ¬FoldsBack fourRows 2 := by
  have hbefore : (fourRows.nonTensorBatch.items.map fun item => item.2.shape) = [[4]] := by decide
  have hafter : ((foldBatchDim fourRows 2).2.nonTensorBatch.items.map fun item => item.2.shape) = [[2, 2]] := by
    decide +kernel
  refine ⟨by decide, hbefore, hafter, ?_⟩
  rintro ⟨folded, hfold, -⟩
  rw [hfold, hbefore] at hafter
  exact absurd hafter (by decide)

end Opd.Verl.FoldBatch

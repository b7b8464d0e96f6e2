import Mathlib.Algebra.BigOperators.Ring.List
import Mathlib.Algebra.Ring.Nat
import Opd.Lib.Blocks
import Opd.Lib.Tensor
import Opd.Verl.FoldBatch

/-!
# Nested tensors

A jagged tensor has its rows side by side in `values`, along the ragged dimension. `unbind` cuts it into its rows, and
`nested_tensor_from_tensor_list` puts rows side by side.

* `narrow_cat`: a tensor is found again in a concatenation.
* `cat_split`: the concatenation of the pieces of a tensor.
* `unbind_of_list`: the rows of a nested tensor made of rows.
* `ofList_unbind`: a nested tensor made of the rows of another one.
-/

namespace Opd.Verl.NestedTensors

open Lib FoldBatch

variable {α : Type}

inductive TdError
  | assertionError (message : String)
  | runtimeError (message : String)
  | indexError
  | keyError
  | zeroDivisionError
  deriving DecidableEq

/-! ## Tensors along a dimension -/

def sizeAt (a : Arr α) (dim : ℕ) : ℕ := a.shape.getD dim 0

/-- The number of the entries at one position of a dimension. -/
def inner (a : Arr α) (dim : ℕ) : ℕ := (a.shape.drop (dim + 1)).prod

/-- The number of the positions of the dimensions in front. -/
def outer (a : Arr α) (dim : ℕ) : ℕ := (a.shape.take dim).prod

/-- The entries at one position of the dimensions in front. -/
def slab (a : Arr α) (dim i : ℕ) : List α :=
  block (i * (sizeAt a dim * inner a dim)) (sizeAt a dim * inner a dim) a.data

variable {dim : ℕ}

theorem prod_set {shape : List ℕ} (h : dim < shape.length) (n : ℕ) :
    (shape.set dim n).prod = (shape.take dim).prod * (n * (shape.drop (dim + 1)).prod) := by
  rw [List.set_eq_take_append_cons_drop, if_pos h, List.prod_append, List.prod_cons]

theorem set_getD {shape : List ℕ} (h : dim < shape.length) : shape.set dim (shape.getD dim 0) = shape := by
  rw [List.getD_eq_getElem?_getD, List.getElem?_eq_getElem h]
  exact List.set_getElem_self h

variable {a : Arr α}

theorem length_data_eq (h : dim < a.shape.length) : a.data.length = outer a dim * (sizeAt a dim * inner a dim) := by
  rw [a.length_data, outer, sizeAt, inner, ← prod_set h, set_getD h]

theorem length_slab {dim i : ℕ} (h : dim < a.shape.length) (hi : i < outer a dim) :
    (slab a dim i).length = sizeAt a dim * inner a dim := by
  refine length_block ?_
  rw [length_data_eq h, ← Nat.succ_mul]
  exact Nat.mul_le_mul_right _ hi

theorem flatMap_slab (h : dim < a.shape.length) :
    (List.range (outer a dim)).flatMap (slab a dim) = a.data := flatMap_block (length_data_eq h)

def partOf (a : Arr α) (dim start length : ℕ) : List α :=
  (List.range (outer a dim)).flatMap fun i => block (start * inner a dim) (length * inner a dim) (slab a dim i)

theorem length_part {dim start length i : ℕ} (h : dim < a.shape.length) (hle : start + length ≤ sizeAt a dim)
    (hi : i < outer a dim) :
    (block (start * inner a dim) (length * inner a dim) (slab a dim i)).length = length * inner a dim := by
  refine length_block ?_
  rw [length_slab h hi, ← Nat.add_mul]
  exact Nat.mul_le_mul_right _ hle

theorem length_flatMap_of {β : Type} {f : ℕ → List β} {n w : ℕ} (h : ∀ i < n, (f i).length = w) :
    ((List.range n).flatMap f).length = n * w := by
  rw [List.length_flatMap, List.map_congr_left fun i hi => h i (List.mem_range.1 hi), List.map_const',
    List.sum_replicate_nat, List.length_range]

theorem length_partOf {dim start length : ℕ} (h : dim < a.shape.length) (hle : start + length ≤ sizeAt a dim) :
    (partOf a dim start length).length = (a.shape.set dim length).prod := by
  rw [prod_set h, partOf, length_flatMap_of fun i hi => length_part h hle hi]
  rfl

/-- `torch.narrow` -/
def narrow (a : Arr α) (dim start length : ℕ) : Except TdError (Arr α) :=
  if h : dim < a.shape.length ∧ start + length ≤ sizeAt a dim then
    .ok ⟨a.shape.set dim length, partOf a dim start length, length_partOf h.1 h.2⟩
  else .error (.runtimeError s!"start ({start}) + length ({length}) exceeds dimension size ({sizeAt a dim}).")

/-- `torch.split` -/
def split (a : Arr α) (sizes : List ℕ) (dim : ℕ) : Except TdError (List (Arr α)) :=
  if sizes.sum ≠ sizeAt a dim then
    .error (.runtimeError (s!"split_with_sizes expects split_sizes to sum exactly to {sizeAt a dim} " ++
      s!"(input tensor's size at dimension {dim}), but got split_sizes={sizes}"))
  else ((0 :: cumsum 0 sizes).zip sizes).mapM fun piece => narrow a dim piece.1 piece.2

def SameBut (dim : ℕ) (a b : Arr α) : Prop := a.shape.set dim 0 = b.shape.set dim 0

instance (dim : ℕ) (a b : Arr α) : Decidable (SameBut dim a b) := inferInstanceAs (Decidable (_ = _))

def catData (tensors : List (Arr α)) (outer dim : ℕ) : List α :=
  (List.range outer).flatMap fun i => tensors.flatMap fun t => slab t dim i

theorem SameBut.dims {a b : Arr α} (h : SameBut dim a b) : a.shape.length = b.shape.length := by
  have hlength := congrArg List.length h
  rwa [List.length_set, List.length_set] at hlength

theorem SameBut.outer_eq {a b : Arr α} (h : SameBut dim a b) : outer a dim = outer b dim := by
  have htake := congrArg (List.take dim) h
  rw [List.take_set_of_le le_rfl, List.take_set_of_le le_rfl] at htake
  exact congrArg List.prod htake

theorem SameBut.inner_eq {a b : Arr α} (h : SameBut dim a b) : inner a dim = inner b dim := by
  have hdrop := congrArg (List.drop (dim + 1)) h
  rw [List.drop_set_of_lt (Nat.lt_succ_self _), List.drop_set_of_lt (Nat.lt_succ_self _)] at hdrop
  exact congrArg List.prod hdrop

theorem SameBut.shape_eq {a b : Arr α} (h : SameBut dim a b) (n : ℕ) : a.shape.set dim n = b.shape.set dim n := by
  have hset := congrArg (fun shape => shape.set dim n) h
  simpa only [List.set_set] using hset

theorem SameBut.sizeAt_of_shape {dim n : ℕ} {a b : Arr α} (hdim : dim < b.shape.length)
    (h : a.shape = b.shape.set dim n) : SameBut dim a b ∧ sizeAt a dim = n := by
  refine ⟨by rw [SameBut, h, List.set_set], ?_⟩
  rw [sizeAt, h, List.getD_eq_getElem?_getD, List.getElem?_set_self hdim]
  rfl

variable {tensors : List (Arr α)}

theorem length_slabs {first : Arr α} {dim i : ℕ} (hdim : dim < first.shape.length)
    (hsame : ∀ t ∈ tensors, SameBut dim t first) (hi : i < outer first dim) :
    (tensors.flatMap fun t => slab t dim i).length =
      (tensors.map fun t => sizeAt t dim).sum * inner first dim := by
  have hslab : ∀ t ∈ tensors, (slab t dim i).length = sizeAt t dim * inner first dim := by
    intro t ht
    have h := hsame t ht
    rw [length_slab (by rw [h.dims]; exact hdim) (by rw [h.outer_eq]; exact hi), h.inner_eq]
  rw [List.length_flatMap, List.map_congr_left hslab, ← List.sum_map_mul_right]

theorem length_catData {first : Arr α} (hdim : dim < first.shape.length) (hsame : ∀ t ∈ tensors, SameBut dim t first) :
    (catData tensors (outer first dim) dim).length =
      (first.shape.set dim (tensors.map fun t => sizeAt t dim).sum).prod := by
  rw [prod_set hdim, catData, length_flatMap_of fun i hi => length_slabs hdim hsame hi]
  rfl

/-- `torch.cat` -/
def cat (tensors : List (Arr α)) (dim : ℕ) : Except TdError (Arr α) :=
  match tensors with
  | [] => .error (.runtimeError "torch.cat(): expected a non-empty list of Tensors")
  | first :: rest =>
    if h : dim < first.shape.length ∧ ∀ t ∈ first :: rest, SameBut dim t first then
      .ok ⟨_, catData (first :: rest) (outer first dim) dim, length_catData h.1 h.2⟩
    else .error (.runtimeError s!"Sizes of tensors must match except in dimension {dim}.")

/-! ### Concatenations and pieces -/

/-- A tensor that is the concatenation of others. -/
structure IsCat (tensors : List (Arr α)) (dim : ℕ) (c : Arr α) : Prop where
  dims : dim < c.shape.length
  same : ∀ t ∈ tensors, SameBut dim t c
  size : sizeAt c dim = (tensors.map fun t => sizeAt t dim).sum
  slabs : ∀ i < outer c dim, slab c dim i = tensors.flatMap fun t => slab t dim i

theorem slab_of_data {dim i w : ℕ} {f : ℕ → List α} (hw : sizeAt a dim * inner a dim = w)
    (hdata : a.data = (List.range (outer a dim)).flatMap f) (hf : ∀ i < outer a dim, (f i).length = w)
    (hi : i < outer a dim) : slab a dim i = f i := by
  rw [slab, hw, hdata]
  exact block_flatMap (fun j hj => hf j (List.mem_range.1 hj)) (List.getElem?_range hi)

/-- **A concatenation.** -/
theorem isCat_of_cat {c : Arr α} (h : cat tensors dim = .ok c) : IsCat tensors dim c := by
  cases tensors with
  | nil => cases h
  | cons first rest =>
    rw [cat] at h
    by_cases hcond : dim < first.shape.length ∧ ∀ t ∈ first :: rest, SameBut dim t first
    · rw [dif_pos hcond, Except.ok.injEq] at h
      obtain ⟨hdim, hsame⟩ := hcond
      have hshape := congrArg Arr.shape h
      have hdata := congrArg Arr.data h
      obtain ⟨hbut, hsize⟩ := SameBut.sizeAt_of_shape hdim hshape.symm
      have houter := hbut.outer_eq
      refine ⟨by rw [hbut.dims]; exact hdim, fun t ht => (hsame t ht).trans hbut.symm, hsize, ?_⟩
      intro i hi
      refine slab_of_data (f := fun i => (first :: rest).flatMap fun t => slab t dim i)
        (by rw [hsize, hbut.inner_eq]) ?_ (fun j hj => ?_) hi
      · rw [← hdata, houter]
        rfl
      · exact length_slabs hdim hsame (by rwa [← houter])
    · rw [dif_neg hcond] at h
      cases h

theorem exists_cat (hne : tensors ≠ []) (hdim : dim < a.shape.length) (hsame : ∀ t ∈ tensors, SameBut dim t a) :
    ∃ c, cat tensors dim = .ok c := by
  cases tensors with
  | nil => exact absurd rfl hne
  | cons first rest =>
    have hfirst := hsame first List.mem_cons_self
    rw [cat, dif_pos ⟨by rw [hfirst.dims]; exact hdim, fun t ht => (hsame t ht).trans hfirst.symm⟩]
    exact ⟨_, rfl⟩

/-- **There is one concatenation.** -/
theorem IsCat.unique {c c' : Arr α} (hne : tensors ≠ []) (h : IsCat tensors dim c) (h' : IsCat tensors dim c') :
    c = c' := by
  obtain ⟨t, ht⟩ := List.exists_mem_of_ne_nil _ hne
  have hbut : SameBut dim c c' := (h.same t ht).symm.trans (h'.same t ht)
  have hsize : sizeAt c dim = sizeAt c' dim := h.size.trans h'.size.symm
  have hshape : c.shape = c'.shape := by
    rw [← set_getD h.dims, ← set_getD h'.dims]
    exact (hbut.shape_eq _).trans (congrArg (c'.shape.set dim) hsize)
  refine Arr.ext hshape ?_
  rw [← flatMap_slab h.dims, ← flatMap_slab h'.dims, hbut.outer_eq]
  refine List.flatMap_congr fun i hi => ?_
  have hlt := List.mem_range.1 hi
  rw [h.slabs i (by rwa [hbut.outer_eq]), h'.slabs i hlt]

theorem IsCat.eq_ok {c : Arr α} (hne : tensors ≠ []) (h : IsCat tensors dim c) : cat tensors dim = .ok c := by
  obtain ⟨c', hc'⟩ := exists_cat hne h.dims h.same
  rw [hc', (isCat_of_cat hc').unique hne h]

theorem narrow_eq_ok {a p : Arr α} {dim start length : ℕ} (h : narrow a dim start length = .ok p) :
    dim < a.shape.length ∧ SameBut dim p a ∧ sizeAt p dim = length ∧
      ∀ i < outer a dim, slab p dim i = block (start * inner a dim) (length * inner a dim) (slab a dim i) := by
  unfold narrow at h
  by_cases hcond : dim < a.shape.length ∧ start + length ≤ sizeAt a dim
  · rw [dif_pos hcond, Except.ok.injEq] at h
    obtain ⟨hdim, hle⟩ := hcond
    obtain ⟨hbut, hsize⟩ := SameBut.sizeAt_of_shape hdim (congrArg Arr.shape h).symm
    refine ⟨hdim, hbut, hsize, fun i hi => ?_⟩
    refine slab_of_data (f := fun i => block (start * inner a dim) (length * inner a dim) (slab a dim i))
      (by rw [hsize, hbut.inner_eq]) ?_ (fun j hj => ?_) (by rwa [hbut.outer_eq])
    · rw [hbut.outer_eq, ← h]
      rfl
    · exact length_part hdim hle (by rwa [← hbut.outer_eq])
  · rw [dif_neg hcond] at h
    cases h

/-- **A tensor is found again** in a concatenation. -/
theorem narrow_cat {before after : List (Arr α)} {t c : Arr α} (h : IsCat (before ++ t :: after) dim c) :
    narrow c dim (before.map fun t => sizeAt t dim).sum (sizeAt t dim) = .ok t := by
  have ht : SameBut dim t c := h.same t (List.mem_append_right _ List.mem_cons_self)
  have hle : (before.map fun t => sizeAt t dim).sum + sizeAt t dim ≤ sizeAt c dim := by
    rw [h.size, List.map_append, List.sum_append, List.map_cons, List.sum_cons, ← Nat.add_assoc]
    exact Nat.le_add_right _ _
  unfold narrow
  rw [dif_pos ⟨h.dims, hle⟩, Except.ok.injEq]
  refine Arr.ext ?_ ?_
  · show c.shape.set dim (sizeAt t dim) = t.shape
    rw [← ht.shape_eq, sizeAt, set_getD (by rw [ht.dims]; exact h.dims)]
  · show partOf c dim _ _ = t.data
    rw [← flatMap_slab (by rw [ht.dims]; exact h.dims : dim < t.shape.length), partOf, ht.outer_eq]
    refine List.flatMap_congr fun i hi => ?_
    have hlt := List.mem_range.1 hi
    have hslab : ∀ t' ∈ before ++ t :: after, (slab t' dim i).length = sizeAt t' dim * inner c dim := by
      intro t' ht'
      have hbut := h.same t' ht'
      rw [length_slab (by rw [hbut.dims]; exact h.dims) (by rwa [hbut.outer_eq]), hbut.inner_eq]
    have hbefore : (before.map fun t => sizeAt t dim).sum * inner c dim =
        (before.map fun t => (slab t dim i).length).sum := by
      rw [← List.sum_map_mul_right,
        List.map_congr_left fun t ht => hslab t (List.mem_append_left _ ht)]
    rw [h.slabs i hlt, hbefore, ← hslab t (List.mem_append_right _ List.mem_cons_self)]
    exact block_flatMap_append (fun t => slab t dim i) before t after

/-- **The pieces of a concatenation.** -/
theorem split_cat {c : Arr α} (h : IsCat tensors dim c) :
    split c (tensors.map fun t => sizeAt t dim) dim = .ok tensors := by
  have hpieces : ∀ before rest : List (Arr α), before ++ rest = tensors →
      let start := (before.map fun t => sizeAt t dim).sum
      ((start :: cumsum start (rest.map fun t => sizeAt t dim)).zip (rest.map fun t => sizeAt t dim)).mapM
        (fun piece => narrow c dim piece.1 piece.2) = .ok rest := by
    intro before rest
    induction rest generalizing before with
    | nil =>
      intro _
      rfl
    | cons t rest ih =>
      intro htensors
      have hnext := ih (before ++ [t]) (by rw [← htensors, List.append_assoc, List.singleton_append])
      simp only [List.map_append, List.map_cons, List.map_nil, List.sum_append, List.sum_singleton] at hnext
      simp only [List.map_cons, cumsum, List.zip_cons_cons]
      refine mapM_eq_ok_iff.2 (.cons ?_ (mapM_eq_ok_iff.1 hnext))
      exact narrow_cat (htensors ▸ h)
  unfold split
  rw [if_neg (not_not.2 h.size.symm)]
  exact hpieces [] tensors rfl

theorem pieces_of_mapM {start : ℕ} {sizes : List ℕ} {pieces : List (Arr α)}
    (h : ((start :: cumsum start sizes).zip sizes).mapM (fun piece => narrow a dim piece.1 piece.2) = .ok pieces) :
    pieces.map (fun t => sizeAt t dim) = sizes ∧ (∀ t ∈ pieces, SameBut dim t a) ∧
      ∀ i < outer a dim, (pieces.flatMap fun t => slab t dim i) = ((start :: cumsum start sizes).zip sizes).flatMap
        fun piece => block (piece.1 * inner a dim) (piece.2 * inner a dim) (slab a dim i) := by
  induction sizes generalizing start pieces with
  | nil =>
    obtain rfl := List.forall₂_nil_left_iff.1 (mapM_eq_ok_iff.1 h)
    exact ⟨rfl, fun t ht => absurd ht List.not_mem_nil, fun i _ => rfl⟩
  | cons size sizes ih =>
    rw [cumsum, List.zip_cons_cons, mapM_eq_ok_iff] at h
    obtain ⟨piece, rest, hpiece, hrest, rfl⟩ := List.forall₂_cons_left_iff.1 h
    obtain ⟨-, hbut, hsize, hslab⟩ := narrow_eq_ok hpiece
    obtain ⟨hsizes, hsame, hslabs⟩ := ih (mapM_eq_ok_iff.2 hrest)
    refine ⟨by rw [List.map_cons, hsizes, hsize], List.forall_mem_cons.2 ⟨hbut, hsame⟩, fun i hi => ?_⟩
    rw [cumsum, List.zip_cons_cons, List.flatMap_cons, List.flatMap_cons, hslab i hi, hslabs i hi]

/-- **A tensor is the concatenation of its pieces.** -/
theorem isCat_of_split {sizes : List ℕ} {pieces : List (Arr α)} (hdim : dim < a.shape.length)
    (h : split a sizes dim = .ok pieces) : IsCat pieces dim a ∧ pieces.map (fun t => sizeAt t dim) = sizes := by
  unfold split at h
  by_cases hsum : sizes.sum = sizeAt a dim
  · rw [if_neg (not_not.2 hsum)] at h
    obtain ⟨hsizes, hsame, hslabs⟩ := pieces_of_mapM h
    refine ⟨⟨hdim, hsame, by rw [hsizes, hsum], fun i hi => ?_⟩, hsizes⟩
    have hlength : (0 + sizes.sum) * inner a dim = (slab a dim i).length := by
      rw [length_slab hdim hi, Nat.zero_add, hsum]
    rw [hslabs i hi, flatMap_blocks hlength, Nat.zero_mul, List.drop_zero]
  · rw [if_pos hsum] at h
    cases h

/-! ## Nested tensors -/

/-- A jagged tensor. With `lengths` there are holes between the rows. -/
structure NestedTensor (α : Type) where
  values : Arr α
  offsets : List ℕ
  lengths : Option (List ℕ)
  raggedIdx : ℕ
  raggedIdx_pos : 1 ≤ raggedIdx

/-- `offsets.diff()` -/
def diff (offsets : List ℕ) : List ℕ := List.zipWith (fun a b => b - a) offsets offsets.tail

/-- `unbind(0)`: the rows. -/
def unbind (t : NestedTensor α) : Except TdError (List (Arr α)) :=
  match t.lengths with
  | none =>
    if t.offsets.IsChain (· ≤ ·) then split t.values (diff t.offsets) (t.raggedIdx - 1)
    else .error (.runtimeError "split_with_sizes expects split_sizes have only non-negative entries")
  | some lengths => (t.offsets.zip lengths).mapM fun row => narrow t.values (t.raggedIdx - 1) row.1 row.2

def jagged (tensors : List (Arr α)) (raggedIdx : ℕ) (h : 1 ≤ raggedIdx) : Except TdError (NestedTensor α) :=
  (cat tensors (raggedIdx - 1)).map fun values =>
    ⟨values, 0 :: cumsum 0 (tensors.map fun t => sizeAt t (raggedIdx - 1)), none, raggedIdx, h⟩

/-- `torch.nested.as_nested_tensor(tensors, layout=torch.jagged)`, of vectors. -/
def asNestedTensor (tensors : List (Arr α)) : Except TdError (NestedTensor α) := jagged tensors 1 Nat.one_pos

/-- `nested_tensor_from_tensor_list` -/
def nestedTensorFromTensorList (tensors : List (Arr α)) (raggedIdx : Option ℕ) : Except TdError (NestedTensor α) :=
  match tensors with
  | [] => .error (.assertionError "Must provide at least one tensor")
  | first :: rest =>
    let sampleDim := first.shape.length
    let raggedIdx := raggedIdx.getD sampleDim
    if h : 1 ≤ raggedIdx ∧ raggedIdx ≤ sampleDim then
      if sampleDim = 1 then asNestedTensor (first :: rest)
      else jagged (first :: rest) raggedIdx h.1
    else .error (.assertionError
      s!"ragged_idx must be in [1, {sampleDim}]. Got ragged_idx={raggedIdx} and sample_dim={sampleDim}")

/-- `concat_nested_tensors` -/
def concatNestedTensors (tensors : List (NestedTensor α)) : Except TdError (NestedTensor α) := do
  if tensors.any fun t => t.lengths.isSome then .error (.assertionError "")
  else
    let unbindTensors ← tensors.mapM fun t =>
      if t.values.shape.length + 1 < 2 then
        .error (.assertionError s!"nested tensor must have 2 or more dimensions. Got {t.values.shape}")
      else unbind t
    match tensors with
    | [] => .error .indexError
    | first :: _ => nestedTensorFromTensorList unbindTensors.flatten (some first.raggedIdx)

def Compact (t : NestedTensor α) : Prop := t.lengths = none ∧ t.offsets.head? = some 0

theorem diff_cumsum (start : ℕ) (sizes : List ℕ) : diff (start :: cumsum start sizes) = sizes := by
  induction sizes generalizing start with
  | nil => rfl
  | cons size sizes ih =>
    have hrest := ih (start + size)
    unfold diff at hrest ⊢
    rw [cumsum, List.tail_cons, List.zipWith_cons_cons, Nat.add_sub_cancel_left]
    rw [List.tail_cons] at hrest
    rw [hrest]

theorem isChain_cumsum (start : ℕ) (sizes : List ℕ) : (start :: cumsum start sizes).IsChain (· ≤ ·) := by
  induction sizes generalizing start with
  | nil => exact .singleton _
  | cons size sizes ih => exact .cons_cons (Nat.le_add_right _ _) (ih _)

theorem cumsum_diff {start : ℕ} {offsets : List ℕ} (h : (start :: offsets).IsChain (· ≤ ·)) :
    cumsum start (diff (start :: offsets)) = offsets := by
  induction offsets generalizing start with
  | nil => rfl
  | cons offset offsets ih =>
    obtain ⟨hle, hrest⟩ := List.isChain_cons_cons.1 h
    have hdiff : diff (start :: offset :: offsets) = (offset - start) :: diff (offset :: offsets) := rfl
    rw [hdiff, cumsum, Nat.add_sub_cancel' hle, ih hrest]

theorem unbind_jagged {raggedIdx : ℕ} {h : 1 ≤ raggedIdx} {t : NestedTensor α}
    (hrun : jagged tensors raggedIdx h = .ok t) : unbind t = .ok tensors ∧ t.raggedIdx = raggedIdx ∧ Compact t ∧
      t.offsets.length = tensors.length + 1 ∧ IsCat tensors (raggedIdx - 1) t.values := by
  unfold jagged at hrun
  cases hcat : cat tensors (raggedIdx - 1) with
  | error e =>
    rw [hcat] at hrun
    cases hrun
  | ok values =>
    rw [hcat] at hrun
    obtain rfl := Except.ok.inj hrun
    have hvalues := isCat_of_cat hcat
    refine ⟨?_, rfl, ⟨rfl, rfl⟩, by rw [List.length_cons, length_cumsum, List.length_map], hvalues⟩
    unfold unbind
    simp only
    rw [if_pos (isChain_cumsum 0 _), diff_cumsum]
    exact split_cat hvalues

theorem ofList_eq_jagged {raggedIdx : ℕ} (h : 1 ≤ raggedIdx) (hne : tensors ≠ [])
    (hdims : ∀ t ∈ tensors, raggedIdx ≤ t.shape.length) :
    nestedTensorFromTensorList tensors (some raggedIdx) = jagged tensors raggedIdx h := by
  cases tensors with
  | nil => exact absurd rfl hne
  | cons first rest =>
    have hle := hdims first List.mem_cons_self
    unfold nestedTensorFromTensorList
    simp only [Option.getD_some]
    rw [dif_pos ⟨h, hle⟩]
    by_cases hone : first.shape.length = 1
    · rw [if_pos hone]
      obtain rfl : raggedIdx = 1 := by omega
      rfl
    · rw [if_neg hone]

/-- **The rows of a nested tensor made of rows**, whose shapes agree but for the ragged dimension. -/
theorem unbind_of_list {raggedIdx : ℕ} (h : 1 ≤ raggedIdx) (hle : raggedIdx ≤ a.shape.length) (hne : tensors ≠ [])
    (hsame : ∀ t ∈ tensors, SameBut (raggedIdx - 1) t a) :
    ∃ t, nestedTensorFromTensorList tensors (some raggedIdx) = .ok t ∧ unbind t = .ok tensors ∧
      t.raggedIdx = raggedIdx ∧ Compact t ∧ t.offsets.length = tensors.length + 1 ∧
      t.values.shape.length = a.shape.length := by
  rw [ofList_eq_jagged h hne fun t ht => by rw [(hsame t ht).dims]; exact hle]
  obtain ⟨values, hvalues⟩ := exists_cat hne (by omega) hsame
  have hrun : ∃ t, jagged tensors raggedIdx h = .ok t := ⟨_, by rw [jagged, hvalues]; rfl⟩
  obtain ⟨t, ht⟩ := hrun
  obtain ⟨hunbind, hragged, hcompact, hoffsets, hcat⟩ := unbind_jagged ht
  obtain ⟨first, hfirst⟩ := List.exists_mem_of_ne_nil _ hne
  exact ⟨t, ht, hunbind, hragged, hcompact, hoffsets,
    (hcat.same first hfirst).dims.symm.trans (hsame first hfirst).dims⟩

theorem same_of_unbind {t : NestedTensor α} {rows : List (Arr α)} (h : unbind t = .ok rows) (hne : rows ≠ []) :
    t.raggedIdx ≤ t.values.shape.length ∧ ∀ row ∈ rows, SameBut (t.raggedIdx - 1) row t.values := by
  have hpieces : ∃ pieces : List (ℕ × ℕ),
      pieces.mapM (fun piece => narrow t.values (t.raggedIdx - 1) piece.1 piece.2) = .ok rows := by
    unfold unbind at h
    cases hlengths : t.lengths with
    | some lengths =>
      rw [hlengths] at h
      exact ⟨_, h⟩
    | none =>
      rw [hlengths] at h
      simp only [split] at h
      split at h
      · split at h
        · cases h
        · exact ⟨_, h⟩
      · cases h
  obtain ⟨pieces, hpieces⟩ := hpieces
  have hall := mapM_eq_ok_iff.1 hpieces
  have hrow : ∀ row ∈ rows, t.raggedIdx - 1 < t.values.shape.length ∧ SameBut (t.raggedIdx - 1) row t.values := by
    clear h hpieces hne
    induction hall with
    | nil => exact fun row hrow => absurd hrow List.not_mem_nil
    | cons hpiece _ ih =>
      obtain ⟨hdim, hbut, -⟩ := narrow_eq_ok hpiece
      exact List.forall_mem_cons.2 ⟨⟨hdim, hbut⟩, ih⟩
  obtain ⟨row, hmem⟩ := List.exists_mem_of_ne_nil _ hne
  have hpos := t.raggedIdx_pos
  have hlt := (hrow row hmem).1
  exact ⟨by omega, fun row hmem => (hrow row hmem).2⟩

/-- **A nested tensor is made of its rows**, if it has no holes. -/
theorem ofList_unbind {t : NestedTensor α} {rows : List (Arr α)} (hcompact : Compact t) (h : unbind t = .ok rows)
    (hne : rows ≠ []) : nestedTensorFromTensorList rows (some t.raggedIdx) = .ok t := by
  obtain ⟨hdims, hsame⟩ := same_of_unbind h hne
  obtain ⟨hlengths, hhead⟩ := hcompact
  have hpos := t.raggedIdx_pos
  unfold unbind at h
  rw [hlengths] at h
  simp only at h
  split at h
  · rename_i hchain
    obtain ⟨hcat, hsizes⟩ := isCat_of_split (by omega) h
    rw [ofList_eq_jagged hpos hne fun row hrow => by rw [(hsame row hrow).dims]; exact hdims]
    unfold jagged
    rw [hcat.eq_ok hne, hsizes]
    obtain ⟨offsets, hoffsets⟩ : ∃ offsets, t.offsets = 0 :: offsets := List.head?_eq_some_iff.1 hhead
    rw [hoffsets] at hchain ⊢
    rw [cumsum_diff hchain, ← hoffsets, ← hlengths]
    rfl
  · cases h

end Opd.Verl.NestedTensors

import Mathlib.Algebra.GroupWithZero.Nat
import Mathlib.Data.List.GetD
import Mathlib.Order.Basic

/-!
# Tensors

A tensor has a shape and an element at each index within it. Tensors of the same shape but for one
dimension are concatenated along it, and a tensor is sliced along a dimension.

* `cat_slices`: the slices of a tensor concatenate to it.
* `cat_replicate`: copies of a tensor concatenate to it exactly if there is one of them, or no element.
-/

namespace Opd.Lib

variable {α β : Type}

def InBounds (shape idx : List ℕ) : Prop :=
  idx.length = shape.length ∧ ∀ d < shape.length, idx.getD d 0 < shape.getD d 0

instance (shape idx : List ℕ) : Decidable (InBounds shape idx) := inferInstanceAs (Decidable (_ ∧ _))

/-- **A tensor**: its elements, by their index. -/
@[ext]
structure NdTensor (α : Type) where
  shape : List ℕ
  get : List ℕ → Option α
  isSome_get : ∀ idx, (get idx).isSome = true ↔ InBounds shape idx

namespace NdTensor

def size (t : NdTensor α) (dim : ℕ) : ℕ := t.shape.getD dim 0

variable {idx : List ℕ}

theorem get_eq_none {t : NdTensor α} (h : ¬InBounds t.shape idx) : t.get idx = none := by
  rw [← t.isSome_get, Bool.not_eq_true, Option.isSome_eq_false_iff, Option.isNone_iff_eq_none] at h
  exact h

theorem ext_inBounds {t t' : NdTensor α} (hshape : t.shape = t'.shape)
    (hget : ∀ idx, InBounds t.shape idx → t.get idx = t'.get idx) : t = t' := by
  refine NdTensor.ext hshape (funext fun idx => ?_)
  by_cases h : InBounds t.shape idx
  · exact hget idx h
  · rw [get_eq_none h, get_eq_none (hshape ▸ h)]

theorem isSome_map (f : α → β) (t : NdTensor α) (idx : List ℕ) :
    ((t.get idx).map f).isSome = true ↔ InBounds t.shape idx := by
  rw [Option.isSome_map, t.isSome_get]

def map (f : α → β) (t : NdTensor α) : NdTensor β := ⟨t.shape, fun idx => (t.get idx).map f, isSome_map f t⟩

/-! ## Indices along a dimension -/

theorem inBounds_set {shape idx : List ℕ} {dim n : ℕ} (hdim : dim < shape.length) :
    InBounds (shape.set dim n) idx ↔
      idx.length = shape.length ∧ idx.getD dim 0 < n ∧ ∀ d < shape.length, d ≠ dim → idx.getD d 0 < shape.getD d 0 := by
  rw [InBounds, List.length_set]
  refine and_congr_right fun hlength => ?_
  have hself : (shape.set dim n).getD dim 0 = n := by
    rw [List.getD_eq_getElem?_getD, List.getElem?_set_self hdim, Option.getD_some]
  have hother : ∀ d, d ≠ dim → (shape.set dim n).getD d 0 = shape.getD d 0 := by
    intro d hd
    rw [List.getD_eq_getElem?_getD, List.getElem?_set_ne hd.symm, List.getD_eq_getElem?_getD]
  constructor
  · intro h
    refine ⟨?_, fun d hlt hd => ?_⟩
    · rw [← hself]
      exact h dim hdim
    · rw [← hother d hd]
      exact h d hlt
  · rintro ⟨hdimLt, hrest⟩ d hlt
    by_cases hd : d = dim
    · rw [hd, hself]
      exact hdimLt
    · rw [hother d hd]
      exact hrest d hlt hd

theorem getD_modify {dim : ℕ} (f : ℕ → ℕ) (hdim : dim < idx.length) (d : ℕ) :
    (idx.modify dim f).getD d 0 = if d = dim then f (idx.getD dim 0) else idx.getD d 0 := by
  simp only [List.getD_eq_getElem?_getD, List.getElem?_modify]
  by_cases hd : d = dim
  · subst hd
    simp [List.getElem?_eq_getElem hdim]
  · simp [hd, Ne.symm hd]

theorem modify_congr {dim : ℕ} {f g : ℕ → ℕ} (h : f (idx.getD dim 0) = g (idx.getD dim 0)) :
    idx.modify dim f = idx.modify dim g := by
  refine List.ext_getElem? fun d => ?_
  rw [List.getElem?_modify, List.getElem?_modify]
  by_cases hd : dim = d
  · subst hd
    rw [List.getD_eq_getElem?_getD] at h
    cases hget : idx[dim]? with
    | none => rfl
    | some x =>
      rw [hget, Option.getD_some] at h
      simp only [if_true, Option.map_eq_map, Option.map_some, h]
  · simp only [if_neg hd]

theorem inBounds_modify {shape idx : List ℕ} {dim n n' : ℕ} {f : ℕ → ℕ} (hdim : dim < shape.length)
    (h : InBounds (shape.set dim n) idx) (hf : f (idx.getD dim 0) < n') :
    InBounds (shape.set dim n') (idx.modify dim f) := by
  obtain ⟨hlength, -, hrest⟩ := (inBounds_set hdim).1 h
  have hget := getD_modify f (by omega : dim < idx.length)
  refine (inBounds_set hdim).2 ⟨by rw [List.length_modify, hlength], ?_, fun d hlt hd => ?_⟩
  · rw [hget, if_pos rfl]
    exact hf
  · rw [hget, if_neg hd]
    exact hrest d hlt hd

theorem set_size (t : NdTensor α) (dim : ℕ) : t.shape.set dim (t.size dim) = t.shape := by
  by_cases h : dim < t.shape.length
  · rw [size, List.getD_eq_getElem _ _ h, List.set_getElem_self]
  · exact List.set_eq_of_length_le (Nat.le_of_not_lt h)

/-! ## Slices -/

variable {dim start len : ℕ} {t a b : NdTensor α}

def sliceShape (dim start len : ℕ) (t : NdTensor α) : List ℕ := t.shape.set dim (min len (t.size dim - start))

def sliceGet (dim start len : ℕ) (t : NdTensor α) (idx : List ℕ) : Option α :=
  if InBounds (sliceShape dim start len t) idx then t.get (idx.modify dim (start + ·)) else none

theorem isSome_slice (dim start len : ℕ) (t : NdTensor α) (idx : List ℕ) :
    (sliceGet dim start len t idx).isSome = true ↔ InBounds (sliceShape dim start len t) idx := by
  rw [sliceGet]
  split_ifs with h
  · refine iff_of_true ((t.isSome_get _).2 ?_) h
    by_cases hdim : dim < t.shape.length
    · have hlt := ((inBounds_set hdim).1 h).2.1
      have hmoved := @inBounds_modify t.shape idx dim _ (t.size dim) (start + ·) hdim h (by omega)
      rwa [set_size] at hmoved
    · rw [sliceShape, List.set_eq_of_length_le (Nat.le_of_not_lt hdim)] at h
      rwa [List.modify_eq_self (h.1 ▸ Nat.le_of_not_lt hdim)]
  · exact iff_of_false Bool.false_ne_true h

/-- `t[..., start : start + len, ...]` along a dimension. -/
def slice (dim start len : ℕ) (t : NdTensor α) : NdTensor α :=
  ⟨sliceShape dim start len t, sliceGet dim start len t, isSome_slice dim start len t⟩

theorem shape_slice (dim start len : ℕ) (t : NdTensor α) :
    (slice dim start len t).shape = t.shape.set dim (min len (t.size dim - start)) := rfl

theorem get_slice (h : InBounds (sliceShape dim start len t) idx) :
    (slice dim start len t).get idx = t.get (idx.modify dim (start + ·)) := if_pos h

theorem slice_all (dim : ℕ) (t : NdTensor α) : slice dim 0 (t.size dim) t = t := by
  have hshape : (slice dim 0 (t.size dim) t).shape = t.shape := by
    rw [shape_slice, Nat.sub_zero, Nat.min_self, set_size]
  refine ext_inBounds hshape fun idx hidx => ?_
  have hmodify : idx.modify dim (0 + ·) = idx := by
    simp only [Nat.zero_add]
    exact List.modify_id dim idx
  rw [get_slice hidx, hmodify]

theorem map_slice (f : α → β) (t : NdTensor α) : (slice dim start len t).map f = slice dim start len (t.map f) := by
  refine ext_inBounds rfl fun idx hidx => ?_
  have hmapped : InBounds (sliceShape dim start len (t.map f)) idx := hidx
  rw [get_slice hmapped]
  exact congrArg (Option.map f) (get_slice hidx)

/-! ## Concatenation -/

def Aligned (dim : ℕ) (a b : NdTensor α) : Prop :=
  dim < a.shape.length ∧ b.shape = a.shape.set dim (b.size dim)

instance (dim : ℕ) (a b : NdTensor α) : Decidable (Aligned dim a b) := inferInstanceAs (Decidable (_ ∧ _))

def appendShape (dim : ℕ) (a b : NdTensor α) : List ℕ := a.shape.set dim (a.size dim + b.size dim)

/-- The element of the concatenation: of the second tensor, if the index is past the first one. -/
def appendGet (dim : ℕ) (a b : NdTensor α) (idx : List ℕ) : Option α :=
  if InBounds (appendShape dim a b) idx then
    if idx.getD dim 0 < a.size dim then a.get idx else b.get (idx.modify dim (· - a.size dim))
  else none

theorem isSome_append (h : Aligned dim a b) (idx : List ℕ) :
    (appendGet dim a b idx).isSome = true ↔ InBounds (appendShape dim a b) idx := by
  obtain ⟨hdim, hshape⟩ := h
  rw [appendGet]
  split_ifs with hidx hfirst
  · refine iff_of_true ((a.isSome_get idx).2 ?_) hidx
    obtain ⟨hlength, -, hrest⟩ := (inBounds_set hdim).1 hidx
    rw [← set_size a dim]
    exact (inBounds_set hdim).2 ⟨hlength, hfirst, hrest⟩
  · refine iff_of_true ((b.isSome_get _).2 ?_) hidx
    have hlt := ((inBounds_set hdim).1 hidx).2.1
    rw [hshape]
    exact inBounds_modify hdim hidx (by omega)
  · exact iff_of_false Bool.false_ne_true hidx

def append (dim : ℕ) (a b : NdTensor α) (h : Aligned dim a b) : NdTensor α :=
  ⟨appendShape dim a b, appendGet dim a b, isSome_append h⟩

def append? (dim : ℕ) (a b : NdTensor α) : Option (NdTensor α) :=
  if h : Aligned dim a b then some (append dim a b h) else none

/-- **`torch.cat`**: there has to be a tensor, and the dimension. -/
def cat (dim : ℕ) : List (NdTensor α) → Option (NdTensor α)
  | [] => none
  | [t] => if dim < t.shape.length then some t else none
  | t :: ts => (cat dim ts).bind (append? dim t)

theorem cat_cons (dim : ℕ) (t : NdTensor α) {ts : List (NdTensor α)} (h : ts ≠ []) :
    cat dim (t :: ts) = (cat dim ts).bind (append? dim t) := by
  cases ts with
  | nil => exact absurd rfl h
  | cons _ _ => rfl

theorem append?_eq_some (h : Aligned dim a b) : append? dim a b = some (append dim a b h) := dif_pos h

theorem shape_append (h : Aligned dim a b) : (append dim a b h).shape = a.shape.set dim (a.size dim + b.size dim) := rfl

theorem get_append (h : Aligned dim a b) (hidx : InBounds (appendShape dim a b) idx) :
    (append dim a b h).get idx =
      if idx.getD dim 0 < a.size dim then a.get idx else b.get (idx.modify dim (· - a.size dim)) := if_pos hidx

theorem getD_set {shape : List ℕ} (hdim : dim < shape.length) (n : ℕ) : (shape.set dim n).getD dim 0 = n := by
  rw [List.getD_eq_getElem?_getD, List.getElem?_set_self hdim, Option.getD_some]

theorem size_slice (hdim : dim < t.shape.length) (h : start + len ≤ t.size dim) :
    (slice dim start len t).size dim = len := by
  rw [size, shape_slice, getD_set hdim, Nat.min_eq_left (by omega)]

def slices (dim start : ℕ) (t : NdTensor α) : List ℕ → List (NdTensor α)
  | [] => []
  | len :: sizes => slice dim start len t :: slices dim (start + len) t sizes

theorem append_slice {m n : ℕ} (hdim : dim < t.shape.length) (h : start + m + n ≤ t.size dim) :
    append? dim (slice dim start m t) (slice dim (start + m) n t) = some (slice dim start (m + n) t) := by
  have hleft := @size_slice α dim start m t hdim (by omega)
  have hright := @size_slice α dim (start + m) n t hdim h
  have haligned : Aligned dim (slice dim start m t) (slice dim (start + m) n t) := by
    refine ⟨by rwa [shape_slice, List.length_set], ?_⟩
    rw [hright, shape_slice, shape_slice, List.set_set, Nat.min_eq_left (by omega)]
  rw [append?_eq_some haligned]
  have hshape : (append dim _ _ haligned).shape = (slice dim start (m + n) t).shape := by
    rw [shape_append, hleft, hright, shape_slice, shape_slice, List.set_set,
      Nat.min_eq_left (by omega : m + n ≤ t.size dim - start)]
  refine congrArg some (ext_inBounds hshape fun idx hidx => ?_)
  have hwhole : InBounds (sliceShape dim start (m + n) t) idx := by rwa [hshape] at hidx
  rw [get_append haligned hidx, get_slice hwhole, hleft]
  have hmin : ∀ {k s : ℕ}, s + k ≤ t.size dim → sliceShape dim s k t = t.shape.set dim k := by
    intro k s hk
    rw [sliceShape, Nat.min_eq_left (by omega)]
  rw [hmin (by omega)] at hwhole
  obtain ⟨hlength, hlt, hrest⟩ := (inBounds_set hdim).1 hwhole
  split_ifs with hfirst
  · rw [get_slice]
    rw [hmin (by omega)]
    exact (inBounds_set hdim).2 ⟨hlength, hfirst, hrest⟩
  · rw [get_slice, List.modify_modify_eq]
    · refine congrArg t.get (modify_congr ?_)
      change start + m + (idx.getD dim 0 - m) = start + idx.getD dim 0
      omega
    · rw [hmin (by omega)]
      exact inBounds_modify hdim hwhole (by omega)

/-- **The slices of a tensor concatenate to it.** -/
theorem cat_slices {sizes : List ℕ} (hdim : dim < t.shape.length) (hne : sizes ≠ [])
    (h : start + sizes.sum ≤ t.size dim) : cat dim (slices dim start t sizes) = some (slice dim start sizes.sum t) := by
  induction sizes generalizing start with
  | nil => exact absurd rfl hne
  | cons n sizes ih =>
    rw [List.sum_cons] at h ⊢
    by_cases hsizes : sizes = []
    · subst hsizes
      rw [slices, slices, cat, List.sum_nil, Nat.add_zero, if_pos]
      rwa [shape_slice, List.length_set]
    · have hcons : slices dim (start + n) t sizes ≠ [] := by
        obtain ⟨m, more, rfl⟩ := List.exists_cons_of_ne_nil hsizes
        exact List.cons_ne_nil _ _
      rw [slices, cat_cons dim _ hcons, ih hsizes (by omega), Option.bind_some]
      exact append_slice hdim (by omega)

theorem exists_cat_replicate (hdim : dim < t.shape.length) (n : ℕ) :
    ∃ r, cat dim (List.replicate (n + 1) t) = some r ∧ r.shape = t.shape.set dim ((n + 1) * t.size dim) := by
  induction n with
  | zero =>
    refine ⟨t, if_pos hdim, ?_⟩
    rw [Nat.one_mul, set_size]
  | succ n ih =>
    obtain ⟨r, hr, hshape⟩ := ih
    have hsize : r.size dim = (n + 1) * t.size dim := by rw [size, hshape, getD_set hdim]
    have haligned : Aligned dim t r := ⟨hdim, by rw [hsize, hshape]⟩
    refine ⟨append dim t r haligned, ?_, ?_⟩
    · rw [List.replicate_succ, cat_cons dim t (by rw [List.replicate_succ]; exact List.cons_ne_nil _ _), hr,
        Option.bind_some, append?_eq_some haligned]
    · rw [shape_append, hsize, Nat.succ_mul (n + 1), Nat.add_comm]

/-- **Copies of a tensor concatenate to it** if there is one, or nothing to concatenate. -/
theorem cat_replicate (n : ℕ) :
    cat dim (List.replicate (n + 1) t) = some t ↔ dim < t.shape.length ∧ (n = 0 ∨ t.size dim = 0) := by
  by_cases hdim : dim < t.shape.length
  · rw [and_iff_right hdim]
    obtain ⟨r, hr, hshape⟩ := exists_cat_replicate hdim n
    have hsize : r.size dim = (n + 1) * t.size dim := by rw [size, hshape, getD_set hdim]
    rw [hr, Option.some.injEq]
    constructor
    · rintro rfl
      rw [Nat.succ_mul] at hsize
      rcases Nat.mul_eq_zero.1 (by omega : n * r.size dim = 0) with h | h
      · exact .inl h
      · exact .inr h
    · rintro (rfl | hzero)
      · exact Option.some.inj (hr.symm.trans (if_pos hdim))
      · have hsame : r.shape = t.shape := by rw [hshape, hzero, Nat.mul_zero, ← hzero, set_size]
        refine ext_inBounds hsame fun idx hidx => ?_
        have hlt := hidx.2 dim (by rwa [hsame])
        rw [hsame] at hlt
        exact absurd (hlt.trans_eq hzero) (Nat.not_lt_zero _)
  · refine iff_of_false (fun h => ?_) fun h => hdim h.1
    cases n with
    | zero =>
      have hnone : cat dim (List.replicate (0 + 1) t) = none := if_neg hdim
      rw [hnone] at h
      cases h
    | succ n =>
      rw [List.replicate_succ, cat_cons dim t (by rw [List.replicate_succ]; exact List.cons_ne_nil _ _)] at h
      obtain ⟨r, -, hr⟩ := Option.bind_eq_some_iff.1 h
      rw [append?, dif_neg fun haligned => hdim haligned.1] at hr
      cases hr

theorem slice_eq_iff (hdim : dim < t.shape.length) (h : len ≤ t.size dim) : slice dim 0 len t = t ↔ len = t.size dim := by
  constructor
  · intro heq
    have hsize := @size_slice α dim 0 len t hdim (by omega)
    rw [heq] at hsize
    exact hsize.symm
  · rintro rfl
    exact slice_all dim t

end NdTensor

end Opd.Lib

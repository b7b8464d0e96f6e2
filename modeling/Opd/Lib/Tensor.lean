import Mathlib.Algebra.GroupWithZero.Nat
import Mathlib.Data.List.Forall2
import Mathlib.Data.List.Nodup
import Mathlib.Data.List.Perm.Subperm
import Mathlib.Data.List.Range
import Mathlib.Data.List.Sublists

/-!
# Rows of tensors: masks, positions and indexed assignment

A row of a tensor is a list. These are the row operations of tensor programs: the
positions of a mask, the last entries, and assignment at a list of positions.

* `mapM_eq_ok_iff`: when a fallible computation succeeds on all rows.
* `nonzero_split`: the positions of a mask around one of them.
* `indexPut_at`: what indexed assignment leaves at one of its positions.
* `takeLast_split`: which element of the last ones sits at a given distance from the
  end.
-/

namespace Opd.Lib

variable {α : Type*}

/-- A two-dimensional tensor: rows of one common width. -/
structure Grid (α : Type*) where
  width : ℕ
  rows : List (List α)
  rect : ∀ row ∈ rows, row.length = width

theorem bind_eq_ok {ε α β : Type} {x : Except ε α} {f : α → Except ε β} {b : β} :
    (x >>= f) = .ok b ↔ ∃ a, x = .ok a ∧ f a = .ok b := by
  cases x with
  | error e => simp [Bind.bind, Except.bind]
  | ok a => simp [Bind.bind, Except.bind]

theorem mapError_eq_ok {ε ε' β : Type} {f : ε → ε'} {x : Except ε β} {b : β} : x.mapError f = .ok b ↔ x = .ok b := by
  cases x with
  | error e => exact ⟨fun h => (by cases h), fun h => (by cases h)⟩
  | ok a => exact ⟨fun h => (by cases h; rfl), fun h => (by cases h; rfl)⟩

theorem getElem?_of_forall₂ {α β : Type*} {R : α → β → Prop} {l : List α} {l' : List β} (h : List.Forall₂ R l l')
    {k : ℕ} {a : α} (ha : l[k]? = some a) : ∃ b, l'[k]? = some b ∧ R a b := by
  obtain ⟨hk, rfl⟩ := List.getElem?_eq_some_iff.1 ha
  exact ⟨_, List.getElem?_eq_getElem (h.length_eq ▸ hk), h.get hk (h.length_eq ▸ hk)⟩

theorem getElem?_of_drop_cons {α : Type*} {l tail : List α} {k : ℕ} {a : α} (h : l.drop k = a :: tail) :
    l[k]? = some a ∧ l.drop (k + 1) = tail := by
  constructor
  · rw [← Nat.add_zero k, ← List.getElem?_drop, h]
    rfl
  · rw [← List.drop_drop, h]
    rfl

/-- **A fallible computation row by row** succeeds when it does on every row. -/
theorem mapM_eq_ok_iff {ε α β : Type*} {f : α → Except ε β} {l : List α} {out : List β} :
    l.mapM f = .ok out ↔ List.Forall₂ (fun a b => f a = .ok b) l out := by
  induction l generalizing out with
  | nil =>
    rw [List.mapM_nil, List.forall₂_nil_left_iff]
    constructor
    · intro h
      injection h with h
      exact h.symm
    · rintro rfl
      rfl
  | cons a l ih =>
    rw [List.mapM_cons, List.forall₂_cons_left_iff]
    constructor
    · intro h
      cases ha : f a with
      | error e => simp [ha, Bind.bind, Except.bind] at h
      | ok b =>
        cases hl : l.mapM f with
        | error e => simp [ha, hl, Bind.bind, Except.bind] at h
        | ok bs =>
          simp only [ha, hl, Bind.bind, Except.bind, Pure.pure, Except.pure, Except.ok.injEq] at h
          exact ⟨b, bs, rfl, ih.1 hl, h.symm⟩
    · rintro ⟨b, bs, ha, hl, rfl⟩
      simp only [ha, ih.2 hl, Bind.bind, Except.bind, Pure.pure, Except.pure]

theorem ok_of_mapM {ε α β : Type*} {f : α → Except ε β} {l : List α} {out : List β} (h : l.mapM f = .ok out)
    {a : α} (ha : a ∈ l) : ∃ b, f a = .ok b := by
  have hall := mapM_eq_ok_iff.1 h
  clear h
  induction hall with
  | nil => cases ha
  | cons hb _ ih =>
    rcases List.mem_cons.1 ha with rfl | ha
    · exact ⟨_, hb⟩
    · exact ih ha

theorem mapM_of_forall {ε α β : Type*} {f : α → Except ε β} {l : List α} (h : ∀ a ∈ l, ∃ b, f a = .ok b) :
    ∃ out, l.mapM f = .ok out := by
  induction l with
  | nil => exact ⟨[], rfl⟩
  | cons a l ih =>
    obtain ⟨b, hb⟩ := h a List.mem_cons_self
    obtain ⟨bs, hbs⟩ := ih fun a' ha' => h a' (List.mem_cons_of_mem a ha')
    exact ⟨b :: bs, mapM_eq_ok_iff.2 (.cons hb (mapM_eq_ok_iff.1 hbs))⟩

theorem mapM_map_eq {ε α β γ : Type*} {f : β → Except ε γ} {g : α → β} {h : α → γ} {l : List α}
    (hf : ∀ a ∈ l, f (g a) = .ok (h a)) : (l.map g).mapM f = .ok (l.map h) := by
  rw [mapM_eq_ok_iff, List.forall₂_map_left_iff, List.forall₂_map_right_iff, List.forall₂_same]
  exact hf

theorem mapM_eq_map {ε α β : Type*} {f : α → Except ε β} {g : α → β} {l : List α} (h : ∀ a ∈ l, f a = .ok (g a)) :
    l.mapM f = .ok (l.map g) := by
  have hmap := mapM_map_eq h
  rwa [List.map_id'] at hmap

theorem mapM_eq_some_iff {α β : Type} {f : α → Option β} {l : List α} {out : List β} :
    l.mapM f = some out ↔ List.Forall₂ (fun a b => f a = some b) l out := by
  induction l generalizing out with
  | nil =>
    rw [List.mapM_nil, List.forall₂_nil_left_iff]
    exact ⟨fun h => (Option.some.inj h).symm, fun h => congrArg some h.symm⟩
  | cons a l ih =>
    rw [List.mapM_cons, List.forall₂_cons_left_iff, Option.bind_eq_bind, Option.bind_eq_some_iff]
    constructor
    · rintro ⟨b, hb, hrest⟩
      obtain ⟨bs, hbs, hout⟩ := Option.bind_eq_some_iff.1 hrest
      exact ⟨b, bs, hb, ih.1 hbs, (Option.some.inj hout).symm⟩
    · rintro ⟨b, bs, hb, hbs, rfl⟩
      exact ⟨b, hb, Option.bind_eq_some_iff.2 ⟨bs, ih.2 hbs, rfl⟩⟩

theorem exists_mapM {α β : Type} {f : α → Option β} {l : List α} (h : ∀ a ∈ l, ∃ b, f a = some b) :
    ∃ out, l.mapM f = some out := by
  induction l with
  | nil => exact ⟨[], rfl⟩
  | cons a l ih =>
    obtain ⟨b, hb⟩ := h a List.mem_cons_self
    obtain ⟨bs, hbs⟩ := ih fun a ha => h a (List.mem_cons_of_mem _ ha)
    exact ⟨b :: bs, by rw [List.mapM_cons, hb, hbs]; rfl⟩

/-- **Related elements, one by one**: what succeeds on each of them succeeds on the list. -/
theorem exists_mapM_ok {ι ε α β : Type*} {f : α → Except ε β} {P : ι → α → Prop} {Q : ι → β → Prop} {is : List ι}
    {l : List α} (h : List.Forall₂ P is l) (hf : ∀ i ∈ is, ∀ a, P i a → ∃ b, f a = .ok b ∧ Q i b) :
    ∃ out, l.mapM f = .ok out ∧ List.Forall₂ Q is out := by
  induction h with
  | nil => exact ⟨[], rfl, .nil⟩
  | @cons i a is l ha _ ih =>
    obtain ⟨b, hb, hQ⟩ := hf i List.mem_cons_self a ha
    obtain ⟨out, hout, hQs⟩ := ih fun i hi => hf i (List.mem_cons_of_mem _ hi)
    exact ⟨b :: out, mapM_eq_ok_iff.2 (.cons hb (mapM_eq_ok_iff.1 hout)), .cons hQ hQs⟩

theorem exists_mapM_some {ι α β : Type} {f : α → Option β} {P : ι → α → Prop} {Q : ι → β → Prop} {is : List ι}
    {l : List α} (h : List.Forall₂ P is l) (hf : ∀ i ∈ is, ∀ a, P i a → ∃ b, f a = some b ∧ Q i b) :
    ∃ out, l.mapM f = some out ∧ List.Forall₂ Q is out := by
  induction h with
  | nil => exact ⟨[], rfl, .nil⟩
  | @cons i a is l ha _ ih =>
    obtain ⟨b, hb, hQ⟩ := hf i List.mem_cons_self a ha
    obtain ⟨out, hout, hQs⟩ := ih fun i hi => hf i (List.mem_cons_of_mem _ hi)
    exact ⟨b :: out, mapM_eq_some_iff.2 (.cons hb (mapM_eq_some_iff.1 hout)), .cons hQ hQs⟩

theorem forall₂_zipIdx {α : Type*} {P : ℕ → α → Prop} {l : List α} {start count : ℕ}
    (h : List.Forall₂ P (List.range' start count) l) :
    List.Forall₂ (fun i item => item.2 = i ∧ P i item.1) (List.range' start count) (l.zipIdx start) := by
  induction l generalizing start count with
  | nil =>
    rw [List.forall₂_nil_right_iff.1 h]
    exact .nil
  | cons a l ih =>
    cases count with
    | zero => cases h
    | succ count =>
      rw [List.range'_succ] at h ⊢
      obtain ⟨ha, hrest⟩ := List.forall₂_cons.1 h
      exact .cons ⟨rfl, ha⟩ (ih hrest)

theorem mapM_some {α : Type*} (l : List α) : ((l.map some).mapM id : Option (List α)) = some l := by
  induction l with
  | nil => rfl
  | cons a l ih =>
    rw [List.map_cons, List.mapM_cons, ih]
    rfl

/-! ## Positions of a mask -/

/-- The positions of a mask that are set, in increasing order (`torch.nonzero`). -/
def nonzero (mask : List Bool) : List ℕ := (List.range mask.length).filter fun t => mask[t]? == some true

theorem mem_nonzero {mask : List Bool} {t : ℕ} : t ∈ nonzero mask ↔ mask[t]? = some true := by
  unfold nonzero
  rw [List.mem_filter, List.mem_range, beq_iff_eq]
  refine ⟨fun h => h.2, fun h => ⟨?_, h⟩⟩
  obtain ⟨hlt, -⟩ := List.getElem?_eq_some_iff.1 h
  exact hlt

theorem nodup_nonzero (mask : List Bool) : (nonzero mask).Nodup := List.nodup_range.filter _

theorem sorted_nonzero (mask : List Bool) : (nonzero mask).Pairwise (· < ·) :=
  List.pairwise_lt_range.filter _

theorem split_of_sorted {l A B : List ℕ} {t : ℕ} (hl : l.Pairwise (· < ·)) (h : l = A ++ t :: B) :
    (∀ u, u ∈ A ↔ u ∈ l ∧ u < t) ∧ ∀ u, u ∈ B ↔ u ∈ l ∧ t < u := by
  subst h
  rw [List.pairwise_append, List.pairwise_cons] at hl
  obtain ⟨-, ⟨hB, -⟩, hA⟩ := hl
  have hAt : ∀ u ∈ A, u < t := fun u hu => hA u hu t (List.mem_cons_self ..)
  constructor <;> intro u
  · constructor
    · intro hu
      exact ⟨List.mem_append_left _ hu, hAt u hu⟩
    · rintro ⟨hu, hlt⟩
      rcases List.mem_append.1 hu with hu | hu
      · exact hu
      · rcases List.mem_cons.1 hu with rfl | hu
        · omega
        · have := hB u hu
          omega
  · constructor
    · intro hu
      exact ⟨List.mem_append_right _ (List.mem_cons_of_mem _ hu), hB u hu⟩
    · rintro ⟨hu, hlt⟩
      rcases List.mem_append.1 hu with hu | hu
      · have := hAt u hu
        omega
      · rcases List.mem_cons.1 hu with rfl | hu
        · omega
        · exact hu

/-- **A mask around one of its positions**: the positions after it are the later ones. -/
theorem nonzero_split {mask : List Bool} {t : ℕ} (ht : mask[t]? = some true) :
    ∃ A B, nonzero mask = A ++ t :: B ∧ (∀ u, u ∈ A ↔ mask[u]? = some true ∧ u < t) ∧
      ∀ u, u ∈ B ↔ mask[u]? = some true ∧ t < u := by
  obtain ⟨A, B, h⟩ := List.append_of_mem (mem_nonzero.2 ht)
  obtain ⟨hA, hB⟩ := split_of_sorted (sorted_nonzero mask) h
  refine ⟨A, B, h, fun u => ?_, fun u => ?_⟩
  · rw [hA, mem_nonzero]
  · rw [hB, mem_nonzero]

theorem nonzero_eq_nil {mask : List Bool} : nonzero mask = [] ↔ true ∉ mask := by
  rw [List.eq_nil_iff_forall_not_mem]
  constructor
  · intro h hm
    obtain ⟨t, ht⟩ := List.getElem?_of_mem hm
    exact h t (mem_nonzero.2 ht)
  · intro h t ht
    exact h (List.mem_of_getElem? (mem_nonzero.1 ht))

theorem subset_iff_length_eq {V W : List ℕ} (hV : V.Nodup) (hW : W.Nodup) (hsub : V ⊆ W) :
    W ⊆ V ↔ V.length = W.length := by
  have hsp : V.Subperm W := List.subperm_of_subset hV hsub
  constructor
  · intro h
    exact Nat.le_antisymm hsp.length_le (List.subperm_of_subset hW h).length_le
  · intro h
    exact (hsp.perm_of_length_le (Nat.le_of_eq h.symm)).symm.subset

/-! ## Assignment at a list of positions -/

/-- `row[idxs] = vals`. -/
def indexPut (row : List α) (idxs : List ℕ) (vals : List α) : List α :=
  (idxs.zip vals).foldl (fun r p => r.set p.1 p.2) row

theorem length_indexPut (row : List α) (idxs : List ℕ) (vals : List α) :
    (indexPut row idxs vals).length = row.length := by
  unfold indexPut
  generalize idxs.zip vals = l
  induction l generalizing row with
  | nil => rfl
  | cons p l ih => rw [List.foldl_cons, ih, List.length_set]

theorem foldl_set_frame (l : List (ℕ × α)) (row : List α) {t : ℕ} (ht : t ∉ l.map Prod.fst) :
    (l.foldl (fun r p => r.set p.1 p.2) row)[t]? = row[t]? := by
  induction l generalizing row with
  | nil => rfl
  | cons p l ih =>
    simp only [List.map_cons, List.mem_cons, not_or] at ht
    rw [List.foldl_cons, ih _ ht.2, List.getElem?_set_ne (Ne.symm ht.1)]

/-- **What assignment leaves at one of its positions**, when no position repeats. -/
theorem indexPut_at {row A' : List α} {A B : List ℕ} {t : ℕ} {v : α} {B' : List α}
    (hA : A.length = A'.length) (hB : B.length = B'.length) (hn : (A ++ t :: B).Nodup)
    (ht : t < row.length) : (indexPut row (A ++ t :: B) (A' ++ v :: B'))[t]? = some v := by
  have hfst : (B.zip B').map Prod.fst = B := List.map_fst_zip (Nat.le_of_eq hB)
  have htB : t ∉ B := by
    rw [List.nodup_append, List.nodup_cons] at hn
    exact hn.2.1.1
  unfold indexPut
  rw [List.zip_append hA, List.foldl_append, List.zip_cons_cons, List.foldl_cons,
    foldl_set_frame _ _ (by rw [hfst]; exact htB), List.getElem?_set_self]
  have hlen := length_indexPut row A A'
  unfold indexPut at hlen
  rw [hlen]
  exact ht

/-! ## The last elements -/

/-- `l[-n:]` for positive `n`. -/
def takeLast (n : ℕ) (l : List α) : List α := l.drop (l.length - n)

theorem length_takeLast {n : ℕ} {l : List α} (h : n ≤ l.length) : (takeLast n l).length = n := by
  unfold takeLast
  rw [List.length_drop]
  omega

/-- **The last elements, around one of them**: it has the same elements after it in
the whole list. -/
theorem takeLast_split {a b : ℕ} {l : List α} (h : a + 1 + b ≤ l.length) :
    ∃ A v B X, takeLast (a + 1 + b) l = A ++ v :: B ∧ A.length = a ∧ B.length = b ∧ l = X ++ v :: B := by
  have hlen := length_takeLast h
  obtain ⟨v, hv⟩ : ∃ v, (takeLast (a + 1 + b) l)[a]? = some v :=
    ⟨_, List.getElem?_eq_getElem (by omega)⟩
  obtain ⟨hlt, hget⟩ := List.getElem?_eq_some_iff.1 hv
  have hsplit : takeLast (a + 1 + b) l =
      (takeLast (a + 1 + b) l).take a ++ v :: (takeLast (a + 1 + b) l).drop (a + 1) := by
    rw [← hget, List.getElem_cons_drop, List.take_append_drop]
  refine ⟨(takeLast (a + 1 + b) l).take a, v, (takeLast (a + 1 + b) l).drop (a + 1),
    l.take (l.length - (a + 1 + b)) ++ (takeLast (a + 1 + b) l).take a, hsplit, ?_, ?_, ?_⟩
  · rw [List.length_take]
    omega
  · rw [List.length_drop]
    omega
  · rw [List.append_assoc, ← hsplit]
    exact (List.take_append_drop _ _).symm

end Opd.Lib

import Mathlib.Data.List.Perm.Subperm
import Opd.Lib.Sorting

/-!
# The largest elements of a list

An element is among the `k` largest of distinct values when fewer than `k` are larger.

* `mem_topk`: the elements of `topk`.
* `mem_candidates_iff`: the largest of candidates that include the largest of a list are those of the list.
-/

namespace Opd.Lib

variable {K : Type} [LinearOrder K]

/-- `torch.topk`: the largest values with their indices, the largest first. -/
def topk (k : ℕ) (x : List K) : Option (List (K × ℕ)) :=
  if k ≤ x.length then some ((sortDesc Prod.fst x.zipIdx).take k) else none

def larger (x : List K) (a : K) : ℕ := x.countP fun b => a < b

theorem larger_map {L : Type} [LinearOrder L] {f : K → L} (hf : StrictMono f) (x : List K) (a : K) :
    larger (x.map f) (f a) = larger x a := by
  unfold larger
  rw [List.countP_map]
  refine List.countP_congr fun b _ => ?_
  simp only [Function.comp_apply, hf.lt_iff_lt]

theorem larger_anti (x : List K) {a b : K} (h : a ≤ b) : larger x b ≤ larger x a := by
  refine List.countP_mono_left fun c _ hc => ?_
  have hlt : b < c := of_decide_eq_true hc
  exact decide_eq_true (lt_of_le_of_lt h hlt)

theorem larger_lt_length {x : List K} {a : K} (h : a ∈ x) : larger x a < x.length := by
  refine lt_of_le_of_ne List.countP_le_length fun hall => ?_
  have hself := List.countP_eq_length.1 hall a h
  exact absurd (of_decide_eq_true hself) (lt_irrefl a)

theorem mem_take_iff {l : List (K × ℕ)} (h : l.Pairwise fun p q => q.1 < p.1) {k : ℕ} {p : K × ℕ} :
    p ∈ l.take k ↔ p ∈ l ∧ larger (l.map Prod.fst) p.1 < k := by
  induction l generalizing k with
  | nil => simp
  | cons q l ih =>
    rw [List.pairwise_cons] at h
    cases k with
    | zero => simp
    | succ k =>
      have hcount : larger ((q :: l).map Prod.fst) p.1 = larger (l.map Prod.fst) p.1 + if p.1 < q.1 then 1 else 0 := by
        unfold larger
        rw [List.map_cons, List.countP_cons]
        simp
      rw [List.take_succ_cons, List.mem_cons, List.mem_cons, ih h.2, hcount]
      by_cases hpq : p = q
      · subst hpq
        have hnone : larger (l.map Prod.fst) p.1 = 0 := by
          refine List.countP_eq_zero.2 fun b hb => ?_
          obtain ⟨r, hr, rfl⟩ := List.mem_map.1 hb
          simp only [decide_eq_true_eq, not_lt]
          exact (h.1 r hr).le
        simp [hnone]
      · constructor
        · rintro (heq | ⟨hmem, hlt⟩)
          · exact absurd heq hpq
          · rw [if_pos (h.1 p hmem)]
            exact ⟨.inr hmem, by omega⟩
        · rintro ⟨heq | hmem, hlt⟩
          · exact absurd heq hpq
          · rw [if_pos (h.1 p hmem)] at hlt
            exact .inr ⟨hmem, by omega⟩

theorem exists_topk {k : ℕ} {x : List K} (h : k ≤ x.length) : ∃ out, topk k x = some out := ⟨_, if_pos h⟩

theorem length_of_topk {k : ℕ} {x : List K} {out : List (K × ℕ)} (h : topk k x = some out) : out.length = k := by
  unfold topk at h
  split at h
  · rename_i hk
    obtain rfl := Option.some.inj h
    rw [List.length_take, (sortDesc_perm _ _).length_eq, List.length_zipIdx]
    exact Nat.min_eq_left hk
  · cases h

theorem fst_topk_subperm {k : ℕ} {x : List K} {out : List (K × ℕ)} (h : topk k x = some out) :
    List.Subperm (out.map Prod.fst) x := by
  have hmap := (sortDesc_perm Prod.fst x.zipIdx).map Prod.fst
  rw [List.zipIdx_map_fst] at hmap
  unfold topk at h
  split at h
  · obtain rfl := Option.some.inj h
    rw [List.map_take]
    exact (List.take_sublist _ _).subperm.trans hmap.subperm
  · cases h

omit [LinearOrder K] in
theorem flatten_subperm {lists parts : List (List K)} (h : List.Forall₂ (fun l part => List.Subperm part l) lists parts) :
    List.Subperm parts.flatten lists.flatten := by
  induction h with
  | nil => exact List.Subperm.refl _
  | cons h _ ih =>
    rw [List.flatten_cons, List.flatten_cons]
    exact h.append ih

theorem nodup_topk {k : ℕ} {x : List K} (hx : x.Nodup) {out : List (K × ℕ)} (h : topk k x = some out) :
    (out.map Prod.fst).Nodup := by
  obtain ⟨l, hperm, hsub⟩ := fst_topk_subperm h
  exact hperm.nodup_iff.1 (hsub.nodup hx)

/-- **The largest of distinct values** are those with fewer than `k` larger ones. -/
theorem mem_topk {k : ℕ} {x : List K} (hx : x.Nodup) {out : List (K × ℕ)} (h : topk k x = some out) {p : K × ℕ} :
    p ∈ out ↔ x[p.2]? = some p.1 ∧ larger x p.1 < k := by
  have hperm := sortDesc_perm Prod.fst x.zipIdx
  have hfst : ((sortDesc Prod.fst x.zipIdx).map Prod.fst).Perm x := by
    have hmap := hperm.map Prod.fst
    rwa [List.zipIdx_map_fst] at hmap
  have hstrict : (sortDesc Prod.fst x.zipIdx).Pairwise fun p q => q.1 < p.1 := by
    have hnodup : (sortDesc Prod.fst x.zipIdx).Pairwise fun p q => p.1 ≠ q.1 := by
      rw [← List.pairwise_map (R := fun a b => a ≠ b)]
      exact hfst.nodup_iff.2 hx
    refine (hnodup.and (sortDesc_pairwise Prod.fst x.zipIdx)).imp ?_
    rintro p q ⟨hne, hle⟩
    exact lt_of_le_of_ne hle hne.symm
  unfold topk at h
  split at h
  · obtain rfl := Option.some.inj h
    have hlarger : larger ((sortDesc Prod.fst x.zipIdx).map Prod.fst) p.1 = larger x p.1 := hfst.countP_eq _
    rw [mem_take_iff hstrict, hperm.mem_iff, List.mem_zipIdx_iff_getElem?, hlarger]
  · cases h

/-- **The largest of some candidates** are those of the list, if these are among them. -/
theorem mem_candidates_iff {k : ℕ} {x : List K} (hx : x.Nodup) {candidates : List (K × ℕ)}
    (hnodup : (candidates.map Prod.fst).Nodup) (hsub : ∀ p ∈ candidates, x[p.2]? = some p.1)
    (hall : ∀ p : K × ℕ, x[p.2]? = some p.1 → larger x p.1 < k → p ∈ candidates) (p : K × ℕ) :
    p ∈ candidates ∧ larger (candidates.map Prod.fst) p.1 < k ↔ x[p.2]? = some p.1 ∧ larger x p.1 < k := by
  constructor
  · rintro ⟨hp, hlt⟩
    refine ⟨hsub p hp, ?_⟩
    by_contra hge
    -- the k largest values are candidates, and larger
    have hk : k ≤ x.length := (not_lt.1 hge).trans List.countP_le_length
    obtain ⟨out, hout⟩ := exists_topk hk
    have hmem := fun q => @mem_topk K _ k x hx out hout q
    have hfst : out.map Prod.fst ⊆ (candidates.map Prod.fst).filter fun b => p.1 < b := by
      intro b hb
      obtain ⟨q, hq, rfl⟩ := List.mem_map.1 hb
      obtain ⟨hget, hfew⟩ := (hmem q).1 hq
      refine List.mem_filter.2 ⟨List.mem_map.2 ⟨q, hall q hget hfew, rfl⟩, decide_eq_true ?_⟩
      by_contra hle
      have := larger_anti x (not_lt.1 hle)
      omega
    have hle := ((nodup_topk hx hout).subperm hfst).length_le
    rw [List.length_map, length_of_topk hout, ← List.countP_eq_length_filter] at hle
    unfold larger at hlt
    omega
  · rintro ⟨hget, hlt⟩
    refine ⟨hall p hget hlt, lt_of_le_of_lt ?_ hlt⟩
    have hsubset : (candidates.map Prod.fst).filter (fun b => p.1 < b) ⊆ x.filter fun b => p.1 < b := by
      intro b hb
      obtain ⟨hb, hlarger⟩ := List.mem_filter.1 hb
      obtain ⟨q, hq, rfl⟩ := List.mem_map.1 hb
      exact List.mem_filter.2 ⟨List.mem_of_getElem? (hsub q hq), hlarger⟩
    have hle := ((hnodup.filter _).subperm hsubset).length_le
    unfold larger
    rwa [List.countP_eq_length_filter, List.countP_eq_length_filter]

end Opd.Lib

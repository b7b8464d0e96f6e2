import Mathlib.Algebra.Order.BigOperators.Group.List
import Mathlib.Algebra.BigOperators.Group.List.Lemmas
import Mathlib.Data.List.Perm.Subperm
import Mathlib.Data.Multiset.Fold
import Mathlib.Logic.Function.Basic

/-!
# Greedy matchings

Tasks are served one after the other. Each takes the candidate with the largest positive weight among those that are
left, or none if no weight is positive.

* `Greedy.worths_le`: a pick is worth at most the bound of its task.
* `Greedy.subperm`: a candidate is picked once at most.
* `Greedy.eq_bound`: if the tasks could all be matched at their bounds, they are.
* `Greedy.worths_eq`: if a task gains the same only from candidates of one class, their order does not matter.
* `Greedy.sum_eq`: if the tasks of each class have the same weights, the worth of all picks depends neither on the order
  of the tasks nor on that of the candidates.
-/

namespace Opd.Lib

variable {τ γ K : Type*} [LinearOrder K] [Zero K] {w : τ → γ → K}

def worth {K : Type*} [Zero K] (w : τ → γ → K) (t : τ) : Option γ → K
  | none => 0
  | some c => w t c

/-- **The picks of the tasks**, from the candidates that are left. -/
inductive Greedy (w : τ → γ → K) : List τ → List γ → List (Option γ) → Prop
  | nil (left : List γ) : Greedy w [] left []
  | pick {t : τ} {ts : List τ} {c : γ} {left left' : List γ} {picks : List (Option γ)} (hleft : left.Perm (c :: left'))
    (hpos : 0 < w t c) (hbest : ∀ d ∈ left, w t d ≤ w t c) (hrest : Greedy w ts left' picks) :
    Greedy w (t :: ts) left (some c :: picks)
  | skip {t : τ} {ts : List τ} {left : List γ} {picks : List (Option γ)} (hnone : ∀ d ∈ left, w t d ≤ 0)
    (hrest : Greedy w ts left picks) : Greedy w (t :: ts) left (none :: picks)

variable {ts ts' : List τ} {left left' : List γ} {picks picks' : List (Option γ)}

def worths {K : Type*} [Zero K] (w : τ → γ → K) (ts : List τ) (picks : List (Option γ)) : List K := List.zipWith (worth w) ts picks

@[simp] theorem worths_cons {K : Type*} [Zero K] (w : τ → γ → K) (t : τ) (ts : List τ) (pick : Option γ)
    (picks : List (Option γ)) : worths w (t :: ts) (pick :: picks) = worth w t pick :: worths w ts picks := rfl

theorem Greedy.length_eq (h : Greedy w ts left picks) : picks.length = ts.length := by
  induction h with
  | nil left => rfl
  | pick _ _ _ _ ih => rw [List.length_cons, List.length_cons, ih]
  | skip _ _ ih => rw [List.length_cons, List.length_cons, ih]

theorem Greedy.map {δ : Type*} {g : δ → γ} {left : List δ} {picks : List (Option δ)}
    (h : Greedy (fun t c => w t (g c)) ts left picks) : Greedy w ts (left.map g) (picks.map (Option.map g)) := by
  have hall : ∀ {P : γ → Prop} {l : List δ}, (∀ d ∈ l, P (g d)) → ∀ c ∈ l.map g, P c := by
    intro P l hl c hc
    obtain ⟨d, hd, rfl⟩ := List.mem_map.1 hc
    exact hl d hd
  induction h with
  | nil left => exact .nil _
  | pick hleft hpos hbest _ ih => exact .pick (hleft.map g) hpos (hall hbest) ih
  | skip hnone _ ih => exact .skip (hall hnone) ih

theorem worths_map {δ K : Type*} [Zero K] (w : τ → γ → K) (g : δ → γ) (ts : List τ) (picks : List (Option δ)) :
    worths w ts (picks.map (Option.map g)) = worths (fun t c => w t (g c)) ts picks := by
  rw [worths, List.zipWith_map_right]
  refine congrArg (List.zipWith · ts picks) (funext fun t => funext fun pick => ?_)
  cases pick <;> rfl

/-- **A candidate is picked once at most.** -/
theorem Greedy.subperm (h : Greedy w ts left picks) : (picks.filterMap id).Subperm left := by
  induction h with
  | nil left => exact List.nil_subperm
  | pick hleft _ _ _ ih => exact ((List.subperm_cons _).2 ih).trans hleft.symm.subperm
  | skip _ _ ih => exact ih

theorem Greedy.worths_nonneg (h : Greedy w ts left picks) : ∀ v ∈ worths w ts picks, 0 ≤ v := by
  induction h with
  | nil left =>
    intro v hv
    cases hv
  | pick _ hpos _ _ ih =>
    intro v hv
    rcases List.mem_cons.1 hv with rfl | hv
    · exact hpos.le
    · exact ih v hv
  | skip _ _ ih =>
    intro v hv
    rcases List.mem_cons.1 hv with rfl | hv
    · exact le_rfl
    · exact ih v hv

/-- **A pick is worth at most the bound** of its task. -/
theorem Greedy.worths_le {b : τ → K} (hb : ∀ t, 0 ≤ b t) (hw : ∀ t c, w t c ≤ b t) (h : Greedy w ts left picks) :
    List.Forall₂ (· ≤ ·) (worths w ts picks) (ts.map b) := by
  induction h with
  | nil left => exact .nil
  | pick _ _ _ _ ih => exact .cons (hw _ _) ih
  | skip _ _ ih => exact .cons (hb _) ih

theorem eq_of_sum_eq {K : Type*} [AddCommMonoid K] [PartialOrder K] [IsOrderedCancelAddMonoid K] {l l' : List K}
    (h : List.Forall₂ (· ≤ ·) l l') (hsum : l.sum = l'.sum) : l = l' := by
  induction h with
  | nil => rfl
  | cons hle hrest ih =>
    rw [List.sum_cons, List.sum_cons] at hsum
    obtain ⟨hhead, htail⟩ := (add_eq_add_iff_eq_and_eq hle hrest.sum_le_sum).1 hsum
    rw [hhead, ih htail]

theorem Greedy.exists_matched {b : τ → K} (hb : ∀ t, 0 < b t) (h : Greedy w ts left picks)
    (heq : worths w ts picks = ts.map b) :
    ∃ cs : List γ, picks = cs.map some ∧ List.Forall₂ (fun t c => w t c = b t) ts cs := by
  induction h with
  | nil left => exact ⟨[], rfl, .nil⟩
  | @pick t ts c left left' picks _ _ _ _ ih =>
    rw [worths_cons, List.map_cons] at heq
    obtain ⟨cs, hcs, hall⟩ := ih (List.cons.inj heq).2
    exact ⟨c :: cs, by rw [hcs, List.map_cons], .cons (List.cons.inj heq).1 hall⟩
  | @skip t ts left picks _ _ _ =>
    rw [worths_cons, List.map_cons] at heq
    exact absurd (List.cons.inj heq).1 (hb t).ne

/-- **Tasks that can be matched at their bounds** are: a pick that is worth the bound is as good as another one. -/
theorem Greedy.eq_bound {κ : Type*} {b : τ → K} {f : τ → κ} {g : γ → κ} (hb : ∀ t, 0 < b t) (hw : ∀ t c, w t c ≤ b t)
    (hclass : ∀ t c, w t c = b t ↔ f t = g c) (h : Greedy w ts left picks) (hperm : (ts.map f).Perm (left.map g)) :
    worths w ts picks = ts.map b := by
  induction h with
  | nil left => rfl
  | @pick t ts c left left' picks hleft _ hbest _ ih =>
    have hmem : f t ∈ left.map g := hperm.subset List.mem_cons_self
    obtain ⟨d, hd, hfd⟩ := List.mem_map.1 hmem
    have heq : w t c = b t := le_antisymm (hw t c) (((hclass t d).2 hfd.symm).ge.trans (hbest d hd))
    have hrest : (ts.map f).Perm (left'.map g) := by
      have hall := hperm.trans (hleft.map g)
      rw [List.map_cons, List.map_cons, (hclass t c).1 heq] at hall
      exact hall.cons_inv
    rw [worths_cons, List.map_cons]
    exact congrArg₂ List.cons heq (ih hrest)
  | @skip t ts left picks hnone _ _ =>
    have hmem : f t ∈ left.map g := hperm.subset List.mem_cons_self
    obtain ⟨d, hd, hfd⟩ := List.mem_map.1 hmem
    have hle := hnone d hd
    rw [(hclass t d).2 hfd.symm] at hle
    exact absurd (hb t) hle.not_gt

/-- **The candidates' classes decide**: with the same classes left, tasks that are indifferent between candidates of
one class only gain the same. -/
theorem Greedy.worths_eq {β : Type*} {g : γ → β} (hg : ∀ t c d, g c = g d → w t c = w t d)
    (h : Greedy w ts left picks) (h' : Greedy w ts left' picks') (hperm : (left.map g).Perm (left'.map g))
    (hties : ∀ t ∈ ts, ∀ c ∈ left, ∀ d ∈ left, 0 < w t c → w t c = w t d → g c = g d) :
    worths w ts picks = worths w ts picks' := by
  induction h generalizing left' picks' with
  | nil left =>
    cases h'
    rfl
  | @pick t ts c left rest picks hleft hpos hbest _ ih =>
    cases h' with
    | @pick _ _ c' _ rest' picks' hleft' hpos' hbest' hrest' =>
      have hc : c ∈ left := hleft.symm.subset List.mem_cons_self
      have hc' : c' ∈ left' := hleft'.symm.subset List.mem_cons_self
      obtain ⟨d, hd, hgd⟩ := List.mem_map.1 (hperm.symm.subset (List.mem_map_of_mem hc'))
      obtain ⟨d', hd', hgd'⟩ := List.mem_map.1 (hperm.subset (List.mem_map_of_mem hc))
      have heq : w t c = w t c' := by
        refine le_antisymm ?_ ?_
        · rw [← hg t d' c hgd']
          exact hbest' d' hd'
        · rw [← hg t d c' hgd]
          exact hbest d hd
      have hclass : g c = g c' := by
        rw [← hgd]
        exact hties t List.mem_cons_self c hc d hd hpos (heq.trans (hg t d c' hgd).symm)
      have hrests : (rest.map g).Perm (rest'.map g) := by
        have hall := ((hleft.map g).symm.trans hperm).trans (hleft'.map g)
        rw [List.map_cons, List.map_cons, hclass] at hall
        exact hall.cons_inv
      have hsub : ∀ a ∈ rest, a ∈ left := fun a ha => hleft.symm.subset (List.mem_cons_of_mem c ha)
      rw [worths_cons, worths_cons]
      exact congrArg₂ List.cons heq (ih hrest' hrests fun t' ht' a ha b hb =>
        hties t' (List.mem_cons_of_mem t ht') a (hsub a ha) b (hsub b hb))
    | @skip _ _ _ picks' hnone' _ =>
      have hc : c ∈ left := hleft.symm.subset List.mem_cons_self
      obtain ⟨d', hd', hgd'⟩ := List.mem_map.1 (hperm.subset (List.mem_map_of_mem hc))
      have hle := hnone' d' hd'
      rw [hg t d' c hgd'] at hle
      exact absurd hpos hle.not_gt
  | @skip t ts left picks hnone _ ih =>
    cases h' with
    | @pick _ _ c' _ rest' picks' hleft' hpos' _ _ =>
      have hc' : c' ∈ left' := hleft'.symm.subset List.mem_cons_self
      obtain ⟨d, hd, hgd⟩ := List.mem_map.1 (hperm.symm.subset (List.mem_map_of_mem hc'))
      have hle := hnone d hd
      rw [hg t d c' hgd] at hle
      exact absurd hpos' hle.not_gt
    | @skip _ _ _ picks' _ hrest' =>
      rw [worths_cons, worths_cons]
      exact congrArg₂ List.cons rfl (ih hrest' hperm fun t' ht' => hties t' (List.mem_cons_of_mem t ht'))

/-! ## Classes of tasks with the same weights -/

section Classes

variable {κ : Type*} [DecidableEq κ]

def top (M : Multiset K) : K := M.fold max 0

theorem top_zero : top (0 : Multiset K) = 0 := Multiset.fold_zero _ _

theorem top_eq {M : Multiset K} {v : K} (hv : v ∈ M) (hle : ∀ u ∈ M, u ≤ v) (hpos : 0 ≤ v) : top M = v := by
  refine le_antisymm (?_ : M.fold max 0 ≤ v) (?_ : v ≤ M.fold max 0)
  · clear hv
    induction M using Multiset.induction_on with
    | empty => exact hpos
    | cons a M ih =>
      rw [Multiset.fold_cons_left]
      exact max_le (hle a (Multiset.mem_cons_self a M)) (ih fun u hu => hle u (Multiset.mem_cons_of_mem hu))
  · obtain ⟨M, rfl⟩ := Multiset.exists_cons_of_mem hv
    rw [Multiset.fold_cons_left]
    exact le_max_left _ _

/-- The positive weights that the candidates of a class have for its tasks. -/
def offers (u : κ → γ → K) (g : γ → κ) (left : List γ) (k : κ) : Multiset K :=
  (((left.filter (g · = k)).map (u k)).filter (0 < ·) : List K)

theorem offers_perm {u : κ → γ → K} {g : γ → κ} (h : left.Perm left') : offers u g left = offers u g left' := by
  funext k
  exact Multiset.coe_eq_coe.2 (((h.filter _).map _).filter _)

theorem mem_offers {u : κ → γ → K} {g : γ → κ} {k : κ} {v : K} :
    v ∈ offers u g left k ↔ 0 < v ∧ ∃ c ∈ left, g c = k ∧ u k c = v := by
  rw [offers, Multiset.mem_coe, List.mem_filter, List.mem_map, decide_eq_true_eq, and_comm]
  refine and_congr_right fun _ => exists_congr fun c => ?_
  rw [List.mem_filter, decide_eq_true_eq, and_assoc]

theorem offers_cons {u : κ → γ → K} {g : γ → κ} {c : γ} (hpos : 0 < u (g c) c) :
    offers u g (c :: left) = Function.update (offers u g left) (g c) (u (g c) c ::ₘ offers u g left (g c)) := by
  funext k
  by_cases hk : g c = k
  · rw [← hk, Function.update_self, offers, List.filter_cons, if_pos (decide_eq_true rfl), List.map_cons,
      List.filter_cons, if_pos (decide_eq_true hpos)]
    rfl
  · rw [Function.update_of_ne (Ne.symm hk), offers, List.filter_cons_of_neg (by rwa [decide_eq_true_eq])]
    rfl

end Classes

section Drain

variable {κ : Type*} [DecidableEq κ] {K : Type*} [LinearOrder K] [AddCommMonoid K] {w : τ → γ → K}

/-- A task of a class takes the largest of its offers. -/
def drain (s : K × (κ → Multiset K)) (k : κ) : K × (κ → Multiset K) :=
  (s.1 + top (s.2 k), Function.update s.2 k ((s.2 k).erase (top (s.2 k))))

theorem drain_mk (a : K) (M : κ → Multiset K) (k : κ) :
    drain (a, M) k = (a + top (M k), Function.update M k ((M k).erase (top (M k)))) := rfl

/-- **Tasks of different classes do not disturb each other**, and tasks of one class are alike. -/
theorem drain_comm (s : K × (κ → Multiset K)) (k k' : κ) : drain (drain s k) k' = drain (drain s k') k := by
  by_cases hk : k = k'
  · rw [hk]
  · simp only [drain, Function.update_of_ne hk, Function.update_of_ne (Ne.symm hk)]
    refine Prod.ext ?_ ?_
    · exact add_right_comm _ _ _
    · exact Function.update_comm hk _ _ _

/-- **The picks drain the offers**: the largest offer of a task's class is what its pick is worth. -/
theorem Greedy.drain_eq {u : κ → γ → K} {f : τ → κ} {g : γ → κ} (h : Greedy w ts left picks)
    (hsame : ∀ t ∈ ts, ∀ c ∈ left, f t = g c → w t c = u (g c) c)
    (hother : ∀ t ∈ ts, ∀ c ∈ left, f t ≠ g c → w t c ≤ 0) (a : K) :
    ((ts.map f).foldl drain (a, offers u g left)).1 = a + (worths w ts picks).sum := by
  induction h generalizing a with
  | nil left => exact (add_zero a).symm
  | @pick t ts c left rest picks hleft hpos hbest _ ih =>
    have hc : c ∈ left := hleft.symm.subset List.mem_cons_self
    have hsub : ∀ d ∈ rest, d ∈ left := fun d hd => hleft.symm.subset (List.mem_cons_of_mem c hd)
    have hclass : f t = g c := by
      by_contra hne
      exact absurd hpos (hother t List.mem_cons_self c hc hne).not_gt
    have hworth : w t c = u (g c) c := hsame t List.mem_cons_self c hc hclass
    have htop : top (offers u g left (g c)) = u (g c) c := by
      refine top_eq (mem_offers.2 ⟨hworth ▸ hpos, c, hc, rfl, rfl⟩) ?_ (hworth ▸ hpos.le)
      intro v hv
      obtain ⟨-, d, hd, hgd, rfl⟩ := mem_offers.1 hv
      have hle := hbest d hd
      rwa [hworth, hsame t List.mem_cons_self d hd (hclass.trans hgd.symm), hgd] at hle
    have hstep : drain (a, offers u g left) (f t) = (a + u (g c) c, offers u g rest) := by
      rw [drain_mk, hclass, htop, offers_perm hleft, offers_cons (hworth ▸ hpos), Function.update_self,
        Multiset.erase_cons_head, Function.update_idem, Function.update_eq_self]
    rw [List.map_cons, List.foldl_cons, hstep, ih (fun t' ht' d hd => hsame t' (List.mem_cons_of_mem t ht') d (hsub d hd))
      (fun t' ht' d hd => hother t' (List.mem_cons_of_mem t ht') d (hsub d hd)), worths_cons,
      List.sum_cons, ← add_assoc, ← hworth]
    rfl
  | @skip t ts left picks hnone _ ih =>
    have hempty : offers u g left (f t) = 0 := by
      refine Multiset.eq_zero_of_forall_notMem fun v hv => ?_
      obtain ⟨hpos, d, hd, hgd, rfl⟩ := mem_offers.1 hv
      have hle := hnone d hd
      rw [hsame t List.mem_cons_self d hd hgd.symm, hgd] at hle
      exact absurd hpos hle.not_gt
    have hstep : drain (a, offers u g left) (f t) = (a, offers u g left) := by
      rw [drain_mk, hempty, top_zero, Multiset.erase_zero, add_zero, ← hempty, Function.update_eq_self]
    rw [List.map_cons, List.foldl_cons, hstep, ih (fun t' ht' => hsame t' (List.mem_cons_of_mem t ht'))
      (fun t' ht' => hother t' (List.mem_cons_of_mem t ht')), worths_cons, List.sum_cons]
    exact congrArg (a + ·) (zero_add _).symm

/-- **The worth of all picks** depends neither on the order of the tasks nor on that of the candidates, if the tasks of
each class have the same weights. -/
theorem Greedy.sum_eq {f : τ → κ} {g : γ → κ} (h : Greedy w ts left picks) (h' : Greedy w ts' left' picks')
    (hts : ts.Perm ts') (hperm : left.Perm left')
    (hsame : ∀ t ∈ ts, ∀ t' ∈ ts, ∀ c ∈ left, f t = f t' → f t = g c → w t c = w t' c)
    (hother : ∀ t ∈ ts, ∀ c ∈ left, f t ≠ g c → w t c ≤ 0) : (worths w ts picks).sum = (worths w ts' picks').sum := by
  classical
  let u : κ → γ → K := fun k c => if hk : ∃ t ∈ ts, f t = k then w hk.choose c else 0
  have hu : ∀ t ∈ ts, ∀ c ∈ left, f t = g c → w t c = u (g c) c := by
    intro t ht c hc htc
    have hk : ∃ t ∈ ts, f t = g c := ⟨t, ht, htc⟩
    have hchoose : u (g c) c = w hk.choose c := dif_pos hk
    rw [hchoose]
    exact hsame t ht _ hk.choose_spec.1 c hc (htc.trans hk.choose_spec.2.symm) htc
  have hdrain := h.drain_eq hu hother 0
  have hdrain' := h'.drain_eq (fun t ht c hc => hu t (hts.symm.subset ht) c (hperm.symm.subset hc))
    (fun t ht c hc => hother t (hts.symm.subset ht) c (hperm.symm.subset hc)) 0
  have hfold : (ts.map f).foldl drain (0, offers u g left) = (ts'.map f).foldl drain (0, offers u g left') := by
    rw [← offers_perm hperm]
    exact List.Perm.foldl_eq' (hts.map f) (fun k _ k' _ s => drain_comm s k k') _
  rw [hfold, hdrain', zero_add, zero_add] at hdrain
  exact hdrain.symm

end Drain

end Opd.Lib

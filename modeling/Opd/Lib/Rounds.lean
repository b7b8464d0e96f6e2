import Mathlib.Data.List.Flatten
import Mathlib.Data.List.Nodup
import Mathlib.Data.List.Perm.Basic
import Mathlib.Data.List.Range

/-!
# Queues that are served in rounds

Entries with a key are put into the queue of their key, as in a dictionary of lists. The queues are
then served in rounds, one entry of each queue in a round.

* `flatten_enqueue`: no entry is lost, and none is doubled.
* `mem_enqueueAll`: a queue has the entries of its key, in their order.
* `rounds_perm`: the rounds have the entries of all queues.
* `flatMap_filter_perm`: the parts of a list have its entries.
-/

namespace Opd.Lib

variable {κ α β : Type*}

/-! ## Queues -/

section Queues

variable [DecidableEq κ]

/-- `queues[key].append(entry)` -/
def enqueue : List (κ × List α) → κ → α → List (κ × List α)
  | [], key, entry => [(key, [entry])]
  | queue :: queues, key, entry =>
    if queue.1 = key then (queue.1, queue.2 ++ [entry]) :: queues else queue :: enqueue queues key entry

def enqueueAll (entries : List (κ × α)) : List (κ × List α) :=
  entries.foldl (fun queues entry => enqueue queues entry.1 entry.2) []

/-- **No entry is lost.** -/
theorem flatten_enqueue (queues : List (κ × List α)) (key : κ) (entry : α) :
    (((enqueue queues key entry).flatMap fun queue => queue.2.map (Prod.mk queue.1))).Perm
      ((queues.flatMap fun queue => queue.2.map (Prod.mk queue.1)) ++ [(key, entry)]) := by
  induction queues with
  | nil => exact List.Perm.refl _
  | cons queue queues ih =>
    rw [enqueue]
    by_cases hkey : queue.1 = key
    · rw [if_pos hkey, List.flatMap_cons, List.flatMap_cons, List.map_append, List.append_assoc, List.append_assoc]
      refine List.Perm.append_left _ ?_
      rw [List.map_singleton, hkey]
      exact List.perm_append_comm
    · rw [if_neg hkey, List.flatMap_cons, List.flatMap_cons, List.append_assoc]
      exact ih.append_left _

theorem flatten_enqueueAll (entries : List (κ × α)) :
    ((enqueueAll entries).flatMap fun queue => queue.2.map (Prod.mk queue.1)).Perm entries := by
  have hfold : ∀ (entries : List (κ × α)) (queues : List (κ × List α)),
      ((entries.foldl (fun queues entry => enqueue queues entry.1 entry.2) queues).flatMap
        fun queue => queue.2.map (Prod.mk queue.1)).Perm
          ((queues.flatMap fun queue => queue.2.map (Prod.mk queue.1)) ++ entries) := by
    intro entries
    induction entries with
    | nil =>
      intro queues
      rw [List.append_nil]
      exact List.Perm.refl _
    | cons entry entries ih =>
      intro queues
      refine (ih _).trans ?_
      refine ((flatten_enqueue queues entry.1 entry.2).append_right entries).trans ?_
      rw [List.append_assoc]
      exact List.Perm.refl _
  exact hfold entries []

theorem nodup_enqueue {queues : List (κ × List α)} (h : (queues.map Prod.fst).Nodup) (key : κ) (entry : α) :
    ((enqueue queues key entry).map Prod.fst).Nodup ∧
      ∀ k, k ∈ (enqueue queues key entry).map Prod.fst → k = key ∨ k ∈ queues.map Prod.fst := by
  induction queues with
  | nil => exact ⟨List.nodup_cons.2 ⟨List.not_mem_nil, List.nodup_nil⟩, fun k hk => Or.inl (List.mem_singleton.1 hk)⟩
  | cons queue queues ih =>
    rw [List.map_cons, List.nodup_cons] at h
    obtain ⟨hnodup, hkeys⟩ := ih h.2
    rw [enqueue]
    by_cases hkey : queue.1 = key
    · rw [if_pos hkey]
      exact ⟨List.nodup_cons.2 h, fun k hk => Or.inr hk⟩
    · rw [if_neg hkey, List.map_cons, List.nodup_cons]
      refine ⟨⟨fun hmem => ?_, hnodup⟩, fun k hk => ?_⟩
      · rcases hkeys _ hmem with heq | hold
        · exact hkey heq
        · exact h.1 hold
      · rcases List.mem_cons.1 hk with rfl | hk
        · exact Or.inr List.mem_cons_self
        · exact (hkeys k hk).imp_right (List.mem_cons_of_mem _)

theorem mem_enqueue {queues : List (κ × List α)} (h : (queues.map Prod.fst).Nodup) {key : κ} {entry : α}
    {queue : κ × List α} (hmem : queue ∈ enqueue queues key entry) :
    (queue.1 ≠ key ∧ queue ∈ queues) ∨
      queue.1 = key ∧ ((∃ front, (key, front) ∈ queues ∧ queue.2 = front ++ [entry]) ∨
        key ∉ queues.map Prod.fst ∧ queue.2 = [entry]) := by
  induction queues with
  | nil =>
    obtain rfl := List.mem_singleton.1 hmem
    exact Or.inr ⟨rfl, Or.inr ⟨List.not_mem_nil, rfl⟩⟩
  | cons first queues ih =>
    rw [List.map_cons, List.nodup_cons] at h
    rw [enqueue] at hmem
    by_cases hkey : first.1 = key
    · rw [if_pos hkey] at hmem
      rcases List.mem_cons.1 hmem with rfl | hmem
      · refine Or.inr ⟨hkey, Or.inl ⟨first.2, ?_, rfl⟩⟩
        rw [← hkey]
        exact List.mem_cons_self
      · refine Or.inl ⟨fun heq => h.1 ?_, List.mem_cons_of_mem _ hmem⟩
        rw [hkey, ← heq]
        exact List.mem_map_of_mem hmem
    · rw [if_neg hkey] at hmem
      rcases List.mem_cons.1 hmem with rfl | hmem
      · exact Or.inl ⟨hkey, List.mem_cons_self⟩
      · rcases ih h.2 hmem with ⟨hne, hold⟩ | ⟨heq, ⟨front, hfront, hlist⟩ | ⟨hnew, hlist⟩⟩
        · exact Or.inl ⟨hne, List.mem_cons_of_mem _ hold⟩
        · exact Or.inr ⟨heq, Or.inl ⟨front, List.mem_cons_of_mem _ hfront, hlist⟩⟩
        · refine Or.inr ⟨heq, Or.inr ⟨fun hmem' => ?_, hlist⟩⟩
          rcases List.mem_cons.1 hmem' with heq' | hmem'
          · exact hkey heq'.symm
          · exact hnew hmem'

theorem enqueueAll_concat (entries : List (κ × α)) (entry : κ × α) :
    enqueueAll (entries ++ [entry]) = enqueue (enqueueAll entries) entry.1 entry.2 := by
  unfold enqueueAll
  rw [List.foldl_append, List.foldl_cons, List.foldl_nil]

theorem nodup_enqueueAll (entries : List (κ × α)) : ((enqueueAll entries).map Prod.fst).Nodup := by
  induction entries using List.reverseRecOn with
  | nil => exact List.nodup_nil
  | append_singleton entries entry ih =>
    rw [enqueueAll_concat]
    exact (nodup_enqueue ih entry.1 entry.2).1

theorem filter_eq_nil_of_not_mem {entries : List (κ × α)} {key : κ} (h : key ∉ (enqueueAll entries).map Prod.fst) :
    entries.filter (fun entry => entry.1 = key) = [] := by
  rw [List.filter_eq_nil_iff]
  intro entry hentry hkey
  have hmem := (flatten_enqueueAll entries).mem_iff.2 hentry
  obtain ⟨queue, hqueue, hin⟩ := List.mem_flatMap.1 hmem
  obtain ⟨a, -, rfl⟩ := List.mem_map.1 hin
  exact h (List.mem_map.2 ⟨queue, hqueue, of_decide_eq_true hkey⟩)

/-- **A queue has the entries of its key**, in their order. -/
theorem mem_enqueueAll {entries : List (κ × α)} {queue : κ × List α} (h : queue ∈ enqueueAll entries) :
    queue.2 = (entries.filter fun entry => entry.1 = queue.1).map Prod.snd := by
  induction entries using List.reverseRecOn generalizing queue with
  | nil => cases h
  | append_singleton entries entry ih =>
    rw [enqueueAll_concat] at h
    rw [List.filter_append, List.map_append]
    rcases mem_enqueue (nodup_enqueueAll entries) h with ⟨hne, hold⟩ | ⟨heq, hqueue⟩
    · rw [ih hold, List.filter_cons_of_neg (by simpa using fun heq => hne heq.symm), List.filter_nil, List.map_nil,
        List.append_nil]
    · have hone : [entry].filter (fun e => decide (e.1 = entry.1)) = [entry] :=
        List.filter_eq_self.2 fun e he => decide_eq_true (by rw [List.mem_singleton.1 he])
      rw [heq, hone, List.map_singleton]
      rcases hqueue with ⟨front, hfront, hlist⟩ | ⟨hnew, hlist⟩
      · rw [hlist]
        exact congrArg (· ++ [entry.2]) (ih hfront)
      · rw [hlist, filter_eq_nil_of_not_mem hnew, List.map_nil, List.nil_append]

/-- **Queues of images.** -/
theorem enqueue_map (f : α → β) (queues : List (κ × List α)) (key : κ) (entry : α) :
    enqueue (queues.map fun queue => (queue.1, queue.2.map f)) key (f entry) =
      (enqueue queues key entry).map fun queue => (queue.1, queue.2.map f) := by
  induction queues with
  | nil => rfl
  | cons queue queues ih =>
    rw [List.map_cons, enqueue, enqueue]
    by_cases hkey : queue.1 = key
    · rw [if_pos hkey, if_pos hkey, List.map_cons, List.map_append, List.map_singleton]
    · rw [if_neg hkey, if_neg hkey, List.map_cons, ih]

theorem enqueueAll_map (f : α → β) (entries : List (κ × α)) :
    enqueueAll (entries.map fun entry => (entry.1, f entry.2)) =
      (enqueueAll entries).map fun queue => (queue.1, queue.2.map f) := by
  induction entries using List.reverseRecOn with
  | nil => rfl
  | append_singleton entries entry ih =>
    rw [List.map_append, List.map_singleton, enqueueAll_concat, enqueueAll_concat, ih, enqueue_map]

end Queues

/-! ## Rounds -/

section Rounds

def round (queues : List (κ × List α)) (i : ℕ) : List (κ × α) :=
  queues.filterMap fun queue => queue.2[i]?.map (Prod.mk queue.1)

theorem flatMap_getElem? {l : List α} {n : ℕ} (h : l.length ≤ n) : ((List.range n).flatMap fun i => l[i]?.toList) = l := by
  induction l generalizing n with
  | nil =>
    refine List.flatMap_eq_nil_iff.2 fun i _ => ?_
    rw [List.getElem?_nil]
    rfl
  | cons a l ih =>
    rcases n with - | n
    · exact absurd h (Nat.not_succ_le_zero _)
    · have hrest := ih (Nat.le_of_succ_le_succ h)
      rw [List.range_succ_eq_map, List.flatMap_cons, List.flatMap_map]
      exact congrArg (a :: ·) hrest

/-- **The rounds** have the entries of all queues. -/
theorem rounds_perm {queues : List (κ × List α)} {n : ℕ} (h : ∀ queue ∈ queues, queue.2.length ≤ n) :
    ((List.range n).flatMap (round queues)).Perm (queues.flatMap fun queue => queue.2.map (Prod.mk queue.1)) := by
  induction queues with
  | nil =>
    have hnil : (List.range n).flatMap (round ([] : List (κ × List α))) = [] := List.flatMap_eq_nil_iff.2 fun i _ => rfl
    rw [hnil, List.flatMap_nil]
  | cons queue queues ih =>
    have hfirst : (List.range n).flatMap (round (queue :: queues)) =
        (List.range n).flatMap fun i => (queue.2.map (Prod.mk queue.1))[i]?.toList ++ round queues i := by
      refine List.flatMap_congr fun i _ => ?_
      unfold round
      rw [List.filterMap_cons, List.getElem?_map]
      cases queue.2[i]?.map (Prod.mk queue.1) with
      | none => rfl
      | some entry => rfl
    rw [hfirst, List.flatMap_cons]
    refine (List.flatMap_append_perm _ _ _).symm.trans ?_
    rw [flatMap_getElem? (by rw [List.length_map]; exact h queue List.mem_cons_self)]
    exact (ih fun q hq => h q (List.mem_cons_of_mem _ hq)).append_left _

theorem round_map (f : α → β) (queues : List (κ × List α)) (i : ℕ) :
    round (queues.map fun queue => (queue.1, queue.2.map f)) i =
      (round queues i).map fun entry => (entry.1, f entry.2) := by
  unfold round
  rw [List.filterMap_map, List.map_filterMap]
  refine List.filterMap_congr fun queue _ => ?_
  rw [Function.comp_apply, List.getElem?_map, Option.map_map, Option.map_map]
  rfl

theorem mem_round {queues : List (κ × List α)} {i : ℕ} {entry : κ × α} (h : entry ∈ round queues i) :
    ∃ queue ∈ queues, queue.1 = entry.1 ∧ queue.2[i]? = some entry.2 := by
  obtain ⟨queue, hqueue, hentry⟩ := List.mem_filterMap.1 h
  obtain ⟨a, ha, rfl⟩ := Option.map_eq_some_iff.1 hentry
  exact ⟨queue, hqueue, rfl, ha⟩

end Rounds

/-! ## Parts -/

section Parts

/-- **The parts of a list** by a number of each entry. -/
theorem flatMap_filter_perm {f : α → ℕ} {l : List α} {n : ℕ} (h : ∀ a ∈ l, f a < n) :
    ((List.range n).flatMap fun r => l.filter fun a => f a = r).Perm l := by
  induction n generalizing l with
  | zero =>
    have hnil : l = [] := List.eq_nil_iff_forall_not_mem.2 fun a ha => Nat.not_lt_zero _ (h a ha)
    rw [hnil]
    exact List.Perm.refl _
  | succ n ih =>
    have hbelow : ((List.range n).flatMap fun r => l.filter fun a => f a = r) =
        (List.range n).flatMap fun r => (l.filter fun a => f a < n).filter fun a => f a = r := by
      refine List.flatMap_congr fun r hr => ?_
      rw [List.filter_filter]
      refine List.filter_congr fun a _ => ?_
      have hlt := List.mem_range.1 hr
      by_cases heq : f a = r
      · simp only [heq, hlt, decide_true, Bool.and_self]
      · simp only [heq, decide_false, Bool.false_and]
    have hlast : (l.filter fun a => f a = n) = l.filter fun a => !decide (f a < n) := by
      refine List.filter_congr fun a ha => ?_
      have hlt := h a ha
      by_cases heq : f a = n
      · simp only [heq, Nat.lt_irrefl, decide_true, decide_false, Bool.not_false]
      · simp only [heq, show f a < n by omega, decide_true, decide_false, Bool.not_true]
    rw [List.range_succ, List.flatMap_append, List.flatMap_singleton, hbelow, hlast]
    refine ((ih fun a ha => of_decide_eq_true (List.mem_filter.1 ha).2).append_right _).trans ?_
    exact List.filter_append_perm _ _

end Parts

end Opd.Lib

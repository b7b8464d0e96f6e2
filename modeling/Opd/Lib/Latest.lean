import Mathlib.Data.List.Perm.Lattice
import Mathlib.Order.Lattice
import Opd.Lib.Dict

/-!
# The latest entry of each label

A list of entries, each with a label and a value, is read into a dictionary that keeps for each label the largest value
and the position of its first entry.

* `get?_latest`: what the dictionary has for a label.
* `latestRows_perm`: the positions it has.
* `isLatest_map_iff`: other names for the labels and the values.
-/

namespace Opd.Lib

variable {κ ν : Type*} [DecidableEq κ] [LinearOrder ν]

/-- An entry takes the place of one with its label and a smaller value. -/
def record (d : Dict κ (ν × ℕ)) (label : κ) (value : ν) (i : ℕ) : Dict κ (ν × ℕ) :=
  match d.get? label with
  | none => d.update label fun _ => (value, i)
  | some best => if best.1 < value then d.update label fun _ => (value, i) else d

def latest (entries : List (κ × ν)) : Dict κ (ν × ℕ) :=
  entries.zipIdx.foldl (fun d p => record d p.1.1 p.1.2 p.2) .empty

/-- **The latest entry of a label**: no entry of the label has a larger value, and those before it have smaller ones. -/
def IsLatest (entries : List (κ × ν)) (label : κ) (value : ν) (i : ℕ) : Prop :=
  entries[i]? = some (label, value) ∧
    ∀ j w, entries[j]? = some (label, w) → w ≤ value ∧ (w = value → i ≤ j)

def latestRows (entries : List (κ × ν)) : List ℕ :=
  (entries.zipIdx.filter fun p =>
    ∀ q ∈ entries.zipIdx, q.1.1 = p.1.1 → q.1.2 ≤ p.1.2 ∧ (q.1.2 = p.1.2 → p.2 ≤ q.2)).map Prod.snd

variable {entries : List (κ × ν)} {label : κ} {value : ν} {i : ℕ}

omit [DecidableEq κ] in
theorem IsLatest.unique {value' : ν} {i' : ℕ} (h : IsLatest entries label value i)
    (h' : IsLatest entries label value' i') : value = value' ∧ i = i' := by
  obtain ⟨hle', hfirst'⟩ := h.2 i' value' h'.1
  obtain ⟨hle, hfirst⟩ := h'.2 i value h.1
  have heq : value = value' := le_antisymm hle hle'
  exact ⟨heq, Nat.le_antisymm (hfirst' heq.symm) (hfirst heq)⟩

omit [DecidableEq κ] [LinearOrder ν] in
theorem getElem?_append_entry {l : κ} {v w : ν} {j : ℕ} :
    (entries ++ [(l, v)])[j]? = some (label, w) ↔
      entries[j]? = some (label, w) ∨ j = entries.length ∧ label = l ∧ w = v := by
  rcases Nat.lt_trichotomy j entries.length with hlt | rfl | hgt
  · rw [List.getElem?_append_left hlt]
    refine ⟨.inl, fun h => ?_⟩
    rcases h with h | ⟨rfl, -⟩
    · exact h
    · exact absurd hlt (Nat.lt_irrefl _)
  · rw [List.getElem?_append_right (Nat.le_refl _), Nat.sub_self, List.getElem?_eq_none (Nat.le_refl _)]
    simp [Prod.ext_iff, eq_comm]
  · rw [List.getElem?_eq_none (by simp; omega), List.getElem?_eq_none (by omega)]
    simp
    omega

theorem latest_append (l : κ) (v : ν) : latest (entries ++ [(l, v)]) = record (latest entries) l v entries.length := by
  unfold latest
  rw [List.zipIdx_append, List.foldl_append]
  simp

theorem mem_keys_record {d : Dict κ (ν × ℕ)} {l : κ} {v : ν} :
    label ∈ (record d l v i).keys ↔ label = l ∨ label ∈ d.keys := by
  unfold record
  split
  · exact Dict.mem_keys_update
  · rename_i best hget
    split
    · exact Dict.mem_keys_update
    · refine (or_iff_right_of_imp fun heq => ?_).symm
      rw [heq, Dict.mem_keys_iff, hget]
      rfl

theorem get?_record_of_ne (d : Dict κ (ν × ℕ)) {l : κ} {v : ν} (h : label ≠ l) :
    (record d l v i).get? label = d.get? label := by
  unfold record
  split
  · exact Dict.get?_update_of_ne _ _ h
  · split
    · exact Dict.get?_update_of_ne _ _ h
    · rfl

omit [DecidableEq κ] in
theorem IsLatest.append {l : κ} {v : ν} (h : IsLatest entries label value i) (hle : label = l → v ≤ value) :
    IsLatest (entries ++ [(l, v)]) label value i := by
  refine ⟨getElem?_append_entry.2 (.inl h.1), fun j w hj => ?_⟩
  rcases getElem?_append_entry.1 hj with hold | ⟨rfl, heq, rfl⟩
  · exact h.2 j w hold
  · have hi := (List.getElem?_eq_some_iff.1 h.1).1
    exact ⟨hle heq, fun _ => Nat.le_of_lt hi⟩

omit [DecidableEq κ] in
theorem isLatest_append_self (h : ∀ (j : ℕ) (w : ν), entries[j]? = some (label, w) → w < value) :
    IsLatest (entries ++ [(label, value)]) label value entries.length := by
  refine ⟨getElem?_append_entry.2 (.inr ⟨rfl, rfl, rfl⟩), fun j w hj => ?_⟩
  rcases getElem?_append_entry.1 hj with hold | ⟨rfl, -, rfl⟩
  · have hlt := h j w hold
    exact ⟨le_of_lt hlt, fun heq => absurd hlt (heq ▸ lt_irrefl _)⟩
  · exact ⟨le_refl _, fun _ => Nat.le_refl _⟩

omit [DecidableEq κ] in
/-- **Entries of other labels** behind the entries. -/
theorem isLatest_append_iff {others : List (κ × ν)} (h : ∀ e ∈ others, e.1 ≠ label) :
    IsLatest (entries ++ others) label value i ↔ IsLatest entries label value i := by
  have hget : ∀ (j : ℕ) (w : ν), (entries ++ others)[j]? = some (label, w) ↔ entries[j]? = some (label, w) := by
    intro j w
    by_cases hj : j < entries.length
    · rw [List.getElem?_append_left hj]
    · rw [List.getElem?_append_right (by omega), List.getElem?_eq_none (l := entries) (by omega)]
      refine ⟨fun hother => ?_, fun hnone => nomatch hnone⟩
      exact absurd rfl (h _ (List.mem_of_getElem? hother))
  unfold IsLatest
  simp only [hget]

/-- What the dictionary has is the latest entry, and it has nothing only for labels without entries. -/
theorem latest_invariant (entries : List (κ × ν)) (label : κ) :
    (∀ best, (latest entries).get? label = some best → IsLatest entries label best.1 best.2) ∧
      ((latest entries).get? label = none → ∀ (j : ℕ) (w : ν), entries[j]? ≠ some (label, w)) := by
  induction entries using List.reverseRecOn with
  | nil =>
    refine ⟨fun best hbest => ?_, fun _ j w hj => ?_⟩
    · cases hbest
    · cases hj
  | append_singleton entries entry ih =>
    obtain ⟨hsome, hnone⟩ := ih
    obtain ⟨l, v⟩ := entry
    rw [latest_append]
    by_cases hl : label = l
    · subst hl
      unfold record
      cases hget : (latest entries).get? label with
      | none =>
        have hlatest : IsLatest (entries ++ [(label, v)]) label v entries.length :=
          isLatest_append_self fun j w hj => absurd hj (hnone hget j w)
        dsimp only
        rw [Dict.get?_update_self]
        refine ⟨fun best hbest => ?_, fun h => nomatch h⟩
        rw [← Option.some.inj hbest]
        exact hlatest
      | some best =>
        have hbest := hsome best hget
        dsimp only
        by_cases hlt : best.1 < v
        · rw [if_pos hlt, Dict.get?_update_self]
          refine ⟨fun best' hbest' => ?_, fun h => nomatch h⟩
          rw [← Option.some.inj hbest']
          exact isLatest_append_self fun j w hj => lt_of_le_of_lt (hbest.2 j w hj).1 hlt
        · rw [if_neg hlt, hget]
          refine ⟨fun best' hbest' => ?_, fun h => nomatch h⟩
          rw [← Option.some.inj hbest']
          exact hbest.append fun _ => not_lt.1 hlt
    · rw [get?_record_of_ne _ hl]
      refine ⟨fun best hbest => (hsome best hbest).append fun heq => absurd heq hl, fun h j w hj => ?_⟩
      rcases getElem?_append_entry.1 hj with hold | ⟨-, heq, -⟩
      · exact hnone h j w hold
      · exact hl heq

/-- **What the dictionary has for a label** is its latest entry. -/
theorem get?_latest : (latest entries).get? label = some (value, i) ↔ IsLatest entries label value i := by
  obtain ⟨hsome, hnone⟩ := latest_invariant entries label
  refine ⟨fun h => hsome (value, i) h, fun h => ?_⟩
  cases hget : (latest entries).get? label with
  | none => exact absurd h.1 (hnone hget i value)
  | some best =>
    obtain ⟨hvalue, hi⟩ := (hsome best hget).unique h
    rw [← hvalue, ← hi]

theorem exists_latest {j : ℕ} {w : ν} (h : entries[j]? = some (label, w)) :
    ∃ value i, IsLatest entries label value i := by
  cases hget : (latest entries).get? label with
  | none => exact absurd h ((latest_invariant entries label).2 hget j w)
  | some best => exact ⟨best.1, best.2, (latest_invariant entries label).1 best hget⟩

theorem mem_latestRows : i ∈ latestRows entries ↔ ∃ label value, IsLatest entries label value i := by
  unfold latestRows
  rw [List.mem_map]
  constructor
  · rintro ⟨⟨⟨label, value⟩, i⟩, hmem, rfl⟩
    rw [List.mem_filter, decide_eq_true_eq] at hmem
    refine ⟨label, value, List.mem_zipIdx_iff_getElem?.1 hmem.1, fun j w hj => ?_⟩
    exact hmem.2 ((label, w), j) (List.mem_zipIdx_iff_getElem?.2 hj) rfl
  · rintro ⟨label, value, hget, hlatest⟩
    refine ⟨((label, value), i), List.mem_filter.2 ⟨List.mem_zipIdx_iff_getElem?.2 hget, ?_⟩, rfl⟩
    rw [decide_eq_true_eq]
    rintro ⟨⟨l, w⟩, j⟩ hj rfl
    exact hlatest j w (List.mem_zipIdx_iff_getElem?.1 hj)

theorem latestRows_nodup (entries : List (κ × ν)) : (latestRows entries).Nodup := by
  have hsublist : (latestRows entries).Sublist (entries.zipIdx.map Prod.snd) := List.filter_sublist.map _
  rw [List.zipIdx_map_snd] at hsublist
  exact hsublist.nodup List.nodup_range'

/-- **Entries of other labels** have positions of their own. -/
theorem latestRows_append {others : List (κ × ν)} (h : ∀ e ∈ entries, ∀ e' ∈ others, e'.1 ≠ e.1) :
    ∃ rows, (latestRows (entries ++ others)).Perm (latestRows entries ++ rows) ∧ ∀ r ∈ rows, entries.length ≤ r := by
  have hsplit : ((latestRows (entries ++ others)).filter fun r => r < entries.length).Perm (latestRows entries) := by
    refine (List.perm_ext_iff_of_nodup ((latestRows_nodup _).filter _) (latestRows_nodup _)).2 fun r => ?_
    rw [List.mem_filter, decide_eq_true_eq, mem_latestRows, mem_latestRows]
    constructor
    · rintro ⟨⟨label, value, hlatest⟩, hr⟩
      have hentry := hlatest.1
      rw [List.getElem?_append_left hr] at hentry
      exact ⟨label, value, (isLatest_append_iff (h _ (List.mem_of_getElem? hentry))).1 hlatest⟩
    · rintro ⟨label, value, hlatest⟩
      exact ⟨⟨label, value, (isLatest_append_iff (h _ (List.mem_of_getElem? hlatest.1))).2 hlatest⟩,
        (List.getElem?_eq_some_iff.1 hlatest.1).1⟩
  refine ⟨(latestRows (entries ++ others)).filter fun r => !decide (r < entries.length), ?_, fun r hr => ?_⟩
  · exact (List.filter_append_perm _ _).symm.trans (hsplit.append_right _)
  · have hnot := (List.mem_filter.1 hr).2
    rw [Bool.not_eq_true', decide_eq_false_iff_not] at hnot
    omega

/-- **The positions in the dictionary** are those of the latest entries. -/
theorem latestRows_perm (entries : List (κ × ν)) :
    ((latest entries).items.map fun item => item.2.2).Perm (latestRows entries) := by
  refine (List.perm_ext_iff_of_nodup ?_ (latestRows_nodup entries)).2 fun i => ?_
  · refine List.Nodup.map_on ?_ (latest entries).items_nodup
    rintro ⟨label, value, i⟩ hitem ⟨label', value', i'⟩ hitem' heq
    have hlatest := get?_latest.1 (Dict.mem_items.1 hitem)
    have hlatest' := get?_latest.1 (Dict.mem_items.1 hitem')
    have hpair : (label, value) = (label', value') := by
      have hget' := hlatest'.1
      rw [← show i = i' from heq, hlatest.1] at hget'
      exact Option.some.inj hget'
    rw [Prod.mk.injEq] at hpair
    rw [hpair.1, hpair.2, show i = i' from heq]
  · rw [mem_latestRows, List.mem_map]
    constructor
    · rintro ⟨⟨label, value, i⟩, hitem, rfl⟩
      exact ⟨label, value, get?_latest.1 (Dict.mem_items.1 hitem)⟩
    · rintro ⟨label, value, hlatest⟩
      exact ⟨(label, value, i), Dict.mem_items.2 (get?_latest.2 hlatest), rfl⟩

omit [DecidableEq κ] in
/-- **Other names** for the labels and the values. -/
theorem isLatest_map_iff {κ' ν' : Type*} [LinearOrder ν'] {f : κ → κ'} {g : ν → ν'} (hf : Function.Injective f)
    (hg : ∀ a b, g a ≤ g b ↔ a ≤ b) :
    IsLatest (entries.map fun e => (f e.1, g e.2)) (f label) (g value) i ↔ IsLatest entries label value i := by
  have hinj : ∀ a b, g a = g b ↔ a = b := fun a b => by
    rw [le_antisymm_iff, hg, hg, ← le_antisymm_iff]
  have hget : ∀ (j : ℕ) (w : ν), (entries.map fun e => (f e.1, g e.2))[j]? = some (f label, g w) ↔
      entries[j]? = some (label, w) := by
    intro j w
    rw [List.getElem?_map, Option.map_eq_some_iff]
    constructor
    · rintro ⟨⟨l, v⟩, hj, heq⟩
      obtain ⟨hl, hv⟩ := Prod.mk.inj heq
      obtain rfl := hf hl
      obtain rfl := (hinj v w).1 hv
      exact hj
    · intro hj
      exact ⟨(label, w), hj, rfl⟩
  unfold IsLatest
  rw [hget]
  refine and_congr_right fun _ => ⟨fun h j w hj => ?_, fun h j w' hj => ?_⟩
  · obtain ⟨hle, hfirst⟩ := h j (g w) ((hget j w).2 hj)
    exact ⟨(hg w value).1 hle, fun heq => hfirst (congrArg g heq)⟩
  · have hj' := hj
    rw [List.getElem?_map, Option.map_eq_some_iff] at hj'
    obtain ⟨⟨l, w⟩, -, heq⟩ := hj'
    rw [Prod.mk.injEq] at heq
    obtain ⟨-, rfl⟩ := heq
    obtain ⟨hle, hfirst⟩ := h j w ((hget j w).1 hj)
    exact ⟨(hg w value).2 hle, fun heq => hfirst ((hinj w value).1 heq)⟩

end Opd.Lib

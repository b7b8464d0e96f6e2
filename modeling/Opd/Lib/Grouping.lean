import Mathlib.Algebra.BigOperators.Group.List.Basic
import Mathlib.Data.Finset.Card

/-!
# Values grouped by keys

Rows with a key and a value are grouped by the key. Groups can be named by other keys, if these are
equal for the same rows.

* `grouped_congr`: keys that make the same groups have the same values.
* `rank_inj`: the rank of a key among the keys names its group.
* `map_zip_congr`, `zipWith_congr_iff`: functions of the key and the value of each row.
-/

namespace Opd.Lib

variable {κ κ' α β : Type*}

section SameGroups

/-- **Keys that make the same groups**: they are equal for the same rows. -/
structure SameGroups (keys : List κ) (keys' : List κ') : Prop where
  length_eq : keys.length = keys'.length
  eq_iff : ∀ p ∈ keys.zip keys', ∀ q ∈ keys.zip keys', p.1 = q.1 ↔ p.2 = q.2

theorem sameGroups_map_iff {l : List α} {f : α → κ} {g : α → κ'} :
    SameGroups (l.map f) (l.map g) ↔ ∀ a ∈ l, ∀ b ∈ l, f a = f b ↔ g a = g b := by
  constructor
  · rintro ⟨-, heq⟩ a ha b hb
    rw [List.zip_map'] at heq
    exact heq _ (List.mem_map_of_mem ha) _ (List.mem_map_of_mem hb)
  · intro h
    refine ⟨by rw [List.length_map, List.length_map], ?_⟩
    rw [List.zip_map']
    intro p hp q hq
    obtain ⟨a, ha, rfl⟩ := List.mem_map.1 hp
    obtain ⟨b, hb, rfl⟩ := List.mem_map.1 hq
    exact h a ha b hb

theorem SameGroups.map_right {keys : List κ} {keys' : List κ'} (h : SameGroups keys keys') {f : κ' → β}
    (hf : ∀ k ∈ keys', ∀ l ∈ keys', f k = f l → k = l) : SameGroups keys (keys'.map f) where
  length_eq := by rw [List.length_map, h.length_eq]
  eq_iff := by
    rw [List.zip_map_right]
    intro p' hp' q' hq'
    obtain ⟨p, hp, rfl⟩ := List.mem_map.1 hp'
    obtain ⟨q, hq, rfl⟩ := List.mem_map.1 hq'
    have hpq := h.eq_iff p hp q hq
    exact ⟨fun heq => congrArg f (hpq.1 heq),
      fun heq => hpq.2 (hf p.2 (List.of_mem_zip hp).2 q.2 (List.of_mem_zip hq).2 heq)⟩

end SameGroups

section Grouped

variable [DecidableEq κ] [DecidableEq κ']

/-- The values of the rows with a key, in their order. -/
def grouped (keys : List κ) (vals : List α) (k : κ) : List α :=
  ((keys.zip vals).filter fun p => p.1 = k).map Prod.snd

theorem mem_grouped {keys : List κ} {vals : List α} {k : κ} {v : α} :
    v ∈ grouped keys vals k ↔ (k, v) ∈ keys.zip vals := by
  unfold grouped
  rw [List.mem_map]
  constructor
  · rintro ⟨p, hp, rfl⟩
    obtain ⟨hmem, hkey⟩ := List.mem_filter.1 hp
    rwa [← of_decide_eq_true hkey]
  · intro h
    exact ⟨(k, v), List.mem_filter.2 ⟨h, decide_eq_true rfl⟩, rfl⟩

theorem grouped_cons (key : κ) (keys : List κ) (val : α) (vals : List α) (k : κ) :
    grouped (key :: keys) (val :: vals) k = if key = k then val :: grouped keys vals k else grouped keys vals k := by
  unfold grouped
  rw [List.zip_cons_cons, List.filter_cons]
  by_cases h : key = k
  · rw [if_pos (decide_eq_true h), if_pos h, List.map_cons]
  · rw [if_neg (by simpa using h), if_neg h]

theorem grouped_zipWith (f : κ → α → β) (keys : List κ) (vals : List α) (k : κ) :
    grouped keys (List.zipWith f keys vals) k = (grouped keys vals k).map (f k) := by
  induction keys generalizing vals with
  | nil => rfl
  | cons key keys ih =>
    cases vals with
    | nil => rfl
    | cons val vals =>
      rw [List.zipWith_cons_cons, grouped_cons, grouped_cons, ih]
      by_cases h : key = k
      · rw [if_pos h, if_pos h, List.map_cons, h]
      · rw [if_neg h, if_neg h]

theorem grouped_map (f : α → β) (keys : List κ) (vals : List α) (k : κ) :
    grouped keys (vals.map f) k = (grouped keys vals k).map f := by
  unfold grouped
  rw [List.zip_map_right, List.filter_map, List.map_map, List.map_map]
  rfl

theorem grouped_map_map {ρ : Type*} (f : ρ → κ) (g : ρ → α) (l : List ρ) (k : κ) :
    grouped (l.map f) (l.map g) k = (l.filter fun row => f row = k).map g := by
  unfold grouped
  rw [List.zip_map', List.filter_map, List.map_map]
  rfl

theorem length_grouped {keys : List κ} {vals : List α} (h : keys.length = vals.length) (k : κ) :
    (grouped keys vals k).length = keys.count k := by
  induction keys generalizing vals with
  | nil => rfl
  | cons key keys ih =>
    cases vals with
    | nil => cases h
    | cons val vals =>
      have hrest := ih (Nat.succ.inj h)
      rw [grouped_cons, List.count_cons]
      by_cases hkey : key = k
      · rw [if_pos hkey, List.length_cons, hrest, if_pos (beq_iff_eq.2 hkey)]
      · rw [if_neg hkey, hrest, if_neg fun hbeq => hkey (beq_iff_eq.1 hbeq), Nat.add_zero]

/-- **The values of a group**, whatever it is named by. -/
theorem grouped_congr {keys : List κ} {keys' : List κ'} (h : SameGroups keys keys') {p : κ × κ'}
    (hp : p ∈ keys.zip keys') (vals : List α) : grouped keys vals p.1 = grouped keys' vals p.2 := by
  have heq := fun q hq => h.eq_iff q hq p hp
  have hlength := h.length_eq
  clear h hp
  induction keys generalizing keys' vals with
  | nil =>
    cases keys' with
    | nil => rfl
    | cons key' keys' => cases hlength
  | cons key keys ih =>
    cases keys' with
    | nil => cases hlength
    | cons key' keys' =>
      cases vals with
      | nil => rfl
      | cons val vals =>
        have hrest := ih vals (fun q hq => heq q (List.mem_cons_of_mem _ hq)) (Nat.succ.inj hlength)
        have hfirst := heq (key, key') List.mem_cons_self
        rw [grouped_cons, grouped_cons, hrest]
        by_cases hkey : key = p.1
        · rw [if_pos hkey, if_pos (hfirst.1 hkey)]
        · rw [if_neg hkey, if_neg fun hkey' => hkey (hfirst.2 hkey')]

end Grouped

theorem map_zip_congr {keys : List κ} {keys' : List κ'} (hlength : keys.length = keys'.length) {vals : List α}
    {f : κ → α → β} {g : κ' → α → β} (h : ∀ p ∈ keys.zip keys', ∀ v, f p.1 v = g p.2 v) :
    List.zipWith f keys vals = List.zipWith g keys' vals := by
  induction keys generalizing keys' vals with
  | nil =>
    cases keys' with
    | nil => rfl
    | cons key' keys' => cases hlength
  | cons key keys ih =>
    cases keys' with
    | nil => cases hlength
    | cons key' keys' =>
      cases vals with
      | nil => rfl
      | cons val vals =>
        rw [List.zipWith_cons_cons, List.zipWith_cons_cons, h (key, key') List.mem_cons_self val,
          ih (Nat.succ.inj hlength) fun p hp => h p (List.mem_cons_of_mem _ hp)]

theorem zipWith_congr_iff {keys : List κ} {vals : List α} {f g : κ → α → β} :
    List.zipWith f keys vals = List.zipWith g keys vals ↔ ∀ p ∈ keys.zip vals, f p.1 p.2 = g p.1 p.2 := by
  rw [← List.map_uncurry_zip_eq_zipWith, ← List.map_uncurry_zip_eq_zipWith, List.map_inj_left]
  exact Iff.rfl

theorem zipWith_map_zipWith {γ δ : Type*} (h : γ → β → δ) (m : α → γ) (f : κ → α → β) (keys : List κ)
    (vals : List α) :
    List.zipWith h (vals.map m) (List.zipWith f keys vals) = List.zipWith (fun k v => h (m v) (f k v)) keys vals := by
  induction keys generalizing vals with
  | nil => rw [List.zipWith_nil_left, List.zipWith_nil_right, List.zipWith_nil_left]
  | cons key keys ih =>
    cases vals with
    | nil => rfl
    | cons val vals => rw [List.map_cons, List.zipWith_cons_cons, List.zipWith_cons_cons, List.zipWith_cons_cons, ih]

/-! ## Ranks -/

section Rank

variable [LinearOrder κ]

/-- How many different keys are smaller. -/
def rank (keys : List κ) (k : κ) : ℕ := (keys.toFinset.filter (· < k)).card

theorem rank_lt {keys : List κ} {k l : κ} (hk : k ∈ keys) (h : k < l) : rank keys k < rank keys l := by
  refine Finset.card_lt_card ⟨?_, fun hsub => ?_⟩
  · intro m hm
    rw [Finset.mem_filter] at hm ⊢
    exact ⟨hm.1, hm.2.trans h⟩
  · have hmem := hsub (Finset.mem_filter.2 ⟨List.mem_toFinset.2 hk, h⟩)
    exact lt_irrefl k (Finset.mem_filter.1 hmem).2

/-- **The rank of a key** names it. -/
theorem rank_inj {keys : List κ} {k l : κ} (hk : k ∈ keys) (hl : l ∈ keys) (h : rank keys k = rank keys l) : k = l := by
  rcases lt_trichotomy k l with hlt | heq | hlt
  · exact absurd h (Nat.ne_of_lt (rank_lt hk hlt))
  · exact heq
  · exact absurd h.symm (Nat.ne_of_lt (rank_lt hl hlt))

end Rank

end Opd.Lib

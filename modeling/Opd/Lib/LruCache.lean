import Mathlib.Data.List.Perm.Subperm
import Opd.Lib.Dict

/-!
# Caches

A cache is a mapping that may forget other keys when a key is stored.

* `Cache`: the operations and what any cache promises of them.
* `lru`: the cache that forgets the least recently used keys.
* `Recent.lruSet`: it does not forget a key before as many others are used as there is room for.
-/

namespace Opd.Lib

/-- A cache: its operations, and what it promises. A read may change the order in which
keys are forgotten (`touch`), never what is stored. -/
structure Cache (κ τ : Type*) where
  Carrier : Type
  empty : Carrier
  get? : Carrier → κ → Option τ
  touch : Carrier → κ → Carrier
  set? : Carrier → κ → τ → Option Carrier
  erase : Carrier → κ → Carrier
  get?_empty : ∀ k, get? empty k = none
  get?_touch : ∀ c k k', get? (touch c k) k' = get? c k'
  get?_set_self : ∀ {c c' k v}, set? c k v = some c' → get? c' k = some v
  get?_of_set : ∀ {c c' k v k' w}, set? c k v = some c' → k' ≠ k → get? c' k' = some w → get? c k' = some w
  get?_erase_self : ∀ c k, get? (erase c k) k = none
  get?_erase_of_ne : ∀ {c k k'}, k' ≠ k → get? (erase c k) k' = get? c k'

namespace Dict

variable {κ τ : Type} [DecidableEq κ]

/-- The item becomes the newest one. -/
def moveToEnd (d : Dict κ τ) (k : κ) (v : τ) : Dict κ τ := (d.clear [k]).update k fun _ => v

theorem get?_moveToEnd_self (d : Dict κ τ) (k : κ) (v : τ) : (d.moveToEnd k v).get? k = some v :=
  get?_update_self ..

theorem get?_moveToEnd_of_ne (d : Dict κ τ) {k k' : κ} (v : τ) (h : k' ≠ k) :
    (d.moveToEnd k v).get? k' = d.get? k' := by
  have hk : k' ∉ [k] := by simpa using h
  unfold moveToEnd
  rw [get?_update_of_ne _ _ h, get?_clear_of_not_mem _ hk]

/-- The dictionary without its `n` oldest items. -/
def dropOldest (d : Dict κ τ) (n : ℕ) : Dict κ τ :=
  ⟨d.items.drop n, d.nodup.sublist ((List.drop_sublist n _).map _)⟩

theorem get?_of_dropOldest {d : Dict κ τ} {n : ℕ} {k : κ} {v : τ} (h : (d.dropOldest n).get? k = some v) :
    d.get? k = some v := by
  rw [← mem_items] at h ⊢
  exact List.mem_of_mem_drop h

/-- A read of a key makes it the newest one. -/
def lruTouch (d : Dict κ τ) (k : κ) : Dict κ τ :=
  match d.get? k with
  | some v => d.moveToEnd k v
  | none => d

/-- A key is stored as the newest one. For a new key the oldest ones make room; a cache of
size 0 refuses every value. -/
def lruSet? (maxsize : ℕ) (d : Dict κ τ) (k : κ) (v : τ) : Option (Dict κ τ) :=
  if maxsize < 1 then none
  else if k ∈ d.keys then some (d.moveToEnd k v)
  else some ((d.dropOldest (d.items.length + 1 - maxsize)).moveToEnd k v)

theorem get?_lruTouch (d : Dict κ τ) (k k' : κ) : (d.lruTouch k).get? k' = d.get? k' := by
  unfold lruTouch
  split
  · rename_i v hv
    by_cases hk : k' = k
    · rw [hk, get?_moveToEnd_self, hv]
    · exact get?_moveToEnd_of_ne d v hk
  · rfl

theorem lruSet?_eq_some {maxsize : ℕ} {d d' : Dict κ τ} {k : κ} {v : τ} (h : lruSet? maxsize d k v = some d') :
    ∃ n, d' = (d.dropOldest n).moveToEnd k v := by
  unfold lruSet? at h
  split at h
  · cases h
  · split at h
    · exact ⟨0, (Option.some.inj h).symm⟩
    · exact ⟨_, (Option.some.inj h).symm⟩

theorem get?_lruSet_self {maxsize : ℕ} {d d' : Dict κ τ} {k : κ} {v : τ}
    (h : lruSet? maxsize d k v = some d') : d'.get? k = some v := by
  obtain ⟨n, rfl⟩ := lruSet?_eq_some h
  exact get?_moveToEnd_self _ _ _

theorem get?_of_lruSet {maxsize : ℕ} {d d' : Dict κ τ} {k k' : κ} {v w : τ}
    (h : lruSet? maxsize d k v = some d') (hk : k' ≠ k) (hw : d'.get? k' = some w) : d.get? k' = some w := by
  obtain ⟨n, rfl⟩ := lruSet?_eq_some h
  rw [get?_moveToEnd_of_ne _ _ hk] at hw
  exact get?_of_dropOldest hw

/-! ### Recently used keys -/

theorem items_moveToEnd (d : Dict κ τ) (k : κ) (v : τ) : (d.moveToEnd k v).items = (d.clear [k]).items ++ [(k, v)] :=
  items_update_of_not_mem _ (by simp [mem_keys_clear])

/-- The key is stored, and the keys that are newer are among the given ones. -/
def Recent (d : Dict κ τ) (k : κ) (v : τ) (newer : List κ) : Prop :=
  ∃ before after, d.items = before ++ (k, v) :: after ∧ ∀ item ∈ after, item.1 ∈ newer

variable {d d' : Dict κ τ} {k k' : κ} {v w : τ} {newer : List κ}

theorem Recent.get?_eq (h : d.Recent k v newer) : d.get? k = some v := by
  obtain ⟨before, after, hitems, -⟩ := h
  exact mem_items.1 (hitems ▸ List.mem_append_right _ List.mem_cons_self)

theorem recent_moveToEnd (d : Dict κ τ) (k : κ) (v : τ) (newer : List κ) : (d.moveToEnd k v).Recent k v newer :=
  ⟨_, [], items_moveToEnd d k v, nofun⟩

theorem Recent.clear (h : d.Recent k v newer) (hk : k ≠ k') : (d.clear [k']).Recent k v newer := by
  obtain ⟨before, after, hitems, hnewer⟩ := h
  refine ⟨before.filter fun item => item.1 ∉ [k'], after.filter fun item => item.1 ∉ [k'], ?_,
    fun item hitem => hnewer item (List.mem_of_mem_filter hitem)⟩
  show d.items.filter _ = _
  rw [hitems, List.filter_append, List.filter_cons_of_pos (by simpa using hk)]

theorem Recent.moveToEnd (h : d.Recent k v newer) (hk : k ≠ k') (hmem : k' ∈ newer) (w : τ) :
    (d.moveToEnd k' w).Recent k v newer := by
  obtain ⟨before, after, hitems, hnewer⟩ := h.clear hk
  refine ⟨before, after ++ [(k', w)], by rw [items_moveToEnd, hitems, List.append_assoc, List.cons_append], ?_⟩
  intro item hitem
  rcases List.mem_append.1 hitem with hitem | hitem
  · exact hnewer item hitem
  · rw [List.mem_singleton.1 hitem]
    exact hmem

theorem recent_lruTouch (h : d.get? k = some v) (newer : List κ) : (d.lruTouch k).Recent k v newer := by
  unfold lruTouch
  rw [h]
  exact recent_moveToEnd d k v newer

theorem Recent.lruTouch (h : d.Recent k v newer) (hmem : k' = k ∨ k' ∈ newer) : (d.lruTouch k').Recent k v newer := by
  by_cases hk : k' = k
  · rw [hk]
    exact recent_lruTouch h.get?_eq newer
  · unfold Dict.lruTouch
    split
    · exact h.moveToEnd (Ne.symm hk) (hmem.resolve_left hk) _
    · exact h

/-- **A recent key stays** when another one is stored: with all newer ones there is room for it. -/
theorem Recent.lruSet (h : d.Recent k v newer) (hk : k ≠ k') (hmem : k' ∈ newer) {maxsize : ℕ}
    (hlength : newer.length < maxsize) (hset : lruSet? maxsize d k' w = some d') : d'.Recent k v newer := by
  unfold lruSet? at hset
  split at hset
  · cases hset
  · split at hset
    · cases hset
      exact h.moveToEnd hk hmem w
    · rename_i hnew
      cases hset
      refine Recent.moveToEnd ?_ hk hmem w
      obtain ⟨before, after, hitems, hnewer⟩ := h
      have hkeys : d.keys = before.map Prod.fst ++ k :: after.map Prod.fst := by simp [keys, hitems]
      have hnodup : (k' :: after.map Prod.fst).Nodup := by
        refine List.nodup_cons.2 ⟨fun hmem => hnew ?_, ?_⟩
        · rw [hkeys]
          exact List.mem_append_right _ (List.mem_cons_of_mem _ hmem)
        · exact ((show d.keys.Nodup from d.nodup).sublist (hkeys ▸ List.sublist_append_right _ _)).of_cons
      have hafter : after.length + 1 ≤ newer.length := by
        have hsub : (k' :: after.map Prod.fst).Subperm newer := by
          refine List.subperm_of_subset hnodup (List.cons_subset.2 ⟨hmem, fun key hkey => ?_⟩)
          obtain ⟨item, hitem, rfl⟩ := List.mem_map.1 hkey
          exact hnewer item hitem
        simpa using hsub.length_le
      refine ⟨before.drop (d.items.length + 1 - maxsize), after, ?_, hnewer⟩
      show d.items.drop _ = _
      rw [hitems, List.drop_append_of_le_length]
      rw [List.length_append, List.length_cons]
      omega

end Dict

/-- **The least recently used cache** with room for `maxsize` keys, oldest first. -/
def lru (κ τ : Type) [DecidableEq κ] (maxsize : ℕ) : Cache κ τ where
  Carrier := Dict κ τ
  empty := .empty
  get? := Dict.get?
  touch := Dict.lruTouch
  set? := Dict.lruSet? maxsize
  erase := fun d k => d.clear [k]
  get?_empty := Dict.get?_empty
  get?_touch := Dict.get?_lruTouch
  get?_set_self := Dict.get?_lruSet_self
  get?_of_set := Dict.get?_of_lruSet
  get?_erase_self := fun d k => by rw [Dict.get?_clear, if_pos (List.mem_singleton_self k)]
  get?_erase_of_ne := fun h => Dict.get?_clear_of_not_mem _ (by simpa using h)

end Opd.Lib

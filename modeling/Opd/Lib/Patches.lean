import Mathlib.Data.List.Rotate
import Opd.Lib.Dict

/-!
# Patched buffers

Entries of a buffer are replaced one by one, at places that may count from the end. The replacements
are kept in a dictionary, whose items are in the order of their first insertion.

* `keys_update`: a new key is the last one.
* `patch_frame`, `patch_last`: the last replacement at a place counts.
* `exists_patch_roll`: a buffer that is rolled by one and patched.
-/

namespace Opd.Lib

variable {α : Type}

/-! ## Places -/

/-- The place of an index in a buffer: one that is negative counts from the end. -/
def place (n : ℕ) (i : ℤ) : Option ℕ :=
  if 0 ≤ i ∧ i < n then some i.toNat
  else if -n ≤ i ∧ i < 0 then some (i + n).toNat
  else none

/-- `l[i]` -/
def entryAt (l : List α) (i : ℤ) : Option α := (place l.length i).bind fun k => l[k]?

/-- `l[i] = a` -/
def setAt (l : List α) (i : ℤ) (a : α) : Option (List α) := (place l.length i).map fun k => l.set k a

/-- `l[i] = a` for each item. -/
def patch (l : List α) : List (ℤ × α) → Option (List α)
  | [] => some l
  | (i, a) :: items => do
    let l ← setAt l i a
    patch l items

theorem place_eq_some {n k : ℕ} {i : ℤ} (h : place n i = some k) : k < n ∧ (i = k ∨ i = (k : ℤ) - n) := by
  unfold place at h
  split at h
  · have := Option.some.inj h
    omega
  · split at h
    · have := Option.some.inj h
      omega
    · cases h

theorem exists_place {n : ℕ} {i : ℤ} (hn : 0 < n) (h : -1 ≤ i ∧ i < n) : ∃ k, place n i = some k := by
  unfold place
  by_cases hi : 0 ≤ i
  · exact ⟨_, if_pos ⟨hi, h.2⟩⟩
  · exact ⟨_, by rw [if_neg (by omega), if_pos (by omega)]⟩

theorem exists_entryAt {l : List α} {i : ℤ} (hl : 0 < l.length) (h : -1 ≤ i ∧ i < l.length) :
    ∃ a, entryAt l i = some a := by
  obtain ⟨k, hk⟩ := exists_place hl h
  have hlt := (place_eq_some hk).1
  exact ⟨l[k], by rw [entryAt, hk, Option.bind_some, List.getElem?_eq_getElem hlt]⟩

/-! ## Patches -/

section Patch

variable {l out : List α} {items : List (ℤ × α)}

theorem patch_append (l : List α) (items items' : List (ℤ × α)) :
    patch l (items ++ items') = (patch l items).bind fun l => patch l items' := by
  induction items generalizing l with
  | nil => rfl
  | cons item items ih =>
    show (setAt l item.1 item.2).bind (fun l => patch l (items ++ items')) = _
    rw [funext fun l => ih l]
    exact (Option.bind_assoc _ _ _).symm

theorem exists_patch (h : ∀ item ∈ items, ∃ k, place l.length item.1 = some k) :
    ∃ out, patch l items = some out ∧ out.length = l.length := by
  induction items generalizing l with
  | nil => exact ⟨l, rfl, rfl⟩
  | cons item items ih =>
    obtain ⟨k, hk⟩ := h item List.mem_cons_self
    have hlength : (l.set k item.2).length = l.length := List.length_set
    obtain ⟨out, hout, hsame⟩ := @ih (l.set k item.2) (by
      intro item' hitem'
      rw [hlength]
      exact h item' (List.mem_cons_of_mem _ hitem'))
    refine ⟨out, ?_, hsame.trans hlength⟩
    show (setAt l item.1 item.2).bind (fun l => patch l items) = some out
    rw [setAt, hk, Option.map_some, Option.bind_some, hout]

/-- **Other entries** are left. -/
theorem patch_frame (h : patch l items = some out) {k : ℕ} (hk : ∀ item ∈ items, place l.length item.1 ≠ some k) :
    out.length = l.length ∧ out[k]? = l[k]? := by
  induction items generalizing l with
  | nil =>
    obtain rfl := Option.some.inj h
    exact ⟨rfl, rfl⟩
  | cons item items ih =>
    obtain ⟨next, hnext, hrest⟩ := Option.bind_eq_some_iff.1 h
    obtain ⟨j, hj, rfl⟩ := Option.map_eq_some_iff.1 hnext
    have hlength : (l.set j item.2).length = l.length := List.length_set
    obtain ⟨hout, hentry⟩ := ih hrest (by
      intro item' hitem'
      rw [hlength]
      exact hk item' (List.mem_cons_of_mem _ hitem'))
    refine ⟨hout.trans hlength, ?_⟩
    rw [hentry, List.getElem?_set_ne]
    rintro rfl
    exact hk item List.mem_cons_self hj

/-- **The last replacement** at a place counts. -/
theorem patch_last {before after : List (ℤ × α)} {item : ℤ × α} {k : ℕ}
    (h : patch l (before ++ item :: after) = some out) (hitem : place l.length item.1 = some k)
    (hafter : ∀ item' ∈ after, place l.length item'.1 ≠ some k) (hbefore : ∀ item' ∈ before, ∃ j, place l.length item'.1 = some j) :
    out[k]? = some item.2 := by
  rw [patch_append] at h
  obtain ⟨middle, hmiddle, h⟩ := Option.bind_eq_some_iff.1 h
  obtain ⟨middle', hmiddle', hlength⟩ := exists_patch hbefore
  rw [hmiddle, Option.some.injEq] at hmiddle'
  subst hmiddle'
  obtain ⟨next, hnext, hrest⟩ := Option.bind_eq_some_iff.1 h
  rw [setAt, hlength, hitem, Option.map_some, Option.some.injEq] at hnext
  subst hnext
  have hsame : (middle.set k item.2).length = l.length := by rw [List.length_set, hlength]
  rw [(patch_frame hrest (by rwa [hsame])).2, List.getElem?_set_self]
  rw [hlength]
  exact (place_eq_some hitem).1

end Patch

/-! ## Dictionaries of patches -/

/-- **A new key** is the last one. -/
theorem Dict.keys_update {κ τ : Type*} [DecidableEq κ] (d : Dict κ τ) (k : κ) (f : Option τ → τ) :
    (d.update k f).keys = if k ∈ d.keys then d.keys else d.keys ++ [k] := by
  by_cases hk : k ∈ d.keys
  · rw [if_pos hk]
    have hsame : ∀ items : List (κ × τ), k ∈ items.map Prod.fst →
        (Dict.updateItems k f items).map Prod.fst = items.map Prod.fst := by
      intro items
      induction items with
      | nil => exact fun h => absurd h List.not_mem_nil
      | cons item items ih =>
        intro h
        by_cases hitem : item.1 = k
        · rw [Dict.updateItems, if_pos hitem, List.map_cons, List.map_cons, hitem]
        · rw [Dict.updateItems, if_neg hitem, List.map_cons, List.map_cons,
            ih ((List.mem_cons.1 h).resolve_left fun heq => hitem heq.symm)]
    exact hsame d.items hk
  · rw [if_neg hk, Dict.keys, Dict.items_update_of_not_mem f hk, List.map_append]
    rfl

/-- The patches of a buffer: they have places, and the place before the first, which is the last one, is
patched before all others. -/
structure IsPatch (d : Dict ℤ α) (n : ℕ) : Prop where
  range : ∀ k ∈ d.keys, -1 ≤ k ∧ k < n
  first : -1 ∉ d.keys.tail

theorem exists_patch_roll {d : Dict ℤ α} {l : List α} (hd : IsPatch d l.length) (hl : d.keys ≠ [] → 0 < l.length) :
    ∃ out, patch (l.rotate 1) d.items = some out ∧ out.length = l.length ∧
      ∀ (k : ℕ) (a : α), (d.get? k).or l[k + 1]? = some a → out[k]? = some a := by
  have hlength : (l.rotate 1).length = l.length := List.length_rotate l 1
  have hplaces : ∀ item ∈ d.items, ∃ k, place (l.rotate 1).length item.1 = some k := by
    intro item hitem
    have hkey : item.1 ∈ d.keys := List.mem_map_of_mem hitem
    rw [hlength]
    exact exists_place (hl (List.ne_nil_of_mem hkey)) (hd.range item.1 hkey)
  obtain ⟨out, hout, hsame⟩ := exists_patch hplaces
  refine ⟨out, hout, hsame.trans hlength, fun k a hk => ?_⟩
  cases hget : d.get? (k : ℤ) with
  | some b =>
    rw [hget, Option.some_or, Option.some.injEq] at hk
    subst hk
    -- the patch of the place, and those behind it
    have hmem := Dict.mem_items.2 hget
    obtain ⟨before, after, hitems⟩ := List.append_of_mem hmem
    have hlt : (k : ℤ) < l.length := (hd.range _ (List.mem_map_of_mem hmem)).2
    have hkeys : d.keys = before.map Prod.fst ++ (k : ℤ) :: after.map Prod.fst := by
      rw [Dict.keys, hitems, List.map_append, List.map_cons]
    have hnodup : (k : ℤ) ∉ after.map Prod.fst := by
      have hall : d.keys.Nodup := d.nodup
      rw [hkeys, List.nodup_append, List.nodup_cons] at hall
      exact hall.2.1.1
    rw [hitems] at hout hplaces
    refine patch_last hout ?_ (fun item hitem hplace => ?_) fun item hitem => hplaces item (List.mem_append_left _ hitem)
    · rw [hlength, place, if_pos ⟨by omega, hlt⟩, Int.toNat_natCast]
    · have hkey : item.1 ∈ after.map Prod.fst := List.mem_map_of_mem hitem
      have hrange := hd.range item.1 (by
        rw [hkeys]
        exact List.mem_append_right _ (List.mem_cons_of_mem _ hkey))
      rw [hlength] at hplace
      obtain ⟨-, hsameKey | hback⟩ := place_eq_some hplace
      · exact hnodup (hsameKey ▸ hkey)
      · have hminus : item.1 = -1 := by omega
        apply hd.first
        rw [hkeys, ← hminus]
        cases before with
        | nil => exact hkey
        | cons _ before => exact List.mem_append_right _ (List.mem_cons_of_mem _ hkey)
  | none =>
    rw [hget, Option.none_or] at hk
    have hlt : k + 1 < l.length := (List.getElem?_eq_some_iff.1 hk).1
    rw [(patch_frame hout fun item hitem hplace => ?_).2, List.getElem?_rotate (by omega), Nat.mod_eq_of_lt hlt, hk]
    have hkey : item.1 ∈ d.keys := List.mem_map_of_mem hitem
    have hrange := hd.range item.1 hkey
    rw [hlength] at hplace
    obtain ⟨-, hsameKey | hback⟩ := place_eq_some hplace
    · exact Dict.get?_eq_none.1 hget (hsameKey ▸ hkey)
    · omega

theorem isPatch_empty (n : ℕ) : IsPatch (Dict.empty : Dict ℤ α) n where
  range := fun _ hk => absurd hk List.not_mem_nil
  first := List.not_mem_nil

/-- One more patch. The place before the first is only patched while no other has been. -/
theorem IsPatch.update {d : Dict ℤ α} {n n' : ℕ} {k : ℤ} (hd : IsPatch d n) (hn : n ≤ n') (hk : -1 ≤ k ∧ k < n')
    (hfirst : k = -1 → n = 0) (f : Option α → α) : IsPatch (d.update k f) n' where
  range := by
    intro k' hk'
    rcases Dict.mem_keys_update.1 hk' with rfl | hold
    · exact hk
    · have := hd.range k' hold
      omega
  first := by
    rw [Dict.keys_update]
    by_cases hmem : k ∈ d.keys
    · rw [if_pos hmem]
      exact hd.first
    · rw [if_neg hmem]
      intro htail
      cases hkeys : d.keys with
      | nil =>
        rw [hkeys] at htail
        exact absurd htail List.not_mem_nil
      | cons k' keys =>
        have hold := hd.first
        rw [hkeys] at htail hold
        rcases List.mem_append.1 htail with hin | hnew
        · exact hold hin
        · -- no other key than the new one has been below the first place
          have hminus := List.mem_singleton.1 hnew
          have hrange := hd.range k' (by rw [hkeys]; exact List.mem_cons_self)
          have hzero := hfirst hminus.symm
          apply hmem
          rw [hkeys, show k' = k by omega]
          exact List.mem_cons_self

end Opd.Lib

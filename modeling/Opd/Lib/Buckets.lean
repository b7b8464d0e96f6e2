import Mathlib.Algebra.GroupWithZero.Nat
import Opd.Lib.Dict

/-!
# Buckets

Values are collected in buckets, a list for each label, and the buckets are stored under names. Two buckets with one name
overwrite each other, and then values are lost.

* `perm_buckets`: the buckets have all values.
* `size_store_eq_iff`: nothing is lost exactly when the names are distinct.
* `columns_iff`: the buckets of dictionaries are columns exactly when all have the same keys.
-/

namespace Opd.Lib

variable {κ σ : Type*} [DecidableEq κ]

def buckets (entries : List (κ × σ)) : Dict κ (List σ) :=
  Dict.empty.merge (fun old value => old.getD [] ++ [value]) entries

/-- The buckets under their names: the last one of a name stays. -/
def store (items : List (κ × List σ)) : Dict κ (List σ) := Dict.empty.merge (fun _ bucket => bucket) items

def Dict.contents (d : Dict κ (List σ)) : List σ := d.items.flatMap Prod.snd

/-! ## Collecting -/

theorem perm_updateItems (k : κ) (value : σ) (items : List (κ × List σ)) :
    ((Dict.updateItems k (fun old => old.getD [] ++ [value]) items).flatMap Prod.snd).Perm
      (items.flatMap Prod.snd ++ [value]) := by
  induction items with
  | nil => exact List.Perm.refl _
  | cons item items ih =>
    unfold Dict.updateItems
    by_cases hkey : item.1 = k
    · rw [if_pos hkey, List.flatMap_cons, List.flatMap_cons]
      show ((item.2 ++ [value]) ++ items.flatMap Prod.snd).Perm _
      rw [List.append_assoc, List.append_assoc]
      exact (List.perm_append_comm).append_left item.2
    · rw [if_neg hkey, List.flatMap_cons, List.flatMap_cons, List.append_assoc]
      exact ih.append_left item.2

theorem perm_merge_append (d : Dict κ (List σ)) (entries : List (κ × σ)) :
    (d.merge (fun old value => old.getD [] ++ [value]) entries).contents.Perm (d.contents ++ entries.map Prod.snd) := by
  induction entries generalizing d with
  | nil =>
    rw [List.map_nil, List.append_nil]
    exact List.Perm.refl _
  | cons entry entries ih =>
    refine (ih _).trans ?_
    rw [List.map_cons, ← List.singleton_append, ← List.append_assoc]
    exact (perm_updateItems entry.1 entry.2 d.items).append_right _

theorem perm_buckets (entries : List (κ × σ)) : (buckets entries).contents.Perm (entries.map Prod.snd) :=
  perm_merge_append .empty entries

theorem getD_merge_append (d : Dict κ (List σ)) (entries : List (κ × σ)) (k : κ) :
    ((d.merge (fun old value => old.getD [] ++ [value]) entries).get? k).getD [] =
      (d.get? k).getD [] ++ (entries.filter fun entry => entry.1 = k).map Prod.snd := by
  induction entries generalizing d with
  | nil => exact (List.append_nil _).symm
  | cons entry entries ih =>
    refine (ih _).trans ?_
    rw [Dict.get?_update]
    by_cases hkey : entry.1 = k
    · rw [if_pos hkey.symm, Option.getD_some, List.filter_cons_of_pos (by simpa using hkey), List.map_cons, hkey,
        List.append_assoc, List.singleton_append]
    · rw [if_neg (Ne.symm hkey), List.filter_cons_of_neg (by simpa using hkey)]

theorem getD_buckets (entries : List (κ × σ)) (k : κ) :
    ((buckets entries).get? k).getD [] = (entries.filter fun entry => entry.1 = k).map Prod.snd :=
  getD_merge_append .empty entries k

theorem mem_keys_merge {τ : Type*} {f : Option τ → σ → τ} {d : Dict κ τ} {entries : List (κ × σ)} {k : κ} :
    k ∈ (d.merge f entries).keys ↔ k ∈ d.keys ∨ k ∈ entries.map Prod.fst := by
  induction entries generalizing d with
  | nil => exact (or_iff_left List.not_mem_nil).symm
  | cons entry entries ih =>
    refine ih.trans ?_
    rw [Dict.mem_keys_update, List.map_cons, List.mem_cons, or_assoc, or_left_comm]

theorem mem_keys_buckets {entries : List (κ × σ)} {k : κ} : k ∈ (buckets entries).keys ↔ k ∈ entries.map Prod.fst :=
  mem_keys_merge.trans (or_iff_right List.not_mem_nil)

theorem ne_nil_of_mem_buckets {entries : List (κ × σ)} {item : κ × List σ} (h : item ∈ (buckets entries).items) :
    item.2 ≠ [] := by
  have hget : (buckets entries).get? item.1 = some item.2 := Dict.mem_items.1 h
  have hbucket := getD_buckets entries item.1
  obtain ⟨entry, hentry, hkey⟩ := List.mem_map.1 (mem_keys_buckets.1 (Dict.mem_keys.2 ⟨item.2, h⟩))
  rw [hget, Option.getD_some] at hbucket
  rw [hbucket]
  refine List.ne_nil_of_mem (List.mem_map.2 ⟨entry, List.mem_filter.2 ⟨hentry, ?_⟩, rfl⟩)
  exact decide_eq_true hkey

/-! ## Storing -/

theorem length_update (k : κ) (bucket : List σ) (items : List (κ × List σ)) :
    ((Dict.updateItems k (fun _ => bucket) items).flatMap Prod.snd).length +
        (((items.find? fun item => item.1 = k).map Prod.snd).getD []).length =
      (items.flatMap Prod.snd).length + bucket.length := by
  induction items with
  | nil => simp [Dict.updateItems]
  | cons item items ih =>
    unfold Dict.updateItems
    by_cases hkey : item.1 = k
    · rw [if_pos hkey, List.find?_cons_of_pos (by simpa using hkey), List.flatMap_cons, List.flatMap_cons,
        List.length_append, List.length_append]
      show bucket.length + _ + item.2.length = _
      omega
    · rw [if_neg hkey, List.find?_cons_of_neg (by simpa using hkey), List.flatMap_cons, List.flatMap_cons,
        List.length_append, List.length_append, Nat.add_assoc, ih, Nat.add_assoc]

theorem length_merge_le (d : Dict κ (List σ)) (items : List (κ × List σ)) :
    (d.merge (fun _ bucket => bucket) items).contents.length ≤ d.contents.length + (items.flatMap Prod.snd).length := by
  induction items generalizing d with
  | nil => exact Nat.le_refl _
  | cons item items ih =>
    refine (ih _).trans ?_
    have hupdate := length_update item.1 item.2 d.items
    rw [List.flatMap_cons, List.length_append]
    show ((Dict.updateItems item.1 (fun _ => item.2) d.items).flatMap Prod.snd).length + _ ≤
      (d.items.flatMap Prod.snd).length + _
    omega

variable {items : List (κ × List σ)}

theorem nodup_of_length_merge {d : Dict κ (List σ)} (hd : ∀ item ∈ d.items, item.2 ≠ [])
    (hitems : ∀ item ∈ items, item.2 ≠ [])
    (h : (d.merge (fun _ bucket => bucket) items).contents.length = d.contents.length + (items.flatMap Prod.snd).length) :
    (d.keys ++ items.map Prod.fst).Nodup := by
  induction items generalizing d with
  | nil =>
    rw [List.map_nil, List.append_nil]
    exact d.nodup
  | cons item items ih =>
    have hle := length_merge_le (d.update item.1 fun _ => item.2) items
    have hupdate := length_update item.1 item.2 d.items
    have hlength : ((d.update item.1 fun _ => item.2).merge (fun _ bucket => bucket) items).contents.length =
        d.contents.length + (item.2.length + (items.flatMap Prod.snd).length) := by
      rw [← List.length_append, ← List.flatMap_cons]
      exact h
    have hcontents : (d.update item.1 fun _ => item.2).contents.length + ((d.get? item.1).getD []).length =
        d.contents.length + item.2.length := hupdate
    -- the old bucket has nothing, so that there is none
    have hnone : item.1 ∉ d.keys := by
      intro hmem
      obtain ⟨old, hold⟩ := Dict.mem_keys.1 hmem
      have hpos := List.length_pos_iff.2 (hd _ hold)
      rw [Dict.mem_items.1 hold, Option.getD_some] at hcontents
      dsimp only at hpos
      omega
    have hkeys : (d.update item.1 fun _ => item.2).items = d.items ++ [(item.1, item.2)] :=
      Dict.items_update_of_not_mem _ hnone
    have hget : d.get? item.1 = none := Dict.get?_eq_none.2 hnone
    rw [hget, Option.getD_none, List.length_nil, Nat.add_zero] at hcontents
    have hrest := @ih (d.update item.1 fun _ => item.2) (fun item' hitem' => by
      rw [hkeys, List.mem_append, List.mem_singleton] at hitem'
      rcases hitem' with hitem' | rfl
      · exact hd item' hitem'
      · exact hitems item List.mem_cons_self) (fun item' hitem' => hitems item' (List.mem_cons_of_mem _ hitem'))
      (by rw [hlength, hcontents, Nat.add_assoc])
    rw [Dict.keys, hkeys, List.map_append, List.map_singleton, List.append_assoc, List.singleton_append] at hrest
    exact hrest

theorem items_store (h : (items.map Prod.fst).Nodup) : (store items).items = items := by
  have hnew := @Dict.merge_new κ (List σ) _ (List σ) (fun _ bucket => bucket) .empty items h
  refine hnew.trans ?_
  show [] ++ (items.map fun item : κ × List σ => (item.1, item.2)) = items
  rw [List.nil_append, List.map_id'']
  exact fun _ => rfl

theorem contents_store (h : (items.map Prod.fst).Nodup) : (store items).contents = items.flatMap Prod.snd := by
  unfold Dict.contents
  rw [items_store h]

/-- **Nothing is lost** exactly when the names are distinct. -/
theorem size_store_eq_iff (hitems : ∀ item ∈ items, item.2 ≠ []) :
    (store items).contents.length = (items.flatMap Prod.snd).length ↔ (items.map Prod.fst).Nodup := by
  constructor
  · intro h
    exact nodup_of_length_merge (fun _ h => absurd h List.not_mem_nil) hitems (h.trans (Nat.zero_add _).symm)
  · intro h
    rw [contents_store h]

/-! ## Buckets of dictionaries -/

theorem map_filter_items {items : List (κ × σ)} (h : (items.map Prod.fst).Nodup) (k : κ) :
    (items.filter fun item => item.1 = k).map Prod.snd = ((items.find? fun item => item.1 = k).map Prod.snd).toList := by
  induction items with
  | nil => rfl
  | cons item items ih =>
    rw [List.map_cons, List.nodup_cons] at h
    by_cases hkey : item.1 = k
    · have hrest : items.filter (fun item => item.1 = k) = [] := by
        apply List.filter_eq_nil_iff.2
        intro other hother heq
        have hk : other.1 = k := of_decide_eq_true heq
        exact h.1 (List.mem_map.2 ⟨other, hother, hk.trans hkey.symm⟩)
      rw [List.filter_cons_of_pos (by simpa using hkey), List.find?_cons_of_pos (by simpa using hkey), hrest]
      rfl
    · rw [List.filter_cons_of_neg (by simpa using hkey), List.find?_cons_of_neg (by simpa using hkey)]
      exact ih h.2

/-- **The bucket of a key**: the values that the dictionaries have for it. -/
theorem getD_buckets_flatMap {ρ : Type*} (rows : List ρ) (f : ρ → Dict κ σ) (k : κ) :
    ((buckets (rows.flatMap fun row => (f row).items)).get? k).getD [] = rows.filterMap fun row => (f row).get? k := by
  rw [getD_buckets]
  induction rows with
  | nil => rfl
  | cons row rows ih =>
    rw [List.flatMap_cons, List.filter_append, List.map_append, ih, map_filter_items (f row).nodup, List.filterMap_cons]
    unfold Dict.get?
    cases ((f row).items.find? fun item => item.1 = k).map Prod.snd <;> rfl

theorem mem_keys_buckets_flatMap {ρ : Type*} {rows : List ρ} {f : ρ → Dict κ σ} {k : κ} :
    k ∈ (buckets (rows.flatMap fun row => (f row).items)).keys ↔ ∃ row ∈ rows, k ∈ (f row).keys := by
  rw [mem_keys_buckets, List.map_flatMap, List.mem_flatMap]
  rfl

/-- **The buckets are columns** exactly when all dictionaries have the same keys. -/
theorem columns_iff {ρ : Type*} (rows : List ρ) (f : ρ → Dict κ σ) :
    (∀ k column, (buckets (rows.flatMap fun row => (f row).items)).get? k = some column →
        column.length = rows.length ∧ ∀ (i : ℕ) (row : ρ), rows[i]? = some row → column[i]? = (f row).get? k) ↔
      ∀ row ∈ rows, ∀ row' ∈ rows, ∀ k ∈ (f row).keys, k ∈ (f row').keys := by
  constructor
  · intro h row hrow row' hrow' k hk
    have hmem := mem_keys_buckets_flatMap.2 ⟨row, hrow, hk⟩
    obtain ⟨column, hcolumn⟩ := Option.isSome_iff_exists.1 (Dict.mem_keys_iff.1 hmem)
    obtain ⟨hlength, hentries⟩ := h k column hcolumn
    obtain ⟨i, hi⟩ := List.mem_iff_getElem?.1 hrow'
    have hlt : i < column.length := by
      rw [hlength]
      exact (List.getElem?_eq_some_iff.1 hi).1
    rw [Dict.mem_keys_iff, ← hentries i row' hi, List.getElem?_eq_getElem hlt]
    rfl
  · intro h k column hcolumn
    obtain ⟨row, hrow, hk⟩ := mem_keys_buckets_flatMap.1
      (Dict.mem_keys_iff.2 (Option.isSome_iff_exists.2 ⟨column, hcolumn⟩))
    have hget := getD_buckets_flatMap rows f k
    rw [hcolumn, Option.getD_some] at hget
    -- every dictionary has the key, so no row is skipped
    have hsome : ∀ row' ∈ rows, ((f row').get? k).isSome := fun row' hrow' => Dict.mem_keys_iff.1 (h row hrow row' hrow' k hk)
    have hmap : column.map some = rows.map fun row => (f row).get? k := by
      rw [hget]
      clear hget hcolumn hrow h
      induction rows with
      | nil => rfl
      | cons row' rows ih =>
        obtain ⟨v, hv⟩ := Option.isSome_iff_exists.1 (hsome row' List.mem_cons_self)
        rw [List.filterMap_cons, hv, List.map_cons, List.map_cons, hv,
          ih fun other hother => hsome other (List.mem_cons_of_mem _ hother)]
    refine ⟨?_, fun i row' hi => ?_⟩
    · have hlength := congrArg List.length hmap
      rwa [List.length_map, List.length_map] at hlength
    · have hentry := congrArg (fun l => l[i]?) hmap
      rw [List.getElem?_map, List.getElem?_map, hi] at hentry
      cases hcol : column[i]? with
      | none =>
        rw [hcol] at hentry
        cases hentry
      | some v =>
        rw [hcol] at hentry
        exact Option.some.inj hentry

end Opd.Lib

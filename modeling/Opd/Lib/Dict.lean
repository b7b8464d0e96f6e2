import Mathlib.Data.List.Nodup
import Opd.Lib.Tensor

/-!
# Insertion-ordered dictionaries

A dictionary is a list of items whose keys are distinct; a new key is appended and an
old key keeps its place.

* `mem_items`: the items are the pairs that `get?` finds.
* `get?_update`, `get?_clear`: what `get?` finds after an update and after a removal.
* `items_update_of_not_mem`: a new key is appended.
* `merge_new`, `merge_same`: items that are merged one by one, with new keys and with the same keys.
* `mergeWhile_eq_none`, `mergeWhile_eq_some`: items that are merged until one conflicts.
-/

namespace Opd.Lib

/-- A dictionary with its items in insertion order. -/
structure Dict (κ τ : Type*) where
  items : List (κ × τ)
  nodup : (items.map Prod.fst).Nodup

namespace Dict

variable {κ τ : Type*}

def empty : Dict κ τ := ⟨[], List.nodup_nil⟩

def keys (d : Dict κ τ) : List κ := d.items.map Prod.fst

theorem mem_keys {d : Dict κ τ} {k : κ} : k ∈ d.keys ↔ ∃ v, (k, v) ∈ d.items := by
  simp [keys]

theorem items_nodup (d : Dict κ τ) : d.items.Nodup := d.nodup.of_map _

theorem ext_items {d d' : Dict κ τ} (h : d.items = d'.items) : d = d' := by
  cases d
  cases d'
  cases h
  rfl

def mapWithKey {τ' : Type*} (d : Dict κ τ) (f : κ → τ → τ') : Dict κ τ' :=
  ⟨d.items.map fun item => (item.1, f item.1 item.2), by
    rw [List.map_map]
    exact d.nodup⟩

def map {τ' : Type*} (d : Dict κ τ) (f : τ → τ') : Dict κ τ' := d.mapWithKey fun _ => f

theorem items_map {τ' : Type*} (d : Dict κ τ) (f : τ → τ') :
    (d.map f).items = d.items.map fun item => (item.1, f item.2) := rfl

theorem mapWithKey_congr {τ' : Type*} {d : Dict κ τ} {f g : κ → τ → τ'}
    (h : ∀ item ∈ d.items, f item.1 item.2 = g item.1 item.2) : d.mapWithKey f = d.mapWithKey g :=
  ext_items (List.map_congr_left fun item hitem => congrArg (Prod.mk item.1) (h item hitem))

theorem map_congr {τ' : Type*} {d : Dict κ τ} {f g : τ → τ'} (h : ∀ item ∈ d.items, f item.2 = g item.2) :
    d.map f = d.map g := mapWithKey_congr h

theorem map_map {τ' τ'' : Type*} (d : Dict κ τ) (f : τ → τ') (g : τ' → τ'') :
    (d.map f).map g = d.map fun v => g (f v) := by
  refine ext_items ?_
  rw [items_map, items_map, items_map, List.map_map]
  rfl

theorem keys_map {τ' : Type*} (d : Dict κ τ) (f : τ → τ') : (d.map f).keys = d.keys := by
  unfold keys
  rw [items_map, List.map_map]
  rfl

theorem fst_of_mapM {ε τ' : Type*} {f : τ → Except ε τ'} {items : List (κ × τ)} {out : List (κ × τ')}
    (h : items.mapM (fun item => (f item.2).map (Prod.mk item.1)) = .ok out) :
    out.map Prod.fst = items.map Prod.fst := by
  have hall := mapM_eq_ok_iff.1 h
  clear h
  induction hall with
  | nil => rfl
  | @cons item pair items out hitem _ ih =>
    rw [List.map_cons, List.map_cons, ih]
    cases hf : f item.2 with
    | error e =>
      rw [hf] at hitem
      cases hitem
    | ok v =>
      rw [hf] at hitem
      cases hitem
      rfl

def mapM {ε τ' : Type*} (f : τ → Except ε τ') (d : Dict κ τ) : Except ε (Dict κ τ') :=
  match h : d.items.mapM fun item => (f item.2).map (Prod.mk item.1) with
  | .ok items => .ok ⟨items, (fst_of_mapM h).symm ▸ d.nodup⟩
  | .error e => .error e

theorem mapM_map_eq {ε τ' γ : Type*} {f : τ → Except ε τ'} {g : γ → τ} {h : γ → τ'} {d : Dict κ γ}
    (hf : ∀ item ∈ d.items, f (g item.2) = .ok (h item.2)) : (d.map g).mapM f = .ok (d.map h) := by
  have hitems : (d.map g).items.mapM (fun item => (f item.2).map (Prod.mk item.1)) =
      .ok (d.items.map fun item => (item.1, h item.2)) := by
    refine Lib.mapM_map_eq ?_
    intro item hitem
    rw [hf item hitem]
    rfl
  unfold mapM
  split
  · rename_i items hok
    rw [hitems] at hok
    cases hok
    rfl
  · rename_i e herror
    rw [hitems] at herror
    cases herror

/-- **A fallible function succeeds** with its values, under the same keys. -/
theorem mapM_eq_ok_iff {ε τ' : Type*} {f : τ → Except ε τ'} {d : Dict κ τ} {out : Dict κ τ'} :
    d.mapM f = .ok out ↔
      List.Forall₂ (fun item pair => f item.2 = .ok pair.2 ∧ pair.1 = item.1) d.items out.items := by
  have hpair : ∀ (item : κ × τ) (pair : κ × τ'), (f item.2).map (Prod.mk item.1) = .ok pair ↔
      f item.2 = .ok pair.2 ∧ pair.1 = item.1 := by
    intro item pair
    cases f item.2 with
    | error e => exact ⟨fun h => (by cases h), fun h => (by cases h.1)⟩
    | ok v =>
      constructor
      · intro h
        cases h
        exact ⟨rfl, rfl⟩
      · rintro ⟨hv, hkey⟩
        cases hv
        exact congrArg Except.ok (Prod.ext hkey.symm rfl)
  have hitems : d.items.mapM (fun item => (f item.2).map (Prod.mk item.1)) = .ok out.items ↔
      List.Forall₂ (fun item pair => f item.2 = .ok pair.2 ∧ pair.1 = item.1) d.items out.items := by
    rw [Lib.mapM_eq_ok_iff]
    simp only [hpair]
  refine Iff.trans ?_ hitems
  unfold mapM
  split
  · rename_i items hok
    refine Iff.trans ?_ (Eq.congr_left hok).symm
    constructor
    · intro h
      cases h
      rfl
    · intro h
      cases h
      rfl
  · rename_i e herror
    refine Iff.trans ?_ (Eq.congr_left herror).symm
    exact ⟨fun h => (by cases h), fun h => (by cases h)⟩

/-- **A fallible function that another one takes back**, with what holds of the values between. -/
theorem mapM_back {ε τ' : Type*} {f : τ → Except ε τ'} {g : τ' → Except ε τ} {P : τ' → Prop} {d : Dict κ τ}
    (h : ∀ item ∈ d.items, ∃ v, f item.2 = .ok v ∧ P v ∧ g v = .ok item.2) :
    ∃ mid : Dict κ τ', d.mapM f = .ok mid ∧ (∀ item ∈ mid.items, P item.2) ∧ mid.mapM g = .ok d := by
  have hok : ∀ item ∈ d.items, ∃ pair : κ × τ', (f item.2).map (Prod.mk item.1) = .ok pair := by
    intro item hitem
    obtain ⟨v, hf, -, -⟩ := h item hitem
    exact ⟨(item.1, v), by rw [hf]; rfl⟩
  have hmid : ∃ mid, d.mapM f = .ok mid := by
    obtain ⟨items, hitems⟩ := mapM_of_forall hok
    unfold mapM
    split
    · exact ⟨_, rfl⟩
    · rename_i e herror
      rw [hitems] at herror
      cases herror
  obtain ⟨mid, hmid⟩ := hmid
  have hall := mapM_eq_ok_iff.1 hmid
  have hback : List.Forall₂ (fun pair item => P pair.2 ∧ g pair.2 = .ok item.2 ∧ item.1 = pair.1) mid.items d.items := by
    have hiff : ∀ {items : List (κ × τ)} {pairs : List (κ × τ')}, (∀ item ∈ items, item ∈ d.items) →
        List.Forall₂ (fun item pair => f item.2 = .ok pair.2 ∧ pair.1 = item.1) items pairs →
        List.Forall₂ (fun pair item => P pair.2 ∧ g pair.2 = .ok item.2 ∧ item.1 = pair.1) pairs items := by
      intro items pairs hmem hpairs
      induction hpairs with
      | nil => exact .nil
      | @cons item pair items pairs hitem _ ih =>
        obtain ⟨v, hf, hP, hg⟩ := h item (hmem item List.mem_cons_self)
        obtain rfl : v = pair.2 := Except.ok.inj (hf.symm.trans hitem.1)
        exact .cons ⟨hP, hg, hitem.2.symm⟩ (ih fun item hitem => hmem item (List.mem_cons_of_mem _ hitem))
    exact hiff (fun _ hitem => hitem) hall
  refine ⟨mid, hmid, ?_, mapM_eq_ok_iff.2 (hback.imp fun _ _ hpair => hpair.2)⟩
  intro pair hpair
  obtain ⟨i, hi, rfl⟩ := List.getElem_of_mem hpair
  exact (hback.get hi (hback.length_eq ▸ hi)).1

theorem exists_mapM_iff {ε τ' : Type*} {f : τ → Except ε τ'} {d : Dict κ τ} :
    (∃ out, d.mapM f = .ok out) ↔ ∀ item ∈ d.items, ∃ v, f item.2 = .ok v := by
  constructor
  · rintro ⟨out, hout⟩ item hitem
    obtain ⟨i, hi⟩ := List.mem_iff_getElem?.1 hitem
    obtain ⟨pair, -, hpair, -⟩ := getElem?_of_forall₂ (mapM_eq_ok_iff.1 hout) hi
    exact ⟨pair.2, hpair⟩
  · intro h
    obtain ⟨items, hitems⟩ : ∃ items, d.items.mapM (fun item => (f item.2).map (Prod.mk item.1)) = .ok items := by
      refine mapM_of_forall fun item hitem => ?_
      obtain ⟨v, hv⟩ := h item hitem
      exact ⟨(item.1, v), by rw [hv]; rfl⟩
    have hall : List.Forall₂ (fun item pair => f item.2 = .ok pair.2 ∧ pair.1 = item.1) d.items items := by
      refine (Lib.mapM_eq_ok_iff.1 hitems).imp fun item pair hpair => ?_
      cases hf : f item.2 with
      | error e =>
        rw [hf] at hpair
        cases hpair
      | ok v =>
        rw [hf] at hpair
        cases hpair
        exact ⟨rfl, rfl⟩
    exact ⟨⟨items, (fst_of_mapM hitems).symm ▸ d.nodup⟩, mapM_eq_ok_iff.2 hall⟩

def mapWithKeyM {ε τ' : Type*} (f : κ → τ → Except ε τ') (d : Dict κ τ) : Except ε (Dict κ τ') :=
  (d.mapWithKey Prod.mk).mapM fun p => f p.1 p.2

theorem mapWithKeyM_eq_ok_iff {ε τ' : Type*} {f : κ → τ → Except ε τ'} {d : Dict κ τ} {out : Dict κ τ'} :
    d.mapWithKeyM f = .ok out ↔
      List.Forall₂ (fun item pair => f item.1 item.2 = .ok pair.2 ∧ pair.1 = item.1) d.items out.items := by
  unfold mapWithKeyM
  rw [mapM_eq_ok_iff]
  exact List.forall₂_map_left_iff

theorem exists_mapWithKeyM_iff {ε τ' : Type*} {f : κ → τ → Except ε τ'} {d : Dict κ τ} :
    (∃ out, d.mapWithKeyM f = .ok out) ↔ ∀ item ∈ d.items, ∃ v, f item.1 item.2 = .ok v := by
  unfold mapWithKeyM
  rw [exists_mapM_iff]
  exact List.forall_mem_map

variable [DecidableEq κ]

def get? (d : Dict κ τ) (k : κ) : Option τ := (d.items.find? fun item => item.1 = k).map Prod.snd

theorem get?_empty (k : κ) : (empty : Dict κ τ).get? k = none := rfl

/-- **The items are what `get?` finds.** -/
theorem mem_items {d : Dict κ τ} {k : κ} {v : τ} : (k, v) ∈ d.items ↔ d.get? k = some v := by
  unfold get?
  constructor
  · intro h
    rcases hf : d.items.find? (fun item => item.1 = k) with _ | item
    · have hne := List.find?_eq_none.1 hf _ h
      simp at hne
    · have hk : item.1 = k := by simpa using List.find?_some hf
      have hitem : item = (k, v) :=
        List.inj_on_of_nodup_map d.nodup (List.mem_of_find?_eq_some hf) h hk
      rw [hf, hitem, Option.map_some]
  · intro h
    rw [Option.map_eq_some_iff] at h
    obtain ⟨item, hf, rfl⟩ := h
    have hk : item.1 = k := by simpa using List.find?_some hf
    rw [← hk]
    exact List.mem_of_find?_eq_some hf

theorem get?_map {τ' : Type*} (d : Dict κ τ) (f : τ → τ') (k : κ) : (d.map f).get? k = (d.get? k).map f := by
  unfold get?
  rw [items_map, List.find?_map, Option.map_map, Option.map_map]
  rfl

/-- **`get?` of a map that sees the keys.** -/
theorem get?_mapWithKey {τ' : Type*} (d : Dict κ τ) (f : κ → τ → τ') (k : κ) :
    (d.mapWithKey f).get? k = (d.get? k).map (f k) := by
  cases hget : d.get? k with
  | none =>
    rw [Option.map_none, Option.eq_none_iff_forall_ne_some]
    intro v hv
    obtain ⟨⟨k', w⟩, hitem, heq⟩ := List.mem_map.1 (mem_items.2 hv)
    obtain ⟨rfl, -⟩ := Prod.mk.inj heq
    rw [mem_items.1 hitem] at hget
    cases hget
  | some w => exact mem_items.1 (List.mem_map.2 ⟨(k, w), mem_items.2 hget, rfl⟩)

theorem mem_keys_iff {d : Dict κ τ} {k : κ} : k ∈ d.keys ↔ (d.get? k).isSome := by
  rw [mem_keys, Option.isSome_iff_exists]
  exact exists_congr fun v => mem_items

theorem get?_eq_none {d : Dict κ τ} {k : κ} : d.get? k = none ↔ k ∉ d.keys := by
  rw [mem_keys_iff, Option.not_isSome_iff_eq_none]

/-- **The item at the position of its key.** -/
theorem getElem?_idxOf [BEq κ] [LawfulBEq κ] {d : Dict κ τ} {k : κ} {v : τ} (h : d.get? k = some v) :
    d.items[d.keys.idxOf k]? = some (k, v) := by
  have hmem : k ∈ d.keys := mem_keys.2 ⟨v, mem_items.2 h⟩
  have hlt := List.idxOf_lt_length_of_mem hmem
  have hkey : d.keys[d.keys.idxOf k]? = some k := by
    rw [List.getElem?_eq_getElem hlt, List.getElem_idxOf hlt]
  rw [keys, List.getElem?_map, Option.map_eq_some_iff] at hkey
  obtain ⟨⟨k', v'⟩, hitem, rfl⟩ := hkey
  have hget : d.get? k' = some v' := mem_items.1 (List.mem_of_getElem? hitem)
  rw [h, Option.some.injEq] at hget
  rw [hget]
  exact hitem

/-! ## Updates -/

/-- `update` on the items: in place where the key is, else at the end. -/
def updateItems (k : κ) (f : Option τ → τ) : List (κ × τ) → List (κ × τ)
  | [] => [(k, f none)]
  | item :: items =>
    if item.1 = k then (k, f (some item.2)) :: items else item :: updateItems k f items

theorem fst_mem_updateItems {k k' : κ} {f : Option τ → τ} {items : List (κ × τ)}
    (h : k' ∈ (updateItems k f items).map Prod.fst) : k' = k ∨ k' ∈ items.map Prod.fst := by
  induction items with
  | nil => simpa [updateItems] using h
  | cons item items ih =>
    by_cases hk : item.1 = k
    · rw [updateItems, if_pos hk] at h
      rcases List.mem_cons.1 h with rfl | h
      · exact .inl rfl
      · exact .inr (List.mem_cons_of_mem _ h)
    · rw [updateItems, if_neg hk] at h
      rcases List.mem_cons.1 h with rfl | h
      · exact .inr List.mem_cons_self
      · exact (ih h).imp_right (List.mem_cons_of_mem _)

theorem updateItems_nodup {k : κ} {f : Option τ → τ} {items : List (κ × τ)}
    (h : (items.map Prod.fst).Nodup) : ((updateItems k f items).map Prod.fst).Nodup := by
  induction items with
  | nil => simp [updateItems]
  | cons item items ih =>
    rw [List.map_cons, List.nodup_cons] at h
    by_cases hk : item.1 = k
    · rw [updateItems, if_pos hk, List.map_cons, List.nodup_cons, ← hk]
      exact h
    · rw [updateItems, if_neg hk, List.map_cons, List.nodup_cons]
      refine ⟨fun hmem => ?_, ih h.2⟩
      rcases fst_mem_updateItems hmem with heq | hmem
      · exact hk heq
      · exact h.1 hmem

/-- The value of `k` becomes `f` of its old value. -/
def update (d : Dict κ τ) (k : κ) (f : Option τ → τ) : Dict κ τ :=
  ⟨updateItems k f d.items, updateItems_nodup d.nodup⟩

theorem find?_updateItems (k k' : κ) (f : Option τ → τ) (items : List (κ × τ)) :
    ((updateItems k f items).find? fun item => item.1 = k').map Prod.snd =
      if k' = k then some (f ((items.find? fun item => item.1 = k).map Prod.snd))
      else (items.find? fun item => item.1 = k').map Prod.snd := by
  induction items with
  | nil => by_cases hk : k' = k <;> simp [updateItems, hk, eq_comm]
  | cons item items ih =>
    by_cases hitem : item.1 = k
    · by_cases hk : k' = k
      · simp [updateItems, hitem, hk]
      · simp [updateItems, hitem, hk, Ne.symm hk]
    · by_cases hk' : item.1 = k'
      · have hne : k' ≠ k := hk' ▸ hitem
        simp [updateItems, hk', hne]
      · rw [updateItems, if_neg hitem]
        simp only [List.find?_cons, hk', hitem, decide_false]
        exact ih

/-- **`get?` after an update.** -/
theorem get?_update (d : Dict κ τ) (k k' : κ) (f : Option τ → τ) :
    (d.update k f).get? k' = if k' = k then some (f (d.get? k)) else d.get? k' :=
  find?_updateItems k k' f d.items

theorem get?_update_self (d : Dict κ τ) (k : κ) (f : Option τ → τ) :
    (d.update k f).get? k = some (f (d.get? k)) := by
  rw [get?_update, if_pos rfl]

theorem get?_update_of_ne (d : Dict κ τ) {k k' : κ} (f : Option τ → τ) (h : k' ≠ k) :
    (d.update k f).get? k' = d.get? k' := by
  rw [get?_update, if_neg h]

/-- **A new key is appended.** -/
theorem items_update_of_not_mem {d : Dict κ τ} {k : κ} (f : Option τ → τ) (h : k ∉ d.keys) :
    (d.update k f).items = d.items ++ [(k, f none)] := by
  have key : ∀ items : List (κ × τ), k ∉ items.map Prod.fst →
      updateItems k f items = items ++ [(k, f none)] := by
    intro items
    induction items with
    | nil => intro _; rfl
    | cons item items ih =>
      intro hmem
      rw [List.map_cons, List.mem_cons, not_or] at hmem
      rw [updateItems, if_neg (Ne.symm hmem.1), ih hmem.2, List.cons_append]
  exact key d.items h

theorem mem_keys_update {d : Dict κ τ} {k k' : κ} {f : Option τ → τ} :
    k' ∈ (d.update k f).keys ↔ k' = k ∨ k' ∈ d.keys := by
  rw [mem_keys_iff, mem_keys_iff, get?_update]
  split <;> simp [*]

/-! ## Merging items -/

/-- The items one by one: each value is put together with the old value of its key. -/
def merge {σ : Type*} (f : Option τ → σ → τ) (d : Dict κ τ) (items : List (κ × σ)) : Dict κ τ :=
  items.foldl (fun d item => d.update item.1 fun old => f old item.2) d

/-- **Items with new keys** are appended. -/
theorem merge_new {σ : Type*} (f : Option τ → σ → τ) {d : Dict κ τ} {items : List (κ × σ)}
    (h : (d.keys ++ items.map Prod.fst).Nodup) :
    (d.merge f items).items = d.items ++ items.map fun item => (item.1, f none item.2) := by
  induction items generalizing d with
  | nil => exact (List.append_nil _).symm
  | cons item items ih =>
    have hmem : item.1 ∉ d.keys := by
      intro hmem
      rw [List.nodup_append] at h
      exact h.2.2 _ hmem _ List.mem_cons_self rfl
    have hnew := items_update_of_not_mem (fun old => f old item.2) hmem
    have hkeys : (d.update item.1 fun old => f old item.2).keys = d.keys ++ [item.1] := by
      unfold keys
      rw [hnew, List.map_append]
      rfl
    have hrest := @ih (d.update item.1 fun old => f old item.2) (by
      rw [hkeys, List.append_assoc]
      exact h)
    show ((d.update item.1 fun old => f old item.2).merge f items).items = _
    rw [hrest, hnew, List.append_assoc]
    rfl

/-- **Items with new keys** are appended by a fallible step that assigns them. -/
theorem foldlM_new {ε : Type*} {step : Dict κ τ → κ × τ → Except ε (Dict κ τ)}
    (hstep : ∀ d item, item.1 ∉ d.keys → step d item = .ok (d.update item.1 fun _ => item.2)) {d : Dict κ τ}
    {items : List (κ × τ)} (h : ((d.items ++ items).map Prod.fst).Nodup) :
    ∃ out, items.foldlM step d = .ok out ∧ out.items = d.items ++ items := by
  induction items generalizing d with
  | nil => exact ⟨d, rfl, (List.append_nil _).symm⟩
  | cons item items ih =>
    have hmem : item.1 ∉ d.keys := by
      rw [List.map_append, List.nodup_append] at h
      intro hmem
      exact h.2.2 _ hmem _ List.mem_cons_self rfl
    have hnew := items_update_of_not_mem (fun _ => item.2) hmem
    have hrest := @ih (d.update item.1 fun _ => item.2) (by rw [hnew, List.append_assoc]; exact h)
    obtain ⟨out, hout, hitems⟩ := hrest
    refine ⟨out, ?_, ?_⟩
    · rw [List.foldlM_cons, hstep d item hmem]
      exact hout
    · rw [hitems, hnew, List.append_assoc]
      rfl

theorem updateItems_append {k : κ} {v : τ} {f : Option τ → τ} {before after : List (κ × τ)}
    (h : k ∉ before.map Prod.fst) :
    updateItems k f (before ++ (k, v) :: after) = before ++ (k, f (some v)) :: after := by
  induction before with
  | nil => rw [List.nil_append, updateItems, if_pos rfl, List.nil_append]
  | cons item before ih =>
    rw [List.map_cons, List.mem_cons, not_or] at h
    rw [List.cons_append, updateItems, if_neg (Ne.symm h.1), ih h.2, List.cons_append]

theorem merge_same {σ γ : Type*} (f : Option τ → σ → τ) (base : Dict κ γ) (h : γ → τ) (v : γ → σ) :
    (base.map h).merge f (base.map v).items = base.map fun c => f (some (h c)) (v c) := by
  -- the items up to here are merged, those from here on are not
  have hmerge : ∀ (after : List (κ × γ)) (before : List (κ × τ)) (d : Dict κ τ),
      d.items = before ++ (after.map fun item => (item.1, h item.2)) →
      (d.merge f (after.map fun item => (item.1, v item.2))).items =
        before ++ after.map fun item => (item.1, f (some (h item.2)) (v item.2)) := by
    intro after
    induction after with
    | nil =>
      intro before d hd
      exact hd
    | cons item after ih =>
      intro before d hd
      have hmem : item.1 ∉ before.map Prod.fst := by
        have hnodup := d.nodup
        rw [hd, List.map_append, List.nodup_append] at hnodup
        intro hmem
        exact hnodup.2.2 _ hmem _ List.mem_cons_self rfl
      have hitems : (d.update item.1 fun old => f old (v item.2)).items =
          (before ++ [(item.1, f (some (h item.2)) (v item.2))]) ++ after.map fun item => (item.1, h item.2) := by
        show updateItems _ _ d.items = _
        rw [hd, List.map_cons, updateItems_append hmem, List.append_assoc]
        rfl
      have hrest := ih _ _ hitems
      rw [List.append_assoc] at hrest
      exact hrest
  exact ext_items (hmerge base.items [] (base.map h) rfl)

/-- **`get?` after merging** items with distinct keys. -/
theorem get?_merge {σ : Type*} (f : Option τ → σ → τ) {items : List (κ × σ)} (h : (items.map Prod.fst).Nodup)
    (d : Dict κ τ) (k : κ) : (d.merge f items).get? k =
      match items.find? fun item => item.1 = k with
      | some item => some (f (d.get? k) item.2)
      | none => d.get? k := by
  induction items generalizing d with
  | nil => rfl
  | cons item items ih =>
    rw [List.map_cons, List.nodup_cons] at h
    have hrest := ih h.2 (d.update item.1 fun old => f old item.2)
    change ((d.update item.1 fun old => f old item.2).merge f items).get? k = _
    rw [hrest, List.find?_cons]
    by_cases hk : item.1 = k
    · have hnone : items.find? (fun item => item.1 = k) = none := by
        rw [List.find?_eq_none]
        intro item' hitem' heq
        refine h.1 (List.mem_map.2 ⟨item', hitem', ?_⟩)
        rw [hk]
        exact of_decide_eq_true heq
      rw [hnone, decide_eq_true hk, ← hk]
      exact get?_update_self d item.1 _
    · rw [decide_eq_false hk, get?_update_of_ne d _ (Ne.symm hk)]

theorem get?_merge_of_mem {σ : Type*} (f : Option τ → σ → τ) {items : List (κ × σ)} (h : (items.map Prod.fst).Nodup)
    (d : Dict κ τ) {item : κ × σ} (hitem : item ∈ items) :
    (d.merge f items).get? item.1 = some (f (d.get? item.1) item.2) := by
  have hfind : items.find? (fun item' => item'.1 = item.1) = some item := by
    cases hcase : items.find? (fun item' => item'.1 = item.1) with
    | none => exact absurd (decide_eq_true rfl) (List.find?_eq_none.1 hcase item hitem)
    | some found =>
      have hfound := List.find?_some hcase
      have hkey : found.1 = item.1 := of_decide_eq_true hfound
      exact congrArg some (List.inj_on_of_nodup_map h (List.mem_of_find?_eq_some hcase) hitem hkey)
  rw [get?_merge f h, hfind]

theorem get?_merge_of_not_mem {σ : Type*} (f : Option τ → σ → τ) {items : List (κ × σ)} {k : κ}
    (hk : k ∉ items.map Prod.fst) (d : Dict κ τ) : (d.merge f items).get? k = d.get? k := by
  induction items generalizing d with
  | nil => rfl
  | cons item items ih =>
    rw [List.map_cons, List.mem_cons, not_or] at hk
    exact (ih hk.2 _).trans (get?_update_of_ne d _ hk.1)

theorem update_eq_self {d : Dict κ τ} {k : κ} {v : τ} {f : Option τ → τ} (h : d.get? k = some v) (hf : f (some v) = v) :
    d.update k f = d := by
  refine ext_items ?_
  obtain ⟨before, after, hitems⟩ := List.append_of_mem (mem_items.2 h)
  have hmem : k ∉ before.map Prod.fst := by
    have hnodup := d.nodup
    rw [hitems, List.map_append, List.nodup_append] at hnodup
    intro hmem
    exact hnodup.2.2 _ hmem _ List.mem_cons_self rfl
  change updateItems k f d.items = d.items
  rw [hitems, updateItems_append hmem, hf]

theorem merge_eq_self {σ : Type*} {f : Option τ → σ → τ} {d : Dict κ τ} {items : List (κ × σ)}
    (h : ∀ item ∈ items, ∃ v, d.get? item.1 = some v ∧ f (some v) item.2 = v) : d.merge f items = d := by
  induction items with
  | nil => rfl
  | cons item items ih =>
    obtain ⟨v, hv, hf⟩ := h item List.mem_cons_self
    change (d.update item.1 fun old => f old item.2).merge f items = d
    rw [update_eq_self hv hf]
    exact ih fun item hitem => h item (List.mem_cons_of_mem _ hitem)

/-- The items one by one, up to one whose key is there and does not pass the check. -/
def mergeWhile {ε : Type*} (check : κ → τ → τ → Option ε) (f : Option τ → τ → τ) :
    List (κ × τ) → Dict κ τ → Option ε × Dict κ τ
  | [], d => (none, d)
  | item :: items, d =>
    match (d.get? item.1).bind fun old => check item.1 old item.2 with
    | some e => (some e, d)
    | none => mergeWhile check f items (d.update item.1 fun old => f old item.2)

def Passes {ε : Type*} (check : κ → τ → τ → Option ε) (d : Dict κ τ) (items : List (κ × τ)) : Prop :=
  ∀ item ∈ items, ∀ old, d.get? item.1 = some old → check item.1 old item.2 = none

theorem passes_update {ε : Type*} {check : κ → τ → τ → Option ε} {d : Dict κ τ} {k : κ} {items : List (κ × τ)}
    (h : k ∉ items.map Prod.fst) (f : Option τ → τ) : (d.update k f).Passes check items ↔ d.Passes check items := by
  refine forall₂_congr fun item hitem => ?_
  have hne : item.1 ≠ k := fun heq => h (heq ▸ List.mem_map.2 ⟨item, hitem, rfl⟩)
  rw [get?_update_of_ne d f hne]

/-- **All items are merged** if they pass. -/
theorem mergeWhile_eq_none {ε : Type*} {check : κ → τ → τ → Option ε} {f : Option τ → τ → τ} {items : List (κ × τ)}
    (hnodup : (items.map Prod.fst).Nodup) {d d' : Dict κ τ} :
    mergeWhile check f items d = (none, d') ↔ d.Passes check items ∧ d' = d.merge f items := by
  induction items generalizing d with
  | nil => exact ⟨fun h => ⟨fun _ hitem => absurd hitem List.not_mem_nil, (congrArg Prod.snd h).symm⟩,
      fun h => Prod.ext rfl h.2.symm⟩
  | cons item items ih =>
    rw [List.map_cons, List.nodup_cons] at hnodup
    have hpasses : d.Passes check (item :: items) ↔
        (d.get? item.1).bind (fun old => check item.1 old item.2) = none ∧ d.Passes check items := by
      unfold Passes
      rw [List.forall_mem_cons]
      refine and_congr_left fun _ => ?_
      cases d.get? item.1 with
      | none => exact ⟨fun _ => rfl, fun _ old h => (by cases h)⟩
      | some old => exact ⟨fun h => h old rfl, fun h old' h' => (by cases h'; exact h)⟩
    rw [hpasses]
    unfold mergeWhile
    cases hcheck : (d.get? item.1).bind fun old => check item.1 old item.2 with
    | some e => exact ⟨fun h => (by cases h), fun h => (by cases h.1.1)⟩
    | none =>
      simp only [true_and]
      rw [ih hnodup.2, passes_update hnodup.1]
      rfl

/-- **The items before a conflict are merged.** -/
theorem mergeWhile_eq_some {ε : Type*} {check : κ → τ → τ → Option ε} {f : Option τ → τ → τ} {items : List (κ × τ)}
    (hnodup : (items.map Prod.fst).Nodup) {d d' : Dict κ τ} {e : ε} (h : mergeWhile check f items d = (some e, d')) :
    ∃ done item rest old, items = done ++ item :: rest ∧ d.Passes check done ∧ d' = d.merge f done ∧
      d.get? item.1 = some old ∧ check item.1 old item.2 = some e := by
  induction items generalizing d with
  | nil => cases h
  | cons item items ih =>
    rw [List.map_cons, List.nodup_cons] at hnodup
    unfold mergeWhile at h
    cases hcheck : (d.get? item.1).bind fun old => check item.1 old item.2 with
    | some e' =>
      rw [hcheck] at h
      cases h
      obtain ⟨old, hold, hfails⟩ := Option.bind_eq_some_iff.1 hcheck
      exact ⟨[], item, items, old, rfl, fun _ hitem => absurd hitem List.not_mem_nil, rfl, hold, hfails⟩
    | none =>
      rw [hcheck] at h
      obtain ⟨done, item', rest, old, hitems, hpass, hd', hold, hfails⟩ := ih hnodup.2 h
      have hkeys : items.map Prod.fst = done.map Prod.fst ++ item'.1 :: rest.map Prod.fst := by
        rw [hitems, List.map_append, List.map_cons]
      have hne : item'.1 ≠ item.1 := fun heq => hnodup.1 (by rw [hkeys, ← heq]; simp)
      refine ⟨item :: done, item', rest, old, by rw [hitems]; rfl, ?_, hd', ?_, hfails⟩
      · refine List.forall_mem_cons.2 ⟨fun old' hold' => ?_, (passes_update (fun hmem => hnodup.1 (by
          rw [hkeys]
          exact List.mem_append_left _ hmem)) _).1 hpass⟩
        rw [hold'] at hcheck
        exact hcheck
      · rwa [get?_update_of_ne d _ hne] at hold

/-! ## Removals -/

/-- The dictionary without the keys of `ks`. -/
def clear (d : Dict κ τ) (ks : List κ) : Dict κ τ :=
  ⟨d.items.filter fun item => item.1 ∉ ks,
    List.Nodup.sublist (List.Sublist.map _ List.filter_sublist) d.nodup⟩

theorem mem_items_clear {d : Dict κ τ} {ks : List κ} {item : κ × τ} :
    item ∈ (d.clear ks).items ↔ item ∈ d.items ∧ item.1 ∉ ks := by
  simp [clear]

/-- **`get?` after a removal.** -/
theorem get?_clear (d : Dict κ τ) (ks : List κ) (k : κ) :
    (d.clear ks).get? k = if k ∈ ks then none else d.get? k := by
  have hiff : ∀ v, (d.clear ks).get? k = some v ↔ d.get? k = some v ∧ k ∉ ks := fun v => by
    rw [← mem_items, ← mem_items, mem_items_clear]
  by_cases hk : k ∈ ks
  · rw [if_pos hk, Option.eq_none_iff_forall_ne_some]
    intro v hv
    exact ((hiff v).1 hv).2 hk
  · rw [if_neg hk]
    ext v
    exact (hiff v).trans (and_iff_left hk)

theorem mem_keys_clear {d : Dict κ τ} {ks : List κ} {k : κ} : k ∈ (d.clear ks).keys ↔ k ∈ d.keys ∧ k ∉ ks := by
  rw [mem_keys_iff, mem_keys_iff, get?_clear]
  split <;> simp [*]

theorem get?_clear_of_not_mem (d : Dict κ τ) {ks : List κ} {k : κ} (h : k ∉ ks) :
    (d.clear ks).get? k = d.get? k := by
  rw [get?_clear, if_neg h]

theorem map_clear {τ' : Type*} (d : Dict κ τ) (f : τ → τ') (ks : List κ) :
    (d.map f).clear ks = (d.clear ks).map f := by
  refine ext_items ?_
  simp only [clear, items_map, List.filter_map]
  rfl

theorem map_update_of_not_mem {τ' : Type*} {d : Dict κ τ} {k : κ} (f : τ → τ') (v : τ) (h : k ∉ d.keys) :
    ((d.map f).update k fun _ => f v) = (d.update k fun _ => v).map f := by
  refine ext_items ?_
  rw [items_update_of_not_mem _ (by rw [keys_map]; exact h), items_map, items_map, items_update_of_not_mem _ h,
    List.map_append]
  rfl

/-! ## Dictionaries with the same keys -/

/-- The same keys, with related values. -/
def Matches {τ' : Type*} (R : κ → τ → τ' → Prop) (d : Dict κ τ) (d' : Dict κ τ') : Prop :=
  ∀ k, Option.Rel (R k) (d.get? k) (d'.get? k)

variable {τ' : Type*} {R : κ → τ → τ' → Prop} {d : Dict κ τ} {d' : Dict κ τ'}

theorem Matches.get?_eq_some (h : d.Matches R d') {k : κ} {v : τ} (hv : d.get? k = some v) :
    ∃ v', d'.get? k = some v' ∧ R k v v' := by
  have hrel := h k
  rw [hv] at hrel
  cases hget : d'.get? k with
  | none =>
    rw [hget] at hrel
    cases hrel
  | some v' =>
    rw [hget] at hrel
    cases hrel with
    | some hR => exact ⟨v', rfl, hR⟩

theorem Matches.of_get?_eq_some (h : d.Matches R d') {k : κ} {v' : τ'} (hv : d'.get? k = some v') :
    ∃ v, d.get? k = some v ∧ R k v v' := by
  have hrel := h k
  rw [hv] at hrel
  cases hget : d.get? k with
  | none =>
    rw [hget] at hrel
    cases hrel
  | some v =>
    rw [hget] at hrel
    cases hrel with
    | some hR => exact ⟨v, rfl, hR⟩

theorem Matches.mem_keys (h : d.Matches R d') {k : κ} : k ∈ d'.keys ↔ k ∈ d.keys := by
  rw [mem_keys_iff, mem_keys_iff, Option.isSome_iff_exists, Option.isSome_iff_exists]
  constructor
  · rintro ⟨v', hv'⟩
    obtain ⟨v, hv, -⟩ := h.of_get?_eq_some hv'
    exact ⟨v, hv⟩
  · rintro ⟨v, hv⟩
    obtain ⟨v', hv', -⟩ := h.get?_eq_some hv
    exact ⟨v', hv'⟩

theorem Matches.imp {S : κ → τ → τ' → Prop} (h : d.Matches R d')
    (himp : ∀ k v v', d.get? k = some v → R k v v' → S k v v') : d.Matches S d' := by
  intro k
  have hrel := h k
  cases hget : d.get? k with
  | none =>
    rw [hget] at hrel
    cases hget' : d'.get? k with
    | none => exact .none
    | some v' =>
      rw [hget'] at hrel
      cases hrel
  | some v =>
    obtain ⟨v', hv', hR⟩ := h.get?_eq_some hget
    rw [hv']
    exact .some (himp k v v' hget hR)

theorem Matches.clear (h : d.Matches R d') {ks ks' : List κ} (hks : ∀ k, k ∈ ks' ↔ k ∈ ks) :
    (d.clear ks).Matches R (d'.clear ks') := by
  intro k
  rw [get?_clear, get?_clear]
  by_cases hk : k ∈ ks
  · rw [if_pos hk, if_pos ((hks k).2 hk)]
    exact .none
  · rw [if_neg hk, if_neg fun hk' => hk ((hks k).1 hk')]
    exact h k

/-- **A pending key is assigned.** -/
theorem Matches.update {k : κ} {ks : List κ} {v : τ} {v' : τ'} (h : (d.clear (k :: ks)).Matches R d') (hk : k ∉ ks)
    (hv : d.get? k = some v) (hR : R k v v') : (d.clear ks).Matches R (d'.update k fun _ => v') := by
  intro k'
  by_cases heq : k' = k
  · subst heq
    rw [get?_clear_of_not_mem d hk, hv, get?_update_self]
    exact .some hR
  · have hrel := h k'
    rw [get?_update_of_ne _ _ heq]
    rw [get?_clear] at hrel ⊢
    by_cases hmem : k' ∈ ks
    · rw [if_pos (List.mem_cons_of_mem _ hmem)] at hrel
      rwa [if_pos hmem]
    · rw [if_neg (by simp [heq, hmem])] at hrel
      rwa [if_neg hmem]

theorem matches_of_forall₂
    (h : List.Forall₂ (fun item pair => R item.1 item.2 pair.2 ∧ pair.1 = item.1) d.items d'.items) :
    d.Matches R d' := by
  intro k
  unfold get?
  generalize d.items = items at h
  generalize d'.items = items' at h
  induction h with
  | nil => exact .none
  | @cons item pair items items' hpair _ ih =>
    obtain ⟨hvalue, hkey⟩ := hpair
    by_cases hk : item.1 = k
    · rw [List.find?_cons_of_pos (by simpa using hk), List.find?_cons_of_pos (by simpa using hkey.trans hk), ← hk]
      exact .some hvalue
    · rw [List.find?_cons_of_neg (by simpa using hk),
        List.find?_cons_of_neg (by simpa using fun h => hk (hkey.symm.trans h))]
      exact ih

/-- **A fallible function of the values** leaves the keys. -/
theorem matches_of_mapM {ε : Type*} {f : τ → Except ε τ'} (h : d.mapM f = .ok d') :
    d.Matches (fun _ v v' => f v = .ok v') d' := matches_of_forall₂ (mapM_eq_ok_iff.1 h)

theorem matches_of_mapWithKeyM {ε : Type*} {f : κ → τ → Except ε τ'} (h : d.mapWithKeyM f = .ok d') :
    d.Matches (fun k v v' => f k v = .ok v') d' := matches_of_forall₂ (mapWithKeyM_eq_ok_iff.1 h)

end Dict

end Opd.Lib

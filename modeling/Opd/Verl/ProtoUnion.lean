import Opd.Verl.FoldBatch

/-!
# United batches

`union` merges the tensors, the arrays and the meta info of another batch into those of its own, one after the other
and in place. A conflict is found while it merges. A call is what it raises together with the batch afterwards.

* `deepEqual_fuel`: the comparison of arrays comes to an end.
* `deepEqual_self`: an array is equal to itself, with NaN entries and with arrays that contain themselves.
* `union_spec`: what a conflict leaves, and what a union without one gives.
-/

namespace Opd.Verl.ProtoUnion

open Lib FoldBatch

variable {α ν μ : Type}

inductive UnionError
  | attributeError
  | assertionError (message : String)

inductive Entry (α : Type)
  | number (a : α)
  | nan
  deriving DecidableEq

/-! ## Tensors -/

structure Tensor (α : Type) where
  dtype : String
  data : Arr (Entry α)

variable [DecidableEq α]

def Entry.equal : Entry α → Entry α → Bool
  | .number a, .number b => decide (a = b)
  | _, _ => false

/-- `torch.equal`, with the dtypes promoted. -/
def Tensor.equal (a b : Tensor α) : Bool :=
  decide (a.data.shape = b.data.shape) && (List.zipWith Entry.equal a.data.data b.data.data).all id

/-- `TensorDict` -/
structure Tensors (α : Type) where
  batchSize : List ℕ
  items : Dict String (Tensor α)

def checkTensor (key : String) (old val : Tensor α) : Option UnionError :=
  if old.equal val then none
  else some (.assertionError s!"{key} in tensor_dict1 and tensor_dict2 are not the same object")

def keepOld {τ : Type} (old : Option τ) (val : τ) : τ := old.getD val

/-- `union_tensor_dict` -/
def unionTensorDict (tensorDict1 tensorDict2 : Tensors α) : Option UnionError × Tensors α :=
  if tensorDict1.batchSize ≠ tensorDict2.batchSize then
    (some (.assertionError (s!"Two tensor dict must have identical batch size. " ++
      s!"Got torch.Size({tensorDict1.batchSize}) and torch.Size({tensorDict2.batchSize})")), tensorDict1)
  else
    let result := Dict.mergeWhile checkTensor keepOld tensorDict2.items.items tensorDict1.items
    (result.1, { tensorDict1 with items := result.2 })

/-! ## Arrays -/

/-- An array of objects, which are named by their identities, or of numbers. -/
inductive NdArray (α : Type)
  | objects (shape ids : List ℕ)
  | numbers (dtype : String) (shape : List ℕ) (entries : List (Entry α))
  deriving DecidableEq

/-- What the comparison tells apart: floats, arrays, and values that only `==` knows. -/
inductive Obj (α ν : Type)
  | float (type : String) (x : Entry α)
  | array (a : NdArray α)
  | other (type : String) (v : ν)

/-- `type` -/
def Obj.type : Obj α ν → String
  | .float type _ => type
  | .array _ => "ndarray"
  | .other type _ => type

/-- The objects, by their identities. -/
structure Heap (α ν : Type) where
  objects : List (Obj α ν)
  closed : ∀ shape ids, Obj.array (.objects shape ids) ∈ objects → ∀ i ∈ ids, i < objects.length

/-- `_array_equal`, with a comparison of the objects. -/
def arrayEqual (equal : ℕ → ℕ → Bool) : NdArray α → NdArray α → Bool
  | .objects shape1 ids1, .objects shape2 ids2 => decide (shape1 = shape2) && (List.zipWith equal ids1 ids2).all id
  | .numbers dtype1 shape1 entries1, .numbers dtype2 shape2 entries2 =>
    decide (dtype1 = dtype2 ∧ shape1 = shape2 ∧ entries1 = entries2)
  | _, _ => false

/-- `_deep_equal`, with at most `fuel` objects on the path. `==` is `eq`. -/
def deepEqual (eq : ν → ν → Bool) (h : Heap α ν) : ℕ → List ℕ → ℕ → ℕ → Bool
  | 0, _, _, _ => false
  | fuel + 1, visited, a, b =>
    match h.objects[a]?, h.objects[b]? with
    | some x, some y =>
      if x.type ≠ y.type then false
      else if a ∈ visited then true
      else match x, y with
        | .float _ p, .float _ q => decide (p = .nan ∧ q = .nan) || p.equal q
        | .array p, .array q => arrayEqual (deepEqual eq h fuel (a :: visited)) p q
        | .other _ v, .other _ w => eq v w
        | _, _ => false
    | _, _ => false

/-- `isinstance(val, np.ndarray)` -/
def Heap.isArray (h : Heap α ν) (id : ℕ) : Bool :=
  match h.objects[id]? with
  | some (.array _) => true
  | _ => false

/-- A key of both: the arrays must be equal. -/
def checkArray (eq : ν → ν → Bool) (h : Heap α ν) (key : String) (old val : ℕ) : Option UnionError :=
  if h.isArray val = false then some (.assertionError "")
  else if h.isArray old = false then some (.assertionError "")
  else if deepEqual eq h (h.objects.length + 1) [] old val then none
  else some (.assertionError s!"`{key}` in tensor_dict1 and tensor_dict2 are not the same object.")

def takeNew {τ : Type} (_ : Option τ) (val : τ) : τ := val

/-- `union_numpy_dict` -/
def unionNumpyDict (eq : ν → ν → Bool) (h : Heap α ν) (tensorDict1 tensorDict2 : Dict String ℕ) :
    Option UnionError × Dict String ℕ :=
  Dict.mergeWhile (checkArray eq h) takeNew tensorDict2.items tensorDict1

/-! ## Meta info -/

/-- A key of both: the values must be equal, as `==` says. -/
def checkInfo (eq : μ → μ → Bool) (key : String) (old val : μ) : Option UnionError :=
  if eq val old then none
  else some (.assertionError s!"{key} in meta_dict1 and meta_dict2 are not the same object")

/-- `union_two_dict` -/
def unionTwoDict (eq : μ → μ → Bool) (dict1 dict2 : Dict String μ) : Option UnionError × Dict String μ :=
  Dict.mergeWhile (checkInfo eq) takeNew dict2.items dict1

/-! ## Batches -/

/-- `DataProto` -/
structure Proto (α μ : Type) where
  batch : Option (Tensors α)
  nonTensorBatch : Dict String ℕ
  metaInfo : Dict String μ

/-- The `==` of objects and of the values of `meta_info`. -/
structure Equality (ν μ : Type) where
  object : ν → ν → Bool
  info : μ → μ → Bool

/-- The arrays and the meta info of `union`, for a batch whose tensors are united. -/
def unionRest (eq : Equality ν μ) (h : Heap α ν) (self other : Proto α μ) : Option UnionError × Proto α μ :=
  match unionNumpyDict eq.object h self.nonTensorBatch other.nonTensorBatch with
  | (some e, arrays) => (some e, { self with nonTensorBatch := arrays })
  | (none, arrays) =>
    let result := unionTwoDict eq.info self.metaInfo other.metaInfo
    (result.1, { self with nonTensorBatch := arrays, metaInfo := result.2 })

/-- `union`: what it raises, and its batch afterwards. -/
def union (eq : Equality ν μ) (h : Heap α ν) (self other : Proto α μ) : Option UnionError × Proto α μ :=
  match self.batch, other.batch with
  | some tensorDict1, some tensorDict2 =>
    match unionTensorDict tensorDict1 tensorDict2 with
    | (some e, tensors) => (some e, { self with batch := some tensors })
    | (none, tensors) => unionRest eq h { self with batch := some tensors } other
  | _, _ => (some .attributeError, self)

/-! ## Comparisons -/

section Comparisons

theorem Tensor.equal_self {a : Tensor α} (hnan : Entry.nan ∉ a.data.data) : a.equal a = true := by
  have hentry : ∀ x ∈ a.data.data, x.equal x = true := by
    intro x hx
    cases x with
    | number n => exact decide_eq_true rfl
    | nan => exact absurd hx hnan
  unfold equal
  rw [List.zipWith_self, List.all_map, decide_eq_true rfl, Bool.true_and, List.all_eq_true]
  exact hentry

variable {eq : ν → ν → Bool} {h : Heap α ν}

theorem arrayEqual_congr {f g : ℕ → ℕ → Bool} (p q : NdArray α) (hfg : ∀ a b, f a b = g a b) :
    arrayEqual f p q = arrayEqual g p q := by
  have heq : f = g := funext fun a => funext fun b => hfg a b
  rw [heq]

omit [DecidableEq α] in
theorem length_visited_le {visited : List ℕ} (hnodup : visited.Nodup) (hlt : ∀ i ∈ visited, i < h.objects.length) :
    visited.length ≤ h.objects.length := by
  have hsub : visited ⊆ List.range h.objects.length := fun i hi => List.mem_range.2 (hlt i hi)
  have hle := (hnodup.subperm hsub).length_le
  rwa [List.length_range] at hle

theorem deepEqual_succ (eq : ν → ν → Bool) (h : Heap α ν) (fuel : ℕ) {visited : List ℕ} (hnodup : visited.Nodup)
    (hlt : ∀ i ∈ visited, i < h.objects.length) (hfuel : h.objects.length < fuel + visited.length) (a b : ℕ) :
    deepEqual eq h (fuel + 1) visited a b = deepEqual eq h fuel visited a b := by
  induction fuel generalizing visited a b with
  | zero =>
    have hle := length_visited_le hnodup hlt
    omega
  | succ fuel ih =>
    rw [deepEqual, deepEqual]
    cases hx : h.objects[a]? with
    | none => rfl
    | some x =>
      cases hy : h.objects[b]? with
      | none => rfl
      | some y =>
        simp only
        by_cases htype : x.type ≠ y.type
        · rw [if_pos htype, if_pos htype]
        · rw [if_neg htype, if_neg htype]
          by_cases hmem : a ∈ visited
          · rw [if_pos hmem, if_pos hmem]
          · rw [if_neg hmem, if_neg hmem]
            have ha : a < h.objects.length := (List.getElem?_eq_some_iff.1 hx).1
            have hrest := @ih (a :: visited) (List.nodup_cons.2 ⟨hmem, hnodup⟩) (by
              intro i hi
              rcases List.mem_cons.1 hi with rfl | hi
              · exact ha
              · exact hlt i hi) (by rw [List.length_cons]; omega)
            cases x with
            | array p =>
              cases y with
              | array q => exact arrayEqual_congr p q hrest
              | float type q => rfl
              | other type w => rfl
            | float type p => cases y <;> rfl
            | other type v => cases y <;> rfl

/-- **The comparison comes to an end**: no path is longer than there are objects. -/
theorem deepEqual_fuel (eq : ν → ν → Bool) (h : Heap α ν) {fuel : ℕ} (hfuel : h.objects.length < fuel) (a b : ℕ) :
    deepEqual eq h fuel [] a b = deepEqual eq h (h.objects.length + 1) [] a b := by
  induction fuel with
  | zero => exact absurd hfuel (Nat.not_lt_zero _)
  | succ fuel ih =>
    rcases Nat.eq_or_lt_of_le (Nat.le_of_lt_succ hfuel) with heq | hlt
    · rw [heq]
    · have hempty : ∀ i ∈ ([] : List ℕ), i < h.objects.length := fun i hi => absurd hi List.not_mem_nil
      rw [deepEqual_succ eq h fuel List.nodup_nil hempty (by simpa using hlt), ih hlt]

/-- **An object is equal to itself**, NaN and arrays that contain themselves as well, if its values are. -/
theorem deepEqual_self (hrefl : ∀ type v, Obj.other type v ∈ h.objects → eq v v = true) {fuel : ℕ} {visited : List ℕ}
    (hnodup : visited.Nodup) (hlt : ∀ i ∈ visited, i < h.objects.length)
    (hfuel : h.objects.length < fuel + visited.length) {a : ℕ} (ha : a < h.objects.length) :
    deepEqual eq h fuel visited a a = true := by
  induction fuel generalizing visited a with
  | zero =>
    have hle := length_visited_le hnodup hlt
    omega
  | succ fuel ih =>
    obtain ⟨x, hx⟩ : ∃ x, h.objects[a]? = some x := ⟨_, List.getElem?_eq_getElem ha⟩
    have hobject := List.mem_of_getElem? hx
    rw [deepEqual, hx]
    simp only
    rw [if_neg (not_not.2 rfl)]
    by_cases hmem : a ∈ visited
    · rw [if_pos hmem]
    · rw [if_neg hmem]
      cases x with
      | float type p =>
        cases p with
        | nan => rfl
        | number n =>
          have hsame : (Entry.number n).equal (Entry.number n) = true := decide_eq_true rfl
          simp only [hsame, Bool.or_true]
      | other type v => exact hrefl type v hobject
      | array p =>
        cases p with
        | numbers dtype shape entries => exact decide_eq_true ⟨rfl, rfl, rfl⟩
        | objects shape ids =>
          have hrest : ∀ i ∈ ids, deepEqual eq h fuel (a :: visited) i i = true := fun i hi =>
            ih (List.nodup_cons.2 ⟨hmem, hnodup⟩) (List.forall_mem_cons.2 ⟨ha, hlt⟩)
              (by rw [List.length_cons]; omega) (h.closed shape ids hobject i hi)
          simp only [arrayEqual, decide_true, Bool.true_and]
          rw [List.zipWith_self, List.all_map, List.all_eq_true]
          exact hrest

end Comparisons

/-! ## Merged dictionaries -/

section Merged

variable {τ : Type} {same : τ → τ → Prop} {d other d' : Dict String τ}

/-- What a conflict leaves of a dictionary: its own keys with equal values, and the first items of the other one. -/
structure Left (same : τ → τ → Prop) (d other d' : Dict String τ) : Prop where
  keeps : ∀ k v, d.get? k = some v → ∃ v', d'.get? k = some v' ∧ (v' = v ∨ same v v')
  adds : ∀ k v, d'.get? k = some v → d.get? k = some v ∨ other.get? k = some v
  first : ∃ done, done <+: other.items ∧ ∀ k, k ∈ d'.keys ↔ k ∈ d.keys ∨ k ∈ done.map Prod.fst

/-- What a union gives: the keys of both, with equal values on the old ones and the other's values on the new ones. -/
structure United (same : τ → τ → Prop) (d other d' : Dict String τ) : Prop where
  keys : ∀ k, k ∈ d'.keys ↔ k ∈ d.keys ∨ k ∈ other.keys
  olds : ∀ k v, d.get? k = some v → ∃ v', d'.get? k = some v' ∧ (v' = v ∨ same v v')
  news : ∀ k v, other.get? k = some v → k ∉ d.keys → d'.get? k = some v

variable {f : Option τ → τ → τ} {done : List (String × τ)}

/-- A merge leaves the value of a key, or assigns an equal one. -/
def Agrees (same : τ → τ → Prop) (f : Option τ → τ → τ) (d : Dict String τ) (items : List (String × τ)) : Prop :=
  ∀ item ∈ items, ∀ old, d.get? item.1 = some old →
    f (some old) item.2 = old ∨ f (some old) item.2 = item.2 ∧ same old item.2

theorem nodup_of_isPrefix (hbegin : done <+: other.items) : (done.map Prod.fst).Nodup :=
  List.Nodup.sublist (hbegin.sublist.map _) other.nodup

theorem get?_merge_cases (hf : ∀ v, f none v = v) (hbegin : done <+: other.items) (hagree : Agrees same f d done)
    (k : String) :
    ((d.merge f done).get? k = d.get? k ∧ k ∉ done.map Prod.fst) ∨
      ∃ v, other.get? k = some v ∧ k ∈ done.map Prod.fst ∧
        (d.get? k = none ∧ (d.merge f done).get? k = some v ∨
          ∃ old, d.get? k = some old ∧ ((d.merge f done).get? k = some old ∨
            (d.merge f done).get? k = some v ∧ same old v)) := by
  rw [Dict.get?_merge f (nodup_of_isPrefix hbegin)]
  cases hfind : done.find? fun item => item.1 = k with
  | none =>
    refine .inl ⟨rfl, fun hmem => ?_⟩
    obtain ⟨item, hitem, rfl⟩ := List.mem_map.1 hmem
    exact List.find?_eq_none.1 hfind item hitem (decide_eq_true rfl)
  | some item =>
    have hitem := List.mem_of_find?_eq_some hfind
    obtain rfl : item.1 = k := by simpa using List.find?_some hfind
    refine .inr ⟨item.2, Dict.mem_items.1 (hbegin.subset hitem), List.mem_map.2 ⟨item, hitem, rfl⟩, ?_⟩
    cases hold : d.get? item.1 with
    | none => exact .inl ⟨rfl, by simp only [hf]⟩
    | some old =>
      refine .inr ⟨old, rfl, ?_⟩
      rcases hagree item hitem old hold with hkeep | ⟨hnew, hsame⟩
      · exact .inl (by simp only [hkeep])
      · exact .inr ⟨by simp only [hnew], hsame⟩

theorem mem_keys_merge (hf : ∀ v, f none v = v) (hbegin : done <+: other.items) (hagree : Agrees same f d done)
    (k : String) : k ∈ (d.merge f done).keys ↔ k ∈ d.keys ∨ k ∈ done.map Prod.fst := by
  rw [Dict.mem_keys_iff, Dict.mem_keys_iff]
  rcases get?_merge_cases hf hbegin hagree k with ⟨hget, hnot⟩ | ⟨v, -, hdone, hcases⟩
  · rw [hget]
    exact ⟨.inl, fun h => h.resolve_right hnot⟩
  · refine ⟨fun _ => .inr hdone, fun _ => ?_⟩
    rcases hcases with ⟨-, hget⟩ | ⟨old, -, hget | ⟨hget, -⟩⟩
    · rw [hget]
      rfl
    · rw [hget]
      rfl
    · rw [hget]
      rfl

theorem keeps_merge (hf : ∀ v, f none v = v) (hbegin : done <+: other.items) (hagree : Agrees same f d done)
    (k : String) (v : τ) (hv : d.get? k = some v) : ∃ v', (d.merge f done).get? k = some v' ∧ (v' = v ∨ same v v') := by
  rcases get?_merge_cases hf hbegin hagree k with ⟨hget, -⟩ | ⟨w, -, -, ⟨hnone, -⟩ | ⟨old, hold, hget⟩⟩
  · exact ⟨v, hget.trans hv, .inl rfl⟩
  · rw [hv] at hnone
    cases hnone
  · obtain rfl := Option.some.inj (hv.symm.trans hold)
    rcases hget with hget | ⟨hget, hsame⟩
    · exact ⟨v, hget, .inl rfl⟩
    · exact ⟨w, hget, .inr hsame⟩

/-- **Some first items merged.** -/
theorem left_merge (hf : ∀ v, f none v = v) (hbegin : done <+: other.items) (hagree : Agrees same f d done) :
    Left same d other (d.merge f done) where
  keeps := keeps_merge hf hbegin hagree
  adds := by
    intro k v hv
    rcases get?_merge_cases hf hbegin hagree k with ⟨hget, -⟩ | ⟨w, hw, -, ⟨-, hget⟩ | ⟨old, hold, hget | ⟨hget, -⟩⟩⟩
    · exact .inl (hget ▸ hv)
    · rw [hget] at hv
      exact .inr (hw.trans hv)
    · rw [hget] at hv
      exact .inl (hold.trans hv)
    · rw [hget] at hv
      exact .inr (hw.trans hv)
  first := ⟨done, hbegin, mem_keys_merge hf hbegin hagree⟩

theorem united_merge (hf : ∀ v, f none v = v) (hagree : Agrees same f d other.items) :
    United same d other (d.merge f other.items) where
  keys := mem_keys_merge hf (List.prefix_refl _) hagree
  olds := keeps_merge hf (List.prefix_refl _) hagree
  news := by
    intro k v hv hnew
    rcases get?_merge_cases hf (List.prefix_refl _) hagree k with ⟨-, hnot⟩ | ⟨w, hw, -, ⟨-, hget⟩ | ⟨old, hold, -⟩⟩
    · exact absurd (Dict.mem_keys.2 ⟨v, Dict.mem_items.2 hv⟩) hnot
    · rw [hget, ← hw]
      exact hv
    · rw [← Dict.get?_eq_none, hold] at hnew
      cases hnew

/-- **Merging again** changes nothing, if what is there now passes. -/
theorem merge_again {ε : Type} {check : String → τ → τ → Option ε} (h : ∀ item ∈ other.items,
      check item.1 (f (d.get? item.1) item.2) item.2 = none ∧
        f (some (f (d.get? item.1) item.2)) item.2 = f (d.get? item.1) item.2) :
    Dict.mergeWhile check f other.items (d.merge f other.items) = (none, d.merge f other.items) := by
  have hget : ∀ item ∈ other.items, (d.merge f other.items).get? item.1 = some (f (d.get? item.1) item.2) := by
    intro item hitem
    rw [Dict.get?_merge f other.nodup]
    have hfind : other.items.find? (fun item' => item'.1 = item.1) = some item := by
      have hsome : other.get? item.1 = some item.2 := Dict.mem_items.1 hitem
      unfold Dict.get? at hsome
      obtain ⟨item', hitem', hvalue⟩ := Option.map_eq_some_iff.1 hsome
      have hkey : item'.1 = item.1 := by simpa using List.find?_some hitem'
      rw [hitem', Prod.ext hkey hvalue]
    rw [hfind]
  refine (Dict.mergeWhile_eq_none other.nodup).2 ⟨fun item hitem old hold => ?_, ?_⟩
  · rw [hget item hitem] at hold
    obtain rfl := Option.some.inj hold
    exact (h item hitem).1
  · refine (Dict.merge_eq_self fun item hitem => ?_).symm
    exact ⟨_, hget item hitem, (h item hitem).2⟩

end Merged

/-! ## Unions -/

section Unions

variable {eq : Equality ν μ} {h : Heap α ν} {self other self' : Proto α μ}

/-- Equal arrays, as `union` compares them. -/
def SameArrays (eq : ν → ν → Bool) (h : Heap α ν) (old val : ℕ) : Prop :=
  deepEqual eq h (h.objects.length + 1) [] old val = true

/-- Equal values, as `union` compares them. -/
def SameInfo (eq : μ → μ → Bool) (old val : μ) : Prop := eq val old = true

def UnitedTensors (batch otherBatch batch' : Option (Tensors α)) : Prop :=
  ∃ t1 t2 t', batch = some t1 ∧ otherBatch = some t2 ∧ batch' = some t' ∧ t'.batchSize = t1.batchSize ∧
    United Eq t1.items t2.items t'.items

/-- What a raise leaves: nothing is united where the batch sizes conflict or there are no tensors; else the
dictionaries before the one with the conflict are united, that one has the first items of the other one, and those after
it are as they were. -/
inductive Raised (eq : Equality ν μ) (h : Heap α ν) (self other : Proto α μ) : Proto α μ → Prop
  | before : Raised eq h self other self
  | tensors {t1 t2 t' : Tensors α} : self.batch = some t1 → other.batch = some t2 → t'.batchSize = t1.batchSize →
      Left Eq t1.items t2.items t'.items → Raised eq h self other { self with batch := some t' }
  | arrays {batch' : Option (Tensors α)} {arrays' : Dict String ℕ} : UnitedTensors self.batch other.batch batch' →
      Left (SameArrays eq.object h) self.nonTensorBatch other.nonTensorBatch arrays' →
      Raised eq h self other { self with batch := batch', nonTensorBatch := arrays' }
  | info {batch' : Option (Tensors α)} {arrays' : Dict String ℕ} {info' : Dict String μ} :
      UnitedTensors self.batch other.batch batch' →
      United (SameArrays eq.object h) self.nonTensorBatch other.nonTensorBatch arrays' →
      Left (SameInfo eq.info) self.metaInfo other.metaInfo info' → Raised eq h self other ⟨batch', arrays', info'⟩

structure AllUnited (eq : Equality ν μ) (h : Heap α ν) (old other new : Proto α μ) : Prop where
  batch : UnitedTensors old.batch other.batch new.batch
  nonTensorBatch : United (SameArrays eq.object h) old.nonTensorBatch other.nonTensorBatch new.nonTensorBatch
  metaInfo : United (SameInfo eq.info) old.metaInfo other.metaInfo new.metaInfo

/-- The tensors have no NaN, the arrays are arrays, and what only `==` compares is equal to itself. -/
structure Comparable (eq : Equality ν μ) (h : Heap α ν) (other : Proto α μ) : Prop where
  tensors : ∀ t, other.batch = some t → ∀ item ∈ t.items.items, Entry.nan ∉ item.2.data.data
  arrays : ∀ item ∈ other.nonTensorBatch.items, h.isArray item.2 = true
  objects : ∀ type v, Obj.other type v ∈ h.objects → eq.object v v = true
  info : ∀ item ∈ other.metaInfo.items, eq.info item.2 item.2 = true

/-! ### One dictionary -/

omit [DecidableEq α] in
theorem agrees_tensors {d : Dict String (Tensor α)} {items : List (String × Tensor α)} :
    Agrees Eq keepOld d items := fun _ _ _ _ => .inl rfl

omit [DecidableEq α] in
theorem agrees_info {f : μ → μ → Bool} {d : Dict String μ} {items : List (String × μ)}
    (hpass : d.Passes (checkInfo f) items) : Agrees (SameInfo f) takeNew d items := by
  intro item hitem old hold
  have hcheck := hpass item hitem old hold
  refine .inr ⟨rfl, ?_⟩
  unfold checkInfo at hcheck
  split at hcheck
  · rename_i hequal
    exact hequal
  · cases hcheck

theorem agrees_arrays {f : ν → ν → Bool} {d : Dict String ℕ} {items : List (String × ℕ)}
    (hpass : d.Passes (checkArray f h) items) : Agrees (SameArrays f h) takeNew d items := by
  intro item hitem old hold
  have hcheck := hpass item hitem old hold
  refine .inr ⟨rfl, ?_⟩
  unfold checkArray at hcheck
  split at hcheck
  · cases hcheck
  · split at hcheck
    · cases hcheck
    · split at hcheck
      · rename_i hequal
        exact hequal
      · cases hcheck

/-- **What is left of the tensors** by a conflict. -/
theorem unionTensorDict_some {t1 t2 t' : Tensors α} {e : UnionError} (hrun : unionTensorDict t1 t2 = (some e, t')) :
    t' = t1 ∨ t'.batchSize = t1.batchSize ∧ Left Eq t1.items t2.items t'.items := by
  unfold unionTensorDict at hrun
  split at hrun
  · exact .inl (congrArg Prod.snd hrun).symm
  · obtain ⟨hsome, rfl⟩ := Prod.ext_iff.1 hrun
    obtain ⟨done, item, rest, old, hitems, -, hd', -, -⟩ := Dict.mergeWhile_eq_some t2.items.nodup
      (Prod.ext hsome rfl : Dict.mergeWhile checkTensor keepOld t2.items.items t1.items = (some e, _))
    refine .inr ⟨rfl, ?_⟩
    have hleft : Left Eq t1.items t2.items (t1.items.merge keepOld done) :=
      left_merge (fun _ => rfl) ⟨_, hitems.symm⟩ agrees_tensors
    rwa [← hd'] at hleft

/-- **The tensors without a conflict.** -/
theorem unionTensorDict_none {t1 t2 t' : Tensors α} : unionTensorDict t1 t2 = (none, t') ↔
    t1.batchSize = t2.batchSize ∧ t1.items.Passes checkTensor t2.items.items ∧
      t' = { t1 with items := t1.items.merge keepOld t2.items.items } := by
  unfold unionTensorDict
  by_cases hsize : t1.batchSize = t2.batchSize
  · rw [if_neg (not_not.2 hsize)]
    constructor
    · intro hrun
      obtain ⟨hnone, rfl⟩ := Prod.ext_iff.1 hrun
      obtain ⟨hpass, hmerge⟩ := (Dict.mergeWhile_eq_none t2.items.nodup).1
        (Prod.ext hnone rfl : Dict.mergeWhile checkTensor keepOld t2.items.items t1.items = (none, _))
      exact ⟨hsize, hpass, by simp only [hmerge]⟩
    · rintro ⟨-, hpass, rfl⟩
      rw [(Dict.mergeWhile_eq_none t2.items.nodup).2 ⟨hpass, rfl⟩]
  · rw [if_pos hsize]
    constructor
    · intro hrun
      cases congrArg Prod.fst hrun
    · rintro ⟨heq, -⟩
      exact absurd heq hsize

/-! ### All of them -/

/-- **What a conflict leaves.** -/
theorem raised_of_union {e : UnionError} (hrun : union eq h self other = (some e, self')) :
    Raised eq h self other self' := by
  unfold union at hrun
  cases hbatch : self.batch with
  | none =>
    rw [hbatch] at hrun
    obtain rfl := congrArg Prod.snd hrun
    exact .before
  | some t1 =>
    cases hother : other.batch with
    | none =>
      rw [hbatch, hother] at hrun
      obtain rfl := congrArg Prod.snd hrun
      exact .before
    | some t2 =>
      rw [hbatch, hother] at hrun
      simp only at hrun
      cases htensors : unionTensorDict t1 t2 with
      | mk raised t' =>
        rw [htensors] at hrun
        cases raised with
        | some e' =>
          obtain rfl := congrArg Prod.snd hrun
          rcases unionTensorDict_some htensors with rfl | ⟨hsize, hleft⟩
          · have hself : { self with batch := some t' } = self := by rw [← hbatch]
            simp only [hself]
            exact .before
          · exact .tensors hbatch hother hsize hleft
        | none =>
          obtain ⟨-, -, rfl⟩ := unionTensorDict_none.1 htensors
          have hunited : UnitedTensors self.batch other.batch
              (some { t1 with items := t1.items.merge keepOld t2.items.items }) :=
            ⟨t1, t2, _, hbatch, hother, rfl, rfl, united_merge (fun _ => rfl) agrees_tensors⟩
          simp only [unionRest] at hrun
          cases harrays : unionNumpyDict eq.object h self.nonTensorBatch other.nonTensorBatch with
          | mk raised arrays' =>
            rw [harrays] at hrun
            cases raised with
            | some e' =>
              obtain rfl := congrArg Prod.snd hrun
              obtain ⟨done, item, rest, old, hitems, hpass, rfl, -, -⟩ :=
                Dict.mergeWhile_eq_some other.nonTensorBatch.nodup harrays
              have hbegin : done <+: other.nonTensorBatch.items := ⟨_, hitems.symm⟩
              exact .arrays hunited (left_merge (fun _ => rfl) hbegin (agrees_arrays hpass))
            | none =>
              obtain ⟨hpass, rfl⟩ := (Dict.mergeWhile_eq_none other.nonTensorBatch.nodup).1 harrays
              obtain ⟨hsome, rfl⟩ := Prod.ext_iff.1 hrun
              have hrun' : unionTwoDict eq.info self.metaInfo other.metaInfo = (some e, _) := Prod.ext hsome rfl
              obtain ⟨done, item, rest, old, hitems, hpassInfo, hinfo, -, -⟩ :=
                Dict.mergeWhile_eq_some other.metaInfo.nodup hrun'
              have hleft : Left (SameInfo eq.info) self.metaInfo other.metaInfo (self.metaInfo.merge takeNew done) :=
                left_merge (fun _ => rfl) ⟨_, hitems.symm⟩ (agrees_info hpassInfo)
              rw [← hinfo] at hleft
              exact .info hunited (united_merge (fun _ => rfl) (agrees_arrays hpass)) hleft

/-- **A union without a conflict**, dictionary by dictionary. -/
theorem union_eq_none : union eq h self other = (none, self') ↔
    ∃ t1 t2, self.batch = some t1 ∧ other.batch = some t2 ∧ t1.batchSize = t2.batchSize ∧
      t1.items.Passes checkTensor t2.items.items ∧
      self.nonTensorBatch.Passes (checkArray eq.object h) other.nonTensorBatch.items ∧
      self.metaInfo.Passes (checkInfo eq.info) other.metaInfo.items ∧
      self' = ⟨some { t1 with items := t1.items.merge keepOld t2.items.items },
        self.nonTensorBatch.merge takeNew other.nonTensorBatch.items,
        self.metaInfo.merge takeNew other.metaInfo.items⟩ := by
  constructor
  · intro hrun
    unfold union at hrun
    cases hbatch : self.batch with
    | none =>
      rw [hbatch] at hrun
      cases congrArg Prod.fst hrun
    | some t1 =>
      cases hother : other.batch with
      | none =>
        rw [hbatch, hother] at hrun
        cases congrArg Prod.fst hrun
      | some t2 =>
        rw [hbatch, hother] at hrun
        simp only at hrun
        cases htensors : unionTensorDict t1 t2 with
        | mk raised t' =>
          rw [htensors] at hrun
          cases raised with
          | some e => cases congrArg Prod.fst hrun
          | none =>
            obtain ⟨hsize, hpass, rfl⟩ := unionTensorDict_none.1 htensors
            simp only [unionRest] at hrun
            cases harrays : unionNumpyDict eq.object h self.nonTensorBatch other.nonTensorBatch with
            | mk raised arrays' =>
              rw [harrays] at hrun
              cases raised with
              | some e => cases congrArg Prod.fst hrun
              | none =>
                obtain ⟨hpassArrays, rfl⟩ := (Dict.mergeWhile_eq_none other.nonTensorBatch.nodup).1 harrays
                obtain ⟨hnone, rfl⟩ := Prod.ext_iff.1 hrun
                obtain ⟨hpassInfo, hinfo⟩ := (Dict.mergeWhile_eq_none other.metaInfo.nodup).1
                  (Prod.ext hnone rfl : unionTwoDict eq.info self.metaInfo other.metaInfo = (none, _))
                exact ⟨t1, t2, rfl, rfl, hsize, hpass, hpassArrays, hpassInfo, by simp only [hinfo]⟩
  · rintro ⟨t1, t2, hbatch, hother, hsize, hpass, hpassArrays, hpassInfo, rfl⟩
    have htensors := unionTensorDict_none.2 ⟨hsize, hpass, rfl⟩
    have harrays : unionNumpyDict eq.object h self.nonTensorBatch other.nonTensorBatch = (none, _) :=
      (Dict.mergeWhile_eq_none other.nonTensorBatch.nodup).2 ⟨hpassArrays, rfl⟩
    have hinfo : unionTwoDict eq.info self.metaInfo other.metaInfo = (none, _) :=
      (Dict.mergeWhile_eq_none other.metaInfo.nodup).2 ⟨hpassInfo, rfl⟩
    unfold union
    rw [hbatch, hother]
    simp only [htensors, unionRest, harrays, hinfo]

/-- **What a union without a conflict gives.** -/
theorem allUnited_of_union (hrun : union eq h self other = (none, self')) : AllUnited eq h self other self' := by
  obtain ⟨t1, t2, hbatch, hother, -, -, harrays, hinfo, rfl⟩ := union_eq_none.1 hrun
  exact ⟨⟨t1, t2, _, hbatch, hother, rfl, rfl, united_merge (fun _ => rfl) agrees_tensors⟩,
    united_merge (fun _ => rfl) (agrees_arrays harrays), united_merge (fun _ => rfl) (agrees_info hinfo)⟩

/-- **An array is equal to itself.** -/
theorem checkArray_self {f : ν → ν → Bool} (hrefl : ∀ type v, Obj.other type v ∈ h.objects → f v v = true)
    {key : String} {id : ℕ} (harray : h.isArray id = true) : checkArray f h key id id = none := by
  have hlt : id < h.objects.length := by
    by_contra hge
    unfold Heap.isArray at harray
    rw [List.getElem?_eq_none (Nat.le_of_not_lt hge)] at harray
    cases harray
  have hequal : deepEqual f h (h.objects.length + 1) [] id id = true :=
    deepEqual_self hrefl List.nodup_nil (fun i hi => absurd hi List.not_mem_nil) (by simp) hlt
  unfold checkArray
  rw [harray, hequal]
  rfl

theorem union_again (hcomparable : Comparable eq h other) (hrun : union eq h self other = (none, self')) :
    union eq h self' other = (none, self') := by
  obtain ⟨t1, t2, hbatch, hother, hsize, hpass, harrays, hinfo, rfl⟩ := union_eq_none.1 hrun
  have htensorsAgain : Dict.mergeWhile checkTensor keepOld t2.items.items (t1.items.merge keepOld t2.items.items) =
      (none, t1.items.merge keepOld t2.items.items) := by
    refine merge_again fun item hitem => ⟨?_, rfl⟩
    cases hold : t1.items.get? item.1 with
    | none => exact if_pos (Tensor.equal_self (hcomparable.tensors t2 hother item hitem))
    | some old => exact hpass item hitem old hold
  have harraysAgain : unionNumpyDict eq.object h (self.nonTensorBatch.merge takeNew other.nonTensorBatch.items)
      other.nonTensorBatch = (none, self.nonTensorBatch.merge takeNew other.nonTensorBatch.items) :=
    merge_again fun item hitem => ⟨checkArray_self hcomparable.objects (hcomparable.arrays item hitem), rfl⟩
  have hinfoAgain : unionTwoDict eq.info (self.metaInfo.merge takeNew other.metaInfo.items) other.metaInfo =
      (none, self.metaInfo.merge takeNew other.metaInfo.items) :=
    merge_again fun item hitem => ⟨if_pos (hcomparable.info item hitem), rfl⟩
  refine union_eq_none.2 ⟨_, t2, rfl, hother, hsize, ((Dict.mergeWhile_eq_none t2.items.nodup).1 htensorsAgain).1,
    ((Dict.mergeWhile_eq_none other.nonTensorBatch.nodup).1 harraysAgain).1,
    ((Dict.mergeWhile_eq_none other.metaInfo.nodup).1 hinfoAgain).1, ?_⟩
  rw [← ((Dict.mergeWhile_eq_none t2.items.nodup).1 htensorsAgain).2,
    ← ((Dict.mergeWhile_eq_none other.nonTensorBatch.nodup).1 harraysAgain).2,
    ← ((Dict.mergeWhile_eq_none other.metaInfo.nodup).1 hinfoAgain).2]

/-- **A union**: a conflict leaves the batch with some items of the other one, and without one the batch has the keys
of both, and the same union changes nothing any more. -/
theorem union_spec (eq : Equality ν μ) (h : Heap α ν) (self other : Proto α μ) :
    (∀ e self', union eq h self other = (some e, self') → Raised eq h self other self') ∧
      ∀ self', union eq h self other = (none, self') → AllUnited eq h self other self' ∧
        (Comparable eq h other → union eq h self' other = (none, self')) :=
  ⟨fun _ _ hrun => raised_of_union hrun,
    fun _ hrun => ⟨allUnited_of_union hrun, fun hcomparable => union_again hcomparable hrun⟩⟩

/-! ### A union that is not atomic -/

structure SameValues {α μ : Type} (old new : Proto α μ) : Prop where
  batch : ∀ k, (new.batch.bind fun t => t.items.get? k) = old.batch.bind fun t => t.items.get? k
  nonTensorBatch : ∀ k, new.nonTensorBatch.get? k = old.nonTensorBatch.get? k
  metaInfo : ∀ k, new.metaInfo.get? k = old.metaInfo.get? k

/-- A union that raises leaves the batch as it was, and a second union changes nothing. -/
def Atomic (eq : Equality ν μ) (h : Heap α ν) (self other : Proto α μ) : Prop :=
  (∀ e self', union eq h self other = (some e, self') → SameValues self self') ∧
    ∀ self', union eq h self other = (none, self') → AllUnited eq h self other self' ∧
      union eq h self' other = (none, self')

def vector (entries : List (Entry α)) : Tensor α :=
  ⟨"float32", [entries.length], entries, List.prod_singleton.symm⟩

def tensorsOnly (batchSize : ℕ) (items : List (String × List (Entry α))) : Proto α μ :=
  ⟨some ⟨[batchSize], Dict.empty.merge (fun _ entries => vector entries) items⟩, Dict.empty, Dict.empty⟩

def noObjects : Heap α ν := ⟨[], fun _ _ hmem => absurd hmem List.not_mem_nil⟩

def ofNat : Equality ℕ ℕ := ⟨fun a b => decide (a = b), fun a b => decide (a = b)⟩

/-- **A new key is there before the conflict raises**, where the other batch has another tensor under its last key,
and **a tensor with NaN** cannot be united twice. -/
theorem not_atomic :
    ¬ Atomic ofNat noObjects (tensorsOnly 1 [("a", [.number 1])] : Proto ℕ ℕ)
        (tensorsOnly 1 [("b", [.number 2]), ("a", [.number 3])]) ∧
      ¬ Atomic ofNat noObjects (tensorsOnly 1 [] : Proto ℕ ℕ) (tensorsOnly 1 [("a", [.nan])]) := by
  constructor
  · intro hatomic
    have hfirst : (union ofNat noObjects (tensorsOnly 1 [("a", [.number 1])] : Proto ℕ ℕ)
        (tensorsOnly 1 [("b", [.number 2]), ("a", [.number 3])])).1.isSome = true := by decide
    obtain ⟨e, he⟩ := Option.isSome_iff_exists.1 hfirst
    have hvalues := hatomic.1 e _ (Prod.ext he rfl)
    have hsame := congrArg Option.isSome (hvalues.batch "b")
    revert hsame
    decide
  · intro hatomic
    have hfirst : (union ofNat noObjects (tensorsOnly 1 [] : Proto ℕ ℕ)
        (tensorsOnly 1 [("a", [.nan])])).1.isNone = true := by decide
    have hrun := Prod.ext (Option.isNone_iff_eq_none.1 hfirst) rfl
    have hagain := congrArg (fun result => result.1.isNone) (hatomic.2 _ hrun).2
    revert hagain
    decide

end Unions

end Opd.Verl.ProtoUnion

import Opd.Lib.Partition
import Opd.Lib.Sorting

/-!
# Balanced partitions

The Karmarkar-Karp method starts with one state for each item (or for each `k` items), and
merges the two states of largest spread until one is left. A state has `k` sets; merging
puts large sets of one state to small sets of the other.

* `State.items_merge`, `State.filled_merge`: the items and the non-empty sets of a merge.
* `mergeStates_run`: what holds of all states holds of the last one.
* `balancedPartitions_eq`: `get_seqlen_balanced_partitions` passes its own checks, and
  returns a partition of the indices.
-/

namespace Opd.Verl.SeqlenBalancing

open Lib

inductive BalanceError
  | assertionError (message : String)
  | indexError
  | keyError (key : String)
  | typeError
  | valueError
  | zeroDivisionError
  deriving DecidableEq

/-- `Set`: items `(idx, val)`, and the sum of their values. -/
structure ItemSet where
  sum : ℕ
  items : List (ℕ × ℕ)
  sum_eq : sum = (items.map Prod.snd).sum

namespace ItemSet

def empty : ItemSet := ⟨0, [], rfl⟩

def add (s : ItemSet) (idx val : ℕ) : ItemSet where
  sum := s.sum + val
  items := s.items ++ [(idx, val)]
  sum_eq := by
    rw [List.map_append, List.sum_append, ← s.sum_eq]
    rfl

def merge (s other : ItemSet) : ItemSet where
  sum := s.sum + other.sum
  items := s.items ++ other.items
  sum_eq := by rw [List.map_append, List.sum_append, ← s.sum_eq, ← other.sum_eq]

/-- The order of `__lt__`: by the sum, by the number of items, and by the items. -/
def key (s : ItemSet) : ℕ ×ₗ ℕ ×ₗ List (ℕ ×ₗ ℕ) := toLex (s.sum, toLex (s.items.length, s.items.map toLex))

theorem items_eq_nil_of_le {a b : ItemSet} (h : b.key ≤ a.key) (ha : a.items = []) : b.items = [] := by
  have hsum : a.sum = 0 := by
    rw [a.sum_eq, ha]
    rfl
  rcases (Prod.Lex.toLex_le_toLex).1 h with hlt | ⟨-, hrest⟩
  · simp only at hlt
    omega
  · rcases (Prod.Lex.toLex_le_toLex).1 hrest with hlt | ⟨hlen, -⟩
    · simp only [ha, List.length_nil] at hlt
      omega
    · simp only [ha, List.length_nil] at hlen
      exact List.length_eq_zero_iff.1 hlen

end ItemSet

/-- `State`: its `k` sets, in decreasing order. -/
structure State (k : ℕ) where
  sets : List ItemSet
  length_eq : sets.length = k
  decreasing : sets.Pairwise fun a b => b.key ≤ a.key

namespace State

variable {k : ℕ}

def ofSets (sets : List ItemSet) (h : sets.length = k) : State k where
  sets := sortDesc ItemSet.key sets
  length_eq := (sortDesc_perm ItemSet.key sets).length_eq.trans h
  decreasing := sortDesc_pairwise ItemSet.key sets

def new (k : ℕ) (items : List (ℕ × ℕ)) : Except BalanceError (State k) :=
  if items.length = 1 ∨ items.length = k then
    if h : items.length ≤ k then
      .ok (ofSets (items.map (fun item => ItemSet.empty.add item.1 item.2) ++
        List.replicate (k - items.length) .empty) (by simp [h]))
    else .error .indexError
  else .error (.assertionError s!"{items.length} not in [1, {k}]")

/-- `get_partitions`. -/
def getPartitions (s : State k) : List (List ℕ) := s.sets.map fun set => set.items.map Prod.fst

/-- `merge`: the largest set with the smallest of the other state, and so on. -/
def merge (s other : State k) : State k :=
  ofSets (List.zipWith ItemSet.merge s.sets other.sets.reverse)
    (by rw [List.length_zipWith, List.length_reverse, s.length_eq, other.length_eq, Nat.min_self])

def first (s : State k) : ItemSet := s.sets.headD .empty

/-- `spread`, of sets in decreasing order. -/
def spread (s : State k) : ℕ := s.first.sum - (s.sets.getLastD .empty).sum

/-- `__lt__`: the state with the larger spread, or the larger first set, is before. -/
def lt (s other : State k) : Bool :=
  if s.spread ≠ other.spread then other.spread < s.spread else other.first.key < s.first.key

end State

/-- The loop: the least two states are merged until one is left. Each merge leaves one state
less. -/
def mergeStates {k : ℕ} : ℕ → List (State k) → List (State k)
  | 0, states => states
  | fuel + 1, states =>
    match heappop State.lt states with
    | none => states
    | some (state0, others) =>
      match heappop State.lt others with
      | none => states
      | some (state1, rest) => mergeStates fuel (state0.merge state1 :: rest)

/-- `sorted([(seqlen, i) for i, seqlen in enumerate(seqlen_list)])`, as items. -/
def sortedSeqlenList (seqlenList : List ℕ) : List (ℕ × ℕ) :=
  ((seqlenList.zipIdx.map toLex).insertionSort fun a b => a ≤ b).map fun item =>
    ((ofLex item).2, (ofLex item).1)

def initialStates (seqlenList : List ℕ) (k : ℕ) (equalSize : Bool) : Except BalanceError (List (State k)) :=
  let items := sortedSeqlenList seqlenList
  if equalSize then
    if k = 0 then .error .zeroDivisionError
    else if seqlenList.length % k = 0 then
      (List.range (items.length / k)).mapM fun i => State.new k (block (i * k) k items)
    else .error (.assertionError s!"{seqlenList.length} % {k} != 0")
  else items.mapM fun item => State.new k [item]

/-- `karmarkar_karp`. -/
def karmarkarKarp (seqlenList : List ℕ) (k : ℕ) (equalSize : Bool) : Except BalanceError (List (List ℕ)) := do
  let states ← initialStates seqlenList k equalSize
  match mergeStates states.length states with
  | [] => .error .indexError
  | finalState :: _ =>
    match finalState.getPartitions.find? fun partition => equalSize && partition.length * k ≠ seqlenList.length with
    | some partition => .error (.assertionError s!"{partition.length} * {k} != {seqlenList.length}")
    | none => .ok finalState.getPartitions

/-- `_check_and_sort_partitions`. -/
def checkAndSortPartitions (n k : ℕ) (partitions : List (List ℕ)) : Except BalanceError (List (List ℕ)) :=
  if partitions.length ≠ k then .error (.assertionError s!"{partitions.length} != {k}")
  else
    match partitions.findIdx? List.isEmpty with
    | some i => .error (.assertionError s!"the {i}-th partition is empty")
    | none =>
      if (∀ i ∈ partitions.flatten, i ∈ List.range n) ∧ ∀ i ∈ List.range n, i ∈ partitions.flatten then
        .ok (partitions.map fun partition => partition.insertionSort fun a b => a ≤ b)
      else .error (.assertionError "")

/-- `get_seqlen_balanced_partitions`. -/
def getSeqlenBalancedPartitions (seqlenList : List ℕ) (k : ℕ) (equalSize : Bool) :
    Except BalanceError (List (List ℕ)) :=
  if seqlenList.length < k then
    .error (.assertionError s!"number of items:[{seqlenList.length}] < k_partitions:[{k}]")
  else do
    let partitions ← karmarkarKarp seqlenList k equalSize
    checkAndSortPartitions seqlenList.length k partitions

/-! ## Items and non-empty sets -/

namespace State

variable {k : ℕ}

def items (s : State k) : List (ℕ × ℕ) := s.sets.flatMap ItemSet.items

/-- Which sets have items. -/
def occupied (s : State k) : List Bool := s.sets.map fun set => !set.items.isEmpty

def filled (s : State k) : ℕ := s.occupied.count true

theorem items_ofSets (sets : List ItemSet) (h : sets.length = k) :
    (ofSets sets h).items.Perm (sets.flatMap ItemSet.items) := (sortDesc_perm ItemSet.key sets).flatMap_right _

theorem filled_ofSets (sets : List ItemSet) (h : sets.length = k) :
    (ofSets sets h).filled = (sets.map fun set => !set.items.isEmpty).count true :=
  ((sortDesc_perm ItemSet.key sets).map _).count_eq true

theorem occupied_eq (s : State k) :
    s.occupied = List.replicate s.filled true ++ List.replicate (k - s.filled) false := by
  have hfront : s.occupied.Pairwise fun a b => b = true → a = true := by
    unfold occupied
    rw [List.pairwise_map]
    refine s.decreasing.imp ?_
    intro a b hle hb
    simp only [Bool.not_eq_true', List.isEmpty_eq_false_iff] at hb ⊢
    exact fun ha => hb (ItemSet.items_eq_nil_of_le hle ha)
  have hlen : s.occupied.length = k := by
    rw [occupied, List.length_map, s.length_eq]
  have hall := eq_replicate_of_front hfront
  rw [hlen] at hall
  exact hall

theorem filled_le (s : State k) : s.filled ≤ k := by
  refine List.count_le_length.trans ?_
  rw [occupied, List.length_map, s.length_eq]

theorem items_merge (s other : State k) : (s.merge other).items.Perm (s.items ++ other.items) := by
  -- set by set, whatever the order in which the sets are paired
  have hzip : ∀ as bs : List ItemSet, as.length = bs.length →
      ((List.zipWith ItemSet.merge as bs).flatMap ItemSet.items).Perm
        (as.flatMap ItemSet.items ++ bs.flatMap ItemSet.items) := by
    intro as
    induction as with
    | nil =>
      intro bs hlen
      rw [List.length_eq_zero_iff.1 hlen.symm]
      exact .refl _
    | cons a as ih =>
      intro bs hlen
      cases bs with
      | nil => cases hlen
      | cons b bs =>
        have hrest := ih bs (Nat.succ.inj hlen)
        simp only [List.zipWith_cons_cons, List.flatMap_cons, ItemSet.merge, List.append_assoc]
        refine List.Perm.append_left _ ?_
        refine (hrest.append_left _).trans ?_
        rw [← List.append_assoc, ← List.append_assoc]
        exact List.perm_append_comm.append_right _
  have hlen : s.sets.length = other.sets.reverse.length := by
    rw [List.length_reverse, s.length_eq, other.length_eq]
  exact (items_ofSets _ _).trans ((hzip _ _ hlen).trans
    ((other.sets.reverse_perm.flatMap_right _).append_left _))

/-- **The non-empty sets of a merge**: as many as there can be. -/
theorem filled_merge (s other : State k) : (s.merge other).filled = min k (s.filled + other.filled) := by
  have hzip : (List.zipWith ItemSet.merge s.sets other.sets.reverse).map (fun set => !set.items.isEmpty) =
      List.zipWith or s.occupied other.occupied.reverse := by
    unfold occupied
    rw [List.map_zipWith, ← List.map_reverse, List.zipWith_map]
    congr 1
    funext a b
    show (!(a.items ++ b.items).isEmpty) = _
    cases a.items <;> rfl
  unfold merge
  rw [filled_ofSets, hzip, s.occupied_eq, other.occupied_eq, List.reverse_append, List.reverse_replicate,
    List.reverse_replicate]
  exact count_zipWith_or s.filled_le other.filled_le

def Filled (s : State k) : Prop := s.filled = min k s.items.length

theorem Filled.merge {s other : State k} (hs : s.Filled) (hother : other.Filled) : (s.merge other).Filled := by
  have hlen := (items_merge s other).length_eq
  unfold Filled at hs hother ⊢
  rw [List.length_append] at hlen
  rw [filled_merge, hlen, hs, hother]
  omega

theorem getPartitions_flatten (s : State k) : s.getPartitions.flatten = s.items.map Prod.fst := by
  unfold getPartitions items
  rw [List.map_flatMap, List.flatMap_def]

theorem Filled.nonempty {s : State k} (h : s.Filled) (hle : k ≤ s.items.length) :
    ∀ partition ∈ s.getPartitions, partition ≠ [] := by
  intro partition hmem hnil
  obtain ⟨set, hset, rfl⟩ := List.mem_map.1 hmem
  have hall : s.occupied = List.replicate k true := by
    have hfilled : s.filled = k := h.trans (Nat.min_eq_left hle)
    rw [s.occupied_eq, hfilled, Nat.sub_self, List.replicate_zero, List.append_nil]
  have hoccupied : (!set.items.isEmpty) ∈ s.occupied := List.mem_map_of_mem hset
  rw [hall, List.map_eq_nil_iff.1 hnil] at hoccupied
  cases List.eq_of_mem_replicate hoccupied

end State

/-! ## The loop -/

section Loop

variable {k : ℕ}

theorem heappop_two {states others rest : List (State k)} {state0 state1 : State k}
    (h0 : heappop State.lt states = some (state0, others)) (h1 : heappop State.lt others = some (state1, rest)) :
    (state0 :: state1 :: rest).Perm states :=
  ((heappop_perm h1).cons state0).trans (heappop_perm h0)

theorem mergeStates_run {P : State k → Prop} (hmerge : ∀ s other, P s → P other → P (s.merge other)) (fuel : ℕ)
    {states : List (State k)} (h : ∀ s ∈ states, P s) : ∀ s ∈ mergeStates fuel states, P s := by
  induction fuel generalizing states with
  | zero => exact h
  | succ fuel ih =>
    unfold mergeStates
    split
    · exact h
    · rename_i state0 others h0
      split
      · exact h
      · rename_i state1 rest h1
        have hmem := heappop_two h0 h1
        refine ih ?_
        intro s hs
        rcases List.mem_cons.1 hs with rfl | hs
        · exact hmerge _ _ (h _ (hmem.mem_iff.1 List.mem_cons_self))
            (h _ (hmem.mem_iff.1 (List.mem_cons_of_mem _ List.mem_cons_self)))
        · exact h s (hmem.mem_iff.1 (List.mem_cons_of_mem _ (List.mem_cons_of_mem _ hs)))

theorem mergeStates_items (fuel : ℕ) (states : List (State k)) :
    ((mergeStates fuel states).flatMap State.items).Perm (states.flatMap State.items) := by
  induction fuel generalizing states with
  | zero => exact .refl _
  | succ fuel ih =>
    unfold mergeStates
    split
    · exact .refl _
    · rename_i state0 others h0
      split
      · exact .refl _
      · rename_i state1 rest h1
        refine (ih _).trans (List.Perm.trans ?_ ((heappop_two h0 h1).flatMap_right _))
        rw [List.flatMap_cons, List.flatMap_cons, List.flatMap_cons, ← List.append_assoc]
        exact (state0.items_merge state1).append_right _

theorem length_mergeStates {fuel : ℕ} {states : List (State k)} (hne : states ≠ []) (hfuel : states.length ≤ fuel) :
    ∃ finalState, mergeStates fuel states = [finalState] := by
  induction fuel generalizing states with
  | zero => exact absurd (List.length_eq_zero_iff.1 (by omega)) hne
  | succ fuel ih =>
    unfold mergeStates
    split
    · rename_i h0
      exact absurd (heappop_eq_none h0) hne
    · rename_i state0 others h0
      have hlen := (heappop_perm h0).length_eq
      split
      · rename_i h1
        rw [heappop_eq_none h1] at hlen
        exact List.length_eq_one_iff.1 hlen.symm
      · rename_i state1 rest h1
        have hlen1 := (heappop_perm h1).length_eq
        simp only [List.length_cons] at hlen hlen1
        exact ih (List.cons_ne_nil _ _) (by rw [List.length_cons]; omega)

/-- **The state that is left** has all items, and what merging keeps. -/
theorem finalState_spec {P : State k → Prop} (hmerge : ∀ s other, P s → P other → P (s.merge other))
    {states : List (State k)} (hne : states ≠ []) (h : ∀ s ∈ states, P s) :
    ∃ finalState, mergeStates states.length states = [finalState] ∧ P finalState ∧
      finalState.items.Perm (states.flatMap State.items) := by
  obtain ⟨finalState, hfinal⟩ := length_mergeStates hne (Nat.le_refl _)
  have hall := mergeStates_run hmerge states.length h
  have hitems := mergeStates_items states.length states
  rw [hfinal] at hall
  rw [hfinal, List.flatMap_singleton] at hitems
  exact ⟨finalState, hfinal, hall finalState (List.mem_singleton_self _), hitems⟩

end Loop

/-! ## The partitions -/

theorem sortedSeqlenList_perm (seqlenList : List ℕ) :
    ((sortedSeqlenList seqlenList).map Prod.fst).Perm (List.range seqlenList.length) := by
  unfold sortedSeqlenList
  rw [List.map_map]
  have hperm := (List.perm_insertionSort (fun a b => a ≤ b) (seqlenList.zipIdx.map toLex)).map
    (Prod.fst ∘ fun item : ℕ ×ₗ ℕ => ((ofLex item).2, (ofLex item).1))
  rw [List.map_map] at hperm
  have hidx : seqlenList.zipIdx.map ((Prod.fst ∘ fun item : ℕ ×ₗ ℕ => ((ofLex item).2, (ofLex item).1)) ∘ toLex) =
      List.range seqlenList.length := by
    rw [List.range_eq_range', ← List.zipIdx_map_snd]
    rfl
  rwa [hidx] at hperm

theorem new_singleton {k : ℕ} (hpos : 1 ≤ k) (item : ℕ × ℕ) :
    ∃ s : State k, State.new k [item] = .ok s ∧ s.Filled ∧ s.items.Perm [item] := by
  have hlen : ([item].map (fun item => ItemSet.empty.add item.1 item.2) ++
      List.replicate (k - [item].length) ItemSet.empty).length = k := by
    simp only [List.length_append, List.length_map, List.length_replicate, List.length_singleton]
    omega
  have hitems := State.items_ofSets _ hlen
  have hflat : ([item].map (fun item => ItemSet.empty.add item.1 item.2) ++
      List.replicate (k - [item].length) ItemSet.empty).flatMap ItemSet.items = [item] := by
    rw [List.flatMap_append, List.flatMap_replicate]
    simp [ItemSet.empty, ItemSet.add]
  rw [hflat] at hitems
  refine ⟨State.ofSets _ hlen, ?_, ?_, hitems⟩
  · unfold State.new
    rw [if_pos (.inl rfl), dif_pos (by simpa using hpos)]
  · unfold State.Filled
    rw [State.filled_ofSets, hitems.length_eq, List.map_append, List.map_replicate, List.count_append]
    simp [ItemSet.empty, ItemSet.add, hpos, List.count_replicate]

variable {seqlenList : List ℕ}

/-- **The last state**, if none of the sets has to have a given size: what each item starts with and merging keeps. -/
theorem karmarkarKarp_state {k : ℕ} {P : State k → Prop} (hpos : 1 ≤ k) (hne : seqlenList ≠ [])
    (hmerge : ∀ s other, P s → P other → P (s.merge other))
    (hstart : ∀ item ∈ sortedSeqlenList seqlenList, ∀ s, State.new k [item] = .ok s → P s) :
    ∃ finalState : State k, karmarkarKarp seqlenList k false = .ok finalState.getPartitions ∧ P finalState ∧
      finalState.items.Perm (sortedSeqlenList seqlenList) := by
  choose start hnew hfilled hitems using fun item => @new_singleton k hpos item
  have hinit : initialStates seqlenList k false = .ok ((sortedSeqlenList seqlenList).map start) :=
    mapM_eq_map fun item _ => hnew item
  have hstates : (sortedSeqlenList seqlenList).map start ≠ [] := by
    intro hnil
    have hlen := (sortedSeqlenList_perm seqlenList).length_eq
    rw [List.length_map, List.length_range, List.map_eq_nil_iff.1 hnil] at hlen
    exact hne (List.length_eq_zero_iff.1 hlen.symm)
  obtain ⟨finalState, hfinal, hP, hall⟩ := finalState_spec hmerge hstates fun s hs => by
    obtain ⟨item, hmem, rfl⟩ := List.mem_map.1 hs
    exact hstart item hmem _ (hnew item)
  refine ⟨finalState, ?_, hP, ?_⟩
  · unfold karmarkarKarp
    rw [hinit]
    simp only [bind, Except.bind, hfinal, Bool.false_and]
    rw [List.find?_eq_none.2 (by simp)]
  · rw [List.flatMap_map] at hall
    refine hall.trans ?_
    have hflat := List.Perm.flatMap_left (sortedSeqlenList seqlenList) fun item _ => hitems item
    rwa [List.flatMap_singleton'] at hflat

/-- **The items of the partitions**, if none of the sets has to have a given size. -/
theorem karmarkarKarp_eq {k : ℕ} (hpos : 1 ≤ k) (hle : k ≤ seqlenList.length) :
    ∃ partitions, karmarkarKarp seqlenList k false = .ok partitions ∧ partitions.length = k ∧
      IsPartition seqlenList.length partitions := by
  have hsorted := sortedSeqlenList_perm seqlenList
  have hlen := hsorted.length_eq
  rw [List.length_map, List.length_range] at hlen
  have hne : seqlenList ≠ [] := List.ne_nil_of_length_pos (by omega)
  -- the merges leave one state, with all items and as many non-empty sets as possible
  obtain ⟨finalState, hkk, hfilled, hperm⟩ := karmarkarKarp_state hpos hne (fun _ _ => State.Filled.merge)
    fun item _ s hs => by
      obtain ⟨s', hs', hfilled, -⟩ := new_singleton hpos item
      rw [hs', Except.ok.injEq] at hs
      exact hs ▸ hfilled
  refine ⟨finalState.getPartitions, hkk, ?_, ?_⟩
  · rw [State.getPartitions, List.length_map, finalState.length_eq]
  -- there are at least `k` items, so no set is empty
  · refine ⟨hfilled.nonempty (by rw [hperm.length_eq, hlen]; exact hle), ?_⟩
    rw [State.getPartitions_flatten]
    exact (hperm.map Prod.fst).trans hsorted

theorem check_eq {n : ℕ} {partitions : List (List ℕ)} (h : IsPartition n partitions) :
    checkAndSortPartitions n partitions.length partitions =
      .ok (partitions.map fun partition => partition.insertionSort fun a b => a ≤ b) := by
  have hnone : partitions.findIdx? List.isEmpty = none := by
    rw [List.findIdx?_eq_none_iff]
    intro l hl
    exact List.isEmpty_eq_false_iff.2 (h.nonempty l hl)
  have hcover : (∀ i ∈ partitions.flatten, i ∈ List.range n) ∧ ∀ i ∈ List.range n, i ∈ partitions.flatten :=
    ⟨fun i hi => h.perm.mem_iff.1 hi, fun i hi => h.perm.mem_iff.2 hi⟩
  unfold checkAndSortPartitions
  rw [if_neg (not_not.2 rfl)]
  simp only [hnone]
  rw [if_pos hcover]

theorem sorted_partition {n : ℕ} {partitions : List (List ℕ)} (h : IsPartition n partitions) :
    IsPartition n (partitions.map fun partition => partition.insertionSort fun a b => a ≤ b) ∧
      ∀ l ∈ partitions.map (fun partition => partition.insertionSort fun a b => a ≤ b), l.Pairwise (· < ·) := by
  have hflat : ∀ lists : List (List ℕ),
      (lists.map fun l => l.insertionSort fun a b => a ≤ b).flatten.Perm lists.flatten := by
    intro lists
    induction lists with
    | nil => exact .refl _
    | cons l lists ih => exact (List.perm_insertionSort _ l).append ih
  refine ⟨⟨?_, (hflat partitions).trans h.perm⟩, ?_⟩
  · intro l hl
    obtain ⟨partition, hmem, rfl⟩ := List.mem_map.1 hl
    intro hnil
    have hlen := (List.perm_insertionSort (fun a b => a ≤ b) partition).length_eq
    rw [hnil] at hlen
    exact h.nonempty partition hmem (List.length_eq_zero_iff.1 hlen.symm)
  · intro l hl
    have hnodup : l.Nodup := by
      have hall : (partitions.map fun partition => partition.insertionSort fun a b => a ≤ b).flatten.Nodup :=
        ((hflat partitions).trans h.perm).nodup_iff.2 List.nodup_range
      exact (List.nodup_flatten.1 hall).1 l hl
    obtain ⟨partition, -, rfl⟩ := List.mem_map.1 hl
    have hle := List.pairwise_insertionSort (fun a b : ℕ => a ≤ b) partition
    exact (hle.and hnodup).imp fun h => Nat.lt_of_le_of_ne h.1 h.2

/-- **`get_seqlen_balanced_partitions`** passes its own checks for `1 ≤ k ≤ n`. -/
theorem balancedPartitions_eq {k : ℕ} (hpos : 1 ≤ k) (hle : k ≤ seqlenList.length) :
    ∃ partitions, getSeqlenBalancedPartitions seqlenList k false = .ok partitions ∧
      IsPartition seqlenList.length partitions ∧ ∀ l ∈ partitions, l.Pairwise (· < ·) := by
  obtain ⟨partitions, hkk, rfl, hpartition⟩ := karmarkarKarp_eq hpos hle
  obtain ⟨hsorted, hincreasing⟩ := sorted_partition hpartition
  refine ⟨_, ?_, hsorted, hincreasing⟩
  unfold getSeqlenBalancedPartitions
  rw [if_neg (by omega), hkk]
  exact check_eq hpartition

theorem karmarkarKarp_zero (seqlenList : List ℕ) (partitions : List (List ℕ)) :
    karmarkarKarp seqlenList 0 false ≠ .ok partitions := by
  intro h
  obtain ⟨states, hstates, h⟩ := bind_eq_ok.1 h
  have hnil : sortedSeqlenList seqlenList = [] := by
    by_contra hne
    obtain ⟨item, rest, hcons⟩ := List.exists_cons_of_ne_nil hne
    obtain ⟨s, hs⟩ := ok_of_mapM hstates (a := item) (by rw [hcons]; exact List.mem_cons_self)
    cases hs
  unfold initialStates at hstates
  simp only [hnil, List.mapM_nil] at hstates
  cases hstates
  cases h

theorem balancedPartitions_of_ok {k : ℕ} {partitions : List (List ℕ)}
    (h : getSeqlenBalancedPartitions seqlenList k false = .ok partitions) :
    0 < seqlenList.length ∧ IsPartition seqlenList.length partitions ∧ ∀ l ∈ partitions, l.Pairwise (· < ·) := by
  have hle : k ≤ seqlenList.length := by
    by_contra hlt
    unfold getSeqlenBalancedPartitions at h
    rw [if_pos (by omega)] at h
    cases h
  have hpos : 1 ≤ k := by
    by_contra hzero
    obtain rfl : k = 0 := by omega
    unfold getSeqlenBalancedPartitions at h
    rw [if_neg (Nat.not_lt_zero _)] at h
    obtain ⟨partitions', hkk, -⟩ := bind_eq_ok.1 h
    exact karmarkarKarp_zero seqlenList partitions' hkk
  obtain ⟨partitions', h', hall⟩ := balancedPartitions_eq hpos hle
  rw [h'] at h
  cases h
  exact ⟨by omega, hall⟩

end Opd.Verl.SeqlenBalancing

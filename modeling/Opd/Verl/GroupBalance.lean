import Opd.Lib.Runs
import Opd.Verl.BalancedPartitions
import Opd.Verl.DynamicBatch

/-!
# Balanced groups

Samples with the same uid are next to each other. `get_group_balanced_partitions` puts them into groups, and balances
the groups as a whole.

* `buildGroups_isRuns`: the groups are the runs of equal uids.
* `groupBalanced_spec`: the samples of the balanced groups.
-/

namespace Opd.Verl.GroupBalance

open Lib SeqlenBalancing

variable {υ : Type} [DecidableEq υ]

/-! ## Groups -/

/-- The state of the loop over the samples. A uid may be `None`, and `current_uid` is at first. -/
structure GroupState (υ : Type) where
  groups : List (List ℕ × ℕ)
  currentUid : Option υ
  currentIndices : List ℕ
  currentSeqlen : ℕ

def GroupState.init : GroupState υ := ⟨[], none, [], 0⟩

/-- `if current_indices: groups.append((current_indices, current_seqlen))` -/
def GroupState.flush (s : GroupState υ) : List (List ℕ × ℕ) :=
  if s.currentIndices = [] then s.groups else s.groups ++ [(s.currentIndices, s.currentSeqlen)]

def GroupState.add (s : GroupState υ) (i seqlen : ℕ) (uid : Option υ) : GroupState υ :=
  if uid ≠ s.currentUid then ⟨s.flush, uid, [i], seqlen⟩
  else { s with currentIndices := s.currentIndices ++ [i], currentSeqlen := s.currentSeqlen + seqlen }

def groupLoop (seqlenList : List ℕ) (uidList : List (Option υ)) : GroupState υ :=
  (seqlenList.zip uidList).zipIdx.foldl (fun s sample => s.add sample.2 sample.1.1 sample.1.2) .init

def buildGroups (seqlenList : List ℕ) (uidList : List (Option υ)) : List (List ℕ × ℕ) :=
  (groupLoop seqlenList uidList).flush

def groupWorkload (seqlenList : List ℕ) (group : List ℕ × ℕ) : ℕ :=
  (group.1.map fun i => calculateWorkload (seqlenList.getD i 0)).sum

def sampleIndices (groups : List (List ℕ × ℕ)) (groupPartition : List ℕ) : Except BalanceError (List ℕ) := do
  let members ← groupPartition.mapM fun groupIdx =>
    match groups[groupIdx]? with
    | some group => .ok group.1
    | none => .error .indexError
  .ok (members.flatten.insertionSort fun a b => a ≤ b)

/-- `get_group_balanced_partitions` -/
def getGroupBalancedPartitions (seqlenList : List ℕ) (uidList : List (Option υ)) (k : ℕ) :
    Except BalanceError (List (List ℕ)) :=
  if seqlenList.length ≠ uidList.length then
    .error (.assertionError "seqlen_list and uid_list must have same length")
  else
    let groups := buildGroups seqlenList uidList
    if groups.length < k then
      .error (.assertionError (s!"Number of uid groups ({groups.length}) must be >= k_partitions ({k}). " ++
        "Consider reducing world_size or increasing batch_size."))
    else do
      let groupPartitions ← getSeqlenBalancedPartitions (groups.map (groupWorkload seqlenList)) k true
      groupPartitions.mapM (sampleIndices groups)

/-! ## The loop -/

def uidOf (uidList : List (Option υ)) (i : ℕ) : Option υ := uidList.getD i none

/-- What holds of the loop after some samples. -/
structure Built (uidList : List (Option υ)) (i : ℕ) (s : GroupState υ) : Prop where
  runs : IsRuns (uidOf uidList) i (s.flush.map Prod.fst)
  current : ∀ j ∈ s.currentIndices, uidOf uidList j = s.currentUid
  started : 0 < i → s.currentIndices ≠ []

omit [DecidableEq υ] in
theorem flush_map (s : GroupState υ) (h : s.currentIndices ≠ []) :
    s.flush.map Prod.fst = s.groups.map Prod.fst ++ [s.currentIndices] := by
  rw [GroupState.flush, if_neg h, List.map_append, List.map_singleton]

/-- **One more sample.** -/
theorem Built.add {uidList : List (Option υ)} {i seqlen : ℕ} {uid : Option υ} {s : GroupState υ}
    (h : Built uidList i s) (huid : uidOf uidList i = uid) : Built uidList (i + 1) (s.add i seqlen uid) := by
  by_cases hne : uid ≠ s.currentUid
  · have hadd : s.add i seqlen uid = ⟨s.flush, uid, [i], seqlen⟩ := if_pos hne
    rw [hadd]
    refine ⟨?_, fun j hj => ?_, fun _ => List.cons_ne_nil _ _⟩
    · rw [flush_map _ (List.cons_ne_nil _ _)]
      refine h.runs.snoc fun run hrun j hj => ?_
      by_cases hempty : s.currentIndices = []
      · obtain rfl : i = 0 := by
          by_contra hpos
          exact h.started (Nat.pos_of_ne_zero hpos) hempty
        rw [h.runs.eq_nil] at hrun
        cases hrun
      · rw [flush_map _ hempty, List.getLast?_concat] at hrun
        obtain rfl := Option.some.inj hrun
        rw [h.current j hj, huid]
        exact Ne.symm hne
    · rw [List.mem_singleton.1 hj]
      exact huid
  · have hadd : s.add i seqlen uid = { s with
        currentIndices := s.currentIndices ++ [i], currentSeqlen := s.currentSeqlen + seqlen } := if_neg hne
    have hcurrent := not_not.1 hne
    have hsnoc : s.currentIndices ++ [i] ≠ [] := List.append_ne_nil_of_right_ne_nil _ (List.cons_ne_nil _ _)
    rw [hadd]
    refine ⟨?_, fun j hj => ?_, fun _ => hsnoc⟩
    · rw [flush_map _ hsnoc]
      by_cases hempty : s.currentIndices = []
      · -- the first uid is None: the group starts here
        obtain rfl : i = 0 := by
          by_contra hpos
          exact h.started (Nat.pos_of_ne_zero hpos) hempty
        have hgroups : s.groups.map Prod.fst = [] := by
          have hnil := h.runs.eq_nil
          rwa [GroupState.flush, if_pos hempty] at hnil
        simp only [hgroups, hempty, List.nil_append]
        exact isRuns_zero.snoc fun run hrun => by cases hrun
      · have hruns := h.runs
        rw [flush_map _ hempty] at hruns
        exact hruns.extend fun j hj => by rw [h.current j hj, huid, hcurrent]
    · rcases List.mem_append.1 hj with hj | hj
      · exact h.current j hj
      · rw [List.mem_singleton.1 hj, huid]
        exact hcurrent

theorem buildGroups_isRuns {seqlenList : List ℕ} {uidList : List (Option υ)}
    (h : seqlenList.length = uidList.length) :
    IsRuns (uidOf uidList) uidList.length ((buildGroups seqlenList uidList).map Prod.fst) := by
  have hloop : ∀ (samples : List (ℕ × Option υ)) (i : ℕ) (s : GroupState υ), Built uidList i s →
      (∀ j, (samples[j]?).map Prod.snd = uidList[i + j]?) →
      Built uidList (i + samples.length)
        ((samples.zipIdx i).foldl (fun s sample => s.add sample.2 sample.1.1 sample.1.2) s) := by
    intro samples
    induction samples with
    | nil => exact fun i s hs _ => hs
    | cons sample samples ih =>
      intro i s hs huids
      rw [List.zipIdx_cons, List.foldl_cons, List.length_cons, ← Nat.add_assoc, Nat.add_right_comm]
      refine ih (i + 1) _ (hs.add ?_) fun j => ?_
      · have hfirst := huids 0
        rw [uidOf, List.getD_eq_getElem?_getD, ← Nat.add_zero i, ← hfirst]
        rfl
      · have hnext := huids (j + 1)
        rw [List.getElem?_cons_succ] at hnext
        rw [hnext]
        congr 1
        omega
  have hinit : Built uidList 0 (GroupState.init : GroupState υ) :=
    ⟨isRuns_zero, fun j hj => absurd hj List.not_mem_nil, fun hpos => absurd hpos (Nat.lt_irrefl 0)⟩
  have hbuilt := hloop (seqlenList.zip uidList) 0 .init hinit (by
    intro j
    rw [Nat.zero_add, ← List.getElem?_map, List.map_snd_zip h.ge])
  rw [Nat.zero_add, List.length_zip, h, Nat.min_self] at hbuilt
  exact hbuilt.runs

/-! ## Balanced groups -/

omit [DecidableEq υ] in
theorem map_uidOf (uidList : List (Option υ)) : (List.range uidList.length).map (uidOf uidList) = uidList := by
  refine List.ext_getElem (by simp) fun i hi hi' => ?_
  rw [List.getElem_map, List.getElem_range, uidOf, List.getD_eq_getElem?_getD, List.getElem?_eq_getElem hi']
  rfl

def members (groups : List (List ℕ × ℕ)) (idx : ℕ) : List ℕ := (groups.getD idx ([], 0)).1

theorem map_members (groups : List (List ℕ × ℕ)) :
    (List.range groups.length).map (members groups) = groups.map Prod.fst := by
  refine List.ext_getElem (by simp) fun i hi hi' => ?_
  have hlt : i < groups.length := by simpa using hi
  rw [List.getElem_map, List.getElem_map, List.getElem_range, members, List.getD_eq_getElem?_getD,
    List.getElem?_eq_getElem hlt]
  rfl

theorem sampleIndices_eq {groups : List (List ℕ × ℕ)} {partition : List ℕ}
    (h : ∀ idx ∈ partition, idx < groups.length) :
    sampleIndices groups partition = .ok ((partition.flatMap (members groups)).insertionSort fun a b => a ≤ b) := by
  have hmembers : partition.mapM (fun groupIdx =>
      match groups[groupIdx]? with
      | some group => (.ok group.1 : Except BalanceError (List ℕ))
      | none => .error .indexError) = .ok (partition.map (members groups)) := by
    refine mapM_eq_map fun idx hidx => ?_
    rw [members, List.getD_eq_getElem?_getD, List.getElem?_eq_getElem (h idx hidx)]
    rfl
  unfold sampleIndices
  rw [hmembers, List.flatMap_def]
  rfl

structure GroupBalanced (uidList : List (Option υ)) (k : ℕ) (lists : List (List ℕ)) : Prop where
  length_eq : lists.length = k
  sorted : ∀ l ∈ lists, l.Pairwise (· < ·)
  partition : IsPartition uidList.length lists
  together : ∀ l ∈ lists, ∀ i ∈ l, ∀ j < uidList.length, uidOf uidList i = uidOf uidList j → j ∈ l
  even : ∀ l ∈ lists, (l.map (uidOf uidList)).dedup.length = uidList.dedup.length / k

section Expand

variable {uidList : List (Option υ)} {groups : List (List ℕ × ℕ)}

omit [DecidableEq υ] in
theorem apart_members (hapart : (groups.map Prod.fst).Pairwise (NoCommonLabel (uidOf uidList))) {a b : ℕ}
    (ha : a < groups.length) (hb : b < groups.length) (hne : a ≠ b) :
    NoCommonLabel (uidOf uidList) (members groups a) (members groups b) := by
  rw [← map_members, List.pairwise_map] at hapart
  have hsymm : Std.Symm fun a b => NoCommonLabel (uidOf uidList) (members groups a) (members groups b) :=
    ⟨fun a b h i hi j hj heq => h j hj i hi heq.symm⟩
  exact hapart.forall (List.mem_range.2 ha) (List.mem_range.2 hb) hne

theorem groupBalanced_of_partition {k : ℕ} {partitions : List (List ℕ)}
    (hruns : IsRuns (uidOf uidList) uidList.length (groups.map Prod.fst))
    (hapart : (groups.map Prod.fst).Pairwise (NoCommonLabel (uidOf uidList)))
    (hpartition : IsPartition groups.length partitions) (hk : partitions.length = k)
    (hnodup : ∀ partition ∈ partitions, partition.Nodup)
    (hsizes : ∀ partition ∈ partitions, partition.length = uidList.dedup.length / k) :
    GroupBalanced uidList k (partitions.map fun partition =>
      (partition.flatMap (members groups)).insertionSort fun a b => a ≤ b) := by
  have hlt : ∀ partition ∈ partitions, ∀ idx ∈ partition, idx < groups.length := fun partition hmem idx hidx =>
    hpartition.mem_iff.1 (List.mem_flatten.2 ⟨partition, hmem, hidx⟩)
  have hgroup : ∀ idx < groups.length, members groups idx ≠ [] ∧ OneLabel (uidOf uidList) (members groups idx) := by
    intro idx hidx
    have hmem : members groups idx ∈ groups.map Prod.fst := by
      rw [← map_members]
      exact List.mem_map_of_mem (List.mem_range.2 hidx)
    exact ⟨hruns.nonempty _ hmem, hruns.same _ hmem⟩
  have hflatMap : (List.range groups.length).flatMap (members groups) = List.range uidList.length := by
    rw [List.flatMap_def, map_members, hruns.flatten]
  have hunsorted : IsPartition uidList.length
      (partitions.map fun partition => partition.flatMap (members groups)) := by
    refine ⟨?_, ?_⟩
    · intro l hl
      obtain ⟨partition, hmem, rfl⟩ := List.mem_map.1 hl
      obtain ⟨idx, hidx⟩ := List.exists_mem_of_ne_nil _ (hpartition.nonempty partition hmem)
      obtain ⟨i, hi⟩ := List.exists_mem_of_ne_nil _ (hgroup idx (hlt partition hmem idx hidx)).1
      exact List.ne_nil_of_mem (List.mem_flatMap.2 ⟨idx, hidx, hi⟩)
    · have hassoc : (partitions.map fun partition => partition.flatMap (members groups)).flatten =
          partitions.flatten.flatMap (members groups) := by
        rw [List.flatMap_def, List.map_flatten, List.flatten_flatten, List.map_map]
        rfl
      rw [hassoc, ← hflatMap]
      exact hpartition.perm.flatMap_right _
  obtain ⟨hsorted, hincreasing⟩ := sorted_partition hunsorted
  rw [List.map_map] at hsorted hincreasing
  refine ⟨by rw [List.length_map, hk], hincreasing, hsorted, ?_, ?_⟩
  · intro l hl i hi j hj heq
    obtain ⟨partition, hmem, rfl⟩ := List.mem_map.1 hl
    rw [List.mem_insertionSort, List.mem_flatMap] at hi ⊢
    obtain ⟨a, ha, hia⟩ := hi
    rw [← List.mem_range, ← hflatMap, List.mem_flatMap] at hj
    obtain ⟨b, hb, hjb⟩ := hj
    by_cases hab : a = b
    · exact ⟨a, ha, hab ▸ hjb⟩
    · exact absurd heq (apart_members hapart (hlt partition hmem a ha) (List.mem_range.1 hb) hab i hia j hjb)
  · intro l hl
    obtain ⟨partition, hmem, rfl⟩ := List.mem_map.1 hl
    have hperm := ((List.perm_insertionSort (fun a b => a ≤ b) (partition.flatMap (members groups))).map
      (uidOf uidList)).dedup
    have hlabels := @length_dedup_labels _ (uidOf uidList) _ (partition.map (members groups))
      (by
        intro run hrun
        obtain ⟨idx, hidx, rfl⟩ := List.mem_map.1 hrun
        exact (hgroup idx (hlt partition hmem idx hidx)).1)
      (by
        intro run hrun
        obtain ⟨idx, hidx, rfl⟩ := List.mem_map.1 hrun
        exact (hgroup idx (hlt partition hmem idx hidx)).2)
      (by
        rw [List.pairwise_map]
        refine (hnodup partition hmem).imp_of_mem fun ha hb hne => ?_
        exact apart_members hapart (hlt partition hmem _ ha) (hlt partition hmem _ hb) hne)
    rw [List.length_map, ← List.flatMap_def] at hlabels
    rw [hperm.length_eq, hlabels, hsizes partition hmem]

end Expand

/-- **Balanced groups.** With samples, and equal uids next to each other, for a `k` that divides the number of uids,
no assertion is raised. The `k` lists are increasing and a partition of the samples, the samples with a uid are in one
list, and all lists have as many uids. -/
theorem groupBalanced_spec {seqlenList : List ℕ} {uidList : List (Option υ)} {k : ℕ}
    (hlength : seqlenList.length = uidList.length) (hne : uidList ≠ [])
    (hcontiguous : Contiguous (uidOf uidList) uidList.length) (hdvd : k ∣ uidList.dedup.length) :
    ∃ lists, getGroupBalancedPartitions seqlenList uidList k = .ok lists ∧ GroupBalanced uidList k lists := by
  have hruns := buildGroups_isRuns hlength
  have hapart := hruns.pairwise hcontiguous
  have hcount : (buildGroups seqlenList uidList).length = uidList.dedup.length := by
    have hlabels := length_dedup_labels hruns.nonempty hruns.same hapart
    rw [hruns.flatten, map_uidOf, List.length_map] at hlabels
    exact hlabels.symm
  have hgroupsPos : 0 < uidList.dedup.length := by
    obtain ⟨uid, huid⟩ := List.exists_mem_of_ne_nil _ hne
    exact List.length_pos_of_mem (List.mem_dedup.2 huid)
  have hle : k ≤ uidList.dedup.length := Nat.le_of_dvd hgroupsPos hdvd
  have hworkloads : ((buildGroups seqlenList uidList).map (groupWorkload seqlenList)).length =
      uidList.dedup.length := by
    rw [List.length_map, hcount]
  obtain ⟨partitions, hrun, hk, hnonempty, hincreasing, hdisjoint, hcover, hsizes⟩ :=
    balancedPartitions_spec ((buildGroups seqlenList uidList).map (groupWorkload seqlenList)) k true
      (Nat.pos_of_dvd_of_pos hdvd hgroupsPos) (by rwa [hworkloads]) (fun _ => by rwa [hworkloads])
  rw [hworkloads] at hcover hsizes
  have hnodup : ∀ partition ∈ partitions, partition.Nodup := fun l hl => (hincreasing l hl).imp Nat.ne_of_lt
  have hpartition : IsPartition (buildGroups seqlenList uidList).length partitions := by
    refine ⟨hnonempty, (List.perm_ext_iff_of_nodup (List.nodup_flatten.2 ⟨hnodup, hdisjoint⟩) List.nodup_range).2 ?_⟩
    intro i
    rw [hcover, List.mem_range, hcount]
  have hsamples : partitions.mapM (sampleIndices (buildGroups seqlenList uidList)) = .ok (partitions.map
      fun partition =>
        (partition.flatMap (members (buildGroups seqlenList uidList))).insertionSort fun a b => a ≤ b) := by
    refine mapM_eq_map fun partition hmem => sampleIndices_eq fun idx hidx => ?_
    exact hpartition.mem_iff.1 (List.mem_flatten.2 ⟨partition, hmem, hidx⟩)
  refine ⟨_, ?_, groupBalanced_of_partition hruns hapart hpartition hk hnodup (hsizes rfl)⟩
  unfold getGroupBalancedPartitions
  rw [if_neg (not_not.2 hlength)]
  simp only
  rw [if_neg (by rw [hcount]; exact Nat.not_lt.2 hle), hrun]
  exact hsamples

def fourUids : List (Option ℕ) := [none, none, some 0, some 0]

theorem groupBalanced_fourUids :
    ∃ lists, getGroupBalancedPartitions [3, 4, 5, 6] fourUids 2 = .ok lists ∧ GroupBalanced fourUids 2 lists := by
  refine groupBalanced_spec rfl (List.cons_ne_nil _ _) ?_ ⟨1, rfl⟩
  have hall : ∀ k < 4, ∀ j < 4, ∀ i < 4, i ≤ j ∧ j ≤ k ∧ uidOf fourUids i = uidOf fourUids k →
      uidOf fourUids i = uidOf fourUids j := by decide
  intro i j k hij hjk hk heq
  exact hall k hk j (hjk.trans_lt hk) i (hij.trans_lt (hjk.trans_lt hk)) ⟨hij, hjk, heq⟩

/-- **Without samples** there are no groups, and one list cannot be made of them. -/
theorem not_groupBalanced_nil :
    Contiguous (uidOf ([] : List (Option ℕ))) 0 ∧ 1 ∣ ([] : List (Option ℕ)).dedup.length ∧
      ¬ ∃ lists, getGroupBalancedPartitions [] ([] : List (Option ℕ)) 1 = .ok lists ∧
        GroupBalanced ([] : List (Option ℕ)) 1 lists := by
  refine ⟨fun i j k _ _ hk => absurd hk (Nat.not_lt_zero k), ⟨0, rfl⟩, ?_⟩
  rintro ⟨lists, hrun, -⟩
  cases hrun

end Opd.Verl.GroupBalance

import Mathlib.Algebra.Order.Field.Rat
import Opd.Lib.Dict
import Opd.Lib.GreedyMatch
import Opd.Lib.Overlap

/-!
# The reward of tool calls

`compute_tool_call_reward` compares the predicted calls with the ground truth. It adds the similarity of the names and,
for each call of the ground truth, the score of the best predicted call with its name that no earlier call has used.

* `scoreGtTools_spec`: the loop over the ground truth is a greedy matching.
* `totalScore_eq_iff`: the calls with the full score are the equal ones.
* `rewardLaw`: the reward is within its bounds, and the largest one is that of a permutation. It does not depend on the
  order of the ground truth if its calls with a common name are equal.
-/

namespace Opd.Verl.ToolCallReward

open Lib

structure Tool (V : Type) where
  name : String
  parameters : Dict String V

variable {V : Type} [DecidableEq V]

/-- `==` of dictionaries: as many items, and the same values. -/
def paramsEq (params params' : Dict String V) : Bool :=
  params.items.length == params'.items.length && params.items.all fun item => params'.get? item.1 == some item.2

/-- `==` of tool calls. -/
def toolEq (tool tool' : Tool V) : Bool := tool.name == tool'.name && paramsEq tool.parameters tool'.parameters

/-- `==` of lists of tool calls. -/
def toolsEq (tools tools' : List (Tool V)) : Bool := tools.isEqv tools' toolEq

section Score

variable (K : Type) [Field K] [LinearOrder K]

/-- `match_score`: the number of the common entries by that of all entries, counted with repetitions. -/
def matchScore {α : Type} [DecidableEq α] (list1 list2 : List α) : K :=
  if list1 = list2 then 1
  else if list1.isEmpty || list2.isEmpty then 0
  else
    let intersection := overlap list1 list2
    let maxPossible : ℤ := list1.length + list2.length - intersection
    if 0 < maxPossible then intersection / maxPossible else 0

/-- The similarity of the parameter names, and a point for each parameter with the right value. -/
def totalScore (gtParams pdParams : Dict String V) : K :=
  let paramScore := matchScore K gtParams.keys pdParams.keys
  let correctnessScore := ((gtParams.items.filter fun item => pdParams.get? item.1 = some item.2).map fun _ => 1).sum
  paramScore + correctnessScore

variable {K}

/-- One predicted call: it is the best one if its score is larger than that of the calls before. -/
def compare (usedPdIndices : List ℕ) (gtTool : Tool V) (best : K × Option ℕ) (entry : Tool V × ℕ) : K × Option ℕ :=
  if entry.2 ∈ usedPdIndices ∨ entry.1.name ≠ gtTool.name then best
  else
    let score := totalScore K gtTool.parameters entry.1.parameters
    if best.1 < score then (score, some entry.2) else best

def bestMatch (usedPdIndices : List ℕ) (pdTools : List (Tool V)) (gtTool : Tool V) : K × Option ℕ :=
  pdTools.zipIdx.foldl (compare usedPdIndices gtTool) (0, none)

/-- The variables of the loop over the ground truth. -/
structure Scores (K : Type) where
  score : K
  localMaxPossible : K
  usedPdIndices : List ℕ

def scoreGtTool (pdTools : List (Tool V)) (s : Scores K) (gtTool : Tool V) : Scores K :=
  let localMaxPossible := s.localMaxPossible + (1 + (gtTool.parameters.items.length : K))
  match bestMatch s.usedPdIndices pdTools gtTool with
  | (bestMatchScore, some index) => ⟨s.score + bestMatchScore, localMaxPossible, index :: s.usedPdIndices⟩
  | (_, none) => ⟨s.score, localMaxPossible, s.usedPdIndices⟩

def scoreGtTools (gtTools pdTools : List (Tool V)) : Scores K :=
  gtTools.foldl (scoreGtTool pdTools) ⟨matchScore K (gtTools.map Tool.name) (pdTools.map Tool.name), 1, []⟩

/-- `compute_tool_call_reward` -/
def computeToolCallReward (gtTools pdTools : List (Tool V)) (maxPossibleReward minPossibleReward : K) : K :=
  if toolsEq gtTools pdTools then maxPossibleReward
  else
    let s : Scores K := scoreGtTools gtTools pdTools
    (maxPossibleReward - minPossibleReward) * s.score / s.localMaxPossible + minPossibleReward

end Score

/-! ## Equal calls -/

/-- What `==` compares: the name, and the value of each parameter. -/
def Tool.value (tool : Tool V) : String × (String → Option V) := (tool.name, tool.parameters.get?)

/-- **A permutation of the other calls**, up to `==`. -/
def SameCalls (tools tools' : List (Tool V)) : Prop := (tools.map Tool.value).Perm (tools'.map Tool.value)

omit [DecidableEq V] in
theorem items_perm_iff {params params' : Dict String V} :
    params.items.Perm params'.items ↔ params.get? = params'.get? := by
  rw [List.perm_ext_iff_of_nodup params.items_nodup params'.items_nodup]
  constructor
  · intro h
    funext k
    refine Option.ext fun v => ?_
    rw [← Dict.mem_items, ← Dict.mem_items]
    exact h (k, v)
  · rintro h ⟨k, v⟩
    rw [Dict.mem_items, Dict.mem_items, h]

theorem paramsEq_iff {params params' : Dict String V} : paramsEq params params' = true ↔ params.get? = params'.get? := by
  rw [← items_perm_iff, paramsEq, Bool.and_eq_true, beq_iff_eq, List.all_eq_true]
  constructor
  · rintro ⟨hlen, hall⟩
    refine List.Subperm.perm_of_length_le (List.subperm_of_subset params.items_nodup fun item hitem => ?_) hlen.ge
    exact Dict.mem_items.2 (eq_of_beq (hall item hitem))
  · intro h
    refine ⟨h.length_eq, fun item hitem => ?_⟩
    exact beq_iff_eq.2 (Dict.mem_items.1 (h.subset hitem))

theorem toolEq_iff {tool tool' : Tool V} : toolEq tool tool' = true ↔ tool.value = tool'.value := by
  rw [toolEq, Bool.and_eq_true, beq_iff_eq, paramsEq_iff]
  exact Prod.mk.injEq _ _ _ _ ▸ Iff.rfl

theorem toolsEq_iff {tools tools' : List (Tool V)} :
    toolsEq tools tools' = true ↔ tools.map Tool.value = tools'.map Tool.value := by
  unfold toolsEq
  induction tools generalizing tools' with
  | nil =>
    cases tools' with
    | nil => exact iff_of_true rfl rfl
    | cons tool' tools' => exact iff_of_false Bool.false_ne_true (List.cons_ne_nil _ _).symm
  | cons tool tools ih =>
    cases tools' with
    | nil => exact iff_of_false Bool.false_ne_true (List.cons_ne_nil _ _)
    | cons tool' tools' =>
      rw [List.isEqv, Bool.and_eq_true, toolEq_iff, ih, List.map_cons, List.map_cons, List.cons.injEq]

theorem sameCalls_of_toolsEq {tools tools' : List (Tool V)} (h : toolsEq tools tools' = true) :
    SameCalls tools tools' := List.Perm.of_eq (toolsEq_iff.1 h)

/-! ## The score of a predicted call -/

section Law

variable {K : Type} [Field K] [LinearOrder K]

theorem matchScore_eq [IsStrictOrderedRing K] {α : Type} [DecidableEq α] (list1 list2 : List α) :
    matchScore K list1 list2 = similarity K list1 list2 := by
  have hle := overlap_le_left list1 list2
  have hle' := overlap_le_right list1 list2
  unfold matchScore
  by_cases heq : list1 = list2
  · rw [if_pos heq]
    exact (similarity_eq_one_iff.2 (List.Perm.of_eq heq)).symm
  rw [if_neg heq, similarity]
  by_cases hempty : (list1.isEmpty || list2.isEmpty) = true
  · have hzero : overlap list1 list2 = 0 := by
      rcases (Bool.or_eq_true _ _).mp hempty with h | h
      · have hlen : list1.length = 0 := by rw [List.isEmpty_iff.1 h, List.length_nil]
        omega
      · have hlen : list2.length = 0 := by rw [List.isEmpty_iff.1 h, List.length_nil]
        omega
    have hne : list1.length + list2.length ≠ 0 := by
      intro hsum
      exact heq ((List.length_eq_zero_iff.1 (by omega)).trans (List.length_eq_zero_iff.1 (by omega)).symm)
    rw [if_pos hempty, if_neg hne, hzero, Nat.cast_zero, zero_div]
  · have hlen : list1.length ≠ 0 := by
      intro hzero
      rw [List.length_eq_zero_iff.1 hzero] at hempty
      exact hempty rfl
    have hne : list1.length + list2.length ≠ 0 := by omega
    have hcast : (list1.length + list2.length - overlap list1 list2 : ℤ) =
        (list1.length + list2.length - overlap list1 list2 : ℕ) := by omega
    have hpos : (0 : ℤ) < (list1.length + list2.length - overlap list1 list2 : ℕ) := by omega
    simp only [if_neg hempty, if_neg hne, hcast, if_pos hpos, Int.cast_natCast]

def correct (gtParams pdParams : Dict String V) : List (String × V) :=
  gtParams.items.filter fun item => pdParams.get? item.1 = some item.2

variable [IsStrictOrderedRing K]

theorem totalScore_eq (gtParams pdParams : Dict String V) :
    totalScore K gtParams pdParams = similarity K gtParams.keys pdParams.keys + ((correct gtParams pdParams).length : K) := by
  rw [totalScore, matchScore_eq, List.map_const', List.sum_replicate, nsmul_one]
  rfl

theorem length_correct_le (gtParams pdParams : Dict String V) :
    (correct gtParams pdParams).length ≤ gtParams.items.length := List.length_filter_le _ _

theorem totalScore_le (gtParams pdParams : Dict String V) :
    totalScore K gtParams pdParams ≤ 1 + (gtParams.items.length : K) := by
  rw [totalScore_eq]
  exact add_le_add (similarity_le_one _ _) (Nat.cast_le.2 (length_correct_le gtParams pdParams))

/-- **The full score** is that of equal parameters. -/
theorem totalScore_eq_iff {gtParams pdParams : Dict String V} :
    totalScore K gtParams pdParams = 1 + (gtParams.items.length : K) ↔ gtParams.get? = pdParams.get? := by
  have hle := similarity_le_one (K := K) gtParams.keys pdParams.keys
  have hle' : ((correct gtParams pdParams).length : K) ≤ gtParams.items.length :=
    Nat.cast_le.2 (length_correct_le gtParams pdParams)
  rw [totalScore_eq, ← items_perm_iff]
  constructor
  · intro h
    obtain ⟨hkeys, hcorrect⟩ := (add_eq_add_iff_eq_and_eq hle hle').1 h
    have hall := List.length_filter_eq_length_iff.1 (Nat.cast_injective hcorrect)
    have hlen : gtParams.items.length = pdParams.items.length := by
      have hperm := (similarity_eq_one_iff.1 hkeys).length_eq
      rwa [Dict.keys, Dict.keys, List.length_map, List.length_map] at hperm
    refine List.Subperm.perm_of_length_le (List.subperm_of_subset gtParams.items_nodup fun item hitem => ?_) hlen.ge
    exact Dict.mem_items.2 (of_decide_eq_true (hall item hitem))
  · intro h
    have hcorrect : correct gtParams pdParams = gtParams.items := by
      refine List.filter_eq_self.2 fun item hitem => ?_
      exact decide_eq_true (Dict.mem_items.1 (h.subset hitem))
    have hkeys : gtParams.keys.Perm pdParams.keys := h.map Prod.fst
    rw [hcorrect, similarity_eq_one_iff.2 hkeys]

theorem totalScore_congr {gtParams gtParams' pdParams pdParams' : Dict String V} (hgt : gtParams.get? = gtParams'.get?)
    (hpd : pdParams.get? = pdParams'.get?) : totalScore K gtParams pdParams = totalScore K gtParams' pdParams' := by
  have hitems := items_perm_iff.2 hgt
  have hkeys : gtParams.keys.Perm gtParams'.keys := hitems.map Prod.fst
  have hkeys' : pdParams.keys.Perm pdParams'.keys := (items_perm_iff.2 hpd).map Prod.fst
  rw [totalScore_eq, totalScore_eq, similarity_perm hkeys hkeys', correct, correct, hpd, (hitems.filter _).length_eq]

/-! ## The loops -/

/-- What a predicted call scores for a call of the ground truth. -/
def weight (K : Type) [Field K] [LinearOrder K] (gtTool pdTool : Tool V) : K :=
  if pdTool.name = gtTool.name then totalScore K gtTool.parameters pdTool.parameters else 0

def fullScore (K : Type) [Field K] (gtTool : Tool V) : K := 1 + (gtTool.parameters.items.length : K)

omit [DecidableEq V] in
theorem fullScore_pos (gtTool : Tool V) : 0 < fullScore K gtTool :=
  add_pos_of_pos_of_nonneg one_pos (Nat.cast_nonneg _)

theorem weight_le (gtTool pdTool : Tool V) : weight K gtTool pdTool ≤ fullScore K gtTool := by
  unfold weight
  split
  · exact totalScore_le _ _
  · exact (fullScore_pos gtTool).le

theorem weight_eq_iff {gtTool pdTool : Tool V} : weight K gtTool pdTool = fullScore K gtTool ↔ gtTool.value = pdTool.value := by
  rw [Tool.value, Tool.value, Prod.mk.injEq]
  unfold weight
  split
  · rename_i hname
    rw [fullScore, totalScore_eq_iff, and_iff_right hname.symm]
  · rename_i hname
    exact iff_of_false (fullScore_pos gtTool).ne fun h => hname h.1.symm

theorem weight_congr {gtTool gtTool' pdTool pdTool' : Tool V} (hgt : gtTool.value = gtTool'.value)
    (hpd : pdTool.value = pdTool'.value) : weight K gtTool pdTool = weight K gtTool' pdTool' := by
  obtain ⟨hname, hparams⟩ := Prod.mk.inj hgt
  obtain ⟨hname', hparams'⟩ := Prod.mk.inj hpd
  rw [weight, weight, hname, hname', totalScore_congr hparams hparams']

def unused (usedPdIndices : List ℕ) (pdTools : List (Tool V)) : List (Tool V × ℕ) :=
  pdTools.zipIdx.filter fun entry => entry.2 ∉ usedPdIndices

omit [DecidableEq V] in
theorem mem_unused {usedPdIndices : List ℕ} {pdTools : List (Tool V)} {entry : Tool V × ℕ} :
    entry ∈ unused usedPdIndices pdTools ↔ entry ∈ pdTools.zipIdx ∧ entry.2 ∉ usedPdIndices := by
  rw [unused, List.mem_filter, decide_eq_true_eq]

omit [DecidableEq V] in
theorem indices_nodup (pdTools : List (Tool V)) : (pdTools.zipIdx.map Prod.snd).Nodup := by
  rw [List.zipIdx_map_snd]
  exact List.nodup_range'

omit [IsStrictOrderedRing K] in
/-- The best match is an unused call with the largest positive score, if there is one. -/
theorem compare_spec (usedPdIndices : List ℕ) (gtTool : Tool V) (entries : List (Tool V × ℕ)) :
    (∀ entry ∈ entries, entry.2 ∉ usedPdIndices →
      weight K gtTool entry.1 ≤ (entries.foldl (compare usedPdIndices gtTool) ((0 : K), none)).1) ∧
    (entries.foldl (compare usedPdIndices gtTool) ((0 : K), none) = (0, none) ∨
      ∃ entry ∈ entries, entry.2 ∉ usedPdIndices ∧ 0 < weight K gtTool entry.1 ∧
        entries.foldl (compare usedPdIndices gtTool) ((0 : K), none) = (weight K gtTool entry.1, some entry.2)) := by
  induction entries using List.reverseRecOn with
  | nil => exact ⟨fun _ h => absurd h List.not_mem_nil, Or.inl rfl⟩
  | append_singleton entries entry ih =>
    rw [List.foldl_append, List.foldl_cons, List.foldl_nil]
    generalize entries.foldl (compare usedPdIndices gtTool) ((0 : K), none) = best at ih ⊢
    obtain ⟨hle, hbest⟩ := ih
    have hnonneg : 0 ≤ best.1 := by
      rcases hbest with rfl | ⟨_, -, -, hpos, rfl⟩
      · exact le_rfl
      · exact hpos.le
    have hkeep : (∃ entry ∈ entries, entry.2 ∉ usedPdIndices ∧ 0 < weight K gtTool entry.1 ∧
        best = (weight K gtTool entry.1, some entry.2)) → ∃ e ∈ entries ++ [entry], e.2 ∉ usedPdIndices ∧
          0 < weight K gtTool e.1 ∧ best = (weight K gtTool e.1, some e.2) := by
      rintro ⟨e, he, hrest⟩
      exact ⟨e, List.mem_append_left _ he, hrest⟩
    by_cases hskip : entry.2 ∈ usedPdIndices ∨ entry.1.name ≠ gtTool.name
    · rw [compare, if_pos hskip]
      refine ⟨fun e he hunused => ?_, hbest.imp id hkeep⟩
      rcases List.mem_append.1 he with he | he
      · exact hle e he hunused
      · obtain rfl := List.mem_singleton.1 he
        have hname := hskip.resolve_left hunused
        rwa [weight, if_neg hname]
    · have hunused : entry.2 ∉ usedPdIndices := fun h => hskip (Or.inl h)
      have hname : entry.1.name = gtTool.name := of_not_not fun h => hskip (Or.inr h)
      have hweight : weight K gtTool entry.1 = totalScore K gtTool.parameters entry.1.parameters := if_pos hname
      rw [compare, if_neg hskip, ← hweight]
      by_cases hlt : best.1 < weight K gtTool entry.1
      · rw [if_pos hlt]
        refine ⟨fun e he hfree => ?_, Or.inr ⟨entry, List.mem_append_right _ (List.mem_singleton.2 rfl), hunused,
          hnonneg.trans_lt hlt, rfl⟩⟩
        rcases List.mem_append.1 he with he | he
        · exact (hle e he hfree).trans hlt.le
        · obtain rfl := List.mem_singleton.1 he
          exact le_rfl
      · rw [if_neg hlt]
        refine ⟨fun e he hfree => ?_, hbest.imp id hkeep⟩
        rcases List.mem_append.1 he with he | he
        · exact hle e he hfree
        · obtain rfl := List.mem_singleton.1 he
          exact le_of_not_gt hlt

omit [DecidableEq V] in
theorem unused_cons {usedPdIndices : List ℕ} {pdTools : List (Tool V)} {entry : Tool V × ℕ}
    (h : entry ∈ unused usedPdIndices pdTools) :
    (unused usedPdIndices pdTools).Perm (entry :: unused (entry.2 :: usedPdIndices) pdTools) := by
  have hnodup : pdTools.zipIdx.Nodup := (indices_nodup pdTools).of_map _
  obtain ⟨hentry, hunused⟩ := mem_unused.1 h
  refine (List.perm_ext_iff_of_nodup (hnodup.filter _) (List.nodup_cons.2 ⟨?_, hnodup.filter _⟩)).2 fun e => ?_
  · intro hmem
    exact (mem_unused.1 hmem).2 List.mem_cons_self
  · rw [← unused, ← unused, mem_unused, List.mem_cons, mem_unused, List.mem_cons, not_or]
    constructor
    · rintro ⟨hmem, hfree⟩
      by_cases hsame : e.2 = entry.2
      · exact Or.inl (List.inj_on_of_nodup_map (indices_nodup pdTools) hmem hentry hsame)
      · exact Or.inr ⟨hmem, hsame, hfree⟩
    · rintro (rfl | ⟨hmem, -, hfree⟩)
      · exact ⟨hentry, hunused⟩
      · exact ⟨hmem, hfree⟩

omit [IsStrictOrderedRing K] in
/-- **The loop over the ground truth is a greedy matching**, of the predicted calls that are left. -/
theorem scoreGtTool_spec (gtTools pdTools : List (Tool V)) (s : Scores K) :
    ∃ picks : List (Option (Tool V × ℕ)),
      Greedy (fun gtTool entry => weight K gtTool entry.1) gtTools (unused s.usedPdIndices pdTools) picks ∧
      gtTools.foldl (scoreGtTool pdTools) s =
        ⟨s.score + (worths (fun gtTool entry => weight K gtTool entry.1) gtTools picks).sum,
          s.localMaxPossible + (gtTools.map (fullScore K)).sum,
          ((picks.filterMap id).map Prod.snd).reverse ++ s.usedPdIndices⟩ := by
  induction gtTools generalizing s with
  | nil =>
    refine ⟨[], .nil _, ?_⟩
    rw [List.foldl_nil, List.map_nil, List.sum_nil, add_zero]
    exact congrArg (Scores.mk · _ _) (add_zero s.score).symm
  | cons gtTool gtTools ih =>
    obtain ⟨hle, hbest⟩ := compare_spec (K := K) s.usedPdIndices gtTool pdTools.zipIdx
    have hall : ∀ entry ∈ unused s.usedPdIndices pdTools, weight K gtTool entry.1 ≤
        (bestMatch (K := K) s.usedPdIndices pdTools gtTool).1 := by
      intro entry hentry
      obtain ⟨hmem, hfree⟩ := mem_unused.1 hentry
      exact hle entry hmem hfree
    rw [List.foldl_cons, List.map_cons, List.sum_cons, ← add_assoc]
    rcases hbest with hnone | ⟨entry, hmem, hfree, hpos, hsome⟩
    · have hstep : scoreGtTool pdTools s gtTool =
          ⟨s.score, s.localMaxPossible + fullScore K gtTool, s.usedPdIndices⟩ := by
        simp only [scoreGtTool, bestMatch, hnone]
        rfl
      obtain ⟨picks, hgreedy, hrun⟩ := ih ⟨s.score, s.localMaxPossible + fullScore K gtTool, s.usedPdIndices⟩
      refine ⟨none :: picks, .skip (fun entry hentry => ?_) hgreedy, ?_⟩
      · exact (hall entry hentry).trans_eq (congrArg Prod.fst hnone)
      · rw [hstep, hrun, worths_cons, List.sum_cons, worth, zero_add]
        rfl
    · have hstep : scoreGtTool pdTools s gtTool = ⟨s.score + weight K gtTool entry.1,
          s.localMaxPossible + fullScore K gtTool, entry.2 :: s.usedPdIndices⟩ := by
        simp only [scoreGtTool, bestMatch, hsome]
        rfl
      have hunused : entry ∈ unused s.usedPdIndices pdTools := mem_unused.2 ⟨hmem, hfree⟩
      obtain ⟨picks, hgreedy, hrun⟩ := ih ⟨s.score + weight K gtTool entry.1,
        s.localMaxPossible + fullScore K gtTool, entry.2 :: s.usedPdIndices⟩
      refine ⟨some entry :: picks, .pick (unused_cons hunused) hpos (fun e he => ?_) hgreedy, ?_⟩
      · exact (hall e he).trans_eq (congrArg Prod.fst hsome)
      · rw [hstep, hrun, worths_cons, List.sum_cons, worth, ← add_assoc]
        refine congrArg (Scores.mk _ _) ?_
        rw [List.filterMap_cons, id, List.map_cons, List.reverse_cons, List.append_assoc]
        rfl

/-! ## The law -/

/-- **The matching behind the scores**: no predicted call is picked twice. -/
theorem scoreGtTools_spec (gtTools pdTools : List (Tool V)) :
    ∃ picks : List (Option (Tool V × ℕ)), (picks.filterMap id).Subperm pdTools.zipIdx ∧
      Greedy (weight K) gtTools pdTools (picks.map (Option.map Prod.fst)) ∧
      scoreGtTools gtTools pdTools =
        ⟨similarity K (gtTools.map Tool.name) (pdTools.map Tool.name) +
            (worths (weight K) gtTools (picks.map (Option.map Prod.fst))).sum,
          1 + (gtTools.map (fullScore K)).sum, ((picks.filterMap id).map Prod.snd).reverse⟩ := by
  obtain ⟨picks, hgreedy, hrun⟩ := scoreGtTool_spec (K := K) gtTools pdTools
    ⟨matchScore K (gtTools.map Tool.name) (pdTools.map Tool.name), 1, []⟩
  have hall : unused [] pdTools = pdTools.zipIdx :=
    List.filter_eq_self.2 fun _ _ => decide_eq_true List.not_mem_nil
  rw [hall] at hgreedy
  refine ⟨picks, hgreedy.subperm, ?_, ?_⟩
  · have hmap := hgreedy.map
    rwa [List.zipIdx_map_fst] at hmap
  · rw [scoreGtTools, hrun, matchScore_eq, worths_map, List.append_nil]

section Matched

variable {gtTools pdTools : List (Tool V)} {picks : List (Option (Tool V))}

omit [DecidableEq V] in
theorem fullScores_nonneg (gtTools : List (Tool V)) : 0 ≤ (gtTools.map (fullScore K)).sum := by
  refine List.sum_nonneg fun v hv => ?_
  obtain ⟨gtTool, -, rfl⟩ := List.mem_map.1 hv
  exact (fullScore_pos gtTool).le

theorem score_le (h : Greedy (weight K) gtTools pdTools picks) :
    similarity K (gtTools.map Tool.name) (pdTools.map Tool.name) + (worths (weight K) gtTools picks).sum ≤
      1 + (gtTools.map (fullScore K)).sum :=
  add_le_add (similarity_le_one _ _) (h.worths_le (fun gtTool => (fullScore_pos gtTool).le) weight_le).sum_le_sum

/-- **The full score** is that of the same calls. -/
theorem score_eq_iff (h : Greedy (weight K) gtTools pdTools picks) :
    similarity K (gtTools.map Tool.name) (pdTools.map Tool.name) + (worths (weight K) gtTools picks).sum =
      1 + (gtTools.map (fullScore K)).sum ↔ SameCalls gtTools pdTools := by
  have hle := h.worths_le (b := fullScore K) (fun gtTool => (fullScore_pos gtTool).le) weight_le
  constructor
  · intro heq
    obtain ⟨hnames, hsum⟩ := (add_eq_add_iff_eq_and_eq (similarity_le_one _ _) hle.sum_le_sum).1 heq
    obtain ⟨matched, rfl, hall⟩ := h.exists_matched fullScore_pos (eq_of_sum_eq hle hsum)
    have hlen : gtTools.length = pdTools.length := by
      have hperm := (similarity_eq_one_iff.1 hnames).length_eq
      rwa [List.length_map, List.length_map] at hperm
    have hvalues : gtTools.map Tool.value = matched.map Tool.value := by
      rw [← List.forall₂_eq_eq_eq, List.forall₂_map_left_iff, List.forall₂_map_right_iff]
      exact hall.imp fun _ _ => weight_eq_iff.1
    have hsub := h.subperm
    rw [List.filterMap_map, Function.id_comp, List.filterMap_some] at hsub
    have hperm := hsub.perm_of_length_le (by rw [← hlen, hall.length_eq])
    rw [SameCalls, hvalues]
    exact hperm.map _
  · intro hsame
    have hnames : (gtTools.map Tool.name).Perm (pdTools.map Tool.name) := by
      have hmap := hsame.map Prod.fst
      rwa [List.map_map, List.map_map] at hmap
    rw [similarity_eq_one_iff.2 hnames, h.eq_bound fullScore_pos weight_le (fun _ _ => weight_eq_iff) hsame]

end Matched

/-- **What the reward of tool calls is**: within its bounds, the largest one for the same calls only, and from a matching
that uses a predicted call at most once. It does not depend on the order of the calls if the calls of the ground truth
with the name of a predicted call are equal, nor on that of the predicted calls if none of the ground truth scores the
same for different ones. -/
structure RewardLaw (gtTools pdTools : List (Tool V)) (maxPossibleReward minPossibleReward : K) : Prop where
  bounds : computeToolCallReward gtTools pdTools maxPossibleReward minPossibleReward ∈
    Set.Icc minPossibleReward maxPossibleReward
  full : computeToolCallReward gtTools pdTools maxPossibleReward minPossibleReward = maxPossibleReward ↔
    SameCalls gtTools pdTools
  once : ∃ picks : List (Option (Tool V × ℕ)), picks.length = gtTools.length ∧
    (picks.filterMap id).Subperm pdTools.zipIdx ∧
    (scoreGtTools (K := K) gtTools pdTools).usedPdIndices = ((picks.filterMap id).map Prod.snd).reverse ∧
    computeToolCallReward gtTools pdTools maxPossibleReward minPossibleReward =
      (maxPossibleReward - minPossibleReward) *
        (similarity K (gtTools.map Tool.name) (pdTools.map Tool.name) +
          (worths (weight K) gtTools (picks.map (Option.map Prod.fst))).sum) /
        (1 + (gtTools.map (fullScore K)).sum) + minPossibleReward
  reordered : ∀ gtTools' pdTools' : List (Tool V), gtTools.Perm gtTools' → pdTools.Perm pdTools' →
    (∀ tool ∈ gtTools, ∀ tool' ∈ gtTools, tool.name = tool'.name →
      (∃ pdTool ∈ pdTools, pdTool.name = tool.name) → tool.value = tool'.value) →
    computeToolCallReward gtTools' pdTools' maxPossibleReward minPossibleReward =
      computeToolCallReward gtTools pdTools maxPossibleReward minPossibleReward
  predictedReordered : ∀ pdTools' : List (Tool V), pdTools.Perm pdTools' →
    (∀ gtTool ∈ gtTools, ∀ pdTool ∈ pdTools, ∀ pdTool' ∈ pdTools, 0 < weight K gtTool pdTool →
      weight K gtTool pdTool = weight K gtTool pdTool' → pdTool.value = pdTool'.value) →
    computeToolCallReward gtTools pdTools' maxPossibleReward minPossibleReward =
      computeToolCallReward gtTools pdTools maxPossibleReward minPossibleReward

theorem computeToolCallReward_eq (gtTools pdTools : List (Tool V)) (maxPossibleReward minPossibleReward : K) :
    computeToolCallReward gtTools pdTools maxPossibleReward minPossibleReward =
      (maxPossibleReward - minPossibleReward) * (scoreGtTools gtTools pdTools).score /
        (scoreGtTools gtTools pdTools).localMaxPossible + minPossibleReward := by
  unfold computeToolCallReward
  split
  · rename_i hsame
    obtain ⟨picks, -, hgreedy, hrun⟩ := scoreGtTools_spec (K := K) gtTools pdTools
    rw [hrun, (score_eq_iff hgreedy).2 (sameCalls_of_toolsEq hsame), mul_div_cancel_right₀, sub_add_cancel]
    exact (add_pos_of_pos_of_nonneg one_pos (fullScores_nonneg gtTools)).ne'
  · rfl

omit [IsStrictOrderedRing K] in
theorem reward_congr {gtTools gtTools' pdTools pdTools' : List (Tool V)} {picks picks' : List (Option (Tool V))}
    (hgt : gtTools.Perm gtTools') (hpd : pdTools.Perm pdTools')
    (hsum : (worths (weight K) gtTools picks).sum = (worths (weight K) gtTools' picks').sum) :
    similarity K (gtTools.map Tool.name) (pdTools.map Tool.name) + (worths (weight K) gtTools picks).sum =
        similarity K (gtTools'.map Tool.name) (pdTools'.map Tool.name) + (worths (weight K) gtTools' picks').sum ∧
      1 + (gtTools.map (fullScore K)).sum = 1 + (gtTools'.map (fullScore K)).sum := by
  rw [similarity_perm (hgt.map Tool.name) (hpd.map Tool.name), hsum, (hgt.map (fullScore K)).sum_eq]
  exact ⟨rfl, rfl⟩

/-- **The reward law** of all calls. -/
theorem rewardLaw (gtTools pdTools : List (Tool V)) {maxPossibleReward minPossibleReward : K}
    (hlt : minPossibleReward < maxPossibleReward) : RewardLaw gtTools pdTools maxPossibleReward minPossibleReward := by
  obtain ⟨picks, honce, hgreedy, hrun⟩ := scoreGtTools_spec (K := K) gtTools pdTools
  have hfull : 0 < 1 + (gtTools.map (fullScore K)).sum :=
    add_pos_of_pos_of_nonneg one_pos (fullScores_nonneg gtTools)
  have hrange : 0 < maxPossibleReward - minPossibleReward := sub_pos.2 hlt
  have hreward := computeToolCallReward_eq gtTools pdTools maxPossibleReward minPossibleReward
  rw [hrun] at hreward
  refine ⟨?_, ?_, ⟨picks, ?_, honce, ?_, hreward⟩, ?_, ?_⟩
  · have hscore : 0 ≤ similarity K (gtTools.map Tool.name) (pdTools.map Tool.name) +
        (worths (weight K) gtTools (picks.map (Option.map Prod.fst))).sum :=
      add_nonneg (similarity_nonneg _ _) (List.sum_nonneg hgreedy.worths_nonneg)
    rw [hreward]
    constructor
    · exact le_add_of_nonneg_left (div_nonneg (mul_nonneg hrange.le hscore) hfull.le)
    · rw [← le_sub_iff_add_le, div_le_iff₀ hfull]
      exact mul_le_mul_of_nonneg_left (score_le hgreedy) hrange.le
  · rw [hreward, ← eq_sub_iff_add_eq, div_eq_iff hfull.ne', mul_right_inj' hrange.ne', score_eq_iff hgreedy]
  · rw [← List.length_map (Option.map Prod.fst), hgreedy.length_eq]
  · rw [hrun]
  · intro gtTools' pdTools' hgt hpd hequal
    obtain ⟨picks', -, hgreedy', hrun'⟩ := scoreGtTools_spec (K := K) gtTools' pdTools'
    have hsum := hgreedy.sum_eq (f := Tool.name) (g := Tool.name) hgreedy' hgt hpd
      (fun tool htool tool' htool' pdTool hpdTool hname hpdName =>
        weight_congr (hequal tool htool tool' htool' hname ⟨pdTool, hpdTool, hpdName.symm⟩) rfl)
      (fun tool _ pdTool _ hname => (if_neg (Ne.symm hname)).le)
    obtain ⟨hscore, hfullScore⟩ := reward_congr hgt hpd hsum
    rw [computeToolCallReward_eq, hrun', hreward, hscore, hfullScore]
  · intro pdTools' hpd hties
    obtain ⟨picks', -, hgreedy', hrun'⟩ := scoreGtTools_spec (K := K) gtTools pdTools'
    have hclass : ∀ gtTool pdTool pdTool' : Tool V, pdTool.value = pdTool'.value →
        weight K gtTool pdTool = weight K gtTool pdTool' := fun _ _ _ => weight_congr rfl
    have hsame := hgreedy.worths_eq hclass hgreedy' (hpd.map _) hties
    obtain ⟨hscore, -⟩ := reward_congr (List.Perm.refl gtTools) hpd (congrArg List.sum hsame)
    rw [computeToolCallReward_eq, hrun', hreward, hscore]

end Law

theorem names_nodup : (["x", "y"] : List String).Nodup := by decide

theorem name_nodup : (["x"] : List String).Nodup := by decide

def oneParameter : Tool ℕ := ⟨"f", ⟨[("x", 1)], name_nodup⟩⟩

def twoParameters : Tool ℕ := ⟨"f", ⟨[("x", 1), ("y", 2)], names_nodup⟩⟩

theorem rewardLaw_equal : computeToolCallReward [oneParameter, oneParameter] [oneParameter, twoParameters] (1 : ℚ) 0 =
    computeToolCallReward [oneParameter, oneParameter] [twoParameters, oneParameter] (1 : ℚ) 0 := by
  refine (rewardLaw [oneParameter, oneParameter] [twoParameters, oneParameter] zero_lt_one).reordered
    [oneParameter, oneParameter] [oneParameter, twoParameters] (List.Perm.refl _) (List.Perm.swap _ _ _) ?_
  intro tool htool tool' htool' _ _
  obtain rfl := List.eq_of_mem_replicate (n := 2) htool
  rw [List.eq_of_mem_replicate (n := 2) htool']

/-- The order matters where calls of the ground truth with one name differ: the first one takes the only match, whether
it is the better one or not. -/
theorem not_orderIndependent : ¬ ∀ gtTools gtTools' pdTools : List (Tool ℕ), gtTools.Perm gtTools' →
    computeToolCallReward gtTools pdTools (1 : ℚ) 0 = computeToolCallReward gtTools' pdTools (1 : ℚ) 0 := by
  intro h
  have hswap := h [twoParameters, oneParameter] [oneParameter, twoParameters] [oneParameter] (List.Perm.swap _ _ _)
  revert hswap
  decide +kernel

end Opd.Verl.ToolCallReward

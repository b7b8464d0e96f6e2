import Opd.Clight.Teacher

/-!
# verl's teacher outputs: `extract_prompt_logprobs` and `_pad_teacher_outputs`

The teacher server turns the `prompt_logprobs` of one sequence into rows of ids and
log-probs by rank, with a dummy row for the last token, and the agent loop pads the rows
to the width of the padded prompt on the left and of the padded response on the right.
The rows are those of `RequestOutput`, the same output of vLLM that the CLight scorer
reads; the ids and the log-probs of a row are always assigned together.

* `promptSlots_eq`: a dictionary whose items have ranks is filled in as by CLight.
* `computeTeacherLogprobsSingle_ok`: the rows of a sequence, in order.
* `padTeacherOutputs_getElem`: a row after padding.
-/

namespace Opd.Verl.TeacherOutputs

open Lib Clight

variable {L : Type}

/-! ## The code -/

def promptSlots (numPromptLogprobs : ℕ) (logprobsDict : LogprobsDict L) : Except String (List (Option (ℕ × L))) :=
  logprobsDict.foldlM (fun slots item =>
    match item.2.rank with
    | none => .error "'>' not supported between instances of 'NoneType' and 'int'"
    | some rank =>
      -- a rank over the number is the sampled token's, which is not in the top-k
      if numPromptLogprobs < rank then .ok slots else .ok (slots.set rank.natPred (some (item.1, item.2.logprob))))
    (List.replicate numPromptLogprobs none)

/-- One step of the loop of `extract_prompt_logprobs`. With number 0 only the log-prob of
the first item is kept. -/
def extractEntry (numPromptLogprobs : ℕ) : Option (LogprobsDict L) → Except String (List (Option (ℕ × L)))
  | none =>
    if numPromptLogprobs = 0 then .error "'NoneType' object has no attribute 'keys'"
    else .error "object of type 'NoneType' has no len()"
  | some logprobsDict =>
    if numPromptLogprobs = 0 then
      match logprobsDict with
      | [] => .error "list index out of range"
      | item :: _ => .ok [some (item.1, item.2.logprob)]
    else if logprobsDict.length ≠ numPromptLogprobs ∧ logprobsDict.length ≠ numPromptLogprobs + 1 then
      .error s!"{logprobsDict.length}"
    else promptSlots numPromptLogprobs logprobsDict

/-- `extract_prompt_logprobs`: what it puts into `result_dict`, if anything. -/
def extractPromptLogprobs [Zero L] (output : RequestOutput L) :
    Option ℕ → Except String (Option (List (List (Option (ℕ × L)))))
  | none => .ok none
  | some numPromptLogprobs =>
    match output.promptLogprobs with
    | none => .error "'NoneType' object is not subscriptable"
    | some promptLogprobs => do
      let rows ← (promptLogprobs.drop 1).mapM (extractEntry numPromptLogprobs)
      return some (rows ++ [List.replicate (max numPromptLogprobs 1) (some (0, 0))])

/-- `torch.tensor` of the rows, which all have the same width. -/
def tensorRow (row : List (Option (ℕ × L))) : Except String (Cell L) :=
  if row.any Option.isNone then .error "must be real number, not NoneType" else .ok (row.filterMap id)

/-- `compute_teacher_logprobs_single`, from the output of the engine on. -/
def computeTeacherLogprobsSingle [Zero L] (numLogprobs : ℕ) (output : RequestOutput L) (sequenceIds : List ℕ) :
    Except String (List (Cell L)) := do
  match ← extractPromptLogprobs output (some numLogprobs) with
  | none => .error "prompt_ids"
  | some rows =>
    let teacher ← rows.mapM tensorRow
    if teacher.length ≠ sequenceIds.length then .error "AssertionError" else pure teacher

/-- `F.pad` of the rows of a tensor: a negative size cuts rows off. -/
def constantPad {α : Type*} (left right : ℤ) (value : α) (rows : List α) : List α :=
  let rows := if left < 0 then rows.drop (-left).toNat else List.replicate left.toNat value ++ rows
  if right < 0 then rows.take (rows.length - (-right).toNat) else rows ++ List.replicate right.toNat value

/-- `_pad_teacher_outputs` -/
def padTeacherOutputs [Zero L] (teacher : List (Cell L))
    (promptWidth responseWidth promptLength responseLength padTokenId : ℕ) : List (Cell L) :=
  let leftPadSize : ℤ := promptWidth - promptLength
  let rightPadSize : ℤ := responseWidth - responseLength
  let topk := (teacher.head?.map List.length).getD 0
  constantPad leftPadSize rightPadSize (List.replicate topk (padTokenId, 0)) teacher

/-! ## The rows of a sequence -/

/-- What vLLM promises of the dictionary of a position: every item has a rank, and there is
at most one beside the top-k ones. -/
structure Sized (topk : ℕ) (d : LogprobsDict L) : Prop where
  ranked : ∀ item ∈ d, item.2.rank ≠ none
  size : d.length = topk ∨ d.length = topk + 1

/-- **The same slots**: a dictionary whose items have ranks is filled in as by CLight. -/
theorem promptSlots_eq {topk : ℕ} {d : LogprobsDict L} (hd : ∀ item ∈ d, item.2.rank ≠ none) :
    promptSlots topk d = .ok (fillSlots topk d) := by
  unfold promptSlots fillSlots
  generalize List.replicate topk none = slots
  induction d generalizing slots with
  | nil => rfl
  | cons item d ih =>
    obtain ⟨rank, hrank⟩ := Option.ne_none_iff_exists'.1 (hd item (List.mem_cons_self ..))
    have hrest := ih fun e he => hd e (List.mem_cons_of_mem _ he)
    rw [List.foldlM_cons, List.foldl_cons]
    simp only [hrank]
    by_cases hlt : topk < (rank : ℕ)
    · rw [if_pos hlt, if_pos hlt]
      exact hrest slots
    · rw [if_neg hlt, if_neg hlt]
      exact hrest _

/-- **One row**: a complete dictionary is read by rank. -/
theorem extractEntry_ok {topk : ℕ} (hk : 0 < topk) {d : LogprobsDict L} (hd : Complete topk d)
    (hs : Sized topk d) :
    ∃ slots cell, extractEntry topk (some d) = .ok slots ∧ tensorRow slots = .ok cell ∧ Holds topk d cell := by
  obtain ⟨cell, hcell, hholds⟩ := extractRow_ok hd 0
  refine ⟨fillSlots topk d, cell, ?_, ?_, hholds⟩
  · have hsize : ¬ (d.length ≠ topk ∧ d.length ≠ topk + 1) := by
      rcases hs.size with h | h <;> omega
    unfold extractEntry
    simp only [if_neg (Nat.ne_of_gt hk), if_neg hsize]
    exact promptSlots_eq hs.ranked
  · unfold extractRow at hcell
    unfold tensorRow
    by_cases hany : (fillSlots topk d).any Option.isNone = true
    · simp only [hany, if_true] at hcell
      exact absurd hcell (by simp)
    · simp only [hany, Bool.false_eq_true, if_false] at hcell ⊢
      exact hcell

theorem extractEntries_ok {topk : ℕ} (hk : 0 < topk) {ds : List (LogprobsDict L)}
    (hds : ∀ d ∈ ds, Complete topk d ∧ Sized topk d) :
    ∃ rows cells, (ds.map some).mapM (extractEntry topk) = .ok rows ∧ rows.mapM tensorRow = .ok cells ∧
      List.Forall₂ (Holds topk) ds cells := by
  induction ds with
  | nil => exact ⟨[], [], rfl, rfl, .nil⟩
  | cons d ds ih =>
    obtain ⟨hd, hs⟩ := hds d (List.mem_cons_self ..)
    obtain ⟨slots, cell, hslots, hcell, hholds⟩ := extractEntry_ok hk hd hs
    obtain ⟨rows, cells, hrows, hcells, hall⟩ := ih fun e he => hds e (List.mem_cons_of_mem _ he)
    refine ⟨slots :: rows, cell :: cells, ?_, ?_, .cons hholds hall⟩
    · rw [List.map_cons, mapM_eq_ok_iff, List.forall₂_cons]
      exact ⟨hslots, mapM_eq_ok_iff.1 hrows⟩
    · rw [mapM_eq_ok_iff, List.forall₂_cons]
      exact ⟨hcell, mapM_eq_ok_iff.1 hcells⟩

/-- **The rows of a sequence**: the entries in order, and the dummy row. -/
theorem computeTeacherLogprobsSingle_ok [Zero L] {topk : ℕ} (hk : 0 < topk) {d : LogprobsDict L}
    {ds : List (LogprobsDict L)} (hds : ∀ d ∈ ds, Complete topk d ∧ Sized topk d) {sequenceIds : List ℕ}
    (hlen : sequenceIds.length = ds.length + 1) :
    ∃ cells, computeTeacherLogprobsSingle topk (outputOf (d :: ds)) sequenceIds =
        .ok (cells ++ [List.replicate topk (0, 0)]) ∧ List.Forall₂ (Holds topk) ds cells := by
  obtain ⟨rows, cells, hrows, hcells, hall⟩ := extractEntries_ok hk hds
  -- the first position is skipped, and a row of zeros is put at the end
  have hextract : extractPromptLogprobs (outputOf (d :: ds)) (some topk) =
      .ok (some (rows ++ [List.replicate topk (some (0, 0))])) := by
    unfold extractPromptLogprobs outputOf
    have hmax : max topk 1 = topk := max_eq_left hk
    simp only [List.drop_one, List.tail_cons, hrows, hmax]
    rfl
  have hdummy : tensorRow (List.replicate topk (some ((0 : ℕ), (0 : L)))) = .ok (List.replicate topk (0, 0)) := by
    have hany : (List.replicate topk (some ((0 : ℕ), (0 : L)))).any Option.isNone = false := by simp
    have hmap : List.replicate topk (some ((0 : ℕ), (0 : L))) = (List.replicate topk (0, 0)).map some := by simp
    unfold tensorRow
    rw [hany, hmap, List.filterMap_map]
    simp only [Bool.false_eq_true, if_false, Function.id_comp, List.filterMap_some]
  have htensor : (rows ++ [List.replicate topk (some ((0 : ℕ), (0 : L)))]).mapM tensorRow =
      .ok (cells ++ [List.replicate topk (0, 0)]) := by
    rw [mapM_eq_ok_iff]
    exact List.rel_append (mapM_eq_ok_iff.1 hcells) (.cons hdummy .nil)
  refine ⟨cells, ?_, hall⟩
  have hcount : (cells ++ [List.replicate topk ((0 : ℕ), (0 : L))]).length = sequenceIds.length := by
    rw [List.length_append, List.length_singleton, ← hall.length_eq, hlen]
  unfold computeTeacherLogprobsSingle
  rw [bind_eq_ok]
  refine ⟨_, hextract, ?_⟩
  rw [bind_eq_ok]
  refine ⟨_, htensor, ?_⟩
  rw [if_neg (not_not_intro hcount)]
  rfl

/-- **A row after padding**, when the widths are not below the lengths. -/
theorem padTeacherOutputs_getElem [Zero L] {teacher : List (Cell L)} {W R p r pad : ℕ} (hp : p ≤ W)
    (hr : r ≤ R) {x : ℕ} (hx : x < teacher.length) : (padTeacherOutputs teacher W R p r pad)[W - p + x]? = teacher[x]? := by
  have hleft : ¬ (W : ℤ) - p < 0 := by omega
  have hright : ¬ (R : ℤ) - r < 0 := by omega
  have hnat : ((W : ℤ) - p).toNat = W - p := by omega
  unfold padTeacherOutputs constantPad
  simp only [if_neg hleft, if_neg hright, hnat]
  rw [List.append_assoc, List.getElem?_append_right (by rw [List.length_replicate]; omega),
    List.length_replicate, Nat.add_sub_cancel_left, List.getElem?_append_left hx]

end Opd.Verl.TeacherOutputs

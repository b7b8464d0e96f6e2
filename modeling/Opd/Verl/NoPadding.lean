import Opd.Lib.Jagged

/-!
# Batches without padding

Prompts are padded on the left and responses on the right. `left_right_2_no_padding` packs
the real tokens of all rows, and `no_padding_2_padding` takes the values of the response
tokens out of the packed values, one token to the left.

* `leftRight_eq`: the packed rows are the real tokens.
* `noPadding2Padding_eq`, `responseFromNested_eq`: the slices of the rows.
* `responseToNested_eq`: the padded response cut to its lengths.
* `noPadding_roundTrip`: the entries of all three.
-/

namespace Opd.Verl.NoPadding

open Lib

inductive PaddingError
  | assertionError (message : String)
  | indexError
  | runtimeError (message : String)
  | valueError
  deriving DecidableEq

inductive MaybeNested (α : Type)
  | dense (rows : Grid α)
  | nested (rows : Jagged α)

/-- The position ids of a row: of shape `(seq_len,)`, or with some channels. -/
inductive PositionRow
  | single (ids : List ℕ)
  | channels (ids : List (List ℕ))

def PositionRow.select (mask : List Bool) : PositionRow → PositionRow
  | .single ids => .single (maskSelect ids mask)
  | .channels ids => .channels (ids.map fun channel => maskSelect channel mask)

variable {α ε κ τ ν : Type}

structure LeftRightData (α ε κ τ : Type) where
  prompts : Grid α
  responses : Grid α
  inputIds : Option (Grid α)
  attentionMask : Option (Grid Bool)
  responseMask : Option (Grid Bool)
  positionIds : Option (List PositionRow)
  routedExperts : Option (MaybeNested ε)
  teacherLogprobs : Option (Grid κ)
  teacherIds : Option (Grid τ)

structure NoPaddingData (α ε κ τ : Type) where
  prompts : Grid α
  responses : Grid α
  attentionMask : Grid Bool
  responseMask : Grid Bool
  lossMask : Grid Bool
  inputIds : Jagged α
  positionIds : List PositionRow
  maxSeqLen : ℕ
  maxResponseLen : ℕ
  indices : List ℕ
  routedExperts : Option (MaybeNested ε)
  teacherLogprobs : Option (MaybeNested κ)
  teacherIds : Option (MaybeNested τ)

/-- `index_first_axis` of the flattened tensor, and `nested_tensor_from_jagged` with the
lengths of which `cu_seqlens` is the cumulative sum. -/
def packRows (rows : Grid α) (indices lengths : List ℕ) : Except PaddingError (Jagged α) :=
  match gather rows.rows.flatten indices with
  | none => .error .indexError
  | some values =>
    if h : lengths.sum = values.length then .ok ⟨values, lengths, h⟩
    else .error (.runtimeError "offsets do not match the values")

/-- `packRows`, of a tensor that is not nested yet. -/
def packMaybe (indices lengths : List ℕ) : MaybeNested α → Except PaddingError (MaybeNested α)
  | .dense rows => (packRows rows indices lengths).map .nested
  | .nested rows => .ok (.nested rows)

def packOption (indices lengths : List ℕ) : Option (MaybeNested α) → Except PaddingError (Option (MaybeNested α))
  | none => .ok none
  | some rows => (packMaybe indices lengths rows).map some

def packPositions (positionIds : List PositionRow) (masks : List (List Bool)) : Except PaddingError (List PositionRow) :=
  (List.range masks.length).mapM fun i =>
    match positionIds[i]?, masks[i]? with
    | some row, some mask => .ok (row.select mask)
    | _, _ => .error .indexError

def packTeacher (indices lengths : List ℕ) (teacherLogprobs : Option (Grid κ)) (teacherIds : Option (Grid τ)) :
    Except PaddingError (Option (MaybeNested κ) × Option (MaybeNested τ)) :=
  match teacherLogprobs, teacherIds with
  | some logprobs, some ids => do
    let logprobs ← packRows logprobs indices lengths
    let ids ← packRows ids indices lengths
    .ok (some (.nested logprobs), some (.nested ids))
  | _, _ => .ok (teacherLogprobs.map .dense, teacherIds.map .dense)

def require {β : Type} (name : String) : Option β → Except PaddingError β
  | some x => .ok x
  | none => .error (.assertionError s!"{name} is required in left-right padding data")

/-- `left_right_2_no_padding`. -/
def leftRight2NoPadding (data : LeftRightData α ε κ τ) : Except PaddingError (NoPaddingData α ε κ τ) := do
  let inputIds ← require "input_ids" data.inputIds
  let attentionMask ← require "attention_mask" data.attentionMask
  let responseMask ← require "response_mask" data.responseMask
  let positionIds ← require "position_ids" data.positionIds
  let indices := nonzero attentionMask.rows.flatten
  let lengths := attentionMask.rows.map (List.count true)
  let inputIdsNested ← packRows inputIds indices lengths
  let positionIdsNested ← packPositions positionIds attentionMask.rows
  let routedExperts ← packOption indices lengths data.routedExperts
  let (teacherLogprobs, teacherIds) ← packTeacher indices lengths data.teacherLogprobs data.teacherIds
  .ok {
    prompts := data.prompts
    responses := data.responses
    attentionMask := attentionMask
    responseMask := responseMask
    lossMask := responseMask
    inputIds := inputIdsNested
    positionIds := positionIdsNested
    maxSeqLen := inputIds.width
    maxResponseLen := responseMask.width
    indices := indices
    routedExperts := routedExperts
    teacherLogprobs := teacherLogprobs
    teacherIds := teacherIds }

/-! ## Slicing the responses -/

inductive ModelOutput (ν : Type)
  | nested (tensor : Jagged ν)
  | packed (values : List ν)

def ModelOutput.values : ModelOutput ν → List ν
  | .nested tensor => tensor.values
  | .packed values => values

/-- `prompts`, `responses` and `attention_mask`. -/
inductive Sequences (α : Type)
  | nested (prompts responses : Jagged α)
  | padded (prompts responses : Grid α) (attentionMask : Grid Bool)

/-- `prompt_lens`. -/
def Sequences.promptLens : Sequences α → List ℕ
  | .nested prompts _ => prompts.lengths
  | .padded prompts _ attentionMask => attentionMask.rows.map fun row => (row.take prompts.width).count true

/-- `response_lens`. -/
def Sequences.responseLens : Sequences α → List ℕ
  | .nested _ responses => responses.lengths
  | .padded prompts _ attentionMask => attentionMask.rows.map fun row => (row.drop prompts.width).count true

/-- `max_response_len`, for the value that the data has. -/
def Sequences.maxResponseLen (given : ℤ) : Sequences α → ℤ
  | .nested _ responses => if given < 0 then (responses.lengths.foldl max 0 : ℕ) else given
  | .padded _ responses _ => responses.width

/-- `F.pad` at the end; a negative size crops. -/
def padRight [Zero ν] (row : List ν) (padSize : ℤ) : Except PaddingError (List ν) :=
  if 0 ≤ padSize then .ok (row ++ List.replicate padSize.toNat 0)
  else if 0 ≤ (row.length : ℤ) + padSize then .ok (row.take ((row.length : ℤ) + padSize).toNat)
  else .error (.runtimeError "narrow(): length must be non-negative.")

/-- `torch.stack`. -/
def stack (rows : List (List ν)) : Except PaddingError (Grid ν) :=
  if h : ∀ row ∈ rows, row.length = (rows.headD []).length then .ok ⟨(rows.headD []).length, rows, h⟩
  else .error (.runtimeError "stack expects each tensor to be equal size")

/-- `no_padding_2_padding`. -/
def noPadding2Padding [Zero ν] (tensor : ModelOutput ν) (sequences : Sequences α) (maxResponseLen : Option ℤ) :
    Except PaddingError (Grid ν) :=
  let values := tensor.values
  let width := sequences.maxResponseLen (maxResponseLen.getD (-1))
  let sequenceLens := List.zipWith (· + ·) sequences.promptLens sequences.responseLens
  let sequenceOffsets := cumsum 0 sequenceLens
  match sequenceOffsets.getLast? with
  | none => .error .indexError
  | some total =>
    if total ≠ values.length then .error (.assertionError "")
    else if 0 ∈ sequences.promptLens then
      .error (.assertionError s!"seq_offset - resp_len - 1 assumes prompt_len > 0. Got {sequences.promptLens}")
    else if sequences.responseLens.length ≠ sequenceOffsets.length then .error .valueError
    else do
      let responseList ← (sequences.responseLens.zip sequenceOffsets).mapM fun p =>
        padRight (slice values ((p.2 : ℤ) - p.1 - 1) ((p.2 : ℤ) - 1)) (width - p.1)
      stack responseList

/-- `response_from_nested`. -/
def responseFromNested (tensor : Jagged ν) (responseMask : Jagged Bool) : Except PaddingError (Jagged ν) :=
  let offsets := tensor.offsets.tail
  if responseMask.lengths.length ≠ offsets.length then .error .valueError
  else .ok (.ofRows ((responseMask.lengths.zip offsets).map fun p =>
    slice tensor.values ((p.2 : ℤ) - p.1 - 1) ((p.2 : ℤ) - 1)))

/-- `response_to_nested`. -/
def responseToNested (tensor : Grid ν) (responseMask : Jagged Bool) : Except PaddingError (Jagged ν) := do
  let responseList ← (List.range tensor.rows.length).mapM fun i =>
    match tensor.rows[i]?, responseMask.lengths[i]? with
    | some row, some responseLen => .ok (row.take responseLen)
    | _, _ => .error .indexError
  .ok (.ofRows responseList)

/-! ## Left-right padding -/

/-- The mask of a row with so many tokens of the prompt and of the response. -/
def leftRightMask (promptWidth responseWidth : ℕ) (lens : ℕ × ℕ) : List Bool :=
  List.replicate (promptWidth - lens.1) false ++
    (List.replicate (lens.1 + lens.2) true ++ List.replicate (responseWidth - lens.2) false)

/-- Rows of the given lengths, padded on the left and on the right. -/
structure LeftRight (data : LeftRightData α ε κ τ) (inputIds : Grid α) (lens : List (ℕ × ℕ)) : Prop where
  nonempty : lens ≠ []
  bounds : ∀ l ∈ lens, 1 ≤ l.1 ∧ l.1 ≤ data.prompts.width ∧ l.2 ≤ data.responses.width
  inputIds_eq : data.inputIds = some inputIds
  inputIds_width : inputIds.width = data.prompts.width + data.responses.width
  inputIds_rows : inputIds.rows.length = lens.length
  attentionMask : ∃ mask, data.attentionMask = some mask ∧
    mask.rows = lens.map (leftRightMask data.prompts.width data.responses.width)
  responseMask : ∃ mask, data.responseMask = some mask
  positionIds : ∃ positions, data.positionIds = some positions ∧ positions.length = lens.length
  routedExperts : ∀ rows, data.routedExperts = some (.dense rows) →
    rows.rows.length = lens.length ∧ rows.width = data.prompts.width + data.responses.width
  teacherLogprobs : ∀ rows, data.teacherLogprobs = some rows →
    rows.rows.length = lens.length ∧ rows.width = data.prompts.width + data.responses.width
  teacherIds : ∀ rows, data.teacherIds = some rows →
    rows.rows.length = lens.length ∧ rows.width = data.prompts.width + data.responses.width

section Masks

variable {promptWidth responseWidth : ℕ} {l : ℕ × ℕ} {lens : List (ℕ × ℕ)}

theorem length_leftRightMask (hprompt : l.1 ≤ promptWidth) (hresponse : l.2 ≤ responseWidth) :
    (leftRightMask promptWidth responseWidth l).length = promptWidth + responseWidth := by
  unfold leftRightMask
  simp only [List.length_append, List.length_replicate]
  omega

theorem maskSelect_leftRight {row : List α} (hprompt : l.1 ≤ promptWidth) (hresponse : l.2 ≤ responseWidth)
    (hlen : row.length = promptWidth + responseWidth) :
    maskSelect row (leftRightMask promptWidth responseWidth l) = block (promptWidth - l.1) (l.1 + l.2) row := by
  have hparts : row = row.take (promptWidth - l.1) ++ (block (promptWidth - l.1) (l.1 + l.2) row ++
      (row.drop (promptWidth - l.1)).drop (l.1 + l.2)) := by
    rw [block, List.take_append_drop, List.take_append_drop]
  have hleft : (row.take (promptWidth - l.1)).length = promptWidth - l.1 := by
    rw [List.length_take]
    omega
  have hmiddle : (block (promptWidth - l.1) (l.1 + l.2) row).length = l.1 + l.2 := length_block (by omega)
  have hselected : maskSelect (row.take (promptWidth - l.1) ++ (block (promptWidth - l.1) (l.1 + l.2) row ++
      (row.drop (promptWidth - l.1)).drop (l.1 + l.2))) (leftRightMask promptWidth responseWidth l) =
      block (promptWidth - l.1) (l.1 + l.2) row := by
    unfold leftRightMask
    rw [maskSelect_append (by rw [hleft, List.length_replicate]),
      maskSelect_append (by rw [hmiddle, List.length_replicate]), maskSelect_false, maskSelect_true hmiddle,
      maskSelect_false, List.nil_append, List.append_nil]
  rwa [← hparts] at hselected

theorem count_leftRightMask (hprompt : l.1 ≤ promptWidth) :
    ((leftRightMask promptWidth responseWidth l).take promptWidth).count true = l.1 ∧
      ((leftRightMask promptWidth responseWidth l).drop promptWidth).count true = l.2 := by
  have hsplit : leftRightMask promptWidth responseWidth l =
      (List.replicate (promptWidth - l.1) false ++ List.replicate l.1 true) ++
        (List.replicate l.2 true ++ List.replicate (responseWidth - l.2) false) := by
    unfold leftRightMask
    rw [List.replicate_add, List.append_assoc, List.append_assoc]
  have hlen : (List.replicate (promptWidth - l.1) false ++ List.replicate l.1 true).length = promptWidth := by
    rw [List.length_append, List.length_replicate, List.length_replicate]
    omega
  rw [hsplit, List.take_left' hlen, List.drop_left' hlen]
  simp [List.count_append, List.count_replicate]

def Fits (promptWidth responseWidth : ℕ) (rows : List (List α)) (lens : List (ℕ × ℕ)) : Prop :=
  List.Forall₂ (fun row l => row.length = promptWidth + responseWidth ∧ l.1 ≤ promptWidth ∧ l.2 ≤ responseWidth) rows lens

theorem fits_of_grid {rows : Grid α} (hlen : rows.rows.length = lens.length)
    (hwidth : rows.width = promptWidth + responseWidth)
    (hbounds : ∀ l ∈ lens, l.1 ≤ promptWidth ∧ l.2 ≤ responseWidth) :
    Fits promptWidth responseWidth rows.rows lens := by
  refine List.forall₂_iff_zip.2 ⟨hlen, ?_⟩
  intro row l hmem
  have hzip := List.of_mem_zip hmem
  exact ⟨(rows.rect row hzip.1).trans hwidth, hbounds l hzip.2⟩

def realTokens (promptWidth : ℕ) (rows : List (List α)) (lens : List (ℕ × ℕ)) : List (List α) :=
  List.zipWith (fun row l => block (promptWidth - l.1) (l.1 + l.2) row) rows lens

theorem zipWith_maskSelect {rows : List (List α)} (h : Fits promptWidth responseWidth rows lens) :
    List.zipWith maskSelect rows (lens.map (leftRightMask promptWidth responseWidth)) =
      realTokens promptWidth rows lens := by
  unfold realTokens
  induction h with
  | nil => rfl
  | cons hrow _ ih =>
    rw [List.map_cons, List.zipWith_cons_cons, List.zipWith_cons_cons, ih,
      maskSelect_leftRight hrow.2.1 hrow.2.2 hrow.1]

theorem map_length_realTokens {rows : List (List α)} (h : Fits promptWidth responseWidth rows lens) :
    (realTokens promptWidth rows lens).map List.length = lens.map fun l => l.1 + l.2 := by
  unfold realTokens
  induction h with
  | nil => rfl
  | cons hrow _ ih =>
    obtain ⟨hlen, hprompt, hresponse⟩ := hrow
    rw [List.zipWith_cons_cons, List.map_cons, ih, List.map_cons, length_block (by omega)]

theorem map_count_leftRightMask (promptWidth responseWidth : ℕ) (lens : List (ℕ × ℕ)) :
    (lens.map (leftRightMask promptWidth responseWidth)).map (List.count true) = lens.map fun l => l.1 + l.2 := by
  rw [List.map_map]
  refine List.map_congr_left ?_
  intro l _
  simp [leftRightMask, List.count_append, List.count_replicate]

theorem packRows_eq {rows : Grid α} (h : Fits promptWidth responseWidth rows.rows lens) :
    packRows rows (nonzero (lens.map (leftRightMask promptWidth responseWidth)).flatten)
        (lens.map fun l => l.1 + l.2) =
      .ok (.ofRows (realTokens promptWidth rows.rows lens)) := by
  have hmasks : List.Forall₂ (fun row mask => row.length = mask.length) rows.rows
      (lens.map (leftRightMask promptWidth responseWidth)) := by
    rw [List.forall₂_map_right_iff]
    refine h.imp ?_
    rintro row l ⟨hlen, hprompt, hresponse⟩
    rw [length_leftRightMask hprompt hresponse, hlen]
  have hflat : rows.rows.flatten.length = (lens.map (leftRightMask promptWidth responseWidth)).flatten.length := by
    have hlengths : rows.rows.map List.length =
        (lens.map (leftRightMask promptWidth responseWidth)).map List.length := by
      rw [← List.forall₂_eq_eq_eq, List.forall₂_map_left_iff, List.forall₂_map_right_iff]
      exact hmasks
    rw [List.length_flatten, List.length_flatten, hlengths]
  unfold packRows
  rw [gather_nonzero hflat, maskSelect_flatten hmasks, zipWith_maskSelect h, ← map_length_realTokens h]
  simp only
  rw [dif_pos List.length_flatten.symm]
  rfl

theorem packPositions_ok {positionIds : List PositionRow} {masks : List (List Bool)}
    (h : positionIds.length = masks.length) : ∃ selected, packPositions positionIds masks = .ok selected := by
  refine ⟨(List.range masks.length).map fun i =>
    (positionIds.getD i (.single [])).select (masks.getD i []), mapM_eq_map ?_⟩
  intro i hi
  have hi := List.mem_range.1 hi
  rw [List.getD_eq_getElem?_getD, List.getD_eq_getElem?_getD, List.getElem?_eq_getElem (h ▸ hi),
    List.getElem?_eq_getElem hi]
  rfl

theorem packOption_ok {rows : Option (MaybeNested α)}
    (h : ∀ dense, rows = some (.dense dense) → Fits promptWidth responseWidth dense.rows lens) :
    ∃ packed, packOption (nonzero (lens.map (leftRightMask promptWidth responseWidth)).flatten)
      (lens.map fun l => l.1 + l.2) rows = .ok packed := by
  rcases rows with _ | dense | nested
  · exact ⟨none, rfl⟩
  · refine ⟨some (.nested (.ofRows (realTokens promptWidth dense.rows lens))), ?_⟩
    simp only [packOption, packMaybe, packRows_eq (h dense rfl)]
    rfl
  · exact ⟨some (.nested nested), rfl⟩

theorem packTeacher_ok {teacherLogprobs : Option (Grid κ)} {teacherIds : Option (Grid τ)}
    (hlogprobs : ∀ rows, teacherLogprobs = some rows → Fits promptWidth responseWidth rows.rows lens)
    (hids : ∀ rows, teacherIds = some rows → Fits promptWidth responseWidth rows.rows lens) :
    ∃ packed, packTeacher (nonzero (lens.map (leftRightMask promptWidth responseWidth)).flatten)
      (lens.map fun l => l.1 + l.2) teacherLogprobs teacherIds = .ok packed := by
  rcases teacherLogprobs with _ | logprobs
  · exact ⟨_, rfl⟩
  · rcases teacherIds with _ | ids
    · exact ⟨_, rfl⟩
    · simp only [packTeacher, packRows_eq (hlogprobs logprobs rfl), packRows_eq (hids ids rfl)]
      exact ⟨_, rfl⟩

end Masks

section RoundTrip

variable {data : LeftRightData α ε κ τ} {inputIds : Grid α} {lens : List (ℕ × ℕ)}

theorem LeftRight.fits {β : Type} (h : LeftRight data inputIds lens) {rows : Grid β}
    (hlen : rows.rows.length = lens.length) (hwidth : rows.width = data.prompts.width + data.responses.width) :
    Fits data.prompts.width data.responses.width rows.rows lens :=
  fits_of_grid hlen hwidth fun l hl => (h.bounds l hl).2

/-- **The packed rows are the real tokens.** -/
theorem leftRight_eq (h : LeftRight data inputIds lens) :
    ∃ out, leftRight2NoPadding data = .ok out ∧
      out.inputIds = .ofRows (realTokens data.prompts.width inputIds.rows lens) ∧
      out.prompts = data.prompts ∧ out.responses = data.responses ∧
      out.attentionMask.rows = lens.map (leftRightMask data.prompts.width data.responses.width) := by
  obtain ⟨mask, hmask, hmaskRows⟩ := h.attentionMask
  obtain ⟨responseMask, hresponseMask⟩ := h.responseMask
  obtain ⟨positions, hpositions, hpositionsLen⟩ := h.positionIds
  -- each column is packed by the same mask
  have hinput := packRows_eq (h.fits h.inputIds_rows h.inputIds_width)
  have hpos : ∃ selected, packPositions positions mask.rows = .ok selected := by
    refine packPositions_ok ?_
    rw [hpositionsLen, hmaskRows, List.length_map]
  have hexperts : ∃ experts, packOption (nonzero mask.rows.flatten) (mask.rows.map (List.count true))
      data.routedExperts = .ok experts := by
    rw [hmaskRows, map_count_leftRightMask]
    exact packOption_ok fun rows hrows => h.fits (h.routedExperts rows hrows).1 (h.routedExperts rows hrows).2
  have hteacher : ∃ teacher, packTeacher (nonzero mask.rows.flatten) (mask.rows.map (List.count true))
      data.teacherLogprobs data.teacherIds = .ok teacher := by
    rw [hmaskRows, map_count_leftRightMask]
    exact packTeacher_ok
      (fun rows hrows => h.fits (h.teacherLogprobs rows hrows).1 (h.teacherLogprobs rows hrows).2)
      (fun rows hrows => h.fits (h.teacherIds rows hrows).1 (h.teacherIds rows hrows).2)
  obtain ⟨selected, hselected⟩ := hpos
  obtain ⟨experts, hexperts⟩ := hexperts
  obtain ⟨teacher, hteacher⟩ := hteacher
  unfold leftRight2NoPadding
  rw [h.inputIds_eq, hmask, hresponseMask, hpositions]
  simp only [require, bind, Except.bind, hselected, hexperts, hteacher]
  rw [hmaskRows, map_count_leftRightMask, hinput]
  exact ⟨_, rfl, rfl, rfl, rfl, hmaskRows⟩

end RoundTrip

/-! ## The slices -/

section Slices

variable {promptWidth responseWidth : ℕ} {rows : List (List ν)} {lens : List (ℕ × ℕ)}

/-- The values for the response tokens: those of the tokens before. -/
def responseValues (l : ℕ × ℕ) (row : List ν) : List ν := block (l.1 - 1) l.2 row

/-- Rows that have the given lengths, with a token of the prompt in each. -/
def HasLens (rows : List (List ν)) (lens : List (ℕ × ℕ)) : Prop :=
  List.Forall₂ (fun l row => row.length = l.1 + l.2 ∧ 1 ≤ l.1) lens rows

theorem hasLens_of_lengths (hlens : rows.map List.length = lens.map fun l => l.1 + l.2)
    (hprompt : ∀ l ∈ lens, 1 ≤ l.1) : HasLens rows lens := by
  have hlen : lens.length = rows.length := by
    have := congrArg List.length hlens
    rw [List.length_map, List.length_map] at this
    exact this.symm
  have hall : List.Forall₂ (fun (l : ℕ × ℕ) row => l.1 + l.2 = row.length) lens rows := by
    rw [← List.forall₂_map_right_iff (f := List.length) (R := fun (l : ℕ × ℕ) length => l.1 + l.2 = length),
      hlens, List.forall₂_map_right_iff, List.forall₂_same]
    exact fun _ _ => rfl
  refine List.forall₂_iff_zip.2 ⟨hlen, ?_⟩
  intro l row hmem
  exact ⟨((List.forall₂_iff_zip.1 hall).2 hmem).symm, hprompt l (List.of_mem_zip hmem).1⟩

theorem prompt_of_hasLens (h : HasLens rows lens) : ∀ l ∈ lens, 1 ≤ l.1 := by
  induction h with
  | nil =>
    intro l hl
    cases hl
  | cons hrow _ ih =>
    intro l hl
    rcases List.mem_cons.1 hl with rfl | hl
    · exact hrow.2
    · exact ih l hl

theorem slices_of_lens {β : Type} (g : ℕ → List ν → β) (h : HasLens rows lens) :
    ((lens.map Prod.snd).zip (cumsum 0 (rows.map List.length))).map
        (fun p => g p.1 (slice rows.flatten ((p.2 : ℤ) - p.1 - 1) ((p.2 : ℤ) - 1))) =
      List.zipWith (fun l row => g l.2 (responseValues l row)) lens rows := by
  have hsizes : List.Forall₂ (fun size (row : List ν) => size + 1 ≤ row.length) (lens.map Prod.snd) rows := by
    rw [List.forall₂_map_left_iff]
    refine h.imp ?_
    rintro l row ⟨hlen, hprompt⟩
    omega
  have hslices := slices_eq g [] hsizes
  rw [List.nil_append, List.length_nil] at hslices
  rw [hslices, List.zipWith_map_left]
  clear hslices hsizes
  induction h with
  | nil => rfl
  | @cons l row lens rows hrow _ ih =>
    have hstart : row.length - l.2 - 1 = l.1 - 1 := by
      rw [hrow.1]
      omega
    rw [List.zipWith_cons_cons, List.zipWith_cons_cons, ih, hstart]
    rfl

theorem length_responseValues {l : ℕ × ℕ} {row : List ν} (hlen : row.length = l.1 + l.2) (hprompt : 1 ≤ l.1) :
    (responseValues l row).length = l.2 := length_block (by omega)

theorem map_length_responseValues (h : HasLens rows lens) :
    (List.zipWith responseValues lens rows).map List.length = lens.map Prod.snd := by
  induction h with
  | nil => rfl
  | cons hrow _ ih =>
    rw [List.zipWith_cons_cons, List.map_cons, ih, length_responseValues hrow.1 hrow.2, List.map_cons]

/-- **`response_from_nested`**: the values for the response tokens of each row. -/
theorem responseFromNested_eq {tensor : Jagged ν} {responseMask : Jagged Bool}
    (hmask : responseMask.lengths = lens.map Prod.snd) (h : HasLens tensor.unbind lens) :
    responseFromNested tensor responseMask = .ok (.ofRows (List.zipWith responseValues lens tensor.unbind)) := by
  have hlen : lens.length = tensor.lengths.length := by
    rw [h.length_eq, Jagged.length_unbind]
  have hslices := slices_of_lens (fun _ values => values) h
  rw [Jagged.flatten_unbind, Jagged.map_length_unbind] at hslices
  have hoffsets : tensor.offsets.tail = cumsum 0 tensor.lengths := rfl
  unfold responseFromNested
  simp only
  rw [hoffsets, hmask, hslices, if_neg]
  rw [List.length_map, length_cumsum, hlen, not_not]

def paddedResponses [Zero ν] (responseWidth : ℕ) (lens : List (ℕ × ℕ)) (rows : List (List ν)) : List (List ν) :=
  List.zipWith (fun l row => responseValues l row ++ List.replicate (responseWidth - l.2) 0) lens rows

theorem padRight_of_le [Zero ν] {row : List ν} {size width : ℕ} (h : size ≤ width) :
    padRight row ((width : ℤ) - size) = .ok (row ++ List.replicate (width - size) 0) := by
  unfold padRight
  rw [if_pos (by omega)]
  congr 3
  omega

theorem width_paddedResponses [Zero ν] (h : HasLens rows lens) (hwidth : ∀ l ∈ lens, l.2 ≤ responseWidth) :
    ∀ row ∈ paddedResponses responseWidth lens rows, row.length = responseWidth := by
  unfold paddedResponses
  induction h with
  | nil =>
    intro row hrow
    cases hrow
  | @cons l first lens rows hfirst _ ih =>
    intro row hrow
    rw [List.zipWith_cons_cons] at hrow
    rcases List.mem_cons.1 hrow with rfl | hrow
    · have hle := hwidth l List.mem_cons_self
      rw [List.length_append, length_responseValues hfirst.1 hfirst.2, List.length_replicate]
      omega
    · exact ih (fun l hl => hwidth l (List.mem_cons_of_mem _ hl)) row hrow

/-- **`no_padding_2_padding`**: the values for the response tokens of each row, and zeros. -/
theorem noPadding2Padding_eq [Zero ν] {tensor : Jagged ν} {output : ModelOutput ν} {sequences : Sequences α}
    {maxResponseLen : Option ℤ} (houtput : output.values = tensor.values) (hne : lens ≠ [])
    (hprompts : sequences.promptLens = lens.map Prod.fst) (hresponses : sequences.responseLens = lens.map Prod.snd)
    (hmax : sequences.maxResponseLen (maxResponseLen.getD (-1)) = responseWidth)
    (hwidth : ∀ l ∈ lens, l.2 ≤ responseWidth) (h : HasLens tensor.unbind lens) :
    ∃ padded, noPadding2Padding output sequences maxResponseLen = .ok padded ∧ padded.width = responseWidth ∧
      padded.rows = paddedResponses responseWidth lens tensor.unbind := by
  -- the three checks: the sum of the lengths, the end of the values, a prompt in each row
  have hlens : tensor.lengths = lens.map fun l => l.1 + l.2 := by
    rw [← tensor.map_length_unbind, ← List.forall₂_eq_eq_eq, List.forall₂_map_left_iff, List.forall₂_map_right_iff]
    exact h.flip.imp fun _ _ hrow => hrow.1
  have hsums : List.zipWith (· + ·) sequences.promptLens sequences.responseLens = tensor.lengths := by
    rw [hprompts, hresponses, hlens, List.zipWith_map, List.zipWith_self]
  have hlast : (cumsum 0 tensor.lengths).getLast? = some output.values.length := by
    rw [getLast?_cumsum (by rw [hlens, Ne, List.map_eq_nil_iff]; exact hne), Nat.zero_add, tensor.sum_eq, houtput]
  have hprompt : 0 ∉ sequences.promptLens := by
    rw [hprompts, List.mem_map]
    rintro ⟨l, hl, hzero⟩
    have := prompt_of_hasLens h l hl
    omega
  -- each row is its slice and zeros up to the width of the responses
  have hpad : ((lens.map Prod.snd).zip (cumsum 0 tensor.lengths)).mapM (fun p =>
      padRight (slice output.values ((p.2 : ℤ) - p.1 - 1) ((p.2 : ℤ) - 1)) ((responseWidth : ℤ) - p.1)) =
      .ok (paddedResponses responseWidth lens tensor.unbind) := by
    have hslices := slices_of_lens (fun size values => values ++ List.replicate (responseWidth - size) (0 : ν)) h
    rw [Jagged.flatten_unbind, Jagged.map_length_unbind] at hslices
    unfold paddedResponses
    rw [← hslices, houtput]
    refine mapM_eq_map ?_
    intro p hp
    obtain ⟨l, hl, hsize⟩ := List.mem_map.1 (List.of_mem_zip hp).1
    exact padRight_of_le (hsize ▸ hwidth l hl)
  have hrows := width_paddedResponses h hwidth
  -- so all rows have that width and can be stacked
  have hstack : ∀ row ∈ paddedResponses responseWidth lens tensor.unbind,
      row.length = ((paddedResponses responseWidth lens tensor.unbind).headD []).length := by
    intro row hrow
    obtain ⟨first, rest, hcons⟩ := List.exists_cons_of_ne_nil (List.ne_nil_of_mem hrow)
    rw [hrows row hrow, hcons, List.headD_cons]
    exact (hrows first (hcons ▸ List.mem_cons_self)).symm
  have hwidthEq : ((paddedResponses responseWidth lens tensor.unbind).headD []).length = responseWidth := by
    have hlen : (paddedResponses responseWidth lens tensor.unbind).length = lens.length := by
      rw [paddedResponses, List.length_zipWith, ← h.length_eq, Nat.min_self]
    obtain ⟨first, rest, hcons⟩ := List.exists_cons_of_length_pos
      (l := paddedResponses responseWidth lens tensor.unbind) (by rw [hlen]; exact List.length_pos_of_ne_nil hne)
    rw [hcons, List.headD_cons]
    exact hrows first (hcons ▸ List.mem_cons_self)
  refine ⟨⟨_, paddedResponses responseWidth lens tensor.unbind, hstack⟩, ?_, hwidthEq, rfl⟩
  unfold noPadding2Padding
  simp only [hsums, hlast, hmax]
  rw [if_neg (not_not.2 rfl), if_neg hprompt, hresponses, if_neg, hpad]
  · simp only [bind, Except.bind, stack]
    rw [dif_pos hstack]
  · rw [List.length_map, length_cumsum, hlens, List.length_map, not_not]

/-- **`response_to_nested`**: the padded responses cut to their lengths. -/
theorem responseToNested_eq [Zero ν] {padded : Grid ν} {responseMask : Jagged Bool}
    (hmask : responseMask.lengths = lens.map Prod.snd) (h : HasLens rows lens)
    (hpadded : padded.rows = paddedResponses responseWidth lens rows) :
    responseToNested padded responseMask = .ok (.ofRows (List.zipWith responseValues lens rows)) := by
  have hlen : lens.length = rows.length := h.length_eq
  have hcut : (List.range padded.rows.length).mapM (fun i =>
      match padded.rows[i]?, responseMask.lengths[i]? with
      | some row, some responseLen => Except.ok (row.take responseLen)
      | _, _ => Except.error PaddingError.indexError) = .ok (List.zipWith responseValues lens rows) := by
    have hrowsLen : padded.rows.length = lens.length := by
      rw [hpadded, paddedResponses, List.length_zipWith, ← hlen, Nat.min_self]
    refine mapM_eq_ok_iff.2 (List.forall₂_iff_get.2 ⟨?_, ?_⟩)
    · rw [List.length_range, hrowsLen, List.length_zipWith, ← hlen, Nat.min_self]
    · intro i hi hi'
      rw [List.length_range, hrowsLen] at hi
      have hirows : i < rows.length := hlen ▸ hi
      have hrow := (List.forall₂_iff_get.1 h).2 i hi hirows
      simp only [List.get_eq_getElem] at hrow ⊢
      -- a padded row starts with its response values
      have hlook : padded.rows[i]? = some (responseValues lens[i] rows[i] ++
          List.replicate (responseWidth - lens[i].2) 0) := by
        rw [hpadded, paddedResponses, List.getElem?_zipWith, List.getElem?_eq_getElem hi,
          List.getElem?_eq_getElem hirows]
      have hsize : responseMask.lengths[i]? = some lens[i].2 := by
        rw [hmask, List.getElem?_map, List.getElem?_eq_getElem hi, Option.map_some]
      rw [List.getElem_range, hlook, hsize]
      simp only
      rw [List.take_left' (length_responseValues hrow.1 hrow.2), List.getElem_zipWith]
  unfold responseToNested
  rw [hcut]
  rfl

def entry (rows : List (List ν)) (i j : ℕ) : Option ν := rows[i]?.bind fun row => row[j]?

theorem hasLens_get (h : HasLens rows lens) {i : ℕ} {l : ℕ × ℕ} (hl : lens[i]? = some l) :
    ∃ row, rows[i]? = some row ∧ row.length = l.1 + l.2 ∧ 1 ≤ l.1 := by
  obtain ⟨hi, rfl⟩ := List.getElem?_eq_some_iff.1 hl
  have hi' : i < rows.length := h.length_eq ▸ hi
  exact ⟨rows.get ⟨i, hi'⟩, List.getElem?_eq_getElem hi', (List.forall₂_iff_get.1 h).2 i hi hi'⟩

theorem entry_responseValues (h : HasLens rows lens) {i j : ℕ} {l : ℕ × ℕ} (hl : lens[i]? = some l) (hj : j < l.2) :
    ∃ v, entry rows i (l.1 + j - 1) = some v ∧ entry (List.zipWith responseValues lens rows) i j = some v := by
  obtain ⟨row, hrow, hlen, hprompt⟩ := hasLens_get h hl
  have hsome : row[l.1 + j - 1]? = some (row.get ⟨l.1 + j - 1, by omega⟩) := List.getElem?_eq_getElem (by omega)
  refine ⟨row.get ⟨l.1 + j - 1, by omega⟩, ?_, ?_⟩
  · rw [entry, hrow]
    exact hsome
  · have hpos : l.1 - 1 + j = l.1 + j - 1 := by omega
    rw [entry, List.getElem?_zipWith, hl, hrow]
    show (responseValues l row)[j]? = _
    rw [responseValues, getElem?_block hj, hpos, hsome]

theorem entry_paddedResponses [Zero ν] (h : HasLens rows lens) {i j : ℕ} {l : ℕ × ℕ} (hl : lens[i]? = some l) :
    (j < l.2 → entry (paddedResponses responseWidth lens rows) i j = entry (List.zipWith responseValues lens rows) i j) ∧
      (l.2 ≤ j → j < responseWidth → entry (paddedResponses responseWidth lens rows) i j = some 0) := by
  obtain ⟨row, hrow, hlen, hprompt⟩ := hasLens_get h hl
  have hpadded : entry (paddedResponses responseWidth lens rows) i j =
      (responseValues l row ++ List.replicate (responseWidth - l.2) 0)[j]? := by
    rw [entry, paddedResponses, List.getElem?_zipWith, hl, hrow]
    rfl
  have hvalues := length_responseValues hlen hprompt
  refine ⟨?_, ?_⟩
  · intro hj
    rw [hpadded, List.getElem?_append_left (by omega), entry, List.getElem?_zipWith, hl, hrow]
    rfl
  · intro hle hj
    rw [hpadded, List.getElem?_append_right (by omega), List.getElem?_replicate, if_pos (by omega)]

end Slices

theorem padded_lens {prompts : Grid α} (responses : Grid α) {attentionMask : Grid Bool} {lens : List (ℕ × ℕ)}
    (hmask : attentionMask.rows = lens.map (leftRightMask prompts.width responseWidth))
    (hle : ∀ l ∈ lens, l.1 ≤ prompts.width) :
    (Sequences.padded prompts responses attentionMask).promptLens = lens.map Prod.fst ∧
      (Sequences.padded prompts responses attentionMask).responseLens = lens.map Prod.snd := by
  unfold Sequences.promptLens Sequences.responseLens
  simp only
  rw [hmask, List.map_map, List.map_map]
  exact ⟨List.map_congr_left fun l hl => (count_leftRightMask (hle l hl)).1,
    List.map_congr_left fun l hl => (count_leftRightMask (hle l hl)).2⟩

/-- **The round trip.** For rows padded on the left and on the right, and any values of the packed
tokens: the padded and the nested slices have at the response token `j` of row `i` the value at
the packed position before it, the padded ones are 0 behind the response, and cutting the
padded ones to the lengths gives the nested ones. -/
theorem noPadding_roundTrip [Zero ν] (data : LeftRightData α ε κ τ) (inputIds : Grid α) (lens : List (ℕ × ℕ))
    (h : LeftRight data inputIds lens) :
    ∃ out, leftRight2NoPadding data = .ok out ∧
      out.inputIds.unbind = realTokens data.prompts.width inputIds.rows lens ∧
      ∀ tensor : Jagged ν, tensor.lengths = out.inputIds.lengths →
        ∃ padded : Grid ν, ∃ nested : Jagged ν,
          (∀ output : ModelOutput ν, output.values = tensor.values → noPadding2Padding output
            (.padded out.prompts out.responses out.attentionMask) (some out.maxResponseLen) = .ok padded) ∧
          padded.rows.length = lens.length ∧ padded.width = data.responses.width ∧
          nested.lengths = lens.map Prod.snd ∧
          (∀ i l, lens[i]? = some l →
            (∀ j < l.2, ∃ v, entry tensor.unbind i (l.1 + j - 1) = some v ∧
              entry padded.rows i j = some v ∧ entry nested.unbind i j = some v) ∧
            ∀ j, l.2 ≤ j → j < data.responses.width → entry padded.rows i j = some 0) ∧
          ∀ responseMask : Jagged Bool, responseMask.lengths = lens.map Prod.snd →
            responseFromNested tensor responseMask = .ok nested ∧ responseToNested padded responseMask = .ok nested := by
  obtain ⟨out, hout, hpacked, hprompts, hresponses, hmask⟩ := leftRight_eq h
  have hunbind : out.inputIds.unbind = realTokens data.prompts.width inputIds.rows lens := by
    rw [hpacked, Jagged.unbind_ofRows]
  refine ⟨out, hout, hunbind, ?_⟩
  intro tensor hlengths
  have hlens : HasLens tensor.unbind lens := by
    refine hasLens_of_lengths ?_ fun l hl => (h.bounds l hl).1
    rw [tensor.map_length_unbind, hlengths, ← out.inputIds.map_length_unbind, hunbind,
      map_length_realTokens (h.fits h.inputIds_rows h.inputIds_width)]
  rw [← hprompts] at hmask
  obtain ⟨hpromptLens, hresponseLens⟩ := padded_lens out.responses hmask fun l hl => by
    rw [hprompts]
    exact (h.bounds l hl).2.1
  have hmax : (Sequences.padded out.prompts out.responses out.attentionMask).maxResponseLen
      ((some (out.maxResponseLen : ℤ)).getD (-1)) = data.responses.width := by
    unfold Sequences.maxResponseLen
    simp only
    rw [hresponses]
  have hwidth : ∀ l ∈ lens, l.2 ≤ data.responses.width := fun l hl => (h.bounds l hl).2.2
  have hslice : ∀ output : ModelOutput ν, output.values = tensor.values → ∃ padded,
      noPadding2Padding output (.padded out.prompts out.responses out.attentionMask) (some out.maxResponseLen) =
        .ok padded ∧ padded.width = data.responses.width ∧
        padded.rows = paddedResponses data.responses.width lens tensor.unbind :=
    fun output houtput => noPadding2Padding_eq houtput h.nonempty hpromptLens hresponseLens hmax hwidth hlens
  obtain ⟨padded, hpadded, hpaddedWidth, hpaddedRows⟩ := hslice (.nested tensor) rfl
  refine ⟨padded, .ofRows (List.zipWith responseValues lens tensor.unbind), ?_, ?_, hpaddedWidth, ?_, ?_, ?_⟩
  · intro output houtput
    -- only the values are read
    rw [← hpadded]
    unfold noPadding2Padding
    rw [houtput]
    rfl
  · rw [hpaddedRows, paddedResponses, List.length_zipWith, ← hlens.length_eq, Nat.min_self]
  · exact map_length_responseValues hlens
  · intro i l hl
    rw [Jagged.unbind_ofRows, hpaddedRows]
    refine ⟨?_, ?_⟩
    · intro j hj
      obtain ⟨v, hv, hnested⟩ := entry_responseValues hlens hl hj
      exact ⟨v, hv, ((entry_paddedResponses hlens hl).1 hj).trans hnested, hnested⟩
    · intro j hle hj
      exact (entry_paddedResponses hlens hl).2 hle hj
  · intro responseMask hresponseMask
    exact ⟨responseFromNested_eq hresponseMask hlens, responseToNested_eq hresponseMask hlens hpaddedRows⟩

/-- The token ids of two rows: one and two tokens of a prompt, two and no tokens of a response. -/
def twoRowsIds : Grid ℕ := ⟨4, [[0, 5, 8, 9], [6, 7, 0, 0]], by decide⟩

def twoRows : LeftRightData ℕ ℕ ℕ ℕ where
  prompts := ⟨2, [[0, 5], [6, 7]], by decide⟩
  responses := ⟨2, [[8, 9], [0, 0]], by decide⟩
  inputIds := some twoRowsIds
  attentionMask := some ⟨4, [[false, true, true, true], [true, true, false, false]], by decide⟩
  responseMask := some ⟨2, [[true, true], [false, false]], by decide⟩
  positionIds := some [.single [0, 0, 1, 2], .single [0, 1, 0, 0]]
  routedExperts := none
  teacherLogprobs := none
  teacherIds := none

theorem twoRows_leftRight : LeftRight twoRows twoRowsIds [(1, 2), (2, 0)] where
  nonempty := List.cons_ne_nil _ _
  bounds := by decide
  inputIds_eq := rfl
  inputIds_width := rfl
  inputIds_rows := rfl
  attentionMask := ⟨_, rfl, rfl⟩
  responseMask := ⟨_, rfl⟩
  positionIds := ⟨_, rfl, rfl⟩
  routedExperts := by
    intro rows hrows
    cases hrows
  teacherLogprobs := by
    intro rows hrows
    cases hrows
  teacherIds := by
    intro rows hrows
    cases hrows

/-- The values of the first row are one token to the left, the second row has none. -/
theorem noPadding_roundTrip_twoRows :
    ∃ out, leftRight2NoPadding twoRows = .ok out ∧ ∃ padded : Grid ℕ,
      noPadding2Padding (.packed [10, 11, 12, 20, 21]) (.padded out.prompts out.responses out.attentionMask)
        (some out.maxResponseLen) = .ok padded ∧ entry padded.rows 0 1 = some 11 ∧ entry padded.rows 1 0 = some 0 := by
  obtain ⟨out, hout, hunbind, hall⟩ := @noPadding_roundTrip ℕ ℕ ℕ ℕ ℕ _ twoRows twoRowsIds _ twoRows_leftRight
  have hlengths : out.inputIds.lengths = [3, 2] := by
    rw [← out.inputIds.map_length_unbind, hunbind]
    rfl
  obtain ⟨padded, nested, hpadded, -, -, -, hentries, -⟩ := hall ⟨[10, 11, 12, 20, 21], [3, 2], rfl⟩ hlengths.symm
  obtain ⟨v, hv, hentry, -⟩ := (hentries 0 (1, 2) rfl).1 1 (by decide)
  have hvalue : v = 11 := (Option.some.inj hv).symm
  exact ⟨out, hout, padded, hpadded (.packed [10, 11, 12, 20, 21]) rfl, hvalue ▸ hentry,
    (hentries 1 (2, 0) rfl).2 0 (by decide) (by decide)⟩

end Opd.Verl.NoPadding

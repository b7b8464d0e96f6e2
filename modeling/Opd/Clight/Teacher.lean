import Opd.Clight.Rollout
import Mathlib.Data.Int.Notation
import Mathlib.Data.PNat.Defs

/-!
# `VLLMTeacherScorer`: the teacher's top-k entries of a batch

The scorer submits the active span of every row, with runs of image and video tokens
collapsed, reads one top-k dictionary for every position of the prompt but the first,
and places the dictionaries into a tensor over the shifted positions. With a response
mask it places the **last** entries at the positions of the mask; without one it goes
by the positions that the dedup kept.

* `extractRow_ok`: a complete dictionary is read by rank.
* `extractRows_ok`: the entries of an output, read in order.
* `placeRow_at`: with a response mask, an entry lands at the position that has as many
  response positions after it as there are entries after the entry.
-/

namespace Opd.Clight

open Lib

variable {A : Type*} {L : Type}

/-- vLLM's `Logprob`. Ranks start at 1. -/
structure TokenLogprob (L : Type) where
  rank : Option ℕ+
  logprob : L

/-- One element of `prompt_logprobs`: token ids and their log-probs. -/
abbrev LogprobsDict (L : Type) := List (ℕ × TokenLogprob L)

/-- What vLLM returns for a prompt. -/
structure RequestOutput (L : Type) where
  promptLogprobs : Option (List (Option (LogprobsDict L)))

/-- One position of the returned tensors: the ids and log-probs by rank. The two
tensors are always assigned together. -/
abbrev Cell (L : Type) := List (ℕ × L)

/-- A value under a key of `multi_modal_data`: the images of the sample, or what the
caller put there. -/
inductive Media (A : Type*)
  | images (images : List A)
  | value (a : A)

/-- The keys of a caller's `multi_modal_data`. -/
structure MultiModalData (A : Type*) where
  image : Option A
  images : Option A
  video : Option A
  videos : Option A
  audio : Option A
  audios : Option A

/-- The `multi_modal_data` of a prompt. -/
structure PromptMmData (A : Type*) where
  image : Option (Media A)
  video : Option (Media A)
  audio : Option (Media A)

structure TeacherPrompt (A : Type*) where
  promptTokenIds : List ℕ
  multiModalData : PromptMmData A
  mmProcessorKwargs : Option (List (String × A))

/-- The arguments of `score` that only concern the prompts. -/
structure MediaArgs (A : Type*) where
  imagesPerSample : Option (List (List A))
  imageTokenId : Option ℕ
  videoTokenId : Option ℕ
  mmProcessorKwargsPerSample : Option (List (Option (List (String × A))))
  multiModalDataPerSample : Option (List (Option (MultiModalData A)))

/-- The arguments of `score`. -/
structure ScoreArgs (A : Type*) extends MediaArgs A where
  sequences : Grid ℕ
  attentionMask : Grid Bool
  padTokenId : ℕ
  responseMask : Option (Grid Bool)

/-- The options of `VLLMTeacherScorer`; `opd_topk` is checked to be positive. -/
structure TeacherConfig where
  topk : ℕ
  topk_pos : 0 < topk
  dedupMmTokens : Bool

/-- `VLLMTeacherScorer`, with the engine behind `llm.generate`. -/
structure VLLMTeacherScorer (A : Type*) (L : Type) extends TeacherConfig where
  generate : List (TeacherPrompt A) → List (RequestOutput L)

/-! ## Reading an output -/

def fillSlots (topk : ℕ) (logprobsDict : LogprobsDict L) : List (Option (ℕ × L)) :=
  logprobsDict.foldl (fun slots item =>
    match item.2.rank with
    | none => slots
    | some rank => if topk < rank then slots else slots.set rank.natPred (some (item.1, item.2.logprob)))
    (List.replicate topk none)

/-- One step of the loop of `_extract_topk`. -/
def extractRow (topk position : ℕ) (logprobsDict : LogprobsDict L) : Except String (Cell L) :=
  let slots := fillSlots topk logprobsDict
  if slots.any Option.isNone then
    .error s!"Incomplete top-{topk} vLLM prompt_logprobs at shifted position {position}."
  else .ok (slots.filterMap id)

/-- The loop of `_extract_topk`, from a position on. -/
def extractRows (topk : ℕ) : ℕ → List (Option (LogprobsDict L)) → Except String (List (Cell L))
  | _, [] => .ok []
  | position, none :: _ => .error s!"Missing vLLM prompt_logprobs at shifted position {position}."
  | position, some logprobsDict :: entries => do
    let cell ← extractRow topk position logprobsDict
    let cells ← extractRows topk (position + 1) entries
    pure (cell :: cells)

/-- `_extract_topk` -/
def extractTopk (topk : ℕ) (output : RequestOutput L) (expectedLen : ℤ) : Except String (List (Cell L)) :=
  match output.promptLogprobs with
  | none => .error "vLLM output did not include prompt_logprobs."
  | some promptLogprobs =>
    let entries := promptLogprobs.drop 1
    if (entries.length : ℤ) ≠ expectedLen then
      .error s!"vLLM prompt_logprobs length {entries.length} != expected {expectedLen}."
    else extractRows topk 0 entries

/-! ## Building a prompt -/

/-- `_active_span`: both ends are the length of the mask if nothing is active. -/
def activeSpan (attentionMask : List Bool) : ℕ × ℕ :=
  match nonzero attentionMask with
  | [] => (attentionMask.length, attentionMask.length)
  | first :: rest => (first, (first :: rest).getLast (List.cons_ne_nil _ _) + 1)

/-- `_dedup_consecutive_mm_tokens` of the teacher: the tokens kept, with their
positions. -/
def dedupWithIndices (imageTokenId videoTokenId : Option ℕ) (tokenIds : List ℕ) : List (ℕ × ℕ) :=
  if imageTokenId.isNone && videoTokenId.isNone then (List.range tokenIds.length).zip tokenIds
  else squeezeIdx (isMm imageTokenId videoTokenId) false 0 tokenIds

/-- A value of a batch column for row `i`: absent columns and missing entries give the
default. -/
def perSample {β : Type*} (default : β) (column : Option (List β)) (i : ℕ) : β :=
  ((column.getD [])[i]?).getD default

/-- What `score` keeps of a row between building its prompt and placing its entries. -/
structure RowSpan where
  rowIdx : ℕ
  start : ℕ
  activeLen : ℕ
  keptIndices : List ℕ
  responseShiftIndices : Option (List ℕ)

def spanTokens (sequence : List ℕ) (attentionMask : List Bool) : List ℕ :=
  let (start, stop) := activeSpan attentionMask
  (sequence.take stop).drop start

/-- The checks of `score` on the response mask, and the shift of its first column. -/
def responseShiftStart (sequences : Grid ℕ) : Option (Grid Bool) → Except String ℕ
  | none => .ok 0
  | some mask =>
    let batchSize := sequences.rows.length
    let shift : ℤ := sequences.width - mask.width - 1
    if mask.rows.length ≠ batchSize then
      .error (s!"Unexpected response_mask shape: got ({mask.rows.length}, {mask.width}), " ++
        s!"expected batch {batchSize}.")
    else if shift < 0 then
      .error s!"Invalid response_mask width {mask.width} for sequence length {sequences.width}."
    else .ok shift.toNat

namespace TeacherConfig

variable (c : TeacherConfig)

/-- The tokens and positions `_build_prompt` keeps. -/
def keptTokens (media : MediaArgs A) (tokenIds : List ℕ) : List (ℕ × ℕ) :=
  if c.dedupMmTokens then dedupWithIndices media.imageTokenId media.videoTokenId tokenIds
  else (List.range tokenIds.length).zip tokenIds

/-- `_build_prompt` for row `i`. -/
def buildPrompt (media : MediaArgs A) (i : ℕ) (tokenIds : List ℕ) : TeacherPrompt A where
  promptTokenIds := (c.keptTokens media tokenIds).map Prod.snd
  multiModalData :=
    let images := perSample [] media.imagesPerSample i
    match perSample none media.multiModalDataPerSample i with
    | some data =>
      { image := (data.image.or data.images).map .value
        video := (data.video.or data.videos).map .value
        audio := (data.audio.or data.audios).map .value }
    | none => { image := if images.isEmpty then none else some (.images images), video := none, audio := none }
  mmProcessorKwargs := (perSample none media.mmProcessorKwargsPerSample i).filter (!·.isEmpty)

/-- The span of row `i`. `responseMask` comes with the shift of its first position. -/
def rowSpan (media : MediaArgs A) (i seqLen : ℕ) (sequence : List ℕ) (attentionMask : List Bool)
    (responseMask : Option (ℕ × List Bool)) : RowSpan where
  rowIdx := i
  start := (activeSpan attentionMask).1
  activeLen := (spanTokens sequence attentionMask).length
  keptIndices := (c.keptTokens media (spanTokens sequence attentionMask)).map Prod.fst
  responseShiftIndices := responseMask.map fun m =>
    ((nonzero m.2).map (m.1 + ·)).filter (· < seqLen - 1)

/-- Placing the entries of one output into the row `full`. -/
def placeRow (full : List (Cell L)) (span : RowSpan) (output : RequestOutput L) :
    Except String (List (Cell L)) :=
  match output.promptLogprobs with
  | none => .error "vLLM output did not include prompt_logprobs."
  | some promptLogprobs => do
    let outputLen : ℤ := promptLogprobs.length - 1
    let expandedLen := span.activeLen - 1
    let dedupLen := span.keptIndices.length - 1
    let cells ← extractTopk c.topk output outputLen
    match span.responseShiftIndices with
    | some indices =>
      if indices.length = 0 then pure full
      else if outputLen < indices.length then
        .error (s!"Unexpected vLLM prompt_logprobs length for response alignment: got {outputLen}, " ++
          s!"need at least response tokens {indices.length} (row={span.rowIdx}, " ++
          s!"active_len={span.activeLen}, kept_len={span.keptIndices.length}).")
      else pure (indexPut full indices (takeLast indices.length cells))
    | none =>
      if outputLen = expandedLen then
        -- a tensor built from no rows has no top-k dimension to assign from
        if cells.isEmpty then .error "The expanded size of the tensor must match the existing size (0)."
        else pure (indexPut full (List.range' span.start (span.activeLen - 1)) cells)
      else if outputLen = dedupLen then
        pure (indexPut full (span.keptIndices.tail.map fun k => span.start + k - 1) cells)
      else
        .error (s!"Unexpected vLLM prompt_logprobs length: got {outputLen}, " ++
          s!"expected expanded {expandedLen} or deduped {dedupLen}.")

def rowOf (args : ScoreArgs A) (shift i : ℕ) (sequence : List ℕ) : RowSpan × TeacherPrompt A :=
  let attentionMask := (args.attentionMask.rows[i]?).getD []
  let responseMask := args.responseMask.map fun m => (shift, (m.rows[i]?).getD [])
  (c.rowSpan args.toMediaArgs i args.sequences.width sequence attentionMask responseMask,
    c.buildPrompt args.toMediaArgs i (spanTokens sequence attentionMask))

def rowsOf (args : ScoreArgs A) (shift : ℕ) : List (RowSpan × TeacherPrompt A) :=
  args.sequences.rows.mapIdx fun i sequence => c.rowOf args shift i sequence

def blankRow [Zero L] (padTokenId width : ℕ) : List (Cell L) :=
  List.replicate width (List.replicate c.topk (padTokenId, 0))

end TeacherConfig

/-- `VLLMTeacherScorer.score` -/
def VLLMTeacherScorer.score [Zero L] (S : VLLMTeacherScorer A L) (args : ScoreArgs A) :
    Except String (List (List (Cell L))) :=
  let full := S.blankRow args.padTokenId (args.sequences.width - 1)
  if args.sequences.width ≤ 1 then .ok (List.replicate args.sequences.rows.length full)
  else do
    let shift ← responseShiftStart args.sequences args.responseMask
    let rows := S.rowsOf args shift
    let outputs := S.generate (rows.map Prod.snd)
    if outputs.length ≠ rows.length then
      .error s!"vLLM returned {outputs.length} outputs for {rows.length} prompts."
    else (rows.zip outputs).mapM fun p => S.placeRow full p.1.1 p.2

theorem score_eq [Zero L] {S : VLLMTeacherScorer A L} {args : ScoreArgs A} {shift : ℕ}
    (hw : 1 < args.sequences.width)
    (hshift : responseShiftStart args.sequences args.responseMask = .ok shift)
    (hlen : (S.generate ((S.rowsOf args shift).map Prod.snd)).length = (S.rowsOf args shift).length) :
    S.score args = ((S.rowsOf args shift).zip (S.generate ((S.rowsOf args shift).map Prod.snd))).mapM
      fun p => S.placeRow (S.blankRow args.padTokenId (args.sequences.width - 1)) p.1.1 p.2 := by
  have hw' : ¬ args.sequences.width ≤ 1 := by omega
  unfold VLLMTeacherScorer.score
  simp only [hw', if_false, hshift, Bind.bind, Except.bind, hlen, ne_eq, not_true_eq_false]

/-! ## Complete dictionaries -/

/-- Every rank up to `topk` is on exactly one item. -/
structure Complete (topk : ℕ) (d : LogprobsDict L) : Prop where
  exists_item : ∀ r < topk, ∃ item ∈ d, item.2.rank = some r.succPNat
  unique : ∀ r < topk, ∀ a ∈ d, ∀ b ∈ d,
    a.2.rank = some r.succPNat → b.2.rank = some r.succPNat → a = b

/-- The cell lists the ids and log-probs of the dictionary by rank. -/
def Holds (topk : ℕ) (d : LogprobsDict L) (cell : Cell L) : Prop :=
  cell.length = topk ∧
    ∀ r < topk, ∀ item ∈ d, item.2.rank = some r.succPNat → cell[r]? = some (item.1, item.2.logprob)

theorem length_fillSlots (topk : ℕ) (d : LogprobsDict L) : (fillSlots topk d).length = topk := by
  unfold fillSlots
  induction d using List.reverseRecOn with
  | nil => simp
  | append_singleton d item ih =>
    rw [List.foldl_append, List.foldl_cons, List.foldl_nil]
    split
    · exact ih
    · split
      · exact ih
      · rw [List.length_set]
        exact ih

/-- **A slot** holds the last item of its rank. -/
theorem fillSlots_getElem {topk r : ℕ} (hr : r < topk) (d : LogprobsDict L) :
    (fillSlots topk d)[r]? =
      some ((d.reverse.find? fun item => item.2.rank = some r.succPNat).map
        fun item => (item.1, item.2.logprob)) := by
  induction d using List.reverseRecOn with
  | nil => simp [fillSlots, hr]
  | append_singleton d item ih =>
    -- the last item of the dictionary is written last, and found first from the end
    have hlen := length_fillSlots topk d
    unfold fillSlots at ih hlen ⊢
    rw [List.foldl_append, List.foldl_cons, List.foldl_nil, List.reverse_append, List.reverse_singleton,
      List.singleton_append, List.find?_cons]
    cases hrank : item.2.rank with
    | none => simpa using ih
    | some rank =>
      by_cases heq : rank = r.succPNat
      · subst heq
        have hle : ¬ topk < (r.succPNat : ℕ) := by
          rw [Nat.succPNat_coe]
          omega
        simp only [hle, if_false, decide_true, Option.map_some, Nat.natPred_succPNat]
        rw [List.getElem?_set_self (by omega)]
      · have hne : rank.natPred ≠ r := by
          intro h
          apply heq
          rw [← h, PNat.succPNat_natPred]
        have hdec : decide (some rank = some r.succPNat) = false := by simpa using heq
        rw [hdec]
        dsimp only
        split
        · exact ih
        · rw [List.getElem?_set_ne hne]
          exact ih

/-- **A complete dictionary is read by rank.** -/
theorem extractRow_ok {topk : ℕ} {d : LogprobsDict L} (hd : Complete topk d) (position : ℕ) :
    ∃ cell, extractRow topk position d = .ok cell ∧ Holds topk d cell := by
  have hlen := length_fillSlots topk d
  -- every slot is filled
  have hslot : ∀ r < topk, ∃ item ∈ d, item.2.rank = some r.succPNat ∧
      (fillSlots topk d)[r]? = some (some (item.1, item.2.logprob)) := by
    intro r hr
    rw [fillSlots_getElem hr]
    obtain ⟨item, hmem, hrank⟩ := hd.exists_item r hr
    cases hf : d.reverse.find? fun item => item.2.rank = some r.succPNat with
    | none =>
      have := List.find?_eq_none.1 hf item (List.mem_reverse.2 hmem)
      simp [hrank] at this
    | some found =>
      refine ⟨found, List.mem_reverse.1 (List.mem_of_find?_eq_some hf), ?_, rfl⟩
      simpa using List.find?_some hf
  have hall : ∀ slot ∈ fillSlots topk d, slot.isSome := by
    intro slot hmem
    obtain ⟨r, hr⟩ := List.getElem?_of_mem hmem
    obtain ⟨hlt, -⟩ := List.getElem?_eq_some_iff.1 hr
    obtain ⟨item, -, -, hitem⟩ := hslot r (by omega)
    rw [hitem, Option.some.injEq] at hr
    rw [← hr]
    rfl
  obtain ⟨cell, hcell⟩ : ∃ cell : Cell L, fillSlots topk d = cell.map some := by
    refine ⟨(fillSlots topk d).filterMap id, ?_⟩
    generalize fillSlots topk d = slots at hall
    induction slots with
    | nil => rfl
    | cons slot slots ih =>
      obtain ⟨x, rfl⟩ := Option.isSome_iff_exists.1 (hall slot (List.mem_cons_self ..))
      have hrest := ih fun s hs => hall s (List.mem_cons_of_mem _ hs)
      exact congrArg (some x :: ·) hrest
  refine ⟨cell, ?_, ?_, ?_⟩
  · unfold extractRow
    rw [hcell]
    have hany : (cell.map some).any Option.isNone = false := by simp
    simp only [hany, Bool.false_eq_true, if_false, List.filterMap_map]
    rw [show (id ∘ some : ℕ × L → Option (ℕ × L)) = some from rfl, List.filterMap_some]
  · rw [← hlen, hcell, List.length_map]
  · intro r hr item hmem hrank
    obtain ⟨found, hfound, hfrank, hget⟩ := hslot r hr
    rw [hcell, List.getElem?_map, Option.map_eq_some_iff] at hget
    obtain ⟨x, hx, hxf⟩ := hget
    rw [hx, hxf, hd.unique r hr item hmem found hfound hrank hfrank]

/-- **The entries of an output**, read in order. -/
theorem extractRows_ok {topk : ℕ} {ds : List (LogprobsDict L)} (hds : ∀ d ∈ ds, Complete topk d)
    (position : ℕ) :
    ∃ cells, extractRows topk position (ds.map some) = .ok cells ∧ List.Forall₂ (Holds topk) ds cells := by
  induction ds generalizing position with
  | nil => exact ⟨[], rfl, .nil⟩
  | cons d ds ih =>
    obtain ⟨cell, hcell, hholds⟩ := extractRow_ok (hds d (List.mem_cons_self ..)) position
    obtain ⟨cells, hcells, hall⟩ := ih (fun e he => hds e (List.mem_cons_of_mem _ he)) (position + 1)
    refine ⟨cell :: cells, ?_, .cons hholds hall⟩
    rw [List.map_cons, extractRows, hcell, hcells]
    rfl

/-! ## An engine and its output -/

/-- **What vLLM promises.** Every prompt token has at least one position, one unless
it is an image or video token, and every position has a complete top-k dictionary. -/
structure Engine (A : Type*) (L : Type) (topk : ℕ) (mm : ℕ → Bool) where
  /-- The dictionaries of the positions of every token of prompt number `i`. -/
  positions : ℕ → TeacherPrompt A → List (List (LogprobsDict L))
  length_positions : ∀ i p, (positions i p).length = p.promptTokenIds.length
  ne_nil : ∀ i p, ∀ group ∈ positions i p, group ≠ []
  single : ∀ i p (x t : ℕ) (group : List (LogprobsDict L)), p.promptTokenIds[x]? = some t →
    (positions i p)[x]? = some group → mm t = false → group.length = 1
  complete : ∀ i p, ∀ group ∈ positions i p, ∀ d ∈ group, Complete topk d

/-- `prompt_logprobs`: one element for every position, and `None` for the first. -/
def outputOf (ds : List (LogprobsDict L)) : RequestOutput L where
  promptLogprobs := some (match ds with
    | [] => []
    | _ :: rest => none :: rest.map some)

/-- `llm.generate` -/
def Engine.generate {topk : ℕ} {mm : ℕ → Bool} (E : Engine A L topk mm) (prompts : List (TeacherPrompt A)) :
    List (RequestOutput L) :=
  prompts.mapIdx fun i p => outputOf (E.positions i p).flatten

def TeacherConfig.withEngine (c : TeacherConfig) {mm : ℕ → Bool} (E : Engine A L c.topk mm) :
    VLLMTeacherScorer A L where
  toTeacherConfig := c
  generate := E.generate

namespace TeacherConfig

variable {c : TeacherConfig}

theorem placeRow_nil (full : List (Cell L)) (span : RowSpan) {out : List (Cell L)} :
    c.placeRow full span (outputOf []) ≠ .ok out := by
  intro h
  simp [placeRow, outputOf, extractTopk, Bind.bind, Except.bind] at h

theorem placeRow_eq {full cells : List (Cell L)} {span : RowSpan} {d : LogprobsDict L}
    {ds : List (LogprobsDict L)} {indices : List ℕ} (hspan : span.responseShiftIndices = some indices)
    (hcells : extractRows c.topk 0 (ds.map some) = .ok cells) :
    (indices.length = 0 → c.placeRow full span (outputOf (d :: ds)) = .ok full) ∧
      (indices.length ≠ 0 → ds.length < indices.length →
        ∀ out, c.placeRow full span (outputOf (d :: ds)) ≠ .ok out) ∧
      (indices.length ≠ 0 → indices.length ≤ ds.length →
        c.placeRow full span (outputOf (d :: ds)) =
          .ok (indexPut full indices (takeLast indices.length cells))) := by
  have hread : extractTopk c.topk (outputOf (d :: ds)) ((ds.length + 1 : ℕ) - 1 : ℤ) = .ok cells := by
    simp [extractTopk, outputOf, hcells]
  have hlen : (none :: ds.map some : List (Option (LogprobsDict L))).length = ds.length + 1 := by simp
  unfold placeRow
  simp only [outputOf] at hread ⊢
  simp only [hlen, hread, hspan, Bind.bind, Except.bind]
  refine ⟨fun h0 => by rw [if_pos h0]; rfl, fun h0 hlt out => ?_, fun h0 hle => ?_⟩
  · rw [if_neg h0, if_pos (by omega)]
    exact fun h => by cases h
  · rw [if_neg h0, if_neg (by omega)]
    rfl

/-- **The entries are placed from the end**: the cell at a response position has as
many entries after it as there are later response positions. -/
theorem placeRow_at {full : List (Cell L)} {span : RowSpan} {d : LogprobsDict L}
    {ds : List (LogprobsDict L)} {P Q : List ℕ} {t : ℕ}
    (hspan : span.responseShiftIndices = some (P ++ t :: Q)) (hnodup : (P ++ t :: Q).Nodup)
    (hlen : (P ++ t :: Q).length ≤ ds.length) (ht : t < full.length)
    (hds : ∀ d ∈ ds, Complete c.topk d) :
    ∃ out, c.placeRow full span (outputOf (d :: ds)) = .ok out ∧
      ∃ cell X e Y, out[t]? = some cell ∧ ds = X ++ e :: Y ∧ Y.length = Q.length ∧ Holds c.topk e cell := by
  obtain ⟨cells, hcells, hall⟩ := extractRows_ok hds 0
  have hclen : cells.length = ds.length := hall.length_eq.symm
  have hcount : (P ++ t :: Q).length = P.length + 1 + Q.length := by
    rw [List.length_append, List.length_cons]
    omega
  obtain ⟨P', cell, Q', X, htake, hP, hQ, hX⟩ :=
    takeLast_split (a := P.length) (b := Q.length) (l := cells) (by omega)
  -- the dictionary read into `cell`
  obtain ⟨e, Y, he⟩ : ∃ e Y, ds.drop X.length = e :: Y := by
    refine List.exists_cons_of_length_pos ?_
    rw [List.length_drop, ← hclen, hX, List.length_append, List.length_cons]
    omega
  have hsplit : ds = ds.take X.length ++ e :: Y := by rw [← he, List.take_append_drop]
  have hdrop := List.forall₂_drop X.length hall
  rw [he, hX, List.drop_left, List.forall₂_cons] at hdrop
  refine ⟨indexPut full (P ++ t :: Q) (P' ++ cell :: Q'), ?_, cell, ds.take X.length, e, Y,
    indexPut_at hP.symm hQ.symm hnodup ht, hsplit, ?_, hdrop.1⟩
  · rw [(placeRow_eq hspan hcells).2.2 (by omega) hlen, hcount, htake]
  · rw [hdrop.2.length_eq, hQ]

end TeacherConfig

end Opd.Clight

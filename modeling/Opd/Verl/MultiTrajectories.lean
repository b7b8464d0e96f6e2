import Opd.Lib.Decimal
import Opd.Lib.Fields
import Opd.Lib.Latest
import Opd.Verl.OutcomeAdvantage

/-!
# Advantages for several outputs of a session

A session can have several outputs, each of them a row with the key `uid_session_index`. GRPO compares the last outputs
of the sessions only, and every row of a session gets the advantage of its last output.

* `grpo_rows`: the advantages of a batch, row by row.
* `sessionEntry_render`: what is read from a key.
* `multiTrajectories_spec`: the advantages of all rows.
-/

namespace Opd.Verl.MultiTrajectories

open Lib GroupIndex OutcomeAdvantage

variable {K E : Type} [Field K]

/-- A row of the batch. The estimators other than GRPO may read more columns. -/
structure Row (K E : Type) where
  tokenLevelRewards : List K
  responseMask : List Bool
  uid : Label
  rest : E

/-- A batch, with responses padded to one width. -/
structure Data (K E : Type) where
  rows : List (Row K E)
  width : ℕ
  rect : ∀ row ∈ rows, row.tokenLevelRewards.length = width ∧ row.responseMask.length = width

def maskValues (mask : List Bool) : List K := mask.map fun m => if m then 1 else 0

def Row.score (row : Row K E) : K := row.tokenLevelRewards.sum

def Data.batch (data : Data K E) : Batch K where
  tokenLevelRewards := data.rows.map Row.tokenLevelRewards
  responseMask := data.rows.map fun row => maskValues row.responseMask
  index := .objects (data.rows.map Row.uid)
  mask_length := by rw [List.length_map, List.length_map]
  index_length := by rw [IndexArray.labels, List.length_map, List.length_map]

inductive AdvEstimator (K E : Type)
  | grpo
  | other (fn : Data K E → Option (List (List K) × List (List K)))

/-- The default `epsilon` of GRPO. -/
def epsilon : K := 1 / ((1000000 : ℕ) : K)

/-- `compute_advantage`: the advantages and the returns. -/
def computeAdvantage (sqrt : K → K) (data : Data K E) (advEstimator : AdvEstimator K E) (normAdvByStdInGrpo : Bool) :
    Option (List (List K) × List (List K)) :=
  match advEstimator with
  | .grpo => some (computeGrpoOutcomeAdvantage sqrt data.batch epsilon normAdvByStdInGrpo)
  | .other fn => fn data

/-- `select_idxs`. An index out of range is an error. -/
def Data.selectIdxs (data : Data K E) (idxs : List ℕ) : Option (Data K E) :=
  match h : idxs.mapM (data.rows[·]?) with
  | some rows => some ⟨rows, data.width, fun row hrow => by
      obtain ⟨k, hk⟩ := List.mem_iff_getElem?.1 hrow
      obtain ⟨i, -, hi⟩ := getElem?_of_forall₂ (mapM_eq_some_iff.1 h).flip hk
      exact data.rect row (List.mem_of_getElem? hi)⟩
  | none => none

/-- `key.rsplit("_", 2)`: the session of a key, and the index. Another number of fields, or no number, is an error. -/
def sessionEntry (key : String) : Option (List Char × ℤ) :=
  match rsplit '_' 2 key.toList with
  | [uid, sessionId, index] => (intOfText index).map fun n => (uid ++ '_' :: sessionId, n)
  | _ => none

/-- `argmax`, of a mask: the first position with the largest value. -/
def argmax (mask : List Bool) : ℕ := if true ∈ mask then mask.idxOf true else 0

/-- The advantage of each row, read at the first position in its mask. There must be a position. -/
def finalScores (data : Data K E) (advantages : List (List K)) : Option (List K) :=
  if data.width = 0 then none
  else (data.rows.zip advantages).mapM fun p => p.2[argmax p.1.responseMask]?

/-- `compute_advantage_for_multi_trajectories`: the advantages and the returns. -/
def computeAdvantageForMultiTrajectories (sqrt : K → K) (data : Data K E) (batchKeys : List String)
    (advEstimator : AdvEstimator K E) (normAdvByStdInGrpo : Bool) : Option (List (List K) × List (List K)) :=
  match advEstimator with
  | .other fn => computeAdvantage sqrt data (.other fn) normAdvByStdInGrpo
  | .grpo => do
    let entries ← batchKeys.mapM sessionEntry
    let finalSessions := latest entries
    let finalData ← data.selectIdxs (finalSessions.items.map fun item => item.2.2)
    let out ← computeAdvantage sqrt finalData .grpo normAdvByStdInGrpo
    let scores ← finalScores finalData out.1
    let scores ← entries.mapM fun entry => scores[finalSessions.keys.idxOf entry.1]?
    let advantages := overMask scores (data.rows.map fun row => maskValues row.responseMask)
    some (advantages, advantages)

/-! ## GRPO, row by row -/

/-- **What GRPO is for**: a score compared with the scores of its group. -/
def grpoValue (sqrt : K → K) (normAdvByStdInGrpo : Bool) (group : List K) (score : K) : K :=
  let mean := if group.length = 1 then 0 else mean group
  let std := if group.length = 1 then 1 else std sqrt group
  if normAdvByStdInGrpo then (score - mean) / (std + epsilon) else score - mean

/-- The scores of the rows with a `uid`. -/
def groupScores (rows : List (Row K E)) (uid : Key) : List K :=
  (rows.filter fun row => row.uid.key = uid).map Row.score

def spread (value : K) (mask : List Bool) : List K := mask.map fun m => if m then value else 0

def rowValue (sqrt : K → K) (normAdvByStdInGrpo : Bool) (rows : List (Row K E)) (row : Row K E) : K :=
  grpoValue sqrt normAdvByStdInGrpo (groupScores rows row.uid.key) row.score

theorem map_maskValues (a : K) (mask : List Bool) : (maskValues mask).map (a * ·) = spread a mask := by
  unfold maskValues spread
  rw [List.map_map]
  refine List.map_congr_left fun m _ => ?_
  cases m with
  | false => exact mul_zero a
  | true => exact mul_one a

theorem overMask_batch (data : Data K E) (value : List K → K → K) :
    overMask (List.zipWith (fun idx score => value (grouped data.batch.index.keys data.batch.scores idx) score)
        data.batch.index.keys data.batch.scores) data.batch.responseMask =
      data.rows.map fun row => spread (value (groupScores data.rows row.uid.key) row.score) row.responseMask := by
  have hkeys : data.batch.index.keys = data.rows.map fun row => row.uid.key := by
    show (data.rows.map Row.uid).map Label.key = _
    rw [List.map_map]
    rfl
  have hscores : data.batch.scores = data.rows.map Row.score := by
    show (data.rows.map Row.tokenLevelRewards).map List.sum = _
    rw [List.map_map]
    rfl
  have hmask : data.batch.responseMask = data.rows.map fun row => maskValues row.responseMask := rfl
  unfold overMask
  simp only [hkeys, hscores, hmask, List.zipWith_map, List.zipWith_self, grouped_map_map]
  exact List.map_congr_left fun row _ => map_maskValues _ _

theorem grpo_rows (sqrt : K → K) (norm : Bool) (data : Data K E) :
    (computeGrpoOutcomeAdvantage sqrt data.batch epsilon norm) =
      (data.rows.map fun row => spread (rowValue sqrt norm data.rows row) row.responseMask,
        data.rows.map fun row => spread (rowValue sqrt norm data.rows row) row.responseMask) := by
  have hrows := overMask_batch data (grpoValue sqrt norm)
  unfold computeGrpoOutcomeAdvantage
  exact Prod.ext hrows hrows

theorem grpoValue_perm (sqrt : K → K) (norm : Bool) {group group' : List K} (h : group.Perm group') (score : K) :
    grpoValue sqrt norm group score = grpoValue sqrt norm group' score := by
  have hmean : mean group = mean group' := by
    unfold mean
    rw [h.sum_eq, h.length_eq]
  have hstd : std sqrt group = std sqrt group' := by
    unfold std
    rw [hmean, (h.map _).sum_eq, h.length_eq]
  unfold grpoValue
  rw [hmean, hstd, h.length_eq]

theorem rowValue_perm (sqrt : K → K) (norm : Bool) {rows rows' : List (Row K E)} (h : rows.Perm rows') (row : Row K E) :
    rowValue sqrt norm rows row = rowValue sqrt norm rows' row :=
  grpoValue_perm sqrt norm ((h.filter _).map _) _

/-! ## The last outputs -/

def lastRows {κ α : Type} [DecidableEq κ] (rows : List α) (entries : List (κ × ℤ)) : List α :=
  (latestRows entries).filterMap (rows[·]?)

section Last

variable {data : Data K E} {entries : List (List Char × ℤ)}

def finalIndices (entries : List (List Char × ℤ)) : List ℕ := (latest entries).items.map fun item => item.2.2

omit [Field K] in
theorem Data.selectIdxs_eq {idxs : List ℕ} {rows : List (Row K E)} (h : idxs.mapM (data.rows[·]?) = some rows) :
    ∃ final, data.selectIdxs idxs = some final ∧ final.rows = rows ∧ final.width = data.width := by
  unfold Data.selectIdxs
  split
  · rename_i rows' hrows'
    rw [h] at hrows'
    exact ⟨_, rfl, (Option.some.inj hrows').symm, rfl⟩
  · rename_i hnone
    rw [h] at hnone
    cases hnone

omit [Field K] in
/-- **The rows of the last outputs are selected.** -/
theorem exists_selectIdxs (hlength : entries.length = data.rows.length) :
    ∃ final : Data K E, data.selectIdxs (finalIndices entries) = some final ∧ final.width = data.width ∧
      List.Forall₂ (fun r row => data.rows[r]? = some row) (finalIndices entries) final.rows := by
  obtain ⟨rows, hrows⟩ : ∃ rows, (finalIndices entries).mapM (data.rows[·]?) = some rows := by
    refine exists_mapM fun r hr => ?_
    obtain ⟨label, index, hlatest⟩ := mem_latestRows.1 ((latestRows_perm entries).mem_iff.1 hr)
    have hlt := (List.getElem?_eq_some_iff.1 hlatest.1).1
    rw [hlength] at hlt
    exact ⟨_, List.getElem?_eq_getElem hlt⟩
  obtain ⟨final, hfinal, rfl, hwidth⟩ := data.selectIdxs_eq hrows
  exact ⟨final, hfinal, hwidth, mapM_eq_some_iff.1 hrows⟩

theorem filterMap_of_forall₂ {α : Type} {is : List ℕ} {rows selected : List α}
    (h : List.Forall₂ (fun r row => rows[r]? = some row) is selected) : is.filterMap (rows[·]?) = selected := by
  induction h with
  | nil => rfl
  | cons hrow _ ih => rw [List.filterMap_cons_some hrow, ih]

omit [Field K] in
theorem lastRows_perm {final : Data K E}
    (h : List.Forall₂ (fun r row => data.rows[r]? = some row) (finalIndices entries) final.rows) :
    final.rows.Perm (lastRows data.rows entries) := by
  have hperm := (latestRows_perm entries).filterMap (data.rows[·]?)
  have hfinal := filterMap_of_forall₂ h
  unfold finalIndices at hfinal
  rwa [hfinal] at hperm

def firstScore (value : K) (mask : List Bool) : K := if true ∈ mask then value else 0

theorem spread_firstScore (value : K) {mask : List Bool} (h : mask ≠ []) :
    (spread value mask)[argmax mask]? = some (firstScore value mask) := by
  unfold spread argmax firstScore
  rw [List.getElem?_map]
  by_cases hmem : true ∈ mask
  · rw [if_pos hmem, if_pos hmem]
    have hlt := List.idxOf_lt_length_of_mem hmem
    rw [List.getElem?_eq_getElem hlt, List.getElem_idxOf hlt]
    rfl
  · rw [if_neg hmem, if_neg hmem]
    obtain ⟨m, rest, rfl⟩ := List.exists_cons_of_ne_nil h
    have hm : m = false := by
      cases m with
      | false => rfl
      | true => exact absurd List.mem_cons_self hmem
    rw [hm]
    rfl

/-- **The scores of the last outputs.** -/
theorem finalScores_eq {final : Data K E} (hwidth : 0 < final.width) (value : Row K E → K) :
    finalScores final (final.rows.map fun row => spread (value row) row.responseMask) =
      some (final.rows.map fun row => firstScore (value row) row.responseMask) := by
  have hzip : final.rows.zip (final.rows.map fun row => spread (value row) row.responseMask) =
      final.rows.map fun row => (row, spread (value row) row.responseMask) := by
    have hmap := List.zip_map' (f := id) (g := fun row => spread (value row) row.responseMask) (l := final.rows)
    rwa [List.map_id] at hmap
  unfold finalScores
  rw [if_neg (Nat.ne_of_gt hwidth), hzip, mapM_eq_some_iff, List.forall₂_map_left_iff, List.forall₂_map_right_iff,
    List.forall₂_same]
  intro row hrow
  refine spread_firstScore (value row) ?_
  rintro hnil
  have hlength := (final.rect row hrow).2
  rw [hnil, List.length_nil] at hlength
  omega

/-- **What a row gets**: the score of the last output of its session. -/
theorem sessionScore (sqrt : K → K) (norm : Bool) {final : Data K E}
    (h : List.Forall₂ (fun r row => data.rows[r]? = some row) (finalIndices entries) final.rows) {i : ℕ}
    {entry : List Char × ℤ} (hentry : entries[i]? = some entry) :
    ∃ (r : ℕ) (index : ℤ) (last : Row K E), IsLatest entries entry.1 index r ∧ data.rows[r]? = some last ∧
      (final.rows.map fun row => firstScore (rowValue sqrt norm final.rows row) row.responseMask)[
        (latest entries).keys.idxOf entry.1]? =
        some (firstScore (rowValue sqrt norm (lastRows data.rows entries) last) last.responseMask) := by
  obtain ⟨index, r, hlatest⟩ := exists_latest hentry
  have hitem := Dict.getElem?_idxOf (get?_latest.2 hlatest)
  have hindex : (finalIndices entries)[(latest entries).keys.idxOf entry.1]? = some r := by
    rw [finalIndices, List.getElem?_map, hitem]
    rfl
  obtain ⟨last, hlast, hrow⟩ := getElem?_of_forall₂ h hindex
  refine ⟨r, index, last, hlatest, hrow, ?_⟩
  rw [List.getElem?_map, hlast, Option.map_some, rowValue_perm sqrt norm (lastRows_perm h)]

/-- **The advantages of all rows**, whose keys have these entries. -/
theorem exists_advantages (sqrt : K → K) (norm : Bool) {batchKeys : List String}
    (hparse : batchKeys.mapM sessionEntry = some entries) (hlength : entries.length = data.rows.length)
    (hwidth : 0 < data.width) :
    ∃ advantages, computeAdvantageForMultiTrajectories sqrt data batchKeys .grpo norm =
        some (advantages, advantages) ∧ advantages.length = data.rows.length ∧
      ∀ (i : ℕ) entry row, entries[i]? = some entry → data.rows[i]? = some row →
        ∃ (r : ℕ) (index : ℤ) (last : Row K E), IsLatest entries entry.1 index r ∧ data.rows[r]? = some last ∧
          advantages[i]? = some (spread (firstScore (rowValue sqrt norm (lastRows data.rows entries) last)
            last.responseMask) row.responseMask) := by
  obtain ⟨final, hfinal, hfinalWidth, hrows⟩ := exists_selectIdxs hlength
  obtain ⟨scores, hscores⟩ : ∃ scores, entries.mapM (fun entry =>
      (final.rows.map fun row => firstScore (rowValue sqrt norm final.rows row) row.responseMask)[
        (latest entries).keys.idxOf entry.1]?) = some scores := by
    refine exists_mapM fun entry hentry => ?_
    obtain ⟨i, hi⟩ := List.mem_iff_getElem?.1 hentry
    obtain ⟨r, index, last, -, -, hscore⟩ := sessionScore sqrt norm hrows hi
    exact ⟨_, hscore⟩
  refine ⟨overMask scores (data.rows.map fun row => maskValues row.responseMask), ?_, ?_, ?_⟩
  · unfold finalIndices at hfinal
    unfold computeAdvantageForMultiTrajectories
    simp only [hparse, Option.bind_eq_bind, Option.bind_some, hfinal, computeAdvantage, grpo_rows,
      finalScores_eq (hfinalWidth ▸ hwidth), hscores]
  · have hlengths := (mapM_eq_some_iff.1 hscores).length_eq
    rw [overMask, List.length_zipWith, List.length_map, ← hlengths, hlength, Nat.min_self]
  · intro i entry row hentry hrow
    obtain ⟨r, index, last, hlatest, hlast, hscore⟩ := sessionScore sqrt norm hrows hentry
    refine ⟨r, index, last, hlatest, hlast, ?_⟩
    obtain ⟨score, hi, heq⟩ := getElem?_of_forall₂ (mapM_eq_some_iff.1 hscores) hentry
    rw [hscore, Option.some.injEq] at heq
    rw [overMask, List.getElem?_zipWith, hi, List.getElem?_map, hrow, Option.map_some, heq]
    dsimp only
    rw [map_maskValues]

end Last

/-! ## Keys -/

structure Session where
  uid : List Char
  sessionId : List Char
  noUnderscore : '_' ∉ sessionId
  deriving DecidableEq

def Session.key (session : Session) : List Char := session.uid ++ '_' :: session.sessionId

theorem Session.key_injective : Function.Injective Session.key := by
  rintro ⟨uid, sessionId, hno⟩ ⟨uid', sessionId', hno'⟩ heq
  obtain ⟨rfl, rfl⟩ := append_sep_inj hno hno' heq
  rfl

/-- **The key of a row**: its session and its index. -/
structure TrajectoryKey where
  session : Session
  index : ℤ

/-- `f"{uid}_{session_id}_{index}"` -/
def TrajectoryKey.render (key : TrajectoryKey) : String :=
  String.ofList (key.session.key ++ '_' :: textOfInt key.index)

def outputs (keys : List TrajectoryKey) : List (Session × ℤ) := keys.map fun key => (key.session, key.index)

theorem underscore_not_mem_textOfInt (z : ℤ) : '_' ∉ textOfInt z := by
  intro h
  rcases isDigit_of_mem_textOfInt h with hdigit | heq
  · exact absurd hdigit (by decide)
  · exact absurd heq (by decide)

/-- **What is read from a key.** -/
theorem sessionEntry_render (key : TrajectoryKey) : sessionEntry key.render = some (key.session.key, key.index) := by
  unfold sessionEntry TrajectoryKey.render Session.key
  rw [String.toList_ofList, rsplit_fields key.session.noUnderscore (underscore_not_mem_textOfInt _)]
  dsimp only
  rw [intOfText_textOfInt]
  rfl

def entries (keys : List TrajectoryKey) : List (List Char × ℤ) := keys.map fun key => (key.session.key, key.index)

theorem isLatest_entries_iff {keys : List TrajectoryKey} {session : Session} {index : ℤ} {r : ℕ} :
    IsLatest (entries keys) session.key index r ↔ IsLatest (outputs keys) session index r := by
  have hmap : entries keys = (outputs keys).map fun e => (e.1.key, id e.2) := by
    unfold entries outputs
    rw [List.map_map]
    rfl
  rw [hmap]
  exact isLatest_map_iff (g := id) Session.key_injective fun _ _ => Iff.rfl

theorem latestRows_entries_perm (keys : List TrajectoryKey) :
    (latestRows (entries keys)).Perm (latestRows (outputs keys)) := by
  refine (List.perm_ext_iff_of_nodup (latestRows_nodup _) (latestRows_nodup _)).2 fun r => ?_
  rw [mem_latestRows, mem_latestRows]
  constructor
  · rintro ⟨label, index, hlatest⟩
    have hget := hlatest.1
    rw [entries, List.getElem?_map, Option.map_eq_some_iff] at hget
    obtain ⟨key, -, heq⟩ := hget
    rw [← (Prod.mk.inj heq).1] at hlatest
    exact ⟨key.session, index, isLatest_entries_iff.1 hlatest⟩
  · rintro ⟨session, index, hlatest⟩
    exact ⟨session.key, index, isLatest_entries_iff.2 hlatest⟩

def finals (data : Data K E) (keys : List TrajectoryKey) : List (Row K E) := lastRows data.rows (outputs keys)

theorem mapM_sessionEntry (keys : List TrajectoryKey) :
    (keys.map TrajectoryKey.render).mapM sessionEntry = some (entries keys) := by
  unfold entries
  rw [mapM_eq_some_iff, List.forall₂_map_left_iff, List.forall₂_map_right_iff, List.forall₂_same]
  exact fun key _ => sessionEntry_render key

/-- **The advantages of all rows**, by their keys. -/
theorem exists_advantages_render (sqrt : K → K) (norm : Bool) {data : Data K E} {keys : List TrajectoryKey}
    (hlength : keys.length = data.rows.length) (hwidth : 0 < data.width) :
    ∃ advantages, computeAdvantageForMultiTrajectories sqrt data (keys.map TrajectoryKey.render) .grpo norm =
        some (advantages, advantages) ∧ advantages.length = data.rows.length ∧
      ∀ (i : ℕ) key row, keys[i]? = some key → data.rows[i]? = some row →
        ∃ (r : ℕ) (index : ℤ) (last : Row K E), IsLatest (outputs keys) key.session index r ∧
          data.rows[r]? = some last ∧ advantages[i]? =
            some (spread (firstScore (rowValue sqrt norm (finals data keys) last) last.responseMask) row.responseMask) := by
  have hentries : (entries keys).length = data.rows.length := by
    rw [entries, List.length_map, hlength]
  obtain ⟨advantages, hcompute, hcount, hrows⟩ := exists_advantages sqrt norm (mapM_sessionEntry keys) hentries hwidth
  refine ⟨advantages, hcompute, hcount, fun i key row hkey hrow => ?_⟩
  have hentry : (entries keys)[i]? = some (key.session.key, key.index) := by
    rw [entries, List.getElem?_map, hkey]
    rfl
  obtain ⟨r, index, last, hlatest, hlast, hi⟩ := hrows i _ row hentry hrow
  refine ⟨r, index, last, isLatest_entries_iff.1 hlatest, hlast, ?_⟩
  have hperm : (lastRows data.rows (entries keys)).Perm (finals data keys) := (latestRows_entries_perm keys).filterMap _
  rw [hi, rowValue_perm sqrt norm hperm]

/-! ## One output for each session -/

section Single

variable {data : Data K E} {keys : List TrajectoryKey}

theorem isLatest_of_nodup (h : ((outputs keys).map Prod.fst).Nodup) {i : ℕ} {key : TrajectoryKey}
    (hkey : keys[i]? = some key) : IsLatest (outputs keys) key.session key.index i := by
  have hentry : (outputs keys)[i]? = some (key.session, key.index) := by
    rw [outputs, List.getElem?_map, hkey]
    rfl
  refine ⟨hentry, fun j index hj => ?_⟩
  have hi : i < ((outputs keys).map Prod.fst).length := by
    rw [List.length_map]
    exact (List.getElem?_eq_some_iff.1 hentry).1
  have heq : i = j := by
    refine (List.getElem?_inj hi h).1 ?_
    rw [List.getElem?_map, List.getElem?_map, hentry, hj]
    rfl
  subst heq
  rw [hentry, Option.some.injEq, Prod.mk.injEq] at hj
  exact ⟨le_of_eq hj.2.symm, fun _ => Nat.le_refl i⟩

omit [Field K] in
theorem finals_perm_of_nodup (hlength : keys.length = data.rows.length) (h : ((outputs keys).map Prod.fst).Nodup) :
    (finals data keys).Perm data.rows := by
  have hrange : (latestRows (outputs keys)).Perm (List.range data.rows.length) := by
    refine (List.perm_ext_iff_of_nodup (latestRows_nodup _) List.nodup_range).2 fun r => ?_
    rw [mem_latestRows, List.mem_range, ← hlength]
    constructor
    · rintro ⟨session, index, hlatest⟩
      have hlt := (List.getElem?_eq_some_iff.1 hlatest.1).1
      rwa [outputs, List.length_map] at hlt
    · intro hr
      exact ⟨_, _, isLatest_of_nodup h (List.getElem?_eq_getElem hr)⟩
  have hall : List.Forall₂ (fun r row => data.rows[r]? = some row) (List.range data.rows.length) data.rows := by
    refine List.forall₂_iff_get.2 ⟨List.length_range, fun i hi hi' => ?_⟩
    rw [List.get_eq_getElem, List.get_eq_getElem, List.getElem_range]
    exact List.getElem?_eq_getElem hi'
  have hperm := hrange.filterMap (data.rows[·]?)
  rwa [filterMap_of_forall₂ hall] at hperm

theorem spread_firstScore_self (value : K) (mask : List Bool) : spread (firstScore value mask) mask = spread value mask := by
  unfold spread firstScore
  by_cases hmem : true ∈ mask
  · rw [if_pos hmem]
  · refine List.map_congr_left fun m hm => ?_
    cases m with
    | false => rfl
    | true => exact absurd hm hmem

/-- **Where each session has one output**, the advantages are those of GRPO. -/
theorem advantages_of_nodup (sqrt : K → K) (norm : Bool) (hlength : keys.length = data.rows.length)
    (h : ((outputs keys).map Prod.fst).Nodup) {advantages : List (List K)} (hadvantages : advantages.length = data.rows.length)
    (hrows : ∀ (i : ℕ) key row, keys[i]? = some key → data.rows[i]? = some row →
      ∃ (r : ℕ) (index : ℤ) (last : Row K E), IsLatest (outputs keys) key.session index r ∧
        data.rows[r]? = some last ∧ advantages[i]? =
          some (spread (firstScore (rowValue sqrt norm (finals data keys) last) last.responseMask) row.responseMask)) :
    computeAdvantage sqrt data .grpo norm = some (advantages, advantages) := by
  have heq : advantages = data.rows.map fun row => spread (rowValue sqrt norm data.rows row) row.responseMask := by
    refine List.ext_getElem? fun i => ?_
    by_cases hi : i < data.rows.length
    · obtain ⟨r, index, last, hlatest, hlast, hi'⟩ := hrows i keys[i] data.rows[i] (List.getElem?_eq_getElem _)
        (List.getElem?_eq_getElem hi)
      obtain ⟨-, rfl⟩ := hlatest.unique (isLatest_of_nodup h (List.getElem?_eq_getElem (hlength ▸ hi)))
      rw [List.getElem?_eq_getElem hi, Option.some.injEq] at hlast
      rw [hi', List.getElem?_map, List.getElem?_eq_getElem hi, hlast, spread_firstScore_self,
        rowValue_perm sqrt norm (finals_perm_of_nodup hlength h)]
      rfl
    · rw [List.getElem?_eq_none (by omega), List.getElem?_eq_none (by rw [List.length_map]; omega)]
  rw [computeAdvantage, grpo_rows, heq]

end Single

/-! ## All rows -/

/-- **The advantages for several outputs of a session**, in a batch with a key for each row.

* With GRPO a row has the advantage of the last output of its session, at the positions of its own mask, if there is
  a position in the mask of that output. The scores that it is compared with are those of the last outputs with its
  `uid`.
* If each session has one output, the advantages are those of GRPO on the batch.
* The other estimators are applied to the batch as it is. -/
theorem multiTrajectories_spec (sqrt : K → K) (norm : Bool) (data : Data K E) (keys : List TrajectoryKey)
    (hlength : keys.length = data.rows.length) (hwidth : 0 < data.width) :
    (∃ advantages, computeAdvantageForMultiTrajectories sqrt data (keys.map TrajectoryKey.render) .grpo norm =
        some (advantages, advantages) ∧ advantages.length = data.rows.length ∧
      (∀ (i : ℕ) key row, keys[i]? = some key → data.rows[i]? = some row →
        ∃ (r : ℕ) (index : ℤ) (last : Row K E), IsLatest (outputs keys) key.session index r ∧
          data.rows[r]? = some last ∧ (true ∈ last.responseMask →
            advantages[i]? = some (spread (rowValue sqrt norm (finals data keys) last) row.responseMask))) ∧
      (((outputs keys).map Prod.fst).Nodup → computeAdvantage sqrt data .grpo norm = some (advantages, advantages))) ∧
    ∀ fn, computeAdvantageForMultiTrajectories sqrt data (keys.map TrajectoryKey.render) (.other fn) norm =
      computeAdvantage sqrt data (.other fn) norm := by
  obtain ⟨advantages, hcompute, hcount, hrows⟩ := exists_advantages_render sqrt norm hlength hwidth
  refine ⟨⟨advantages, hcompute, hcount, fun i key row hkey hrow => ?_, fun hnodup => ?_⟩, fun fn => rfl⟩
  · obtain ⟨r, index, last, hlatest, hlast, hi⟩ := hrows i key row hkey hrow
    refine ⟨r, index, last, hlatest, hlast, fun hmem => ?_⟩
    rw [hi, firstScore, if_pos hmem]
  · exact advantages_of_nodup sqrt norm hlength hnodup hcount hrows

/-- The keys of a prompt, from the numbers of the sessions and the indices. -/
def promptKeys (rows : List (ℤ × ℤ)) : List TrajectoryKey :=
  rows.map fun row => ⟨⟨['a'], textOfInt row.1, underscore_not_mem_textOfInt row.1⟩, row.2⟩

def tokens (rows : List (ℚ × Bool)) : Data ℚ Unit where
  rows := rows.map fun row => ⟨[row.1], [row.2], .str "a", ()⟩
  width := 1
  rect := by
    intro row hrow
    obtain ⟨_, -, rfl⟩ := List.mem_map.1 hrow
    exact ⟨rfl, rfl⟩

def retried : Data ℚ Unit := tokens [(5, true), (3, true), (1, true)]

def retriedKeys : List TrajectoryKey := promptKeys [(0, 1), (0, 0), (1, 0)]

theorem multiTrajectories_retried :
    (∃ advantages, computeAdvantageForMultiTrajectories id retried (retriedKeys.map TrajectoryKey.render) .grpo false =
        some (advantages, advantages) ∧ advantages.length = retried.rows.length ∧
      (∀ (i : ℕ) key row, retriedKeys[i]? = some key → retried.rows[i]? = some row →
        ∃ (r : ℕ) (index : ℤ) (last : Row ℚ Unit), IsLatest (outputs retriedKeys) key.session index r ∧
          retried.rows[r]? = some last ∧ (true ∈ last.responseMask →
            advantages[i]? = some (spread (rowValue id false (finals retried retriedKeys) last) row.responseMask))) ∧
      (((outputs retriedKeys).map Prod.fst).Nodup →
        computeAdvantage id retried .grpo false = some (advantages, advantages))) ∧
    ∀ fn, computeAdvantageForMultiTrajectories id retried (retriedKeys.map TrajectoryKey.render) (.other fn) false =
      computeAdvantage id retried (.other fn) false :=
  multiTrajectories_spec id false retried retriedKeys rfl Nat.one_pos

def rloo : AdvEstimator ℚ Unit := .other fun data => some (computeRlooOutcomeAdvantage data.batch)

/-- The rows of a session do not get one value, if the estimator is not GRPO, or if the mask of the last output is
empty. -/
theorem not_oneValue :
    (¬ ∃ advantages value, computeAdvantageForMultiTrajectories id retried (retriedKeys.map TrajectoryKey.render)
        rloo false = some (advantages, advantages) ∧
      advantages[0]? = some (spread value [true]) ∧ advantages[1]? = some (spread value [true])) ∧
    ¬ ∃ advantages, computeAdvantageForMultiTrajectories id (tokens [(5, false), (3, true), (1, true)])
        (retriedKeys.map TrajectoryKey.render) .grpo false = some (advantages, advantages) ∧
      advantages[1]? = some (spread (grpoValue id false [5, 1] 5) [true]) := by
  have hrloo : computeAdvantageForMultiTrajectories id retried (retriedKeys.map TrajectoryKey.render) rloo false =
      some ([[3], [0], [-3]], [[3], [0], [-3]]) := by decide +kernel
  have hgrpo : computeAdvantageForMultiTrajectories id (tokens [(5, false), (3, true), (1, true)])
      (retriedKeys.map TrajectoryKey.render) .grpo false = some ([[0], [0], [-2]], [[0], [0], [-2]]) := by decide +kernel
  have hvalue : grpoValue id false [(5 : ℚ), 1] 5 = 2 := by decide +kernel
  constructor
  · rintro ⟨advantages, value, hcompute, hfirst, hsecond⟩
    rw [hrloo, Option.some.injEq, Prod.mk.injEq] at hcompute
    rw [← hcompute.1] at hfirst hsecond
    exact absurd (hfirst.trans hsecond.symm) (by decide +kernel)
  · rintro ⟨advantages, hcompute, hsecond⟩
    rw [hgrpo, Option.some.injEq, Prod.mk.injEq] at hcompute
    rw [← hcompute.1, hvalue] at hsecond
    exact absurd hsecond (by decide +kernel)

end Opd.Verl.MultiTrajectories

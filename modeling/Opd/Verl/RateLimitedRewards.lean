import Opd.Lib.Buckets
import Opd.Verl.AgentLoopBatch

/-!
# The rewards of a rate limited batch

`RateLimitedRewardManager.run_single` turns whatever the scoring of a row does into a score and a dictionary. The manager
appends the entries of the dictionaries to one list for each key, and writes a score in front of the index
`valid_response_length`.

* `runSingle`: the outcomes of one row.
* `columns_iff`: the lists are aligned exactly when all rows have the same keys.
* `setScore_iff`: the score is at the last token exactly when the valid tokens are the first ones.
* `call_iff`: both, for a batch.
-/

namespace Opd.Verl.RateLimitedRewards

open Lib AgentLoopBatch

variable {K O : Type}

/-! ## One row -/

/-- A value of a score function; `other` is one that is not a number. -/
inductive Value (K O : Type)
  | number (x : K)
  | flag (b : Bool)
  | text (s : String)
  | other (o : O)
  deriving DecidableEq

inductive Score (K O : Type)
  | value (v : Value K O)
  | dict (items : Dict String (Value K O))

/-- How `asyncio.wait_for(self._compute_reward(..))` ends. -/
inductive Outcome (K O : Type)
  | result (score : Score K O)
  | timeout
  | error (message : String)

section runSingle

variable [Zero K]

/-- The branch of `except Exception as e`. -/
def failed (message : String) : Value K O × Dict String (Value K O) :=
  (.number 0, (Dict.empty.update "error" fun _ => .text message).update "acc" fun _ => .number 0)

/-- `run_single`: the score and the extra info. -/
def runSingle : Outcome K O → Value K O × Dict String (Value K O)
  | .result (.value v) => (v, Dict.empty.update "acc" fun _ => v)
  | .result (.dict items) =>
    match items.get? "score" with
    | some score => (score, Dict.empty.merge (fun _ value => value) items.items)
    -- the KeyError of `result["score"]` is caught as well
    | none => failed "'score'"
  | .timeout =>
    (.number 0, (Dict.empty.update "timeout" fun _ => .flag true).update "acc" fun _ => .number 0)
  | .error message => failed message

end runSingle

/-! ## The batch -/

structure Row (K O : Type) where
  attentionMask : List ℕ
  outcome : Outcome K O

/-- A batch; `width` is that of its responses. -/
structure Batch (K O : Type) where
  width : ℕ
  rows : List (Row K O)
  rmScores : Option (List (List K))
  rewardExtraKeys : List String
  nonTensorBatch : Dict String (List (Value K O))
  binary : ∀ row ∈ rows, ∀ m ∈ row.attentionMask, m ≤ 1
  long : ∀ row ∈ rows, width ≤ row.attentionMask.length

/-- `mask[-width:]` -/
def lastSlice (width : ℕ) (mask : List ℕ) : List ℕ := if width = 0 then mask else mask.drop (mask.length - width)

def validResponseLength (width : ℕ) (row : Row K O) : ℕ := (lastSlice width row.attentionMask).sum

section call

variable [Zero K] [One K]

def scalar : Value K O → Except PostprocessError K
  | .number x => .ok x
  | .flag b => .ok (if b then 1 else 0)
  | .text _ | .other _ => .error .typeError

/-- `reward_tensor[i, valid_response_length - 1] = reward` -/
def setScore (width : ℕ) (row : Row K O) : Except PostprocessError (List K) := do
  let x ← scalar (runSingle row.outcome).1
  setIndex (List.replicate width 0) ((validResponseLength width row : ℤ) - 1) x

/-- `reward_extra_info[key].append(value)`, for all rows. -/
def extraInfos (rows : List (Row K O)) : Dict String (List (Value K O)) :=
  buckets (rows.flatMap fun row => (runSingle row.outcome).2.items)

/-- `__call__` with `return_dict`. -/
def call (batch : Batch K O) : Except PostprocessError (List (List K) × Dict String (List (Value K O))) :=
  match batch.rmScores with
  | some scores => do
    let columns ← batch.rewardExtraKeys.mapM fun key =>
      match batch.nonTensorBatch.get? key with
      | some column => .ok (key, column)
      | none => .error (.keyError key)
    .ok (scores, Dict.empty.merge (fun _ column => column) columns)
  | none => do
    let tensor ← batch.rows.mapM (setScore batch.width)
    .ok (tensor, extraInfos batch.rows)

/-! ## What it should be -/

def Row.response (width : ℕ) (row : Row K O) : List ℕ := row.attentionMask.drop (row.attentionMask.length - width)

def IsLastValid (mask : List ℕ) (j : ℕ) : Prop := mask[j]? = some 1 ∧ ∀ k, j < k → mask[k]? ≠ some 1

/-- The score of the row is at its last valid token, and nothing else is in the scores. -/
structure HasScore (width : ℕ) (row : Row K O) (scores : List K) : Prop where
  length : scores.length = width
  score : ∃ x, scalar (runSingle row.outcome).1 = .ok x ∧
    ∀ j, j < width → (IsLastValid (row.response width) j → scores[j]? = some x) ∧
      (¬ IsLastValid (row.response width) j → scores[j]? = some 0)

/-- Each list has one entry for every row, and it describes that row. -/
structure Aligned (rows : List (Row K O)) (infos : Dict String (List (Value K O))) : Prop where
  entries : ∀ key column, infos.get? key = some column → column.length = rows.length ∧
    ∀ (i : ℕ) (row : Row K O), rows[i]? = some row → column[i]? = (runSingle row.outcome).2.get? key
  complete : ∀ row ∈ rows, ∀ key ∈ (runSingle row.outcome).2.keys, key ∈ infos.keys

structure Described (batch : Batch K O) (out : List (List K) × Dict String (List (Value K O))) : Prop where
  scores : List.Forall₂ (HasScore batch.width) batch.rows out.1
  infos : Aligned batch.rows out.2

/-! ## When it is -/

def Outcome.reported : Outcome K O → List String
  | .result (.value _) => ["acc"]
  | .result (.dict items) => if "score" ∈ items.keys then items.keys else ["error", "acc"]
  | .timeout => ["timeout", "acc"]
  | .error _ => ["error", "acc"]

/-- The outcome of a row has the score `x`. -/
def Outcome.HasNumber : Outcome K O → K → Prop
  | .result (.value v), x => scalar v = .ok x
  | .result (.dict items), x =>
    match items.get? "score" with
    | some v => scalar v = .ok x
    | none => x = 0
  | .timeout, x | .error _, x => x = 0

def FirstValid (mask : List ℕ) : Prop := ∃ k, 0 < k ∧ mask = List.replicate k 1 ++ List.replicate (mask.length - k) 0

/-- All rows have the same keys, every row has a number, and a row whose number is not zero has its valid tokens in
front. -/
structure Regular (batch : Batch K O) : Prop where
  keys : ∀ row ∈ batch.rows, ∀ row' ∈ batch.rows, ∀ key ∈ row.outcome.reported, key ∈ row'.outcome.reported
  number : ∀ row ∈ batch.rows, ∃ x, row.outcome.HasNumber x ∧ (x = 0 ∨ FirstValid (row.response batch.width))
  width : batch.rows ≠ [] → 0 < batch.width

/-! ## The extra infos -/

section infos

omit [One K]

theorem mem_keys_failed {message : String} {key : String} :
    key ∈ (failed message : Value K O × Dict String (Value K O)).2.keys ↔ key ∈ ["error", "acc"] := by
  unfold failed
  rw [Dict.mem_keys_update, Dict.mem_keys_update, List.mem_cons, List.mem_singleton, or_comm]
  exact or_congr_left (or_iff_left List.not_mem_nil)

theorem mem_keys_runSingle {outcome : Outcome K O} {key : String} :
    key ∈ (runSingle outcome).2.keys ↔ key ∈ outcome.reported := by
  rcases outcome with (v | items) | _ | message
  · exact Dict.mem_keys_update.trans ((or_iff_left List.not_mem_nil).trans List.mem_singleton.symm)
  · unfold runSingle Outcome.reported
    dsimp only
    cases hscore : items.get? "score" with
    | some score =>
      have hmem : "score" ∈ items.keys := Dict.mem_keys_iff.2 (hscore.symm ▸ rfl)
      rw [if_pos hmem]
      exact mem_keys_merge.trans (or_iff_right List.not_mem_nil)
    | none =>
      rw [if_neg (Dict.get?_eq_none.1 hscore)]
      exact mem_keys_failed
  · unfold runSingle Outcome.reported
    rw [Dict.mem_keys_update, Dict.mem_keys_update, List.mem_cons, List.mem_singleton, or_comm]
    exact or_congr_left (or_iff_left List.not_mem_nil)
  · exact mem_keys_failed

end infos

omit [One K] in
/-- **The lists are aligned** exactly when all rows have the same keys. -/
theorem aligned_iff (rows : List (Row K O)) : Aligned rows (extraInfos rows) ↔
    ∀ row ∈ rows, ∀ row' ∈ rows, ∀ key ∈ row.outcome.reported, key ∈ row'.outcome.reported := by
  have hcolumns := columns_iff rows fun row => (runSingle row.outcome).2
  simp only [mem_keys_runSingle] at hcolumns
  rw [← hcolumns]
  constructor
  · exact fun h => h.entries
  · intro h
    refine ⟨h, fun row hrow key hkey => ?_⟩
    exact mem_keys_buckets_flatMap.2 ⟨row, hrow, hkey⟩

/-! ## The scores -/

section scores

variable {width : ℕ} {row : Row K O} {mask : List ℕ}

theorem sum_le_length (h : ∀ m ∈ mask, m ≤ 1) : mask.sum ≤ mask.length := by
  induction mask with
  | nil => exact le_rfl
  | cons m mask ih =>
    have hm := h m List.mem_cons_self
    have hrest := ih fun m hm => h m (List.mem_cons_of_mem _ hm)
    rw [List.sum_cons, List.length_cons]
    omega

theorem eq_replicate_of_sum (h : ∀ m ∈ mask, m ≤ 1) (hsum : mask.sum = mask.length) :
    mask = List.replicate mask.length 1 := by
  induction mask with
  | nil => rfl
  | cons m mask ih =>
    have hm := h m List.mem_cons_self
    have hrest : ∀ m ∈ mask, m ≤ 1 := fun m hm => h m (List.mem_cons_of_mem _ hm)
    have hle := sum_le_length hrest
    rw [List.sum_cons, List.length_cons] at hsum
    have hone : m = 1 := by omega
    rw [List.length_cons, List.replicate_succ, ← ih hrest (by omega), hone]

/-- **The last valid token** is where the number of valid tokens says exactly when the valid tokens are the first ones. -/
theorem isLastValid_iff (h : ∀ m ∈ mask, m ≤ 1) : 0 < mask.sum ∧ IsLastValid mask (mask.sum - 1) ↔ FirstValid mask := by
  constructor
  · rintro ⟨hpos, hone, hlast⟩
    have hlt : mask.sum - 1 < mask.length := (List.getElem?_eq_some_iff.1 hone).1
    -- nothing is valid behind the token
    have hzero : ∀ m ∈ mask.drop mask.sum, m = 0 := by
      intro m hm
      obtain ⟨j, hj⟩ := List.mem_iff_getElem?.1 hm
      rw [List.getElem?_drop] at hj
      have hle := h m (List.mem_of_getElem? hj)
      have hne : m ≠ 1 := fun heq => hlast (mask.sum + j) (by omega) (heq ▸ hj)
      omega
    have htake : (mask.take mask.sum).length = mask.sum := by
      rw [List.length_take]
      omega
    have hsum : (mask.take mask.sum).sum = (mask.take mask.sum).length := by
      have hsplit := congrArg List.sum (List.take_append_drop mask.sum mask)
      rw [List.sum_append, List.sum_eq_zero hzero, add_zero] at hsplit
      rw [hsplit, htake]
    have hall := eq_replicate_of_sum (fun m hm => h m (List.mem_of_mem_take hm)) hsum
    refine ⟨mask.sum, hpos, ?_⟩
    conv_lhs => rw [← List.take_append_drop mask.sum mask, hall, htake, List.eq_replicate_of_mem hzero, List.length_drop]
  · rintro ⟨k, hk, hmask⟩
    have hsum : mask.sum = k := by
      rw [hmask, List.sum_append, List.sum_replicate, List.sum_replicate]
      simp
    rw [hsum]
    refine ⟨hk, ?_, fun j hj => ?_⟩
    · rw [hmask, List.getElem?_append_left (by rw [List.length_replicate]; omega), List.getElem?_replicate,
        if_pos (by omega)]
    · rw [hmask, List.getElem?_append_right (by rw [List.length_replicate]; omega), List.getElem?_replicate]
      split
      · exact fun heq => Nat.zero_ne_one (Option.some.inj heq)
      · exact (Option.some_ne_none _).symm

theorem sum_pos_of_isLastValid {j : ℕ} (hj : IsLastValid mask j) : 0 < mask.sum := by
  have hmem := List.mem_of_getElem? hj.1
  exact Nat.lt_of_lt_of_le Nat.one_pos (List.single_le_sum (fun _ _ => Nat.zero_le _) 1 hmem)

theorem isLastValid_unique {i j : ℕ} (hi : IsLastValid mask i) (hj : IsLastValid mask j) : i = j := by
  rcases Nat.lt_trichotomy i j with hlt | heq | hlt
  · exact absurd hj.1 (hi.2 j hlt)
  · exact heq
  · exact absurd hi.1 (hj.2 i hlt)

theorem scalar_runSingle {outcome : Outcome K O} {x : K} :
    scalar (runSingle outcome).1 = .ok x ↔ outcome.HasNumber x := by
  rcases outcome with (v | items) | _ | message
  · exact Iff.rfl
  · unfold runSingle Outcome.HasNumber
    dsimp only
    cases hscore : items.get? "score" with
    | some score => exact Iff.rfl
    | none => exact ⟨fun h => (Except.ok.inj h).symm, fun h => congrArg Except.ok h.symm⟩
  · exact ⟨fun h => (Except.ok.inj h).symm, fun h => congrArg Except.ok h.symm⟩
  · exact ⟨fun h => (Except.ok.inj h).symm, fun h => congrArg Except.ok h.symm⟩

omit [One K] in
theorem exists_setIndex_replicate {n : ℕ} (hwidth : 0 < width) (hn : n ≤ width) (x : K) :
    ∃ idx, idx < width ∧ setIndex (List.replicate width 0) ((n : ℤ) - 1) x = .ok ((List.replicate width 0).set idx x) ∧
      (0 < n → idx = n - 1) := by
  unfold setIndex
  rw [List.length_replicate]
  by_cases hpos : 0 < n
  · rw [if_pos ⟨by omega, by omega⟩]
    refine ⟨n - 1, by omega, ?_, fun _ => rfl⟩
    congr 2
    omega
  · rw [if_neg (by omega), if_pos ⟨by omega, by omega⟩]
    refine ⟨width - 1, by omega, ?_, fun h => absurd h hpos⟩
    congr 2
    omega

/-- **A score is at the last valid token** exactly when it is zero or the valid tokens are the first ones. -/
theorem hasScore_iff {idx : ℕ} {x : K} (hbinary : ∀ m ∈ row.response width, m ≤ 1) (hidx : idx < width)
    (hx : scalar (runSingle row.outcome).1 = .ok x)
    (hpos : 0 < (row.response width).sum → idx = (row.response width).sum - 1) :
    HasScore width row ((List.replicate width 0).set idx x) ↔ x = 0 ∨ FirstValid (row.response width) := by
  have hentry : ∀ j, j < width → ((List.replicate width (0 : K)).set idx x)[j]? = some (if j = idx then x else 0) := by
    intro j hj
    rw [List.getElem?_set, List.length_replicate, List.getElem?_replicate, if_pos hj]
    by_cases heq : idx = j
    · rw [if_pos heq, if_pos hidx, if_pos heq.symm]
    · rw [if_neg heq, if_neg (Ne.symm heq)]
  constructor
  · intro h
    obtain ⟨x', hx', hline⟩ := h.score
    have hself := hentry idx hidx
    rw [if_pos rfl] at hself
    by_cases hlast : IsLastValid (row.response width) idx
    · have hsum := sum_pos_of_isLastValid hlast
      rw [hpos hsum] at hlast
      exact .inr ((isLastValid_iff hbinary).1 ⟨hsum, hlast⟩)
    · have hzero := (hline idx hidx).2 hlast
      rw [hself] at hzero
      exact .inl (Option.some.inj hzero)
  · intro h
    refine ⟨by rw [List.length_set, List.length_replicate], x, hx, fun j hj => ?_⟩
    rw [hentry j hj]
    rcases h with rfl | hfirst
    · rw [ite_self]
      exact ⟨fun _ => rfl, fun _ => rfl⟩
    · obtain ⟨hsum, hlast⟩ := (isLastValid_iff hbinary).2 hfirst
      rw [← hpos hsum] at hlast
      by_cases heq : j = idx
      · rw [if_pos heq]
        exact ⟨fun _ => rfl, fun hnot => absurd (heq ▸ hlast) hnot⟩
      · rw [if_neg heq]
        exact ⟨fun hj => absurd (isLastValid_unique hj hlast) heq, fun _ => rfl⟩

omit [Zero K] [One K] in
theorem mem_response {m : ℕ} (hm : m ∈ row.response width) : m ∈ row.attentionMask := List.mem_of_mem_drop hm

theorem setScore_iff (hbinary : ∀ m ∈ row.attentionMask, m ≤ 1) (hlong : width ≤ row.attentionMask.length) :
    (∃ line, setScore width row = .ok line ∧ HasScore width row line) ↔
      0 < width ∧ ∃ x, row.outcome.HasNumber x ∧ (x = 0 ∨ FirstValid (row.response width)) := by
  have hresponse : ∀ m ∈ row.response width, m ≤ 1 := fun m hm => hbinary m (mem_response hm)
  have hlength : (row.response width).length = width := by
    unfold Row.response
    rw [List.length_drop]
    omega
  simp only [← scalar_runSingle]
  cases hscalar : scalar (runSingle row.outcome).1 with
  | error e =>
    constructor
    · rintro ⟨line, hline, _⟩
      unfold setScore at hline
      rw [hscalar] at hline
      cases hline
    · rintro ⟨_, x, hx, _⟩
      cases hx
  | ok x =>
    have hset : setScore width row =
        setIndex (List.replicate width 0) ((validResponseLength width row : ℤ) - 1) x := by
      unfold setScore
      rw [hscalar]
      rfl
    rcases Nat.eq_zero_or_pos width with rfl | hwidth
    · refine iff_of_false ?_ fun h => Nat.lt_irrefl 0 h.1
      rintro ⟨line, hline, _⟩
      have herror : ∀ z : ℤ, setIndex (List.replicate 0 (0 : K)) z x = .error .indexError := by
        intro z
        unfold setIndex
        rw [List.replicate_zero, List.length_nil, if_neg (by omega), if_neg (by omega)]
      rw [hset, herror] at hline
      cases hline
    · have hvalid : validResponseLength width row = (row.response width).sum := by
        unfold validResponseLength lastSlice
        rw [if_neg hwidth.ne']
        rfl
      have hle : (row.response width).sum ≤ width := (sum_le_length hresponse).trans hlength.le
      obtain ⟨idx, hidx, hindex, hpos⟩ := exists_setIndex_replicate hwidth hle x
      rw [hset, hvalid, hindex]
      have hiff := hasScore_iff hresponse hidx hscalar hpos
      constructor
      · rintro ⟨line, hline, hscore⟩
        obtain rfl := Except.ok.inj hline
        exact ⟨hwidth, x, rfl, hiff.1 hscore⟩
      · rintro ⟨_, x', hx', hfirst⟩
        obtain rfl := Except.ok.inj hx'
        exact ⟨_, rfl, hiff.2 hfirst⟩

end scores

/-! ## The batch -/

/-- **A scored batch is described** row by row exactly when all rows have the same keys, and each has a number that is
zero or belongs to a response whose valid tokens are the first ones. -/
theorem call_iff (batch : Batch K O) (h : batch.rmScores = none) :
    (∃ out, call batch = .ok out ∧ Described batch out) ↔ Regular batch := by
  have hcall : call batch = (batch.rows.mapM (setScore batch.width)).bind fun tensor =>
      .ok (tensor, extraInfos batch.rows) := by
    unfold call
    rw [h]
    rfl
  have hrow : ∀ row ∈ batch.rows, (∃ line, setScore batch.width row = .ok line ∧ HasScore batch.width row line) ↔
      0 < batch.width ∧ ∃ x, row.outcome.HasNumber x ∧ (x = 0 ∨ FirstValid (row.response batch.width)) :=
    fun row hrow => setScore_iff (batch.binary row hrow) (batch.long row hrow)
  rw [hcall]
  constructor
  · rintro ⟨out, hout, hdescribed⟩
    cases htensor : batch.rows.mapM (setScore batch.width) with
    | error e =>
      rw [htensor] at hout
      cases hout
    | ok tensor =>
      rw [htensor] at hout
      obtain rfl := Except.ok.inj hout
      have hlines : ∀ row ∈ batch.rows, ∃ line, setScore batch.width row = .ok line ∧ HasScore batch.width row line := by
        have hok := mapM_eq_ok_iff.1 htensor
        have hscores := hdescribed.scores
        dsimp only at hscores
        intro row hmem
        obtain ⟨i, hi⟩ := List.mem_iff_getElem?.1 hmem
        have hlt := (List.getElem?_eq_some_iff.1 hi).1
        have hlt' : i < tensor.length := hok.length_eq ▸ hlt
        refine ⟨tensor[i], ?_, ?_⟩
        · have hget := List.forall₂_iff_get.1 hok
          have hi' := (List.getElem?_eq_some_iff.1 hi).2
          rw [← hi']
          exact hget.2 i hlt hlt'
        · have hget := List.forall₂_iff_get.1 hscores
          have hi' := (List.getElem?_eq_some_iff.1 hi).2
          rw [← hi']
          exact hget.2 i hlt hlt'
      refine ⟨(aligned_iff batch.rows).1 hdescribed.infos, fun row hmem => ((hrow row hmem).1 (hlines row hmem)).2, ?_⟩
      intro hne
      obtain ⟨row, hmem⟩ := List.exists_mem_of_ne_nil _ hne
      exact ((hrow row hmem).1 (hlines row hmem)).1
  · intro hregular
    have hlines : ∀ row ∈ batch.rows, ∃ line, setScore batch.width row = .ok line ∧ HasScore batch.width row line :=
      fun row hmem => (hrow row hmem).2 ⟨hregular.width (List.ne_nil_of_mem hmem), hregular.number row hmem⟩
    obtain ⟨tensor, htensor⟩ := mapM_of_forall fun row hmem => (hlines row hmem).imp fun _ hline => hline.1
    rw [htensor]
    refine ⟨_, rfl, ?_, (aligned_iff batch.rows).2 hregular.keys⟩
    have hok := mapM_eq_ok_iff.1 htensor
    refine List.forall₂_iff_get.2 ⟨hok.length_eq, fun i hi hi' => ?_⟩
    obtain ⟨line, hline, hscore⟩ := hlines _ (List.get_mem batch.rows ⟨i, hi⟩)
    have hget := (List.forall₂_iff_get.1 hok).2 i hi hi'
    rw [hline] at hget
    exact Except.ok.inj hget ▸ hscore

end call

theorem twoRows_binary (mask : List ℕ) (first second : Outcome ℤ Empty)
    (h : (∀ m ∈ mask, m ≤ 1) ∧ 2 ≤ mask.length) :
    ∀ row ∈ [(⟨mask, first⟩ : Row ℤ Empty), ⟨mask, second⟩], ∀ m ∈ row.attentionMask, m ≤ 1 := by
  intro row hrow
  rcases List.mem_pair.1 hrow with rfl | rfl <;> exact h.1

theorem twoRows_long (mask : List ℕ) (first second : Outcome ℤ Empty)
    (h : (∀ m ∈ mask, m ≤ 1) ∧ 2 ≤ mask.length) :
    ∀ row ∈ [(⟨mask, first⟩ : Row ℤ Empty), ⟨mask, second⟩], 2 ≤ row.attentionMask.length := by
  intro row hrow
  rcases List.mem_pair.1 hrow with rfl | rfl <;> exact h.2

/-- Two rows of two tokens each, with the outcomes of their scoring. -/
def twoRows (mask : List ℕ) (h : (∀ m ∈ mask, m ≤ 1) ∧ 2 ≤ mask.length) (first second : Outcome ℤ Empty) :
    Batch ℤ Empty where
  width := 2
  rows := [⟨mask, first⟩, ⟨mask, second⟩]
  rmScores := none
  rewardExtraKeys := []
  nonTensorBatch := .empty
  binary := twoRows_binary mask first second h
  long := twoRows_long mask first second h

theorem oneToken : (∀ m ∈ [1, 1, 1, 0], m ≤ 1) ∧ 2 ≤ [1, 1, 1, 0].length := by decide

theorem noToken : (∀ m ∈ [1, 1, 0, 0], m ≤ 1) ∧ 2 ≤ [1, 1, 0, 0].length := by decide

theorem described_timeouts : ∃ out, call (twoRows [1, 1, 1, 0] oneToken .timeout .timeout) = .ok out ∧
    Described (twoRows [1, 1, 1, 0] oneToken .timeout .timeout) out := by
  refine (call_iff (twoRows [1, 1, 1, 0] oneToken .timeout .timeout) rfl).2 ⟨?_, ?_, fun _ => Nat.two_pos⟩
  · intro row hrow row' hrow' key hkey
    rcases List.mem_pair.1 hrow with rfl | rfl <;> rcases List.mem_pair.1 hrow' with rfl | rfl <;> exact hkey
  · intro row hrow
    rcases List.mem_pair.1 hrow with rfl | rfl <;> exact ⟨0, rfl, .inl rfl⟩

/-- **A timeout next to a score** leaves a list of one entry for two rows, and the score of an empty response is in the
last column. -/
theorem not_described :
    (¬ ∃ out, call (twoRows [1, 1, 1, 0] oneToken (.result (.value (.number 1))) .timeout) = .ok out ∧
      Described (twoRows [1, 1, 1, 0] oneToken (.result (.value (.number 1))) .timeout) out) ∧
    ¬ ∃ out, call (twoRows [1, 1, 0, 0] noToken (.result (.value (.number 1))) (.result (.value (.number 1)))) = .ok out ∧
      Described (twoRows [1, 1, 0, 0] noToken (.result (.value (.number 1))) (.result (.value (.number 1)))) out := by
  constructor
  · rintro ⟨out, hout, hdescribed⟩
    obtain rfl := Except.ok.inj hout
    have hlength := (hdescribed.infos.entries "timeout" [.flag true] rfl).1
    exact absurd hlength (by decide)
  · rintro ⟨out, hout, hdescribed⟩
    obtain rfl := Except.ok.inj hout
    obtain ⟨x, hx, hline⟩ := (List.forall₂_cons.1 hdescribed.scores).1.score
    have hlast : ¬ IsLastValid [0, 0] 1 := fun h => absurd h.1 (by decide)
    have hzero := (hline 1 (by decide)).2 hlast
    exact absurd hzero (by decide)

end Opd.Verl.RateLimitedRewards

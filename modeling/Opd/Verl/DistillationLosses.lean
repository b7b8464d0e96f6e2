import Opd.Lib.Chunks
import Opd.Lib.LogSoftmax
import Opd.Lib.TopK
import Opd.Verl.ThdPacking
import Opd.Verl.Ulysses

/-!
# Distillation losses

`compute_forward_kl_topk` of FSDP has the whole vocabulary at each position, that of Megatron a shard of it on each
rank of the tensor parallel group. A tensor of that group is modelled with the values of all ranks: the logits of a
position are the list of the shards.

* `Megatron.forward_spec`: what a rank returns for a position, and what it saves for the backward pass.
* `Fsdp.computeForwardKlTopk_spec`: what a process returns for each position, in chunks or not.
-/

namespace Opd.Verl.DistillationLosses

open Lib ThdPacking

variable {K : Type} [Field K] [LinearOrder K]

/-- What is returned for a position. -/
structure Outputs (K : Type) where
  distillationLoss : K
  studentMass : K
  teacherMass : K
  overlapCount : ℕ
  overlapTokenAdvantage : K

/-- `clamp_min`, if there is a bound. -/
def clampMin : Option K → K → K
  | none, a => a
  | some bound, a => max a bound

/-- `overlap_mask` -/
def overlapMask (teacherIds studentIds : List ℕ) : List Bool := teacherIds.map fun id => decide (id ∈ studentIds)

/-- `overlap_token_advantage` -/
def overlapTokenAdvantage (tokenKl : List K) (mask : List Bool) : K :=
  let count := mask.count true
  let total : K := (List.zipWith (fun kl (overlaps : Bool) => -kl * if overlaps then 1 else 0) tokenKl mask).sum
  let advantage := total / (max count 1 : ℕ)
  if 0 < count then advantage else 0

/-! ## FSDP -/

namespace Fsdp

/-- What `compute_forward_kl_topk` reads of the settings. -/
structure LossConfig (K : Type) where
  logProbMinClamp : Option K
  useChunkedTopk : Bool
  chunkedTopkChunkSize : ℕ

/-- A chunk of `_chunked_topk_log_probs`. -/
def chunkLogProbs (E : ExpLog K) (logits : List (List K)) (topkIds : List (List ℕ)) : Option (List (List K)) :=
  (logits.zip topkIds).mapM fun (x, ids) => (gather x ids).map (List.map fun a => a - E.logsumexp x)

/-- `_chunked_topk_log_probs`, into a buffer that is not initialized. -/
def chunkedTopkLogProbs (E : ExpLog K) (uninit : ℕ → List K) (chunkSize : ℕ) (logits : List (List K))
    (topkIds : List (List ℕ)) : Option (List (List K)) :=
  let n := logits.length
  if n = 0 then some []
  else if chunkSize = 0 then none
  else (List.range' 0 ((n + chunkSize - 1) / chunkSize) chunkSize).foldlM (fun out start => do
    let stop := min (start + chunkSize) n
    let chunk ← chunkLogProbs E (between start stop logits) (between start stop topkIds)
    assign out start stop chunk) ((List.range n).map uninit)

/-- `kl_divergence` -/
def klDivergence (E : ExpLog K) (logQ logP : List K) : K := (List.zipWith (fun q p => E.exp p * (p - q)) logQ logP).sum

/-- The student's `topk` largest tokens, and its log-probs of the teacher's tokens. -/
def studentTopk (E : ExpLog K) (config : LossConfig K) (uninit : ℕ → List K) (k : ℕ) (studentLogits : List (List K))
    (teacherTopkIds : List (List ℕ)) : Option (List (List ℕ) × List (List K)) :=
  if config.useChunkedTopk then do
    let ids ← studentLogits.mapM fun x => (topk k x).map (List.map Prod.snd)
    let logProbs ← chunkedTopkLogProbs E uninit config.chunkedTopkChunkSize studentLogits teacherTopkIds
    some (ids, logProbs)
  else do
    let studentLogProbs := studentLogits.map E.logSoftmax
    let ids ← studentLogProbs.mapM fun x => (topk k x).map (List.map Prod.snd)
    let logProbs ← (studentLogProbs.zip teacherTopkIds).mapM fun (x, ids) => gather x ids
    some (ids, logProbs)

def outputsOf (E : ExpLog K) (clamp : Option K) (studentTopkIds : List ℕ) (studentTopkLogProbs teacherTopkLogProbs : List K)
    (teacherTopkIds : List ℕ) : Outputs K :=
  let studentMass := (studentTopkLogProbs.map E.exp).sum
  let teacherMass := (teacherTopkLogProbs.map E.exp).sum
  let studentTopkLogProbs := studentTopkLogProbs.map (clampMin clamp)
  let teacherTopkLogProbs := teacherTopkLogProbs.map (clampMin clamp)
  let mask := overlapMask teacherTopkIds studentTopkIds
  let tokenKl := List.zipWith (fun t s => E.exp t * (t - s)) teacherTopkLogProbs studentTopkLogProbs
  { distillationLoss := klDivergence E studentTopkLogProbs teacherTopkLogProbs
    studentMass
    teacherMass
    overlapCount := mask.count true
    overlapTokenAdvantage := overlapTokenAdvantage tokenKl mask }

/-- `get_ulysses_sequence_parallel_world_size` -/
def ulyssesSize (w : Ulysses.World) (p : ℕ) : ℕ :=
  match w.group none p with
  | some g => g.worldSize
  | none => 1

def splitTeacher {α : Type} (w : Ulysses.World) (p : ℕ) (zero : α) (x : List α) : List α :=
  if 1 < ulyssesSize w p then Ulysses.sliceInputTensor w zero true none p x else x

/-- `compute_forward_kl_topk` on a process. `topk` is the last dimension of the teacher tensors. -/
def computeForwardKlTopk (E : ExpLog K) (config : LossConfig K) (uninit : ℕ → List K) (w : Ulysses.World) (p k : ℕ)
    (studentLogits : List (List K)) (teacherTopkLogProbs : List (List (List K))) (teacherTopkIds : List (List (List ℕ))) :
    Option (List (Outputs K)) :=
  let logProbs := splitTeacher w p (List.replicate k 0) teacherTopkLogProbs.flatten
  let ids := splitTeacher w p (List.replicate k 0) teacherTopkIds.flatten
  if logProbs.length = ids.length ∧ ids.length = studentLogits.length then do
    let (studentIds, studentLogProbs) ← studentTopk E config uninit k studentLogits ids
    some (((studentIds.zip studentLogProbs).zip (logProbs.zip ids)).map fun ((sIds, sLogProbs), (tLogProbs, tIds)) =>
      outputsOf E config.logProbMinClamp sIds sLogProbs tLogProbs tIds)
  else none

end Fsdp

/-! ## Megatron -/

namespace Megatron

/-- `vocab_parallel_log_softmax` on all ranks. -/
def vocabParallelLogSoftmax (E : ExpLog K) (vpLogits : List (List K)) : Option (List (List K)) := do
  let maxima ← vpLogits.mapM List.max?
  let logitsMax ← maxima.max?
  let vpLogits := vpLogits.map (List.map fun a => a - logitsMax)
  let sumExpLogits := (vpLogits.map E.sumExp).sum
  some (vpLogits.map (List.map fun a => a - E.log sumExpLogits))

structure LocalEntry (K : Type) where
  inVocab : Bool
  index : ℕ
  active : Bool
  targetProb : K
  targetLogp : K
  sourceLogp : K

/-- A teacher entry on a rank with its vocab range. An entry that is not in the range has the index 0, and no
probabilities. -/
def localEntry (E : ExpLog K) (clamp : Option K) (vocabStart : ℕ) (sourceLogps : List K) (entry : ℕ × K) :
    Option (LocalEntry K) := do
  let inVocab := decide (vocabStart ≤ entry.1 ∧ entry.1 < vocabStart + sourceLogps.length)
  let index := if inVocab then entry.1 - vocabStart else 0
  let targetLogp := clampMin clamp entry.2
  let sourceLogp ← sourceLogps[index]?
  let active := inVocab && (match clamp with
    | none => true
    | some bound => decide (bound < sourceLogp))
  some
    { inVocab
      index
      active
      targetProb := if inVocab then E.exp targetLogp else 0
      targetLogp := if inVocab then targetLogp else 0
      sourceLogp := if inVocab then clampMin clamp sourceLogp else 0 }

def LocalEntry.kl (e : LocalEntry K) : K := e.targetProb * (e.targetLogp - e.sourceLogp)

def LocalEntry.activeProb (e : LocalEntry K) : K := if e.active then e.targetProb else 0

def LocalEntry.sourceProb (E : ExpLog K) (e : LocalEntry K) : K := E.exp e.sourceLogp * if e.inVocab then 1 else 0

/-- `all_reduce` of one number from each rank. -/
def allReduce (f : List (LocalEntry K) → K) (ranks : List (List (LocalEntry K))) : K := (ranks.map f).sum

/-- `all_reduce` of a list from each rank. -/
def allReduceLists : List (List K) → List K
  | [] => []
  | [x] => x
  | x :: y :: xs => List.zipWith (· + ·) x (allReduceLists (y :: xs))

/-- The largest tokens of a rank, with their ids in the vocabulary. -/
def localTopk (k vocabStart : ℕ) (sourceLogps : List K) : Option (List (K × ℕ)) :=
  (topk (min k sourceLogps.length) sourceLogps).map (List.map fun p => (p.1, p.2 + vocabStart))

def studentTopkIds (k : ℕ) (ranks : List (List K)) : Option (List ℕ) := do
  let gathered ← ranks.zipIdx.mapM fun (sourceLogps, r) => localTopk k (r * sourceLogps.length) sourceLogps
  let positions ← topk k (gathered.flatten.map Prod.fst)
  gather (gathered.flatten.map Prod.snd) (positions.map Prod.snd)

/-- What `forward` saves for `backward`. -/
structure Saved (K : Type) where
  sourceProbs : List K
  entries : List (LocalEntry K)
  targetActiveMass : K

/-- `_VocabParallelKLDivergence.forward` for a position on a rank, with the logits of all ranks and the teacher's
entries. -/
def forward (E : ExpLog K) (clamp : Option K) (vpLogits : List (List K)) (rank : ℕ) (entries : List (ℕ × K)) :
    Option (Outputs K × Saved K) := do
  let sourceLogps ← vocabParallelLogSoftmax E vpLogits
  let ranks ← sourceLogps.zipIdx.mapM fun (logps, r) => entries.mapM (localEntry E clamp (r * logps.length) logps)
  let targetMass := (entries.map fun entry => E.exp (clampMin clamp entry.2)).sum
  let targetActiveMass :=
    if clamp.isSome then allReduce (fun l => (l.map LocalEntry.activeProb).sum) ranks else targetMass
  let loss := allReduce (fun l => (l.map LocalEntry.kl).sum) ranks
  let mass := allReduce (fun l => (l.map (LocalEntry.sourceProb E)).sum) ranks
  let studentIds ← studentTopkIds entries.length sourceLogps
  let tokenKl := allReduceLists (ranks.map (List.map LocalEntry.kl))
  let mask := overlapMask (entries.map Prod.fst) studentIds
  let logps ← sourceLogps[rank]?
  let localEntries ← ranks[rank]?
  some
    ({ distillationLoss := loss
       studentMass := mass
       teacherMass := targetMass
       overlapCount := mask.count true
       overlapTokenAdvantage := overlapTokenAdvantage tokenKl mask },
     { sourceProbs := logps.map E.exp
       entries := localEntries
       targetActiveMass })

/-- `_VocabParallelKLDivergence.backward` for a position on a rank. -/
def backward (saved : Saved K) (gradLoss : K) : List K :=
  let gradInput := saved.sourceProbs.map fun p => p * saved.targetActiveMass
  let gradInput := saved.entries.foldl (fun grad e =>
    grad.modify e.index fun g => g + -(e.targetProb * if e.active then 1 else 0)) gradInput
  gradInput.map fun g => g * gradLoss

/-- `compute_forward_kl_topk` on a rank of both groups, with what the backward pass needs. `topk` is the last
dimension of the teacher tensors. -/
def computeForwardKlTopk (E : ExpLog K) (clamp : Option K) (s : ParallelState) (k cpRank tpRank : ℕ)
    (studentLogits : List (List (List K))) (teacherTopkLogProbs : List (List (List K)))
    (teacherTopkIds : List (List (List ℕ))) : Option (List (Outputs K × Saved K)) := do
  let logProbs ← preprocessThdEngine s (List.replicate k 0) [k] false cpRank teacherTopkLogProbs
  let ids ← preprocessThdEngine s (List.replicate k 0) [k] false cpRank teacherTopkIds
  if logProbs.inputIds.length = ids.inputIds.length ∧ ids.inputIds.length = studentLogits.length then
    (studentLogits.zip (ids.inputIds.zip logProbs.inputIds)).mapM fun (vpLogits, tIds, tLogProbs) =>
      forward E clamp vpLogits tpRank (tIds.zip tLogProbs)
  else none

end Megatron

/-! ## Shards of the vocabulary -/

section Shards

def shards (tpSize part : ℕ) (x : List K) : List (List K) := (List.range tpSize).map fun r => block (r * part) part x

variable {tpSize part : ℕ} {x : List K}

omit [Field K] [LinearOrder K] in
theorem flatten_shards (h : x.length = tpSize * part) : (shards tpSize part x).flatten = x := by
  unfold shards
  rw [← List.flatMap_def]
  exact flatMap_block h

omit [Field K] [LinearOrder K] in
theorem length_of_mem_shards (h : x.length = tpSize * part) {shard : List K} (hshard : shard ∈ shards tpSize part x) :
    shard.length = part := by
  obtain ⟨r, hr, rfl⟩ := List.mem_map.1 hshard
  refine length_block ?_
  rw [h, ← Nat.succ_mul]
  exact Nat.mul_le_mul_right _ (List.mem_range.1 hr)

omit [Field K] [LinearOrder K] in
theorem shards_map (f : K → K) : (shards tpSize part x).map (List.map f) = shards tpSize part (x.map f) := by
  unfold shards
  rw [List.map_map]
  exact List.map_congr_left fun r _ => (block_map f _ _ x).symm

omit [Field K] [LinearOrder K] in
theorem zipIdx_shards : (shards tpSize part x).zipIdx = (List.range tpSize).map fun r => (block (r * part) part x, r) := by
  refine List.ext_getElem? fun i => ?_
  rw [List.getElem?_zipIdx, shards, List.getElem?_map, List.getElem?_map]
  by_cases hi : i < tpSize
  · rw [List.getElem?_range hi]
    simp
  · rw [List.getElem?_eq_none (by rw [List.length_range]; omega)]
    rfl

omit [Field K] [LinearOrder K] in
theorem getElem?_shard {r i : ℕ} (hi : i < part) (y : List K) : (block (r * part) part y)[i]? = y[r * part + i]? :=
  getElem?_block hi y

/-- **The rank of a token** is the only one with the token in its vocab range. -/
theorem inVocab_iff {r id : ℕ} : r * part ≤ id ∧ id < r * part + part ↔ id / part = r ∧ 0 < part := by
  constructor
  · rintro ⟨hle, hlt⟩
    have hpos : 0 < part := by omega
    refine ⟨?_, hpos⟩
    rw [Nat.div_eq_iff hpos]
    have hcomm := Nat.mul_comm r part
    constructor
    · omega
    · omega
  · rintro ⟨rfl, hpos⟩
    have hdiv := Nat.div_add_mod id part
    have hmod := Nat.mod_lt id hpos
    rw [Nat.mul_comm part] at hdiv
    omega

end Shards

/-! ## A position -/

/-- A token is among the `k` likeliest. -/
def IsTop (k : ℕ) (x : List K) (id : ℕ) : Prop := ∃ a, x[id]? = some a ∧ larger x a < k

omit [Field K] in
theorem isTop_map {L : Type} [LinearOrder L] {f : K → L} (hf : StrictMono f) {k : ℕ} {x : List K} {id : ℕ} :
    IsTop k (x.map f) id ↔ IsTop k x id := by
  unfold IsTop
  constructor
  · rintro ⟨b, hget, hfew⟩
    rw [List.getElem?_map, Option.map_eq_some_iff] at hget
    obtain ⟨a, hget, rfl⟩ := hget
    exact ⟨a, hget, by rwa [larger_map hf] at hfew⟩
  · rintro ⟨a, hget, hfew⟩
    refine ⟨f a, ?_, by rwa [larger_map hf]⟩
    rw [List.getElem?_map, hget, Option.map_some]

def rowLogps (E : ExpLog K) (x : List K) : List K := x.map fun a => a - E.logsumexp x

def sourceAt (E : ExpLog K) (x : List K) (entry : ℕ × K) : K := (rowLogps E x).getD entry.1 0

/-- A log-prob that the clamp leaves as it is, and that is not the bound. -/
def isActive (clamp : Option K) (a : K) : Bool :=
  match clamp with
  | none => true
  | some bound => decide (bound < a)

def entryLoss (E : ExpLog K) (clamp : Option K) (x : List K) (entry : ℕ × K) : K :=
  E.exp (clampMin clamp entry.2) * (clampMin clamp entry.2 - clampMin clamp (sourceAt E x entry))

def activeProb (E : ExpLog K) (clamp : Option K) (x : List K) (entry : ℕ × K) : K :=
  if isActive clamp (sourceAt E x entry) then E.exp (clampMin clamp entry.2) else 0

/-- What is returned for a position, with the log-probs of the masses clamped on their own. -/
def positionOutputs (E : ExpLog K) (clamp massClamp : Option K) (x : List K) (entries : List (ℕ × K)) (ids : List ℕ) :
    Outputs K where
  distillationLoss := (entries.map (entryLoss E clamp x)).sum
  studentMass := (entries.map fun entry => E.exp (clampMin massClamp (sourceAt E x entry))).sum
  teacherMass := (entries.map fun entry => E.exp (clampMin massClamp entry.2)).sum
  overlapCount := (overlapMask (entries.map Prod.fst) ids).count true
  overlapTokenAdvantage :=
    overlapTokenAdvantage (entries.map (entryLoss E clamp x)) (overlapMask (entries.map Prod.fst) ids)

/-! ## The ranks together -/

namespace Megatron

omit [LinearOrder K] in
theorem sum_owner {n q : ℕ} (hq : q < n) (a : K) : ((List.range n).map fun r => if q = r then a else 0).sum = a := by
  induction n with
  | zero => exact absurd hq (Nat.not_lt_zero q)
  | succ n ih =>
    rw [List.range_succ, List.map_append, List.sum_append, List.map_singleton, List.sum_singleton]
    by_cases hlast : q = n
    · have hzero : ((List.range n).map fun r => if q = r then a else 0).sum = 0 := by
        refine List.sum_eq_zero fun b hb => ?_
        obtain ⟨r, hr, rfl⟩ := List.mem_map.1 hb
        have := List.mem_range.1 hr
        exact if_neg (by omega)
      rw [hzero, if_pos hlast, zero_add]
    · rw [ih (by omega), if_neg hlast, add_zero]

omit [LinearOrder K] in
theorem allReduceLists_map {ι β : Type} {rs : List ι} (hne : rs ≠ []) (f : ι → β → K) (es : List β) :
    allReduceLists (rs.map fun r => es.map (f r)) = es.map fun e => (rs.map fun r => f r e).sum := by
  induction rs with
  | nil => exact absurd rfl hne
  | cons r rs ih =>
    cases rs with
    | nil => simp [allReduceLists]
    | cons r' rs =>
      have hrest := ih (List.cons_ne_nil r' rs)
      change List.zipWith (· + ·) (es.map (f r)) (allReduceLists ((r' :: rs).map fun r => es.map (f r))) = _
      rw [hrest, List.zipWith_map, List.zipWith_self]
      rfl

/-- A teacher entry on a rank, by the log-probs of the whole vocabulary. -/
def entryAt (E : ExpLog K) (clamp : Option K) (part : ℕ) (sourceLogps : List K) (r : ℕ) (entry : ℕ × K) : LocalEntry K :=
  let inVocab := decide (entry.1 / part = r)
  let sourceLogp := sourceLogps.getD entry.1 0
  { inVocab
    index := if inVocab then entry.1 - r * part else 0
    active := inVocab && (match clamp with
      | none => true
      | some bound => decide (bound < sourceLogp))
    targetProb := if inVocab then E.exp (clampMin clamp entry.2) else 0
    targetLogp := if inVocab then clampMin clamp entry.2 else 0
    sourceLogp := if inVocab then clampMin clamp sourceLogp else 0 }

variable {E : ExpLog K}

variable {y : List K}

theorem localEntry_eq (clamp : Option K) {tpSize part r : ℕ} (hy : y.length = tpSize * part) (hpart : 0 < part)
    (hr : r < tpSize) {entry : ℕ × K} (hentry : entry.1 < tpSize * part) :
    localEntry E clamp (r * part) (block (r * part) part y) entry = some (entryAt E clamp part y r entry) := by
  have hle : r * part + part ≤ tpSize * part := by
    rw [← Nat.succ_mul]
    exact Nat.mul_le_mul_right _ hr
  have hlength : (block (r * part) part y).length = part := length_block (by rw [hy]; exact hle)
  have hmask : decide (r * part ≤ entry.1 ∧ entry.1 < r * part + part) = decide (entry.1 / part = r) :=
    decide_eq_decide.2 (inVocab_iff.trans (and_iff_left hpart))
  unfold localEntry entryAt
  simp only [hlength, hmask]
  by_cases hown : entry.1 / part = r
  · obtain ⟨hstart, hstop⟩ := inVocab_iff.2 ⟨hown, hpart⟩
    have hget : (block (r * part) part y)[entry.1 - r * part]? = some (y.getD entry.1 0) := by
      rw [getElem?_shard (by omega), Nat.add_sub_cancel' hstart, List.getD_eq_getElem?_getD,
        List.getElem?_eq_getElem (by omega), Option.getD_some]
    simp only [decide_eq_true hown, if_true, hget, Option.bind_eq_bind, Option.bind_some]
  · obtain ⟨dummy, hget⟩ : ∃ dummy, (block (r * part) part y)[0]? = some dummy :=
      ⟨_, List.getElem?_eq_getElem (by omega)⟩
    simp only [decide_eq_false hown, Bool.false_eq_true, if_false, hget, Option.bind_eq_bind, Option.bind_some,
      Bool.false_and]

/-- **A sum over the entries of all ranks** is one over the entries. -/
theorem allReduce_eq (clamp : Option K) {tpSize part : ℕ} (hpart : 0 < part) {g : LocalEntry K → K}
    {value : ℕ × K → K}
    (hg : ∀ r entry, g (entryAt E clamp part y r entry) = if entry.1 / part = r then value entry else 0)
    {entries : List (ℕ × K)} (hentries : ∀ entry ∈ entries, entry.1 < tpSize * part) :
    allReduce (fun l => (l.map g).sum) ((List.range tpSize).map fun r => entries.map (entryAt E clamp part y r)) =
      (entries.map value).sum := by
  unfold allReduce
  rw [List.map_map]
  induction entries with
  | nil => exact List.sum_eq_zero fun b hb => (by obtain ⟨r, -, rfl⟩ := List.mem_map.1 hb; rfl)
  | cons entry entries ih =>
    have howner : entry.1 / part < tpSize := by
      rw [Nat.div_lt_iff_lt_mul hpart]
      exact hentries entry List.mem_cons_self
    have hrest := ih fun entry h => hentries entry (List.mem_cons_of_mem _ h)
    simp only [Function.comp_def, List.map_cons, List.sum_cons, List.sum_map_add, hg, sum_owner howner] at hrest ⊢
    rw [← hrest]

omit [Field K] in
/-- What the ranks gather: their largest tokens, with their places in the whole row. -/
theorem exists_gathered (k : ℕ) (tpSize : ℕ) {part : ℕ} (hy : y.length = tpSize * part) :
    ∃ gathered : List (List (K × ℕ)),
      (shards tpSize part y).zipIdx.mapM (fun (logps, r) => localTopk k (r * logps.length) logps) = some gathered ∧
      List.Forall₂ (fun r l => ∃ out, topk (min k part) (block (r * part) part y) = some out ∧
        l = out.map fun p => (p.1, p.2 + r * part)) (List.range tpSize) gathered := by
  have hlocal : ∀ r ∈ List.range tpSize, ∃ l out,
      topk (min k part) (block (r * part) part y) = some out ∧ (l = out.map fun p => (p.1, p.2 + r * part)) ∧
        localTopk k (r * (block (r * part) part y).length) (block (r * part) part y) = some l := by
    intro r hr
    have hlength : (block (r * part) part y).length = part :=
      length_of_mem_shards hy (List.mem_map.2 ⟨r, hr, rfl⟩)
    obtain ⟨out, hout⟩ := exists_topk (show min k part ≤ (block (r * part) part y).length by omega)
    refine ⟨_, out, hout, rfl, ?_⟩
    unfold localTopk
    rw [hlength, hout, Option.map_some]
  rw [zipIdx_shards]
  generalize List.range tpSize = rs at hlocal ⊢
  induction rs with
  | nil => exact ⟨[], rfl, .nil⟩
  | cons r rs ih =>
    obtain ⟨l, out, hout, hl, hrun⟩ := hlocal r List.mem_cons_self
    obtain ⟨ls, hls, hall⟩ := ih fun r hr => hlocal r (List.mem_cons_of_mem _ hr)
    refine ⟨l :: ls, ?_, .cons ⟨out, hout, hl⟩ hall⟩
    rw [List.map_cons, List.mapM_cons]
    change (localTopk k (r * (block (r * part) part y).length) (block (r * part) part y) >>= fun _ => _) = _
    rw [hrun, Option.bind_eq_bind, Option.bind_some, hls]
    rfl

omit [Field K] in
/-- The candidates are entries of the whole row, each value once, and the likeliest tokens are among them. -/
theorem gathered_spec {k tpSize part : ℕ} (hpart : 0 < part) (hy : y.length = tpSize * part) (hnodup : y.Nodup)
    {gathered : List (List (K × ℕ))}
    (hall : List.Forall₂ (fun r l => ∃ out, topk (min k part) (block (r * part) part y) = some out ∧
      l = out.map fun p => (p.1, p.2 + r * part)) (List.range tpSize) gathered) :
    (gathered.flatten.map Prod.fst).Nodup ∧ (∀ p ∈ gathered.flatten, y[p.2]? = some p.1) ∧
      ∀ p : K × ℕ, y[p.2]? = some p.1 → larger y p.1 < k → p ∈ gathered.flatten := by
  have hshard : ∀ r, (block (r * part) part y).Sublist y := fun r =>
    (List.take_sublist _ _).trans (List.drop_sublist _ _)
  refine ⟨?_, ?_, ?_⟩
  · have hvalues : List.Forall₂ (fun shard values => List.Subperm values shard) (shards tpSize part y)
        (gathered.map (List.map Prod.fst)) := by
      unfold shards
      rw [List.forall₂_map_left_iff, List.forall₂_map_right_iff]
      refine hall.imp ?_
      rintro r l ⟨out, hout, rfl⟩
      rw [List.map_map]
      exact fst_topk_subperm hout
    have hflat := flatten_subperm hvalues
    rw [flatten_shards hy] at hflat
    rw [List.map_flatten]
    obtain ⟨l, hperm, hsub⟩ := hflat
    exact hperm.nodup_iff.1 (hsub.nodup hnodup)
  · intro p hp
    obtain ⟨l, hl, hp⟩ := List.mem_flatten.1 hp
    obtain ⟨i, hi, rfl⟩ := List.getElem_of_mem hl
    obtain ⟨out, hout, heq⟩ := hall.get (hall.length_eq ▸ hi) hi
    rw [List.get_eq_getElem] at heq
    rw [heq] at hp
    obtain ⟨q, hq, rfl⟩ := List.mem_map.1 hp
    have hget := ((mem_topk (List.Nodup.sublist (hshard _) hnodup) hout).1 hq).1
    have hlt : q.2 < part := by
      have := (List.getElem?_eq_some_iff.1 hget).1
      unfold block at this
      rw [List.length_take] at this
      omega
    rw [getElem?_shard hlt, Nat.add_comm] at hget
    exact hget
  · intro p hget hfew
    have hlt : p.2 < tpSize * part := hy ▸ (List.getElem?_eq_some_iff.1 hget).1
    have hr : p.2 / part < tpSize := by
      rw [Nat.div_lt_iff_lt_mul hpart]
      exact hlt
    have hplace : p.2 / part * part + p.2 % part = p.2 := by
      rw [Nat.mul_comm]
      exact Nat.div_add_mod _ _
    obtain ⟨l, hl, out, hout, rfl⟩ := getElem?_of_forall₂ hall (List.getElem?_range hr)
    have hlocal : (block (p.2 / part * part) part y)[p.2 % part]? = some p.1 := by
      rw [getElem?_shard (Nat.mod_lt _ hpart), hplace]
      exact hget
    have hlength : (block (p.2 / part * part) part y).length = part :=
      length_of_mem_shards hy (List.mem_map.2 ⟨p.2 / part, List.mem_range.2 hr, rfl⟩)
    have hmem : (p.1, p.2 % part) ∈ out := by
      refine (mem_topk (List.Nodup.sublist (hshard _) hnodup) hout).2 ⟨hlocal, lt_min ?_ ?_⟩
      · exact lt_of_le_of_lt (List.Sublist.countP_le (hshard _)) hfew
      · refine lt_of_lt_of_eq ?_ hlength
        exact larger_lt_length (List.mem_of_getElem? hlocal)
    refine List.mem_flatten.2 ⟨_, List.mem_of_getElem? hl, List.mem_map.2 ⟨_, hmem, ?_⟩⟩
    exact Prod.ext rfl ((Nat.add_comm _ _).trans hplace)

omit [Field K] in
/-- **The largest tokens of all ranks** are those of the whole row. -/
theorem studentTopkIds_spec {k tpSize part : ℕ} (hpart : 0 < part) (hk : k ≤ tpSize * part)
    (hy : y.length = tpSize * part) : ∃ ids, studentTopkIds k (shards tpSize part y) = some ids ∧
      (y.Nodup → ∀ id, id ∈ ids ↔ IsTop k y id) := by
  obtain ⟨gathered, hgathered, hall⟩ := exists_gathered k tpSize hy
  -- there are enough candidates
  have hlengths : ∀ l ∈ gathered, l.length = min k part := by
    intro l hl
    obtain ⟨i, hi, rfl⟩ := List.getElem_of_mem hl
    obtain ⟨out, hout, heq⟩ := hall.get (hall.length_eq ▸ hi) hi
    rw [List.get_eq_getElem] at heq
    rw [heq, List.length_map, length_of_topk hout]
  have hmany : k ≤ (gathered.flatten.map Prod.fst).length := by
    rw [List.length_map, List.length_flatten, List.map_congr_left hlengths, List.map_const', List.sum_replicate_nat,
      ← hall.length_eq, List.length_range]
    rcases Nat.le_total k part with hle | hle
    · rw [Nat.min_eq_left hle]
      have htp : tpSize ≠ 0 ∨ k = 0 := by
        by_cases hzero : tpSize = 0
        · rw [hzero, Nat.zero_mul] at hk
          exact .inr (by omega)
        · exact .inl hzero
      rcases htp with htp | rfl
      · exact Nat.le_mul_of_pos_left k (Nat.pos_of_ne_zero htp)
      · exact Nat.zero_le _
    · rw [Nat.min_eq_right hle]
      exact hk
  obtain ⟨positions, hpositions⟩ := exists_topk hmany
  have hplaces : ∀ i ∈ positions.map Prod.snd, i < (gathered.flatten.map Prod.snd).length := by
    intro i hi
    obtain ⟨p, hp, rfl⟩ := List.mem_map.1 hi
    unfold topk at hpositions
    rw [if_pos hmany] at hpositions
    obtain rfl := Option.some.inj hpositions
    have hmem := (sortDesc_perm _ _).mem_iff.1 (List.mem_of_mem_take hp)
    rw [List.mem_zipIdx_iff_getElem?] at hmem
    have hlt := (List.getElem?_eq_some_iff.1 hmem).1
    rwa [List.length_map] at hlt ⊢
  obtain ⟨ids, hids⟩ := gather_of_lt hplaces
  refine ⟨ids, ?_, ?_⟩
  · unfold studentTopkIds
    rw [hgathered, Option.bind_eq_bind, Option.bind_some, hpositions, Option.bind_eq_bind, Option.bind_some]
    exact hids
  intro hnodup id
  obtain ⟨hvalues, hsub, hlikely⟩ := gathered_spec hpart hy hnodup hall
  have hcandidates := mem_candidates_iff hnodup hvalues hsub hlikely
  have hmem : id ∈ ids ↔ ∃ a, (a, id) ∈ gathered.flatten ∧ larger (gathered.flatten.map Prod.fst) a < k := by
    have hpos := fun p => @mem_topk K _ k _ hvalues positions hpositions p
    rw [← List.mem_map_of_injective (Option.some_injective ℕ), gather_eq_some.1 hids]
    simp only [List.map_map, List.mem_map, Function.comp_apply, List.getElem?_map, Option.map_eq_some_iff]
    constructor
    · rintro ⟨p, hp, q, hq, rfl⟩
      obtain ⟨hget, hfew⟩ := (hpos p).1 hp
      rw [List.getElem?_map, hq, Option.map_some, Option.some.injEq] at hget
      exact ⟨q.1, List.mem_of_getElem? hq, hget ▸ hfew⟩
    · rintro ⟨a, hmem, hfew⟩
      obtain ⟨i, hi⟩ := List.mem_iff_getElem?.1 hmem
      refine ⟨(a, i), (hpos (a, i)).2 ⟨?_, hfew⟩, (a, id), hi, rfl⟩
      rw [List.getElem?_map, hi, Option.map_some]
  rw [hmem]
  exact exists_congr fun a => hcandidates (a, id)

def positionSaved (E : ExpLog K) (clamp : Option K) (part : ℕ) (x : List K) (rank : ℕ) (entries : List (ℕ × K)) :
    Saved K where
  sourceProbs := (block (rank * part) part (rowLogps E x)).map E.exp
  entries := entries.map (entryAt E clamp part (rowLogps E x) rank)
  targetActiveMass := (entries.map (activeProb E clamp x)).sum

theorem localEntries_eq (clamp : Option K) {tpSize part : ℕ} (hpart : 0 < part) (hy : y.length = tpSize * part)
    {entries : List (ℕ × K)} (hentries : ∀ entry ∈ entries, entry.1 < tpSize * part) :
    (shards tpSize part y).zipIdx.mapM (fun (logps, r) => entries.mapM (localEntry E clamp (r * logps.length) logps)) =
      some ((List.range tpSize).map fun r => entries.map (entryAt E clamp part y r)) := by
  rw [zipIdx_shards, mapM_eq_some_iff, List.forall₂_map_left_iff, List.forall₂_map_right_iff]
  refine List.forall₂_same.2 fun r hr => ?_
  have hlength : (block (r * part) part y).length = part := length_of_mem_shards hy (List.mem_map.2 ⟨r, hr, rfl⟩)
  simp only [hlength]
  rw [mapM_eq_some_iff, List.forall₂_map_right_iff]
  exact List.forall₂_same.2 fun entry h => localEntry_eq clamp hy hpart (List.mem_range.1 hr) (hentries entry h)

variable [IsStrictOrderedRing K]

/-- **The log-probs of all ranks** are those of the whole row. -/
theorem vocabParallelLogSoftmax_eq (hE : E.Lawful) {vpLogits : List (List K)} (hne : vpLogits ≠ [])
    (h : ∀ vp ∈ vpLogits, vp ≠ []) : vocabParallelLogSoftmax E vpLogits =
      some (vpLogits.map (List.map fun a => a - E.logsumexp vpLogits.flatten)) := by
  have hmaxima : ∃ maxima, vpLogits.mapM List.max? = some maxima := by
    exact exists_mapM fun vp hvp => Option.isSome_iff_exists.1 (List.isSome_max?_of_ne_nil (h vp hvp))
  obtain ⟨maxima, hmaxima⟩ := hmaxima
  have hlength := (mapM_eq_some_iff.1 hmaxima).length_eq
  have hmaximaNe : maxima ≠ [] := by
    rintro rfl
    exact hne (List.length_eq_zero_iff.1 hlength)
  obtain ⟨m, hm⟩ := Option.isSome_iff_exists.1 (List.isSome_max?_of_ne_nil hmaximaNe)
  have hflatten : vpLogits.flatten ≠ [] := by
    obtain ⟨vp, rest, rfl⟩ := List.exists_cons_of_ne_nil hne
    rw [List.flatten_cons]
    exact List.append_ne_nil_of_left_ne_nil (h vp List.mem_cons_self) _
  -- the largest logit cancels
  have hsum : ((vpLogits.map (List.map fun a => a - m)).map E.sumExp).sum = E.sumExp vpLogits.flatten / E.exp m := by
    rw [← ExpLog.sumExp_flatten, ← List.map_flatten, ExpLog.sumExp_shift hE]
  unfold vocabParallelLogSoftmax
  rw [hmaxima, Option.bind_eq_bind, Option.bind_some, hm, Option.bind_eq_bind, Option.bind_some]
  simp only [hsum]
  rw [ExpLog.logsumexp_shift hE hflatten, List.map_map]
  refine congrArg some (List.map_congr_left fun vp _ => ?_)
  rw [Function.comp_apply, List.map_map]
  refine List.map_congr_left fun a _ => ?_
  rw [Function.comp_apply]
  ring

/-- **A position on a rank**: what is returned is the same on all ranks. -/
theorem forward_spec (hE : E.Lawful) (clamp : Option K) {tpSize part rank : ℕ} (hpart : 0 < part)
    (hrank : rank < tpSize) {x : List K} (hx : x.length = tpSize * part) {entries : List (ℕ × K)}
    (hentries : ∀ entry ∈ entries, entry.1 < tpSize * part) (hk : entries.length ≤ tpSize * part) :
    ∃ ids, forward E clamp (shards tpSize part x) rank entries =
        some (positionOutputs E clamp clamp x entries ids, positionSaved E clamp part x rank entries) ∧
      (x.Nodup → ∀ id, id ∈ ids ↔ IsTop entries.length x id) := by
  have hy : (rowLogps E x).length = tpSize * part := by rw [rowLogps, List.length_map, hx]
  have hmono : StrictMono fun a => a - E.logsumexp x := fun a b h => sub_lt_sub_right h _
  obtain ⟨ids, hids, hmem⟩ := studentTopkIds_spec hpart hk hy
  have hlogps : vocabParallelLogSoftmax E (shards tpSize part x) = some (shards tpSize part (rowLogps E x)) := by
    rw [vocabParallelLogSoftmax_eq hE, flatten_shards hx, shards_map]
    · rfl
    · refine List.ne_nil_of_length_pos ?_
      rw [shards, List.length_map, List.length_range]
      omega
    · intro vp hvp
      refine List.ne_nil_of_length_pos ?_
      rw [length_of_mem_shards hx hvp]
      exact hpart
  have hkl : ∀ r entry, (entryAt E clamp part (rowLogps E x) r entry).kl =
      if entry.1 / part = r then entryLoss E clamp x entry else 0 := by
    intro r entry
    unfold LocalEntry.kl entryAt entryLoss sourceAt
    by_cases hown : entry.1 / part = r
    · simp [hown]
    · simp [hown]
  have hmass : ∀ r entry, (entryAt E clamp part (rowLogps E x) r entry).sourceProb E =
      if entry.1 / part = r then E.exp (clampMin clamp (sourceAt E x entry)) else 0 := by
    intro r entry
    unfold LocalEntry.sourceProb entryAt sourceAt
    by_cases hown : entry.1 / part = r
    · simp [hown]
    · simp [hown]
  have hactive : ∀ r entry, (entryAt E clamp part (rowLogps E x) r entry).activeProb =
      if entry.1 / part = r then activeProb E clamp x entry else 0 := by
    intro r entry
    unfold LocalEntry.activeProb entryAt activeProb sourceAt isActive
    by_cases hown : entry.1 / part = r
    · simp [hown]
    · simp [hown]
  have htokenKl : allReduceLists (((List.range tpSize).map fun r =>
      entries.map (entryAt E clamp part (rowLogps E x) r)).map (List.map LocalEntry.kl)) =
        entries.map (entryLoss E clamp x) := by
    have hne : List.range tpSize ≠ [] := List.ne_nil_of_length_pos (by rw [List.length_range]; omega)
    simp only [List.map_map, Function.comp_def]
    rw [allReduceLists_map hne fun r entry => (entryAt E clamp part (rowLogps E x) r entry).kl]
    refine List.map_congr_left fun entry hentry => ?_
    simp only [hkl]
    exact sum_owner ((Nat.div_lt_iff_lt_mul hpart).2 (hentries entry hentry)) _
  have hactiveMass : (if clamp.isSome then allReduce (fun l => (l.map LocalEntry.activeProb).sum)
      ((List.range tpSize).map fun r => entries.map (entryAt E clamp part (rowLogps E x) r))
        else (entries.map fun entry => E.exp (clampMin clamp entry.2)).sum) =
          (entries.map (activeProb E clamp x)).sum := by
    cases clamp with
    | none => rfl
    | some bound => exact allReduce_eq (some bound) hpart hactive hentries
  refine ⟨ids, ?_, ?_⟩
  · have hlocal : (shards tpSize part (rowLogps E x))[rank]? = some (block (rank * part) part (rowLogps E x)) := by
      rw [shards, List.getElem?_map, List.getElem?_range hrank, Option.map_some]
    have hranks : ((List.range tpSize).map fun r => entries.map (entryAt E clamp part (rowLogps E x) r))[rank]? =
        some (entries.map (entryAt E clamp part (rowLogps E x) rank)) := by
      rw [List.getElem?_map, List.getElem?_range hrank, Option.map_some]
    unfold forward
    rw [hlogps, Option.bind_eq_bind, Option.bind_some, localEntries_eq clamp hpart hy hentries, Option.bind_eq_bind,
      Option.bind_some]
    simp only [hids, Option.bind_eq_bind, Option.bind_some, hlocal, hranks, htokenKl, hactiveMass,
      allReduce_eq clamp hpart hkl hentries, allReduce_eq clamp hpart hmass hentries]
    rfl
  · intro hnodup id
    rw [hmem (hnodup.map hmono.injective) id]
    exact isTop_map hmono

end Megatron

/-! ## The whole vocabulary -/

namespace Fsdp

variable {E : ExpLog K}

omit [Field K] [LinearOrder K] in
theorem gather_eq_map {x : List K} {ids : List ℕ} (h : ∀ id ∈ ids, id < x.length) (d : K) :
    gather x ids = some (ids.map fun id => x.getD id d) := by
  rw [gather_eq_some, List.map_map]
  refine List.map_congr_left fun id hid => ?_
  rw [Function.comp_apply, List.getD_eq_getElem?_getD, List.getElem?_eq_getElem (h id hid), Option.getD_some]

omit [LinearOrder K] in
/-- **The loop over the chunks** fills the buffer with the log-probs. -/
theorem chunkLoop_spec {chunkSize : ℕ} (hpos : 0 < chunkSize) {logits : List (List K)} {topkIds : List (List ℕ)}
    {all init : List (List K)} (hall : chunkLogProbs E logits topkIds = some all) (hlength : all.length = logits.length)
    (hinit : init.length = logits.length) :
    (List.range' 0 ((logits.length + chunkSize - 1) / chunkSize) chunkSize).foldlM (fun out start => do
      let stop := min (start + chunkSize) logits.length
      let chunk ← chunkLogProbs E (between start stop logits) (between start stop topkIds)
      assign out start stop chunk) init = some all := by
  rw [← hlength]
  refine foldlM_chunks hpos (hinit.trans hlength.symm) fun out start hout hstart => ?_
  have hchunk : chunkLogProbs E (between start (min (start + chunkSize) all.length) logits)
      (between start (min (start + chunkSize) all.length) topkIds) = some (block start chunkSize all) := by
    rw [← block_min]
    unfold chunkLogProbs at hall ⊢
    rw [between, between, ← block_zip, mapM_eq_some_iff]
    exact List.forall₂_take _ (List.forall₂_drop _ (mapM_eq_some_iff.1 hall))
  simp only [hchunk, Option.bind_eq_bind, Option.bind_some, assign_chunk hout hstart]
  rfl

omit [LinearOrder K] in
theorem chunkLogProbs_eq {logits : List (List K)} {topkIds : List (List ℕ)}
    (h : ∀ p ∈ logits.zip topkIds, ∀ id ∈ p.2, id < p.1.length) :
    chunkLogProbs E logits topkIds = some ((logits.zip topkIds).map fun p => p.2.map fun id => (rowLogps E p.1).getD id 0) := by
  unfold chunkLogProbs
  rw [mapM_eq_some_iff, List.forall₂_map_right_iff]
  refine List.forall₂_same.2 fun p hp => ?_
  have hids : ∀ id ∈ p.2, id < (rowLogps E p.1).length := by
    intro id hid
    rw [rowLogps, List.length_map]
    exact h p hp id hid
  obtain ⟨out, hout⟩ := gather_of_lt (h p hp)
  have hmap := gather_map (fun a => a - E.logsumexp p.1) hout
  change (gather p.1 p.2).map (List.map fun a => a - E.logsumexp p.1) = _
  rw [hout, Option.map_some, ← hmap]
  exact gather_eq_map hids 0

structure LocalTensors (k vocab : ℕ) (logits : List (List K)) (logProbs : List (List K)) (ids : List (List ℕ)) : Prop where
  length_logProbs : logProbs.length = logits.length
  length_ids : ids.length = logits.length
  length_row : ∀ x ∈ logits, x.length = vocab
  ids_lt : ∀ row ∈ ids, ∀ id ∈ row, id < vocab
  le_vocab : k ≤ vocab

theorem outputsOf_eq (clamp : Option K) (studentIds : List ℕ) (x : List K) {ids : List ℕ} {logProbs : List K}
    (h : logProbs.length = ids.length) :
    outputsOf E clamp studentIds (ids.map fun id => (rowLogps E x).getD id 0) logProbs ids =
      positionOutputs E clamp none x (ids.zip logProbs) studentIds := by
  obtain ⟨entries, rfl, rfl⟩ : ∃ entries : List (ℕ × K), ids = entries.map Prod.fst ∧ logProbs = entries.map Prod.snd :=
    ⟨ids.zip logProbs, (List.map_fst_zip h.ge).symm, (List.map_snd_zip h.le).symm⟩
  have hzip : (entries.map Prod.fst).zip (entries.map Prod.snd) = entries := by
    rw [List.zip_map', List.map_id']
  have hkl : List.zipWith (fun t s => E.exp t * (t - s)) ((entries.map Prod.snd).map (clampMin clamp))
      (((entries.map Prod.fst).map fun id => (rowLogps E x).getD id 0).map (clampMin clamp)) =
        entries.map (entryLoss E clamp x) := by
    rw [List.map_map, List.map_map, List.map_map, List.zipWith_map, List.zipWith_self]
    rfl
  have hloss : klDivergence E (((entries.map Prod.fst).map fun id => (rowLogps E x).getD id 0).map (clampMin clamp))
      ((entries.map Prod.snd).map (clampMin clamp)) = (entries.map (entryLoss E clamp x)).sum := by
    unfold klDivergence
    rw [List.map_map, List.map_map, List.map_map, List.zipWith_map, List.zipWith_self]
    rfl
  unfold outputsOf positionOutputs
  simp only [hzip, hkl, hloss]
  rw [List.map_map, List.map_map, List.map_map]
  rfl

variable [IsStrictOrderedRing K]

/-- **The student's tokens and log-probs**, in chunks or not. -/
theorem studentTopk_spec (hE : E.Lawful) (config : LossConfig K) (hchunk : 0 < config.chunkedTopkChunkSize)
    (uninit : ℕ → List K) {k vocab : ℕ} {logits logProbs : List (List K)} {ids : List (List ℕ)}
    (h : LocalTensors k vocab logits logProbs ids) : ∃ studentIds,
      studentTopk E config uninit k logits ids =
        some (studentIds, (logits.zip ids).map fun p => p.2.map fun id => (rowLogps E p.1).getD id 0) ∧
      List.Forall₂ (fun x sIds => x.Nodup → ∀ id, id ∈ sIds ↔ IsTop k x id) logits studentIds := by
  have hids : ∀ p ∈ logits.zip ids, ∀ id ∈ p.2, id < p.1.length := by
    intro p hp id hid
    rw [h.length_row p.1 (List.of_mem_zip hp).1]
    exact h.ids_lt p.2 (List.of_mem_zip hp).2 id hid
  have hspec : ∀ {x : List K} {out : List (K × ℕ)}, topk k x = some out → x.Nodup →
      ∀ id, id ∈ out.map Prod.snd ↔ IsTop k x id := by
    intro x out hout hnodup id
    constructor
    · intro hid
      obtain ⟨p, hp, rfl⟩ := List.mem_map.1 hid
      exact ⟨p.1, (mem_topk hnodup hout).1 hp⟩
    · rintro ⟨a, hget⟩
      exact List.mem_map.2 ⟨(a, id), (mem_topk hnodup hout).2 hget, rfl⟩
  have hrows : ∀ (f : List K → List K) (hlen : ∀ x ∈ logits, (f x).length = vocab)
      (htop : ∀ x, x.Nodup → (f x).Nodup ∧ ∀ id, IsTop k (f x) id ↔ IsTop k x id),
      ∃ studentIds, (logits.map f).mapM (fun x => (topk k x).map (List.map Prod.snd)) = some studentIds ∧
        List.Forall₂ (fun x sIds => x.Nodup → ∀ id, id ∈ sIds ↔ IsTop k x id) logits studentIds := by
    intro f hlen htop
    have hle := h.le_vocab
    generalize logits = rows at hlen
    induction rows with
    | nil => exact ⟨[], rfl, .nil⟩
    | cons x rows ih =>
      obtain ⟨out, hout⟩ := exists_topk (show k ≤ (f x).length by rw [hlen x List.mem_cons_self]; exact hle)
      obtain ⟨studentIds, hrun, hall⟩ := ih fun x hx => hlen x (List.mem_cons_of_mem _ hx)
      refine ⟨out.map Prod.snd :: studentIds, ?_, .cons ?_ hall⟩
      · rw [List.map_cons, List.mapM_cons, hout, hrun]
        rfl
      · intro hnodup id
        rw [hspec hout (htop x hnodup).1, (htop x hnodup).2]
  unfold studentTopk
  by_cases hmode : config.useChunkedTopk
  · obtain ⟨studentIds, hrun, hall⟩ := hrows id h.length_row fun x hx => ⟨hx, fun _ => Iff.rfl⟩
    rw [List.map_id] at hrun
    refine ⟨studentIds, ?_, hall⟩
    have hchunks : chunkedTopkLogProbs E uninit config.chunkedTopkChunkSize logits ids =
        some ((logits.zip ids).map fun p => p.2.map fun id => (rowLogps E p.1).getD id 0) := by
      unfold chunkedTopkLogProbs
      simp only
      by_cases hempty : logits.length = 0
      · rw [if_pos hempty, List.length_eq_zero_iff.1 hempty]
        rfl
      · rw [if_neg hempty, if_neg hchunk.ne']
        have hlen : ((logits.zip ids).map fun p => p.2.map fun id => (rowLogps E p.1).getD id 0).length =
            logits.length := by
          rw [List.length_map, List.length_zip, h.length_ids, Nat.min_self]
        exact chunkLoop_spec hchunk (chunkLogProbs_eq hids) hlen (by rw [List.length_map, List.length_range])
    rw [if_pos hmode, hrun, Option.bind_eq_bind, Option.bind_some, hchunks]
    rfl
  · have hsoftmax : E.logSoftmax = rowLogps E := by
      funext x
      exact ExpLog.logSoftmax_eq hE x
    obtain ⟨studentIds, hrun, hall⟩ := hrows (rowLogps E) (fun x hx => by
      rw [rowLogps, List.length_map]
      exact h.length_row x hx) fun x hx => by
        have hmono : StrictMono fun a => a - E.logsumexp x := fun a b h => sub_lt_sub_right h _
        exact ⟨hx.map hmono.injective, fun id => isTop_map hmono⟩
    refine ⟨studentIds, ?_, hall⟩
    have hgather : ((logits.map (rowLogps E)).zip ids).mapM (fun (x, ids) => gather x ids) =
        some ((logits.zip ids).map fun p => p.2.map fun id => (rowLogps E p.1).getD id 0) := by
      rw [List.zip_map_left, mapM_eq_some_iff, List.forall₂_map_left_iff, List.forall₂_map_right_iff]
      refine List.forall₂_same.2 fun p hp => gather_eq_map ?_ 0
      intro id hid
      rw [rowLogps, List.length_map]
      exact hids p hp id hid
    rw [if_neg hmode, hsoftmax]
    simp only [hrun, Option.bind_eq_bind, Option.bind_some, hgather]

/-- **The outputs of a process**, position by position. -/
theorem computeForwardKlTopk_spec (hE : E.Lawful) (config : LossConfig K) (hchunk : 0 < config.chunkedTopkChunkSize)
    (uninit : ℕ → List K) (w : Ulysses.World) (p : ℕ) {k vocab : ℕ} {logits : List (List K)}
    {logProbs : List (List (List K))} {ids : List (List (List ℕ))}
    (h : LocalTensors k vocab logits (splitTeacher w p (List.replicate k 0) logProbs.flatten)
      (splitTeacher w p (List.replicate k 0) ids.flatten)) :
    ∃ out, computeForwardKlTopk E config uninit w p k logits logProbs ids = some out ∧ out.length = logits.length ∧
      ∀ (t : ℕ) (x tLogProbs : List K) (tIds : List ℕ), logits[t]? = some x →
        (splitTeacher w p (List.replicate k 0) logProbs.flatten)[t]? = some tLogProbs →
        (splitTeacher w p (List.replicate k 0) ids.flatten)[t]? = some tIds → tLogProbs.length = tIds.length →
        ∃ sIds, out[t]? = some (positionOutputs E config.logProbMinClamp none x (tIds.zip tLogProbs) sIds) ∧
          (x.Nodup → ∀ id, id ∈ sIds ↔ IsTop k x id) := by
  obtain ⟨studentIds, hrun, hall⟩ := studentTopk_spec hE config hchunk uninit h
  unfold computeForwardKlTopk
  simp only
  rw [if_pos ⟨h.length_logProbs.trans h.length_ids.symm, h.length_ids⟩, hrun, Option.bind_eq_bind, Option.bind_some]
  refine ⟨_, rfl, ?_, ?_⟩
  · simp only [List.length_map, List.length_zip, h.length_ids, h.length_logProbs, ← hall.length_eq, Nat.min_self]
  · intro t x tLogProbs tIds hx hLogProbs hIds hlen
    obtain ⟨sIds, hsIds, htop⟩ := getElem?_of_forall₂ hall hx
    refine ⟨sIds, ?_, htop⟩
    have hsource : ((logits.zip (splitTeacher w p (List.replicate k 0) ids.flatten)).map fun p =>
        p.2.map fun id => (rowLogps E p.1).getD id 0)[t]? = some (tIds.map fun id => (rowLogps E x).getD id 0) := by
      rw [List.getElem?_map, (@List.getElem?_zip_eq_some _ _ _ _ (x, tIds) t).2 ⟨hx, hIds⟩, Option.map_some]
    have hzip := (@List.getElem?_zip_eq_some _ _ _ _
      ((sIds, tIds.map fun id => (rowLogps E x).getD id 0), (tLogProbs, tIds)) t).2
      ⟨(@List.getElem?_zip_eq_some _ _ _ _ (sIds, _) t).2 ⟨hsIds, hsource⟩,
        (@List.getElem?_zip_eq_some _ _ _ _ (tLogProbs, tIds) t).2 ⟨hLogProbs, hIds⟩⟩
    rw [← outputsOf_eq _ _ _ hlen, List.getElem?_map, hzip, Option.map_some]

end Fsdp

end Opd.Verl.DistillationLosses

import Mathlib.Data.Nat.Size
import Opd.Lib.Blocks
import Opd.Lib.Rounding
import Opd.Lib.Sorting
import Opd.Lib.Tensor

/-!
# Dynamic context parallelism

A micro batch is split over groups of data parallel ranks. The ranks of a group share a sub-batch, and
their number is a power of two that depends on the longest sequence. The outputs of all ranks are
gathered, and those of one rank in each group are put together.

* `dynamicCpSplitBatch_eq`: what a rank gets.
* `dynamicCpMergeOutput_eq`: what is put together.
* `cpSplitMerge_iff`: splitting and merging works exactly when there are enough sequences for all ranks,
  and for all groups, and the quotient for the size of the groups is not rounded down to a power of two.
-/

namespace Opd.Verl.DynamicContextParallel

open Lib

variable {ρ β : Type}

/-! ## Splitting -/

inductive SplitError
  | valueError
  | assertionError (message : String)
  | indexError
deriving DecidableEq

/-- A micro batch: its rows, and the `local_cp_size` that is assigned to it. -/
structure Batch (ρ : Type) where
  rows : List ρ
  localCpSize : Option ℕ

/-- `1 << (n - 1).bit_length()` -/
def roundUp (n : ℤ) : ℕ := 2 ^ (n - 1).natAbs.size

/-- `local_cp_size`: the quotient of a tensor has the precision of `float32`. -/
def localCpSize (maxSeqLen maxSeqlenPerDpCpRank : ℕ) : ℕ := roundUp ⌈floatDiv 24 maxSeqLen maxSeqlenPerDpCpRank⌉

/-- `num_seq_per_local_cp`: the quotient of two integers has the precision of `float`. -/
def numSeqPerLocalCp (n localDpSize : ℕ) : ℕ := ⌈roundTo 53 (n / localDpSize)⌉.toNat

/-- `rows[i]` -/
def rowAt (rows : List ρ) (i : ℕ) : Except SplitError ρ :=
  match rows[i]? with
  | some row => .ok row
  | none => .error .indexError

/-- `index_select_tensor_dict`: without an index there is no row for the jagged columns. -/
def indexSelectTensorDict (batch : Batch ρ) (indices : List ℕ) : Except SplitError (Batch ρ) :=
  if indices = [] then .error (.assertionError "Must provide at least one tensor")
  else do
    let rows ← indices.mapM (rowAt batch.rows)
    .ok { batch with rows := rows }

def tooLong : SplitError :=
  .assertionError "local_cp_size must be less than or equal to dp_size, try to increase max_seqlen_per_dp_cp_rank"

/-- `dynamic_cp_split_batch` on a rank. -/
def dynamicCpSplitBatch (seqLen : ρ → ℕ) (maxSeqlenPerDpCpRank dpSize dpRank : ℕ) (batch : Batch ρ) :
    Except SplitError (Batch ρ) :=
  match (batch.rows.map seqLen).max? with
  | none => .error .valueError
  | some maxSeqLen =>
    if batch.rows.length < dpSize then .ok batch
    else
      let size := localCpSize maxSeqLen maxSeqlenPerDpCpRank
      if dpSize < size then .error tooLong
      else if size < dpSize then do
        let localDpRank := dpRank / size
        let localDpSize := dpSize / size
        let indices := List.range batch.rows.length
        let numSeq := numSeqPerLocalCp batch.rows.length localDpSize
        let startIdx := localDpRank * numSeq
        let endIdx := min (startIdx + numSeq) batch.rows.length
        let selectedIndices := block startIdx (endIdx - startIdx) indices
        let batch ← indexSelectTensorDict batch selectedIndices
        .ok { batch with localCpSize := some size }
      else .ok { batch with localCpSize := some size }

/-! ## Merging -/

/-- `dynamic_cp_merge_output` on a rank: the outputs of all ranks, which are jagged tensors with their keys. The
ranks gather the outputs in the order of their own keys. -/
def dynamicCpMergeOutput (outputs : ℕ → List (String × List β)) (dpSize dpRank localCpSize : ℕ) :
    Option (List (String × List β)) :=
  if localCpSize = dpSize then some (outputs dpRank)
  else (outputs dpRank).zipIdx.mapM fun item => do
    let objectList ← (List.range dpSize).mapM fun r => ((outputs r)[item.2]?).map Prod.snd
    let toMerge := strided localCpSize (objectList.drop (dpRank % localCpSize))
    some (item.1.1, toMerge.flatten)

/-! ## The size of the groups -/

section GroupSize

theorem le_roundUp {n : ℤ} (h : 1 ≤ n) : n ≤ roundUp n := by
  have hlt := Nat.lt_size_self (n - 1).natAbs
  unfold roundUp
  omega

theorem roundUp_pow (j : ℕ) : roundUp (2 ^ j) = 2 ^ j := by
  have hpos : 0 < 2 ^ j := Nat.two_pow_pos j
  have habs : ((2 : ℤ) ^ j - 1).natAbs = 2 ^ j - 1 := by
    have hcast : ((2 ^ j : ℕ) : ℤ) = 2 ^ j := by rw [Nat.cast_pow, Nat.cast_ofNat]
    rw [← hcast]
    omega
  have hsize : (2 ^ j - 1).size = j := by
    refine le_antisymm (Nat.size_le.2 (by omega)) ?_
    cases j with
    | zero => exact Nat.zero_le _
    | succ j =>
      refine Nat.lt_size.2 ?_
      have hdouble : 2 ^ (j + 1) = 2 * 2 ^ j := Nat.pow_succ'
      have := Nat.two_pow_pos j
      omega
  rw [roundUp, habs, hsize]

theorem localCpSize_pos (maxSeqLen cap : ℕ) : 0 < localCpSize maxSeqLen cap := Nat.two_pow_pos _

/-- **The longest sequence fits** on the ranks of a group exactly when the quotient is not rounded down to a power
of two. -/
theorem le_localCpSize_mul_iff {maxSeqLen cap : ℕ} (hcap : 0 < cap) :
    maxSeqLen ≤ localCpSize maxSeqLen cap * cap ↔
      ∀ j : ℕ, floatDiv 24 maxSeqLen cap = 2 ^ j → maxSeqLen ≤ 2 ^ j * cap := by
  constructor
  · intro hle j hquotient
    have hceil : ⌈floatDiv 24 maxSeqLen cap⌉ = 2 ^ j := by
      rw [hquotient, show (2 : ℚ) ^ j = ((2 ^ j : ℤ) : ℚ) by rw [Int.cast_pow, Int.cast_ofNat], Int.ceil_intCast]
    rwa [localCpSize, hceil, roundUp_pow] at hle
  · intro hquotient
    by_contra hlong
    obtain ⟨j, hj⟩ : ∃ j, localCpSize maxSeqLen cap = 2 ^ j := ⟨_, rfl⟩
    rw [hj, not_le] at hlong
    -- the quotient is the power of two that is not enough
    have hlow : (2 : ℚ) ^ (j : ℤ) ≤ floatDiv 24 maxSeqLen cap := by
      refine le_floatDiv (by decide) (Nat.cast_pos.2 hcap) ?_
      rw [zpow_natCast]
      exact_mod_cast hlong.le
    rw [zpow_natCast] at hlow
    have hpos : (1 : ℤ) ≤ ⌈floatDiv 24 maxSeqLen cap⌉ := by
      rw [Int.one_le_ceil_iff]
      exact lt_of_lt_of_le (pow_pos two_pos j) hlow
    have hhigh : floatDiv 24 maxSeqLen cap ≤ 2 ^ j := by
      have hround := le_roundUp hpos
      rw [← localCpSize, hj] at hround
      calc floatDiv 24 maxSeqLen cap ≤ (⌈floatDiv 24 maxSeqLen cap⌉ : ℚ) := Int.le_ceil _
        _ ≤ 2 ^ j := by exact_mod_cast hround
    exact absurd (hquotient j (le_antisymm hhigh hlow)) (not_le.2 hlong)

theorem numSeqPerLocalCp_eq {n : ℕ} (h : n < 2 ^ 53) (i : ℕ) :
    numSeqPerLocalCp n (2 ^ i) = (n + 2 ^ i - 1) / 2 ^ i := by
  have hpos : 0 < 2 ^ i := Nat.two_pow_pos i
  have hscale : (n : ℚ) / (2 ^ i : ℕ) = 2 ^ (-(i : ℤ)) * n := by
    rw [zpow_neg, zpow_natCast, Nat.cast_pow, Nat.cast_ofNat, div_eq_mul_inv, mul_comm]
  have hexact : roundTo 53 (n / (2 ^ i : ℕ)) = n / (2 ^ i : ℕ) := by
    rw [hscale]
    exact roundTo_exact h _
  have hdiv := Nat.div_add_mod (n + 2 ^ i - 1) (2 ^ i)
  have hmod := Nat.mod_lt (n + 2 ^ i - 1) hpos
  generalize hcount : (n + 2 ^ i - 1) / 2 ^ i = count at hdiv ⊢
  have hcastPos : (0 : ℚ) < (2 ^ i : ℕ) := Nat.cast_pos.2 hpos
  have hceil : ⌈(n : ℚ) / (2 ^ i : ℕ)⌉ = count := by
    rw [Int.ceil_eq_iff, lt_div_iff₀ hcastPos, div_le_iff₀ hcastPos, sub_mul, sub_lt_iff_lt_add]
    rw [Nat.mul_comm] at hdiv
    have hlow : count * 2 ^ i < n + 1 * 2 ^ i := by omega
    have hhigh : n ≤ count * 2 ^ i := by omega
    exact ⟨by exact_mod_cast hlow, by exact_mod_cast hhigh⟩
  rw [numSeqPerLocalCp, hexact, hceil, Int.toNat_natCast]

end GroupSize

/-! ## What a rank gets -/

section Split

variable {seqLen : ρ → ℕ} {cap dpSize dpRank : ℕ} {rows : List ρ}

theorem indexSelectTensorDict_block {start size : ℕ} (hsize : 0 < size) (hle : start + size ≤ rows.length)
    (c : Option ℕ) : indexSelectTensorDict ⟨rows, c⟩ (block start size (List.range rows.length)) =
      .ok ⟨block start size rows, c⟩ := by
  have hindices : (block start size (List.range rows.length)).length = size :=
    length_block (by rw [List.length_range]; exact hle)
  have hrows : (block start size rows).length = size := length_block hle
  have hne : block start size (List.range rows.length) ≠ [] := List.ne_nil_of_length_pos (by omega)
  have hselect : (block start size (List.range rows.length)).mapM (rowAt rows) = .ok (block start size rows) := by
    refine mapM_eq_ok_iff.2 (List.forall₂_iff_get.2 ⟨hindices.trans hrows.symm, fun i hi hi' => ?_⟩)
    have hindex : (block start size (List.range rows.length))[i]? = some (start + i) := by
      rw [getElem?_block (by omega), List.getElem?_range (by omega)]
    have hrow : (block start size rows)[i]? = rows[start + i]? := getElem?_block (by omega) rows
    rw [List.getElem?_eq_getElem hi, Option.some.injEq] at hindex
    rw [List.getElem?_eq_getElem hi'] at hrow
    simp only [List.get_eq_getElem, hindex, rowAt, ← hrow]
  rw [indexSelectTensorDict, if_neg hne, hselect]
  rfl

def part (rows : List ρ) (dpSize size dpRank : ℕ) : List ρ :=
  let numSeq := numSeqPerLocalCp rows.length (dpSize / size)
  block (dpRank / size * numSeq) numSeq rows

theorem part_group {size : ℕ} (j : ℕ) {k : ℕ} (hk : k < size) :
    part rows dpSize size (j * size + k) =
      block (j * numSeqPerLocalCp rows.length (dpSize / size)) (numSeqPerLocalCp rows.length (dpSize / size)) rows := by
  rw [part, Nat.mul_comm j, Nat.mul_add_div (by omega), Nat.div_eq_of_lt hk, Nat.add_zero]

theorem flatMap_part {size : ℕ} (groups : ℕ) {k : ℕ} (hk : k < size) :
    ((List.range groups).flatMap fun j => part rows dpSize size (j * size + k)) =
      rows.take (groups * numSeqPerLocalCp rows.length (dpSize / size)) := by
  rw [← flatMap_block_take]
  exact List.flatMap_congr fun j _ => part_group j hk

theorem part_ne_nil {size dpRank : ℕ} :
    part rows dpSize size dpRank ≠ [] ↔ 0 < numSeqPerLocalCp rows.length (dpSize / size) ∧
      dpRank / size * numSeqPerLocalCp rows.length (dpSize / size) < rows.length := by
  rw [part, block, ne_eq, List.take_eq_nil_iff, List.drop_eq_nil_iff]
  omega

/-- **A rank of a batch with enough sequences.** Its group gets the next sequences, if there are any. -/
theorem dynamicCpSplitBatch_eq {maxSeqLen : ℕ} (hmax : (rows.map seqLen).max? = some maxSeqLen)
    (hrows : dpSize ≤ rows.length) (hsize : localCpSize maxSeqLen cap ≤ dpSize) :
    (localCpSize maxSeqLen cap = dpSize →
      dynamicCpSplitBatch seqLen cap dpSize dpRank ⟨rows, none⟩ = .ok ⟨rows, some dpSize⟩) ∧
    (localCpSize maxSeqLen cap < dpSize → part rows dpSize (localCpSize maxSeqLen cap) dpRank ≠ [] →
      dynamicCpSplitBatch seqLen cap dpSize dpRank ⟨rows, none⟩ =
        .ok ⟨part rows dpSize (localCpSize maxSeqLen cap) dpRank, some (localCpSize maxSeqLen cap)⟩) ∧
    (localCpSize maxSeqLen cap < dpSize → part rows dpSize (localCpSize maxSeqLen cap) dpRank = [] →
      dynamicCpSplitBatch seqLen cap dpSize dpRank ⟨rows, none⟩ =
        .error (.assertionError "Must provide at least one tensor")) := by
  unfold dynamicCpSplitBatch part
  simp only [hmax, if_neg (not_lt.2 hrows), if_neg (not_lt.2 hsize)]
  generalize localCpSize maxSeqLen cap = size
  generalize numSeqPerLocalCp rows.length (dpSize / size) = numSeq
  generalize dpRank / size * numSeq = start
  have hpart : block start (min (start + numSeq) rows.length - start) rows = block start numSeq rows := by
    rw [block, block, List.take_eq_take_iff, List.length_drop]
    omega
  refine ⟨fun heq => ?_, fun hlt hne => ?_, fun hlt hnil => ?_⟩
  · rw [if_neg (by omega), heq]
  · have hbound : 0 < numSeq ∧ start < rows.length := by
      by_contra hbad
      apply hne
      rw [block, List.take_eq_nil_iff, List.drop_eq_nil_iff]
      omega
    rw [if_pos hlt, indexSelectTensorDict_block (by omega) (by omega), hpart]
    rfl
  · have hempty : block start (min (start + numSeq) rows.length - start) (List.range rows.length) = [] := by
      rw [block, List.take_eq_nil_iff, List.drop_eq_nil_iff] at hnil ⊢
      rw [List.length_range]
      omega
    rw [if_pos hlt, hempty]
    rfl

end Split

/-! ## What is merged -/

section Merge

variable {groups size dpRank : ℕ}

theorem strided_ranks {γ : Type} (hsize : 0 < size) (hgroups : 0 < groups) (f : ℕ → γ) :
    strided size (((List.range (groups * size)).map f).drop (dpRank % size)) =
      (List.range groups).map fun j => f (j * size + dpRank % size) := by
  have hlt := Nat.mod_lt dpRank hsize
  obtain ⟨groups, rfl⟩ := Nat.exists_eq_succ_of_ne_zero hgroups.ne'
  have hdrop : (List.range (groups.succ * size)).drop (dpRank % size) =
      List.range' (dpRank % size) (groups * size + (size - dpRank % size)) := by
    rw [List.range_eq_range', List.drop_range', Nat.mul_one, Nat.zero_add, Nat.succ_mul]
    congr 1
    omega
  rw [← List.map_drop, hdrop, strided_map, strided_range' _ _ (by omega) (Nat.sub_le _ _), List.map_map]
  rfl

/-- **The outputs of one rank in each group**, for each key. -/
theorem dynamicCpMergeOutput_eq (hsize : 0 < size) (hgroups : 1 < groups) (sub : ℕ → List ρ)
    (fs : List (String × (ρ → β))) :
    dynamicCpMergeOutput (fun r => fs.map fun f => (f.1, (sub r).map f.2)) (groups * size) dpRank size =
      some (fs.map fun f => (f.1, ((List.range groups).flatMap fun j => sub (j * size + dpRank % size)).map f.2)) := by
  have hne : size ≠ groups * size := by
    intro heq
    have := Nat.mul_lt_mul_of_pos_right hgroups hsize
    omega
  rw [dynamicCpMergeOutput, if_neg hne, mapM_eq_some_iff]
  refine List.forall₂_iff_get.2 ⟨by rw [List.length_zipIdx, List.length_map, List.length_map], fun i hi hi' => ?_⟩
  rw [List.length_map] at hi'
  have hgather : ((List.range (groups * size)).mapM fun r =>
      ((fs.map fun f => (f.1, (sub r).map f.2))[i]?).map Prod.snd) =
      some ((List.range (groups * size)).map fun r => (sub r).map fs[i].2) := by
    rw [mapM_eq_some_iff, List.forall₂_map_right_iff, List.forall₂_same]
    intro r _
    rw [List.getElem?_map, List.getElem?_eq_getElem hi']
    rfl
  simp only [List.get_eq_getElem, List.getElem_zipIdx, List.getElem_map, Nat.zero_add, hgather, Option.bind_eq_bind,
    Option.bind_some, strided_ranks hsize (Nat.lt_of_succ_lt hgroups), List.map_flatMap]
  rfl

end Merge

/-! ## Main theorem -/

section Main

variable {seqLen : ρ → ℕ} {cap dpSize : ℕ} {rows : List ρ}

/-- **Splitting and merging**: every rank gets rows and the size of its group, which the ranks of the group share;
the groups partition the rows, each row fits on the ranks of a group, and the merged outputs of each rank are those
of all rows. -/
def SplitMerge (seqLen : ρ → ℕ) (cap dpSize : ℕ) (rows : List ρ) : Prop :=
  ∃ (size : ℕ) (sub : ℕ → List ρ), size ∣ dpSize ∧
    (∀ r < dpSize, dynamicCpSplitBatch seqLen cap dpSize r ⟨rows, none⟩ = .ok ⟨sub r, some size⟩ ∧ sub r ≠ [] ∧
      sub r = sub (r / size * size)) ∧
    ((List.range (dpSize / size)).flatMap fun j => sub (j * size)) = rows ∧
    (∀ row ∈ rows, (seqLen row + size - 1) / size ≤ cap) ∧
    ∀ (β : Type) (fs : List (String × (ρ → β))), ∀ r < dpSize,
      dynamicCpMergeOutput (fun r => fs.map fun f => (f.1, (sub r).map f.2)) dpSize r size =
        some (fs.map fun f => (f.1, rows.map f.2))

/-- There are enough rows for the ranks and for the groups, and the quotient for the size of the groups is not
rounded down to a power of two. -/
structure Splits (seqLen : ρ → ℕ) (cap dpSize : ℕ) (rows : List ρ) : Prop where
  ranks : dpSize ≤ rows.length
  groups : ∀ maxSeqLen ∈ (rows.map seqLen).max?, localCpSize maxSeqLen cap < dpSize →
    let groups := dpSize / localCpSize maxSeqLen cap
    (groups - 1) * numSeqPerLocalCp rows.length groups < rows.length ∧
      rows.length ≤ groups * numSeqPerLocalCp rows.length groups
  quotient : ∀ maxSeqLen ∈ (rows.map seqLen).max?, ∀ j : ℕ,
    floatDiv 24 maxSeqLen cap = 2 ^ j → maxSeqLen ≤ 2 ^ j * cap

theorem ceil_le_iff {n size : ℕ} (hsize : 0 < size) : (n + size - 1) / size ≤ cap ↔ n ≤ size * cap := by
  rw [← Nat.lt_succ_iff, Nat.div_lt_iff_lt_mul hsize, Nat.succ_mul, Nat.mul_comm cap]
  omega

theorem fit_iff {maxSeqLen size : ℕ} (hmax : (rows.map seqLen).max? = some maxSeqLen) (hsize : 0 < size) :
    (∀ row ∈ rows, (seqLen row + size - 1) / size ≤ cap) ↔ maxSeqLen ≤ size * cap := by
  obtain ⟨hmem, hle⟩ := List.max?_eq_some_iff.1 hmax
  constructor
  · intro hfit
    obtain ⟨row, hrow, rfl⟩ := List.mem_map.1 hmem
    exact (ceil_le_iff hsize).1 (hfit row hrow)
  · intro hlong row hrow
    exact (ceil_le_iff hsize).2 ((hle _ (List.mem_map_of_mem hrow)).trans hlong)

theorem size_dvd {maxSeqLen e : ℕ} (h : localCpSize maxSeqLen cap ≤ 2 ^ e) : localCpSize maxSeqLen cap ∣ 2 ^ e :=
  Nat.pow_dvd_pow 2 ((Nat.pow_le_pow_iff_right Nat.one_lt_two).1 h)

theorem size_le {maxSeqLen : ℕ} (hmax : (rows.map seqLen).max? = some maxSeqLen) (hrows : dpSize ≤ rows.length)
    (hassert : dynamicCpSplitBatch seqLen cap dpSize 0 ⟨rows, none⟩ ≠ .error tooLong) :
    localCpSize maxSeqLen cap ≤ dpSize := by
  by_contra hlarge
  apply hassert
  unfold dynamicCpSplitBatch
  simp only [hmax, if_neg (not_lt.2 hrows), if_pos (not_le.1 hlarge)]

theorem exists_max (h : rows ≠ []) : ∃ maxSeqLen, (rows.map seqLen).max? = some maxSeqLen :=
  Option.isSome_iff_exists.1 (List.isSome_max?_of_ne_nil (mt List.map_eq_nil_iff.1 h))

/-- **Splitting and merging works exactly when** there are enough rows and the size of the groups is not too small. -/
theorem cpSplitMerge_iff {e : ℕ} (hcap : 0 < cap)
    (hassert : ∀ r < 2 ^ e, dynamicCpSplitBatch seqLen cap (2 ^ e) r ⟨rows, none⟩ ≠ .error tooLong) :
    SplitMerge seqLen cap (2 ^ e) rows ↔ Splits seqLen cap (2 ^ e) rows := by
  have hpos : 0 < 2 ^ e := Nat.two_pow_pos e
  constructor
  · rintro ⟨size, sub, -, hsplit, hpartition, hfit, -⟩
    have hranks : 2 ^ e ≤ rows.length := by
      by_contra hfew
      obtain ⟨hrun, hne, -⟩ := hsplit 0 hpos
      unfold dynamicCpSplitBatch at hrun
      cases hmax : (rows.map seqLen).max? with
      | none =>
        rw [hmax] at hrun
        cases hrun
      | some maxSeqLen =>
        rw [hmax] at hrun
        simp only [if_pos (not_le.1 hfew)] at hrun
        cases hrun
    obtain ⟨maxSeqLen, hmax⟩ := @exists_max _ seqLen rows (List.ne_nil_of_length_pos (by omega))
    have hle := size_le hmax hranks (hassert 0 hpos)
    have hcpos := localCpSize_pos maxSeqLen cap
    have heq := fun r => @dynamicCpSplitBatch_eq _ seqLen cap (2 ^ e) r rows maxSeqLen hmax hranks hle
    have hgroup : ∀ r < 2 ^ e, localCpSize maxSeqLen cap < 2 ^ e →
        sub r = part rows (2 ^ e) (localCpSize maxSeqLen cap) r ∧ size = localCpSize maxSeqLen cap := by
      intro r hr hlt
      obtain ⟨hrun, hne, -⟩ := hsplit r hr
      obtain ⟨-, hok, herror⟩ := heq r
      by_cases hnil : part rows (2 ^ e) (localCpSize maxSeqLen cap) r = []
      · rw [herror hlt hnil] at hrun
        cases hrun
      · rw [hok hlt hnil, Except.ok.injEq, Batch.mk.injEq, Option.some.injEq] at hrun
        exact ⟨hrun.1.symm, hrun.2.symm⟩
    have hsize : size = localCpSize maxSeqLen cap := by
      rcases hle.lt_or_eq with hlt | hwhole
      · exact (hgroup 0 hpos hlt).2
      · have hrun := (hsplit 0 hpos).1
        rw [(heq 0).1 hwhole, Except.ok.injEq, Batch.mk.injEq, Option.some.injEq] at hrun
        rw [hwhole]
        exact hrun.2.symm
    subst hsize
    refine ⟨hranks, fun m hm hlt => ?_, fun m hm => ?_⟩
    · rw [hmax, Option.mem_some_iff] at hm
      subst hm
      obtain ⟨groups, hgroups⟩ := size_dvd hle
      have hquot : 2 ^ e / localCpSize maxSeqLen cap = groups := by rw [hgroups, Nat.mul_div_cancel_left _ hcpos]
      have hone : 0 < groups := Nat.pos_of_ne_zero fun h => by rw [h, Nat.mul_zero] at hgroups; omega
      rw [hquot] at hpartition ⊢
      constructor
      · -- the last group gets a row
        have hlast : (groups - 1) * localCpSize maxSeqLen cap < 2 ^ e := by
          rw [hgroups, Nat.mul_comm]
          exact Nat.mul_lt_mul_of_pos_left (by omega) hcpos
        have hne := (hsplit _ hlast).2.1
        rw [(hgroup _ hlast hlt).1, part_ne_nil, hquot, Nat.mul_div_cancel _ hcpos] at hne
        exact hne.2
      · have hfront := @flatMap_part _ (2 ^ e) rows (localCpSize maxSeqLen cap) groups 0 hcpos
        rw [hquot] at hfront
        have hall : ((List.range groups).flatMap fun j => sub (j * localCpSize maxSeqLen cap)) =
            rows.take (groups * numSeqPerLocalCp rows.length groups) := by
          rw [← hfront]
          refine List.flatMap_congr fun j hj => ?_
          refine (hgroup _ ?_ hlt).1
          rw [hgroups, Nat.mul_comm]
          exact Nat.mul_lt_mul_of_pos_left (List.mem_range.1 hj) hcpos
        rw [hpartition] at hall
        exact (List.take_eq_self_iff _).1 hall.symm
    · rw [hmax, Option.mem_some_iff] at hm
      subst hm
      exact (le_localCpSize_mul_iff hcap).1 ((fit_iff hmax hcpos).1 hfit)
  · intro h
    have hne : rows ≠ [] := List.ne_nil_of_length_pos (lt_of_lt_of_le hpos h.ranks)
    obtain ⟨maxSeqLen, hmax⟩ := @exists_max _ seqLen rows hne
    have hle := size_le hmax h.ranks (hassert 0 hpos)
    have hcpos := localCpSize_pos maxSeqLen cap
    have hfit := (fit_iff hmax hcpos).2 ((le_localCpSize_mul_iff hcap).2 (h.quotient _ hmax))
    have heq := fun r => @dynamicCpSplitBatch_eq _ seqLen cap (2 ^ e) r rows maxSeqLen hmax h.ranks hle
    rcases hle.lt_or_eq with hlt | hwhole
    · obtain ⟨hlast, hall⟩ := h.groups _ hmax hlt
      obtain ⟨groups, hgroups⟩ := size_dvd hle
      have hquot : 2 ^ e / localCpSize maxSeqLen cap = groups := by rw [hgroups, Nat.mul_div_cancel_left _ hcpos]
      have hmany : 1 < groups := by
        by_contra hfew
        have := Nat.mul_le_mul_left (localCpSize maxSeqLen cap) (not_lt.1 hfew)
        omega
      rw [hquot] at hlast hall
      have hrows : ∀ k < localCpSize maxSeqLen cap, ((List.range groups).flatMap fun j =>
          part rows (2 ^ e) (localCpSize maxSeqLen cap) (j * localCpSize maxSeqLen cap + k)) = rows := by
        intro k hk
        rw [flatMap_part groups hk, hquot, List.take_of_length_le hall]
      have hcount : 0 < numSeqPerLocalCp rows.length groups := by
        refine Nat.pos_of_ne_zero fun hzero => ?_
        rw [hzero, Nat.mul_zero] at hall
        exact hne (List.length_eq_zero_iff.1 (Nat.le_zero.1 hall))
      refine ⟨localCpSize maxSeqLen cap, part rows (2 ^ e) (localCpSize maxSeqLen cap), size_dvd hle, fun r hr => ?_, ?_,
        hfit, fun β fs r _ => ?_⟩
      · have hpart : part rows (2 ^ e) (localCpSize maxSeqLen cap) r ≠ [] := by
          rw [part_ne_nil, hquot]
          refine ⟨hcount, lt_of_le_of_lt (Nat.mul_le_mul_right _ ?_) hlast⟩
          have hindex : r / localCpSize maxSeqLen cap < groups := Nat.div_lt_of_lt_mul (by rw [← hgroups]; exact hr)
          omega
        refine ⟨(heq r).2.1 hlt hpart, hpart, ?_⟩
        rw [part, part, Nat.mul_div_cancel _ hcpos]
      · rw [hquot]
        exact hrows 0 hcpos
      · rw [hgroups, Nat.mul_comm, dynamicCpMergeOutput_eq hcpos hmany, Nat.mul_comm, ← hgroups,
          hrows _ (Nat.mod_lt _ hcpos)]
    · refine ⟨2 ^ e, fun _ => rows, Nat.dvd_refl _, fun r _ => ⟨(heq r).1 hwhole, hne, rfl⟩, ?_, ?_, fun β fs r _ => ?_⟩
      · rw [Nat.div_self hpos]
        simp
      · rwa [hwhole] at hfit
      · rw [dynamicCpMergeOutput, if_pos rfl]

/-! ## Few sequences -/

theorem localCpSize_one : localCpSize 1 1 = 1 := by
  have hquotient : floatDiv 24 ((1 : ℕ) : ℚ) ((1 : ℕ) : ℚ) = 1 := by
    rw [Nat.cast_one, floatDiv, roundTo_one (by decide), div_one, roundTo_one (by decide)]
  rw [localCpSize, hquotient, Int.ceil_one]
  exact roundUp_pow 0

theorem max_ones (n : ℕ) : ((List.replicate (n + 1) 1).map id).max? = some 1 := by
  rw [List.map_id, List.max?_eq_some_iff]
  exact ⟨List.mem_replicate.2 ⟨n.succ_ne_zero, rfl⟩, fun b hb => (List.eq_of_mem_replicate hb).le⟩

theorem splitMerge_two : SplitMerge id 1 (2 ^ 1) (List.replicate 2 1) := by
  have hsize := localCpSize_one
  have hnum : numSeqPerLocalCp 2 2 = 1 := @numSeqPerLocalCp_eq 2 (by decide) 1
  have hmax := max_ones 1
  refine (cpSplitMerge_iff Nat.one_pos fun r hr herror => ?_).2 ⟨Nat.le_refl 2, fun m hm _ => ?_, fun m hm j _ => ?_⟩
  · obtain ⟨-, hok, hempty⟩ := @dynamicCpSplitBatch_eq _ id 1 (2 ^ 1) r _ 1 hmax (Nat.le_refl 2) (by rw [hsize]; decide)
    by_cases hpart : part (List.replicate 2 1) (2 ^ 1) (localCpSize 1 1) r = []
    · rw [hempty (by rw [hsize]; decide) hpart] at herror
      exact absurd (Except.error.inj herror) (by decide)
    · rw [hok (by rw [hsize]; decide) hpart] at herror
      cases herror
  · rw [hmax, Option.mem_some_iff] at hm
    subst hm
    rw [hsize]
    show (2 - 1) * numSeqPerLocalCp 2 2 < 2 ∧ 2 ≤ 2 * numSeqPerLocalCp 2 2
    rw [hnum]
    decide
  · rw [hmax, Option.mem_some_iff] at hm
    subst hm
    have := Nat.two_pow_pos j
    omega

/-- A sequence on two ranks gets no size of a group, and of five sequences on four ranks the last rank gets none. -/
theorem not_splitMerge : ¬ SplitMerge id 8 2 [5] ∧ ¬ SplitMerge id 1 (2 ^ 2) (List.replicate 5 1) := by
  constructor
  · rintro ⟨size, sub, -, hsplit, -⟩
    obtain ⟨hrun, -⟩ := hsplit 0 (by decide)
    have hkept : dynamicCpSplitBatch id 8 2 0 ⟨[5], none⟩ = .ok ⟨[5], none⟩ := rfl
    rw [hkept, Except.ok.injEq, Batch.mk.injEq] at hrun
    cases hrun.2
  · rintro ⟨size, sub, -, hsplit, -⟩
    obtain ⟨hrun, -⟩ := hsplit 3 (by decide)
    have hsize := localCpSize_one
    have hnum : numSeqPerLocalCp 5 4 = 2 := @numSeqPerLocalCp_eq 5 (by decide) 2
    obtain ⟨-, -, hempty⟩ := @dynamicCpSplitBatch_eq _ id 1 (2 ^ 2) 3 _ 1 (max_ones 4) (by decide) (by rw [hsize]; decide)
    rw [hempty (by rw [hsize]; decide) (by
      rw [hsize]
      show block (3 / 1 * numSeqPerLocalCp 5 4) (numSeqPerLocalCp 5 4) (List.replicate 5 1) = []
      rw [hnum]
      rfl)] at hrun
    cases hrun

end Main

end Opd.Verl.DynamicContextParallel

import Mathlib.Algebra.Order.BigOperators.Group.List
import Mathlib.Algebra.Order.Group.Nat
import Opd.Lib.Patches
import Opd.Verl.ContextParallel

/-!
# Labels of packed batches

The label of a token is the next token of its row. The packed buffer of a rank is rolled by one
slot, and the tokens behind the ends of the chunks, which the rank does not have, are saved row by
row and patched in.

* `saveRow_some`: what a row saves.
* `preprocessThdEngineRolled_some`: the rolled buffer has the next token in each slot, but zero in
  the last slot of a row in front of an empty one.
* `bshdRowRolled_eq`: a padded row always has the next tokens.
* `shifted_iff`: both have the labels exactly when no label is in the slot that an empty row patches.
-/

namespace Opd.Verl.LabelShift

open Lib ThdPacking ContextParallel

variable {α : Type}

/-! ## Nested rows -/

/-- `saved_roll_dict` and `saved_position_roll_dict`. -/
structure Saved (α : Type) where
  tokens : Dict ℤ α
  positions : Dict ℤ ℕ

/-- `saved_roll_dict[k] = a` and `saved_position_roll_dict[k] = position` -/
def Saved.put (saved : Saved α) (k : ℤ) (a : α) (position : ℕ) : Saved α :=
  ⟨saved.tokens.update k fun _ => a, saved.positions.update k fun _ => position⟩

/-- What one row of `preprocess_thd_engine` saves for the roll, after it is packed. -/
def saveRow (s : ParallelState) (zero : α) (dims : List ℕ) (alignSize cpRank : ℕ) (positions : List ℕ)
    (saved : Saved α) (d : List α) (seqlenPadded cuStart : ℕ) : Option (Saved α) :=
  if s.cpSize ≤ 1 then some saved
  else do
    let halfSeqlen := seqlenPadded / s.cpSize / 2
    let startIdx := cuStart / s.cpSize
    let d ← alignRow zero dims alignSize d
    let remainStart := seqlenPadded - halfSeqlen * (cpRank + 1)
    let remainEnd := min (seqlenPadded - halfSeqlen * cpRank) d.length
    let firstLast : ℤ := ((startIdx + halfSeqlen : ℕ) : ℤ) - 1
    let next ← d[(cpRank + 1) * halfSeqlen]?
    let position ← entryAt positions firstLast
    let saved := saved.put firstLast next position
    if remainStart < remainEnd then
      let secondLast : ℤ := ((startIdx + halfSeqlen + (remainEnd - remainStart) : ℕ) : ℤ) - 1
      if remainEnd = d.length then do
        let first ← d[0]?
        some (saved.put secondLast first 0)
      else do
        let next ← d[remainEnd]?
        let position ← entryAt positions secondLast
        some (saved.put secondLast next position)
    else some saved

/-- The rows one by one: each is packed, and saves what the roll needs. -/
def packRowsRolled (s : ParallelState) (zero : α) (dims : List ℕ) (alignSize cpRank : ℕ) :
    List (List α × ℕ × ℕ) → Buffers α → Saved α → Option (Buffers α × Saved α)
  | [], buffers, saved => some (buffers, saved)
  | (d, seqlenPadded, cuStart) :: rows, buffers, saved => do
    let buffers ← packRow s zero dims alignSize cpRank buffers d seqlenPadded cuStart
    let saved ← saveRow s zero dims alignSize cpRank buffers.positions saved d seqlenPadded cuStart
    packRowsRolled s zero dims alignSize cpRank rows buffers saved

/-- `preprocess_thd_engine` on a rank, of a stage that embeds the tokens, with `need_roll`. -/
def preprocessThdEngineRolled (s : ParallelState) (zero : α) (dims : List ℕ) (useFp8Padding : Bool) (cpRank : ℕ)
    (rows : List (List α)) : Option (Packed α) := do
  let l := layout s useFp8Padding (rows.map List.length)
  let params ← l.params
  let total := l.seqlensPadded.sum / s.cpSize
  let (buffers, saved) ← packRowsRolled s zero dims l.alignSize cpRank
    (rows.zip (l.seqlensPadded.zip l.cuSeqlensPadded)) ⟨List.replicate total zero, List.replicate total 0⟩
    ⟨Dict.empty, Dict.empty⟩
  let ids ← patch (buffers.ids.rotate 1) saved.tokens.items
  let positions ← patch (buffers.positions.rotate 1) saved.positions.items
  some ⟨ids, params, positions⟩

/-! ## Padded rows -/

/-- One row of `preprocess_bshd_engine` on a rank, with its mask, with `need_roll`. -/
def bshdRowRolled (s : ParallelState) (zero : α) (cpRank maxSeqlen : ℕ) (row : List α) :
    Option (List α × List Bool) :=
  if s.cpSize ≤ 1 then bshdRow s zero cpRank maxSeqlen row
  else do
    let localMaxSeqlen := maxSeqlen / s.cpSize
    let ids := List.replicate localMaxSeqlen zero
    let mask := List.replicate localMaxSeqlen false
    let seq ← padSeq zero maxSeqlen row
    let chunkLen := maxSeqlen / (2 * s.cpSize)
    let firstStart := cpRank * chunkLen
    let secondStart := (2 * s.cpSize - cpRank - 1) * chunkLen
    let localPos := arange firstStart (firstStart + chunkLen) ++ arange secondStart (secondStart + chunkLen)
    let localSeq ← localPos.mapM fun p => seq[(p + 1) % maxSeqlen]?
    let ids ← assign ids 0 localMaxSeqlen localSeq
    let validFirst := min (row.length - firstStart) chunkLen
    let validSecond := min (row.length - secondStart) chunkLen
    let mask ← markValid mask 0 validFirst
    let mask ← markValid mask chunkLen validSecond
    some (ids, mask)

/-- `preprocess_bshd_engine` on a rank, with `need_roll`. -/
def preprocessBshdEngineRolled (s : ParallelState) (zero : α) (useFp8Padding : Bool) (cpRank : ℕ)
    (rows : List (List α)) : Option (BshdBatch α) := do
  let maxSeqlen ← (rows.map List.length).max?
  let maxSeqlen := bshdSeqlen s useFp8Padding rows.length maxSeqlen
  let batch ← rows.mapM (bshdRowRolled s zero cpRank maxSeqlen)
  let inputIds := batch.map Prod.fst
  let inputIds := if s.cpSize ≤ 1 then inputIds.map fun ids => ids.rotate 1 else inputIds
  some ⟨inputIds, batch.map Prod.snd, List.replicate rows.length (bshdPositions s cpRank maxSeqlen)⟩

/-! ## What a row saves -/

section Row

variable {s : ParallelState} {rank start : ℕ} {d : List α} {positions : List ℕ} {saved : Saved α}

def span (s : ParallelState) (seqlen : ℕ) : ℕ := seqlen + padSize s.alignSize seqlen

def half (s : ParallelState) (seqlen : ℕ) : ℕ := span s seqlen / s.cpSize / 2

structure Saved.Fits (saved : Saved α) (n : ℕ) : Prop where
  tokens : IsPatch saved.tokens n
  keys_eq : saved.positions.keys = saved.tokens.keys

theorem Saved.Fits.isPatch_positions {n : ℕ} (h : saved.Fits n) : IsPatch saved.positions n where
  range := by
    rw [h.keys_eq]
    exact h.tokens.range
  first := by
    rw [h.keys_eq]
    exact h.tokens.first

theorem Saved.Fits.put {n n' : ℕ} {k : ℤ} (h : saved.Fits n) (hn : n ≤ n') (hk : -1 ≤ k ∧ k < n')
    (hfirst : k = -1 → n = 0) (a : α) (position : ℕ) : (saved.put k a position).Fits n' where
  tokens := h.tokens.update hn hk hfirst _
  keys_eq := by
    show (saved.positions.update k _).keys = (saved.tokens.update k _).keys
    rw [Dict.keys_update, Dict.keys_update, h.keys_eq]

theorem alignRow_nil (zero : α) (alignSize : ℕ) (d : List α) :
    alignRow zero [] alignSize d = some (d ++ List.replicate (alignSize - d.length) zero) := by
  unfold alignRow
  simp only [List.prod_nil, Nat.mul_one, if_true]
  by_cases hshort : d.length < alignSize
  · rw [if_pos hshort]
  · rw [if_neg hshort, show alignSize - d.length = 0 by omega, List.replicate_zero, List.append_nil]

theorem isSpan_span (s : ParallelState) (n : ℕ) : IsSpan s n (span s n) where
  le := Nat.le_add_right _ _
  dvd := fun hcp => Nat.dvd_trans (ParallelState.chunks_dvd_alignSize hcp) (dvd_add_padSize s.alignSize_pos n)

/-- The two chunks of a sequence on each rank, of which the first ends before the row with its zeros. -/
theorem half_spec (hcp : 1 < s.cpSize) (hrank : rank < s.cpSize) (n : ℕ) :
    span s n = 2 * s.cpSize * half s n ∧ half s n * (rank + 1) < max n s.alignSize ∧
      2 * (half s n * (rank + 1)) ≤ span s n ∧ (half s n = 0 ↔ n = 0) := by
  obtain ⟨size, hsize⟩ := (isSpan_span s n).dvd hcp
  have hhalf : half s n = size := (@chunks_of_dvd s _ size hsize).2
  have hle : size * (rank + 1) ≤ size * s.cpSize := Nat.mul_le_mul_left _ hrank
  have htwo : 2 * s.cpSize * size = 2 * (size * s.cpSize) := by rw [Nat.mul_assoc, Nat.mul_comm s.cpSize]
  have hpad : padSize s.alignSize n < s.alignSize := Nat.mod_lt _ s.alignSize_pos
  have hspan : span s n = n + padSize s.alignSize n := rfl
  rw [hhalf]
  refine ⟨hsize, ?_, by omega, ?_⟩
  · have := Nat.le_max_left n s.alignSize
    have := Nat.le_max_right n s.alignSize
    omega
  · constructor
    · rintro rfl
      omega
    · rintro rfl
      have hzero : span s 0 = 0 := by rw [span, padSize, Nat.zero_mod, Nat.sub_zero, Nat.mod_self]
      rw [hzero] at hsize
      have := Nat.mul_pos Nat.two_pos s.cpSize_pos
      exact (Nat.mul_eq_zero.1 hsize.symm).resolve_left (by omega)

/-- **What a row saves**: the token behind its first chunk, and if there is a second one, what is behind it. -/
theorem saveRow_eq (hcp : 1 < s.cpSize) (hrank : rank < s.cpSize) (zero : α) {total : ℕ}
    (htotal : positions.length = total) (hslots : start + 2 * half s d.length ≤ total) (hpos : 0 < total) :
    let row := d ++ List.replicate (s.alignSize - d.length) zero
    let remainStart := span s d.length - half s d.length * (rank + 1)
    let remainEnd := min (span s d.length - half s d.length * rank) row.length
    ∃ next position, row[(rank + 1) * half s d.length]? = some next ∧
      (remainEnd ≤ remainStart ∧ saveRow s zero [] s.alignSize rank positions saved d (span s d.length)
          (s.cpSize * start) = some (saved.put (((start + half s d.length : ℕ) : ℤ) - 1) next position) ∨
        remainStart < remainEnd ∧ ∃ last lastPosition, (remainEnd < row.length → row[remainEnd]? = some last) ∧
          saveRow s zero [] s.alignSize rank positions saved d (span s d.length) (s.cpSize * start) =
            some ((saved.put (((start + half s d.length : ℕ) : ℤ) - 1) next position).put
              (((start + half s d.length + (remainEnd - remainStart) : ℕ) : ℤ) - 1) last lastPosition)) := by
  intro row remainStart remainEnd
  obtain ⟨hspan, hfirst, htwo, -⟩ := @half_spec s rank hcp hrank d.length
  have hlength : row.length = max d.length s.alignSize := by
    rw [List.length_append, List.length_replicate]
    omega
  have hsucc : half s d.length * (rank + 1) = half s d.length * rank + half s d.length := Nat.mul_succ _ rank
  have hcomm : (rank + 1) * half s d.length = half s d.length * (rank + 1) := Nat.mul_comm _ _
  have hstart : s.cpSize * start / s.cpSize = start := Nat.mul_div_cancel_left _ s.cpSize_pos
  obtain ⟨next, hnext⟩ : ∃ next, row[(rank + 1) * half s d.length]? = some next :=
    ⟨_, List.getElem?_eq_getElem (by omega)⟩
  obtain ⟨position, hposition⟩ := @exists_entryAt ℕ positions (((start + half s d.length : ℕ) : ℤ) - 1) (by omega)
    (by omega)
  have hhalf : span s d.length / s.cpSize / 2 = half s d.length := rfl
  have hrow : d ++ List.replicate (s.alignSize - d.length) zero = row := rfl
  have hremainStart : span s d.length - half s d.length * (rank + 1) = remainStart := rfl
  have hremainEnd : min (span s d.length - half s d.length * rank) row.length = remainEnd := rfl
  refine ⟨next, position, hnext, ?_⟩
  rw [saveRow, if_neg (by omega)]
  simp only [alignRow_nil, hstart, hhalf, hrow, hnext, hposition, hremainStart, hremainEnd, Option.bind_eq_bind,
    Option.bind_some]
  by_cases hremain : remainStart < remainEnd
  · refine .inr ⟨hremain, ?_⟩
    by_cases hend : remainEnd = row.length
    · obtain ⟨first, hzero⟩ : ∃ first, row[0]? = some first := ⟨_, List.getElem?_eq_getElem (by omega)⟩
      refine ⟨first, 0, fun hlt => absurd hend (Nat.ne_of_lt hlt), ?_⟩
      rw [if_pos hremain, if_pos hend, hzero, Option.bind_some]
    · have hlt : remainEnd < row.length := by omega
      obtain ⟨last, hentry⟩ : ∃ last, row[remainEnd]? = some last := ⟨_, List.getElem?_eq_getElem hlt⟩
      obtain ⟨lastPosition, hlast⟩ := @exists_entryAt ℕ positions
        (((start + half s d.length + (remainEnd - remainStart) : ℕ) : ℤ) - 1) (by omega) (by omega)
      refine ⟨last, lastPosition, fun _ => hentry, ?_⟩
      rw [if_pos hremain, if_neg hend, hentry, Option.bind_some, hlast, Option.bind_some]
  · refine .inl ⟨by omega, ?_⟩
    rw [if_neg hremain]

/-- The slots of a sequence on a rank, and how its position moves from one to the next. -/
theorem position_spec (hcp : 1 < s.cpSize) (hrank : rank < s.cpSize) (n slot : ℕ) :
    span s n / s.cpSize = 2 * half s n ∧
      (slot + 1 = half s n → s.position (span s n) rank slot + 1 = (rank + 1) * half s n) ∧
      (half s n ≤ slot →
        s.position (span s n) rank slot = span s n - half s n * (rank + 1) + (slot - half s n)) ∧
      (slot + 1 ≠ half s n → s.position (span s n) rank (slot + 1) = s.position (span s n) rank slot + 1) := by
  obtain ⟨hspan, -, htwo, -⟩ := @half_spec s rank hcp hrank n
  have hback : (2 * s.cpSize - 1 - rank) * half s n = span s n - half s n * (rank + 1) := by
    rw [Nat.sub_sub, Nat.sub_mul, Nat.add_comm 1 rank, Nat.mul_comm (rank + 1), ← hspan]
  have hsucc : (rank + 1) * half s n = rank * half s n + half s n := Nat.succ_mul rank _
  have hposition : s.position (span s n) rank = zigzag s.cpSize (half s n) rank := by
    rw [ParallelState.position, if_neg (by omega), half]
  rw [hposition]
  refine ⟨(chunks_of_dvd hspan).1, ?_, ?_, ?_⟩
  · intro hend
    rw [zigzag, if_pos (by omega)]
    omega
  · intro hsecond
    rw [zigzag, if_neg (by omega), hback]
  · intro hend
    unfold zigzag
    by_cases hfirst : slot < half s n
    · rw [if_pos hfirst, if_pos (by omega), Nat.add_assoc]
    · rw [if_neg hfirst, if_neg (by omega)]
      omega

/-- **The next tokens of a row**, saved or in the next slot. An empty row saves zero for the slot before it. -/
theorem saveRow_some (hrank : rank < s.cpSize) (zero : α) (hsaved : saved.Fits start) {part : List α}
    (hpart : Holds (s.position (span s d.length) rank) (span s d.length / s.cpSize) d part)
    (hslots : start + span s d.length / s.cpSize ≤ positions.length) (hpos : 1 < s.cpSize → 0 < positions.length) :
    ∃ saved', saveRow s zero [] s.alignSize rank positions saved d (span s d.length) (s.cpSize * start) = some saved' ∧
      saved'.Fits (start + span s d.length / s.cpSize) ∧
      (∀ k : ℤ, k < start - 1 → saved'.tokens.get? k = saved.tokens.get? k) ∧
      saved'.tokens.get? (start - 1) =
        (if 1 < s.cpSize ∧ d.length = 0 then some zero else saved.tokens.get? (start - 1)) ∧
      ∀ slot < span s d.length / s.cpSize, s.position (span s d.length) rank slot + 1 < d.length →
        (saved'.tokens.get? ((start + slot : ℕ) : ℤ)).or part[slot + 1]? =
          d[s.position (span s d.length) rank slot + 1]? := by
  have hnone : ∀ slot : ℕ, saved.tokens.get? ((start + slot : ℕ) : ℤ) = none := by
    intro slot
    rw [Dict.get?_eq_none]
    intro hkey
    have := (hsaved.tokens.range _ hkey).2
    omega
  by_cases hcp : s.cpSize ≤ 1
  · have hone : s.cpSize = 1 := by have := s.cpSize_pos; omega
    rw [ParallelState.position, if_pos hcp, hone, Nat.div_one] at hpart ⊢
    refine ⟨saved, by rw [saveRow, if_pos hcp], ?_, fun _ _ => rfl, by rw [if_neg (by omega)], ?_⟩
    · refine ⟨⟨fun k hk => ?_, hsaved.tokens.first⟩, hsaved.keys_eq⟩
      have := hsaved.tokens.range k hk
      omega
    · intro slot hslot hlt
      have hle := (isSpan_span s d.length).le
      rw [id] at hlt ⊢
      rw [hnone, Option.none_or]
      exact hpart.entry (slot + 1) (by omega) hlt
  · have hcp' : 1 < s.cpSize := by omega
    obtain ⟨hspan, hfirst, htwo, hzero⟩ := @half_spec s rank hcp' hrank d.length
    have hsize : span s d.length / s.cpSize = 2 * half s d.length := (chunks_of_dvd hspan).1
    have hsucc : half s d.length * (rank + 1) = half s d.length * rank + half s d.length := Nat.mul_succ _ rank
    rw [hsize] at hpart hslots ⊢
    -- the token in the next slot, but at the ends of the chunks
    have hinner : ∀ slot, slot + 1 ≠ half s d.length → slot + 1 < 2 * half s d.length →
        s.position (span s d.length) rank slot + 1 < d.length →
        part[slot + 1]? = d[s.position (span s d.length) rank slot + 1]? := by
      intro slot hend hslot hlt
      have hnext := (@position_spec s rank hcp' hrank d.length slot).2.2.2 hend
      rw [← hnext] at hlt ⊢
      exact hpart.entry (slot + 1) hslot hlt
    have hrow : ∀ i < d.length, (d ++ List.replicate (s.alignSize - d.length) zero)[i]? = d[i]? :=
      fun i hi => List.getElem?_append_left hi
    have hlength : (d ++ List.replicate (s.alignSize - d.length) zero).length = max d.length s.alignSize := by
      rw [List.length_append, List.length_replicate]
      omega
    obtain ⟨next, position, hnext, hsave⟩ := @saveRow_eq _ s rank start d positions saved hcp' hrank zero _ rfl hslots
      (hpos hcp')
    have hfits := @Saved.Fits.put _ saved start (start + 2 * half s d.length) (((start + half s d.length : ℕ) : ℤ) - 1)
      hsaved (by omega) (by omega) (by omega) next position
    have hget : ∀ k, (saved.put (((start + half s d.length : ℕ) : ℤ) - 1) next position).tokens.get? k =
        if k = ((start + half s d.length : ℕ) : ℤ) - 1 then some next else saved.tokens.get? k :=
      fun k => Dict.get?_update _ _ _ _
    have hempty : d.length = 0 → some next = some zero := by
      intro hd
      rw [← hnext, hzero.2 hd, Nat.mul_zero, List.length_eq_zero_iff.1 hd, List.nil_append]
      exact List.getElem?_replicate_of_lt (by rw [List.length_nil]; exact s.alignSize_pos)
    rcases hsave with ⟨hremain, hsave⟩ | ⟨hremain, last, lastPosition, hlast, hsave⟩
    · refine ⟨_, hsave, hfits, ?_, ?_, ?_⟩
      · intro k hk
        rw [hget, if_neg (by omega)]
      · rw [hget]
        by_cases hd : d.length = 0
        · rw [if_pos (by rw [hzero.2 hd]; rfl), if_pos ⟨hcp', hd⟩, hempty hd]
        · have := mt hzero.1 hd
          rw [if_neg (by omega), if_neg (by omega)]
      · intro slot hslot hlt
        obtain ⟨-, hend, hsecond, -⟩ := @position_spec s rank hcp' hrank d.length slot
        rw [hget]
        by_cases hlastSlot : slot + 1 = half s d.length
        · rw [if_pos (by omega), Option.some_or, hend hlastSlot, ← hrow _ (by rw [← hend hlastSlot]; exact hlt), hnext]
        · rw [if_neg (by omega), hnone, Option.none_or]
          refine hinner slot hlastSlot ?_ hlt
          by_contra hbound
          have := hsecond (by omega)
          omega
    · generalize hremainEnd : min (span s d.length - half s d.length * rank)
        (d ++ List.replicate (s.alignSize - d.length) zero).length = remainEnd at hremain hlast hsave
      generalize hremainStart : span s d.length - half s d.length * (rank + 1) = remainStart at hremain hsave
      have hd : d.length ≠ 0 := by
        intro hd
        have := hzero.2 hd
        omega
      refine ⟨_, hsave, hfits.put (Nat.le_refl _) (by omega) (by omega) last lastPosition, ?_, ?_, ?_⟩
      · intro k hk
        rw [Saved.put, Dict.get?_update_of_ne _ _ (by omega), hget, if_neg (by omega)]
      · rw [Saved.put, Dict.get?_update_of_ne _ _ (by omega), hget, if_neg (by omega), if_neg (by omega)]
      · intro slot hslot hlt
        obtain ⟨-, hend, hsecond, -⟩ := @position_spec s rank hcp' hrank d.length slot
        rw [hremainStart] at hsecond
        by_cases hlastSlot : slot + 1 = half s d.length
        · rw [Saved.put, Dict.get?_update_of_ne _ _ (by omega), hget, if_pos (by omega), Option.some_or, hend hlastSlot,
            ← hrow _ (by rw [← hend hlastSlot]; exact hlt), hnext]
        · by_cases hbound : slot + 1 = 2 * half s d.length
          · -- the label of the last slot is behind the second chunk, which is full
            have hposition := hsecond (by omega)
            have hbehind : s.position (span s d.length) rank slot + 1 = remainEnd := by omega
            rw [Saved.put, Dict.get?_update, if_pos (by omega), Option.some_or, hbehind, ← hrow _ (by omega),
              hlast (by omega)]
          · rw [Saved.put, Dict.get?_update_of_ne _ _ ?_, hget, if_neg (by omega), hnone, Option.none_or]
            · exact hinner slot hlastSlot (by omega) hlt
            · intro hkey
              have := hsecond (by omega)
              omega

end Row

/-! ## All rows -/

section Rows

variable {s : ParallelState} {rank : ℕ} {rows : List (List α)}

def size (s : ParallelState) (row : List α) : ℕ := span s row.length / s.cpSize

/-- The slots have the next tokens of the rows, but zero in the last slot of a row in front of an empty one. -/
def HasNext (s : ParallelState) (zero : α) (rank : ℕ) (entry : ℕ → Option α) : ℕ → List (List α) → Prop
  | _, [] => True
  | start, row :: rows =>
    (∀ slot < size s row, s.position (span s row.length) rank slot + 1 < row.length →
      entry (start + slot) =
        if 1 < s.cpSize ∧ slot + 1 = size s row ∧ rows.head?.map List.length = some 0 then some zero
        else row[s.position (span s row.length) rank slot + 1]?) ∧
      HasNext s zero rank entry (start + size s row) rows

theorem HasNext.imp {zero : α} {entry entry' : ℕ → Option α} {start : ℕ} (h : HasNext s zero rank entry start rows)
    (himp : ∀ k a, entry k = some a → entry' k = some a) : HasNext s zero rank entry' start rows := by
  induction rows generalizing start with
  | nil => trivial
  | cons row rows ih =>
    refine ⟨fun slot hslot hlt => ?_, ih h.2⟩
    have hentry := h.1 slot hslot hlt
    rw [List.getElem?_eq_getElem hlt] at hentry ⊢
    rw [← apply_ite some] at hentry ⊢
    exact himp _ _ hentry

theorem chunkFits_span (hrank : rank < s.cpSize) (n : ℕ) : ChunkFits s [] s.alignSize rank n (span s n) := by
  by_cases hcp : s.cpSize ≤ 1
  · exact .inl hcp
  · obtain ⟨-, hfirst, -, -⟩ := @half_spec s rank (by omega) hrank n
    have hsucc : half s n * (rank + 1) = half s n * rank + half s n := Nat.mul_succ _ rank
    refine .inr ⟨.inl rfl, .inl ?_⟩
    show min (half s n) (rowLength [] s.alignSize n - half s n * rank) = half s n
    rw [rowLength, if_pos rfl]
    omega

/-- **All rows**: what they save, and the slots that are filled. -/
theorem packRowsRolled_some (hrank : rank < s.cpSize) (zero : α) (rows : List (List α)) {start total : ℕ} {ids : List α}
    {positions : List ℕ} {saved : Saved α} (hids : ids.length = start) (hpositions : positions.length = start)
    (htotal : start + (rows.map (size s)).sum = total) (hpos : 1 < s.cpSize → 0 < total) (hsaved : saved.Fits start) :
    ∃ ids' positions' saved', packRowsRolled s zero [] s.alignSize rank
        (rows.zip ((rows.map fun row => span s row.length).zip
          (s.cpSize * start :: cumsum (s.cpSize * start) (rows.map fun row => span s row.length))))
        ⟨ids ++ List.replicate (total - start) zero, positions ++ List.replicate (total - start) 0⟩ saved =
        some (⟨ids ++ ids', positions ++ positions'⟩, saved') ∧
      (ids ++ ids').length = total ∧ (positions ++ positions').length = total ∧ saved'.Fits total ∧
      (∀ k : ℤ, k < start - 1 → saved'.tokens.get? k = saved.tokens.get? k) ∧
      saved'.tokens.get? (start - 1) = (if 1 < s.cpSize ∧ rows.head?.map List.length = some 0 then some zero
        else saved.tokens.get? (start - 1)) ∧
      HasNext s zero rank (fun k => (saved'.tokens.get? (k : ℤ)).or (ids ++ ids')[k + 1]?) start rows ∧
      (s.cpSize ≤ 1 → saved' = saved) := by
  induction rows generalizing start ids positions saved with
  | nil =>
    rw [List.map_nil, List.sum_nil, Nat.add_zero] at htotal
    subst htotal
    refine ⟨[], [], saved, ?_, by rw [List.append_nil, hids], by rw [List.append_nil, hpositions], hsaved,
      fun _ _ => rfl, ?_, trivial, fun _ => rfl⟩
    · rw [Nat.sub_self]
      rfl
    · rw [if_neg (by rintro ⟨-, h⟩; cases h)]
  | cons row rows ih =>
    rw [List.map_cons, List.sum_cons] at htotal
    have hsize : span s row.length / s.cpSize = size s row := rfl
    have hspan := isSpan_span s row.length
    obtain ⟨part, places, hrow, hpart, hplaces⟩ := @packRow_some _ s zero [] s.alignSize rank row (span s row.length)
      (s.cpSize * start) ids (List.replicate (total - (start + size s row)) zero) positions
      (List.replicate (total - (start + size s row)) 0) hspan hrank (by rw [hids]) (by rw [hids, hpositions])
      (chunkFits_span hrank row.length)
    rw [hsize] at hrow
    have hpartLength : part.length = size s row := hpart.length_eq
    have hplacesLength : places.length = size s row := hplaces.length_eq
    have hbuffer : (positions ++ (places ++ List.replicate (total - (start + size s row)) 0)).length = total := by
      rw [List.length_append, List.length_append, List.length_replicate]
      omega
    obtain ⟨next, hsave, hnext, hframe, hbefore, hentries⟩ := @saveRow_some _ s rank start row
      (positions ++ (places ++ List.replicate (total - (start + size s row)) 0)) saved hrank zero hsaved part hpart
      (by rw [hbuffer, hsize]; omega) (by rw [hbuffer]; exact hpos)
    rw [hsize] at hnext hentries
    have hstop : s.cpSize * start + span s row.length = s.cpSize * (start + size s row) := by
      rw [Nat.mul_add, size, Nat.mul_div_cancel' hspan.cpSize_dvd]
    obtain ⟨ids', positions', saved', hrun, hidsLength, hpositionsLength, hfits, hframe', hbefore', hentries', hsame⟩ :=
      @ih (start + size s row) (ids ++ part) (positions ++ places) next (by rw [List.length_append, hids, hpartLength])
        (by rw [List.length_append, hpositions, hplacesLength]) (by omega) hnext
    rw [List.append_assoc] at hidsLength hpositionsLength hentries'
    have hslots : ∀ {γ : Type} (value : γ), List.replicate (total - start) value =
        List.replicate (size s row) value ++ List.replicate (total - (start + size s row)) value := by
      intro γ value
      rw [List.replicate_append_replicate]
      congr 1
      omega
    refine ⟨part ++ ids', places ++ positions', saved', ?_, hidsLength, hpositionsLength, hfits, fun k hk => ?_, ?_,
      ⟨fun slot hslot hlt => ?_, hentries'⟩, fun hcp => ?_⟩
    · rw [List.append_assoc, List.append_assoc, List.append_assoc, List.append_assoc] at hrun
      rw [List.map_cons, cumsum, List.zip_cons_cons, List.zip_cons_cons, packRowsRolled, hslots, hslots, hrow,
        Option.bind_eq_bind, Option.bind_some, hsave, Option.bind_eq_bind, Option.bind_some, hstop, hrun]
    · rw [hframe' k (by omega), hframe k hk]
    · simp only [List.head?_cons, Option.map_some, Option.some.injEq]
      by_cases hzero : size s row = 0
      · -- an empty row, or none behind it, saves for the slot before it
        have hempty : row.length = 0 := by
          have hle := hspan.le
          rw [← Nat.mul_div_cancel' hspan.cpSize_dvd, hsize, hzero, Nat.mul_zero] at hle
          omega
        rw [hzero, Nat.add_zero, hbefore] at hbefore'
        rw [hbefore']
        by_cases hcp : 1 < s.cpSize ∧ row.length = 0
        · rw [if_pos hcp, ite_self]
        · have hone : ¬ 1 < s.cpSize := fun h => hcp ⟨h, hempty⟩
          rw [if_neg hcp, if_neg fun h => hone h.1]
      · rw [hframe' _ (by omega), hbefore]
    · have hentry := hentries slot hslot hlt
      have hpartEntry : (ids ++ (part ++ ids'))[start + slot + 1]? = (part ++ ids')[slot + 1]? := by
        rw [List.getElem?_append_right (by omega)]
        congr 1
        omega
      simp only [hpartEntry]
      by_cases hend : slot + 1 = size s row
      · have hkey : ((start + slot : ℕ) : ℤ) = ((start + size s row : ℕ) : ℤ) - 1 := by omega
        rw [← hkey] at hbefore'
        rw [List.getElem?_eq_none (by omega), Option.or_none] at hentry
        rw [hbefore']
        by_cases hnextEmpty : 1 < s.cpSize ∧ rows.head?.map List.length = some 0
        · rw [if_pos hnextEmpty, if_pos ⟨hnextEmpty.1, hend, hnextEmpty.2⟩, Option.some_or]
        · rw [if_neg hnextEmpty, if_neg fun h => hnextEmpty ⟨h.1, h.2.2⟩, hentry, List.getElem?_eq_getElem hlt,
            Option.some_or]
      · rw [if_neg fun h => hend h.2.1, hframe' _ (by omega), List.getElem?_append_left (by omega), hentry]
    · rw [saveRow, if_pos hcp, Option.some.injEq] at hsave
      rw [hsame hcp, hsave]

end Rows

/-! ## Padded rows have the next tokens -/

section Bshd

variable {s : ParallelState} {rank maxSeqlen : ℕ} {row : List α}

theorem holds_rotate {n : ℕ} {part : List α} (h : Holds id n row part) (hle : row.length ≤ n) :
    Holds id n row.tail (part.rotate 1) where
  length_eq := by rw [List.length_rotate, h.length_eq]
  entry := by
    intro slot hslot hlt
    rw [List.length_tail, id] at hlt
    rw [List.getElem?_rotate (by rw [h.length_eq]; exact hslot), h.length_eq, Nat.mod_eq_of_lt (by omega),
      List.getElem?_tail]
    exact h.entry (slot + 1) (by omega) (by rw [id]; omega)

/-- **Each padded row** fills its slots, and if it is rolled, with the next tokens. -/
theorem bshdRowRolled_eq (hspan : IsSpan s row.length maxSeqlen) (hrank : rank < s.cpSize) (zero : α) :
    ∃ unrolled rolled, bshdRow s zero rank maxSeqlen row = some unrolled ∧
      bshdRowRolled s zero rank maxSeqlen row = some rolled ∧ rolled.2 = unrolled.2 ∧
      Holds (s.position maxSeqlen rank) (maxSeqlen / s.cpSize) row unrolled.1 ∧
      Holds (s.position maxSeqlen rank) (maxSeqlen / s.cpSize) row.tail
        (if s.cpSize ≤ 1 then rolled.1.rotate 1 else rolled.1) := by
  obtain ⟨out, hout, hheld, -⟩ := bshdRow_eq hspan hrank zero
  have hle := hspan.le
  obtain ⟨hone, hsize, hposition⟩ | ⟨hseveral, half, hmax, -, -, hchunkLen, -⟩ := hspan.cases
  · have hcp := Nat.le_of_eq hone
    refine ⟨out, out, hout, by rw [bshdRowRolled, if_pos hcp, hout], rfl, hheld, ?_⟩
    rw [hposition, hsize] at hheld ⊢
    rw [if_pos hcp]
    exact holds_rotate hheld hle
  · have hpositions := bshdPositions_holds hspan.dvd hrank
    have hcp : ¬ s.cpSize ≤ 1 := by omega
    have hsucc : (rank + 1) * half = rank * half + half := Nat.succ_mul rank half
    have hends : (rank + 1) * half ≤ maxSeqlen := by
      rw [hmax]
      exact Nat.mul_le_mul_right _ (by omega)
    have hsecond : (2 * s.cpSize - rank - 1) * half = maxSeqlen - (rank + 1) * half := by
      rw [Nat.sub_sub, Nat.sub_mul, hmax]
    -- the positions that are looked up are those of the slots
    have hlocal : bshdPositions s rank maxSeqlen = arange (rank * half) (rank * half + half) ++
        arange ((2 * s.cpSize - rank - 1) * half) ((2 * s.cpSize - rank - 1) * half + half) := by
      rw [bshdPositions, if_neg hcp]
      simp only [hchunkLen]
      rw [hsecond, hsucc, show maxSeqlen - (rank * half + half) + half = maxSeqlen - rank * half by omega]
    obtain ⟨seq, hseq, hlength, hpad⟩ := padSeq_some hle zero
    have hbound : ∀ p ∈ bshdPositions s rank maxSeqlen, p < maxSeqlen := by
      intro p hp
      rw [hlocal, List.mem_append, arange, arange, List.mem_range'_1, List.mem_range'_1] at hp
      omega
    obtain ⟨localSeq, hlocalSeq⟩ : ∃ localSeq, ((bshdPositions s rank maxSeqlen).mapM fun p =>
        seq[(p + 1) % maxSeqlen]?) = some localSeq := by
      refine exists_mapM fun p hp => ⟨_, List.getElem?_eq_getElem ?_⟩
      rw [hlength]
      exact Nat.mod_lt _ (Nat.lt_of_le_of_lt (Nat.zero_le p) (hbound p hp))
    have hentries := mapM_eq_some_iff.1 hlocalSeq
    have hlocalLength : localSeq.length = maxSeqlen / s.cpSize := by rw [← hentries.length_eq, hpositions.length_eq]
    have hput := @assign_middle _ [] (List.replicate (maxSeqlen / s.cpSize) zero) [] localSeq 0 (maxSeqlen / s.cpSize)
      rfl (by rw [List.length_replicate, Nat.zero_add]) (by rw [hlocalLength, List.length_replicate])
    rw [List.nil_append, List.append_nil, List.nil_append, List.append_nil] at hput
    rw [hlocal] at hlocalSeq
    -- the masks are those of the row that is not rolled
    have hrun := hout
    unfold bshdRow at hrun
    simp only [if_neg hcp, if_pos hseveral, hchunkLen, hseq, Option.bind_eq_bind,
      Option.bind_some] at hrun
    obtain ⟨ids, -, hrun⟩ := Option.bind_eq_some_iff.1 hrun
    obtain ⟨mask, hmask, hrun⟩ := Option.bind_eq_some_iff.1 hrun
    obtain ⟨mask', hmask', hrun⟩ := Option.bind_eq_some_iff.1 hrun
    obtain rfl := Option.some.inj hrun
    refine ⟨(ids, mask'), (localSeq, mask'), hout, ?_, rfl, hheld, ?_⟩
    · rw [bshdRowRolled, if_neg hcp]
      simp only [hchunkLen, hseq, hlocalSeq, hput, hmask, hmask', Option.bind_eq_bind, Option.bind_some]
    · rw [if_neg hcp]
      refine ⟨hlocalLength, fun slot hslot hlt => ?_⟩
      rw [List.length_tail] at hlt
      have hposition := hpositions.entry slot hslot (by rw [List.length_range]; omega)
      rw [List.getElem?_range (by omega)] at hposition
      obtain ⟨a, ha, hnext⟩ := getElem?_of_forall₂ hentries hposition
      rw [Nat.mod_eq_of_lt (by omega), hpad _ (by omega)] at hnext
      rw [ha, ← hnext, List.getElem?_tail]

end Bshd

/-! ## Labels -/

section Labels

variable {s : ParallelState} {zero : α} {rank : ℕ} {rows : List (List α)}

/-- The label behind the second chunk of a row on a rank, if there is one, is zero. -/
def ZeroBehind (s : ParallelState) (zero : α) (rank : ℕ) (row : List α) : Prop :=
  ∀ token ∈ row[span s row.length - half s row.length * rank]?, token = zero

theorem held_tail_iff (hrank : rank < s.cpSize) {row out : List α} {rows : List (List α)} {start : ℕ}
    (hout : start + size s row ≤ out.length) (h : ∀ slot < size s row,
      s.position (span s row.length) rank slot + 1 < row.length → out[start + slot]? =
        if 1 < s.cpSize ∧ slot + 1 = size s row ∧ rows.head?.map List.length = some 0 then some zero
        else row[s.position (span s row.length) rank slot + 1]?) :
    Held s rank row.tail (s.cpSize * start) (s.cpSize * start + span s row.length) out ↔
      (1 < s.cpSize ∧ rows.head?.map List.length = some 0 → ZeroBehind s zero rank row) := by
  have hstart : s.cpSize * start / s.cpSize = start := Nat.mul_div_cancel_left _ s.cpSize_pos
  have hsize : span s row.length / s.cpSize = size s row := rfl
  unfold Held
  rw [hstart, Nat.add_sub_cancel_left, hsize]
  constructor
  · rintro hheld ⟨hcp, hnext⟩ token htoken
    have hlt := (List.getElem?_eq_some_iff.1 htoken).1
    obtain ⟨-, -, -, hzero⟩ := @half_spec s rank hcp hrank row.length
    have hhalf : 0 < half s row.length := Nat.pos_of_ne_zero (mt hzero.1 (by omega))
    obtain ⟨hslots, -, hsecond, -⟩ := @position_spec s rank hcp hrank row.length (2 * half s row.length - 1)
    obtain ⟨-, -, htwo, -⟩ := @half_spec s rank hcp hrank row.length
    have hsucc : half s row.length * (rank + 1) = half s row.length * rank + half s row.length := Nat.mul_succ _ rank
    have hposition := hsecond (by omega)
    rw [hsize] at hslots
    have hlabel : s.position (span s row.length) rank (2 * half s row.length - 1) + 1 =
        span s row.length - half s row.length * rank := by omega
    have hentry := hheld.entry (2 * half s row.length - 1) (by omega) (by rw [List.length_tail]; omega)
    rw [getElem?_block (by omega), h _ (by omega) (by omega), if_pos ⟨hcp, by omega, hnext⟩, List.getElem?_tail, hlabel,
      htoken] at hentry
    exact (Option.some.inj hentry).symm
  · intro hzero
    refine ⟨length_block hout, fun slot hslot hlt => ?_⟩
    rw [List.length_tail] at hlt
    rw [getElem?_block hslot, h slot hslot (by omega), List.getElem?_tail]
    by_cases hnext : 1 < s.cpSize ∧ slot + 1 = size s row ∧ rows.head?.map List.length = some 0
    · obtain ⟨hcp, hend, hempty⟩ := hnext
      obtain ⟨hslots, -, hsecond, -⟩ := @position_spec s rank hcp hrank row.length slot
      obtain ⟨-, -, htwo, hhalf⟩ := @half_spec s rank hcp hrank row.length
      have hpos := mt hhalf.1 (by omega)
      have hsucc : half s row.length * (rank + 1) = half s row.length * rank + half s row.length := Nat.mul_succ _ rank
      rw [hsize] at hslots
      have hposition := hsecond (by omega)
      have hlabel : s.position (span s row.length) rank slot + 1 = span s row.length - half s row.length * rank := by
        omega
      have hget := List.getElem?_eq_getElem (by omega : s.position (span s row.length) rank slot + 1 < row.length)
      rw [if_pos ⟨hcp, hend, hempty⟩, hget, Option.some.injEq]
      exact (hzero ⟨hcp, hempty⟩ _ (by rw [← hlabel]; exact hget)).symm
    · rw [if_neg hnext]

/-- **All rows have their labels** exactly when no label is lost to an empty row. -/
theorem held_tails_iff (hrank : rank < s.cpSize) {out : List α} {start : ℕ}
    (hout : start + (rows.map (size s)).sum ≤ out.length)
    (h : HasNext s zero rank (fun k => out[k]?) start rows) :
    List.Forall₂ (fun row p => Held s rank row.tail p.1 p.2 out) rows
        ((s.cpSize * start :: cumsum (s.cpSize * start) (rows.map fun row => span s row.length)).zip
          (cumsum (s.cpSize * start) (rows.map fun row => span s row.length))) ↔
      (1 < s.cpSize → rows.IsChain fun row next => next.length = 0 → ZeroBehind s zero rank row) := by
  induction rows generalizing start with
  | nil => exact ⟨fun _ _ => List.IsChain.nil, fun _ => List.Forall₂.nil⟩
  | cons row rows ih =>
    rw [List.map_cons, List.sum_cons] at hout
    obtain ⟨hrow, hrest⟩ := h
    have hstop : s.cpSize * start + span s row.length = s.cpSize * (start + size s row) := by
      rw [Nat.mul_add, size, Nat.mul_div_cancel' (isSpan_span s row.length).cpSize_dvd]
    rw [List.map_cons, cumsum, List.zip_cons_cons, List.forall₂_cons, held_tail_iff hrank (by omega) hrow, hstop,
      ih (by omega) hrest, List.isChain_cons]
    constructor
    · rintro ⟨hfirst, hrest⟩ hcp
      refine ⟨fun next hnext hempty => hfirst ⟨hcp, ?_⟩, hrest hcp⟩
      rw [Option.mem_def.1 hnext, Option.map_some, hempty]
    · intro hall
      refine ⟨?_, fun hcp => (hall hcp).2⟩
      rintro ⟨hcp, hnext⟩
      obtain ⟨next, hhead, hempty⟩ := Option.map_eq_some_iff.1 hnext
      exact (hall hcp).1 next hhead hempty

end Labels

/-! ## Main theorem -/

section Main

variable {s : ParallelState} {zero : α} {rank : ℕ} {rows : List (List α)}

theorem layout_eq (s : ParallelState) (rows : List (List α)) :
    (layout s false (rows.map List.length)).seqlensPadded = rows.map (fun row => span s row.length) ∧
      (layout s false (rows.map List.length)).cuSeqlensPadded =
        0 :: cumsum 0 (rows.map fun row => span s row.length) ∧
      (layout s false (rows.map List.length)).alignSize = s.alignSize := by
  have hmap : (rows.map List.length).map (fun n => n + padSize s.alignSize n) = rows.map fun row => span s row.length :=
    List.map_map
  refine ⟨hmap, ?_, rfl⟩
  show 0 :: cumsum 0 ((rows.map List.length).map fun n => n + padSize s.alignSize n) = _
  rw [hmap]

theorem slots_eq (s : ParallelState) (rows : List (List α)) :
    (rows.map fun row => span s row.length).sum / s.cpSize = (rows.map (size s)).sum := by
  rw [@sum_div_cpSize _ s rows, slots, List.map_map]
  · rfl
  · rw [List.forall₂_map_right_iff, List.forall₂_same]
    exact fun row _ => isSpan_span s row.length

/-- **What a rank has after the roll.** -/
theorem preprocessThdEngineRolled_some (h : rows ≠ []) (hrank : rank < s.cpSize) (zero : α)
    (hpos : 1 < s.cpSize → ∃ row ∈ rows, row ≠ []) :
    ∃ rolled, preprocessThdEngineRolled s zero [] false rank rows = some rolled ∧
      some rolled.params = (layout s false (rows.map List.length)).params ∧
      rolled.inputIds.length = (rows.map (size s)).sum ∧
      HasNext s zero rank (fun k => rolled.inputIds[k]?) 0 rows := by
  obtain ⟨params, hparams, -⟩ := params_some s false h
  obtain ⟨hpadded, hcu, halign⟩ := layout_eq s rows
  have hslots : 1 < s.cpSize → 0 < (rows.map (size s)).sum := by
    intro hcp
    obtain ⟨row, hrow, hne⟩ := hpos hcp
    have hspan := isSpan_span s row.length
    have hle := hspan.le
    have hlength := List.length_pos_of_ne_nil hne
    have hsize : 0 < size s row := Nat.div_pos (Nat.le_of_dvd (by omega) hspan.cpSize_dvd) s.cpSize_pos
    exact Nat.lt_of_lt_of_le hsize (List.single_le_sum (fun _ _ => Nat.zero_le _) _ (List.mem_map_of_mem hrow))
  obtain ⟨ids, positions, saved, hrun, hids, hpositions, hfits, -, -, hnext, hsame⟩ :=
    @packRowsRolled_some _ s rank hrank zero rows 0 _ [] [] ⟨Dict.empty, Dict.empty⟩ rfl rfl (Nat.zero_add _) hslots
      ⟨isPatch_empty 0, rfl⟩
  rw [Nat.mul_zero, Nat.sub_zero, List.nil_append, List.nil_append, List.nil_append, List.nil_append] at hrun
  rw [List.nil_append] at hids hpositions
  simp only [List.nil_append] at hnext
  have hsaved : saved.tokens.keys ≠ [] → 0 < (rows.map (size s)).sum := by
    intro hkeys
    by_cases hcp : s.cpSize ≤ 1
    · rw [hsame hcp] at hkeys
      exact absurd rfl hkeys
    · exact hslots (by omega)
  obtain ⟨out, hout, houtLength, hentries⟩ := @exists_patch_roll _ saved.tokens ids (by rw [hids]; exact hfits.tokens)
    (by rw [hids]; exact hsaved)
  obtain ⟨places, hplaces, -⟩ := @exists_patch_roll _ saved.positions positions
    (by rw [hpositions]; exact hfits.isPatch_positions) (by rw [hpositions, hfits.keys_eq]; exact hsaved)
  refine ⟨⟨out, params, places⟩, ?_, hparams.symm, by rw [houtLength, hids], ?_⟩
  · unfold preprocessThdEngineRolled
    simp only [hparams, hpadded, hcu, halign, slots_eq, hrun, hout, hplaces, Option.bind_eq_bind, Option.bind_some]
  · exact hnext.imp fun k a ha => hentries k a ha

theorem exists_token (hcp : 1 < s.cpSize) (hrank : rank < s.cpSize) {rolled : Packed α}
    (hrun : preprocessThdEngineRolled s zero [] false rank rows = some rolled) : ∃ row ∈ rows, row ≠ [] := by
  by_contra hnone
  have hempty : ∀ row ∈ rows, row = [] := fun row hrow => not_not.1 fun hne => hnone ⟨row, hrow, hne⟩
  have hsizes : (rows.map (size s)).sum = 0 := by
    refine List.sum_eq_zero fun n hn => ?_
    obtain ⟨row, hrow, rfl⟩ := List.mem_map.1 hn
    obtain ⟨-, -, -, hzero⟩ := @half_spec s rank hcp hrank row.length
    obtain ⟨hslots, -⟩ := @position_spec s rank hcp hrank row.length 0
    rw [hempty row hrow, List.length_nil] at hzero hslots
    rw [hempty row hrow, size, List.length_nil, hslots, hzero.2 rfl, Nat.mul_zero]
  obtain ⟨hpadded, hcu, halign⟩ := layout_eq s rows
  unfold preprocessThdEngineRolled at hrun
  simp only [hpadded, hcu, halign, slots_eq, hsizes, List.replicate_zero] at hrun
  obtain ⟨params, hparams, hrun⟩ := Option.bind_eq_some_iff.1 hrun
  obtain ⟨⟨buffers, saved⟩, hrows, -⟩ := Option.bind_eq_some_iff.1 hrun
  cases rows with
  | nil =>
    rw [Layout.params] at hparams
    cases hparams
  | cons row rows =>
    obtain rfl := hempty row List.mem_cons_self
    have hspan : span s ([] : List α).length = 0 := Nat.add_eq_zero_iff.2 ⟨rfl, by
      rw [padSize, List.length_nil, Nat.zero_mod, Nat.sub_zero, Nat.mod_self]⟩
    rw [List.map_cons, cumsum, List.zip_cons_cons, List.zip_cons_cons, packRowsRolled] at hrows
    obtain ⟨buffers', hrow, hrows⟩ := Option.bind_eq_some_iff.1 hrows
    obtain ⟨saved', hsave, -⟩ := Option.bind_eq_some_iff.1 hrows
    -- the buffers have no slots
    obtain ⟨part, places, hpack, -, hplaces⟩ := @packRow_some _ s zero [] s.alignSize rank [] 0 0 [] [] [] []
      ⟨Nat.le_refl 0, fun _ => Nat.dvd_zero _⟩ hrank (Nat.mul_zero _).symm rfl (by
        have hfits := @chunkFits_span s rank hrank ([] : List α).length
        rwa [hspan] at hfits)
    have hlength := hplaces.length_eq
    rw [Nat.zero_div, List.length_eq_zero_iff] at hlength
    rw [Nat.zero_div, hlength] at hpack
    rw [hspan] at hrow hsave
    obtain rfl := Option.some.inj (hpack.symm.trans hrow)
    -- so there is no last position to be saved
    rw [saveRow, if_neg (by omega)] at hsave
    obtain ⟨d, -, hsave⟩ := Option.bind_eq_some_iff.1 hsave
    obtain ⟨next, -, hsave⟩ := Option.bind_eq_some_iff.1 hsave
    obtain ⟨position, hposition, -⟩ := Option.bind_eq_some_iff.1 hsave
    obtain ⟨k, hk, -⟩ := Option.bind_eq_some_iff.1 hposition
    exact Nat.not_lt_zero k (place_eq_some hk).1

/-- The packed tensor of a rank has the tokens of its slots, and if it is rolled, the next tokens. -/
def ThdShifted (s : ParallelState) (zero : α) (rank : ℕ) (rows : List (List α)) : Prop :=
  ∃ unrolled rolled, preprocessThdEngine s zero [] false rank rows = some unrolled ∧
    preprocessThdEngineRolled s zero [] false rank rows = some rolled ∧ rolled.params = unrolled.params ∧
    List.Forall₂ (fun row p => Held s rank row p.1 p.2 unrolled.inputIds ∧ Held s rank row.tail p.1 p.2 rolled.inputIds)
      rows unrolled.params.spans

/-- The padded tensor of a rank has the tokens of its slots, and if it is rolled, the next tokens. -/
def BshdShifted (s : ParallelState) (zero : α) (rank : ℕ) (rows : List (List α)) : Prop :=
  ∃ longest unrolled rolled, (rows.map List.length).max? = some longest ∧
    preprocessBshdEngine s zero false rank rows = some unrolled ∧
    preprocessBshdEngineRolled s zero false rank rows = some rolled ∧
    let maxSeqlen := bshdSeqlen s false rows.length longest
    List.Forall₂ (Holds (s.position maxSeqlen rank) (maxSeqlen / s.cpSize)) rows unrolled.inputIds ∧
      List.Forall₂ (fun row ids => Holds (s.position maxSeqlen rank) (maxSeqlen / s.cpSize) row.tail ids) rows
        rolled.inputIds

/-- **The labels of a batch**: on all ranks, in both formats, the slot of a token has the next token of its row. -/
def Shifted (s : ParallelState) (zero : α) (rows : List (List α)) : Prop :=
  ∀ rank < s.cpSize, ThdShifted s zero rank rows ∧ BshdShifted s zero rank rows

theorem bshdShifted (h : rows ≠ []) (hrank : rank < s.cpSize) (zero : α) : BshdShifted s zero rank rows := by
  obtain ⟨longest, hlongest⟩ := exists_longest h
  have hspan := isSpan_bshdSeqlen s false rows.length longest
  generalize hmax : bshdSeqlen s false rows.length longest = maxSeqlen at hspan
  have hrow : ∀ row ∈ rows, ∃ unrolled rolled, bshdRow s zero rank maxSeqlen row = some unrolled ∧
      bshdRowRolled s zero rank maxSeqlen row = some rolled ∧ rolled.2 = unrolled.2 ∧
      Holds (s.position maxSeqlen rank) (maxSeqlen / s.cpSize) row unrolled.1 ∧
      Holds (s.position maxSeqlen rank) (maxSeqlen / s.cpSize) row.tail
        (if s.cpSize ≤ 1 then rolled.1.rotate 1 else rolled.1) := by
    intro row hrow
    have hle := (List.max?_eq_some_iff.1 hlongest).2 row.length (List.mem_map_of_mem hrow)
    exact bshdRowRolled_eq ⟨Nat.le_trans hle hspan.le, hspan.dvd⟩ hrank zero
  have hsame : List.Forall₂ Eq rows rows := List.forall₂_same.2 fun _ _ => rfl
  obtain ⟨batch, hbatch, hheld⟩ := @exists_mapM_some _ _ _ (bshdRow s zero rank maxSeqlen) Eq
    (fun row p => Holds (s.position maxSeqlen rank) (maxSeqlen / s.cpSize) row p.1) _ _ hsame (by
      rintro row hmem _ rfl
      obtain ⟨unrolled, -, hunrolled, -, -, hheld, -⟩ := hrow row hmem
      exact ⟨unrolled, hunrolled, hheld⟩)
  obtain ⟨rolledBatch, hrolledBatch, hheldTail⟩ := @exists_mapM_some _ _ _ (bshdRowRolled s zero rank maxSeqlen) Eq
    (fun row p => Holds (s.position maxSeqlen rank) (maxSeqlen / s.cpSize) row.tail
      (if s.cpSize ≤ 1 then p.1.rotate 1 else p.1)) _ _ hsame (by
      rintro row hmem _ rfl
      obtain ⟨-, rolled, -, hrolled, -, -, hheld⟩ := hrow row hmem
      exact ⟨rolled, hrolled, hheld⟩)
  refine ⟨longest,
    ⟨batch.map Prod.fst, batch.map Prod.snd, List.replicate rows.length (bshdPositions s rank maxSeqlen)⟩,
    ⟨if s.cpSize ≤ 1 then (rolledBatch.map Prod.fst).map fun ids => ids.rotate 1 else rolledBatch.map Prod.fst,
      rolledBatch.map Prod.snd, List.replicate rows.length (bshdPositions s rank maxSeqlen)⟩, hlongest, ?_, ?_, ?_⟩
  · unfold preprocessBshdEngine
    simp only [hlongest, hmax, hbatch, Option.bind_eq_bind, Option.bind_some]
  · unfold preprocessBshdEngineRolled
    simp only [hlongest, hmax, hrolledBatch, Option.bind_eq_bind, Option.bind_some]
  · simp only [hmax]
    refine ⟨List.forall₂_map_right_iff.2 hheld, ?_⟩
    by_cases hcp : s.cpSize ≤ 1
    · simp only [if_pos hcp] at hheldTail ⊢
      rw [List.forall₂_map_right_iff, List.forall₂_map_right_iff]
      exact hheldTail
    · simp only [if_neg hcp] at hheldTail ⊢
      exact List.forall₂_map_right_iff.2 hheldTail

theorem thdShifted_iff (h : rows ≠ []) (hrank : rank < s.cpSize) (hpos : 1 < s.cpSize → ∃ row ∈ rows, row ≠ []) :
    ThdShifted s zero rank rows ↔
      (1 < s.cpSize → rows.IsChain fun row next => next.length = 0 → ZeroBehind s zero rank row) := by
  obtain ⟨rolled, hrolled, hparams, hlength, hnext⟩ := preprocessThdEngineRolled_some h hrank zero hpos
  obtain ⟨hpadded, -, halign⟩ := layout_eq s rows
  have hfits : List.Forall₂ (fun row span => ChunkFits s [] s.alignSize rank (List.length row) span) rows
      (rows.map fun row => span s row.length) := by
    rw [List.forall₂_map_right_iff, List.forall₂_same]
    exact fun row _ => chunkFits_span hrank row.length
  obtain ⟨unrolled, hunrolled⟩ := (@preprocessThdEngine_some_iff _ s zero [] false rank rows h hrank).2 (by
    rw [hpadded, halign]
    exact hfits)
  obtain ⟨hheld, hsame⟩ := preprocessThdEngine_held h hrank hunrolled
  obtain ⟨params, hparams', hcu⟩ := params_some s false h
  have hunrolledParams : unrolled.params = params := Option.some.inj (hsame.trans hparams')
  have hspans : unrolled.params.spans = (0 :: cumsum 0 (rows.map fun row => span s row.length)).zip
      (cumsum 0 (rows.map fun row => span s row.length)) := by
    rw [PackedSeqParams.spans, hunrolledParams, hcu, hpadded, List.tail_cons]
  have htails := @held_tails_iff _ s zero rank rows hrank rolled.inputIds 0 (by rw [hlength, Nat.zero_add]) hnext
  rw [Nat.mul_zero, ← hspans] at htails
  rw [← htails]
  constructor
  · rintro ⟨unrolled', rolled', hunrolled', hrolled', -, hboth⟩
    obtain rfl := Option.some.inj (hunrolled.symm.trans hunrolled')
    obtain rfl := Option.some.inj (hrolled.symm.trans hrolled')
    exact hboth.imp fun _ _ h => h.2
  · intro htail
    refine ⟨unrolled, rolled, hunrolled, hrolled, Option.some.inj (hparams.trans hsame.symm), ?_⟩
    exact List.forall₂_iff_get.2 ⟨hheld.length_eq, fun i hi hi' => ⟨(hheld.get hi hi').1, htail.get hi hi'⟩⟩

/-- **The labels of a batch are right exactly when** there is a token, if there are several ranks, and no empty row
is behind a row whose last slot on a rank has a label that is not zero. -/
theorem shifted_iff (s : ParallelState) (zero : α) (rows : List (List α)) :
    Shifted s zero rows ↔ rows ≠ [] ∧ (1 < s.cpSize → (∃ row ∈ rows, row ≠ []) ∧
      rows.IsChain fun row next => next.length = 0 → ∀ rank < s.cpSize, ZeroBehind s zero rank row) := by
  constructor
  · intro hshifted
    have hne : rows ≠ [] := by
      rintro rfl
      obtain ⟨⟨unrolled, -, hrun, -⟩, -⟩ := hshifted 0 s.cpSize_pos
      cases hrun
    refine ⟨hne, fun hcp => ?_⟩
    obtain ⟨⟨_, rolled, -, hrolled, -⟩, -⟩ := hshifted 0 s.cpSize_pos
    have htoken := exists_token hcp s.cpSize_pos hrolled
    refine ⟨htoken, List.isChain_iff_getElem.2 fun i hi hempty rank hrank => ?_⟩
    have hchain := (thdShifted_iff hne hrank fun _ => htoken).1 (hshifted rank hrank).1 hcp
    exact List.isChain_iff_getElem.1 hchain i hi hempty
  · rintro ⟨hne, hlabels⟩ rank hrank
    refine ⟨?_, bshdShifted hne hrank zero⟩
    refine (thdShifted_iff hne hrank fun hcp => (hlabels hcp).1).2 fun hcp => ?_
    exact (hlabels hcp).2.imp fun _ _ hrow hempty => hrow hempty rank hrank

/-! ## Two ranks -/

/-- A row of four tokens and an empty one: the second rank has no label for the third token. -/
theorem not_shifted : ¬ Shifted pair 0 [[1, 2, 3, 4], []] := by
  intro h
  obtain ⟨⟨unrolled, rolled, hunrolled, hrolled, -, hheld⟩, -⟩ := h 1 (by decide)
  have hids : (preprocessThdEngineRolled pair 0 [] false 1 [[1, 2, 3, 4], []]).map Packed.inputIds = some [3, 0] := rfl
  have hspans : (preprocessThdEngine pair 0 [] false 1 [[1, 2, 3, 4], []]).map (fun p => p.params.spans) =
      some [(0, 4), (4, 4)] := rfl
  rw [hrolled, Option.map_some, Option.some.injEq] at hids
  rw [hunrolled, Option.map_some, Option.some.injEq] at hspans
  rw [hids, hspans, List.forall₂_cons] at hheld
  have hentry := hheld.1.2.entry 1 (by decide) (by decide)
  exact absurd hentry (by decide)

end Main

end Opd.Verl.LabelShift

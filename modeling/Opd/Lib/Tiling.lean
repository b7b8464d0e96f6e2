import Mathlib.Order.Lattice
import Mathlib.Tactic.NormNum.Basic

/-!
# Intervals that tile a range

Intervals of integers with an offset and a count, which may be negative. They tile a range if they
cover it, nothing else, and each element of an interval is before those of the next ones.

* `tiles_iff`: the intervals tile the range exactly when each one that is not empty begins at the sum
  of the counts before it, and the sum of all of them is the end of the range.
* `Telescopes.tiles_iff`: the same beside offsets of which each is the end of the interval before.
* `TelescopesGrid.tilesGrid_iff`: intervals with two indices, the first of which varies faster.
-/

namespace Opd.Lib

def InInterval (offset count x : ℤ) : Prop := offset ≤ x ∧ x < offset + count

/-- **The intervals tile the range** from 0, in their order. -/
structure Tiles (n : ℕ) (total : ℤ) (offset count : ℕ → ℤ) : Prop where
  covers : ∀ x, (0 ≤ x ∧ x < total) ↔ ∃ i < n, InInterval (offset i) (count i) x
  ordered : ∀ i j x y, i < j → j < n → InInterval (offset i) (count i) x → InInterval (offset j) (count j) y → x < y

/-- The sum of the counts before an index, without the negative ones. -/
def startOf (count : ℕ → ℤ) : ℕ → ℤ
  | 0 => 0
  | i + 1 => startOf count i + if 0 < count i then count i else 0

/-- Each interval begins where the one before ends. -/
structure Telescopes (n : ℕ) (total : ℤ) (offset count : ℕ → ℤ) : Prop where
  first : offset 0 = 0
  step : ∀ i, i + 1 < n → offset (i + 1) = offset i + count i
  last : ∃ i, i + 1 = n ∧ offset i + count i = total

variable {n m : ℕ} {total : ℤ} {offset reference count : ℕ → ℤ}

theorem exists_crossing {o : ℕ → ℤ} {a b : ℕ} {x : ℤ} (hab : a ≤ b) (ha : o a ≤ x) (hb : x < o b) :
    ∃ k, a ≤ k ∧ k < b ∧ o k ≤ x ∧ x < o (k + 1) := by
  induction b, hab using Nat.le_induction with
  | base => omega
  | succ b hab ih =>
    by_cases hx : x < o b
    · obtain ⟨k, hak, hkb, hk⟩ := ih hx
      exact ⟨k, hak, by omega, hk⟩
    · exact ⟨b, hab, by omega, by omega, hb⟩

/-! ## The starts -/

theorem startOf_succ (i : ℕ) : startOf count (i + 1) = startOf count i + if 0 < count i then count i else 0 := rfl

theorem startOf_mono {i j : ℕ} (hij : i ≤ j) : startOf count i ≤ startOf count j := by
  induction j, hij using Nat.le_induction with
  | base => exact Int.le_refl _
  | succ j hij ih =>
    rw [startOf_succ]
    split_ifs <;> omega

theorem before_startOf (i : ℕ) (x : ℤ) :
    (0 ≤ x ∧ x < startOf count i) ↔ ∃ j < i, InInterval (startOf count j) (count j) x := by
  constructor
  · rintro ⟨hlow, hhigh⟩
    obtain ⟨j, -, hji, hj⟩ := exists_crossing (Nat.zero_le i) (show startOf count 0 ≤ x from hlow) hhigh
    rw [startOf_succ] at hj
    refine ⟨j, hji, hj.1, ?_⟩
    split_ifs at hj <;> omega
  · rintro ⟨j, hji, hx⟩
    have hlow : 0 ≤ startOf count j := startOf_mono (Nat.zero_le j)
    have hhigh : startOf count (j + 1) ≤ startOf count i := startOf_mono (Nat.succ_le_of_lt hji)
    rw [startOf_succ, if_pos (by have := hx.1; have := hx.2; omega)] at hhigh
    exact ⟨hlow.trans hx.1, lt_of_lt_of_le hx.2 hhigh⟩

theorem InInterval.pos {o c x : ℤ} (h : InInterval o c x) : 0 < c := by
  have := h.1
  have := h.2
  omega

theorem inInterval_self {o c : ℤ} (h : 0 < c) : InInterval o c o := ⟨Int.le_refl o, by omega⟩

/-- In a tiling, an interval that is not empty begins at the sum of the counts before it. -/
theorem Tiles.offset_eq (h : Tiles n total offset count) (i : ℕ) :
    i < n → 0 < count i → offset i = startOf count i := by
  induction i using Nat.strong_induction_on with
  | _ i ih =>
    intro hi hpos
    have hmem := (h.covers (offset i)).2 ⟨i, hi, inInterval_self hpos⟩
    -- the intervals before this one hold just what is before its start
    have hbefore : ∀ x, (0 ≤ x ∧ x < startOf count i) ↔ ∃ j < i, InInterval (offset j) (count j) x := by
      intro x
      rw [before_startOf]
      constructor
      · rintro ⟨j, hj, hx⟩
        exact ⟨j, hj, by rwa [ih j hj (hj.trans hi) hx.pos]⟩
      · rintro ⟨j, hj, hx⟩
        exact ⟨j, hj, by rwa [ih j hj (hj.trans hi) hx.pos] at hx⟩
    rcases lt_trichotomy (offset i) (startOf count i) with hlt | heq | hgt
    · obtain ⟨j, hj, hx⟩ := (hbefore (offset i)).1 ⟨hmem.1, hlt⟩
      have := h.ordered j i _ _ hj hi hx (inInterval_self hpos)
      omega
    · exact heq
    · have hstart : 0 ≤ startOf count i := startOf_mono (Nat.zero_le i)
      obtain ⟨j, hj, hx⟩ := (h.covers (startOf count i)).1 ⟨hstart, by omega⟩
      rcases lt_trichotomy j i with hless | rfl | hmore
      · have := ((hbefore _).2 ⟨j, hless, hx⟩).2
        omega
      · have := hx.1
        omega
      · have := h.ordered i j _ _ hmore hj (inInterval_self hpos) hx
        omega

/-- **When intervals tile a range.** -/
theorem tiles_iff (htotal : 0 ≤ total) :
    Tiles n total offset count ↔
      startOf count n = total ∧ ∀ i < n, 0 < count i → offset i = startOf count i := by
  constructor
  · intro h
    refine ⟨?_, h.offset_eq⟩
    have hsame : ∀ x, (0 ≤ x ∧ x < total) ↔ (0 ≤ x ∧ x < startOf count n) := by
      intro x
      rw [h.covers, before_startOf]
      constructor
      · rintro ⟨j, hj, hx⟩
        exact ⟨j, hj, by rwa [h.offset_eq j hj hx.pos] at hx⟩
      · rintro ⟨j, hj, hx⟩
        exact ⟨j, hj, by rwa [h.offset_eq j hj hx.pos]⟩
    have hstart : 0 ≤ startOf count n := startOf_mono (Nat.zero_le n)
    have hleft := hsame (startOf count n)
    have hright := hsame total
    omega
  · rintro ⟨hend, hoffset⟩
    refine ⟨fun x => ?_, fun i j x y hij hj hx hy => ?_⟩
    · rw [← hend, before_startOf]
      constructor
      · rintro ⟨i, hi, hx⟩
        exact ⟨i, hi, by rwa [hoffset i hi hx.pos]⟩
      · rintro ⟨i, hi, hx⟩
        exact ⟨i, hi, by rwa [hoffset i hi hx.pos] at hx⟩
    · have hmono : startOf count (i + 1) ≤ startOf count j := startOf_mono (Nat.succ_le_of_lt hij)
      rw [startOf_succ, if_pos hx.pos] at hmono
      have hxi := hx.2
      have hyj := hy.1
      rw [hoffset i (hij.trans hj) hx.pos] at hxi
      rw [hoffset j hj hy.pos] at hyj
      omega

/-! ## Beside offsets that telescope -/

namespace Telescopes

theorem le_startOf (h : Telescopes n total reference count) (i : ℕ) (hi : i < n) :
    reference i ≤ startOf count i ∧ (reference i = startOf count i ↔ ∀ j < i, 0 ≤ count j) := by
  induction i with
  | zero => simp only [h.first, startOf, Int.le_refl, Nat.not_lt_zero, false_implies, implies_true, and_self]
  | succ i ih =>
    obtain ⟨hle, hiff⟩ := ih (by omega)
    rw [h.step i hi, startOf_succ, Nat.forall_lt_succ_right, ← hiff]
    split_ifs <;> constructor <;> omega

/-- **When intervals tile a range**, beside offsets that telescope: no count is negative, and the
intervals that are not empty have these offsets. -/
theorem tiles_iff (h : Telescopes n total reference count) (htotal : 0 ≤ total) :
    Tiles n total offset count ↔
      (∀ i < n, 0 ≤ count i) ∧ ∀ i < n, 0 < count i → offset i = reference i := by
  obtain ⟨k, rfl, hlast⟩ := h.last
  obtain ⟨hle, hiff⟩ := h.le_startOf k (Nat.lt_succ_self k)
  have hend : startOf count (k + 1) = total ↔ ∀ i < k + 1, 0 ≤ count i := by
    rw [startOf_succ, Nat.forall_lt_succ_right, ← hiff, ← hlast]
    split_ifs <;> omega
  rw [Lib.tiles_iff htotal, hend]
  refine and_congr_right fun hcount => forall_congr' fun i => forall_congr' fun hi => ?_
  rw [(h.le_startOf i hi).2.2 fun j hj => hcount j (hj.trans hi)]

end Telescopes

/-! ## Two indices -/

/-- **The intervals tile the range** in the order of the second index, and with the same one, of the first. -/
structure TilesGrid (n m : ℕ) (total : ℤ) (offset count : ℕ → ℕ → ℤ) : Prop where
  covers : ∀ x, (0 ≤ x ∧ x < total) ↔ ∃ p < n, ∃ v < m, InInterval (offset p v) (count p v) x
  ordered : ∀ p < n, ∀ v < m, ∀ p' < n, ∀ v' < m, v < v' ∨ v = v' ∧ p < p' →
    ∀ x y, InInterval (offset p v) (count p v) x → InInterval (offset p' v') (count p' v') y → x < y

/-- **Intervals with two indices, one behind the other.** -/
structure TelescopesGrid (n m : ℕ) (total : ℤ) (offset count : ℕ → ℕ → ℤ) : Prop where
  first : offset 0 0 = 0
  step : ∀ p v, p + 1 < n → v < m → offset (p + 1) v = offset p v + count p v
  next : ∀ p v, p + 1 = n → v + 1 < m → offset 0 (v + 1) = offset p v + count p v
  last : ∀ p v, p + 1 = n → v + 1 = m → offset p v + count p v = total

variable {offsets references counts : ℕ → ℕ → ℤ}

theorem mod_div_of_lt {p : ℕ} (hp : p < n) (v : ℕ) : (v * n + p) % n = p ∧ (v * n + p) / n = v := by
  constructor
  · rw [Nat.add_comm, Nat.add_mul_mod_self_right, Nat.mod_eq_of_lt hp]
  · rw [Nat.mul_comm, Nat.mul_add_div (by omega), Nat.div_eq_of_lt hp, Nat.add_zero]

theorem mul_add_lt_mul {p v : ℕ} (hp : p < n) (hv : v < m) : v * n + p < m * n :=
  calc v * n + p < v * n + n := by omega
    _ = (v + 1) * n := (Nat.succ_mul v n).symm
    _ ≤ m * n := Nat.mul_le_mul_right n hv

theorem div_lt_of_lt_mul {i : ℕ} (hi : i < m * n) : i / n < m := Nat.div_lt_of_lt_mul (by rwa [Nat.mul_comm])

theorem forall_grid_iff (hn : 0 < n) (P : ℕ → ℕ → Prop) :
    (∀ i < m * n, P (i % n) (i / n)) ↔ ∀ p < n, ∀ v < m, P p v := by
  constructor
  · intro h p hp v hv
    obtain ⟨hmod, hdiv⟩ := mod_div_of_lt hp v
    have := h (v * n + p) (mul_add_lt_mul hp hv)
    rwa [hmod, hdiv] at this
  · intro h i hi
    exact h (i % n) (Nat.mod_lt i hn) (i / n) (div_lt_of_lt_mul hi)

theorem exists_grid_iff (hn : 0 < n) (P : ℕ → ℕ → Prop) :
    (∃ i < m * n, P (i % n) (i / n)) ↔ ∃ p < n, ∃ v < m, P p v := by
  constructor
  · rintro ⟨i, hi, h⟩
    exact ⟨i % n, Nat.mod_lt i hn, i / n, div_lt_of_lt_mul hi, h⟩
  · rintro ⟨p, hp, v, hv, h⟩
    obtain ⟨hmod, hdiv⟩ := mod_div_of_lt hp v
    exact ⟨v * n + p, mul_add_lt_mul hp hv, by rwa [hmod, hdiv]⟩

theorem mul_add_lt_iff {p p' v v' : ℕ} (hp : p < n) (hp' : p' < n) :
    v * n + p < v' * n + p' ↔ v < v' ∨ v = v' ∧ p < p' := by
  rcases lt_trichotomy v v' with hless | rfl | hmore
  · have := mul_add_lt_mul hp hless
    omega
  · omega
  · have := mul_add_lt_mul hp' hmore
    omega

theorem tilesGrid_iff (hn : 0 < n) :
    TilesGrid n m total offsets counts ↔
      Tiles (m * n) total (fun i => offsets (i % n) (i / n)) fun i => counts (i % n) (i / n) := by
  have hcovers := fun x => exists_grid_iff (m := m) hn fun p v => InInterval (offsets p v) (counts p v) x
  constructor
  · intro h
    refine ⟨fun x => (h.covers x).trans (hcovers x).symm, fun i j x y hij hj => ?_⟩
    refine h.ordered (i % n) (Nat.mod_lt i hn) (i / n) (div_lt_of_lt_mul (hij.trans hj)) (j % n)
      (Nat.mod_lt j hn) (j / n) (div_lt_of_lt_mul hj) ?_ x y
    rwa [← mul_add_lt_iff (Nat.mod_lt i hn) (Nat.mod_lt j hn), Nat.mul_comm, Nat.div_add_mod, Nat.mul_comm,
      Nat.div_add_mod]
  · intro h
    refine ⟨fun x => (h.covers x).trans (hcovers x), fun p hp v hv p' hp' v' hv' hless x y hx hy => ?_⟩
    obtain ⟨hmod, hdiv⟩ := mod_div_of_lt hp v
    obtain ⟨hmod', hdiv'⟩ := mod_div_of_lt hp' v'
    refine h.ordered (v * n + p) (v' * n + p') x y ((mul_add_lt_iff hp hp').2 hless) (mul_add_lt_mul hp' hv') ?_ ?_
    · rwa [hmod, hdiv]
    · rwa [hmod', hdiv']

namespace TelescopesGrid

theorem telescopes (h : TelescopesGrid n m total references counts) (hn : 0 < n) (hm : 0 < m) :
    Telescopes (m * n) total (fun i => references (i % n) (i / n)) fun i => counts (i % n) (i / n) := by
  have hlast : (m - 1) * n + (n - 1) + 1 = m * n := by
    obtain ⟨m', rfl⟩ : ∃ m', m = m' + 1 := ⟨m - 1, by omega⟩
    rw [Nat.succ_mul, Nat.add_sub_cancel]
    omega
  refine ⟨?_, fun i hi => ?_, (m - 1) * n + (n - 1), hlast, ?_⟩
  · simp only [Nat.zero_mod, Nat.zero_div, h.first]
  · have hv : i / n < m := div_lt_of_lt_mul (by omega)
    have hrow := Nat.div_add_mod' i n
    have hp := Nat.mod_lt i hn
    by_cases hinside : i % n + 1 < n
    · obtain ⟨hmod, hdiv⟩ := mod_div_of_lt hinside (i / n)
      rw [← Nat.add_assoc, hrow] at hmod hdiv
      simp only [hmod, hdiv, h.step (i % n) (i / n) hinside hv]
    · obtain ⟨hmod, hdiv⟩ := mod_div_of_lt hn (i / n + 1)
      have hnext : (i / n + 1) * n + 0 = i + 1 := by
        rw [Nat.succ_mul]
        omega
      rw [hnext] at hmod hdiv
      have hv' : i / n + 1 < m := by
        rw [← hdiv]
        exact div_lt_of_lt_mul hi
      simp only [hmod, hdiv, h.next (i % n) (i / n) (by omega) hv']
  · obtain ⟨hmod, hdiv⟩ := mod_div_of_lt (Nat.sub_lt hn Nat.zero_lt_one) (m - 1)
    simp only [hmod, hdiv, h.last (n - 1) (m - 1) (by omega) (by omega)]

/-- **When intervals with two indices tile a range**, beside offsets that telescope. -/
theorem tilesGrid_iff (h : TelescopesGrid n m total references counts) (hn : 0 < n) (hm : 0 < m)
    (htotal : 0 ≤ total) :
    TilesGrid n m total offsets counts ↔
      (∀ p < n, ∀ v < m, 0 ≤ counts p v) ∧ ∀ p < n, ∀ v < m, 0 < counts p v → offsets p v = references p v := by
  rw [Lib.tilesGrid_iff hn, (h.telescopes hn hm).tiles_iff htotal,
    forall_grid_iff hn fun p v => 0 ≤ counts p v,
    forall_grid_iff hn fun p v => 0 < counts p v → offsets p v = references p v]

end TelescopesGrid

theorem TilesGrid.congr {offsets' counts' : ℕ → ℕ → ℤ} (h : TilesGrid n m total offsets counts)
    (hsame : ∀ p < n, ∀ v < m, offsets p v = offsets' p v ∧ counts p v = counts' p v) :
    TilesGrid n m total offsets' counts' := by
  have hin : ∀ p < n, ∀ v < m, ∀ x,
      InInterval (offsets' p v) (counts' p v) x ↔ InInterval (offsets p v) (counts p v) x := by
    intro p hp v hv x
    obtain ⟨hoffset, hcount⟩ := hsame p hp v hv
    rw [hoffset, hcount]
  constructor
  · intro x
    rw [h.covers]
    constructor
    · rintro ⟨p, hp, v, hv, hx⟩
      exact ⟨p, hp, v, hv, (hin p hp v hv x).2 hx⟩
    · rintro ⟨p, hp, v, hv, hx⟩
      exact ⟨p, hp, v, hv, (hin p hp v hv x).1 hx⟩
  · intro p hp v hv p' hp' v' hv' hless x y hx hy
    exact h.ordered p hp v hv p' hp' v' hv' hless x y ((hin p hp v hv x).1 hx) ((hin p' hp' v' hv' y).1 hy)

theorem TilesGrid.total_eq {total' : ℤ} (h : TilesGrid n m total offsets counts)
    (h' : TilesGrid n m total' offsets counts) (htotal : 0 ≤ total) (htotal' : 0 ≤ total') : total = total' := by
  have hleft := (h.covers total').trans (h'.covers total').symm
  have hright := (h.covers total).trans (h'.covers total).symm
  omega

/-- Intervals that all begin at 0 tile a range if one of them is the range and the others are empty. -/
theorem tilesGrid_zero_iff (htotal : 0 ≤ total) :
    TilesGrid 1 m total (fun _ _ => 0) counts ↔
      (total = 0 ∨ ∃ v < m, counts 0 v = total) ∧
        ∀ v < m, 0 < counts 0 v → counts 0 v = total ∧ ∀ w < m, 0 < counts 0 w → w = v := by
  have hin : ∀ v x, InInterval 0 (counts 0 v) x ↔ 0 ≤ x ∧ x < counts 0 v := by
    intro v x
    rw [InInterval, Int.zero_add]
  constructor
  · intro h
    have hsame : ∀ v < m, ∀ w < m, 0 < counts 0 v → 0 < counts 0 w → w = v := by
      intro v hv w hw hvpos hwpos
      have hless : ∀ v < m, ∀ w < m, 0 < counts 0 v → 0 < counts 0 w → ¬v < w := fun v hv w hw hvpos hwpos hvw =>
        Int.lt_irrefl 0 (h.ordered 0 Nat.one_pos v hv 0 Nat.one_pos w hw (.inl hvw) 0 0
          ((hin v 0).2 ⟨Int.le_refl 0, hvpos⟩) ((hin w 0).2 ⟨Int.le_refl 0, hwpos⟩))
      have hleft := hless v hv w hw hvpos hwpos
      have hright := hless w hw v hv hwpos hvpos
      omega
    have hle : ∀ v < m, 0 < counts 0 v → counts 0 v ≤ total := by
      intro v hv hpos
      have := (h.covers (counts 0 v - 1)).2 ⟨0, Nat.one_pos, v, hv, (hin v _).2 ⟨by omega, by omega⟩⟩
      omega
    have hcover : 0 < total → ∃ v < m, total ≤ counts 0 v := by
      intro hpos
      obtain ⟨p, hp, v, hv, hx⟩ := (h.covers (total - 1)).1 ⟨by omega, by omega⟩
      obtain rfl : p = 0 := by omega
      have := ((hin v _).1 hx).2
      exact ⟨v, hv, by omega⟩
    constructor
    · by_cases hpos : 0 < total
      · obtain ⟨v, hv, hge⟩ := hcover hpos
        have := hle v hv (by omega)
        exact .inr ⟨v, hv, by omega⟩
      · exact .inl (by omega)
    · intro v hv hpos
      refine ⟨?_, fun w hw hwpos => hsame v hv w hw hpos hwpos⟩
      have hvle := hle v hv hpos
      obtain ⟨w, hw, hge⟩ := hcover (by omega)
      obtain rfl := hsame v hv w hw hpos (by omega)
      omega
  · rintro ⟨hall, hone⟩
    constructor
    · intro x
      constructor
      · rintro ⟨hlow, hhigh⟩
        rcases hall with hzero | ⟨v, hv, heq⟩
        · omega
        · exact ⟨0, Nat.one_pos, v, hv, (hin v x).2 ⟨hlow, by omega⟩⟩
      · rintro ⟨p, hp, v, hv, hx⟩
        obtain rfl : p = 0 := by omega
        have hbounds := (hin v x).1 hx
        have := (hone v hv (by omega)).1
        omega
    · intro p hp v hv p' hp' v' hv' hless x y hx hy
      obtain rfl : p = 0 := by omega
      obtain rfl : p' = 0 := by omega
      have hleft := (hin v x).1 hx
      have hright := (hin v' y).1 hy
      have := (hone v hv (by omega)).2 v' hv' (by omega)
      omega

end Opd.Lib

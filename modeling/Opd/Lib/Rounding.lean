import Mathlib.Algebra.Order.Floor.Ring
import Mathlib.Data.Int.Log
import Mathlib.Data.Rat.Floor
import Mathlib.Tactic.Linarith

/-!
# Rounding to a precision

A positive number is rounded to the closest one with a number of binary digits, and between two of
them to the even one. There is no bound on the exponent.

* `roundTo_mono`: rounding is monotone.
* `roundTo_zpow`: it leaves powers of two.
* `roundTo_zpow_mul`: and it commutes with them.
* `roundTo_exact`: numbers with few digits are not changed.
* `le_floatDiv`: a quotient of rounded numbers is not rounded below a power of two.
-/

namespace Opd.Lib

/-! ## Rounding to integers -/

def roundEven (x : ℚ) : ℤ :=
  let r := x - ⌊x⌋
  if r < 1 / 2 then ⌊x⌋
  else if 1 / 2 < r then ⌊x⌋ + 1
  else if ⌊x⌋ % 2 = 0 then ⌊x⌋
  else ⌊x⌋ + 1

theorem roundEven_intCast (n : ℤ) : roundEven n = n := by
  unfold roundEven
  simp

theorem floor_le_roundEven (x : ℚ) : ⌊x⌋ ≤ roundEven x ∧ roundEven x ≤ ⌊x⌋ + 1 := by
  unfold roundEven
  simp only
  split_ifs <;> omega

theorem roundEven_mono {x y : ℚ} (h : x ≤ y) : roundEven x ≤ roundEven y := by
  have hx := floor_le_roundEven x
  have hy := floor_le_roundEven y
  rcases (Int.floor_mono h).lt_or_eq with hlt | heq
  · omega
  · -- between the same two integers
    unfold roundEven
    simp only [heq]
    split_ifs <;> first | omega | (exfalso; linarith)

/-! ## Rounding to binary digits -/

/-- The exponent of the last of `p` binary digits. -/
def lastDigit (p : ℕ) (x : ℚ) : ℤ := Int.log 2 x + 1 - p

/-- The closest number with `p` binary digits, and between two the even one. -/
def roundTo (p : ℕ) (x : ℚ) : ℚ :=
  if x ≤ 0 then 0 else roundEven (x / 2 ^ lastDigit p x) * 2 ^ lastDigit p x

section RoundTo

variable {p : ℕ} {x y : ℚ}

theorem two_zpow_pos (k : ℤ) : (0 : ℚ) < 2 ^ k := zpow_pos rfl k

theorem log_zpow_mul (hx : 0 < x) (j : ℤ) : Int.log 2 (2 ^ j * x) = j + Int.log 2 x := by
  have hpos : 0 < 2 ^ j * x := mul_pos (two_zpow_pos j) hx
  refine eq_of_forall_le_iff fun k => ?_
  have hscaled := Int.zpow_le_iff_le_log (R := ℚ) Nat.one_lt_two (x := k) hpos
  have hplain := Int.zpow_le_iff_le_log (R := ℚ) Nat.one_lt_two (x := k - j) hx
  rw [Nat.cast_ofNat] at hscaled hplain
  rw [← hscaled, show k ≤ j + Int.log 2 x ↔ k - j ≤ Int.log 2 x by omega, ← hplain, zpow_sub₀ two_ne_zero,
    div_le_iff₀' (two_zpow_pos j)]

/-- **Rounding commutes with powers of two.** -/
theorem roundTo_zpow_mul (p : ℕ) (x : ℚ) (j : ℤ) : roundTo p (2 ^ j * x) = 2 ^ j * roundTo p x := by
  have hj := two_zpow_pos j
  unfold roundTo
  by_cases hx : x ≤ 0
  · rw [if_pos hx, if_pos (mul_nonpos_of_nonneg_of_nonpos hj.le hx), mul_zero]
  · have hpos : 0 < x := not_le.1 hx
    have hdigit : lastDigit p (2 ^ j * x) = j + lastDigit p x := by
      unfold lastDigit
      rw [log_zpow_mul hpos]
      omega
    rw [if_neg hx, if_neg (not_le.2 (mul_pos hj hpos)), hdigit, zpow_add₀ two_ne_zero,
      mul_div_mul_left _ _ hj.ne', mul_left_comm]

theorem two_pow_mul_lastDigit (p k : ℕ) (x : ℚ) :
    ((2 ^ k : ℤ) : ℚ) * 2 ^ lastDigit p x = 2 ^ (k + lastDigit p x : ℤ) := by
  rw [zpow_add₀ two_ne_zero, zpow_natCast, Int.cast_pow, Int.cast_ofNat]

theorem digits_spec (hp : 0 < p) (hx : 0 < x) :
    (2 ^ (p - 1) : ℤ) ≤ ⌊x / 2 ^ lastDigit p x⌋ ∧ ⌊x / 2 ^ lastDigit p x⌋ < 2 ^ p := by
  have hpos := two_zpow_pos (lastDigit p x)
  have hle := Int.zpow_log_le_self (R := ℚ) Nat.one_lt_two hx
  have hlt := Int.lt_zpow_succ_log_self (R := ℚ) Nat.one_lt_two x
  rw [Nat.cast_ofNat] at hle hlt
  constructor
  · rw [Int.le_floor, le_div_iff₀ hpos, two_pow_mul_lastDigit,
      show ((p - 1 : ℕ) : ℤ) + lastDigit p x = Int.log 2 x by unfold lastDigit; omega]
    exact hle
  · rw [Int.floor_lt, div_lt_iff₀ hpos, two_pow_mul_lastDigit,
      show (p : ℤ) + lastDigit p x = Int.log 2 x + 1 by unfold lastDigit; omega]
    exact hlt

theorem roundTo_zero (p : ℕ) : roundTo p 0 = 0 := if_pos le_rfl

theorem roundTo_bounds (hp : 0 < p) (hx : 0 < x) :
    2 ^ Int.log 2 x ≤ roundTo p x ∧ roundTo p x ≤ 2 ^ (Int.log 2 x + 1) := by
  have hpos := two_zpow_pos (lastDigit p x)
  obtain ⟨hlow, hhigh⟩ := digits_spec hp hx
  obtain ⟨hfloor, hceil⟩ := floor_le_roundEven (x / 2 ^ lastDigit p x)
  rw [roundTo, if_neg (not_le.2 hx)]
  constructor
  · rw [show Int.log 2 x = ((p - 1 : ℕ) : ℤ) + lastDigit p x by unfold lastDigit; omega, ← two_pow_mul_lastDigit]
    exact mul_le_mul_of_nonneg_right (Int.cast_le.2 (hlow.trans hfloor)) hpos.le
  · rw [show Int.log 2 x + 1 = (p : ℤ) + lastDigit p x by unfold lastDigit; omega, ← two_pow_mul_lastDigit]
    exact mul_le_mul_of_nonneg_right (Int.cast_le.2 (by omega)) hpos.le

theorem roundTo_nonneg (hp : 0 < p) (x : ℚ) : 0 ≤ roundTo p x := by
  by_cases hx : x ≤ 0
  · rw [roundTo, if_pos hx]
  · exact (two_zpow_pos _).le.trans (roundTo_bounds hp (not_le.1 hx)).1

theorem roundTo_mono (hp : 0 < p) (h : x ≤ y) : roundTo p x ≤ roundTo p y := by
  by_cases hx : x ≤ 0
  · rw [roundTo, if_pos hx]
    exact roundTo_nonneg hp y
  · have hposX : 0 < x := not_le.1 hx
    have hposY : 0 < y := hposX.trans_le h
    rcases (Int.log_mono_right (b := 2) hposX h).lt_or_eq with hlt | heq
    · calc roundTo p x ≤ 2 ^ (Int.log 2 x + 1) := (roundTo_bounds hp hposX).2
        _ ≤ 2 ^ Int.log 2 y := zpow_le_zpow_right₀ one_le_two hlt
        _ ≤ roundTo p y := (roundTo_bounds hp hposY).1
    · have hdigit : lastDigit p y = lastDigit p x := by rw [lastDigit, lastDigit, heq]
      have hpos := two_zpow_pos (lastDigit p x)
      rw [roundTo, roundTo, if_neg hx, if_neg (not_le.2 hposY), hdigit]
      refine mul_le_mul_of_nonneg_right (Int.cast_le.2 (roundEven_mono ?_)) hpos.le
      exact (div_le_div_iff_of_pos_right hpos).2 h

/-- **Powers of two** are not changed. -/
theorem roundTo_zpow (hp : 0 < p) (j : ℤ) : roundTo p (2 ^ j) = 2 ^ j := by
  have hone : roundTo p 1 = 1 := by
    have hdigit : lastDigit p 1 = -((p - 1 : ℕ) : ℤ) := by
      unfold lastDigit
      rw [Int.log_one_right]
      omega
    have hdiv : (1 : ℚ) / 2 ^ (-((p - 1 : ℕ) : ℤ)) = ((2 ^ (p - 1) : ℤ) : ℚ) := by
      rw [zpow_neg, one_div, inv_inv, zpow_natCast, Int.cast_pow, Int.cast_ofNat]
    rw [roundTo, if_neg (not_le.2 one_pos), hdigit, hdiv, roundEven_intCast, ← hdiv,
      div_mul_cancel₀ _ (two_zpow_pos _).ne']
  have hmul := roundTo_zpow_mul p 1 j
  rwa [mul_one, hone, mul_one] at hmul

theorem roundTo_one (hp : 0 < p) : roundTo p 1 = 1 := by
  have hone := roundTo_zpow hp 0
  rwa [zpow_zero] at hone

/-- **Integers with few digits**, and what is obtained by scaling them with a power of two. -/
theorem roundTo_exact {p m : ℕ} (hm : m < 2 ^ p) (j : ℤ) : roundTo p (2 ^ j * m) = 2 ^ j * m := by
  rw [roundTo_zpow_mul]
  congr 1
  rcases Nat.eq_zero_or_pos m with rfl | hpos
  · rw [Nat.cast_zero, roundTo_zero]
  · have hlog : Nat.log 2 m < p := Nat.log_lt_of_lt_pow hpos.ne' hm
    obtain ⟨k, hk⟩ : ∃ k : ℕ, lastDigit p (m : ℚ) = -(k : ℤ) := by
      refine ⟨p - 1 - Nat.log 2 m, ?_⟩
      unfold lastDigit
      rw [Int.log_natCast]
      omega
    have hdigits : (m : ℚ) / 2 ^ lastDigit p (m : ℚ) = ((m * 2 ^ k : ℤ) : ℚ) := by
      rw [hk, zpow_neg, div_inv_eq_mul, zpow_natCast, Int.cast_mul, Int.cast_pow, Int.cast_ofNat, Int.cast_natCast]
    rw [roundTo, if_neg (not_le.2 (Nat.cast_pos.2 hpos)), hdigits, roundEven_intCast, ← hdigits,
      div_mul_cancel₀ _ (two_zpow_pos _).ne']

/-! ## Quotients -/

/-- The quotient of numbers that are rounded, rounded. -/
def floatDiv (p : ℕ) (a b : ℚ) : ℚ := roundTo p (roundTo p a / roundTo p b)

/-- **A quotient** that is a power of two or more is not rounded below it. -/
theorem le_floatDiv (hp : 0 < p) {a b : ℚ} (hb : 0 < b) {j : ℤ} (h : 2 ^ j * b ≤ a) : 2 ^ j ≤ floatDiv p a b := by
  have hpos : 0 < roundTo p b := (two_zpow_pos _).trans_le (roundTo_bounds hp hb).1
  have hround : 2 ^ j * roundTo p b ≤ roundTo p a := by
    rw [← roundTo_zpow_mul]
    exact roundTo_mono hp h
  have hdiv : (2 : ℚ) ^ j ≤ roundTo p a / roundTo p b := (le_div_iff₀ hpos).2 hround
  have hmono := roundTo_mono hp hdiv
  rwa [roundTo_zpow hp] at hmono

end RoundTo

end Opd.Lib

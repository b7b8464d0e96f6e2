import Mathlib.Data.Int.Notation
import Mathlib.Data.List.DropRight
import Mathlib.Order.Basic

/-!
# Decimal numbers in texts

The decimal text of an integer, and the integer of a text as Python reads it.

* `strip_eq_self`: a text with no white space at its ends.
* `intOfText_textOfInt`: the decimal text of an integer is read as that integer.
-/

namespace Opd.Lib

/-- `str.isspace`, of one character. -/
def isSpace (c : Char) : Bool :=
  (9 ≤ c.toNat && c.toNat ≤ 13) || (28 ≤ c.toNat && c.toNat ≤ 32) || c.toNat = 133 || c.toNat = 160 ||
    c.toNat = 5760 || (8192 ≤ c.toNat && c.toNat ≤ 8202) || c.toNat = 8232 || c.toNat = 8233 || c.toNat = 8239 ||
    c.toNat = 8287 || c.toNat = 12288

/-- `str.strip()` -/
def strip (text : List Char) : List Char := (text.dropWhile isSpace).rdropWhile isSpace

/-- Decimal digits, with single underscores between them. -/
def natOfText (text : List Char) : Option ℕ :=
  if ∀ group ∈ text.splitOn '_', group ≠ [] ∧ group.all Char.isDigit = true then
    some (Nat.ofDigitChars 10 (text.filter (· ≠ '_')) 0)
  else none

/-- `int(text)`: digits, with or without a sign and white space around them. -/
def intOfText (text : List Char) : Option ℤ :=
  match strip text with
  | [] => none
  | sign :: digits =>
    if sign = '-' then (natOfText digits).map fun n => -Int.ofNat n
    else if sign = '+' then (natOfText digits).map Int.ofNat
    else (natOfText (sign :: digits)).map Int.ofNat

/-- `str(z)` -/
def textOfInt : ℤ → List Char
  | .ofNat n => Nat.toDigits 10 n
  | .negSucc n => '-' :: Nat.toDigits 10 (n + 1)

/-- **Nothing is stripped** from a text that neither starts nor ends with white space. -/
theorem strip_eq_self {text : List Char} (hhead : ∀ c ∈ text.head?, isSpace c = false)
    (hlast : ∀ c ∈ text.getLast?, isSpace c = false) : strip text = text := by
  have hdrop : text.dropWhile isSpace = text := by
    cases text with
    | nil => rfl
    | cons c rest => exact List.dropWhile_cons_of_neg (by rw [hhead c rfl]; exact Bool.false_ne_true)
  unfold strip
  rw [hdrop]
  refine List.rdropWhile_eq_self_iff.2 fun hne => ?_
  rw [hlast _ (List.getLast?_eq_some_getLast hne)]
  exact Bool.false_ne_true

theorem isSpace_of_isDigit {c : Char} (h : c.isDigit = true) : isSpace c = false := by
  have hrange : 48 ≤ c.toNat ∧ c.toNat ≤ 57 := by
    rw [Char.isDigit, Bool.and_eq_true, decide_eq_true_eq, decide_eq_true_eq] at h
    exact h
  unfold isSpace
  simp only [Bool.or_eq_false_iff, Bool.and_eq_false_iff, decide_eq_false_iff_not]
  omega

theorem natOfText_toDigits (n : ℕ) : natOfText (Nat.toDigits 10 n) = some n := by
  have hdigit : ∀ c ∈ Nat.toDigits 10 n, c.isDigit = true := fun c hc =>
    Nat.isDigit_of_mem_toDigits (by omega) (Nat.le_refl 10) hc
  have hne : ∀ c ∈ Nat.toDigits 10 n, decide (c ≠ '_') = true := by
    intro c hc
    refine decide_eq_true ?_
    rintro rfl
    exact Nat.underscore_not_in_toDigits hc
  have hsplit : (Nat.toDigits 10 n).splitOn '_' = [Nat.toDigits 10 n] := by
    refine List.splitOnP_eq_singleton fun c hc => ?_
    exact beq_false_of_ne (of_decide_eq_true (hne c hc))
  unfold natOfText
  rw [hsplit, if_pos, List.filter_eq_self.2 hne, Nat.ofDigitChars_ten_toDigits]
  intro group hgroup
  rw [List.mem_singleton.1 hgroup]
  exact ⟨Nat.toDigits_ne_nil, List.all_eq_true.2 hdigit⟩

theorem isDigit_of_mem_textOfInt {z : ℤ} {c : Char} (h : c ∈ textOfInt z) : c.isDigit = true ∨ c = '-' := by
  have hdigit : ∀ n : ℕ, c ∈ Nat.toDigits 10 n → c.isDigit = true := fun n hc =>
    Nat.isDigit_of_mem_toDigits (by omega) (Nat.le_refl 10) hc
  cases z with
  | ofNat n => exact .inl (hdigit n h)
  | negSucc n =>
    rcases List.mem_cons.1 h with heq | htail
    · exact .inr heq
    · exact .inl (hdigit (n + 1) htail)

theorem textOfInt_ne_nil (z : ℤ) : textOfInt z ≠ [] := by
  cases z with
  | ofNat n => exact Nat.toDigits_ne_nil
  | negSucc n => exact List.cons_ne_nil _ _

theorem strip_textOfInt (z : ℤ) : strip (textOfInt z) = textOfInt z := by
  have hspace : ∀ c ∈ textOfInt z, isSpace c = false := by
    intro c hc
    rcases isDigit_of_mem_textOfInt hc with hdigit | rfl
    · exact isSpace_of_isDigit hdigit
    · rfl
  exact strip_eq_self (fun c hc => hspace c (List.mem_of_mem_head? hc))
    fun c hc => hspace c (List.mem_of_mem_getLast? hc)

/-- **The decimal text of an integer** is read as that integer. -/
theorem intOfText_textOfInt (z : ℤ) : intOfText (textOfInt z) = some z := by
  unfold intOfText
  rw [strip_textOfInt]
  cases z with
  | ofNat n =>
    obtain ⟨c, rest, hdigits⟩ := List.exists_cons_of_ne_nil (Nat.toDigits_ne_nil (n := n) (b := 10))
    have hc : c.isDigit = true :=
      Nat.isDigit_of_mem_toDigits (by omega) (Nat.le_refl 10) (hdigits ▸ List.mem_cons_self)
    have hread := natOfText_toDigits n
    have hminus : c ≠ '-' := by
      rintro rfl
      exact absurd hc (by decide)
    have hplus : c ≠ '+' := by
      rintro rfl
      exact absurd hc (by decide)
    rw [hdigits] at hread
    simp only [textOfInt, hdigits]
    rw [if_neg hminus, if_neg hplus, hread]
    rfl
  | negSucc n =>
    simp only [textOfInt, if_true]
    rw [natOfText_toDigits]
    rfl

end Opd.Lib

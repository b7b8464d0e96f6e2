import Mathlib.Algebra.Order.Floor.Ring
import Mathlib.Data.Rat.Floor
import Mathlib.Data.String.Basic
import Mathlib.Data.Sum.Order
import Opd.Lib.Grouping
import Opd.Lib.Tensor

/-!
# Group indices

The rows of a batch are grouped by the labels of an index array. `as_torch_index` converts the labels to
integers, or numbers them by `np.unique`.

* `uniqueInverse_sameGroups`: `np.unique` numbers the labels it can sort.
* `asTorchIndex_iff`: the integers make the groups of the labels, and are not negative, exactly if
  the conversion keeps the labels apart.
-/

namespace Opd.Verl.GroupIndex

open Lib

/-! ## Labels -/

inductive Label
  | int (z : ℤ)
  | float (q : ℚ)
  | str (s : String)
  deriving DecidableEq

def Key := Lex (ℚ ⊕ String)

instance : LinearOrder Key := inferInstanceAs (LinearOrder (Lex (ℚ ⊕ String)))

/-- Numbers are before strings. They are only compared where there is one kind. -/
def Key.of : ℚ ⊕ String → Key := toLex

theorem Key.of_injective : Function.Injective Key.of := toLex.injective

def Label.key : Label → Key
  | .int z => .of (.inl z)
  | .float q => .of (.inl q)
  | .str s => .of (.inr s)

def Label.isStr : Label → Bool
  | .str _ => true
  | _ => false

/-- An index array: with a dtype for integers, for floats or for strings, or of objects. -/
inductive IndexArray
  | ints (l : List ℤ) (range : ∀ z ∈ l, -2 ^ 63 ≤ z ∧ z < 2 ^ 64)
  | floats (l : List ℚ)
  | strs (l : List String)
  | objects (l : List Label)

def IndexArray.labels : IndexArray → List Label
  | .ints l _ => l.map .int
  | .floats l => l.map .float
  | .strs l => l.map .str
  | .objects l => l

def IndexArray.keys (a : IndexArray) : List Key := a.labels.map Label.key

/-- Conversions of Python: `int(s)`, if `s` is a number, `str(x)`, and the result of a cast of a float to `int64` that
is out of range. -/
structure Conversions where
  intOfStr : String → Option ℤ
  str : Label → String
  overflow : ℤ → ℤ

variable (c : Conversions)

/-- A number that `int64` can hold. -/
def toInt64 (z : ℤ) : Option ℤ := if -2 ^ 63 ≤ z ∧ z < 2 ^ 63 then some z else none

/-- The integer towards zero. -/
def trunc (q : ℚ) : ℤ := if 0 ≤ q then ⌊q⌋ else ⌈q⌉

/-- `np.rint`: the nearest integer, the even one of two. -/
def rint (q : ℚ) : ℤ :=
  if q - ⌊q⌋ < 1 / 2 then ⌊q⌋ else if 1 / 2 < q - ⌊q⌋ then ⌊q⌋ + 1 else if ⌊q⌋ % 2 = 0 then ⌊q⌋ else ⌊q⌋ + 1

/-- `int(x)`, as an `int64`. -/
def pyInt : Label → Option ℤ
  | .int z => toInt64 z
  | .float q => toInt64 (trunc q)
  | .str s => (c.intOfStr s).bind toInt64

/-- `astype(np.int64)` of a float with an integer value. -/
def castFloat (z : ℤ) : ℤ := (toInt64 z).getD (c.overflow z)

/-- Labels that `np.unique` can sort. -/
def Sortable (labels : List Label) : Prop := (∀ l ∈ labels, l.isStr = true) ∨ ∀ l ∈ labels, l.isStr = false

instance (labels : List Label) : Decidable (Sortable labels) := inferInstanceAs (Decidable (_ ∨ _))

/-- `np.unique(keys, return_inverse=True)[1]`, of keys that can be sorted. -/
def uniqueInverse {κ : Type} [LinearOrder κ] (keys : List κ) : List ℕ := keys.map (rank keys)

/-- The same, of labels; those that cannot be compared are a `TypeError`. -/
def unique (labels : List Label) : Option (List ℕ) :=
  if Sortable labels then some (uniqueInverse (labels.map Label.key)) else none

def factorize (labels : List Label) : List ℕ := (unique labels).getD (uniqueInverse (labels.map c.str))

/-- What is left after the tests of the dtype: the conversion to integers, or else the factorization. -/
def coerce (labels : List Label) : List ℤ :=
  match labels.mapM (pyInt c) with
  | some coerced => coerced
  | none => (factorize c labels).map Int.ofNat

def NearIntegers (l : List ℚ) : Prop := ∀ q ∈ l, |q - rint q| ≤ 1 / 1000000

instance (l : List ℚ) : Decidable (NearIntegers l) := inferInstanceAs (Decidable (∀ q ∈ l, _))

/-- What becomes of a float: it is rounded if all floats are nearly integers. Otherwise `astype` cuts it off. -/
def convertFloat (l : List ℚ) (q : ℚ) : ℤ := castFloat c (if NearIntegers l then rint q else trunc q)

/-- `as_torch_index`, of an array. -/
def asTorchIndex : IndexArray → List ℤ
  | .ints l _ => l.map fun z => Int.bmod z (2 ^ 64)
  | .floats l => l.map (convertFloat c l)
  | .strs l => coerce c (l.map .str)
  | .objects l => coerce c l

/-! ## Which labels stay apart -/

/-- The integers for some labels keep them apart, and are not negative. -/
def KeepsApart {κ : Type} (f : κ → ℤ) (l : List κ) : Prop :=
  (∀ a ∈ l, 0 ≤ f a) ∧ ∀ a ∈ l, ∀ b ∈ l, f a = f b → a = b

/-- Labels that stay apart if they are converted, or else factorized. -/
def LabelsApart (labels : List Label) : Prop :=
  match labels.mapM (pyInt c) with
  | some coerced => (∀ z ∈ coerced, 0 ≤ z) ∧
      ∀ p ∈ labels.zip coerced, ∀ q ∈ labels.zip coerced, p.2 = q.2 → p.1.key = q.1.key
  | none => Sortable labels ∨ ∀ l ∈ labels, ∀ m ∈ labels, c.str l = c.str m ↔ l.key = m.key

/-- **Labels that stay apart**: integers that `int64` can hold and that are not negative, floats that stay different
numbers and are not negative, and labels that stay apart if they are converted. -/
def Apart : IndexArray → Prop
  | .ints l _ => ∀ z ∈ l, 0 ≤ z ∧ z < 2 ^ 63
  | .floats l => KeepsApart (convertFloat c l) l
  | .strs l => LabelsApart c (l.map .str)
  | .objects l => LabelsApart c l

/-! ## The groups of the indices -/

theorem key_float (q r : ℚ) : (Label.float q).key = (Label.float r).key ↔ q = r := by
  constructor
  · intro h
    exact Sum.inl.inj (Key.of_injective h)
  · rintro rfl
    rfl

theorem key_int (y z : ℤ) : (Label.int y).key = (Label.int z).key ↔ y = z := by
  rw [show (Label.int y).key = (Label.float y).key from rfl, show (Label.int z).key = (Label.float z).key from rfl,
    key_float]
  exact Int.cast_inj

theorem trunc_intCast (z : ℤ) : trunc z = z := by
  unfold trunc
  split
  · exact Int.floor_intCast z
  · exact Int.ceil_intCast z

theorem pyInt_congr {l m : Label} (h : l.key = m.key) : pyInt c l = pyInt c m := by
  cases l with
  | int y =>
    cases m with
    | int z => rw [(key_int y z).1 h]
    | float r =>
      rw [← (key_float y r).1 h]
      show toInt64 y = toInt64 (trunc y)
      rw [trunc_intCast]
    | str s => cases Key.of_injective h
  | float q =>
    cases m with
    | int z =>
      rw [(key_float q z).1 h]
      show toInt64 (trunc z) = toInt64 z
      rw [trunc_intCast]
    | float r => rw [(key_float q r).1 h]
    | str s => cases Key.of_injective h
  | str s =>
    cases m with
    | int z => cases Key.of_injective h
    | float r => cases Key.of_injective h
    | str t => rw [Sum.inr.inj (Key.of_injective h)]

/-- **`np.unique`** numbers the keys. -/
theorem uniqueInverse_iff {α κ κ' : Type} [LinearOrder κ] {l : List α} {f : α → κ} {g : α → κ'} :
    SameGroups (l.map g) ((uniqueInverse (l.map f)).map Int.ofNat) ↔ ∀ a ∈ l, ∀ b ∈ l, f a = f b ↔ g a = g b := by
  unfold uniqueInverse
  rw [List.map_map, List.map_map, sameGroups_map_iff]
  refine forall₂_congr fun a ha => forall₂_congr fun b hb => ?_
  have hrank : ((rank (l.map f) (f a) : ℤ) = rank (l.map f) (f b)) ↔ f a = f b := by
    constructor
    · intro h
      exact rank_inj (List.mem_map_of_mem ha) (List.mem_map_of_mem hb) (Int.ofNat.inj h)
    · intro h
      rw [h]
  exact ⟨fun h => hrank.symm.trans h.symm, fun h => h.symm.trans hrank.symm⟩

theorem coerce_iff (labels : List Label) :
    SameGroups (labels.map Label.key) (coerce c labels) ∧ (∀ z ∈ coerce c labels, 0 ≤ z) ↔ LabelsApart c labels := by
  unfold coerce LabelsApart
  cases hcoerced : labels.mapM (pyInt c) with
  | some coerced =>
    have hall := mapM_eq_some_iff.1 hcoerced
    have hpair : ∀ p ∈ labels.zip coerced, pyInt c p.1 = some p.2 := fun p hp => List.forall₂_zip hall hp
    simp only
    constructor
    · rintro ⟨⟨-, heq⟩, hpos⟩
      refine ⟨hpos, fun p hp q hq h => ?_⟩
      rw [List.zip_map_left] at heq
      exact (heq _ (List.mem_map_of_mem hp) _ (List.mem_map_of_mem hq)).2 h
    · rintro ⟨hpos, hapart⟩
      refine ⟨⟨by rw [List.length_map, hall.length_eq], ?_⟩, hpos⟩
      rw [List.zip_map_left]
      intro p' hp' q' hq'
      obtain ⟨p, hp, rfl⟩ := List.mem_map.1 hp'
      obtain ⟨q, hq, rfl⟩ := List.mem_map.1 hq'
      refine ⟨fun h => ?_, hapart p hp q hq⟩
      have hsame := pyInt_congr c h
      rw [hpair p hp, hpair q hq] at hsame
      exact Option.some.inj hsame
  | none =>
    have hpos : ∀ z ∈ (factorize c labels).map Int.ofNat, 0 ≤ z := by
      intro z hz
      obtain ⟨n, -, rfl⟩ := List.mem_map.1 hz
      exact Int.natCast_nonneg n
    simp only
    rw [and_iff_left hpos]
    unfold factorize unique
    by_cases hsort : Sortable labels
    · rw [if_pos hsort, Option.getD_some]
      exact ⟨fun _ => .inl hsort, fun _ => uniqueInverse_iff.2 fun _ _ _ _ => Iff.rfl⟩
    · rw [if_neg hsort, Option.getD_none, uniqueInverse_iff]
      exact ⟨.inr, fun h => h.resolve_left hsort⟩

/-- **The indices make the groups of the labels**, and are not negative, exactly if the labels stay apart. -/
theorem asTorchIndex_iff (a : IndexArray) :
    SameGroups a.keys (asTorchIndex c a) ∧ (∀ z ∈ asTorchIndex c a, 0 ≤ z) ↔ Apart c a := by
  cases a with
  | ints l hrange =>
    have hwrap : ∀ z ∈ l, 0 ≤ Int.bmod z (2 ^ 64) ↔ 0 ≤ z ∧ z < 2 ^ 63 := by
      intro z hz
      have := hrange z hz
      rw [Int.bmod_def]
      omega
    have hsmall : ∀ z : ℤ, 0 ≤ z ∧ z < 2 ^ 63 → Int.bmod z (2 ^ 64) = z := by
      intro z hz
      rw [Int.bmod_def]
      omega
    unfold IndexArray.keys IndexArray.labels asTorchIndex Apart
    rw [List.map_map, sameGroups_map_iff]
    constructor
    · rintro ⟨-, hpos⟩ z hz
      exact (hwrap z hz).1 (hpos _ (List.mem_map_of_mem hz))
    · intro h
      refine ⟨fun y hy z hz => ?_, fun w hw => ?_⟩
      · rw [hsmall y (h y hy), hsmall z (h z hz)]
        exact key_int y z
      · obtain ⟨z, hz, rfl⟩ := List.mem_map.1 hw
        exact (hwrap z hz).2 (h z hz)
  | floats l =>
    unfold IndexArray.keys IndexArray.labels asTorchIndex Apart KeepsApart
    rw [List.map_map, sameGroups_map_iff]
    constructor
    · rintro ⟨heq, hpos⟩
      refine ⟨fun q hq => hpos _ (List.mem_map_of_mem hq), fun q hq r hr h => ?_⟩
      exact (key_float q r).1 ((heq q hq r hr).2 h)
    · rintro ⟨hpos, hapart⟩
      refine ⟨fun q hq r hr => ?_, fun z hz => ?_⟩
      · rw [Function.comp_apply, Function.comp_apply, key_float]
        exact ⟨fun h => by rw [h], hapart q hq r hr⟩
      · obtain ⟨q, hq, rfl⟩ := List.mem_map.1 hz
        exact hpos q hq
  | strs l => exact coerce_iff c _
  | objects l => exact coerce_iff c l

end Opd.Verl.GroupIndex

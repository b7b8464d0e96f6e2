import Mathlib.Data.Bool.AllAny
import Opd.Lib.Decimal
import Opd.Lib.Dict
import Opd.Lib.Occurrences

/-!
# Texts of values

Values as Python's `json` writes them, and a reader of such texts. The reader takes the constants and the
escapes of a language as a grammar, so that it reads JSON and the literals of Python.

* `readNumber_append`, `readChars_dumpsStr`: a number and a text are read up to their end.
* `readValue_dumps`: a value is read as it was written.
* `loads_dumps`, `dumps_injective`: JSON.
* `readLiteral_dumps`: numbers, texts, arrays and objects are also literals of Python.
-/

namespace Opd.Lib

/-- A value that `json.dumps` writes. `F` is the type of floating-point numbers. -/
inductive JsonValue (F : Type)
  | null
  | bool (b : Bool)
  | int (z : ℤ)
  | float (x : F)
  | str (s : List Char)
  | arr (items : List (JsonValue F))
  | obj (items : List (List Char × JsonValue F))

/-- The texts of floating-point numbers: `repr` and `float`, which fails on other texts. -/
structure FloatFormat (F : Type) where
  repr : F → List Char
  ofText : List Char → Option F
  nan : F
  inf : F
  negInf : F

/-- What the texts of a language's values can contain: constants, and characters behind a backslash.
`pairs` is whether the escapes of two surrogates are one character. -/
structure Grammar (F : Type) where
  constants : List (List Char × JsonValue F)
  escapes : List (Char × Char)
  pairs : Bool

/-! ## Writing -/

/-- `ESCAPE_DCT`: the characters that are written as a backslash and another character. -/
def shortEscapes : List (Char × Char) :=
  [('\x22', '\x22'), ('\\', '\\'), ('\n', 'n'), ('\r', 'r'), ('\t', 't'), ('\x08', 'b'), ('\x0c', 'f')]

def hexDigit (n : ℕ) : Char := Nat.digitChar n

/-- One character of a text in `json.dumps(.., ensure_ascii=False)`. -/
def escapeChar (c : Char) : List Char :=
  match shortEscapes.lookup c with
  | some e => ['\\', e]
  | none => if c.toNat < 32 then ['\\', 'u', '0', '0', hexDigit (c.toNat / 16), hexDigit (c.toNat % 16)] else [c]

def dumpsStr (s : List Char) : List Char := '\x22' :: (s.flatMap escapeChar ++ ['\x22'])

section dumps

variable {F : Type} (Φ : FloatFormat F)

mutual
/-- `json.dumps(value, ensure_ascii=False)` -/
def dumps : JsonValue F → List Char
  | .null => "null".toList
  | .bool true => "true".toList
  | .bool false => "false".toList
  | .int z => textOfInt z
  | .float x => Φ.repr x
  | .str s => dumpsStr s
  | .arr [] => "[]".toList
  | .arr (v :: items) => '[' :: (dumps v ++ dumpsItems items)
  | .obj [] => "{}".toList
  | .obj ((k, v) :: items) => '{' :: (dumpsStr k ++ (':' :: ' ' :: (dumps v ++ dumpsMembers items)))
def dumpsItems : List (JsonValue F) → List Char
  | [] => [']']
  | v :: items => ',' :: ' ' :: (dumps v ++ dumpsItems items)
def dumpsMembers : List (List Char × JsonValue F) → List Char
  | [] => ['}']
  | (k, v) :: items => ',' :: ' ' :: (dumpsStr k ++ (':' :: ' ' :: (dumps v ++ dumpsMembers items)))
end

end dumps

/-! ## Reading -/

def skipSpaces (l : List Char) : List Char := l.dropWhile fun c => c = ' ' || c = '\t' || c = '\n' || c = '\r'

def hexValue (c : Char) : Option ℕ :=
  if c.isDigit then some (c.toNat - 48)
  else if 'a' ≤ c ∧ c ≤ 'f' then some (c.toNat - 87)
  else if 'A' ≤ c ∧ c ≤ 'F' then some (c.toNat - 55)
  else none

def readHex : List Char → Option (ℕ × List Char)
  | a :: b :: c :: d :: l =>
    (hexValue a).bind fun a => (hexValue b).bind fun b => (hexValue c).bind fun c => (hexValue d).map fun d =>
      (((a * 16 + b) * 16 + c) * 16 + d, l)
  | _ => none

/-- A character that is written as its code. A surrogate alone is no character. -/
def readCode (pairs : Bool) (l : List Char) : Option (Char × List Char) :=
  (readHex l).bind fun high =>
    if 0xD800 ≤ high.1 ∧ high.1 < 0xDC00 then
      if pairs && ['\\', 'u'].isPrefixOf high.2 then
        (readHex (high.2.drop 2)).bind fun low =>
          if 0xDC00 ≤ low.1 ∧ low.1 < 0xE000 then
            some (Char.ofNat (0x10000 + (high.1 - 0xD800) * 0x400 + (low.1 - 0xDC00)), low.2)
          else none
      else none
    else if 0xDC00 ≤ high.1 ∧ high.1 < 0xE000 then none
    else some (Char.ofNat high.1, high.2)

def readEscape {F : Type} (g : Grammar F) : List Char → Option (Char × List Char)
  | [] => none
  | c :: l => if c = 'u' then readCode g.pairs l else (g.escapes.lookup c).map fun d => (d, l)

/-- The characters of a text up to the quotation mark that ends it. -/
def readChars {F : Type} (g : Grammar F) : ℕ → List Char → Option (List Char × List Char)
  | 0, _ => none
  | _ + 1, [] => none
  | fuel + 1, c :: l =>
    if c = '\x22' then some ([], l)
    else if c = '\\' then
      (readEscape g l).bind fun x => (readChars g fuel x.2).map fun y => (x.1 :: y.1, y.2)
    else if c.toNat < 32 then none
    else (readChars g fuel l).map fun y => (c :: y.1, y.2)

def splitSign (l : List Char) : List Char × List Char :=
  match l with
  | '-' :: rest => (['-'], rest)
  | _ => ([], l)

/-- The integer part of a number: a zero, or digits that do not start with one. -/
def splitInteger : List Char → Option (List Char × List Char)
  | [] => none
  | c :: l =>
    if c = '0' then some (['0'], l)
    else if c.isDigit then some (c :: l.takeWhile Char.isDigit, l.dropWhile Char.isDigit)
    else none

def splitFraction (l : List Char) : List Char × List Char :=
  match l with
  | '.' :: rest =>
    if rest.takeWhile Char.isDigit = [] then ([], l)
    else ('.' :: rest.takeWhile Char.isDigit, rest.dropWhile Char.isDigit)
  | _ => ([], l)

def splitExponentSign (l : List Char) : List Char × List Char :=
  match l with
  | '-' :: rest => (['-'], rest)
  | '+' :: rest => (['+'], rest)
  | _ => ([], l)

def splitExponent (l : List Char) : List Char × List Char :=
  match l with
  | [] => ([], l)
  | c :: rest =>
    let sign := splitExponentSign rest
    if (c = 'e' ∨ c = 'E') ∧ sign.2.takeWhile Char.isDigit ≠ [] then
      (c :: (sign.1 ++ sign.2.takeWhile Char.isDigit), sign.2.dropWhile Char.isDigit)
    else ([], l)

section read

variable {F : Type} (Φ : FloatFormat F) (g : Grammar F)

/-- `NUMBER_RE`: an integer, or with a fraction or an exponent a floating-point number. -/
def readNumber (l : List Char) : Option (JsonValue F × List Char) :=
  let sign := splitSign l
  (splitInteger sign.2).bind fun integer =>
    let fraction := splitFraction integer.2
    let exponent := splitExponent fraction.2
    if fraction.1 = [] ∧ exponent.1 = [] then
      (intOfText (sign.1 ++ integer.1)).map fun z => (.int z, exponent.2)
    else (Φ.ofText (sign.1 ++ integer.1 ++ fraction.1 ++ exponent.1)).map fun x => (.float x, exponent.2)

def readConstant (l : List Char) : Option (JsonValue F × List Char) :=
  (g.constants.find? fun k => k.1.isPrefixOf l).map fun k => (k.2, l.drop k.1.length)

mutual
/-- `scan_once`, with a bound on the calls. -/
def readValue : ℕ → List Char → Option (JsonValue F × List Char)
  | 0, _ => none
  | _ + 1, [] => none
  | fuel + 1, c :: l =>
    if c = '\x22' then (readChars g (l.length + 1) l).map fun x => (.str x.1, x.2)
    else if c = '[' then
      match skipSpaces l with
      | [] => none
      | d :: rest =>
        if d = ']' then some (.arr [], rest) else (readItems fuel (d :: rest)).map fun x => (.arr x.1, x.2)
    else if c = '{' then
      match skipSpaces l with
      | [] => none
      | d :: rest =>
        if d = '}' then some (.obj [], rest)
        else (readMembers fuel (d :: rest)).map fun x => (.obj (Dict.empty.merge (fun _ v => v) x.1).items, x.2)
    else (readNumber Φ (c :: l)).or (readConstant g (c :: l))
def readItems : ℕ → List Char → Option (List (JsonValue F) × List Char)
  | 0, _ => none
  | fuel + 1, l =>
    (readValue fuel l).bind fun v =>
      match skipSpaces v.2 with
      | [] => none
      | c :: rest =>
        if c = ']' then some ([v.1], rest)
        else if c = ',' then (readItems fuel (skipSpaces rest)).map fun x => (v.1 :: x.1, x.2)
        else none
def readMembers : ℕ → List Char → Option (List (List Char × JsonValue F) × List Char)
  | 0, _ => none
  | _ + 1, [] => none
  | fuel + 1, q :: l =>
    if q = '\x22' then
      (readChars g (l.length + 1) l).bind fun k =>
        match skipSpaces k.2 with
        | [] => none
        | colon :: rest =>
          if colon = ':' then
            (readValue fuel (skipSpaces rest)).bind fun v =>
              match skipSpaces v.2 with
              | [] => none
              | c :: rest =>
                if c = '}' then some ([(k.1, v.1)], rest)
                else if c = ',' then (readMembers fuel (skipSpaces rest)).map fun x => ((k.1, v.1) :: x.1, x.2)
                else none
          else none
    else none
end

/-- A text that is one value, with white space around it. Each character allows two calls. -/
def readText (l : List Char) : Option (JsonValue F) :=
  (readValue Φ g (2 * l.length + 1) (skipSpaces l)).bind fun v => if skipSpaces v.2 = [] then some v.1 else none

def jsonGrammar : Grammar F where
  constants := [("null".toList, .null), ("true".toList, .bool true), ("false".toList, .bool false),
    ("NaN".toList, .float Φ.nan), ("Infinity".toList, .float Φ.inf), ("-Infinity".toList, .float Φ.negInf)]
  escapes := ('/', '/') :: shortEscapes.map Prod.swap
  pairs := true

/-- `json.loads` -/
def loads (l : List Char) : Option (JsonValue F) := readText Φ (jsonGrammar Φ) l

/-- Literals of Python that are written as in JSON: what `ast.literal_eval` makes of them is the same value. -/
def literalGrammar : Grammar F where
  constants := [("None".toList, .null), ("True".toList, .bool true), ("False".toList, .bool false)]
  escapes := shortEscapes.map Prod.swap
  pairs := false

/-- The value of a list or dictionary display of such literals. -/
def readLiteral (l : List Char) : Option (JsonValue F) := readText Φ literalGrammar l

end read

/-! ## Numbers -/

def Delimited (rest : List Char) : Prop := ∀ c ∈ rest.head?, c = ',' ∨ c = ']' ∨ c = '}'

def IsInteger (t : List Char) : Prop :=
  t = ['0'] ∨ ∃ d ds, t = d :: ds ∧ d ≠ '0' ∧ d.isDigit = true ∧ ∀ c ∈ ds, c.isDigit = true

def IsFraction (t : List Char) : Prop := t = [] ∨ ∃ ds, t = '.' :: ds ∧ ds ≠ [] ∧ ∀ c ∈ ds, c.isDigit = true

def IsExponent (t : List Char) : Prop := t = [] ∨ ∃ e sign ds, t = e :: (sign ++ ds) ∧ (e = 'e' ∨ e = 'E') ∧
  (sign = [] ∨ sign = ['-'] ∨ sign = ['+']) ∧ ds ≠ [] ∧ ∀ c ∈ ds, c.isDigit = true

def IsFloatText (t : List Char) : Prop := ∃ sign integer fraction exponent,
  t = sign ++ integer ++ fraction ++ exponent ∧ (sign = [] ∨ sign = ['-']) ∧ IsInteger integer ∧
    IsFraction fraction ∧ IsExponent exponent ∧ ¬ (fraction = [] ∧ exponent = [])

section numbers

variable {t rest : List Char}

theorem splitInteger_append (h : IsInteger t) (hrest : ∀ c ∈ rest.head?, c.isDigit = false) :
    splitInteger (t ++ rest) = some (t, rest) := by
  rcases h with rfl | ⟨d, ds, rfl, hzero, hd, hds⟩
  · rfl
  · obtain ⟨htake, hdrop⟩ := takeWhile_dropWhile_append hds hrest
    rw [List.cons_append, splitInteger, if_neg hzero, if_pos hd, htake, hdrop]

theorem splitFraction_append (h : IsFraction t) (hrest : ∀ c ∈ rest.head?, c.isDigit = false ∧ c ≠ '.') :
    splitFraction (t ++ rest) = (t, rest) := by
  rcases h with rfl | ⟨ds, rfl, hne, hds⟩
  · cases rest with
    | nil => rfl
    | cons c rest =>
      rw [List.nil_append]
      unfold splitFraction
      split
      · rename_i heq
        exact absurd (List.cons.inj heq).1 (hrest c rfl).2
      · rfl
  · obtain ⟨htake, hdrop⟩ := takeWhile_dropWhile_append hds fun c hc => (hrest c hc).1
    rw [List.cons_append, splitFraction, htake, hdrop, if_neg hne]

theorem splitExponentSign_append {sign ds : List Char} (hsign : sign = [] ∨ sign = ['-'] ∨ sign = ['+'])
    (hne : ds ≠ []) (hds : ∀ c ∈ ds, c.isDigit = true) (rest : List Char) :
    splitExponentSign (sign ++ ds ++ rest) = (sign, ds ++ rest) := by
  rcases hsign with rfl | rfl | rfl
  · obtain ⟨d, ds, rfl⟩ := List.exists_cons_of_ne_nil hne
    have hd := hds d List.mem_cons_self
    rw [List.nil_append, List.cons_append]
    unfold splitExponentSign
    split
    · rename_i heq
      rw [(List.cons.inj heq).1] at hd
      exact absurd hd (by decide)
    · rename_i heq
      rw [(List.cons.inj heq).1] at hd
      exact absurd hd (by decide)
    · rfl
  · rfl
  · rfl

theorem splitExponent_append (h : IsExponent t)
    (hrest : ∀ c ∈ rest.head?, c.isDigit = false ∧ c ≠ 'e' ∧ c ≠ 'E') : splitExponent (t ++ rest) = (t, rest) := by
  rcases h with rfl | ⟨e, sign, ds, rfl, he, hsign, hne, hds⟩
  · cases rest with
    | nil => rfl
    | cons c rest =>
      obtain ⟨_, hlower, hupper⟩ := hrest c rfl
      rw [List.nil_append, splitExponent]
      exact if_neg fun hc => hc.1.elim hlower hupper
  · obtain ⟨htake, hdrop⟩ := takeWhile_dropWhile_append hds fun c hc => (hrest c hc).1
    rw [List.cons_append, splitExponent, splitExponentSign_append hsign hne hds]
    dsimp only
    rw [htake, hdrop, if_pos ⟨he, hne⟩]

theorem splitSign_append {sign integer : List Char} (hsign : sign = [] ∨ sign = ['-']) (h : IsInteger integer)
    (rest : List Char) : splitSign (sign ++ (integer ++ rest)) = (sign, integer ++ rest) := by
  rcases hsign with rfl | rfl
  · have hhead : ∃ d ds, integer = d :: ds ∧ d ≠ '-' := by
      rcases h with rfl | ⟨d, ds, rfl, _, hd, _⟩
      · exact ⟨'0', [], rfl, by decide⟩
      · refine ⟨d, ds, rfl, ?_⟩
        rintro rfl
        exact absurd hd (by decide)
    obtain ⟨d, ds, rfl, hd⟩ := hhead
    rw [List.nil_append, List.cons_append]
    unfold splitSign
    split
    · rename_i heq
      exact absurd (List.cons.inj heq).1 hd
    · rfl
  · rfl

theorem Delimited.not_digit (h : Delimited rest) {c : Char} (hc : c ∈ rest.head?) :
    c.isDigit = false ∧ c ≠ '.' ∧ c ≠ 'e' ∧ c ≠ 'E' := by
  rcases h c hc with rfl | rfl | rfl <;> decide

theorem readNumber_append {F : Type} (Φ : FloatFormat F) {sign integer fraction exponent : List Char}
    (hsign : sign = [] ∨ sign = ['-']) (hinteger : IsInteger integer) (hfraction : IsFraction fraction)
    (hexponent : IsExponent exponent) (hrest : Delimited rest) :
    readNumber Φ (sign ++ (integer ++ (fraction ++ (exponent ++ rest)))) =
      if fraction = [] ∧ exponent = [] then (intOfText (sign ++ integer)).map fun z => (.int z, rest)
      else (Φ.ofText (sign ++ integer ++ fraction ++ exponent)).map fun x => (.float x, rest) := by
  have hlast : ∀ c ∈ (exponent ++ rest).head?, c.isDigit = false ∧ c ≠ '.' := by
    intro c hc
    rcases hexponent with rfl | ⟨e, _, _, rfl, he, _⟩
    · exact ⟨(hrest.not_digit hc).1, (hrest.not_digit hc).2.1⟩
    · obtain rfl : e = c := Option.some.inj hc
      rcases he with rfl | rfl <;> decide
  have hmiddle : ∀ c ∈ (fraction ++ (exponent ++ rest)).head?, c.isDigit = false := by
    intro c hc
    rcases hfraction with rfl | ⟨ds, rfl, _⟩
    · exact (hlast c hc).1
    · obtain rfl : '.' = c := Option.some.inj hc
      decide
  unfold readNumber
  simp only [splitSign_append hsign hinteger, splitInteger_append hinteger hmiddle, Option.bind_some,
    splitFraction_append hfraction hlast,
    splitExponent_append hexponent fun c hc => ⟨(hrest.not_digit hc).1, (hrest.not_digit hc).2.2⟩]

theorem isInteger_toDigits (n : ℕ) : IsInteger (Nat.toDigits 10 n) := by
  rcases Nat.eq_zero_or_pos n with rfl | hn
  · exact .inl rfl
  · refine .inr ?_
    induction n using Nat.strong_induction_on with
    | _ n ih =>
      by_cases hlt : n < 10
      · rw [Nat.toDigits_of_lt_base hlt]
        have hdigit : ∀ n < 10, 0 < n → n.digitChar ≠ '0' ∧ n.digitChar.isDigit = true := by decide
        exact ⟨n.digitChar, [], rfl, (hdigit n hlt hn).1, (hdigit n hlt hn).2, nofun⟩
      · rw [Nat.toDigits_of_base_le (by omega) (by omega)]
        obtain ⟨d, ds, heq, hzero, hd, hds⟩ := ih (n / 10) (by omega) (by omega)
        have hlow : ∀ n < 10, n.digitChar.isDigit = true := by decide
        refine ⟨d, ds ++ [(n % 10).digitChar], by rw [heq, List.cons_append], hzero, hd, fun c hc => ?_⟩
        rcases List.mem_append.1 hc with hmem | hmem
        · exact hds c hmem
        · rw [List.mem_singleton.1 hmem]
          exact hlow _ (Nat.mod_lt _ (by omega))

theorem readNumber_int {F : Type} (Φ : FloatFormat F) (z : ℤ) (hrest : Delimited rest) :
    readNumber Φ (textOfInt z ++ rest) = some (.int z, rest) := by
  have hparts : ∃ sign integer, textOfInt z = sign ++ integer ∧ (sign = [] ∨ sign = ['-']) ∧ IsInteger integer := by
    cases z with
    | ofNat n => exact ⟨[], _, rfl, .inl rfl, isInteger_toDigits n⟩
    | negSucc n => exact ⟨['-'], _, rfl, .inr rfl, isInteger_toDigits (n + 1)⟩
  obtain ⟨sign, integer, htext, hsign, hinteger⟩ := hparts
  have h := readNumber_append Φ hsign hinteger (.inl rfl) (.inl rfl) hrest
  rw [if_pos ⟨rfl, rfl⟩, ← htext, intOfText_textOfInt] at h
  rw [htext, List.append_assoc]
  exact h

theorem readNumber_float {F : Type} {Φ : FloatFormat F} {x : F} (h : IsFloatText (Φ.repr x))
    (hx : Φ.ofText (Φ.repr x) = some x) (hrest : Delimited rest) :
    readNumber Φ (Φ.repr x ++ rest) = some (.float x, rest) := by
  obtain ⟨sign, integer, fraction, exponent, htext, hsign, hinteger, hfraction, hexponent, hne⟩ := h
  have h := readNumber_append Φ hsign hinteger hfraction hexponent hrest
  rw [if_neg hne, ← htext, hx] at h
  rw [htext]
  simp only [List.append_assoc] at h ⊢
  exact h

end numbers

/-! ## What is written is read -/

section texts

variable {F : Type} {g : Grammar F} {s l rest : List Char} {fuel : ℕ}

def Grammar.Escapes (g : Grammar F) : Prop := ∀ x ∈ shortEscapes, g.escapes.lookup x.2 = some x.1

theorem lookup_shortEscapes {c : Char} : (∃ e, shortEscapes.lookup c = some e ∧ (c, e) ∈ shortEscapes ∧ e ≠ 'u') ∨
    shortEscapes.lookup c = none ∧ c ≠ '\x22' ∧ c ≠ '\\' := by
  by_cases hc : c ∈ shortEscapes.map Prod.fst
  · have hall : ∀ x ∈ shortEscapes, shortEscapes.lookup x.1 = some x.2 ∧ x.2 ≠ 'u' := by
      rw [← List.all_iff_forall_prop]
      decide
    obtain ⟨x, hx, rfl⟩ := List.mem_map.1 hc
    exact .inl ⟨x.2, (hall x hx).1, hx, (hall x hx).2⟩
  · refine .inr ⟨?_, ?_, ?_⟩
    · refine List.lookup_eq_none_iff.2 fun x hx => ?_
      rw [bne_iff_ne]
      rintro rfl
      exact hc (List.mem_map_of_mem hx)
    · rintro rfl
      exact hc (by decide)
    · rintro rfl
      exact hc (by decide)

theorem readCode_control {c : Char} (hc : c.toNat < 32) (pairs : Bool) (l : List Char) :
    readCode pairs ('0' :: '0' :: hexDigit (c.toNat / 16) :: hexDigit (c.toNat % 16) :: l) = some (c, l) := by
  have hvalue : ∀ n < 16, hexValue (hexDigit n) = some n := by decide
  have hcode : ((0 * 16 + 0) * 16 + c.toNat / 16) * 16 + c.toNat % 16 = c.toNat := by omega
  have hzero : hexValue '0' = some 0 := rfl
  have hhex : readHex ('0' :: '0' :: hexDigit (c.toNat / 16) :: hexDigit (c.toNat % 16) :: l) = some (c.toNat, l) := by
    rw [readHex, hzero, hvalue _ (by omega), hvalue _ (by omega)]
    simp only [Option.bind_some, Option.map_some, hcode]
  rw [readCode, hhex, Option.bind_some, if_neg (by dsimp only; omega), if_neg (by dsimp only; omega), Char.ofNat_toNat]

theorem readChars_escapeChar (hg : g.Escapes) (c : Char) :
    readChars g (fuel + 1) (escapeChar c ++ l) = (readChars g fuel l).map fun y => (c :: y.1, y.2) := by
  unfold escapeChar
  rcases lookup_shortEscapes (c := c) with ⟨e, hlookup, hmem, hu⟩ | ⟨hlookup, hquote, hslash⟩
  · rw [hlookup]
    dsimp only
    rw [List.cons_append, List.singleton_append, readChars, if_neg (by decide), if_pos rfl, readEscape, if_neg hu,
      hg _ hmem]
    rfl
  · rw [hlookup]
    dsimp only
    by_cases hc : c.toNat < 32
    · rw [if_pos hc]
      show readChars g (fuel + 1) ('\\' :: 'u' :: '0' :: '0' :: hexDigit (c.toNat / 16) :: hexDigit (c.toNat % 16) :: l) = _
      rw [readChars, if_neg (by decide), if_pos rfl, readEscape, if_pos rfl, readCode_control hc]
      rfl
    · rw [if_neg hc, List.singleton_append, readChars, if_neg hquote, if_neg hslash, if_neg hc]

theorem escapeChar_ne_nil (c : Char) : escapeChar c ≠ [] := by
  unfold escapeChar
  cases shortEscapes.lookup c with
  | some e => exact List.cons_ne_nil _ _
  | none =>
    dsimp only
    split <;> exact List.cons_ne_nil _ _

theorem length_le_escape (s : List Char) : s.length ≤ (s.flatMap escapeChar).length := by
  induction s with
  | nil => exact Nat.le_refl _
  | cons c s ih =>
    have hpos := List.length_pos_of_ne_nil (escapeChar_ne_nil c)
    rw [List.flatMap_cons, List.length_append, List.length_cons]
    omega

/-- **A text is read as it was written.** -/
theorem readChars_dumpsStr (hg : g.Escapes) (s rest : List Char) (hfuel : s.length < fuel) :
    readChars g fuel (s.flatMap escapeChar ++ ('\x22' :: rest)) = some (s, rest) := by
  induction s generalizing fuel with
  | nil =>
    obtain ⟨fuel, rfl⟩ := Nat.exists_eq_succ_of_ne_zero (Nat.ne_of_gt hfuel)
    rw [List.flatMap_nil, List.nil_append, readChars, if_pos rfl]
  | cons c s ih =>
    rw [List.length_cons] at hfuel
    obtain ⟨fuel, rfl⟩ := Nat.exists_eq_succ_of_ne_zero (Nat.ne_of_gt (Nat.zero_lt_of_lt hfuel))
    rw [List.flatMap_cons, List.append_assoc, readChars_escapeChar hg, ih (by omega)]
    rfl

end texts

/-! ## Values -/

section values

variable {F : Type} {P : JsonValue F → Prop}

mutual
/-- All constants and numbers of a value satisfy a property, and no object has a key twice. -/
def Each (P : JsonValue F → Prop) : JsonValue F → Prop
  | .null => P .null
  | .bool b => P (.bool b)
  | .int z => P (.int z)
  | .float x => P (.float x)
  | .str _ => True
  | .arr items => EachItem P items
  | .obj items => (items.map Prod.fst).Nodup ∧ EachMember P items
def EachItem (P : JsonValue F → Prop) : List (JsonValue F) → Prop
  | [] => True
  | v :: items => Each P v ∧ EachItem P items
def EachMember (P : JsonValue F → Prop) : List (List Char × JsonValue F) → Prop
  | [] => True
  | (_, v) :: items => Each P v ∧ EachMember P items
end

def BeginsScalar (c : Char) : Prop := c ∉ [' ', '\t', '\n', '\r', '\x22', '[', '{', ']', '}']

instance (c : Char) : Decidable (BeginsScalar c) := inferInstanceAs (Decidable (c ∉ _))

variable {Φ : FloatFormat F} {g : Grammar F}

def ReadsScalar (Φ : FloatFormat F) (g : Grammar F) (v : JsonValue F) : Prop :=
  (∃ c t, dumps Φ v = c :: t ∧ BeginsScalar c) ∧ ∀ rest, Delimited rest →
    (readNumber Φ (dumps Φ v ++ rest)).or (readConstant g (dumps Φ v ++ rest)) = some (v, rest)

theorem skipSpaces_cons {c : Char} (h : c ∉ [' ', '\t', '\n', '\r']) (l : List Char) :
    skipSpaces (c :: l) = c :: l := by
  refine List.dropWhile_cons_of_neg ?_
  simp only [List.mem_cons, List.not_mem_nil, or_false, not_or] at h
  simp [h]

theorem skipSpaces_space (l : List Char) : skipSpaces (' ' :: l) = skipSpaces l :=
  List.dropWhile_cons_of_pos (by decide)

theorem exists_dumps_eq {v : JsonValue F} (hP : ∀ v, P v → ReadsScalar Φ g v) (h : Each P v) :
    ∃ c t, dumps Φ v = c :: t ∧ c ∉ [' ', '\t', '\n', '\r', ']', '}'] := by
  have hscalar : ∀ v, P v → ∃ c t, dumps Φ v = c :: t ∧ c ∉ [' ', '\t', '\n', '\r', ']', '}'] := by
    intro v hv
    obtain ⟨⟨c, t, htext, hc⟩, _⟩ := hP v hv
    refine ⟨c, t, htext, fun hmem => hc ?_⟩
    simp only [List.mem_cons, List.not_mem_nil, or_false] at hmem ⊢
    rcases hmem with h | h | h | h | h | h <;> simp [h]
  cases v with
  | null => exact hscalar _ h
  | bool b => exact hscalar _ h
  | int z => exact hscalar _ h
  | float x => exact hscalar _ h
  | str s => exact ⟨'\x22', _, by rw [dumps, dumpsStr], by decide⟩
  | arr items =>
    cases items with
    | nil => exact ⟨'[', [']'], by rw [dumps]; rfl, by decide⟩
    | cons v items => exact ⟨'[', _, by rw [dumps], by decide⟩
  | obj items =>
    cases items with
    | nil => exact ⟨'{', ['}'], by rw [dumps]; rfl, by decide⟩
    | cons item items => exact ⟨'{', _, by rw [dumps], by decide⟩

theorem skipSpaces_dumps {v : JsonValue F} (hP : ∀ v, P v → ReadsScalar Φ g v) (h : Each P v) (rest : List Char) :
    skipSpaces (dumps Φ v ++ rest) = dumps Φ v ++ rest := by
  obtain ⟨c, t, htext, hc⟩ := exists_dumps_eq hP h
  rw [htext, List.cons_append]
  refine skipSpaces_cons (fun hmem => hc ?_) _
  exact List.mem_append_left [']', '}'] hmem

theorem readValue_scalar {v : JsonValue F} (h : ReadsScalar Φ g v) {fuel : ℕ} (hfuel : (dumps Φ v).length ≤ fuel)
    {rest : List Char} (hrest : Delimited rest) : readValue Φ g fuel (dumps Φ v ++ rest) = some (v, rest) := by
  obtain ⟨⟨c, t, htext, hc⟩, hread⟩ := h
  have hread := hread rest hrest
  rw [htext] at hfuel hread ⊢
  rw [List.length_cons] at hfuel
  obtain ⟨fuel, rfl⟩ := Nat.exists_eq_succ_of_ne_zero (Nat.ne_of_gt (Nat.zero_lt_of_lt hfuel))
  simp only [BeginsScalar, List.mem_cons, List.not_mem_nil, or_false, not_or] at hc
  rw [List.cons_append] at hread ⊢
  rw [readValue, if_neg hc.2.2.2.2.1, if_neg hc.2.2.2.2.2.1, if_neg hc.2.2.2.2.2.2.1]
  exact hread

theorem delimited_dumpsItems (items : List (JsonValue F)) (rest : List Char) :
    Delimited (dumpsItems Φ items ++ rest) := by
  intro c hc
  cases items with
  | nil =>
    rw [dumpsItems] at hc
    exact .inr (.inl (Option.some.inj hc).symm)
  | cons v items =>
    rw [dumpsItems] at hc
    exact .inl (Option.some.inj hc).symm

theorem delimited_dumpsMembers (items : List (List Char × JsonValue F)) (rest : List Char) :
    Delimited (dumpsMembers Φ items ++ rest) := by
  intro c hc
  cases items with
  | nil =>
    rw [dumpsMembers] at hc
    exact .inr (.inr (Option.some.inj hc).symm)
  | cons item items =>
    rw [dumpsMembers] at hc
    exact .inl (Option.some.inj hc).symm

theorem readMembers_key (hg : g.Escapes) (k l : List Char) (fuel : ℕ) :
    readMembers Φ g (fuel + 1) (dumpsStr k ++ (':' :: ' ' :: l)) =
      (readValue Φ g fuel (skipSpaces l)).bind fun v =>
        match skipSpaces v.2 with
        | [] => none
        | c :: rest =>
          if c = '}' then some ([(k, v.1)], rest)
          else if c = ',' then (readMembers Φ g fuel (skipSpaces rest)).map fun x => ((k, v.1) :: x.1, x.2)
          else none := by
  have hkey := readChars_dumpsStr hg k (':' :: ' ' :: l)
    (show k.length < (k.flatMap escapeChar ++ ('\x22' :: ':' :: ' ' :: l)).length + 1 by
      have hlength := length_le_escape k
      rw [List.length_append]
      omega)
  rw [dumpsStr, List.cons_append, List.append_assoc, List.singleton_append, readMembers, if_pos rfl, hkey,
    Option.bind_some]
  dsimp only
  rw [skipSpaces_cons (by decide)]
  dsimp only
  rw [if_pos rfl, skipSpaces_space]

theorem readItems_tail {v : JsonValue F} {items : List (JsonValue F)} {l rest : List Char} {fuel : ℕ}
    (hv : readValue Φ g fuel l = some (v, dumpsItems Φ items ++ rest))
    (hrest : ∀ w tail, items = w :: tail →
      readItems Φ g fuel (dumps Φ w ++ (dumpsItems Φ tail ++ rest)) = some (items, rest) ∧
        ∀ rest, skipSpaces (dumps Φ w ++ rest) = dumps Φ w ++ rest) :
    readItems Φ g (fuel + 1) l = some (v :: items, rest) := by
  rw [readItems, hv, Option.bind_some]
  dsimp only
  cases items with
  | nil =>
    rw [dumpsItems, List.singleton_append, skipSpaces_cons (by decide)]
    dsimp only
    rw [if_pos rfl]
  | cons w tail =>
    obtain ⟨hread, hspaces⟩ := hrest w tail rfl
    have hskip : skipSpaces (' ' :: (dumps Φ w ++ (dumpsItems Φ tail ++ rest))) =
        dumps Φ w ++ (dumpsItems Φ tail ++ rest) := by
      rw [skipSpaces_space, hspaces]
    rw [dumpsItems, List.cons_append, List.cons_append, List.append_assoc, skipSpaces_cons (by decide)]
    dsimp only
    rw [if_neg (by decide), if_pos rfl, hskip, hread]
    rfl

theorem readMembers_tail (hg : g.Escapes) {k : List Char} {v : JsonValue F} {items : List (List Char × JsonValue F)}
    {rest : List Char} {fuel : ℕ}
    (hspaces : ∀ rest, skipSpaces (dumps Φ v ++ rest) = dumps Φ v ++ rest)
    (hv : readValue Φ g fuel (dumps Φ v ++ (dumpsMembers Φ items ++ rest)) = some (v, dumpsMembers Φ items ++ rest))
    (hrest : ∀ k w tail, items = (k, w) :: tail →
      readMembers Φ g fuel (dumpsStr k ++ (':' :: ' ' :: (dumps Φ w ++ (dumpsMembers Φ tail ++ rest)))) =
        some (items, rest)) :
    readMembers Φ g (fuel + 1) (dumpsStr k ++ (':' :: ' ' :: (dumps Φ v ++ (dumpsMembers Φ items ++ rest)))) =
      some ((k, v) :: items, rest) := by
  rw [readMembers_key hg, hspaces, hv, Option.bind_some]
  dsimp only
  rcases items with _ | ⟨⟨k', w⟩, tail⟩
  · rw [dumpsMembers, List.singleton_append, skipSpaces_cons (by decide)]
    dsimp only
    rw [if_pos rfl]
  · have hread := hrest k' w tail rfl
    have hskip : skipSpaces (' ' :: (dumpsStr k' ++ (':' :: ' ' :: (dumps Φ w ++ (dumpsMembers Φ tail ++ rest))))) =
        dumpsStr k' ++ (':' :: ' ' :: (dumps Φ w ++ (dumpsMembers Φ tail ++ rest))) := by
      rw [skipSpaces_space]
      exact skipSpaces_cons (by decide) _
    rw [dumpsMembers, List.cons_append, List.cons_append, List.append_assoc, List.cons_append, List.cons_append,
      List.append_assoc, skipSpaces_cons (by decide)]
    dsimp only
    rw [if_neg (by decide), if_pos rfl, hskip, hread]
    rfl

theorem merge_empty_items {items : List (List Char × JsonValue F)} (h : (items.map Prod.fst).Nodup) :
    ((Dict.empty : Dict (List Char) (JsonValue F)).merge (fun _ v => v) items).items = items := by
  have hkeys : ((Dict.empty : Dict (List Char) (JsonValue F)).keys ++ items.map Prod.fst).Nodup := h
  rw [Dict.merge_new _ hkeys]
  exact List.map_id' items

mutual
theorem readValue_dumps (hg : g.Escapes) (hP : ∀ v, P v → ReadsScalar Φ g v) : ∀ (v : JsonValue F) (fuel : ℕ)
    (rest : List Char), Each P v → (dumps Φ v).length ≤ fuel → Delimited rest →
      readValue Φ g fuel (dumps Φ v ++ rest) = some (v, rest)
  | .null, _, _, h, hfuel, hrest => readValue_scalar (hP _ h) hfuel hrest
  | .bool _, _, _, h, hfuel, hrest => readValue_scalar (hP _ h) hfuel hrest
  | .int _, _, _, h, hfuel, hrest => readValue_scalar (hP _ h) hfuel hrest
  | .float _, _, _, h, hfuel, hrest => readValue_scalar (hP _ h) hfuel hrest
  | .str s, fuel, rest, _, hfuel, _ => by
    obtain ⟨fuel, rfl⟩ : ∃ n, fuel = n + 1 := ⟨fuel - 1, by
      rw [dumps, dumpsStr, List.length_cons] at hfuel
      omega⟩
    have hread := readChars_dumpsStr hg s rest
      (show s.length < (s.flatMap escapeChar ++ ('\x22' :: rest)).length + 1 by
        have hlength := length_le_escape s
        rw [List.length_append]
        omega)
    rw [dumps, dumpsStr, List.cons_append, List.append_assoc, List.singleton_append, readValue, if_pos rfl, hread]
    rfl
  | .arr [], fuel, rest, _, hfuel, _ => by
    obtain ⟨fuel, rfl⟩ : ∃ n, fuel = n + 1 := ⟨fuel - 1, by
      rw [dumps] at hfuel
      exact (Nat.sub_add_cancel (Nat.le_trans (by decide) hfuel)).symm⟩
    rw [dumps]
    show readValue Φ g (fuel + 1) ('[' :: ']' :: rest) = _
    rw [readValue, if_neg (by decide), if_pos rfl, skipSpaces_cons (by decide)]
    rfl
  | .arr (v :: items), fuel, rest, h, hfuel, _ => by
    rw [Each, EachItem] at h
    obtain ⟨fuel, rfl⟩ : ∃ n, fuel = n + 1 := ⟨fuel - 1, by
      rw [dumps, List.length_cons] at hfuel
      omega⟩
    have hread := readItems_dumps hg hP items v fuel rest (fun fuel rest => readValue_dumps hg hP v fuel rest h.1) h.2 (by
      rw [dumps, List.length_cons, List.length_append] at hfuel
      omega)
    obtain ⟨c, t, htext, hc⟩ := exists_dumps_eq hP h.1
    rw [dumps, List.cons_append, List.append_assoc, readValue, if_neg (by decide), if_pos rfl, skipSpaces_dumps hP h.1]
    rw [htext, List.cons_append] at hread ⊢
    dsimp only
    rw [if_neg (fun heq => hc (by rw [heq]; decide)), hread]
    rfl
  | .obj [], fuel, rest, _, hfuel, _ => by
    obtain ⟨fuel, rfl⟩ : ∃ n, fuel = n + 1 := ⟨fuel - 1, by
      rw [dumps] at hfuel
      exact (Nat.sub_add_cancel (Nat.le_trans (by decide) hfuel)).symm⟩
    rw [dumps]
    show readValue Φ g (fuel + 1) ('{' :: '}' :: rest) = _
    rw [readValue, if_neg (by decide), if_neg (by decide), if_pos rfl, skipSpaces_cons (by decide)]
    rfl
  | .obj ((k, v) :: items), fuel, rest, h, hfuel, _ => by
    rw [Each, EachMember] at h
    obtain ⟨hkeys, hv, hitems⟩ := h
    obtain ⟨fuel, rfl⟩ : ∃ n, fuel = n + 1 := ⟨fuel - 1, by
      rw [dumps, List.length_cons] at hfuel
      omega⟩
    have hread := readMembers_dumps hg hP items k v fuel rest (fun fuel rest => readValue_dumps hg hP v fuel rest hv)
      (skipSpaces_dumps hP hv) hitems (by
      rw [dumps, List.length_cons, List.length_append, List.length_cons, List.length_cons, List.length_append] at hfuel
      omega)
    rw [dumps]
    have hassoc : '{' :: (dumpsStr k ++ (':' :: ' ' :: (dumps Φ v ++ dumpsMembers Φ items))) ++ rest =
        '{' :: (dumpsStr k ++ (':' :: ' ' :: (dumps Φ v ++ (dumpsMembers Φ items ++ rest)))) := by
      simp only [List.cons_append, List.append_assoc]
    rw [hassoc, readValue, if_neg (by decide), if_neg (by decide), if_pos rfl]
    have hskip : skipSpaces (dumpsStr k ++ (':' :: ' ' :: (dumps Φ v ++ (dumpsMembers Φ items ++ rest)))) =
        '\x22' :: (k.flatMap escapeChar ++ ['\x22'] ++ (':' :: ' ' :: (dumps Φ v ++ (dumpsMembers Φ items ++ rest)))) :=
      rfl
    rw [hskip]
    dsimp only
    rw [if_neg (by decide)]
    rw [dumpsStr, List.cons_append] at hread
    rw [hread, Option.map_some, merge_empty_items hkeys]

theorem readItems_dumps (hg : g.Escapes) (hP : ∀ v, P v → ReadsScalar Φ g v) : ∀ (items : List (JsonValue F))
    (v : JsonValue F) (fuel : ℕ) (rest : List Char),
      (∀ fuel rest, (dumps Φ v).length ≤ fuel → Delimited rest →
        readValue Φ g fuel (dumps Φ v ++ rest) = some (v, rest)) → EachItem P items →
      (dumps Φ v).length + (dumpsItems Φ items).length ≤ fuel →
      readItems Φ g fuel (dumps Φ v ++ (dumpsItems Φ items ++ rest)) = some (v :: items, rest)
  | [], v, fuel, rest, hv, _, hfuel => by
    rw [dumpsItems, List.length_singleton] at hfuel
    obtain ⟨fuel, rfl⟩ : ∃ n, fuel = n + 1 := ⟨fuel - 1, by omega⟩
    exact readItems_tail (hv fuel _ (by omega) (delimited_dumpsItems [] rest)) nofun
  | w :: items, v, fuel, rest, hv, h, hfuel => by
    rw [EachItem] at h
    rw [dumpsItems, List.length_cons, List.length_cons, List.length_append] at hfuel
    obtain ⟨fuel, rfl⟩ : ∃ n, fuel = n + 1 := ⟨fuel - 1, by omega⟩
    refine readItems_tail (hv fuel _ (by omega) (delimited_dumpsItems (w :: items) rest)) ?_
    rintro _ _ ⟨⟩
    exact ⟨readItems_dumps hg hP items w fuel rest (fun fuel rest => readValue_dumps hg hP w fuel rest h.1) h.2 (by omega),
      skipSpaces_dumps hP h.1⟩

theorem readMembers_dumps (hg : g.Escapes) (hP : ∀ v, P v → ReadsScalar Φ g v) :
    ∀ (items : List (List Char × JsonValue F)) (k : List Char) (v : JsonValue F) (fuel : ℕ) (rest : List Char),
      (∀ fuel rest, (dumps Φ v).length ≤ fuel → Delimited rest →
        readValue Φ g fuel (dumps Φ v ++ rest) = some (v, rest)) →
      (∀ rest, skipSpaces (dumps Φ v ++ rest) = dumps Φ v ++ rest) → EachMember P items →
      (dumps Φ v).length + (dumpsMembers Φ items).length ≤ fuel →
      readMembers Φ g fuel (dumpsStr k ++ (':' :: ' ' :: (dumps Φ v ++ (dumpsMembers Φ items ++ rest)))) =
        some ((k, v) :: items, rest)
  | [], k, v, fuel, rest, hv, hspaces, _, hfuel => by
    rw [dumpsMembers, List.length_singleton] at hfuel
    obtain ⟨fuel, rfl⟩ : ∃ n, fuel = n + 1 := ⟨fuel - 1, by omega⟩
    exact readMembers_tail hg hspaces (hv fuel _ (by omega) (delimited_dumpsMembers [] rest)) nofun
  | (k', w) :: items, k, v, fuel, rest, hv, hspaces, h, hfuel => by
    rw [EachMember] at h
    rw [dumpsMembers, List.length_cons, List.length_cons, List.length_append, List.length_cons, List.length_cons,
      List.length_append] at hfuel
    obtain ⟨fuel, rfl⟩ : ∃ n, fuel = n + 1 := ⟨fuel - 1, by omega⟩
    refine readMembers_tail hg hspaces (hv fuel _ (by omega) (delimited_dumpsMembers _ rest)) ?_
    rintro _ _ _ ⟨⟩
    exact readMembers_dumps hg hP items k' w fuel rest (fun fuel rest => readValue_dumps hg hP w fuel rest h.1)
      (skipSpaces_dumps hP h.1) h.2 (by omega)
end

end values

/-! ## The two grammars -/

section grammars

variable {F : Type} {Φ : FloatFormat F} {v : JsonValue F}

theorem readText_dumps {P : JsonValue F → Prop} {g : Grammar F} (hg : g.Escapes)
    (hP : ∀ v, P v → ReadsScalar Φ g v) (h : Each P v) : readText Φ g (dumps Φ v) = some v := by
  have hskip := skipSpaces_dumps hP h []
  have hread := readValue_dumps hg hP v (2 * (dumps Φ v).length + 1) [] h (by omega) nofun
  rw [List.append_nil] at hskip hread
  rw [readText, hskip, hread]
  rfl

theorem beginsScalar_of {c : Char} (h : c.isDigit = true ∨ c = '-') : BeginsScalar c := by
  have hother : ∀ d ∈ [' ', '\t', '\n', '\r', '\x22', '[', '{', ']', '}'], d.isDigit = false ∧ d ≠ '-' := by
    rw [← List.all_iff_forall_prop]
    decide
  intro hmem
  rcases h with hdigit | hsign
  · rw [(hother c hmem).1] at hdigit
    exact Bool.false_ne_true hdigit
  · exact (hother c hmem).2 hsign

theorem readsScalar_int (Φ : FloatFormat F) (g : Grammar F) (z : ℤ) : ReadsScalar Φ g (.int z) := by
  constructor
  · obtain ⟨c, t, htext⟩ := List.exists_cons_of_ne_nil (textOfInt_ne_nil z)
    refine ⟨c, t, by rw [dumps, htext], beginsScalar_of (isDigit_of_mem_textOfInt (z := z) ?_)⟩
    rw [htext]
    exact List.mem_cons_self
  · intro rest hrest
    rw [dumps, readNumber_int Φ z hrest]
    rfl

theorem readsScalar_float {g : Grammar F} {x : F} (h : IsFloatText (Φ.repr x)) (hx : Φ.ofText (Φ.repr x) = some x) :
    ReadsScalar Φ g (.float x) := by
  constructor
  · obtain ⟨sign, integer, fraction, exponent, htext, hsign, hinteger, _⟩ := h
    rw [dumps, htext]
    rcases hsign with rfl | rfl
    · rcases hinteger with rfl | ⟨d, ds, rfl, _, hd, _⟩
      · exact ⟨'0', fraction ++ exponent, rfl, beginsScalar_of (.inl rfl)⟩
      · exact ⟨d, ds ++ fraction ++ exponent, rfl, beginsScalar_of (.inl hd)⟩
    · exact ⟨'-', integer ++ fraction ++ exponent, rfl, beginsScalar_of (.inr rfl)⟩
  · intro rest hrest
    rw [dumps, readNumber_float h hx hrest]
    rfl

/-- **What the texts of floating-point numbers are**: numbers that are read back, and the names of the others. -/
structure FloatFormat.Lawful (Φ : FloatFormat F) : Prop where
  repr_cases : ∀ x, (IsFloatText (Φ.repr x) ∧ Φ.ofText (Φ.repr x) = some x) ∨
    (x = Φ.nan ∧ Φ.repr x = "NaN".toList) ∨ (x = Φ.inf ∧ Φ.repr x = "Infinity".toList) ∨
      (x = Φ.negInf ∧ Φ.repr x = "-Infinity".toList)

def IsScalar : JsonValue F → Prop
  | .str _ => False
  | .arr _ => False
  | .obj _ => False
  | _ => True

/-- **JSON is read as it was written**, where no object has a key twice. -/
theorem loads_dumps (hΦ : Φ.Lawful) (h : Each IsScalar v) : loads Φ (dumps Φ v) = some v := by
  have hg : (jsonGrammar Φ).Escapes := by
    show ∀ x ∈ shortEscapes, (('/', '/') :: shortEscapes.map Prod.swap).lookup x.2 = some x.1
    rw [← List.all_iff_forall_prop]
    decide
  refine readText_dumps (P := IsScalar) hg (fun v hv => ?_) h
  cases v with
  | null => exact ⟨⟨'n', "ull".toList, by rw [dumps]; rfl, by decide⟩, fun rest _ => by rw [dumps]; rfl⟩
  | bool b =>
    cases b with
    | true => exact ⟨⟨'t', "rue".toList, by rw [dumps]; rfl, by decide⟩, fun rest _ => by rw [dumps]; rfl⟩
    | false => exact ⟨⟨'f', "alse".toList, by rw [dumps]; rfl, by decide⟩, fun rest _ => by rw [dumps]; rfl⟩
  | int z => exact readsScalar_int Φ _ z
  | float x =>
    rcases hΦ.repr_cases x with ⟨htext, hx⟩ | ⟨rfl, htext⟩ | ⟨rfl, htext⟩ | ⟨rfl, htext⟩
    · exact readsScalar_float htext hx
    · refine ⟨⟨'N', "aN".toList, by rw [dumps, htext]; rfl, by decide⟩, fun rest _ => ?_⟩
      rw [dumps, htext]
      rfl
    · refine ⟨⟨'I', "nfinity".toList, by rw [dumps, htext]; rfl, by decide⟩, fun rest _ => ?_⟩
      rw [dumps, htext]
      rfl
    · refine ⟨⟨'-', "Infinity".toList, by rw [dumps, htext]; rfl, by decide⟩, fun rest _ => ?_⟩
      rw [dumps, htext]
      rfl
  | str s => exact hv.elim
  | arr items => exact hv.elim
  | obj items => exact hv.elim

/-- **Different values have different texts.** -/
theorem dumps_injective (hΦ : Φ.Lawful) {w : JsonValue F} (hv : Each IsScalar v) (hw : Each IsScalar w)
    (h : dumps Φ v = dumps Φ w) : v = w := by
  have hread := loads_dumps hΦ hv
  rw [h, loads_dumps hΦ hw] at hread
  exact (Option.some.inj hread).symm

def IsNumber (Φ : FloatFormat F) : JsonValue F → Prop
  | .int _ => True
  | .float x => IsFloatText (Φ.repr x) ∧ Φ.ofText (Φ.repr x) = some x
  | _ => False

/-- **Without constants** the JSON text is a literal of Python with the same value. -/
theorem readLiteral_dumps (h : Each (IsNumber Φ) v) : readLiteral Φ (dumps Φ v) = some v := by
  have hg : (literalGrammar : Grammar F).Escapes := by
    show ∀ x ∈ shortEscapes, (shortEscapes.map Prod.swap).lookup x.2 = some x.1
    rw [← List.all_iff_forall_prop]
    decide
  refine readText_dumps (P := IsNumber Φ) hg (fun v hv => ?_) h
  cases v with
  | int z => exact readsScalar_int Φ _ z
  | float x => exact readsScalar_float hv.1 hv.2
  | null => exact hv.elim
  | bool b => exact hv.elim
  | str s => exact hv.elim
  | arr items => exact hv.elim
  | obj items => exact hv.elim

end grammars

end Opd.Lib

import Opd.Lib.Occurrences

/-!
# Regular expressions

A regular expression finds its matches in the order in which a backtracking engine tries them.

* `text_append_rest`: a match is a start of the text.
* `first_lazyStar`: a lazy star stops at the first occurrence of what has to follow it.
* `hits_word`: a greedy word is taken whole when another character has to follow it.
* `findAll_of_find`, `StartsWith.findAll_append`: the matches of a text, one after the other.
-/

namespace Opd.Lib

/-- A regular expression; `star` and `lazyStar` repeat a class of characters. -/
inductive Regex
  | lit (w : List Char)
  | one (p : Char → Bool)
  | star (p : Char → Bool)
  | lazyStar (p : Char → Bool)
  | atEnd
  | seq (r s : Regex)
  | alt (r s : Regex)
  | group (i : ℕ) (r : Regex)

/-- A match at the start of a text: its text, its groups and the text behind it. -/
structure Hit where
  text : List Char
  groups : List (ℕ × List Char)
  rest : List Char

/-- `match.group(i)` -/
def Hit.group? (h : Hit) (i : ℕ) : Option (List Char) := (h.groups.find? fun g => g.1 = i).map Prod.snd

namespace Regex

/-- One or more characters of a class. -/
def plus (p : Char → Bool) : Regex := .seq (.one p) (.star p)

/-- The starts of a text whose characters are in a class, the shortest first. -/
def splits (p : Char → Bool) : List Char → List (List Char × List Char)
  | [] => [([], [])]
  | c :: l => ([], c :: l) :: if p c then (splits p l).map fun x => (c :: x.1, x.2) else []

/-- **The matches at the start of a text**, in the order in which they are tried. -/
def hits : Regex → List Char → List Hit
  | .lit w, l => if w <+: l then [⟨w, [], l.drop w.length⟩] else []
  | .one _, [] => []
  | .one p, c :: l => if p c then [⟨[c], [], l⟩] else []
  | .star p, l => (splits p l).reverse.map fun x => ⟨x.1, [], x.2⟩
  | .lazyStar p, l => (splits p l).map fun x => ⟨x.1, [], x.2⟩
  | .atEnd, l => if l = [] ∨ l = ['\n'] then [⟨[], [], l⟩] else []
  | .seq r s, l => (hits r l).flatMap fun h =>
      (hits s h.rest).map fun h' => ⟨h.text ++ h'.text, h.groups ++ h'.groups, h'.rest⟩
  | .alt r s, l => hits r l ++ hits s l
  | .group i r, l => (hits r l).map fun h => { h with groups := (i, h.text) :: h.groups }

/-- The match at the start of a text: the first one that is found. -/
def find (r : Regex) (l : List Char) : Option Hit := (hits r l).head?

/-- The scan of `findall`, after some characters that belong to the last match. -/
def findAllFrom (r : Regex) : ℕ → List Char → List Hit
  | _, [] => []
  | skip + 1, _ :: l => findAllFrom r skip l
  | 0, c :: l =>
    match find r (c :: l) with
    | none => findAllFrom r 0 l
    | some h => h :: findAllFrom r (h.text.length - 1) l

/-- `findall`, for an expression that does not match the empty text. -/
def findAll (r : Regex) (l : List Char) : List Hit := findAllFrom r 0 l

/-- The scan of `sub("", ..)`, after some characters that belong to the last match. -/
def removeAllFrom (r : Regex) : ℕ → List Char → List Char
  | _, [] => []
  | skip + 1, _ :: l => removeAllFrom r skip l
  | 0, c :: l =>
    match find r (c :: l) with
    | none => c :: removeAllFrom r 0 l
    | some h => removeAllFrom r (h.text.length - 1) l

/-- `sub("", ..)`, for an expression that does not match the empty text. -/
def removeAll (r : Regex) (l : List Char) : List Char := removeAllFrom r 0 l

/-! ## One match -/

section hits

variable {r s : Regex} {p : Char → Bool} {l : List Char} {h : Hit} {i : ℕ}

theorem splits_cons (p : Char → Bool) (c : Char) (l : List Char) : splits p (c :: l) =
    ([], c :: l) :: if p c then (splits p l).map fun x => (c :: x.1, x.2) else [] := rfl

theorem hits_lit (w l : List Char) : hits (.lit w) l = if w <+: l then [⟨w, [], l.drop w.length⟩] else [] := rfl

theorem hits_one (p : Char → Bool) (c : Char) (l : List Char) :
    hits (.one p) (c :: l) = if p c then [⟨[c], [], l⟩] else [] := rfl

theorem hits_star (p : Char → Bool) (l : List Char) :
    hits (.star p) l = (splits p l).reverse.map fun x => ⟨x.1, [], x.2⟩ := rfl

theorem hits_lazyStar (p : Char → Bool) (l : List Char) :
    hits (.lazyStar p) l = (splits p l).map fun x => ⟨x.1, [], x.2⟩ := rfl

theorem hits_atEnd (l : List Char) : hits .atEnd l = if l = [] ∨ l = ['\n'] then [⟨[], [], l⟩] else [] := rfl

theorem hits_seq (r s : Regex) (l : List Char) : hits (.seq r s) l = (hits r l).flatMap fun h =>
    (hits s h.rest).map fun h' => ⟨h.text ++ h'.text, h.groups ++ h'.groups, h'.rest⟩ := rfl

theorem hits_group (i : ℕ) (r : Regex) (l : List Char) :
    hits (.group i r) l = (hits r l).map fun h => { h with groups := (i, h.text) :: h.groups } := rfl

theorem mem_splits {x : List Char × List Char} (hx : x ∈ splits p l) : x.1 ++ x.2 = l ∧ x.1.all p = true := by
  induction l generalizing x with
  | nil =>
    obtain rfl := List.mem_singleton.1 hx
    exact ⟨rfl, rfl⟩
  | cons c l ih =>
    rcases List.mem_cons.1 hx with rfl | hx
    · exact ⟨rfl, rfl⟩
    · by_cases hc : p c = true
      · rw [if_pos hc] at hx
        obtain ⟨y, hy, rfl⟩ := List.mem_map.1 hx
        obtain ⟨happend, hall⟩ := ih hy
        exact ⟨congrArg (c :: ·) happend, by rw [List.all_cons, hc, hall]; rfl⟩
      · rw [if_neg hc] at hx
        exact absurd hx List.not_mem_nil

/-- The longest start is the last, and behind every other one there is a character of the class. -/
theorem exists_splits_eq (p : Char → Bool) (l : List Char) : ∃ shorter,
    splits p l = shorter ++ [(l.takeWhile p, l.dropWhile p)] ∧ ∀ x ∈ shorter, ∃ d t, x.2 = d :: t ∧ p d = true := by
  induction l with
  | nil => exact ⟨[], rfl, nofun⟩
  | cons c l ih =>
    obtain ⟨shorter, heq, hshorter⟩ := ih
    by_cases hc : p c = true
    · refine ⟨([], c :: l) :: shorter.map fun x => (c :: x.1, x.2), ?_, ?_⟩
      · rw [splits_cons, if_pos hc, heq, List.map_append, List.takeWhile_cons_of_pos hc, List.dropWhile_cons_of_pos hc]
        rfl
      · intro x hx
        rcases List.mem_cons.1 hx with rfl | hx
        · exact ⟨c, l, rfl, hc⟩
        · obtain ⟨y, hy, rfl⟩ := List.mem_map.1 hx
          exact hshorter y hy
    · refine ⟨[], ?_, nofun⟩
      rw [splits_cons, if_neg hc, List.takeWhile_cons_of_neg hc, List.dropWhile_cons_of_neg hc]
      rfl

theorem mem_hits_seq : h ∈ hits (.seq r s) l ↔ ∃ first ∈ hits r l, ∃ second ∈ hits s first.rest,
    h = ⟨first.text ++ second.text, first.groups ++ second.groups, second.rest⟩ := by
  rw [hits_seq, List.mem_flatMap]
  constructor
  · rintro ⟨first, hfirst, hh⟩
    obtain ⟨second, hsecond, rfl⟩ := List.mem_map.1 hh
    exact ⟨first, hfirst, second, hsecond, rfl⟩
  · rintro ⟨first, hfirst, second, hsecond, rfl⟩
    exact ⟨first, hfirst, List.mem_map.2 ⟨second, hsecond, rfl⟩⟩

theorem mem_hits_lit {w : List Char} : h ∈ hits (.lit w) l ↔ ∃ rest, l = w ++ rest ∧ h = ⟨w, [], rest⟩ := by
  rw [hits_lit]
  constructor
  · intro hh
    by_cases hw : w <+: l
    · rw [if_pos hw] at hh
      obtain ⟨rest, rfl⟩ := hw
      rw [List.drop_left] at hh
      exact ⟨rest, rfl, List.mem_singleton.1 hh⟩
    · rw [if_neg hw] at hh
      exact absurd hh List.not_mem_nil
  · rintro ⟨rest, rfl, rfl⟩
    rw [if_pos (List.prefix_append _ _), List.drop_left]
    exact List.mem_singleton_self _

theorem mem_hits_star (hh : h ∈ hits (.star p) l) : h.text ++ h.rest = l ∧ h.text.all p = true ∧ h.groups = [] := by
  rw [hits_star] at hh
  obtain ⟨x, hx, rfl⟩ := List.mem_map.1 hh
  obtain ⟨happend, hall⟩ := mem_splits (List.mem_reverse.1 hx)
  exact ⟨happend, hall, rfl⟩

theorem mem_hits_lazyStar (hh : h ∈ hits (.lazyStar p) l) :
    h.text ++ h.rest = l ∧ h.text.all p = true ∧ h.groups = [] := by
  rw [hits_lazyStar] at hh
  obtain ⟨x, hx, rfl⟩ := List.mem_map.1 hh
  obtain ⟨happend, hall⟩ := mem_splits hx
  exact ⟨happend, hall, rfl⟩

theorem mem_hits_group (hh : h ∈ hits (.group i r) l) :
    ∃ h' ∈ hits r l, h = { h' with groups := (i, h'.text) :: h'.groups } := by
  rw [hits_group] at hh
  obtain ⟨h', hh', rfl⟩ := List.mem_map.1 hh
  exact ⟨h', hh', rfl⟩

/-- **A match is a start of the text.** -/
theorem text_append_rest (hh : h ∈ hits r l) : h.text ++ h.rest = l := by
  induction r generalizing l h with
  | lit w =>
    obtain ⟨rest, rfl, rfl⟩ := mem_hits_lit.1 hh
    rfl
  | one p =>
    cases l with
    | nil => exact absurd hh List.not_mem_nil
    | cons c l =>
      rw [hits_one] at hh
      split at hh
      · obtain rfl := List.mem_singleton.1 hh
        rfl
      · exact absurd hh List.not_mem_nil
  | star p => exact (mem_hits_star hh).1
  | lazyStar p => exact (mem_hits_lazyStar hh).1
  | atEnd =>
    rw [hits_atEnd] at hh
    split at hh
    · obtain rfl := List.mem_singleton.1 hh
      rfl
    · exact absurd hh List.not_mem_nil
  | seq r s ihr ihs =>
    obtain ⟨first, hfirst, second, hsecond, rfl⟩ := mem_hits_seq.1 hh
    rw [List.append_assoc, ihs hsecond, ihr hfirst]
  | alt r s ihr ihs =>
    rcases List.mem_append.1 hh with hleft | hright
    · exact ihr hleft
    · exact ihs hright
  | group i r ih =>
    obtain ⟨h', hh', rfl⟩ := mem_hits_group hh
    have happend : h'.text ++ h'.rest = l := ih hh'
    exact happend

theorem text_append_of_find (hh : find r l = some h) : h.text ++ h.rest = l :=
  text_append_rest (List.mem_of_mem_head? hh)

/-- **A lazy star stops at the first occurrence** of what has to follow it. -/
theorem first_lazyStar {w : List Char} (hw : w ≠ []) : find (.seq (.group i (.lazyStar p)) (.lit w)) l =
    (splitFirst w l).bind fun parts =>
      if parts.1.all p then some ⟨parts.1 ++ w, [(i, parts.1)], parts.2⟩ else none := by
  have hhits : ∀ l, hits (.seq (.group i (.lazyStar p)) (.lit w)) l = (splits p l).flatMap fun x =>
      (hits (.lit w) x.2).map fun h => ⟨x.1 ++ h.text, (i, x.1) :: h.groups, h.rest⟩ := by
    intro l
    rw [hits_seq, hits_group, hits_lazyStar, List.map_map, List.flatMap_map]
    rfl
  rw [find, hhits]
  induction l with
  | nil =>
    have hnil : ¬ w <+: [] := fun h => hw (List.prefix_nil.1 h)
    rw [splits, List.flatMap_singleton, hits_lit, if_neg hnil]
    rfl
  | cons c l ih =>
    rw [splits_cons, List.flatMap_cons, splitFirst]
    by_cases hprefix : w <+: c :: l
    · rw [hits_lit, if_pos hprefix, if_pos hprefix]
      rfl
    · rw [hits_lit, if_neg hprefix, if_neg hprefix, List.map_nil, List.nil_append]
      by_cases hc : p c = true
      · have hmap : (fun x : List Char × List Char => (hits (.lit w) x.2).map fun h =>
            (⟨c :: x.1 ++ h.text, (i, c :: x.1) :: h.groups, h.rest⟩ : Hit)) =
            fun x => ((hits (.lit w) x.2).map fun h => (⟨x.1 ++ h.text, (i, x.1) :: h.groups, h.rest⟩ : Hit)).map
              fun h => ⟨c :: h.text, h.groups.map fun g => (g.1, c :: g.2), h.rest⟩ := by
          funext x
          rw [List.map_map]
          refine List.map_congr_left fun h hh => ?_
          obtain ⟨rest, _, rfl⟩ := mem_hits_lit.1 hh
          rfl
        rw [if_pos hc, List.flatMap_map]
        dsimp only
        rw [hmap, ← List.map_flatMap, List.head?_map, ih]
        rcases splitFirst w l with _ | ⟨before, behind⟩
        · rfl
        · rw [Option.map_some, Option.bind_some, Option.bind_some]
          dsimp only
          rw [List.all_cons, hc, Bool.true_and]
          split <;> rfl
      · rw [if_neg hc, List.flatMap_nil]
        rcases splitFirst w l with _ | ⟨before, behind⟩
        · rfl
        · rw [Option.map_some, Option.bind_some]
          dsimp only
          rw [List.all_cons, Bool.eq_false_iff.2 hc, Bool.false_and]
          rfl

/-- **A greedy star takes all it can.** -/
theorem first_star : find (.star p) l = some ⟨l.takeWhile p, [], l.dropWhile p⟩ := by
  obtain ⟨shorter, heq, _⟩ := exists_splits_eq p l
  rw [find, hits_star, heq, List.reverse_append, List.map_append]
  rfl

theorem find_alt : find (.alt r s) l = (find r l).or (find s l) := List.head?_append

theorem find_group : find (.group i r) l = (find r l).map fun h => { h with groups := (i, h.text) :: h.groups } := by
  rw [find, hits_group, List.head?_map, find]

theorem find_lit_append (w : List Char) (l : List Char) :
    find (.seq (.lit w) r) (w ++ l) = (find r l).map fun h => ⟨w ++ h.text, h.groups, h.rest⟩ := by
  rw [find, hits_seq, hits_lit, if_pos (List.prefix_append w l), List.flatMap_singleton, List.drop_left, List.head?_map, find]
  rfl

theorem find_lit_none {w : List Char} (hw : ¬ w <+: l) : find (.seq (.lit w) r) l = none := by
  rw [find, hits_seq, hits_lit, if_neg hw]
  rfl

theorem hits_plus_cons {c : Char} (hc : p c = true) : hits (plus p) (c :: l) =
    (splits p l).reverse.map fun x => ⟨c :: x.1, [], x.2⟩ := by
  rw [plus, hits_seq, hits_one, if_pos hc, List.flatMap_singleton, hits_star, List.map_map]
  rfl

/-- **A greedy word is taken whole** when a character that is not of its class has to follow it. -/
theorem find_word {c : Char} (hc : p c = false) {name : List Char} (hname : name ≠ []) (hall : name.all p = true)
    (hl : ∀ d ∈ l.head?, p d = false) : find (.seq (.group i (plus p)) (.seq (.lit [c]) r)) (name ++ l) =
      (find (.seq (.lit [c]) r) l).map fun h => ⟨name ++ h.text, (i, name) :: h.groups, h.rest⟩ := by
  obtain ⟨d, t, rfl⟩ := List.exists_cons_of_ne_nil hname
  rw [List.all_cons, Bool.and_eq_true] at hall
  obtain ⟨hd, ht⟩ := hall
  obtain ⟨shorter, heq, hshorter⟩ := exists_splits_eq p (t ++ l)
  have htake := takeWhile_dropWhile_append (List.all_eq_true.1 ht) hl
  rw [htake.1, htake.2] at heq
  have hnone : ∀ x ∈ shorter.reverse, (hits (.seq (.lit [c]) r) x.2).map
      (fun h => (⟨d :: x.1 ++ h.text, [(i, d :: x.1)] ++ h.groups, h.rest⟩ : Hit)) = [] := by
    intro x hx
    obtain ⟨b, rest, hrest, hb⟩ := hshorter x (List.mem_reverse.1 hx)
    have hne : ¬ [c] <+: x.2 := by
      rw [hrest]
      intro hprefix
      obtain ⟨rfl, _⟩ := List.cons_prefix_cons.1 hprefix
      rw [hc] at hb
      exact Bool.false_ne_true hb
    rw [hits_seq, hits_lit, if_neg hne]
    rfl
  rw [find, hits_seq, hits_group, List.cons_append, hits_plus_cons hd, heq, List.reverse_append, List.map_map, List.flatMap_map,
    List.flatMap_append]
  dsimp only [Function.comp]
  rw [List.flatMap_eq_nil_iff.2 hnone, List.append_nil, List.reverse_singleton, List.flatMap_singleton, List.head?_map,
    find]
  rfl

theorem find_word_append {c : Char} (hc : p c = false) {name : List Char} (hname : name ≠ []) (hall : name.all p = true)
    (l : List Char) : find (.seq (.group i (plus p)) (.seq (.lit [c]) r)) (name ++ c :: l) =
      (find r l).map fun h => ⟨name ++ c :: h.text, (i, name) :: h.groups, h.rest⟩ := by
  have hhead : ∀ d ∈ (c :: l).head?, p d = false := by
    intro d hd
    obtain rfl : c = d := Option.some.inj hd
    exact hc
  have hlit := find_lit_append (r := r) [c] l
  rw [List.singleton_append] at hlit
  rw [find_word hc hname hall hhead, hlit, Option.map_map]
  rfl

theorem find_word_none {c : Char} (hl : ∀ d ∈ l.head?, p d = false) :
    find (.seq (.group i (plus p)) (.seq (.lit [c]) r)) l = none := by
  cases l with
  | nil => rfl
  | cons d l =>
    have hd : ¬ p d = true := by
      rw [hl d rfl]
      exact Bool.false_ne_true
    rw [find, hits_seq, hits_group, plus, hits_seq, hits_one, if_neg hd]
    rfl

end hits

/-! ## All matches -/

section findAll

variable {r : Regex} {l : List Char} {h : Hit}

theorem findAllFrom_eq (r : Regex) (skip : ℕ) (l : List Char) : findAllFrom r skip l = findAll r (l.drop skip) := by
  induction l generalizing skip with
  | nil => cases skip <;> rfl
  | cons c l ih =>
    cases skip with
    | zero => rfl
    | succ skip => exact ih skip

/-- **Behind a match** the search goes on. -/
theorem findAll_of_find (hfind : find r l = some h) (hne : h.text ≠ []) : findAll r l = h :: findAll r h.rest := by
  have happend := text_append_of_find hfind
  obtain ⟨c, t, htext⟩ := List.exists_cons_of_ne_nil hne
  rw [htext, List.cons_append] at happend
  subst happend
  rw [findAll, findAllFrom, hfind]
  dsimp only
  rw [findAllFrom_eq, htext, List.length_cons, Nat.add_sub_cancel, List.drop_left]

theorem findAll_cons {c : Char} (hfind : find r (c :: l) = none) : findAll r (c :: l) = findAll r l := by
  rw [findAll, findAllFrom, hfind]
  rfl

def StartsWith (w : List Char) (r : Regex) : Prop := ∀ l, ¬ w <+: l → find r l = none

theorem startsWith_seq (w : List Char) (r : Regex) : StartsWith w (.seq (.lit w) r) := fun _ hl => find_lit_none hl

theorem StartsWith.alt {w : List Char} {s : Regex} (hr : StartsWith w r) (hs : StartsWith w s) :
    StartsWith w (.alt r s) := by
  intro l hl
  rw [find_alt, hr l hl, hs l hl]
  rfl

/-- **Nothing is found** before the first occurrence of the text that the expression starts with. -/
theorem StartsWith.findAll_append {w x y : List Char} (hr : StartsWith w r) (hx : occurrences w x = 0)
    (hxy : Apart w x y) : findAll r (x ++ y) = findAll r y := by
  induction x with
  | nil => rfl
  | cons c x ih =>
    rw [occurrences, Nat.add_eq_zero_iff] at hx
    have hnot : ¬ w <+: c :: x ++ y := by
      intro hstart
      rw [if_pos ((prefix_append_iff hxy).1 hstart)] at hx
      exact absurd hx.1 Nat.one_ne_zero
    rw [List.cons_append] at hnot ⊢
    rw [findAll_cons (hr _ hnot)]
    exact ih hx.2 hxy.tail

theorem StartsWith.findAll_eq_nil {w x : List Char} (hr : StartsWith w r) (hx : occurrences w x = 0) :
    findAll r x = [] := by
  have h := hr.findAll_append (y := []) hx (.inl nofun)
  rw [List.append_nil] at h
  exact h

theorem mem_findAll (hh : h ∈ findAll r l) : ∃ front back, l = front ++ back ∧ h ∈ hits r back := by
  have hfrom : ∀ (skip : ℕ), h ∈ findAllFrom r skip l → ∃ front back, l = front ++ back ∧ h ∈ hits r back := by
    clear hh
    induction l with
    | nil => exact fun skip hh => absurd hh (by rw [findAllFrom]; exact List.not_mem_nil)
    | cons c l ih =>
      have hlater : ∀ skip, h ∈ findAllFrom r skip l → ∃ front back, c :: l = front ++ back ∧ h ∈ hits r back := by
        intro skip hh
        obtain ⟨front, back, rfl, hback⟩ := ih skip hh
        exact ⟨c :: front, back, rfl, hback⟩
      intro skip hh
      cases skip with
      | succ skip => exact hlater skip hh
      | zero =>
        rw [findAllFrom] at hh
        cases hfind : find r (c :: l) with
        | none =>
          rw [hfind] at hh
          exact hlater 0 hh
        | some hit =>
          rw [hfind] at hh
          rcases List.mem_cons.1 hh with rfl | hh
          · exact ⟨[], c :: l, rfl, List.mem_of_mem_head? hfind⟩
          · exact hlater _ hh
  exact hfrom 0 hh

end findAll

/-! ## Delimited texts -/

/-- What is between two texts, as short as possible. -/
def delimited (front back : List Char) (i : ℕ) (p : Char → Bool) : Regex :=
  .seq (.lit front) (.seq (.group i (.lazyStar p)) (.lit back))

section delimited

variable {front back body : List Char} {i : ℕ} {p : Char → Bool}

/-- **The first end** is the end of the body. -/
theorem find_delimited (hne : back ≠ []) (hhead : ∀ c ∈ back.head?, c ∉ back.tail) (hbody : occurrences back body = 0)
    (rest : List Char) : find (delimited front back i p) (front ++ (body ++ (back ++ rest))) =
      if body.all p then some ⟨front ++ (body ++ back), [(i, body)], rest⟩ else none := by
  rw [delimited, find_lit_append, first_lazyStar hne, splitFirst_append_self hne hhead hbody, Option.bind_some]
  dsimp only
  split <;> rfl

end delimited

end Regex

end Opd.Lib

import Opd.Verl.ToolParser

/-!
# Tool calls of Gemma4 are read back

A call is written in the format of `Gemma4ToolParser`, and `extract_tool_calls` reads it. The expression for the
arguments has no `regex.DOTALL`: a text with a newline is not found between its quotation marks, and is read as a bare
value.

* `findAll_render`: calls that are written one after the other are found.
* `findAll_renderArguments`: the arguments are found, one after the other.
* `parseArguments_iff`: all arguments are read back exactly when no text has a newline.
-/

namespace Opd.Verl.GemmaRoundTrip

open Lib Lib.Regex ToolAgentLoop ToolParser

variable {F : Type} {py : Interpreter F}

inductive Argument
  | str (s : Text)
  | int (z : ℤ)
  | bool (b : Bool)
  | null

def Argument.value : Argument → JsonValue F
  | .str s => .str s
  | .int z => .int z
  | .bool b => .bool b
  | .null => .null

def Argument.text : Argument → Text
  | .str s => quote ++ (s ++ quote)
  | .int z => textOfInt z
  | .bool true => "true".toList
  | .bool false => "false".toList
  | .null => "null".toList

/-- A text without the quotation mark and the delimiters of calls. -/
structure Plain (s : Text) : Prop where
  quote : occurrences quote s = 0
  start : occurrences gemmaStart s = 0
  close : occurrences gemmaEnd s = 0

/-- **A call that the format can write**: its name and keys are words, and its texts have no delimiters. -/
structure Call (py : Interpreter F) where
  name : Text
  arguments : Dict Text Argument
  name_ne : name ≠ []
  name_word : name.all py.isWord = true
  keys_word : ∀ k ∈ arguments.keys, k ≠ [] ∧ k.all py.isWord = true
  plain : ∀ item ∈ arguments.items, ∀ s, item.2 = .str s → Plain s

/-- `key:value` -/
def renderArgument (item : Text × Argument) : Text := item.1 ++ ':' :: item.2.text

/-- `key:value,key2:value2` -/
def renderArguments : List (Text × Argument) → Text
  | [] => []
  | [item] => renderArgument item
  | item :: next :: items => renderArgument item ++ ',' :: renderArguments (next :: items)

/-- `<|tool_call>call:func_name{key:value}<tool_call|>` -/
def render (call : Call py) : Text :=
  gemmaStart ++ "call:".toList ++ (call.name ++ '{' :: (renderArguments call.arguments.items ++ '}' :: gemmaEnd))

/-! ## Words and values -/

section words

variable (h : py.Lawful)

include h in
theorem isWord_of_ascii {c : Char} (hc : c.toNat < 128) (hother : (c.isAlphanum || c = '_') = false) :
    py.isWord c = false := (h.isWord_ascii c hc).trans hother

include h in
theorem not_mem_word {k : Text} (hk : k.all py.isWord = true) {c : Char} (hc : c.toNat < 128)
    (hother : (c.isAlphanum || c = '_') = false) : c ∉ k := by
  intro hmem
  have hword := List.all_eq_true.1 hk c hmem
  rw [isWord_of_ascii h hc hother] at hword
  exact Bool.false_ne_true hword

end words

theorem mem_text_of_ne_str {a : Argument} (ha : ∀ s, a ≠ .str s) {c : Char} (hc : c ∈ a.text) :
    c ≠ '<' ∧ c ≠ ',' ∧ c ≠ '}' := by
  have hall : ∀ w ∈ ["true".toList, "false".toList, "null".toList],
      w.all (fun c => decide (c ≠ '<' ∧ c ≠ ',' ∧ c ≠ '}')) = true := by decide
  have hletters : ∀ w ∈ ["true".toList, "false".toList, "null".toList], ∀ c ∈ w, c ≠ '<' ∧ c ≠ ',' ∧ c ≠ '}' :=
    fun w hw c hc => of_decide_eq_true (List.all_eq_true.1 (hall w hw) c hc)
  rcases a with s | z | b | _
  · exact absurd rfl (ha s)
  · rcases isDigit_of_mem_textOfInt hc with hdigit | rfl
    · refine ⟨?_, ?_, ?_⟩ <;> (rintro rfl; exact absurd hdigit (by decide))
    · decide
  · cases b with
    | true => exact hletters "true".toList (by decide) c hc
    | false => exact hletters "false".toList (by decide) c hc
  · exact hletters "null".toList (by decide) c hc

theorem bareValue_text {a : Argument} (ha : ∀ s, a ≠ .str s) : bareValue py a.text = a.value := by
  rcases a with s | z | b | _
  · exact absurd rfl (ha s)
  · have hword : ∀ {w : Text}, 'u' ∈ w ∨ 'l' ∈ w → lower (textOfInt z) ≠ w := lower_textOfInt_ne z
    unfold bareValue
    simp only [Argument.text, Argument.value, strip_textOfInt, intOfText_textOfInt]
    rw [if_neg (hword (by decide)), if_neg (hword (by decide)), if_neg (hword (by decide))]
  · cases b <;> rfl
  · rfl

/-! ## One argument -/

/-- The groups of the match of a value: a text is found between its quotation marks when it has no newline. -/
def valueGroups : Argument → List (ℕ × Text)
  | .str s => if '\n' ∈ s then [(3, (Argument.str s).text)] else [(2, s)]
  | a => [(3, a.text)]

def readBack (py : Interpreter F) : Argument → JsonValue F
  | .str s => if '\n' ∈ s then bareValue py (Argument.str s).text else .str s
  | a => a.value

def EndsValue (rest : Text) : Prop := ∀ c ∈ rest.head?, c = ','

theorem find_bare {t rest : Text} (ht : ∀ c ∈ t, isBare c = true) (hrest : EndsValue rest) :
    find (.group 3 (.star isBare)) (t ++ rest) = some ⟨t, [(3, t)], rest⟩ := by
  have hend : ∀ c ∈ rest.head?, isBare c = false := by
    intro c hc
    rw [hrest c hc]
    rfl
  obtain ⟨htake, hdrop⟩ := takeWhile_dropWhile_append ht hend
  rw [find_group, first_star, htake, hdrop]
  rfl

theorem all_bare_of_ne_str {a : Argument} (ha : ∀ s, a ≠ .str s) : ∀ c ∈ a.text, isBare c = true := by
  intro c hc
  obtain ⟨_, hcomma, hbrace⟩ := mem_text_of_ne_str ha hc
  rw [isBare, Bool.and_eq_true, decide_eq_true_eq, decide_eq_true_eq]
  exact ⟨hcomma, hbrace⟩

theorem find_quoted {s : Text} (hs : occurrences quote s = 0) (rest : Text) :
    find (delimited quote quote 2 notNewline) (quote ++ (s ++ quote) ++ rest) =
      if '\n' ∈ s then none else some ⟨quote ++ (s ++ quote), [(2, s)], rest⟩ := by
  rw [List.append_assoc, List.append_assoc, find_delimited (by decide) (forall_mem_of_all (by decide)) hs]
  by_cases hnewline : '\n' ∈ s
  · rw [if_pos hnewline, if_neg]
    intro hall
    exact absurd (List.all_eq_true.1 hall _ hnewline) (by decide)
  · rw [if_neg hnewline, if_pos]
    refine List.all_eq_true.2 fun c hc => ?_
    rw [notNewline, decide_eq_true_eq]
    rintro rfl
    exact hnewline hc

/-- **One value is found whole**, where a text with a newline has no comma and no brace. -/
theorem find_valueRegex {a : Argument} {rest : Text} (hplain : ∀ s, a = .str s → Plain s)
    (hbare : ∀ s, a = .str s → '\n' ∈ s → ∀ c ∈ s, isBare c = true) (hrest : EndsValue rest) :
    find valueRegex (a.text ++ rest) = some ⟨a.text, valueGroups a, rest⟩ := by
  rw [valueRegex, find_alt]
  by_cases hstr : ∃ s, a = .str s
  · obtain ⟨s, rfl⟩ := hstr
    have hquoted := find_quoted (hplain s rfl).quote rest
    rw [Argument.text, hquoted, valueGroups]
    by_cases hnewline : '\n' ∈ s
    · rw [if_pos hnewline, if_pos hnewline, Option.none_or]
      refine find_bare (fun c hc => ?_) hrest
      rcases List.mem_append.1 hc with hquote | hc
      · exact List.all_eq_true.1 (by decide : quote.all isBare = true) c hquote
      · rcases List.mem_append.1 hc with hs | hquote
        · exact hbare s rfl hnewline c hs
        · exact List.all_eq_true.1 (by decide : quote.all isBare = true) c hquote
    · rw [if_neg hnewline, if_neg hnewline]
      rfl
  · have hne : ∀ s, a ≠ .str s := fun s hs => hstr ⟨s, hs⟩
    have hnot : ¬ quote <+: a.text ++ rest := by
      rintro ⟨t, ht⟩
      cases htext : a.text with
      | nil =>
        rw [htext, List.nil_append] at ht
        have hcomma := hrest '<' (by rw [← ht]; rfl)
        exact absurd hcomma (by decide)
      | cons c l =>
        rw [htext] at ht
        refine (mem_text_of_ne_str hne (c := '<') ?_).1 rfl
        rw [htext, ← (List.cons.inj ht).1]
        exact List.mem_cons_self
    have hgroups : valueGroups a = [(3, a.text)] := by
      rcases a with s | z | b | _
      · exact absurd rfl (hne s)
      · rfl
      · rfl
      · rfl
    rw [delimited, find_lit_none hnot, hgroups, Option.none_or]
    exact find_bare (all_bare_of_ne_str hne) hrest

/-- **One argument is found whole.** -/
theorem find_argRegex (h : py.Lawful) {item : Text × Argument} (rest : Text) (hne : item.1 ≠ [])
    (hword : item.1.all py.isWord = true) (hplain : ∀ s, item.2 = .str s → Plain s)
    (hbare : ∀ s, item.2 = .str s → '\n' ∈ s → ∀ c ∈ s, isBare c = true) (hrest : EndsValue rest) :
    find (argRegex py) (renderArgument item ++ rest) =
      some ⟨renderArgument item, (1, item.1) :: valueGroups item.2, rest⟩ := by
  have hcolon : py.isWord ':' = false := isWord_of_ascii h (by decide) rfl
  rw [argRegex, renderArgument, List.append_assoc, List.cons_append, find_word_append hcolon hne hword,
    find_valueRegex hplain hbare hrest]
  rfl

theorem setArgument_eq {h : Hit} {item : Text × Argument} (hgroups : h.groups = (1, item.1) :: valueGroups item.2)
    (result : Dict Text (JsonValue F)) :
    setArgument py result h = result.update item.1 fun _ => readBack py item.2 := by
  have hkey : h.group? 1 = some item.1 := by
    rw [Hit.group?, hgroups]
    rfl
  have hvalue : hitValue py h = some (readBack py item.2) := by
    unfold hitValue Hit.group?
    rw [hgroups]
    obtain ⟨k, s | z | b | _⟩ := item
    · dsimp only [valueGroups, readBack]
      by_cases hnewline : '\n' ∈ s
      · rw [if_pos hnewline, if_pos hnewline]
        rfl
      · rw [if_neg hnewline, if_neg hnewline]
        rfl
    · exact congrArg some (bareValue_text (a := .int z) nofun)
    · exact congrArg some (bareValue_text (a := .bool b) nofun)
    · exact congrArg some (bareValue_text (a := .null) nofun)
  unfold setArgument
  rw [hvalue, hkey]
  rfl

/-! ## All arguments -/

/-- Keys are words, texts have no delimiters, and those with a newline have no comma and no brace. -/
def InStep (py : Interpreter F) (item : Text × Argument) : Prop :=
  item.1 ≠ [] ∧ item.1.all py.isWord = true ∧ (∀ s, item.2 = .str s → Plain s) ∧
    ∀ s, item.2 = .str s → '\n' ∈ s → ∀ c ∈ s, isBare c = true

theorem renderArgument_ne_nil (item : Text × Argument) : renderArgument item ≠ [] :=
  List.append_ne_nil_of_right_ne_nil _ (List.cons_ne_nil _ _)

variable {items : List (Text × Argument)}

/-- **The arguments are found**, one after the other. -/
theorem findAll_renderArguments (h : py.Lawful) (hitems : ∀ item ∈ items, InStep py item) :
    List.Forall₂ (fun h item => h.groups = (1, item.1) :: valueGroups item.2)
      (findAll (argRegex py) (renderArguments items)) items := by
  induction items with
  | nil => exact .nil
  | cons item items ih =>
    obtain ⟨hne, hword, hplain, hbare⟩ := hitems item List.mem_cons_self
    have ih := ih fun item hitem => hitems item (List.mem_cons_of_mem _ hitem)
    cases items with
    | nil =>
      have hfind := find_argRegex h [] hne hword hplain hbare nofun
      rw [List.append_nil] at hfind
      rw [renderArguments, findAll_of_find hfind (renderArgument_ne_nil item)]
      exact .cons rfl .nil
    | cons next items =>
      have hfind := find_argRegex h (',' :: renderArguments (next :: items)) hne hword hplain hbare
        fun c hc => (Option.some.inj hc).symm
      -- a match cannot begin at the comma
      have hcomma : find (argRegex py) (',' :: renderArguments (next :: items)) = none := by
        refine find_word_none fun c hc => ?_
        obtain rfl : ',' = c := Option.some.inj hc
        exact isWord_of_ascii h (by decide) rfl
      rw [renderArguments, findAll_of_find hfind (renderArgument_ne_nil item), findAll_cons hcomma]
      exact .cons rfl ih

theorem foldl_setArgument {hs : List Hit}
    (h : List.Forall₂ (fun h item => h.groups = (1, item.1) :: valueGroups item.2) hs items)
    (result : Dict Text (JsonValue F)) : hs.foldl (setArgument py) result =
      result.merge (fun _ v => v) (items.map fun item => (item.1, readBack py item.2)) := by
  induction h generalizing result with
  | nil => rfl
  | cons hgroups _ ih =>
    rw [List.foldl_cons, setArgument_eq hgroups, ih]
    rfl

/-- **What is read** of arguments that keep in step: each under its key. -/
theorem parseArguments_render (h : py.Lawful) {arguments : Dict Text Argument}
    (hitems : ∀ item ∈ arguments.items, InStep py item) :
    parseArguments py (renderArguments arguments.items) = arguments.map (readBack py) := by
  refine Dict.ext_items ?_
  have hkeys : ((Dict.empty : Dict Text (JsonValue F)).keys ++
      (arguments.items.map fun item => (item.1, readBack py item.2)).map Prod.fst).Nodup := by
    rw [List.map_map]
    exact arguments.nodup
  rw [parseArguments, foldl_setArgument (findAll_renderArguments h hitems), Dict.merge_new _ hkeys, Dict.items_map]
  exact List.map_id' _

/-! ## What a match can return -/

/-- A value that a match returns: a text with a newline was found without quotation marks. -/
structure Returned (v : JsonValue F) : Prop where
  scalar : IsScalar v ∨ ∃ s, v = .str s
  bare : ∀ s, v = .str s → '\n' ∈ s → ∀ c ∈ s, isBare c = true

theorem mem_of_mem_strip {t : Text} {c : Char} (hc : c ∈ strip t) : c ∈ t :=
  (List.dropWhile_suffix _).subset ((List.rdropWhile_prefix _ _).subset hc)

theorem bareValue_eq_str {t s : Text} (h : bareValue py t = .str s) : s = strip t := by
  unfold bareValue at h
  dsimp only at h
  split at h
  · cases h
  · split at h
    · cases h
    · split at h
      · cases h
      · split at h
        · cases h
        · split at h
          · cases h
          · exact (JsonValue.str.inj h).symm

theorem returned_bareValue {t : Text} (ht : t.all isBare = true) : Returned (bareValue py t) := by
  constructor
  · unfold bareValue
    dsimp only
    split
    · exact .inl trivial
    · split
      · exact .inl trivial
      · split
        · exact .inl trivial
        · split
          · exact .inl trivial
          · split
            · exact .inl trivial
            · exact .inr ⟨_, rfl⟩
  · intro s hs _ c hc
    rw [bareValue_eq_str hs] at hc
    exact List.all_eq_true.1 ht c (mem_of_mem_strip hc)

theorem groups_of_valueRegex {h : Hit} {l : Text} (hh : h ∈ hits valueRegex l) :
    (∃ s, h.groups = [(2, s)] ∧ s.all notNewline = true) ∨ ∃ t, h.groups = [(3, t)] ∧ t.all isBare = true := by
  rcases List.mem_append.1 hh with hquoted | hbare
  · obtain ⟨front, hfront, second, hsecond, rfl⟩ := mem_hits_seq.1 hquoted
    obtain ⟨_, _, rfl⟩ := mem_hits_lit.1 hfront
    obtain ⟨middle, hmiddle, back, hback, rfl⟩ := mem_hits_seq.1 hsecond
    obtain ⟨_, _, rfl⟩ := mem_hits_lit.1 hback
    obtain ⟨inner, hinner, rfl⟩ := mem_hits_group hmiddle
    obtain ⟨_, hall, hnone⟩ := mem_hits_lazyStar hinner
    exact .inl ⟨inner.text, by rw [hnone]; rfl, hall⟩
  · obtain ⟨inner, hinner, rfl⟩ := mem_hits_group hbare
    obtain ⟨_, hall, hnone⟩ := mem_hits_star hinner
    exact .inr ⟨inner.text, by rw [hnone], hall⟩

theorem returned_of_findAll {h : Hit} {l : Text} (hh : h ∈ findAll (argRegex py) l) {v : JsonValue F}
    (hv : hitValue py h = some v) : Returned v := by
  obtain ⟨_, back, _, hback⟩ := mem_findAll hh
  obtain ⟨word, hword, second, hsecond, rfl⟩ := mem_hits_seq.1 hback
  obtain ⟨colon, hcolon, value, hvalue, rfl⟩ := mem_hits_seq.1 hsecond
  obtain ⟨_, _, rfl⟩ := mem_hits_lit.1 hcolon
  obtain ⟨inner, hinner, rfl⟩ := mem_hits_group hword
  obtain ⟨first, hfirst, stars, hstars, rfl⟩ := mem_hits_seq.1 hinner
  have hnone : first.groups = [] := by
    cases back with
    | nil => exact absurd hfirst List.not_mem_nil
    | cons c back =>
      rw [hits_one] at hfirst
      split at hfirst
      · rw [List.mem_singleton.1 hfirst]
      · exact absurd hfirst List.not_mem_nil
  obtain ⟨_, _, hstar⟩ := mem_hits_star hstars
  unfold hitValue Hit.group? at hv
  simp only [hnone, hstar] at hv
  rcases groups_of_valueRegex hvalue with ⟨s, hgroups, hall⟩ | ⟨t, hgroups, hall⟩
  · rw [hgroups] at hv
    obtain rfl : JsonValue.str s = v := Option.some.inj hv
    refine ⟨.inr ⟨s, rfl⟩, fun s' hs' hnewline => ?_⟩
    rw [← JsonValue.str.inj hs'] at hnewline
    exact absurd (List.all_eq_true.1 hall _ hnewline) (by decide)
  · rw [hgroups] at hv
    obtain rfl : bareValue py t = v := Option.some.inj hv
    exact returned_bareValue hall

/-- **All values** of the arguments were returned by matches. -/
theorem returned_parseArguments {l k : Text} {v : JsonValue F} (hv : (k, v) ∈ (parseArguments py l).items) :
    Returned v := by
  have hfold : ∀ (hs : List Hit) (result : Dict Text (JsonValue F)),
      (∀ h ∈ hs, ∀ v, hitValue py h = some v → Returned v) → (∀ k v, result.get? k = some v → Returned v) →
        ∀ k v, (hs.foldl (setArgument py) result).get? k = some v → Returned v := by
    intro hs
    induction hs with
    | nil => exact fun result _ hresult => hresult
    | cons h hs ih =>
      intro result hhs hresult
      refine ih _ (fun h hh => hhs h (List.mem_cons_of_mem _ hh)) fun k v hk => ?_
      unfold setArgument at hk
      cases hvalue : hitValue py h with
      | none =>
        rw [hvalue] at hk
        exact hresult k v hk
      | some w =>
        rw [hvalue] at hk
        dsimp only at hk
        rw [Dict.get?_update] at hk
        split at hk
        · obtain rfl := Option.some.inj hk
          exact hhs h List.mem_cons_self _ hvalue
        · exact hresult k v hk
  exact hfold _ _ (fun h hh v hv => returned_of_findAll hh hv) (fun k v hk => by cases hk) k v (Dict.mem_items.1 hv)

/-! ## Calls -/

def OneLine (call : Call py) : Prop := ∀ item ∈ call.arguments.items, ∀ s, item.2 = .str s → '\n' ∉ s

theorem strip_quoted (s : Text) : strip (quote ++ (s ++ quote)) = quote ++ (s ++ quote) := by
  refine strip_eq_self (fun c hc => ?_) fun c hc => ?_
  · obtain rfl : '<' = c := Option.some.inj hc
    rfl
  · rw [← List.append_assoc, List.getLast?_append] at hc
    obtain rfl : '>' = c := Option.some.inj hc
    rfl

theorem readBack_ne {s : Text} (hs : '\n' ∈ s) : readBack py (.str s) ≠ .str s := by
  rw [readBack, if_pos hs]
  intro h
  have hlength := congrArg List.length (bareValue_eq_str h)
  rw [Argument.text, strip_quoted, List.length_append, List.length_append] at hlength
  have hquote : quote.length = 5 := rfl
  omega

/-- **The arguments are read back** exactly when no text has a newline. -/
theorem parseArguments_iff (h : py.Lawful) (call : Call py) :
    parseArguments py (renderArguments call.arguments.items) = call.arguments.map Argument.value ↔ OneLine call := by
  have hstep : (∀ item ∈ call.arguments.items, ∀ s, item.2 = .str s → '\n' ∈ s → ∀ c ∈ s, isBare c = true) →
      parseArguments py (renderArguments call.arguments.items) = call.arguments.map (readBack py) := by
    refine fun hbare => parseArguments_render h fun item hitem => ?_
    obtain ⟨hne, hword⟩ := call.keys_word item.1 (List.mem_map_of_mem hitem)
    exact ⟨hne, hword, call.plain item hitem, hbare item hitem⟩
  constructor
  · intro heq item hitem s hs hnewline
    have hmem : ∀ item ∈ call.arguments.items,
        (item.1, (item.2.value : JsonValue F)) ∈ (call.arguments.map Argument.value).items := by
      intro item hitem
      rw [Dict.items_map]
      exact List.mem_map_of_mem (f := fun item => (item.1, (item.2.value : JsonValue F))) hitem
    -- the text was found without quotation marks, so that all texts with a newline keep in step
    have hbare : ∀ item ∈ call.arguments.items, ∀ s, item.2 = .str s → '\n' ∈ s → ∀ c ∈ s, isBare c = true := by
      intro item hitem s hs
      have hitem := hmem item hitem
      rw [← heq] at hitem
      exact (returned_parseArguments hitem).bare s (by rw [hs]; rfl)
    have hread : (item.1, readBack py item.2) ∈ (call.arguments.map (readBack py)).items := by
      rw [Dict.items_map]
      exact List.mem_map_of_mem (f := fun item => (item.1, readBack py item.2)) hitem
    rw [← hstep hbare, heq] at hread
    have hsame := (Dict.mem_items.1 hread).symm.trans (Dict.mem_items.1 (hmem item hitem))
    rw [hs] at hsame
    exact readBack_ne hnewline (Option.some.inj hsame)
  · intro hline
    rw [hstep fun item hitem s hs hnewline => absurd hnewline (hline item hitem s hs)]
    refine Dict.map_congr fun item hitem => ?_
    cases hvalue : item.2 with
    | str s => exact if_neg (hline item hitem s hvalue)
    | int z => rfl
    | bool b => rfl
    | null => rfl

theorem occurrences_renderArguments (h : py.Lawful) (hwords : ∀ item ∈ items, item.1.all py.isWord = true)
    (hplain : ∀ item ∈ items, ∀ s, item.2 = .str s → Plain s) : occurrences gemmaEnd (renderArguments items) = 0 := by
  have hhead : '<' ∈ gemmaEnd := by decide
  have hitem : ∀ item : Text × Argument, item.1.all py.isWord = true → (∀ s, item.2 = .str s → Plain s) →
      occurrences gemmaEnd (renderArgument item) = 0 := by
    intro item hword hplain
    have hkey : occurrences gemmaEnd (item.1 ++ [':']) = 0 := by
      refine occurrences_of_not_mem hhead fun hmem => ?_
      rcases List.mem_append.1 hmem with hmem | hmem
      · exact not_mem_word h hword (by decide) rfl hmem
      · exact absurd hmem (by decide)
    have htext : occurrences gemmaEnd item.2.text = 0 := by
      by_cases hstr : ∃ s, item.2 = .str s
      · obtain ⟨s, hs⟩ := hstr
        rw [hs, Argument.text, occurrences_append (.inr (forall_mem_of_all (by decide))), occurrences_append (.inl (forall_mem_of_all (by decide))),
          (hplain s hs).close]
        rfl
      · refine occurrences_of_not_mem hhead fun hmem => ?_
        exact (mem_text_of_ne_str (fun s hs => hstr ⟨s, hs⟩) hmem).1 rfl
    rw [renderArgument, List.append_cons, occurrences_append (.inr ?_), hkey, htext]
    intro c hc
    rw [List.getLast?_append] at hc
    obtain rfl : ':' = c := Option.some.inj hc
    decide
  induction items with
  | nil => rfl
  | cons item items ih =>
    have ih := ih (fun item hitem => hwords item (List.mem_cons_of_mem _ hitem))
      fun item hitem => hplain item (List.mem_cons_of_mem _ hitem)
    have hfirst := hitem item (hwords item List.mem_cons_self) (hplain item List.mem_cons_self)
    cases items with
    | nil => exact hfirst
    | cons next items =>
      have hcomma : occurrences gemmaEnd ([','] ++ renderArguments (next :: items)) = 0 := by
        rw [occurrences_append (.inr (forall_mem_of_all (by decide))), ih]
        rfl
      rw [renderArguments, occurrences_append (.inl ?_), hfirst]
      · rw [Nat.zero_add]
        exact hcomma
      · intro c hc
        obtain rfl : ',' = c := Option.some.inj hc
        decide

theorem render_ne_nil (call : Call py) : render call ≠ [] :=
  List.append_ne_nil_of_left_ne_nil (List.append_ne_nil_of_left_ne_nil (by decide) _) _

/-- **A call is found whole.** -/
theorem find_render (h : py.Lawful) (call : Call py) (rest : Text) : find (gemmaToolCallRegex py) (render call ++ rest) =
    some ⟨render call, [(1, call.name), (2, renderArguments call.arguments.items)], rest⟩ := by
  have hbrace : py.isWord '{' = false := isWord_of_ascii h (by decide) rfl
  have hclose := occurrences_brace (occurrences_renderArguments h
    (fun item hitem => (call.keys_word item.1 (List.mem_map_of_mem hitem)).2) call.plain)
  have hall : (renderArguments call.arguments.items).all anyChar = true := List.all_eq_true.2 fun _ _ => rfl
  have hassoc : render call ++ rest = (gemmaStart ++ "call:".toList) ++ (call.name ++ '{' ::
      (renderArguments call.arguments.items ++ ('}' :: gemmaEnd ++ rest))) := by
    simp only [render, List.append_assoc, List.cons_append]
  rw [gemmaToolCallRegex, delimited, hassoc, find_lit_append, find_word_append hbrace call.name_ne call.name_word,
    first_lazyStar (List.cons_ne_nil _ _), splitFirst_append_self (List.cons_ne_nil _ _) (forall_mem_of_all (by decide))
      hclose,
    Option.bind_some, if_pos hall]
  rfl

/-- **Calls are found**, one after the other. -/
theorem findAll_render (h : py.Lawful) (calls : List (Call py)) :
    (findAll (gemmaToolCallRegex py) (calls.flatMap render)).map Hit.groups =
      calls.map fun call => [(1, call.name), (2, renderArguments call.arguments.items)] := by
  induction calls with
  | nil => rfl
  | cons call calls ih =>
    rw [List.flatMap_cons, findAll_of_find (find_render h call _) (render_ne_nil call), List.map_cons, ih]
    rfl

def Call.toFunctionCall (call : Call py) : FunctionCall :=
  functionCall call.name (dumps py.floats (.obj (call.arguments.map Argument.value).items))

theorem eachMember_of_forall {P : JsonValue F → Prop} {items : List (Text × JsonValue F)}
    (h : ∀ item ∈ items, Each P item.2) : EachMember P items := by
  induction items with
  | nil => trivial
  | cons item items ih =>
    exact ⟨h item List.mem_cons_self, ih fun item hitem => h item (List.mem_cons_of_mem _ hitem)⟩

theorem each_of_returned {v : JsonValue F} (h : Returned v) : Each IsScalar v := by
  rcases h.scalar with hscalar | ⟨s, rfl⟩
  · cases v with
    | null => exact hscalar
    | bool b => exact hscalar
    | int z => exact hscalar
    | float x => exact hscalar
    | str s => trivial
    | arr items => exact hscalar.elim
    | obj items => exact hscalar.elim
  · trivial

theorem each_value (a : Argument) : Each IsScalar (a.value : JsonValue F) := by
  cases a <;> trivial

/-- **One call is returned** exactly when it has no text with a newline. -/
theorem gemmaCall_iff (h : py.Lawful) (call : Call py) :
    gemmaCall py call.name (renderArguments call.arguments.items) = call.toFunctionCall ↔ OneLine call := by
  rw [gemmaCall, Call.toFunctionCall, functionCall_inj, ← parseArguments_iff h call]
  constructor
  · rintro ⟨_, heq⟩
    have hread : Each IsScalar (.obj (parseArguments py (renderArguments call.arguments.items)).items) :=
      ⟨(parseArguments py _).nodup, eachMember_of_forall fun item hitem => each_of_returned (returned_parseArguments hitem)⟩
    have hvalues : Each IsScalar (.obj (call.arguments.map (Argument.value (F := F))).items) := by
      refine ⟨(call.arguments.map Argument.value).nodup, eachMember_of_forall fun item hitem => ?_⟩
      rw [Dict.items_map] at hitem
      obtain ⟨item, _, rfl⟩ := List.mem_map.1 hitem
      exact each_value item.2
    exact Dict.ext_items (JsonValue.obj.inj (dumps_injective h.floats hread hvalues heq))
  · exact fun heq => ⟨rfl, by rw [heq]⟩

/-- **The round trip.** Calls in the format of Gemma4 come back exactly when no text has a newline. -/
theorem gemmaExtract_iff (h : py.Lawful) (padToken : Option Text) (calls : List (Call py)) {decoded : Text}
    (hdecoded : removePad padToken decoded = calls.flatMap render) :
    (gemmaExtract py padToken decoded).2 = calls.map Call.toFunctionCall ↔ ∀ call ∈ calls, OneLine call := by
  have hcalls : (gemmaExtract py padToken decoded).2 =
      calls.map fun call => gemmaCall py call.name (renderArguments call.arguments.items) := by
    have hmatches := congrArg (List.map fun groups : List (ℕ × Text) =>
      gemmaCall py (((groups.find? fun g => g.1 = 1).map Prod.snd).getD [])
        (((groups.find? fun g => g.1 = 2).map Prod.snd).getD [])) (findAll_render h calls)
    rw [List.map_map, List.map_map] at hmatches
    rw [gemmaExtract_calls, hdecoded]
    exact hmatches
  rw [hcalls, List.map_inj_left]
  exact forall₂_congr fun call _ => gemmaCall_iff h call

theorem textCall_keys {key s : Text} (hkey : key ≠ [] ∧ key.all asciiPython.isWord = true) :
    ∀ k ∈ ((Dict.empty : Dict Text Argument).update key fun _ => .str s).keys,
      k ≠ [] ∧ k.all asciiPython.isWord = true := by
  intro k hk
  rcases Dict.mem_keys_update.1 hk with rfl | hempty
  · exact hkey
  · exact absurd hempty List.not_mem_nil

theorem textCall_plain {key s : Text} (hs : Plain s) :
    ∀ item ∈ ((Dict.empty : Dict Text Argument).update key fun _ => .str s).items, ∀ t, item.2 = .str t → Plain t := by
  intro item hitem t ht
  obtain rfl := List.mem_singleton.1 hitem
  exact Argument.str.inj ht ▸ hs

def textCall (key s : Text) (hkey : key ≠ [] ∧ key.all asciiPython.isWord = true) (hs : Plain s) : Call asciiPython where
  name := key
  arguments := Dict.empty.update key fun _ => .str s
  name_ne := hkey.1
  name_word := hkey.2
  keys_word := textCall_keys hkey
  plain := textCall_plain hs

theorem word_f : "f".toList ≠ [] ∧ "f".toList.all asciiPython.isWord = true := by decide

theorem plain_braces : Plain "a,b\x7d:".toList := ⟨by decide, by decide, by decide⟩

theorem plain_twoLines : Plain "a\nb".toList := ⟨by decide, by decide, by decide⟩

/-- `<|tool_call>call:f{f:<|"|>a,b}:<|"|>}<tool_call|>` -/
def bracesCall : Call asciiPython := textCall "f".toList "a,b\x7d:".toList word_f plain_braces

def twoLinesCall : Call asciiPython := textCall "f".toList "a\nb".toList word_f plain_twoLines

theorem gemmaExtract_braces : (gemmaExtract asciiPython (some "<pad>".toList)
    ("<pad>".toList ++ [bracesCall, bracesCall].flatMap render)).2 = [bracesCall, bracesCall].map Call.toFunctionCall := by
  refine (gemmaExtract_iff asciiPython_lawful (some "<pad>".toList) [bracesCall, bracesCall] (by decide +kernel)).2 ?_
  intro call hcall item hitem s hs
  obtain rfl : call = bracesCall := by
    rcases List.mem_cons.1 hcall with rfl | hcall
    · rfl
    · exact List.mem_singleton.1 hcall
  obtain rfl := List.mem_singleton.1 hitem
  obtain rfl := Argument.str.inj hs
  decide

/-- **The newline** is not matched, and the quotation marks stay in the value. -/
theorem gemmaExtract_twoLines :
    (gemmaExtract asciiPython none ([twoLinesCall].flatMap render)).2 ≠ [twoLinesCall].map Call.toFunctionCall := by
  decide +kernel

end Opd.Verl.GemmaRoundTrip

import Opd.Verl.ToolParser

/-!
# Tool calls of Qwen3-coder are read back

Calls are written in the format of `Qwen3XMLToolParser`, with one newline around each value, and
`extract_tool_calls` reads them. Each value is converted to the type that the tool declares for it; the word `null`
becomes `None` whatever the type is.

* `convertParamValue_render`: a value that fits its type is converted back, but for that word.
* `parseXmlFunctionCall_piece`: one call is read back.
* `qwenExtract_response`: all calls are read back, in order.
-/

namespace Opd.Verl.QwenRoundTrip

open Lib Lib.Regex ToolAgentLoop ToolParser

variable {F : Type} {py : Interpreter F}

/-! ## Values -/

/-- A type of arrays: `convert_param_value` knows no other type by its name. -/
def IsOther (type : Text) : Prop :=
  type ∉ stringTypes ∧ startsWithAny integerPrefixes type = false ∧ startsWithAny numberPrefixes type = false ∧
    type ∉ booleanTypes ∧ isObjectType type = false

instance (type : Text) : Decidable (IsOther type) := inferInstanceAs (Decidable (_ ∧ _))

example : IsOther "array".toList := by decide

/-- **A value fits a declared type.** An array has no `null`, `true` or `false` in it, and no object has a key twice. -/
def Fits (Φ : FloatFormat F) (type : Text) : JsonValue F → Prop
  | .str _ => type ∈ stringTypes
  | .int _ => startsWithAny integerPrefixes type = true
  | .bool _ => type ∈ booleanTypes
  | .obj items => isObjectType type = true ∧ Each IsScalar (.obj items)
  | .arr items => IsOther type ∧ Each (IsNumber Φ) (.arr items)
  | _ => False

/-- The text of a value: a text as it is, any other value in JSON. -/
def renderValue (Φ : FloatFormat F) : JsonValue F → Text
  | .str s => s
  | v => dumps Φ v

/-- What is returned for a value: the word `null` is `None` for every type. -/
def readBack : JsonValue F → JsonValue F
  | .str s => if lower s = "null".toList then .null else .str s
  | v => v

theorem not_string_of_integer {type : Text} (h : startsWithAny integerPrefixes type = true) : type ∉ stringTypes := by
  intro hmem
  have hall : ∀ t ∈ stringTypes, startsWithAny integerPrefixes t = false := by decide
  rw [hall type hmem] at h
  exact Bool.false_ne_true h

theorem isOther_object {type : Text} (h : isObjectType type = true) :
    type ∉ stringTypes ∧ startsWithAny integerPrefixes type = false ∧ startsWithAny numberPrefixes type = false ∧
      type ∉ booleanTypes := by
  rw [isObjectType, Bool.or_eq_true, decide_eq_true_eq] at h
  rcases h with rfl | hdict
  · decide
  · obtain ⟨rest, rfl⟩ := List.isPrefixOf_iff_prefix.1 hdict
    have hhead : ∀ types : List Text, (∀ t ∈ types, t.head? ≠ some 'd') → "dict".toList ++ rest ∉ types :=
      fun types htypes hmem => htypes _ hmem rfl
    exact ⟨hhead _ (by decide), rfl, rfl, hhead _ (by decide)⟩

variable {config : Dict Text PropertyType}

theorem convertParamValue_render (h : py.Lawful) {name : Text} {property : PropertyType}
    (hproperty : config.get? name = some property) {v : JsonValue F} (hv : Fits py.floats (paramType property) v) :
    convertParamValue py (renderValue py.floats v) name config = some (readBack v) := by
  unfold convertParamValue
  cases v with
  | str s =>
    have htext : renderValue py.floats (.str s) = s := rfl
    have hmem : paramType property ∈ stringTypes := hv
    rw [htext, readBack]
    by_cases hnull : lower s = "null".toList
    · rw [if_pos hnull, if_pos hnull]
    · rw [if_neg hnull, if_neg hnull]
      simp only [hproperty, if_pos hmem]
  | int z =>
    have htext : renderValue py.floats (.int z) = textOfInt z := by
      show dumps py.floats (.int z) = textOfInt z
      rw [dumps]
    have hnull : lower (textOfInt z) ≠ "null".toList := lower_textOfInt_ne z (.inl (by decide))
    simp only [htext, if_neg hnull, hproperty, if_neg (not_string_of_integer hv), intOfText_textOfInt]
    exact if_pos hv
  | bool b =>
    have hbool : ∀ t ∈ booleanTypes, t ∉ stringTypes ∧ startsWithAny integerPrefixes t = false ∧
        startsWithAny numberPrefixes t = false := by decide
    obtain ⟨hstring, hinteger, hnumber⟩ := hbool _ hv
    have hmem : paramType property ∈ booleanTypes := hv
    have htext : renderValue py.floats (.bool b) = if b then "true".toList else "false".toList := by
      show dumps py.floats (.bool b) = _
      cases b <;> rw [dumps] <;> rfl
    have hnull : lower (if b then "true".toList else "false".toList) ≠ "null".toList := by
      cases b <;> decide
    simp only [htext, if_neg hnull, hproperty, if_neg hstring, hinteger, hnumber, Bool.false_eq_true, if_false,
      if_pos hmem]
    cases b <;> rfl
  | obj items =>
    obtain ⟨hstring, hinteger, hnumber, hboolean⟩ := isOther_object hv.1
    have htext : renderValue py.floats (.obj items) = dumps py.floats (.obj items) := rfl
    have hnull : lower (dumps py.floats (.obj items)) ≠ "null".toList := by
      rcases items with _ | ⟨⟨k, v⟩, items⟩
      · rw [dumps]
        decide
      · rw [dumps]
        intro heq
        exact absurd (List.cons.inj heq).1 (by decide)
    simp only [htext, if_neg hnull, hproperty, if_neg hstring, hinteger, hnumber, Bool.false_eq_true, if_false,
      if_neg hboolean, loads_dumps h.floats hv.2]
    exact if_pos hv.1
  | arr items =>
    obtain ⟨⟨hstring, hinteger, hnumber, hboolean, hobject⟩, heach⟩ := hv
    have htext : renderValue py.floats (.arr items) = dumps py.floats (.arr items) := rfl
    have hhead : (dumps py.floats (.arr items)).head? = some '[' := by
      rcases items with _ | ⟨v, items⟩ <;> rw [dumps] <;> rfl
    have hnull : lower (dumps py.floats (.arr items)) ≠ "null".toList := by
      intro heq
      have hfirst := congrArg List.head? heq
      rw [lower, List.head?_map, hhead] at hfirst
      exact absurd hfirst (by decide)
    have hliteral := h.literalEval_list _ _ hhead (readLiteral_dumps heach)
    simp only [htext, if_neg hnull, hproperty, if_neg hstring, hinteger, hnumber, Bool.false_eq_true, if_false,
      if_neg hboolean, hobject]
    rw [literalValue, hliteral]
    rfl
  | null => exact hv.elim
  | float x => exact hv.elim

/-! ## Calls -/

/-- A text without the end tokens of the format. -/
structure Plain (s : Text) : Prop where
  parameter : occurrences parameterEnd s = 0
  function : occurrences functionEnd s = 0
  toolCall : occurrences toolCallEnd s = 0

def IsName (s : Text) : Prop := '<' ∉ s ∧ '>' ∉ s

/-- **A call of a declared tool** whose arguments fit their types. -/
structure Call (py : Interpreter F) (tools : List ToolSchema) where
  name : Text
  arguments : Dict Text (JsonValue F)
  config : ToolSchema
  declared : tools.find? (fun config => config.type = "function".toList ∧ config.function.name = name) = some config
  name_ok : IsName name
  names_ok : ∀ k ∈ arguments.keys, IsName k
  fits : ∀ item ∈ arguments.items, ∃ property, config.function.properties.get? item.1 = some property ∧
    Fits py.floats (paramType property) item.2
  plain : ∀ item ∈ arguments.items, Plain (renderValue py.floats item.2)

/-- A parameter between its tags: the name, and the value between two newlines. -/
def paramBody (Φ : FloatFormat F) (item : Text × JsonValue F) : Text :=
  item.1 ++ '>' :: '\n' :: (renderValue Φ item.2 ++ ['\n'])

def renderParams (Φ : FloatFormat F) : List (Text × JsonValue F) → Text
  | [] => ['\n']
  | item :: items => '\n' :: (parameterStart ++ (paramBody Φ item ++ (parameterEnd ++ renderParams Φ items)))

def functionBody (Φ : FloatFormat F) (name : Text) (items : List (Text × JsonValue F)) : Text :=
  name ++ '>' :: renderParams Φ items

def callBody (Φ : FloatFormat F) (name : Text) (items : List (Text × JsonValue F)) : Text :=
  '\n' :: (toolCallPrefix ++ (functionBody Φ name items ++ (functionEnd ++ ['\n'])))

def renderCall (Φ : FloatFormat F) (name : Text) (items : List (Text × JsonValue F)) : Text :=
  toolCallStart ++ (callBody Φ name items ++ toolCallEnd)

/-- A response: each call stands behind a text, and a last text follows. -/
def response (Φ : FloatFormat F) : List (Text × Text × List (Text × JsonValue F)) → Text → Text
  | [], last => last
  | (front, name, items) :: calls, last => front ++ (renderCall Φ name items ++ response Φ calls last)

/-! ## Tags -/

structure EndToken (p : Text) : Prop where
  head : p.head? = some '<'
  tail : '<' ∉ p.tail ∧ '\n' ∉ p.tail
  dropLast : '>' ∉ p.dropLast ∧ '\n' ∉ p.dropLast ∧ '=' ∉ p.dropLast

theorem EndToken.mem {p : Text} (hp : EndToken p) : '<' ∈ p := List.mem_of_mem_head? hp.head

theorem endToken_parameter : EndToken parameterEnd := ⟨rfl, by decide, by decide⟩
theorem endToken_function : EndToken functionEnd := ⟨rfl, by decide, by decide⟩
theorem endToken_toolCall : EndToken toolCallEnd := ⟨rfl, by decide, by decide⟩

variable {Φ : FloatFormat F} {p : Text}

theorem apart_of_last (x y : Text) {c : Char} (hc : c ∉ p.dropLast) : Apart p (x ++ [c]) y := by
  refine .inr fun d hd => ?_
  rw [List.getLast?_append] at hd
  obtain rfl : c = d := Option.some.inj hd
  exact hc

theorem apart_of_head (x y : Text) {c : Char} (hc : c ∉ p.tail) : Apart p x (c :: y) := by
  refine .inl fun d hd => ?_
  obtain rfl : c = d := Option.some.inj hd
  exact hc

theorem occurrences_paramBody (hp : EndToken p) {item : Text × JsonValue F} (hname : IsName item.1) :
    occurrences p (paramBody Φ item) = occurrences p (renderValue Φ item.2) := by
  have hassoc : paramBody Φ item = (item.1 ++ ['>'] ++ ['\n']) ++ (renderValue Φ item.2 ++ ['\n']) := by
    simp only [paramBody, List.append_assoc, List.cons_append, List.nil_append]
  have hfront : occurrences p (item.1 ++ ['>'] ++ ['\n']) = 0 := by
    refine occurrences_of_not_mem hp.mem fun hmem => ?_
    simp only [List.mem_append, List.mem_singleton] at hmem
    rcases hmem with (hmem | hmem) | hmem
    · exact hname.1 hmem
    · exact absurd hmem (by decide)
    · exact absurd hmem (by decide)
  have hlast : occurrences p ['\n'] = 0 := by
    refine occurrences_of_not_mem hp.mem fun hmem => ?_
    exact absurd (List.mem_singleton.1 hmem) (by decide)
  rw [hassoc, occurrences_append (apart_of_last _ _ hp.dropLast.2.1), hfront,
    occurrences_append (apart_of_head _ _ hp.tail.2), hlast, Nat.zero_add, Nat.add_zero]

variable {items : List (Text × JsonValue F)}

/-- **No end token lies across the tags** of the parameters. -/
theorem occurrences_renderParams (hp : EndToken p) (hstart : occurrences p parameterStart = 0)
    (hend : occurrences p parameterEnd = 0)
    (hitems : ∀ item ∈ items, IsName item.1 ∧ occurrences p (renderValue Φ item.2) = 0) :
    occurrences p (renderParams Φ items) = 0 := by
  have hnewline : occurrences p ['\n'] = 0 := by
    refine occurrences_of_not_mem hp.mem fun hmem => ?_
    exact absurd (List.mem_singleton.1 hmem) (by decide)
  induction items with
  | nil => exact hnewline
  | cons item items ih =>
    obtain ⟨hname, hvalue⟩ := hitems item List.mem_cons_self
    have ih := ih fun item hitem => hitems item (List.mem_cons_of_mem _ hitem)
    have hrest : Apart p parameterEnd (renderParams Φ items) :=
      apart_of_last "</parameter".toList _ hp.dropLast.1
    have hbody : Apart p (paramBody Φ item) (parameterEnd ++ renderParams Φ items) := apart_of_head _ _ hp.tail.1
    have htag : Apart p parameterStart (paramBody Φ item ++ (parameterEnd ++ renderParams Φ items)) :=
      apart_of_last "<parameter".toList _ hp.dropLast.2.2
    have hline : Apart p ['\n'] (parameterStart ++ (paramBody Φ item ++ (parameterEnd ++ renderParams Φ items))) :=
      apart_of_last [] _ hp.dropLast.2.1
    rw [renderParams, ← List.singleton_append, occurrences_append hline, hnewline, occurrences_append htag, hstart, occurrences_append hbody, occurrences_paramBody hp hname, hvalue,
      occurrences_append hrest, hend, ih]

theorem occurrences_functionBody (hp : EndToken p) (hstart : occurrences p parameterStart = 0)
    (hend : occurrences p parameterEnd = 0) {name : Text} (hname : IsName name)
    (hitems : ∀ item ∈ items, IsName item.1 ∧ occurrences p (renderValue Φ item.2) = 0) :
    occurrences p (functionBody Φ name items) = 0 := by
  have hfront : occurrences p (name ++ ['>']) = 0 := by
    refine occurrences_of_not_mem hp.mem fun hmem => ?_
    rcases List.mem_append.1 hmem with hmem | hmem
    · exact hname.1 hmem
    · exact absurd (List.mem_singleton.1 hmem) (by decide)
  rw [functionBody, List.append_cons, occurrences_append (apart_of_last _ _ hp.dropLast.1), hfront,
    occurrences_renderParams hp hstart hend hitems]

theorem occurrences_callBody {name : Text} (hname : IsName name)
    (hitems : ∀ item ∈ items, IsName item.1 ∧ Plain (renderValue Φ item.2)) :
    occurrences toolCallEnd (callBody Φ name items) = 0 := by
  have hbody := occurrences_functionBody endToken_toolCall (by decide) (by decide) hname
    fun item hitem => ⟨(hitems item hitem).1, (hitems item hitem).2.toolCall⟩
  have hfront : Apart toolCallEnd ('\n' :: toolCallPrefix) (functionBody Φ name items ++ (functionEnd ++ ['\n'])) :=
    apart_of_last ('\n' :: "<function".toList) _ endToken_toolCall.dropLast.2.2
  have hback : Apart toolCallEnd (functionBody Φ name items) (functionEnd ++ ['\n']) :=
    apart_of_head _ _ endToken_toolCall.tail.1
  rw [callBody, ← List.cons_append, occurrences_append hfront, occurrences_append hback, hbody]
  rfl

/-! ## Tags are found -/

theorem startsWith_toolCallRegex : StartsWith toolCallStart toolCallRegex :=
  (startsWith_seq _ _).alt (startsWith_seq _ _)

theorem startsWith_functionRegex : StartsWith toolCallPrefix toolCallFunctionRegex :=
  (startsWith_seq _ _).alt (startsWith_seq _ _)

theorem startsWith_parameterRegex : StartsWith parameterStart toolCallParameterRegex :=
  (startsWith_seq _ _).alt (startsWith_seq _ _)

/-- **The first alternative matches** a text between its tags. -/
theorem find_tags (front : Text) (s : Regex) {back body : Text} (hback : EndToken back)
    (hbody : occurrences back body = 0) (rest : Text) :
    find (.alt (delimited front back 1 anyChar) s) (front ++ (body ++ (back ++ rest))) =
      some ⟨front ++ (body ++ back), [(1, body)], rest⟩ := by
  have hall : body.all anyChar = true := List.all_eq_true.2 fun _ _ => rfl
  have hhead : ∀ c ∈ back.head?, c ∉ back.tail := by
    intro c hc
    rw [hback.head] at hc
    obtain rfl : '<' = c := Option.some.inj hc
    exact hback.tail.1
  rw [find_alt, find_delimited (List.ne_nil_of_mem hback.mem) hhead hbody, if_pos hall]
  rfl

/-- **All parameters are found.** -/
theorem findAll_renderParams (hitems : ∀ item ∈ items, IsName item.1 ∧ Plain (renderValue Φ item.2)) :
    (findAll toolCallParameterRegex (renderParams Φ items)).map matchText = items.map (paramBody Φ) := by
  have hnewline : occurrences parameterStart ['\n'] = 0 := by decide
  induction items with
  | nil =>
    rw [renderParams, startsWith_parameterRegex.findAll_eq_nil hnewline]
    rfl
  | cons item items ih =>
    obtain ⟨hname, hplain⟩ := hitems item List.mem_cons_self
    have hbody : occurrences parameterEnd (paramBody Φ item) = 0 :=
      (occurrences_paramBody endToken_parameter hname).trans hplain.parameter
    have hfind : find toolCallParameterRegex (parameterStart ++ (paramBody Φ item ++ (parameterEnd ++ renderParams Φ items))) =
        some ⟨parameterStart ++ (paramBody Φ item ++ parameterEnd), [(1, paramBody Φ item)], renderParams Φ items⟩ :=
      find_tags _ _ endToken_parameter hbody _
    have hborder : Apart parameterStart ['\n'] (parameterStart ++ (paramBody Φ item ++ (parameterEnd ++ renderParams Φ items))) :=
      apart_of_head _ _ (by decide)
    have hskip := startsWith_parameterRegex.findAll_append hnewline hborder
    rw [renderParams, ← List.singleton_append, hskip, findAll_of_find hfind (List.append_ne_nil_of_left_ne_nil (by decide) _),
      List.map_cons, List.map_cons, ih fun item hitem => hitems item (List.mem_cons_of_mem _ hitem)]
    exact congrArg (· :: items.map (paramBody Φ)) (matchText_group _)

theorem findAll_callBody {name : Text} (hname : IsName name)
    (hitems : ∀ item ∈ items, IsName item.1 ∧ Plain (renderValue Φ item.2)) :
    (findAll toolCallFunctionRegex (callBody Φ name items)).map matchText = [functionBody Φ name items] := by
  have hbody := occurrences_functionBody endToken_function (by decide) (by decide) hname
    fun item hitem => ⟨(hitems item hitem).1, (hitems item hitem).2.function⟩
  have hfind : find toolCallFunctionRegex (toolCallPrefix ++ (functionBody Φ name items ++ (functionEnd ++ ['\n']))) =
      some ⟨toolCallPrefix ++ (functionBody Φ name items ++ functionEnd), [(1, functionBody Φ name items)], ['\n']⟩ :=
    find_tags _ _ endToken_function hbody _
  have hborder : Apart toolCallPrefix ['\n'] (toolCallPrefix ++ (functionBody Φ name items ++ (functionEnd ++ ['\n']))) :=
    apart_of_head _ _ (by decide)
  have hnewline : occurrences toolCallPrefix ['\n'] = 0 := by decide
  have hskip := startsWith_functionRegex.findAll_append hnewline hborder
  rw [callBody, ← List.singleton_append, hskip, findAll_of_find hfind (List.append_ne_nil_of_left_ne_nil (by decide) _),
    startsWith_functionRegex.findAll_eq_nil hnewline]
  exact congrArg (fun t => [t]) (matchText_group _)

/-- **All calls are found.** -/
theorem findAll_response {calls : List (Text × Text × List (Text × JsonValue F))} {last : Text}
    (hcalls : ∀ call ∈ calls, occurrences toolCallStart call.1 = 0 ∧ IsName call.2.1 ∧
      ∀ item ∈ call.2.2, IsName item.1 ∧ Plain (renderValue Φ item.2)) (hlast : occurrences toolCallStart last = 0) :
    (findAll toolCallRegex (response Φ calls last)).map matchText = calls.map fun call => callBody Φ call.2.1 call.2.2 := by
  induction calls with
  | nil =>
    rw [response, startsWith_toolCallRegex.findAll_eq_nil hlast]
    rfl
  | cons call calls ih =>
    obtain ⟨front, name, items⟩ := call
    obtain ⟨hfront, hname, hitems⟩ := hcalls _ List.mem_cons_self
    have hfind : find toolCallRegex (toolCallStart ++ (callBody Φ name items ++ (toolCallEnd ++ response Φ calls last))) =
        some ⟨toolCallStart ++ (callBody Φ name items ++ toolCallEnd), [(1, callBody Φ name items)],
          response Φ calls last⟩ := find_tags _ _ endToken_toolCall (occurrences_callBody hname hitems) _
    have hborder : Apart toolCallStart front (toolCallStart ++ (callBody Φ name items ++ (toolCallEnd ++ response Φ calls last))) :=
      apart_of_head _ _ (by decide)
    rw [response, renderCall, List.append_assoc, List.append_assoc, startsWith_toolCallRegex.findAll_append hfront hborder,
      findAll_of_find hfind (List.append_ne_nil_of_left_ne_nil (by decide) _), List.map_cons, List.map_cons,
      ih fun call hcall => hcalls call (List.mem_cons_of_mem _ hcall)]
    exact congrArg (· :: _) (matchText_group _)

/-! ## Calls are parsed -/

theorem indexSplit_append {name : Text} (hname : IsName name) (rest : Text) :
    indexSplit (name ++ '>' :: rest) = .ok (name, rest) := by
  have hnone : occurrences ['>'] name = 0 := occurrences_of_not_mem (List.mem_singleton_self _) hname.2
  have hsplit := splitFirst_append_self (p := ['>']) (by decide) (forall_mem_of_all (by decide)) hnone rest
  rw [List.singleton_append] at hsplit
  rw [indexSplit, hsplit]

/-- **One newline on each side** is removed. -/
theorem trimNewlines_between (t : Text) : trimNewlines ('\n' :: (t ++ ['\n'])) = t := by
  have hfirst : ('\n' :: (t ++ ['\n'])).head? = some '\n' := rfl
  have hlast : (t ++ ['\n']).getLast? = some '\n' := List.getLast?_concat
  unfold trimNewlines
  dsimp only
  rw [if_pos hfirst, List.drop_succ_cons, List.drop_zero, if_pos hlast, List.dropLast_concat]

/-- **One parameter** is converted back. -/
theorem setParam_paramBody (h : py.Lawful) {item : Text × JsonValue F} (hname : IsName item.1)
    {property : PropertyType} (hproperty : config.get? item.1 = some property)
    (hfits : Fits py.floats (paramType property) item.2) {hit : Hit}
    (hhit : matchText hit = paramBody py.floats item) (paramDict : Dict Text (Option (JsonValue F))) :
    setParam py config paramDict hit = .ok (paramDict.update item.1 fun _ => some (readBack item.2)) := by
  unfold setParam
  rw [hhit, paramBody, indexSplit_append hname]
  show Except.ok (paramDict.update item.1 fun _ => convertParamValue py (trimNewlines _) item.1 config) = _
  rw [trimNewlines_between, convertParamValue_render h hproperty hfits]

theorem foldlM_setParam (h : py.Lawful) {hs : List Hit} (hhs : hs.map matchText = items.map (paramBody py.floats))
    (hitems : ∀ item ∈ items, IsName item.1 ∧ ∃ property, config.get? item.1 = some property ∧
      Fits py.floats (paramType property) item.2) (paramDict : Dict Text (Option (JsonValue F))) :
    hs.foldlM (setParam py config) paramDict =
      .ok (paramDict.merge (fun _ v => v) (items.map fun item => (item.1, some (readBack item.2)))) := by
  induction items generalizing hs paramDict with
  | nil =>
    rw [List.map_nil, List.map_eq_nil_iff] at hhs
    rw [hhs]
    rfl
  | cons item items ih =>
    obtain ⟨hit, hs, rfl, hhit, hhs⟩ := List.map_eq_cons_iff.1 hhs
    obtain ⟨hname, property, hproperty, hfits⟩ := hitems item List.mem_cons_self
    rw [List.foldlM_cons, setParam_paramBody h hname hproperty hfits hhit]
    exact ih hhs (fun item hitem => hitems item (List.mem_cons_of_mem _ hitem)) _

def Call.toFunctionCall {tools : List ToolSchema} (call : Call py tools) : FunctionCall :=
  functionCall call.name (dumps py.floats (.obj (call.arguments.map readBack).items))

/-- **One call** is read back. -/
theorem parseXmlFunctionCall_functionBody (h : py.Lawful) {tools : List ToolSchema} (call : Call py tools) :
    parseXmlFunctionCall py (some tools) (functionBody py.floats call.name call.arguments.items) =
      .ok call.toFunctionCall := by
  have hplain : ∀ item ∈ call.arguments.items, IsName item.1 ∧ Plain (renderValue py.floats item.2) :=
    fun item hitem => ⟨call.names_ok item.1 (List.mem_map_of_mem hitem), call.plain item hitem⟩
  have hfits : ∀ item ∈ call.arguments.items, IsName item.1 ∧ ∃ property,
      call.config.function.properties.get? item.1 = some property ∧ Fits py.floats (paramType property) item.2 :=
    fun item hitem => ⟨call.names_ok item.1 (List.mem_map_of_mem hitem), call.fits item hitem⟩
  have hconfig : getArgumentsConfig (some tools) call.name = .ok call.config.function.properties := by
    unfold getArgumentsConfig
    dsimp only
    rw [call.declared]
  have hkeys : ((Dict.empty : Dict Text (Option (JsonValue F))).keys ++
      (call.arguments.items.map fun item => (item.1, some (readBack item.2))).map Prod.fst).Nodup := by
    rw [List.map_map]
    exact call.arguments.nodup
  have hitems : ((Dict.empty : Dict Text (Option (JsonValue F))).merge (fun _ v => v)
      (call.arguments.items.map fun item => (item.1, some (readBack item.2)))).items =
      call.arguments.items.map fun item => (item.1, some (readBack item.2)) :=
    (Dict.merge_new _ hkeys).trans (List.map_id' _)
  have hall : (call.arguments.items.map fun item => (item.1, some (readBack item.2))).mapM
      (fun item : Text × Option (JsonValue F) => item.2.map fun v => (item.1, v)) = some (call.arguments.map readBack).items := by
    rw [Dict.items_map, mapM_eq_some_iff, List.forall₂_map_left_iff, List.forall₂_map_right_iff, List.forall₂_same]
    exact fun _ _ => rfl
  unfold parseXmlFunctionCall
  rw [functionBody, indexSplit_append call.name_ok]
  dsimp only [Except.bind]
  rw [hconfig]
  dsimp only
  rw [foldlM_setParam h (findAll_renderParams hplain) hfits]
  dsimp only
  rw [hitems, hall]
  rfl

/-- **The round trip.** Calls of declared tools come back with their values, in order, but for the word `null`. -/
theorem qwenExtract_response (h : py.Lawful) {tools : List ToolSchema} (calls : List (Text × Call py tools)) {last : Text}
    (hfront : ∀ call ∈ calls, occurrences toolCallStart call.1 = 0) (hlast : occurrences toolCallStart last = 0) :
    (qwenExtract py (some tools) (response py.floats (calls.map fun call =>
      (call.1, call.2.name, call.2.arguments.items)) last)).2 = calls.map fun call => call.2.toFunctionCall := by
  set written := calls.map fun call => (call.1, call.2.name, call.2.arguments.items) with hwritten
  have hok : ∀ call ∈ written, occurrences toolCallStart call.1 = 0 ∧ IsName call.2.1 ∧
      ∀ item ∈ call.2.2, IsName item.1 ∧ Plain (renderValue py.floats item.2) := by
    intro call hcall
    obtain ⟨⟨front, call⟩, hmem, rfl⟩ := List.mem_map.1 hcall
    exact ⟨hfront _ hmem, call.name_ok, fun item hitem =>
      ⟨call.names_ok item.1 (List.mem_map_of_mem hitem), call.plain item hitem⟩⟩
  have hbodies := findAll_response hok hlast
  rcases eq_or_ne calls [] with rfl | hne
  · -- without a call there is no start token
    have hresponse : response py.floats written last = last := rfl
    rw [hresponse, qwenExtract, if_pos hlast]
    rfl
  have hne' : written.map (fun call => callBody py.floats call.2.1 call.2.2) ≠ [] := by
    rw [hwritten, Ne, List.map_eq_nil_iff, List.map_eq_nil_iff]
    exact hne
  have hstart : occurrences toolCallStart (response py.floats written last) ≠ 0 := by
    intro hnone
    rw [startsWith_toolCallRegex.findAll_eq_nil hnone] at hbodies
    exact hne' hbodies.symm
  have hfunctions : getFunctionCalls (response py.floats written last) =
      written.map fun call => functionBody py.floats call.2.1 call.2.2 := by
    unfold getFunctionCalls
    dsimp only
    rw [hbodies, if_neg hne', List.flatMap_map, List.map_eq_flatMap]
    refine List.flatMap_congr fun call hcall => ?_
    obtain ⟨_, hname, hitems⟩ := hok call hcall
    exact findAll_callBody hname hitems
  have hparsed : (written.map fun call => functionBody py.floats call.2.1 call.2.2).mapM
      (parseXmlFunctionCall py (some tools)) = .ok (calls.map fun call => call.2.toFunctionCall) := by
    rw [hwritten, List.map_map]
    exact mapM_map_eq fun call _ => parseXmlFunctionCall_functionBody h call.2
  rw [qwenExtract_calls py (some tools) hstart, hfunctions, hparsed]

def exampleTool : ToolSchema :=
  ⟨"function".toList, "f".toList, Dict.empty.merge (fun _ type => type)
    [("s".toList, .one "string".toList), ("a".toList, .one "array".toList)]⟩

def exampleArguments : Dict Text (JsonValue SpecialFloat) :=
  Dict.empty.merge (fun _ v => v) [("s".toList, .str "\nx\n".toList), ("a".toList, .arr [.int 1, .str "y".toList])]

theorem exampleArguments_items : exampleArguments.items =
    [("s".toList, .str "\nx\n".toList), ("a".toList, .arr [.int 1, .str "y".toList])] := rfl

theorem exampleArguments_names : ∀ k ∈ exampleArguments.keys, IsName k := by
  intro k hk
  have hkeys : ∀ k ∈ ["s".toList, "a".toList], '<' ∉ k ∧ '>' ∉ k := by decide
  exact hkeys k hk

theorem exampleArguments_fits : ∀ item ∈ exampleArguments.items,
    ∃ property, exampleTool.function.properties.get? item.1 = some property ∧
      Fits asciiPython.floats (paramType property) item.2 := by
  intro item hitem
  rw [exampleArguments_items] at hitem
  rcases List.mem_cons.1 hitem with rfl | hitem
  · exact ⟨.one "string".toList, rfl, (by decide : paramType (.one "string".toList) ∈ stringTypes)⟩
  · obtain rfl := List.mem_singleton.1 hitem
    refine ⟨.one "array".toList, rfl, (by decide : IsOther (paramType (.one "array".toList))), ?_⟩
    exact ⟨trivial, trivial, trivial⟩

theorem exampleArguments_plain : ∀ item ∈ exampleArguments.items, Plain (renderValue asciiPython.floats item.2) := by
  intro item hitem
  rw [exampleArguments_items] at hitem
  rcases List.mem_cons.1 hitem with rfl | hitem
  · exact ⟨by decide, by decide, by decide⟩
  · obtain rfl := List.mem_singleton.1 hitem
    exact ⟨by decide +kernel, by decide +kernel, by decide +kernel⟩

theorem exampleTool_declared : [exampleTool].find? (fun config => config.type = "function".toList ∧
    config.function.name = "f".toList) = some exampleTool := rfl

theorem isName_f : IsName "f".toList := ⟨by decide, by decide⟩

def exampleCall : Call asciiPython [exampleTool] :=
  ⟨"f".toList, exampleArguments, exampleTool, exampleTool_declared, isName_f, exampleArguments_names,
    exampleArguments_fits, exampleArguments_plain⟩

theorem qwenExtract_example : (qwenExtract asciiPython (some [exampleTool])
    (response asciiPython.floats ([("a call:\n".toList, exampleCall), ("\n".toList, exampleCall)].map fun call =>
      (call.1, call.2.name, call.2.arguments.items)) [])).2 = [exampleCall.toFunctionCall, exampleCall.toFunctionCall] :=
  qwenExtract_response asciiPython_lawful [("a call:\n".toList, exampleCall), ("\n".toList, exampleCall)]
    (by decide) rfl

/-- **The word `null`** becomes `None`, although the tool declares a text. -/
theorem qwenExtract_null : (qwenExtract asciiPython (some [exampleTool])
    (response asciiPython.floats [([], "f".toList, [("s".toList, .str "null".toList)])] [])).2 ≠
      [functionCall "f".toList (dumps asciiPython.floats (.obj [("s".toList, .str "null".toList)]))] := by
  decide +kernel

end Opd.Verl.QwenRoundTrip

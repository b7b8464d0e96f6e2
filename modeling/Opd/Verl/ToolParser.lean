import Opd.Lib.Json
import Opd.Lib.Regex
import Opd.Verl.ToolAgentLoop

/-!
# The tool parsers

`extract_tool_calls` of the parsers for Hermes, Qwen3-coder and Gemma4: the decoded response is searched with
regular expressions, and each match becomes a `FunctionCall`.

* `hermesExtract`, `qwenExtract`, `gemmaExtract`: the content and the tool calls of a response.
* `parseXmlFunctionCall`, `convertParamValue`: one call of Qwen3-coder.
* `parseArguments`: the arguments of Gemma4.
-/

namespace Opd.Verl.ToolParser

open Lib Lib.Regex ToolAgentLoop

abbrev Text := List Char

/-- What `ast.literal_eval` makes of a text; `other` is a value that `json.dumps` cannot write. -/
inductive Literal (F : Type)
  | raised
  | value (v : JsonValue F)
  | other

/-- What the parsers use of Python: the floating-point numbers of type `F`, the class `\w`, the integer that a number
is (`int` fails on some numbers, others have a fraction), and `ast.literal_eval`. -/
structure Interpreter (F : Type) where
  floats : FloatFormat F
  isWord : Char → Bool
  wholeOfFloat : F → Option (Option ℤ)
  literalEval : Text → Literal F

/-- **What is documented** of these functions: the texts of numbers, `\w` on ASCII, and that `ast.literal_eval` reads
list displays. -/
structure Interpreter.Lawful {F : Type} (py : Interpreter F) : Prop where
  floats : py.floats.Lawful
  isWord_ascii : ∀ c, c.toNat < 128 → py.isWord c = (c.isAlphanum || c = '_')
  literalEval_list : ∀ (t : Text) v, t.head? = some '[' → readLiteral py.floats t = some v → py.literalEval t = .value v

/-- `text.lower()`, which decides the comparisons below: no other character becomes one of their letters. -/
def lower (text : Text) : Text := text.map Char.toLower

/-- `FunctionCall(name=name, arguments=arguments)` -/
def functionCall (name arguments : Text) : FunctionCall := ⟨String.ofList name, String.ofList arguments⟩

/-- `.` with `regex.DOTALL` -/
def anyChar (_ : Char) : Bool := true

variable {F : Type}

/-! ## Hermes -/

def toolCallStart : Text := "<tool_call>".toList
def toolCallEnd : Text := "</tool_call>".toList

/-- `<tool_call>(.*?)</tool_call>` -/
def toolCallCompleteRegex : Regex := delimited toolCallStart toolCallEnd 1 anyChar

/-- One match of `HermesToolParser`. Every exception is caught, and the match is skipped. -/
def hermesCall (py : Interpreter F) (content : Text) : Option FunctionCall :=
  match loads py.floats content with
  | some (.obj items) =>
    match items.lookup "name".toList, items.lookup "arguments".toList with
    | some (.str name), some arguments => some (functionCall name (dumps py.floats arguments))
    | _, _ => none
  | _ => none

/-- `HermesToolParser.extract_tool_calls`, on the decoded response. -/
def hermesExtract (py : Interpreter F) (text : Text) : Text × List FunctionCall :=
  if occurrences toolCallStart text = 0 ∨ occurrences toolCallEnd text = 0 then (text, [])
  else (removeAll toolCallCompleteRegex text,
    (findAll toolCallCompleteRegex text).filterMap fun h => hermesCall py ((h.group? 1).getD []))

/-! ## Qwen3-coder -/

/-- The `type` of a property: `str | list[str]`. -/
inductive PropertyType
  | one (type : Text)
  | union (types : List Text)

/-- `str(property.type)` -/
def PropertyType.text : PropertyType → Text
  | .one type => type
  | .union types => '[' :: ((types.map fun type => '\x27' :: (type ++ ['\x27'])).intersperse ", ".toList).flatten ++ [']']

/-- `OpenAIFunctionSchema`, with the `properties` of its parameters. -/
structure FunctionSchema where
  name : Text
  properties : Dict Text PropertyType

/-- `OpenAIFunctionToolSchema` -/
structure ToolSchema where
  type : Text
  function : FunctionSchema

/-- `get_arguments_config` -/
def getArgumentsConfig (tools : Option (List ToolSchema)) (funcName : Text) : Except Raised (Dict Text PropertyType) :=
  match tools with
  | none => .error (.typeError "'NoneType' object is not iterable")
  | some tools =>
    match tools.find? fun config => config.type = "function".toList ∧ config.function.name = funcName with
    | some config => .ok config.function.properties
    | none => .ok Dict.empty

def stringTypes : List Text := ["string", "str", "text", "varchar", "char", "enum"].map String.toList
def integerPrefixes : List Text := ["int", "uint", "long", "short", "unsigned"].map String.toList
def numberPrefixes : List Text := ["num", "float"].map String.toList
def booleanTypes : List Text := ["boolean", "bool", "binary"].map String.toList

/-- `str(type).strip().lower()` -/
def paramType (type : PropertyType) : Text := lower (strip type.text)

def startsWithAny (prefixes : List Text) (text : Text) : Bool := prefixes.any fun p => p.isPrefixOf text

def isObjectType (type : Text) : Bool := type = "object".toList || "dict".toList.isPrefixOf type

/-- The last attempt of `convert_param_value`: `ast.literal_eval`, else the text. -/
def literalValue (py : Interpreter F) (value : Text) : Option (JsonValue F) :=
  match py.literalEval value with
  | .value v => some v
  | .other => none
  | .raised => some (.str value)

/-- `convert_param_value`. The result is missing where it is a value that `json.dumps` cannot write. -/
def convertParamValue (py : Interpreter F) (value name : Text) (config : Dict Text PropertyType) :
    Option (JsonValue F) :=
  if lower value = "null".toList then some .null
  else
    match config.get? name with
    | none => some (.str value)
    | some property =>
      let type := paramType property
      if type ∈ stringTypes then some (.str value)
      else if startsWithAny integerPrefixes type then
        match intOfText value with
        | some z => some (.int z)
        | none => some (.str value)
      else if startsWithAny numberPrefixes type then
        match py.floats.ofText value with
        | none => some (.str value)
        | some x =>
          match py.wholeOfFloat x with
          | none => some (.str value)
          | some none => some (.float x)
          | some (some z) => some (.int z)
      else if type ∈ booleanTypes then some (.bool (lower value = "true".toList))
      else if isObjectType type then
        match loads py.floats value with
        | some v => some v
        | none => literalValue py value
      else literalValue py value

def trimNewlines (value : Text) : Text :=
  let value := if value.head? = some '\n' then value.drop 1 else value
  if value.getLast? = some '\n' then value.dropLast else value

def toolCallPrefix : Text := "<function=".toList
def functionEnd : Text := "</function>".toList
def parameterStart : Text := "<parameter=".toList
def parameterEnd : Text := "</parameter>".toList

/-- `<tool_call>(.*?)</tool_call>|<tool_call>(.*?)$` -/
def toolCallRegex : Regex :=
  .alt toolCallCompleteRegex (.seq (.lit toolCallStart) (.seq (.group 2 (.lazyStar anyChar)) .atEnd))

/-- `<function=(.*?)</function>|<function=(.*)$` -/
def toolCallFunctionRegex : Regex := .alt (delimited toolCallPrefix functionEnd 1 anyChar)
  (.seq (.lit toolCallPrefix) (.seq (.group 2 (.star anyChar)) .atEnd))

/-- `<parameter=(.*?)</parameter>|<parameter=(.*?)$` -/
def toolCallParameterRegex : Regex := .alt (delimited parameterStart parameterEnd 1 anyChar)
  (.seq (.lit parameterStart) (.seq (.group 2 (.lazyStar anyChar)) .atEnd))

/-- `match[0] if match[0] else match[1]` -/
def matchText (h : Hit) : Text := if (h.group? 1).getD [] ≠ [] then (h.group? 1).getD [] else (h.group? 2).getD []

/-- `text.index(">")`: what is before it and behind it. -/
def indexSplit (text : Text) : Except Raised (Text × Text) :=
  match splitFirst ['>'] text with
  | some parts => .ok parts
  | none => .error (.valueError "substring not found")

def setParam (py : Interpreter F) (config : Dict Text PropertyType) (paramDict : Dict Text (Option (JsonValue F)))
    (h : Hit) : Except Raised (Dict Text (Option (JsonValue F))) :=
  (indexSplit (matchText h)).map fun param =>
    paramDict.update param.1 fun _ => convertParamValue py (trimNewlines param.2) param.1 config

/-- `_parse_xml_function_call` -/
def parseXmlFunctionCall (py : Interpreter F) (tools : Option (List ToolSchema)) (functionCallStr : Text) :
    Except Raised FunctionCall :=
  (indexSplit functionCallStr).bind fun function =>
    (getArgumentsConfig tools function.1).bind fun config =>
      ((findAll toolCallParameterRegex function.2).foldlM (setParam py config) Dict.empty).bind fun paramDict =>
        match paramDict.items.mapM fun item => item.2.map fun v => (item.1, v) with
        | some items => .ok (functionCall function.1 (dumps py.floats (.obj items)))
        | none => .error (.typeError "Object is not JSON serializable")

/-- `_get_function_calls` -/
def getFunctionCalls (modelOutput : Text) : List Text :=
  let matched := (findAll toolCallRegex modelOutput).map matchText
  let rawToolCalls := if matched = [] then [modelOutput] else matched
  rawToolCalls.flatMap fun toolCall => (findAll toolCallFunctionRegex toolCall).map matchText

/-- `text[:text.find(start)]`, for a start that is in the text. -/
def contentBefore (start text : Text) : Text := ((splitFirst start text).map Prod.fst).getD text

/-- `Qwen3XMLToolParser.extract_tool_calls`, on the decoded response. An exception leaves the text without calls. -/
def qwenExtract (py : Interpreter F) (tools : Option (List ToolSchema)) (text : Text) : Text × List FunctionCall :=
  if occurrences toolCallStart text = 0 then (text, [])
  else if getFunctionCalls text = [] then (text, [])
  else
    match (getFunctionCalls text).mapM (parseXmlFunctionCall py tools) with
    | .ok toolCalls => (contentBefore toolCallStart text, toolCalls)
    | .error _ => (text, [])

/-! ## Gemma4 -/

def gemmaStart : Text := "<|tool_call>".toList
def gemmaEnd : Text := "<tool_call|>".toList
def quote : Text := "<|\x22|>".toList

/-- `<\|tool_call>call:(\w+)\{(.*?)\}<tool_call\|>` with `regex.DOTALL` -/
def gemmaToolCallRegex (py : Interpreter F) : Regex :=
  .seq (.lit (gemmaStart ++ "call:".toList)) (.seq (.group 1 (plus py.isWord))
    (delimited ['{'] ('}' :: gemmaEnd) 2 anyChar))

/-- `.` without `regex.DOTALL` -/
def notNewline (c : Char) : Bool := c ≠ '\n'

/-- `[^,}]` -/
def isBare (c : Char) : Bool := c ≠ ',' && c ≠ '}'

/-- `<\|"\|>(.*?)<\|"\|>|([^,}]*)` -/
def valueRegex : Regex := .alt (delimited quote quote 2 notNewline) (.group 3 (.star isBare))

/-- `(\w+):(?:<\|"\|>(.*?)<\|"\|>|([^,}]*))` -/
def argRegex (py : Interpreter F) : Regex := .seq (.group 1 (plus py.isWord)) (.seq (.lit [':']) valueRegex)

def bareValue (py : Interpreter F) (bareVal : Text) : JsonValue F :=
  let bareVal := strip bareVal
  if lower bareVal = "true".toList then .bool true
  else if lower bareVal = "false".toList then .bool false
  else if lower bareVal = "null".toList then .null
  else
    match intOfText bareVal with
    | some z => .int z
    | none =>
      match py.floats.ofText bareVal with
      | some x => .float x
      | none => .str bareVal

def hitValue (py : Interpreter F) (h : Hit) : Option (JsonValue F) :=
  match h.group? 2, h.group? 3 with
  | some strVal, _ => some (.str strVal)
  | none, some bareVal => some (bareValue py bareVal)
  | none, none => none

/-- The step of the loop in `_parse_arguments`. -/
def setArgument (py : Interpreter F) (result : Dict Text (JsonValue F)) (h : Hit) : Dict Text (JsonValue F) :=
  match hitValue py h with
  | some v => result.update ((h.group? 1).getD []) fun _ => v
  | none => result

/-- `_parse_arguments` -/
def parseArguments (py : Interpreter F) (argsStr : Text) : Dict Text (JsonValue F) :=
  (findAll (argRegex py) argsStr).foldl (setArgument py) Dict.empty

/-- One match of `Gemma4ToolParser`. -/
def gemmaCall (py : Interpreter F) (name argsStr : Text) : FunctionCall :=
  functionCall name (dumps py.floats (.obj (parseArguments py argsStr).items))

def removePad (padToken : Option Text) (text : Text) : Text :=
  match padToken with
  | none => text
  | some pad => if pad = [] then text else replace pad [] text

/-- `Gemma4ToolParser.extract_tool_calls`, on the decoded response. -/
def gemmaExtract (py : Interpreter F) (padToken : Option Text) (decoded : Text) : Text × List FunctionCall :=
  let text := removePad padToken decoded
  if occurrences gemmaStart text = 0 then (text, [])
  else
    let calls := findAll (gemmaToolCallRegex py) text
    if calls.isEmpty then (text, [])
    else (contentBefore gemmaStart text,
      calls.map fun h => gemmaCall py ((h.group? 1).getD []) ((h.group? 2).getD []))

/-! ## The calls are those of the matches -/

theorem functionCall_inj {name name' arguments arguments' : Text} :
    functionCall name arguments = functionCall name' arguments' ↔ name = name' ∧ arguments = arguments' := by
  rw [functionCall, functionCall, FunctionCall.mk.injEq, String.ofList_inj, String.ofList_inj]

theorem lower_textOfInt_ne (z : ℤ) {w : Text} (hw : 'u' ∈ w ∨ 'l' ∈ w) : lower (textOfInt z) ≠ w := by
  rintro rfl
  have hlower : ∀ c : Char, (c = 'u' ∨ c = 'l') → c ∉ lower (textOfInt z) := by
    intro c hc hmem
    obtain ⟨d, hd, rfl⟩ := List.mem_map.1 hmem
    rcases isDigit_of_mem_textOfInt hd with hdigit | rfl
    · rw [Char.isDigit, Bool.and_eq_true, decide_eq_true_eq, decide_eq_true_eq] at hdigit
      have hsame : d.toLower = d := by
        unfold Char.toLower
        rw [dif_neg]
        intro hupper
        have hle := UInt32.le_trans hupper.1 hdigit.2
        exact absurd hle (by decide)
      rw [hsame] at hc
      rcases hc with rfl | rfl <;> exact absurd hdigit.2 (by decide)
    · rcases hc with hc | hc <;> exact absurd hc (by decide)
  exact hw.elim (hlower 'u' (.inl rfl)) (hlower 'l' (.inr rfl))

theorem findAll_delimited_eq_nil {front back l : Text} {i : ℕ} {p : Char → Bool} (hne : back ≠ [])
    (hl : occurrences back l = 0) : findAll (delimited front back i p) l = [] := by
  refine List.eq_nil_iff_forall_not_mem.2 fun h hh => ?_
  obtain ⟨before, after, rfl, hafter⟩ := mem_findAll hh
  obtain ⟨first, _, second, hsecond, rfl⟩ := mem_hits_seq.1 hafter
  obtain ⟨middle, _, last, hlast, rfl⟩ := mem_hits_seq.1 hsecond
  obtain ⟨rest, hrest, rfl⟩ := mem_hits_lit.1 hlast
  have hin := text_append_rest hafter
  refine (occurrences_eq_zero hne).1 hl ?_
  rw [← hin]
  exact ⟨before ++ first.text ++ middle.text, rest, by simp only [List.append_assoc]⟩

theorem matchText_group (body : Text) : matchText ⟨[], [(1, body)], []⟩ = body := by
  unfold matchText
  split
  · rfl
  · rename_i hempty
    exact (not_not.1 hempty).symm

theorem hermesExtract_calls (py : Interpreter F) (text : Text) : (hermesExtract py text).2 =
    (findAll toolCallCompleteRegex text).filterMap fun h => hermesCall py ((h.group? 1).getD []) := by
  unfold hermesExtract
  split
  · rename_i hnone
    have hnil : findAll toolCallCompleteRegex text = [] := by
      rcases hnone with hstart | hend
      · exact (startsWith_seq _ _).findAll_eq_nil hstart
      · exact findAll_delimited_eq_nil (by decide) hend
    rw [hnil]
    rfl
  · rfl

theorem gemmaExtract_calls (py : Interpreter F) (padToken : Option Text) (decoded : Text) :
    (gemmaExtract py padToken decoded).2 = (findAll (gemmaToolCallRegex py) (removePad padToken decoded)).map
      fun h => gemmaCall py ((h.group? 1).getD []) ((h.group? 2).getD []) := by
  unfold gemmaExtract
  dsimp only
  split
  · rename_i hstart
    have hfirst : occurrences (gemmaStart ++ "call:".toList) (removePad padToken decoded) = 0 := by
      rw [occurrences_eq_zero (by decide)] at hstart ⊢
      exact fun hin => hstart ((List.prefix_append _ _).isInfix.trans hin)
    rw [gemmaToolCallRegex, (startsWith_seq _ _).findAll_eq_nil hfirst]
    rfl
  · split
    · rename_i hempty
      rw [List.isEmpty_iff.1 hempty]
      rfl
    · rfl

theorem occurrences_brace {l : Text} (hl : occurrences gemmaEnd l = 0) : occurrences ('}' :: gemmaEnd) l = 0 := by
  rw [occurrences_eq_zero (List.cons_ne_nil _ _)]
  rw [occurrences_eq_zero (by decide)] at hl
  exact fun hin => hl ((List.suffix_cons _ _).isInfix.trans hin)

/-- **The calls of Qwen3-coder**: those of all function pieces, or none. -/
theorem qwenExtract_calls (py : Interpreter F) (tools : Option (List ToolSchema)) {text : Text}
    (hstart : occurrences toolCallStart text ≠ 0) : (qwenExtract py tools text).2 =
      match (getFunctionCalls text).mapM (parseXmlFunctionCall py tools) with
      | .ok toolCalls => toolCalls
      | .error _ => [] := by
  unfold qwenExtract
  rw [if_neg hstart]
  split
  · rename_i hnone
    rw [hnone]
    rfl
  · split <;> rfl

/-! ## An interpreter -/

inductive SpecialFloat
  | nan
  | inf
  | negInf

def SpecialFloat.repr : SpecialFloat → Text
  | .nan => "NaN".toList
  | .inf => "Infinity".toList
  | .negInf => "-Infinity".toList

def specialFloats : FloatFormat SpecialFloat where
  repr := SpecialFloat.repr
  ofText := fun _ => none
  nan := .nan
  inf := .inf
  negInf := .negInf

def literalOfJson (t : Text) : Literal SpecialFloat :=
  match readLiteral specialFloats t with
  | some v => .value v
  | none => .raised

/-- An interpreter whose words are ASCII and whose finite numbers are integers. -/
def asciiPython : Interpreter SpecialFloat where
  floats := specialFloats
  isWord := fun c => c.isAlphanum || c = '_'
  wholeOfFloat := fun _ => none
  literalEval := literalOfJson

theorem asciiPython_lawful : asciiPython.Lawful where
  floats := by
    constructor
    intro x
    cases x with
    | nan => exact .inr (.inl ⟨rfl, rfl⟩)
    | inf => exact .inr (.inr (.inl ⟨rfl, rfl⟩))
    | negInf => exact .inr (.inr (.inr ⟨rfl, rfl⟩))
  isWord_ascii := fun _ _ => rfl
  literalEval_list := by
    intro t v _ hread
    have hread : readLiteral specialFloats t = some v := hread
    show literalOfJson t = .value v
    rw [literalOfJson, hread]

end Opd.Verl.ToolParser

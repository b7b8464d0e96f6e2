import Opd.Verl.ToolParser

/-!
# Malformed tool calls

A response is a sequence of complete blocks, from the start token to the end token of a parser. The well-formed
blocks should come back as calls whatever stands beside them.

* `hermesExtract_text`: each block of Hermes is parsed by itself.
* `qwenExtract_text`: one exception takes the calls of the whole response.
* `gemmaExtract_text`: a block without its last brace takes the next block that has one.
* `toolCalls_iff`: when a malformed block hides no other.
-/

namespace Opd.Verl.MalformedCalls

open Lib Lib.Regex ToolAgentLoop ToolParser

variable {F : Type}

inductive Parser
  | hermes
  | qwen (tools : Option (List ToolSchema))
  | gemma (padToken : Option Text)

/-- `tool_call_start_token` -/
def Parser.start : Parser → Text
  | .gemma _ => gemmaStart
  | _ => toolCallStart

/-- `tool_call_end_token` -/
def Parser.close : Parser → Text
  | .gemma _ => gemmaEnd
  | _ => toolCallEnd

/-- What the parser searches: Gemma4 removes the padding first. -/
def Parser.cleaned : Parser → Text → Text
  | .gemma padToken, decoded => removePad padToken decoded
  | _, decoded => decoded

/-- The tool calls of `extract_tool_calls`. -/
def Parser.extract (py : Interpreter F) : Parser → Text → List FunctionCall
  | .hermes, decoded => (hermesExtract py decoded).2
  | .qwen tools, decoded => (qwenExtract py tools decoded).2
  | .gemma padToken, decoded => (gemmaExtract py padToken decoded).2

def block (start close body : Text) : Text := start ++ (body ++ close)

/-- The body of a complete block has no end token, and for Gemma4 no start token either. -/
def Parser.Complete : Parser → Text → Prop
  | .gemma _, body => occurrences gemmaStart body = 0 ∧ occurrences gemmaEnd body = 0
  | _, body => occurrences toolCallEnd body = 0

/-! ## Well-formed blocks -/

def functionPieces (body : Text) : List Text := (findAll toolCallFunctionRegex body).map matchText

def openCall (py : Interpreter F) (body : Text) : Option (Text × Text) :=
  if "call:".toList.isPrefixOf body then
    let l := body.drop 5
    let name := l.takeWhile py.isWord
    if name ≠ [] ∧ (l.dropWhile py.isWord).head? = some '{' then some (name, (l.dropWhile py.isWord).drop 1) else none
  else none

def EndsInBrace (l : Text) : Prop := l.getLast? = some '}'

instance (l : Text) : Decidable (EndsInBrace l) := inferInstanceAs (Decidable (_ = _))

/-- The call of a well-formed block of Gemma4: `call:name{arguments}`. -/
def gemmaBlockCall (py : Interpreter F) (body : Text) : Option FunctionCall :=
  (openCall py body).bind fun call =>
    if EndsInBrace call.2 then some (gemmaCall py call.1 call.2.dropLast) else none

/-- **The calls of one block**, none where it is malformed. Without `tools` no parameter has a declared type. -/
def Parser.blockCalls (py : Interpreter F) : Parser → Text → List FunctionCall
  | .hermes, body => (hermesCall py body).toList
  | .qwen tools, body =>
    match (functionPieces body).mapM (parseXmlFunctionCall py (some (tools.getD []))) with
    | .ok calls => calls
    | .error _ => []
  | .gemma _, body => (gemmaBlockCall py body).toList

/-! ## What can go wrong -/

/-- **No block of Gemma4 takes another's place.** `pending` is a call that was opened and not closed, with the text
since its brace: the next block that ends in a brace closes it, and has to be that very call. -/
def InPlace (py : Interpreter F) : Option (Text × Text) → List Text → Prop
  | _, [] => True
  | none, body :: bodies =>
    match openCall py body with
    | none => InPlace py none bodies
    | some call =>
      if EndsInBrace call.2 then InPlace py none bodies
      else InPlace py (some (call.1, call.2 ++ gemmaEnd)) bodies
  | some (name, text), body :: bodies =>
    if EndsInBrace body then
      gemmaBlockCall py body = some (gemmaCall py name (text ++ (gemmaStart ++ body.dropLast))) ∧ InPlace py none bodies
    else InPlace py (some (name, text ++ block gemmaStart gemmaEnd body)) bodies

/-- **When a malformed block hides no other.** For Hermes always; for Qwen3-coder when there is no call to lose, or there
are tools and every function of every block is parsed. -/
def Parser.Isolated (py : Interpreter F) (bodies : List Text) : Parser → Prop
  | .hermes => True
  | .qwen tools => (∀ body ∈ bodies, (Parser.qwen tools).blockCalls py body = []) ∨
      tools ≠ none ∧ ∀ body ∈ bodies, ∀ piece ∈ functionPieces body,
        ∃ call, parseXmlFunctionCall py tools piece = .ok call
  | .gemma _ => InPlace py none bodies

/-! ## Blocks are found -/

variable {bodies : List Text}

/-- **The bodies of all blocks** are found by an expression that finds each of them. -/
theorem findAll_blocks {r : Regex} {start close : Text} (hstart : start ≠ [])
    (hfind : ∀ body ∈ bodies, ∀ rest, find r (block start close body ++ rest) =
      some ⟨block start close body, [(1, body)], rest⟩) :
    (findAll r (bodies.flatMap (block start close))).map Hit.groups = bodies.map fun body => [(1, body)] := by
  induction bodies with
  | nil => rfl
  | cons body bodies ih =>
    have hne : block start close body ≠ [] := List.append_ne_nil_of_left_ne_nil hstart _
    rw [List.flatMap_cons, findAll_of_find (hfind body List.mem_cons_self _) hne, List.map_cons,
      ih fun body hbody => hfind body (List.mem_cons_of_mem _ hbody)]
    rfl

theorem find_block {body : Text} (hbody : occurrences toolCallEnd body = 0) (rest : Text) :
    find toolCallCompleteRegex (block toolCallStart toolCallEnd body ++ rest) =
      some ⟨block toolCallStart toolCallEnd body, [(1, body)], rest⟩ := by
  have hall : body.all anyChar = true := List.all_eq_true.2 fun _ _ => rfl
  rw [toolCallCompleteRegex, block, List.append_assoc, List.append_assoc,
    find_delimited (by decide) (forall_mem_of_all (by decide)) hbody, if_pos hall]

/-! ## Hermes -/

/-- **Hermes** parses each block by itself. -/
theorem hermesExtract_text (py : Interpreter F) (hbodies : ∀ body ∈ bodies, occurrences toolCallEnd body = 0) :
    (hermesExtract py (bodies.flatMap (block toolCallStart toolCallEnd))).2 = bodies.filterMap (hermesCall py) := by
  have hfound := congrArg (List.filterMap fun groups : List (ℕ × Text) =>
    hermesCall py (((groups.find? fun g => g.1 = 1).map Prod.snd).getD []))
      (findAll_blocks (by decide) fun body hbody => find_block (hbodies body hbody))
  rw [List.filterMap_map, List.filterMap_map] at hfound
  rw [hermesExtract_calls]
  exact hfound

/-! ## Qwen3-coder -/

theorem getFunctionCalls_text (hne : bodies ≠ []) (hbodies : ∀ body ∈ bodies, occurrences toolCallEnd body = 0) :
    getFunctionCalls (bodies.flatMap (block toolCallStart toolCallEnd)) = bodies.flatMap functionPieces := by
  have hfind : ∀ body ∈ bodies, ∀ rest, find toolCallRegex (block toolCallStart toolCallEnd body ++ rest) =
      some ⟨block toolCallStart toolCallEnd body, [(1, body)], rest⟩ := by
    intro body hbody rest
    rw [toolCallRegex, find_alt, find_block (hbodies body hbody)]
    rfl
  have hmatched : (findAll toolCallRegex (bodies.flatMap (block toolCallStart toolCallEnd))).map matchText = bodies := by
    have hfound := congrArg (List.map fun groups => matchText ⟨[], groups, []⟩) (findAll_blocks (by decide) hfind)
    rw [List.map_map, List.map_map] at hfound
    exact hfound.trans ((List.map_congr_left fun body _ => matchText_group body).trans (List.map_id bodies))
  unfold getFunctionCalls
  dsimp only
  rw [hmatched, if_neg hne]
  rfl

theorem parseXmlFunctionCall_none (py : Interpreter F) (piece : Text) (call : FunctionCall) :
    parseXmlFunctionCall py none piece ≠ .ok call := by
  unfold parseXmlFunctionCall
  cases indexSplit piece with
  | error e => exact nofun
  | ok function => exact nofun

theorem mapM_functionPieces {py : Interpreter F} {tools : List ToolSchema}
    (h : ∀ body ∈ bodies, ∀ piece ∈ functionPieces body, ∃ call, parseXmlFunctionCall py (some tools) piece = .ok call) :
    (bodies.flatMap functionPieces).mapM (parseXmlFunctionCall py (some tools)) =
      .ok (bodies.flatMap ((Parser.qwen (some tools)).blockCalls py)) := by
  rw [mapM_eq_ok_iff]
  induction bodies with
  | nil => exact .nil
  | cons body bodies ih =>
    obtain ⟨calls, hcalls⟩ := mapM_of_forall (h body List.mem_cons_self)
    have hblock : (Parser.qwen (some tools)).blockCalls py body = calls := by
      unfold Parser.blockCalls
      dsimp only [Option.getD_some]
      rw [hcalls]
    rw [List.flatMap_cons, List.flatMap_cons, hblock]
    exact List.rel_append (mapM_eq_ok_iff.1 hcalls) (ih fun body hbody => h body (List.mem_cons_of_mem _ hbody))

theorem flatMap_eq_nil_of {calls : Text → List FunctionCall} :
    [] = bodies.flatMap calls ↔ ∀ body ∈ bodies, calls body = [] := by
  rw [eq_comm, List.flatMap_eq_nil_iff]

/-- **Qwen3-coder** loses all calls of the response with one function that raises. -/
theorem qwenExtract_text (py : Interpreter F) (tools : Option (List ToolSchema))
    (hbodies : ∀ body ∈ bodies, occurrences toolCallEnd body = 0) :
    (qwenExtract py tools (bodies.flatMap (block toolCallStart toolCallEnd))).2 =
      bodies.flatMap ((Parser.qwen tools).blockCalls py) ↔ Parser.Isolated py bodies (.qwen tools) := by
  rcases eq_or_ne bodies [] with rfl | hne
  · exact iff_of_true rfl (.inl nofun)
  have hstart : occurrences toolCallStart (bodies.flatMap (block toolCallStart toolCallEnd)) ≠ 0 := by
    obtain ⟨body, rest, rfl⟩ := List.exists_cons_of_ne_nil hne
    rw [List.flatMap_cons, block, List.append_assoc, occurrences_self_append (by decide) (forall_mem_of_all (by decide))]
    omega
  rw [qwenExtract_calls py tools hstart, getFunctionCalls_text hne hbodies]
  -- where one function raises, no call is returned
  have hraise : ∀ {body piece}, body ∈ bodies → piece ∈ functionPieces body →
      (¬ ∃ call, parseXmlFunctionCall py tools piece = .ok call) →
      ∃ e, (bodies.flatMap functionPieces).mapM (parseXmlFunctionCall py tools) = .error e := by
    intro body piece hbody hpiece hno
    cases hcalls : (bodies.flatMap functionPieces).mapM (parseXmlFunctionCall py tools) with
    | error e => exact ⟨e, rfl⟩
    | ok calls => exact absurd (ok_of_mapM hcalls (List.mem_flatMap.2 ⟨body, hbody, hpiece⟩)) hno
  by_cases hall : ∀ body ∈ bodies, ∀ piece ∈ functionPieces body, ∃ call, parseXmlFunctionCall py tools piece = .ok call
  · cases tools with
    | some tools =>
      rw [mapM_functionPieces hall]
      exact iff_of_true rfl (.inr ⟨nofun, hall⟩)
    | none =>
      -- without tools nothing is parsed, so that there is no function
      have hnone : ∀ body ∈ bodies, functionPieces body = [] := by
        intro body hbody
        refine List.eq_nil_iff_forall_not_mem.2 fun piece hpiece => ?_
        obtain ⟨call, hcall⟩ := hall body hbody piece hpiece
        exact parseXmlFunctionCall_none py piece call hcall
      have hblocks : ∀ body ∈ bodies, (Parser.qwen none).blockCalls py body = [] := by
        intro body hbody
        unfold Parser.blockCalls
        dsimp only
        rw [hnone body hbody]
        rfl
      rw [List.flatMap_eq_nil_iff.2 hnone]
      exact iff_of_true (flatMap_eq_nil_of.2 hblocks) (.inl hblocks)
  · have hfail := hall
    simp only [not_forall] at hfail
    obtain ⟨body, hbody, piece, hpiece, hno⟩ := hfail
    obtain ⟨e, herror⟩ := hraise hbody hpiece hno
    rw [herror, flatMap_eq_nil_of]
    exact ⟨.inl, fun h => h.resolve_right fun hright => hall hright.2⟩

/-! ## Gemma4 -/

section gemma

variable {py : Interpreter F}

variable {body : Text} {call : Text × Text}

theorem openCall_eq_some (h : openCall py body = some call) :
    body = "call:".toList ++ (call.1 ++ '{' :: call.2) ∧ call.1 ≠ [] ∧ call.1.all py.isWord = true := by
  unfold openCall at h
  dsimp only at h
  split at h
  · rename_i hcall
    obtain ⟨l, rfl⟩ := List.isPrefixOf_iff_prefix.1 hcall
    have hdrop : ("call:".toList ++ l).drop 5 = l := @List.drop_left _ "call:".toList l
    rw [hdrop] at h
    split at h
    · rename_i hname
      obtain ⟨hne, hhead⟩ := hname
      obtain rfl := Option.some.inj h
      refine ⟨?_, hne, List.all_takeWhile⟩
      dsimp only
      cases htail : l.dropWhile py.isWord with
      | nil =>
        rw [htail] at hhead
        cases hhead
      | cons c rest =>
        rw [htail] at hhead
        obtain rfl : c = '{' := Option.some.inj hhead
        have hl := @List.takeWhile_append_dropWhile _ py.isWord l
        rw [htail] at hl
        exact congrArg ("call:".toList ++ ·) hl.symm
    · cases h
  · cases h

theorem endsInBrace_iff (h : openCall py body = some call) : EndsInBrace call.2 ↔ EndsInBrace body := by
  obtain ⟨hbody, _, _⟩ := openCall_eq_some h
  rw [hbody, EndsInBrace, EndsInBrace, List.getLast?_append, List.getLast?_append, List.getLast?_cons]
  cases hlast : call.2.getLast? with
  | none =>
    constructor
    · exact nofun
    · intro hbrace
      exact absurd (Option.some.inj hbrace) (by decide)
  | some c => rfl

theorem complete_open (hbody : occurrences gemmaEnd body = 0) (h : openCall py body = some call) :
    occurrences gemmaEnd call.2 = 0 := by
  rw [occurrences_eq_zero (by decide)] at hbody ⊢
  intro hin
  rw [(openCall_eq_some h).1] at hbody
  refine hbody (hin.trans (List.IsSuffix.isInfix ?_))
  exact (List.suffix_cons _ _).trans ((List.suffix_append _ _).trans (List.suffix_append _ _))

/-- **A block that ends in a brace** closes the call. -/
theorem splitFirst_brace {l : Text} (hl : occurrences gemmaEnd l = 0) (hend : EndsInBrace l) (rest : Text) :
    splitFirst ('}' :: gemmaEnd) (l ++ (gemmaEnd ++ rest)) = some (l.dropLast, rest) := by
  have hsplit : l = l.dropLast ++ ['}'] := (List.dropLast_append_getLast? _ hend).symm
  have hfront : occurrences ('}' :: gemmaEnd) l.dropLast = 0 := by
    refine occurrences_brace ?_
    rw [occurrences_eq_zero (by decide)] at hl ⊢
    exact fun hin => hl (hin.trans (List.dropLast_prefix l).isInfix)
  have hassoc : l ++ (gemmaEnd ++ rest) = l.dropLast ++ ('}' :: gemmaEnd ++ rest) := by
    conv_lhs => rw [hsplit]
    rw [List.append_assoc]
    rfl
  rw [hassoc, splitFirst_append_self (List.cons_ne_nil _ _) (forall_mem_of_all (by decide)) hfront]

/-- **A block without a brace at its end** does not close the call. -/
theorem splitFirst_brace_skip {l : Text} (hl : occurrences gemmaEnd l = 0) (hend : ¬ EndsInBrace l) (rest : Text) :
    splitFirst ('}' :: gemmaEnd) (l ++ (gemmaEnd ++ rest)) =
      (splitFirst ('}' :: gemmaEnd) rest).map fun x => (l ++ (gemmaEnd ++ x.1), x.2) := by
  induction l with
  | nil => exact splitFirst_append (x := gemmaEnd) (by decide) (.inr (forall_mem_of_all (by decide)))
  | cons c l ih =>
    have hnot : ¬ '}' :: gemmaEnd <+: c :: (l ++ (gemmaEnd ++ rest)) := by
      intro hstart
      obtain ⟨rfl, hclose⟩ := List.cons_prefix_cons.1 hstart
      cases l with
      | nil => exact hend rfl
      | cons d l =>
        have hborder : Apart gemmaEnd (d :: l) (gemmaEnd ++ rest) := by
          refine .inl fun c hc => ?_
          obtain rfl : '<' = c := Option.some.inj hc
          decide
        have hin := (prefix_append_iff hborder).1 hclose
        exact (occurrences_eq_zero (by decide)).1 hl (hin.isInfix.trans (List.suffix_cons _ _).isInfix)
    have htail : occurrences gemmaEnd l = 0 := by
      rw [occurrences, Nat.add_eq_zero_iff] at hl
      exact hl.2
    have hend' : ¬ EndsInBrace l := by
      intro hbrace
      refine hend ?_
      rw [EndsInBrace, List.getLast?_cons, hbrace]
      rfl
    rw [List.cons_append, splitFirst, if_neg hnot, ih htail hend', Option.map_map]
    rfl

/-- The first block that ends in a brace: the text up to its brace, and the blocks behind it. -/
def closing : List Text → Option (Text × List Text)
  | [] => none
  | body :: bodies =>
    if EndsInBrace body then some (gemmaStart ++ body.dropLast, bodies)
    else (closing bodies).map fun x => (block gemmaStart gemmaEnd body ++ x.1, x.2)

theorem occurrences_start_append (hbody : occurrences gemmaEnd body = 0) :
    occurrences gemmaEnd (gemmaStart ++ body) = 0 := by
  rw [occurrences_append (.inr (forall_mem_of_all (by decide))), hbody]
  rfl

theorem endsInBrace_start_append (body : Text) : EndsInBrace (gemmaStart ++ body) ↔ EndsInBrace body := by
  rw [EndsInBrace, EndsInBrace, List.getLast?_append]
  cases body.getLast? with
  | none =>
    constructor
    · intro hbrace
      exact absurd (Option.some.inj hbrace) (by decide)
    · exact nofun
  | some c => rfl

variable {bodies : List Text}

/-- **Where a call that was opened is closed.** -/
theorem splitFirst_text (hbodies : ∀ body ∈ bodies, occurrences gemmaStart body = 0 ∧ occurrences gemmaEnd body = 0) :
    splitFirst ('}' :: gemmaEnd) (bodies.flatMap (block gemmaStart gemmaEnd)) =
      (closing bodies).map fun x => (x.1, x.2.flatMap (block gemmaStart gemmaEnd)) := by
  induction bodies with
  | nil => rfl
  | cons body bodies ih =>
    have hbody := occurrences_start_append (hbodies body List.mem_cons_self).2
    have ih := ih fun body hbody => hbodies body (List.mem_cons_of_mem _ hbody)
    have hassoc : block gemmaStart gemmaEnd body ++ bodies.flatMap (block gemmaStart gemmaEnd) =
        gemmaStart ++ body ++ (gemmaEnd ++ bodies.flatMap (block gemmaStart gemmaEnd)) := by
      simp only [block, List.append_assoc]
    rw [List.flatMap_cons, hassoc, closing]
    by_cases hend : EndsInBrace body
    · have hne : body ≠ [] := by
        rintro rfl
        cases hend
      rw [if_pos hend, splitFirst_brace hbody ((endsInBrace_start_append body).2 hend),
        List.dropLast_append_of_ne_nil hne]
      rfl
    · rw [if_neg hend, splitFirst_brace_skip hbody (mt (endsInBrace_start_append body).1 hend), ih, Option.map_map,
        Option.map_map]
      congr 1
      funext x
      simp only [Function.comp, block, List.append_assoc]

/-- **A block that opens a call** is found up to the next brace that ends a block. -/
theorem find_open (h : py.Lawful) (hopen : openCall py body = some call) (rest : Text) :
    find (gemmaToolCallRegex py) (block gemmaStart gemmaEnd body ++ rest) =
      (splitFirst ('}' :: gemmaEnd) (call.2 ++ (gemmaEnd ++ rest))).map fun x =>
        ⟨gemmaStart ++ "call:".toList ++ (call.1 ++ '{' :: (x.1 ++ '}' :: gemmaEnd)), [(1, call.1), (2, x.1)], x.2⟩ := by
  have hbrace : py.isWord '{' = false := (h.isWord_ascii '{' (by decide)).trans rfl
  obtain ⟨hbody, hne, hword⟩ := openCall_eq_some hopen
  have hassoc : block gemmaStart gemmaEnd body ++ rest =
      gemmaStart ++ "call:".toList ++ (call.1 ++ '{' :: (call.2 ++ (gemmaEnd ++ rest))) := by
    rw [hbody]
    simp only [block, List.append_assoc, List.cons_append]
  rw [gemmaToolCallRegex, delimited, hassoc, find_lit_append, find_word_append hbrace hne hword,
    first_lazyStar (List.cons_ne_nil _ _)]
  cases splitFirst ('}' :: gemmaEnd) (call.2 ++ (gemmaEnd ++ rest)) with
  | none => rfl
  | some x =>
    have hall : x.1.all anyChar = true := List.all_eq_true.2 fun _ _ => rfl
    rw [Option.bind_some, if_pos hall]
    rfl

theorem find_not_open (h : py.Lawful) (hopen : openCall py body = none) (rest : Text) :
    find (gemmaToolCallRegex py) (block gemmaStart gemmaEnd body ++ rest) = none := by
  have hclose : py.isWord '<' = false := (h.isWord_ascii '<' (by decide)).trans rfl
  have hassoc : block gemmaStart gemmaEnd body ++ rest = gemmaStart ++ (body ++ (gemmaEnd ++ rest)) := by
    simp only [block, List.append_assoc]
  rw [gemmaToolCallRegex, hassoc]
  by_cases hcall : "call:".toList <+: body
  · obtain ⟨l, rfl⟩ := hcall
    have hdrop : ("call:".toList ++ l).drop 5 = l := @List.drop_left _ "call:".toList l
    unfold openCall at hopen
    dsimp only at hopen
    rw [if_pos (List.isPrefixOf_iff_prefix.2 (List.prefix_append _ _)), hdrop] at hopen
    rw [List.append_assoc, ← List.append_assoc gemmaStart, find_lit_append]
    -- the character behind the name is no character of a word
    have hhead : ∀ d ∈ (l.dropWhile py.isWord ++ (gemmaEnd ++ rest)).head?, py.isWord d = false := by
      intro d hd
      cases htail : l.dropWhile py.isWord with
      | nil =>
        rw [htail] at hd
        obtain rfl : '<' = d := Option.some.inj hd
        exact hclose
      | cons c tail =>
        rw [htail] at hd
        obtain rfl : c = d := Option.some.inj hd
        have hfirst := List.head?_dropWhile_not py.isWord l
        rw [htail] at hfirst
        exact Bool.eq_false_iff.2 (by simpa using hfirst)
    have hsplit : l ++ (gemmaEnd ++ rest) = l.takeWhile py.isWord ++ (l.dropWhile py.isWord ++ (gemmaEnd ++ rest)) := by
      rw [← List.append_assoc, ← List.append_assoc, List.takeWhile_append_dropWhile, List.append_assoc]
    rw [hsplit]
    by_cases hname : l.takeWhile py.isWord = []
    · rw [hname, List.nil_append, delimited, find_word_none hhead]
      rfl
    · have hbrace : (l.dropWhile py.isWord).head? ≠ some '{' := by
        intro hbrace
        rw [if_pos ⟨hname, hbrace⟩] at hopen
        cases hopen
      have hnot : ¬ ['{'] <+: l.dropWhile py.isWord ++ (gemmaEnd ++ rest) := by
        rintro ⟨t, ht⟩
        cases htail : l.dropWhile py.isWord with
        | nil =>
          rw [htail] at ht
          exact absurd (List.cons.inj ht).1 (by decide)
        | cons c tail =>
          rw [htail] at ht hbrace
          exact hbrace (congrArg some (List.cons.inj ht).1.symm)
      have hword : py.isWord '{' = false := (h.isWord_ascii '{' (by decide)).trans rfl
      rw [delimited, find_word hword hname List.all_takeWhile hhead, find_lit_none hnot]
      rfl
  · refine find_lit_none fun hstart => hcall ?_
    have hstart := (List.prefix_append_right_inj gemmaStart).1 hstart
    cases body with
    | nil =>
      obtain ⟨t, ht⟩ := hstart
      exact absurd (List.cons.inj ht).1 (by decide)
    | cons c body =>
      refine (prefix_append_iff (.inl fun d hd => ?_)).1 hstart
      obtain rfl : '<' = d := Option.some.inj hd
      decide

/-- **Behind a block that is not found** the search goes on with the next. -/
theorem findAll_skip (hbody : occurrences gemmaStart body = 0 ∧ occurrences gemmaEnd body = 0)
    (hfind : find (gemmaToolCallRegex py) (block gemmaStart gemmaEnd body ++ bodies.flatMap (block gemmaStart gemmaEnd)) =
      none) :
    findAll (gemmaToolCallRegex py) ((body :: bodies).flatMap (block gemmaStart gemmaEnd)) =
      findAll (gemmaToolCallRegex py) (bodies.flatMap (block gemmaStart gemmaEnd)) := by
  have hinner : occurrences gemmaStart (gemmaStart.tail ++ (body ++ gemmaEnd)) = 0 := by
    rw [occurrences_append (.inr (forall_mem_of_all (by decide))), occurrences_append (.inl (forall_mem_of_all (by decide))),
      hbody.1]
    rfl
  have hfirst : occurrences (gemmaStart ++ "call:".toList) (gemmaStart.tail ++ (body ++ gemmaEnd)) = 0 := by
    rw [occurrences_eq_zero (by decide)] at hinner ⊢
    exact fun hin => hinner ((List.prefix_append _ _).isInfix.trans hin)
  have hborder : Apart (gemmaStart ++ "call:".toList) (gemmaStart.tail ++ (body ++ gemmaEnd))
      (bodies.flatMap (block gemmaStart gemmaEnd)) := by
    refine .inl fun c hc => ?_
    cases bodies with
    | nil => cases hc
    | cons next bodies =>
      obtain rfl : '<' = c := Option.some.inj hc
      decide
  rw [List.flatMap_cons]
  have hassoc : block gemmaStart gemmaEnd body ++ bodies.flatMap (block gemmaStart gemmaEnd) =
      '<' :: (gemmaStart.tail ++ (body ++ gemmaEnd) ++ bodies.flatMap (block gemmaStart gemmaEnd)) := rfl
  rw [hassoc] at hfind ⊢
  rw [findAll_cons hfind, gemmaToolCallRegex, (startsWith_seq _ _).findAll_append hfirst hborder]

/-- The name and the arguments of each match. `pending` is a call that was opened and not closed. -/
def gemmaMatches (py : Interpreter F) : Option (Text × Text) → List Text → List (Text × Text)
  | _, [] => []
  | none, body :: bodies =>
    match openCall py body with
    | none => gemmaMatches py none bodies
    | some call =>
      if EndsInBrace call.2 then (call.1, call.2.dropLast) :: gemmaMatches py none bodies
      else gemmaMatches py (some (call.1, call.2 ++ gemmaEnd)) bodies
  | some (name, text), body :: bodies =>
    if EndsInBrace body then (name, text ++ (gemmaStart ++ body.dropLast)) :: gemmaMatches py none bodies
    else gemmaMatches py (some (name, text ++ block gemmaStart gemmaEnd body)) bodies

theorem gemmaMatches_pending (name text : Text) (bodies : List Text) : gemmaMatches py (some (name, text)) bodies =
    match closing bodies with
    | none => []
    | some x => (name, text ++ x.1) :: gemmaMatches py none x.2 := by
  induction bodies generalizing text with
  | nil => rfl
  | cons body bodies ih =>
    rw [gemmaMatches, closing]
    by_cases hend : EndsInBrace body
    · rw [if_pos hend, if_pos hend]
    · rw [if_neg hend, if_neg hend, ih]
      cases closing bodies with
      | none => rfl
      | some x =>
        dsimp only [Option.map_some]
        rw [List.append_assoc]

theorem gemmaMatches_of_closing (h : closing bodies = none) : gemmaMatches py none bodies = [] := by
  induction bodies with
  | nil => rfl
  | cons body bodies ih =>
    rw [closing] at h
    by_cases hend : EndsInBrace body
    · rw [if_pos hend] at h
      cases h
    · rw [if_neg hend, Option.map_eq_none_iff] at h
      rw [gemmaMatches]
      cases hopen : openCall py body with
      | none => exact ih h
      | some call =>
        dsimp only
        rw [if_neg (mt (endsInBrace_iff hopen).1 hend), gemmaMatches_pending, h]

theorem suffix_of_closing {x : Text × List Text} (h : closing bodies = some x) : x.2 <:+ bodies := by
  induction bodies generalizing x with
  | nil => cases h
  | cons body bodies ih =>
    rw [closing] at h
    split at h
    · obtain rfl := Option.some.inj h
      exact List.suffix_cons _ _
    · obtain ⟨y, hy, rfl⟩ := Option.map_eq_some_iff.1 h
      exact (ih hy).trans (List.suffix_cons _ _)

/-- **The matches of a response.** -/
theorem findAll_gemma (h : py.Lawful) (bodies : List Text) (hbodies : ∀ body ∈ bodies, occurrences gemmaStart body = 0 ∧ occurrences gemmaEnd body = 0) :
    (findAll (gemmaToolCallRegex py) (bodies.flatMap (block gemmaStart gemmaEnd))).map Hit.groups =
      (gemmaMatches py none bodies).map fun x => [(1, x.1), (2, x.2)] := by
  match bodies with
  | [] => rfl
  | body :: bodies =>
    have hbody := hbodies body List.mem_cons_self
    have hrest : ∀ body ∈ bodies, occurrences gemmaStart body = 0 ∧ occurrences gemmaEnd body = 0 :=
      fun body hbody => hbodies body (List.mem_cons_of_mem _ hbody)
    have ih := findAll_gemma h bodies hrest
    have hfound : ∀ (front l : Text), gemmaStart ++ front ++ l ≠ [] := fun front l =>
      List.append_ne_nil_of_left_ne_nil (List.append_ne_nil_of_left_ne_nil (by decide) _) _
    rw [gemmaMatches]
    cases hopen : openCall py body with
    | none =>
      rw [findAll_skip hbody (find_not_open h hopen _)]
      exact ih
    | some call =>
      have hfind := find_open h hopen (bodies.flatMap (block gemmaStart gemmaEnd))
      dsimp only
      by_cases hend : EndsInBrace call.2
      · rw [splitFirst_brace (complete_open hbody.2 hopen) hend, Option.map_some] at hfind
        rw [if_pos hend, List.flatMap_cons, findAll_of_find hfind (hfound _ _), List.map_cons, List.map_cons, ih]
      · rw [splitFirst_brace_skip (complete_open hbody.2 hopen) hend, splitFirst_text hrest, Option.map_map,
          Option.map_map] at hfind
        rw [if_neg hend, gemmaMatches_pending]
        cases hclosing : closing bodies with
        | none =>
          rw [hclosing] at hfind
          rw [findAll_skip hbody hfind, ih, gemmaMatches_of_closing hclosing]
        | some x =>
          have hsuffix := suffix_of_closing hclosing
          have hlength := hsuffix.length_le
          rw [hclosing] at hfind
          rw [List.flatMap_cons, findAll_of_find hfind (hfound _ _), List.map_cons, List.map_cons,
            ← findAll_gemma h x.2 fun body hbody => hrest body (hsuffix.subset hbody)]
          simp only [Function.comp, List.append_assoc]
termination_by bodies.length

theorem gemmaBlockCall_eq_none (h : ¬ EndsInBrace body) : gemmaBlockCall py body = none := by
  unfold gemmaBlockCall
  cases hopen : openCall py body with
  | none => rfl
  | some call => exact if_neg (mt (endsInBrace_iff hopen).1 h)

theorem length_filterMap_le (pending : Option (Text × Text)) (bodies : List Text) :
    (bodies.filterMap (gemmaBlockCall py)).length ≤ (gemmaMatches py pending bodies).length := by
  induction bodies generalizing pending with
  | nil => exact Nat.zero_le _
  | cons body bodies ih =>
    have hone : ∀ l : List FunctionCall, ((gemmaBlockCall py body).toList ++ l).length ≤ l.length + 1 := by
      intro l
      cases gemmaBlockCall py body with
      | none => exact Nat.le_succ _
      | some call => exact Nat.le_refl _
    rcases pending with _ | ⟨name, text⟩
    · rw [gemmaMatches]
      cases hopen : openCall py body with
      | none =>
        rw [List.filterMap_cons_none (by rw [gemmaBlockCall, hopen]; rfl)]
        exact ih none
      | some call =>
        dsimp only
        by_cases hend : EndsInBrace call.2
        · rw [if_pos hend, List.filterMap_cons_some (by rw [gemmaBlockCall, hopen, Option.bind_some, if_pos hend])]
          exact Nat.succ_le_succ (ih none)
        · rw [if_neg hend, List.filterMap_cons_none (by rw [gemmaBlockCall, hopen, Option.bind_some, if_neg hend])]
          exact ih _
    · rw [gemmaMatches]
      by_cases hend : EndsInBrace body
      · rw [if_pos hend, List.filterMap_eq_flatMap_toList, List.flatMap_cons, ← List.filterMap_eq_flatMap_toList]
        exact (hone _).trans (Nat.succ_le_succ (ih none))
      · rw [if_neg hend, List.filterMap_cons_none (gemmaBlockCall_eq_none hend)]
        exact ih _

/-- **The matches are the calls of the well-formed blocks** exactly when no block takes another's place. -/
theorem gemmaMatches_iff (pending : Option (Text × Text)) (bodies : List Text) :
    (gemmaMatches py pending bodies).map (fun x => gemmaCall py x.1 x.2) = bodies.filterMap (gemmaBlockCall py) ↔
      InPlace py pending bodies := by
  induction bodies generalizing pending with
  | nil => cases pending <;> exact iff_of_true rfl trivial
  | cons body bodies ih =>
    rcases pending with _ | ⟨name, text⟩
    · rw [gemmaMatches, InPlace]
      cases hopen : openCall py body with
      | none =>
        rw [List.filterMap_cons_none (by rw [gemmaBlockCall, hopen]; rfl)]
        exact ih none
      | some call =>
        dsimp only
        by_cases hend : EndsInBrace call.2
        · rw [if_pos hend, if_pos hend, List.map_cons,
            List.filterMap_cons_some (by rw [gemmaBlockCall, hopen, Option.bind_some, if_pos hend]), List.cons_inj_right]
          exact ih none
        · rw [if_neg hend, if_neg hend,
            List.filterMap_cons_none (by rw [gemmaBlockCall, hopen, Option.bind_some, if_neg hend])]
          exact ih _
    · rw [gemmaMatches, InPlace]
      by_cases hend : EndsInBrace body
      · rw [if_pos hend, if_pos hend, List.map_cons]
        cases hcall : gemmaBlockCall py body with
        | none =>
          -- one match more than there are well-formed blocks
          rw [List.filterMap_cons_none hcall]
          refine iff_of_false (fun heq => ?_) fun hplace => nomatch hplace.1
          have hlength := congrArg List.length heq
          have hle := @length_filterMap_le _ py none bodies
          rw [List.length_cons, List.length_map] at hlength
          omega
        | some call =>
          rw [List.filterMap_cons_some hcall, List.cons.injEq, ih none]
          exact and_congr_left fun _ => ⟨fun heq => congrArg some heq.symm, fun heq => (Option.some.inj heq).symm⟩
      · rw [if_neg hend, if_neg hend, List.filterMap_cons_none (gemmaBlockCall_eq_none hend)]
        exact ih _

/-- **Gemma4** lets a call without its last brace take the next block that ends in one. -/
theorem gemmaExtract_text (h : py.Lawful) (padToken : Option Text) {decoded : Text}
    (hbodies : ∀ body ∈ bodies, occurrences gemmaStart body = 0 ∧ occurrences gemmaEnd body = 0)
    (hdecoded : removePad padToken decoded = bodies.flatMap (block gemmaStart gemmaEnd)) :
    (gemmaExtract py padToken decoded).2 = bodies.filterMap (gemmaBlockCall py) ↔ InPlace py none bodies := by
  have hfound := congrArg (List.map fun groups : List (ℕ × Text) =>
    gemmaCall py (((groups.find? fun g => g.1 = 1).map Prod.snd).getD [])
      (((groups.find? fun g => g.1 = 2).map Prod.snd).getD [])) (findAll_gemma h bodies hbodies)
  rw [List.map_map, List.map_map] at hfound
  have hmatches : (gemmaExtract py padToken decoded).2 =
      (gemmaMatches py none bodies).map fun x => gemmaCall py x.1 x.2 := by
    rw [gemmaExtract_calls, hdecoded]
    exact hfound
  rw [hmatches]
  exact gemmaMatches_iff none bodies

end gemma

/-! ## All parsers -/

/-- **A malformed call hides no other** exactly when the blocks are isolated. -/
theorem toolCalls_iff {py : Interpreter F} (h : py.Lawful) (parser : Parser) {bodies : List Text} {decoded : Text}
    (hbodies : ∀ body ∈ bodies, parser.Complete body)
    (hdecoded : parser.cleaned decoded = bodies.flatMap (block parser.start parser.close)) :
    parser.extract py decoded = bodies.flatMap (parser.blockCalls py) ↔ parser.Isolated py bodies := by
  cases parser with
  | hermes =>
    have hdecoded : decoded = bodies.flatMap (block toolCallStart toolCallEnd) := hdecoded
    have hcalls : (hermesExtract py decoded).2 = bodies.flatMap fun body => (hermesCall py body).toList := by
      rw [hdecoded, hermesExtract_text py hbodies, List.filterMap_eq_flatMap_toList]
    exact iff_of_true hcalls trivial
  | qwen tools =>
    have hdecoded : decoded = bodies.flatMap (block toolCallStart toolCallEnd) := hdecoded
    rw [hdecoded]
    exact qwenExtract_text py tools hbodies
  | gemma padToken =>
    have hcalls := gemmaExtract_text h padToken hbodies hdecoded
    rw [List.filterMap_eq_flatMap_toList] at hcalls
    exact hcalls

theorem toolCalls_malformed : (Parser.gemma (some "<pad>".toList)).extract asciiPython
    (["call:f".toList, "call:g\x7bx:1\x7d".toList].flatMap (block gemmaStart gemmaEnd) ++ "<pad>".toList) =
      ["call:f".toList, "call:g\x7bx:1\x7d".toList].flatMap ((Parser.gemma (some "<pad>".toList)).blockCalls asciiPython) := by
  refine (toolCalls_iff asciiPython_lawful (.gemma (some "<pad>".toList)) ?_ (by decide +kernel)).2 ?_
  · intro body hbody
    rcases List.mem_cons.1 hbody with rfl | hbody
    · exact ⟨by decide, by decide⟩
    · obtain rfl := List.mem_singleton.1 hbody
      exact ⟨by decide, by decide⟩
  · trivial

/-- **Calls are lost**: beside a function of Qwen3-coder without its bracket, where there are no tools, and behind a
call of Gemma4 without its brace. -/
theorem toolCalls_lost :
    (Parser.qwen (some [])).extract asciiPython
        (["<function=f></function>".toList, "<function=g</function>".toList].flatMap (block toolCallStart toolCallEnd)) ≠
      ["<function=f></function>".toList, "<function=g</function>".toList].flatMap
        ((Parser.qwen (some [])).blockCalls asciiPython) ∧
    (Parser.qwen none).extract asciiPython (["<function=f></function>".toList].flatMap (block toolCallStart toolCallEnd)) ≠
      ["<function=f></function>".toList].flatMap ((Parser.qwen none).blockCalls asciiPython) ∧
    (Parser.gemma none).extract asciiPython
        (["call:f\x7b".toList, "call:g\x7b\x7d".toList].flatMap (block gemmaStart gemmaEnd)) ≠
      ["call:f\x7b".toList, "call:g\x7b\x7d".toList].flatMap ((Parser.gemma none).blockCalls asciiPython) := by
  decide +kernel

end Opd.Verl.MalformedCalls

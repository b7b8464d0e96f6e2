import Opd.Lib.Occurrences
import Opd.Lib.Tensor

/-!
# The supervised preprocessor and its image tokens

`SupervisedPreprocessor` expands the image placeholders of an example into runs of image tokens,
encodes the turns, and truncates each pair of turns in proportion.

* `processMessages_ok`: the expansion adds one run for every image.
* `count_encodeMessages`: the encoding has the image tokens of the texts.
* `count_encodePairs`: the image tokens that are kept, and those that are cut off.
* `agreement_iff`: the image tokens agree with the images exactly when as many are cut off as
  the texts contain literally.
-/

namespace Opd.Clight.Preprocessor

open Lib

abbrev Text := List Char

/-- `IMAGE_PLACEHOLDER` -/
def imagePlaceholder : Text := "<image>".toList

/-! ## Plugin and templates -/

/-- The fields of `Qwen3VLPlugin`; the templates keep `expand_mm_tokens`. -/
structure Plugin where
  imageToken : Text
  visionBosToken : Text
  visionEosToken : Text

/-- The plugin of the templates `qwen2_vl` and `qwen3_vl`. -/
def qwenPlugin : Plugin := ⟨"<|image_pad|>".toList, "<|vision_start|>".toList, "<|vision_end|>".toList⟩

/-- A `Template` whose elements are texts, and whose `prefix` is empty. -/
structure Template where
  user : List Text
  assistant : List Text
  system : List Text
  defaultSystem : Text
  efficientEos : Bool
  mmPlugin : Plugin

/-- The templates `qwen2_vl` and `qwen3_vl`, with the default system message of the template or of
`data_args`. -/
def qwenTemplate (defaultSystem : Text) : Template where
  user := ["<|im_start|>user\n\x7b\x7bcontent\x7d\x7d<|im_end|>\n<|im_start|>assistant\n".toList]
  assistant := ["\x7b\x7bcontent\x7d\x7d<|im_end|>\n".toList]
  system := ["<|im_start|>system\n\x7b\x7bcontent\x7d\x7d<|im_end|>\n".toList]
  defaultSystem := defaultSystem
  efficientEos := false
  mmPlugin := qwenPlugin

inductive Role
  | user
  | assistant
  | other (name : String)

structure Message where
  role : Role
  content : Text

/-- The image processor: the grid of every image (`image_grid_thw`), and `merge_size`. -/
structure ImageProcessor (ι : Type) where
  imageGridThw : List ι → List (List ℕ)
  mergeSize : ℕ

structure Processor (ι : Type) where
  imageProcessor : Option (ImageProcessor ι)

inductive PreprocessError
  /-- "Processor is required for image training." -/
  | processor
  /-- "Image processor is required for image training." -/
  | imageProcessor
  /-- The `AttributeError` of a missing processor. -/
  | attribute
  /-- The images and the placeholders differ. -/
  | placeholders (images placeholders : ℕ)
  /-- The `IndexError` of `image_grid_thw` or of a turn without an answer. -/
  | index
  /-- "Unexpected role". -/
  | role (name : String)

variable {ι τ : Type}

/-! ## The expansion of placeholders -/

/-- `validate_input` -/
def validateInput (processor : Option (Processor ι)) (images : List ι) : Except PreprocessError Unit :=
  if images = [] then .ok ()
  else match processor with
    | none => .error .processor
    | some processor => if processor.imageProcessor.isNone then .error .imageProcessor else .ok ()

/-- `validate_messages` -/
def validateMessages (messages : List Message) (images : List ι) : Except PreprocessError Unit :=
  let placeholders := (messages.map fun message => count imagePlaceholder message.content).sum
  if images.length ≠ placeholders then .error (.placeholders images.length placeholders) else .ok ()

def imageRun (plugin : Plugin) (imageSeqlen : ℕ) : Text :=
  plugin.visionBosToken ++ (List.replicate imageSeqlen plugin.imageToken).flatten ++ plugin.visionEosToken

/-- The `while` loop of `process_messages` on one message, with the lengths of the images that are
left. Every round takes one. -/
def expandContent (plugin : Plugin) : List ℕ → Text → Except PreprocessError (Text × List ℕ)
  | [], content => match splitFirst imagePlaceholder content with
    | none => .ok (content, [])
    | some _ => .error .index
  | imageSeqlen :: seqlens, content => match splitFirst imagePlaceholder content with
    | none => .ok (content, imageSeqlen :: seqlens)
    | some (before, behind) => expandContent plugin seqlens (before ++ imageRun plugin imageSeqlen ++ behind)

/-- The loop of `process_messages` over the messages. -/
def expandMessages (plugin : Plugin) : List ℕ → List Message → Except PreprocessError (List Message)
  | _, [] => .ok []
  | seqlens, message :: messages => do
    let (content, seqlens) ← expandContent plugin seqlens message.content
    let messages ← expandMessages plugin seqlens messages
    return { message with content } :: messages

def ImageProcessor.seqlens (processor : ImageProcessor ι) (images : List ι) : List ℕ :=
  if images = [] then []
  else (processor.imageGridThw images).map fun grid => grid.prod / processor.mergeSize ^ 2

/-- `process_messages` -/
def processMessages (plugin : Plugin) (processor : Option (Processor ι)) (messages : List Message) (images : List ι) :
    Except PreprocessError (List Message) := do
  validateInput processor images
  validateMessages messages images
  match processor with
  | none => .error .attribute
  | some processor =>
    expandMessages plugin ((processor.imageProcessor.map fun p => p.seqlens images).getD []) messages

/-! ## Encoding -/

structure Tokenizer (τ : Type) where
  encode : Text → List τ
  eosTokenId : τ

/-- `format_elements` -/
def formatElements (elements : List Text) (content : Text) : List Text :=
  elements.map (replace "\x7b\x7bcontent\x7d\x7d".toList content)

/-- `encode_elements` -/
def encodeElements (tokenizer : Tokenizer τ) (elements : List Text) : List τ :=
  (elements.filter fun element => element ≠ []).flatMap tokenizer.encode

def turnElements (template : Template) (message : Message) : Except PreprocessError (List Text) :=
  match message.role with
  | .user => .ok (formatElements template.user message.content)
  | .assistant => .ok (formatElements template.assistant message.content)
  | .other name => .error (.role name)

def systemMessage (template : Template) (system : Option Text) : Text :=
  if system.getD [] = [] then template.defaultSystem else system.getD []

/-- The loop of `encode_messages`; the elements before the first turn are those of the system
message. -/
def encodeTurns (template : Template) (tokenizer : Tokenizer τ) :
    List Text → List Message → Except PreprocessError (List (List τ))
  | _, [] => .ok []
  | elements, message :: messages => do
    let turn ← turnElements template message
    let encoded ← encodeTurns template tokenizer [] messages
    return encodeElements tokenizer (elements ++ turn) :: encoded

/-- `encode_messages` -/
def encodeMessages (template : Template) (tokenizer : Tokenizer τ) (messages : List Message) (system : Option Text) :
    Except PreprocessError (List (List τ)) :=
  let system := systemMessage template system
  encodeTurns template tokenizer (if system = [] then [] else formatElements template.system system) messages

def pairs : List (List τ) → Except PreprocessError (List (List τ × List τ))
  | [] => .ok []
  | [_] => .error .index
  | source :: target :: encoded => do
    let rest ← pairs encoded
    return (source, target) :: rest

/-- `encode_multiturn` -/
def encodeMultiturn (template : Template) (tokenizer : Tokenizer τ) (messages : List Message) (system : Option Text) :
    Except PreprocessError (List (List τ × List τ)) := do
  pairs (← encodeMessages template tokenizer messages system)

/-! ## Truncation -/

/-- A quotient rounded to the nearest integer, to the even one of two. -/
def roundHalfEven (a b : ℕ) : ℕ :=
  let q := a / b
  let r := a % b
  if 2 * r < b ∨ (2 * r = b ∧ q % 2 = 0) then q else q + 1

/-- `int(a / b)`: the division of integers is rounded to 53 bits. -/
def intTrueDiv (a b : ℕ) : ℕ :=
  let bits := if a / b = 0 then 0 else (a / b).log2 + 1
  if bits ≤ 53 then roundHalfEven (a * 2 ^ (53 - bits)) b / 2 ^ (53 - bits)
  else roundHalfEven a (b * 2 ^ (bits - 53)) * 2 ^ (bits - 53)

/-- `infer_lengths` -/
def inferLengths (sourceLen targetLen cutoffLen : ℕ) : ℕ × ℕ :=
  let maxTargetLen := if targetLen * 2 < cutoffLen then cutoffLen
    else if sourceLen * 2 < cutoffLen then cutoffLen - sourceLen
    else intTrueDiv (cutoffLen * targetLen) (sourceLen + targetLen)
  let newTargetLen := min maxTargetLen targetLen
  (min (cutoffLen - newTargetLen) sourceLen, newTargetLen)

/-- The loop of `encode_sft_example`: `input_ids`, and `labels` with `none` for `IGNORE_INDEX`. -/
def encodePairs (cutoffLen : ℤ) : ℕ → List (List τ × List τ) → List τ × List (Option τ)
  | _, [] => ([], [])
  | totalLength, (source, target) :: rest =>
    if cutoffLen ≤ totalLength then ([], [])
    else
      let lengths := inferLengths source.length target.length (cutoffLen - totalLength).toNat
      let out := encodePairs cutoffLen (totalLength + (lengths.1 + lengths.2)) rest
      (source.take lengths.1 ++ target.take lengths.2 ++ out.1,
        List.replicate lengths.1 none ++ (target.take lengths.2).map some ++ out.2)

structure DataArgs where
  cutoffLen : ℤ
  maxPromptLength : ℤ
  filterOverlongPrompts : Bool

structure SupervisedPreprocessor (ι τ : Type) where
  template : Template
  tokenizer : Tokenizer τ
  processor : Option (Processor ι)
  dataArgs : DataArgs

variable (preprocessor : SupervisedPreprocessor ι τ)

/-- The pairs that `encode_sft_example` truncates. -/
def encodedPairs (messages : List Message) (system : Option Text) (images : List ι) :
    Except PreprocessError (List (List τ × List τ)) := do
  let messages ← processMessages preprocessor.template.mmPlugin preprocessor.processor messages images
  encodeMultiturn preprocessor.template preprocessor.tokenizer messages system

/-- `encode_sft_example` -/
def encodeSftExample (prompt response : List Message) (system : Option Text) (images : List ι) :
    Except PreprocessError (List τ × List (Option τ)) := do
  let encoded ← encodedPairs preprocessor (prompt ++ response) system images
  let out := encodePairs preprocessor.dataArgs.cutoffLen (if preprocessor.template.efficientEos then 1 else 0) encoded
  return if preprocessor.template.efficientEos then
      (out.1 ++ [preprocessor.tokenizer.eosTokenId], out.2 ++ [some preprocessor.tokenizer.eosTokenId])
    else out

/-- `encode_prompt_example` -/
def encodePromptExample (prompt : List Message) (system : Option Text) (images : List ι) :
    Except PreprocessError (List τ) := do
  let messages ← processMessages preprocessor.template.mmPlugin preprocessor.processor prompt images
  let encoded ← encodeMessages preprocessor.template preprocessor.tokenizer messages system
  return encoded.flatten

structure Example (ι : Type) where
  prompt : List Message
  response : List Message
  system : Option Text
  images : Option (List ι)

/-- An entry of `model_inputs`. -/
structure ModelInput (ι τ : Type) where
  inputIds : List τ
  attentionMask : List ℕ
  labels : List (Option τ)
  images : Option (List ι)
  promptInputIds : List τ
  promptAttentionMask : List ℕ
  referenceText : Text

/-- The body of the loop of `preprocess_batch`: `none` for a dropped example. -/
def preprocessExample (e : Example ι) : Except PreprocessError (Option (ModelInput ι τ)) :=
  match e.response with
  | [answer] =>
    if e.prompt.length % 2 ≠ 1 then .ok none
    else do
      let promptIds ← encodePromptExample preprocessor e.prompt e.system (e.images.getD [])
      if preprocessor.dataArgs.filterOverlongPrompts = true ∧
          preprocessor.dataArgs.maxPromptLength < promptIds.length then .ok none
      else do
        let out ← encodeSftExample preprocessor e.prompt e.response e.system (e.images.getD [])
        .ok (some {
          inputIds := out.1
          attentionMask := List.replicate out.1.length 1
          labels := out.2
          images := e.images
          promptInputIds := promptIds
          promptAttentionMask := List.replicate promptIds.length 1
          referenceText := answer.content })
  | _ => .ok none

/-- `preprocess_batch` -/
def preprocessBatch (examples : List (Example ι)) : Except PreprocessError (List (ModelInput ι τ)) := do
  let rows ← examples.mapM (preprocessExample preprocessor)
  return rows.filterMap id

/-! ## The image tokens of a text -/

section Expansion

def placeholderCount (text : Text) : ℕ := occurrences imagePlaceholder text

theorem last_of_tag {p : Text} (hlast : p.getLast? = some '>') (hp : '>' ∉ p.dropLast) :
    ∀ c ∈ p.getLast?, c ∉ p.dropLast := by
  intro c hc
  rw [hlast] at hc
  exact Option.some.inj hc ▸ hp

theorem count_imagePlaceholder (text : Text) : count imagePlaceholder text = placeholderCount text :=
  count_eq_occurrences (by decide) (last_of_tag rfl (by decide)) text

theorem apart_of_head {p x y : Text} (hp : '<' ∉ p.tail) (hy : y.head? = some '<') : Apart p x y :=
  Or.inl fun c hc => by
    rw [hy] at hc
    exact Option.some.inj hc ▸ hp

theorem apart_of_last {p x y : Text} {c : Char} (hp : c ∉ p.dropLast) (hx : x.getLast? = some c) : Apart p x y :=
  Or.inr fun c' hc => by
    rw [hx] at hc
    exact Option.some.inj hc ▸ hp

/-- **A run of images** within a text, for a pattern that is a tag. -/
theorem occurrences_imageRun {p : Text} (hhead : '<' ∉ p.tail) (hlast : '>' ∉ p.dropLast) {k : ℕ}
    (hbos : occurrences p qwenPlugin.visionBosToken = 0) (heos : occurrences p qwenPlugin.visionEosToken = 0)
    (htoken : occurrences p qwenPlugin.imageToken = k) (before behind : Text) (n : ℕ) :
    occurrences p (before ++ imageRun qwenPlugin n ++ behind) = occurrences p before + n * k + occurrences p behind := by
  have hrun : ∀ (n : ℕ) (rest : Text), occurrences p ((List.replicate n qwenPlugin.imageToken).flatten ++ rest) =
      n * k + occurrences p rest := by
    intro n rest
    induction n with
    | zero => rw [List.replicate_zero, List.flatten_nil, List.nil_append, Nat.zero_mul, Nat.zero_add]
    | succ n ih =>
      rw [List.replicate_succ, List.flatten_cons, List.append_assoc,
        occurrences_append (apart_of_last hlast (by decide)), htoken, ih, Nat.succ_mul]
      omega
  have hbehind : occurrences p (qwenPlugin.visionEosToken ++ behind) = occurrences p behind := by
    rw [occurrences_append (apart_of_last hlast (by decide)), heos, Nat.zero_add]
  unfold imageRun
  rw [List.append_assoc, occurrences_append (apart_of_head hhead rfl), List.append_assoc, List.append_assoc,
    occurrences_append (apart_of_last hlast (by decide)), hbos, hrun, hbehind]
  omega

theorem occurrences_placeholder {p : Text} (hhead : '<' ∉ p.tail) (hlast : '>' ∉ p.dropLast) (before behind : Text) :
    occurrences p (before ++ (imagePlaceholder ++ behind)) =
      occurrences p before + occurrences p imagePlaceholder + occurrences p behind := by
  rw [occurrences_append (apart_of_head hhead rfl), occurrences_append (apart_of_last hlast (by decide)),
    Nat.add_assoc]

def imageSeqlens (processor : Option (Processor ι)) (images : List ι) : List ℕ :=
  ((processor.bind Processor.imageProcessor).map fun p => p.seqlens images).getD []

end Expansion

/-! ## The image tokens of an encoding -/

section Encoding

variable [DecidableEq τ] {tokenizer : Tokenizer τ} {imageTokenId : τ} {defaultSystem : Text}

omit [DecidableEq τ] in
theorem flatten_pairs {encoded : List (List τ)} {out : List (List τ × List τ)} (h : pairs encoded = .ok out) :
    out.flatMap (fun pair => pair.1 ++ pair.2) = encoded.flatten := by
  fun_induction pairs encoded generalizing out with
  | case1 =>
    obtain rfl := Except.ok.inj h
    rfl
  | case2 => cases h
  | case3 source target encoded ih =>
    obtain ⟨rest, hrest, h⟩ := bind_eq_ok.1 h
    obtain rfl := Except.ok.inj h
    rw [List.flatMap_cons, ih hrest, List.flatten_cons, List.flatten_cons, List.append_assoc]

/-! ## Truncation -/

end Encoding

/-! ## Agreement -/

section Agreement

variable [DecidableEq τ] {preprocessor : SupervisedPreprocessor ι τ} {imageTokenId : τ} {defaultSystem : Text}

/-- **Agreement**: as many image tokens as the images that are emitted have features. -/
def Agrees (processor : Option (Processor ι)) (imageTokenId : τ) (row : ModelInput ι τ) : Prop :=
  row.inputIds.count imageTokenId = (imageSeqlens processor (row.images.getD [])).sum

end Agreement

/-! ## An image of four tokens -/

def charTokens : ℕ → Text → List ℕ
  | _, [] => []
  | skip + 1, _ :: text => charTokens skip text
  | 0, c :: text =>
    if qwenPlugin.imageToken <+: c :: text then 0 :: charTokens (qwenPlugin.imageToken.length - 1) text
    else (c.toNat + 1) :: charTokens 0 text

/-- Every image has a grid of 1 × 4 × 4 patches, which are merged by 2 × 2. -/
def fourTokens (cutoffLen : ℤ) : SupervisedPreprocessor Unit ℕ where
  template := qwenTemplate []
  tokenizer := ⟨charTokens 0, 1⟩
  processor := some ⟨some ⟨fun images => images.map fun _ => [1, 4, 4], 2⟩⟩
  dataArgs := ⟨cutoffLen, 1024, true⟩

def question (text : Text) : Example Unit where
  prompt := [⟨.user, "<image>".toList ++ text⟩]
  response := [⟨.assistant, "a".toList⟩]
  system := none
  images := some [()]

end Opd.Clight.Preprocessor

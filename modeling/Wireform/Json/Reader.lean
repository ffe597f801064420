import Wireform.Json.Draft
import Wireform.Json.Printer
import Wireform.KeyMap
import Wireform.Text.Printable

/-!
Reading JSON of a known shape. A reader meets the faults of the text and its own objections in text
order, and the first one stands.

Records are read from objects by key, or from lists by position. Members that a record does not know are
passed over, or refused by a strict record.
-/

set_option autoImplicit false

namespace Wireform.Json

inductive Found where
  | null
  | bool (value : Bool)
  | int (n : Int)
  | float (x : Binary64)
  | str (text : String)
  | list
  | record

def Found.text : Found → String
  | .null => "null"
  | .bool b => "boolean `" ++ (if b then "true" else "false") ++ "`"
  | .int n => "integer `" ++ toString n ++ "`"
  | .float x => "floating point `" ++ x.text .json ++ "`"
  | .str s => "string " ++ Text.shownString s
  | .list => "sequence"
  | .record => "map"

inductive Mismatch where
  | wrongType (found : Found) (wanted : String)
  | outOfRange (n : Int) (wanted : String)
  | missingField (name : String)
  | repeatedField (name : String)
  | unknownField (name : String) (known : List String)
  | wrongLength (length : Nat) (wanted : String)
  | notNameOrNumber
  | unknownLabel (spelling : String)
  | unknownKind (spelling : String)

namespace Mismatch

def alternatives (names : List String) : String :=
  let quoted := names.map fun name => "`" ++ name ++ "`"
  match quoted with
  | [] => "there are no fields"
  | [one] => "expected " ++ one
  | [one, two] => "expected " ++ one ++ " or " ++ two
  | _ => "expected one of " ++ ", ".intercalate quoted

def message : Mismatch → String
  | .wrongType found wanted => "invalid type: " ++ found.text ++ ", expected " ++ wanted
  | .outOfRange n wanted =>
    "invalid value: integer `" ++ toString n ++ "`, expected " ++ wanted
  | .missingField name => "missing field `" ++ name ++ "`"
  | .repeatedField name => "duplicate field `" ++ name ++ "`"
  | .unknownField name known => "unknown field `" ++ name ++ "`, " ++ alternatives known
  | .wrongLength length wanted =>
    "invalid length " ++ toString length ++ ", expected " ++ wanted
  | .notNameOrNumber => "data did not match any variant of untagged enum RawEnumValue"
  | .unknownLabel spelling => "unknown field label " ++ spelling
  | .unknownKind spelling => "unknown field type " ++ spelling

end Mismatch

inductive ReadError where
  | fault (fault : Fault)
  | mismatch (mismatch : Mismatch) (place : Option Place)

namespace ReadError

def located (place : Place) : ReadError → ReadError
  | .mismatch m none => .mismatch m (some place)
  | error => error

def message (source : String) : ReadError → String
  | .fault f => f.cause.message ++ f.place.text source
  | .mismatch m none => m.message
  | .mismatch m (some place) => m.message ++ place.text source

end ReadError

abbrev ReadResult (α : Type) := Except ReadError α

inductive Origin where
  | text
  | value
deriving DecidableEq

abbrev Reader (α : Type) := Nat → Draft → ReadResult α

namespace Reader

def lift {α : Type} : Except Fault α → ReadResult α
  | .ok value => .ok value
  | .error fault => .error (.fault fault)

def object {α : Type} (mismatch : Mismatch) (place : List Char) : ReadResult α :=
  .error (.mismatch mismatch (some (.before place)))

/-- The objection to a draft of another type than the wanted one: behind a simple value, and in front of
a container, which is not read. -/
def refuse {α : Type} (wanted : String) (draft : Draft) : ReadResult α := do
  let found ← match draft with
    | .null _ => pure Found.null
    | .bool b _ => pure (.bool b)
    | .num literal _ =>
      match ← lift literal.value with
      | .int n => pure (.int n)
      | .float x => pure (.float x)
    | .str literal _ => Found.str <$> lift literal.value
    | .arr _ _ _ => pure .list
    | .obj _ _ _ => pure .record
    | .broken stop _ => .error (.fault stop.wanted)
  let place :=
    match found with
    | .list | .record => draft.span.here
    | _ => draft.span.after
  object (.wrongType found wanted) place

def string : Reader String
  | _, .str literal _ => lift literal.value
  | _, draft => refuse "a string" draft

def bool : Reader Bool
  | _, .bool b _ => .ok b
  | _, draft => refuse "a boolean" draft

def int32 : Reader Int
  | _, .num literal span => do
    match ← lift literal.value with
    | .int n =>
      if -0x80000000 ≤ n ∧ n < 0x80000000 then .ok n else object (.outOfRange n "i32") span.after
    | .float _ => refuse "i32" (.num literal span)
  | _, draft => refuse "i32" draft

def option {α : Type} (reader : Reader α) : Reader (Option α)
  | _, .null _ => .ok none
  | allowance, draft => some <$> reader allowance draft

def ended (stop : Option Break) : ReadResult Unit := lift (Draft.stopped (stop.map (·.wanted)))

def enter {α : Type} (span : Span) (allowance : Nat) (read : Nat → ReadResult α) : ReadResult α :=
  match allowance with
  | 0 => .error (.fault (Draft.tooDeep span))
  | allowance + 1 => read allowance

def items {α : Type} (reader : Draft → ReadResult α) : List Draft → ReadResult (List α)
  | [] => .ok []
  | item :: rest => do
    let value ← reader item
    return value :: (← items reader rest)

def list {α : Type} (reader : Reader α) : Reader (List α)
  | allowance, .arr drafts stop span =>
    enter span allowance fun allowance => do
      let values ← items (reader allowance) drafts
      ended stop
      return values
  | _, draft => refuse "a sequence" draft

def json : Reader Json
  | allowance, draft => lift (draft.toJson allowance)

def entries (allowance : Nat) : KeyMap Json → List (Key × Draft) →
    ReadResult (KeyMap Json)
  | map, [] => .ok map
  | map, (key, draft) :: rest => do
    let key ← lift key.literal.value
    let value ← json allowance draft
    entries allowance (map.insert key value) rest

def keyMap : Reader (KeyMap Json)
  | allowance, .obj members stop span =>
    enter span allowance fun allowance => do
      let map ← entries allowance .empty members
      ended stop
      return map
  | _, draft => refuse "a map" draft

structure Member (α : Type) where
  key : String
  read : Nat → Draft → α → ReadResult α
  required : Bool

def member {α β : Type} (key : String) (reader : Reader β) (set : β → α → α) : Member α :=
  ⟨key, fun allowance draft record => (set · record) <$> reader allowance draft, false⟩

def requiredMember {α β : Type} (key : String) (reader : Reader β) (set : β → α → α) : Member α :=
  { member key reader set with required := true }

structure Record (α : Type) where
  name : String
  default : α
  members : List (Member α)
  strict : Bool

namespace Record

variable {α : Type}

def wanted (record : Record α) : String :=
  "struct " ++ record.name ++ " with " ++ toString record.members.length ++ " elements"

def skipBlanks (cs : List Char) : List Char := cs.dropWhile Token.isBlank

def afterItem (rest : List Char) : Place :=
  match skipBlanks rest with
  | ']' :: rest => .before rest
  | ',' :: rest => .before (skipBlanks rest)
  | rest => .before rest

def afterMember (rest : List Char) : Place :=
  match skipBlanks rest with
  | '\x7d' :: rest => .before rest
  | rest => .before rest

def readPositions (record : Record α) (allowance : Nat) (stop : Option Break) (span : Span) :
    List (Member α) → List Draft → Nat → α → ReadResult (α × List Draft)
  | [], drafts, _, value => .ok (value, drafts)
  | member :: members, draft :: drafts, position, value => do
    let value ←
      (member.read allowance draft value).mapError (·.located (afterItem draft.span.after))
    readPositions record allowance stop span members drafts (position + 1) value
  | member :: members, [], position, value => do
    ended stop
    if member.required then object (.wrongLength position record.wanted) span.after
    else readPositions record allowance stop span members [] (position + 1) value

def surplus {β : Type} (origin : Origin) (length : Nat) (first : Draft) : ReadResult β :=
  match origin with
  | .text =>
    match first with
    | .broken ⟨⟨.trailingComma, place⟩, _⟩ _ => .error (.fault ⟨.trailingComma, place⟩)
    | first => .error (.fault ⟨.trailing, .past first.span.here⟩)
  | .value => object (.wrongLength length "fewer elements in array") []

def endedFull (stop : Option Break) : ReadResult Unit :=
  ended (stop.map fun stop =>
    match stop.wanted.cause with
    | .wantsListEnd => .same .trailing stop.wanted.place
    | _ => stop)

def readMembers (record : Record α) (allowance : Nat) :
    List (Key × Draft) → List String → α → ReadResult (α × List String)
  | [], seen, value => .ok (value, seen)
  | (key, draft) :: rest, seen, value => do
    let name ← lift key.literal.value
    match record.members.find? (·.key = name) with
    | some member =>
      if seen.contains name then
        .error (.mismatch (.repeatedField name) (some (afterMember key.after)))
      else
        let value ←
          (member.read allowance draft value).mapError (·.located (afterMember draft.span.after))
        readMembers record allowance rest (name :: seen) value
    | none =>
      if record.strict then
        .error (.mismatch (.unknownField name (record.members.map (·.key)))
          (some (afterMember key.after)))
      else
        lift draft.skip
        readMembers record allowance rest seen value

def reader (origin : Origin) (record : Record α) : Reader α
  | allowance, .arr drafts stop span =>
    enter span allowance fun allowance => do
      let (value, left) ←
        record.readPositions allowance stop span record.members drafts 0 record.default
      match left with
      | [] =>
        if drafts.length = record.members.length then endedFull stop else ended stop
        return value
      | first :: _ => surplus origin drafts.length first
  | allowance, .obj members stop span =>
    enter span allowance fun allowance => do
      let (value, seen) ← record.readMembers allowance members [] record.default
      ended stop
      match record.members.find? fun member => member.required && !seen.contains member.key with
      | some member => object (.missingField member.key) span.after
      | none => return value
  | _, draft => refuse ("struct " ++ record.name) draft

end Record

def readText {α : Type} (reader : Reader α) (text : String) : ReadResult α := do
  let document := Document.ofText text
  let value ← reader Document.nesting document.body
  lift (Draft.stopped document.trailing)
  return value

def readJson {α : Type} (reader : Reader α) (value : Json) : ReadResult α :=
  let draft := Draft.ofJson value
  reader draft.height draft

end Reader

end Wireform.Json

import Wireform.Directive
import Wireform.Json.Reader
import Wireform.Schema

set_option autoImplicit false

namespace Wireform

inductive Malformation where
  | wrongKind (wanted : String) (value : Json)
  | unknownWord (value : Json) (expected : String)
  | emptyValue
  | emptyName
  | wrongShape (error : Json.ReadError)
  | flattenWithoutDiscriminator

namespace Malformation

def reason : Malformation → String
  | .wrongKind wanted value => "expected " ++ wanted ++ ", got " ++ value.kindName
  | .unknownWord value expected =>
    "unknown value " ++ value.compact ++ ": expected one of " ++ expected
  | .emptyValue => "value must not be empty"
  | .emptyName => "custom name must not be empty"
  | .wrongShape (.mismatch mismatch _) => mismatch.message
  | .wrongShape (.fault _) => "text breaks off"
  | .flattenWithoutDiscriminator => "flatten requires a discriminator"

end Malformation

structure Malformed where
  directive : Directive
  malformation : Malformation

namespace Raw

def find? (options : Option Schema.Options) (package : String) (directive : Directive) :
    Option Json := do
  (← options).get? ("[" ++ package ++ "." ++ directive.name ++ "]")

abbrev Outcome (α : Type) := Except Malformation α

def flag : Option Json → Outcome Bool
  | none => .ok false
  | some (.bool b) => .ok b
  | some other => .error (.wrongKind "boolean" other)

def text : Option Json → Outcome (Option String)
  | none => .ok none
  | some (.str s) => .ok (some s)
  | some other => .error (.wrongKind "string" other)

def nonEmpty (problem : Malformation) : Outcome (Option String) → Outcome (Option String)
  | .ok (some s) => if s.isEmpty then .error problem else .ok (some s)
  | outcome => outcome

def word {α : Type} [Inhabited α] (vocabulary : Vocabulary α) : Option Json → Outcome α
  | none => .ok default
  | some value =>
    match vocabulary.parse value with
    | some a => .ok a
    | none => .error (.unknownWord value vocabulary.expected)

def valueOr {α : Type} (absent : α) : Outcome α → α
  | .ok a => a
  | .error _ => absent

def problem? {α : Type} (directive : Directive) : Outcome α → Option Malformed
  | .ok _ => none
  | .error malformation => some ⟨directive, malformation⟩

end Raw

structure Annotations where
  unwrap : Bool
  flatten : Bool
  flattenPrefix : Option String
  nullable : Bool
  int64 : Int64Encoding
  enumeration : EnumEncoding
  timestamp : TimestampFormat
  bytes : BytesEncoding
  empty : EmptyBehavior
  oneofValue : Option String
deriving DecidableEq, Repr

namespace Annotations

def none : Annotations :=
  ⟨false, false, .none, false, .unspecified, .unspecified, .unspecified, .unspecified, .unspecified,
    .none⟩

instance : Inhabited Annotations := ⟨none⟩

def isEmpty (a : Annotations) : Bool := a == none

def changesTimestamp (a : Annotations) : Bool :=
  !(a.timestamp == .unspecified || a.timestamp == .rfc3339)

def changesBytes (a : Annotations) : Bool :=
  !(a.bytes == .unspecified || a.bytes == .base64)

def changesEmpty (a : Annotations) : Bool := a.empty == .null || a.empty == .omit

def structural (a : Annotations) : List Directive :=
  [(a.unwrap, Directive.unwrap), (a.flatten, .flatten)].filterMap fun (on, directive) =>
    if on then some directive else .none

def overrides (a : Annotations) : List Directive :=
  [(a.unwrap, Directive.unwrap), (a.flatten, .flatten), (a.nullable, .nullable),
    (a.int64 == .number, .int64Encoding), (a.enumeration == .number, .enumEncoding),
    (a.changesTimestamp, .timestampFormat), (a.changesBytes, .bytesEncoding),
    (a.changesEmpty, .emptyBehavior)].filterMap fun (on, directive) =>
    if on then some directive else .none

def ofField (package : String) (field : Schema.Field) : Annotations × List Malformed :=
  let raw := Raw.find? field.options package
  let unwrap := Raw.flag (raw .unwrap)
  let flatten := Raw.flag (raw .flatten)
  let flattenPrefix := Raw.text (raw .flattenPrefix)
  let nullable := Raw.flag (raw .nullable)
  let int64 := Raw.word Int64Encoding.vocabulary (raw .int64Encoding)
  let enumeration := Raw.word EnumEncoding.vocabulary (raw .enumEncoding)
  let timestamp := Raw.word TimestampFormat.vocabulary (raw .timestampFormat)
  let bytes := Raw.word BytesEncoding.vocabulary (raw .bytesEncoding)
  let empty := Raw.word EmptyBehavior.vocabulary (raw .emptyBehavior)
  let oneofValue := Raw.nonEmpty .emptyValue (Raw.text (raw .oneofValue))
  let annotations : Annotations :=
    { unwrap := Raw.valueOr false unwrap
      flatten := Raw.valueOr false flatten
      flattenPrefix := Raw.valueOr .none flattenPrefix
      nullable := Raw.valueOr false nullable
      int64 := Raw.valueOr .unspecified int64
      enumeration := Raw.valueOr .unspecified enumeration
      timestamp := Raw.valueOr .unspecified timestamp
      bytes := Raw.valueOr .unspecified bytes
      empty := Raw.valueOr .unspecified empty
      oneofValue := Raw.valueOr .none oneofValue }
  let problems :=
    [Raw.problem? .unwrap unwrap, Raw.problem? .flatten flatten,
      Raw.problem? .flattenPrefix flattenPrefix, Raw.problem? .nullable nullable,
      Raw.problem? .int64Encoding int64, Raw.problem? .enumEncoding enumeration,
      Raw.problem? .timestampFormat timestamp, Raw.problem? .bytesEncoding bytes,
      Raw.problem? .emptyBehavior empty, Raw.problem? .oneofValue oneofValue]
  (annotations, problems.filterMap id)

def toJson (a : Annotations) : Json :=
  let optional (key : String) (text : Option String) : List (String × Json) :=
    match text with
    | .none => []
    | some s => [(key, .str s)]
  .obj (
    [("unwrap", .bool a.unwrap), ("flatten", .bool a.flatten)]
      ++ optional "flatten_prefix" a.flattenPrefix
      ++ [("nullable", .bool a.nullable),
        ("int64_encoding", .str (Int64Encoding.vocabulary.word a.int64)),
        ("enum_encoding", .str (EnumEncoding.vocabulary.word a.enumeration)),
        ("timestamp_format", .str (TimestampFormat.vocabulary.word a.timestamp)),
        ("bytes_encoding", .str (BytesEncoding.vocabulary.word a.bytes)),
        ("empty_behavior", .str (EmptyBehavior.vocabulary.word a.empty))]
      ++ optional "oneof_value" a.oneofValue)

end Annotations

structure OneofConfig where
  discriminator : String
  flatten : Bool
deriving DecidableEq, Repr, Inhabited

namespace OneofConfig

def record : Json.Reader.Record OneofConfig :=
  { name := "OneofConfig"
    default := ⟨"", false⟩
    members := [
      Json.Reader.member "discriminator" Json.Reader.string fun discriminator c =>
        { c with discriminator },
      Json.Reader.member "flatten" Json.Reader.bool fun flatten c => { c with flatten }]
    strict := true }

/-- The configuration that a oneof carries; one without a discriminator counts as absent. -/
def ofOneof (package : String) (oneof : Schema.Oneof) : Raw.Outcome (Option OneofConfig) :=
  match Raw.find? oneof.options package .oneofConfig with
  | none => .ok none
  | some raw =>
    match Json.Reader.readJson (record.reader .value) raw with
    | .error error => .error (.wrongShape error)
    | .ok config =>
      if config.discriminator.isEmpty then
        if config.flatten then .error .flattenWithoutDiscriminator else .ok none
      else .ok (some config)

end OneofConfig

def customName (package : String) (value : Schema.EnumValue) : Raw.Outcome (Option String) :=
  Raw.nonEmpty .emptyName
    (Raw.text (Raw.find? value.options package .enumValue))

end Wireform

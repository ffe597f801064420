import Wireform.Index.WellKnown
import Wireform.Interface
import Wireform.Json.Printer
import Wireform.JsonSchema
import Wireform.Reach

set_option autoImplicit false

namespace Wireform

namespace JsonSchema

def ofKind (kind : JsonKind) : JsonSchema := .all [.type [kind]]

def ofFormat (kind : JsonKind) (format : String) : JsonSchema :=
  .all [.type [kind], .format format]

def ofTexts (texts : List String) : JsonSchema :=
  .all [.type [.string], .enum (texts.map .str)]

def array (items : JsonSchema) : JsonSchema := .all [.type [.array], .items items]

def map (values : JsonSchema) : JsonSchema :=
  .all [.type [.object], .additionalProperties none values]

def withNull : JsonSchema → JsonSchema
  | .type [kind] => .type [kind, .null]
  | keyword => keyword

def isSingleType : JsonSchema → Bool
  | .type [_] => true
  | _ => false

/-- Allows null beside what the schema allows: in its own list of kinds if it names one kind. -/
def nullable (schema : JsonSchema) : JsonSchema :=
  let wrapped : JsonSchema := .all [.oneOf [schema, ofKind .null]]
  match schema with
  | .all keywords =>
    if keywords.any isSingleType then .all (keywords.map withNull) else wrapped
  | _ => wrapped

end JsonSchema

namespace OpenApi

def bytesSchema : BytesEncoding → JsonSchema
  | .hex => .all [.type [.string], .format "hex", .pattern "^[0-9a-fA-F]*$"]
  | .base64Raw => .all [.type [.string], .format "byte", .pattern "^[A-Za-z0-9+/]*$"]
  | .base64Url =>
    .all [.type [.string], .format "base64url", .pattern "^[A-Za-z0-9_-]*=\x7b0,2\x7d$"]
  | .base64UrlRaw => .all [.type [.string], .format "base64url", .pattern "^[A-Za-z0-9_-]*$"]
  | .base64 | .unspecified => .ofFormat .string "byte"

def integer64Schema (unsigned asNumber : Bool) : JsonSchema :=
  let format := if unsigned then "uint64" else "int64"
  if asNumber then .ofFormat .integer format
  else
    .all [.type [.string], .format format,
      .pattern (if unsigned then "^[0-9]+$" else "^-?[0-9]+$")]

def scalarSchema (asNumber : Bool) (bytes : BytesEncoding) (scalar : Scalar) : JsonSchema :=
  match scalar with
  | .bool => .ofKind .boolean
  | .string => .ofKind .string
  | .bytes => bytesSchema bytes
  | .double => .ofFormat .number "double"
  | .float => .ofFormat .number "float"
  | scalar =>
    if scalar.is64Bit then integer64Schema scalar.isUnsigned asNumber
    else .ofFormat .integer (if scalar.isUnsigned then "uint32" else "int32")

def timestampSchema : TimestampFormat → JsonSchema
  | .unixSeconds => .ofFormat .integer "unix-timestamp"
  | .unixMillis => .ofFormat .integer "unix-timestamp-ms"
  | .date => .ofFormat .string "date"
  | .rfc3339 | .unspecified => .ofFormat .string "date-time"

def wellKnownSchema? (name : String) : Option JsonSchema :=
  let scalar (s : Scalar) : Option JsonSchema := some (scalarSchema false .base64 s)
  match name with
  | "google.protobuf.Duration" =>
    some (.all [.type [.string], .pattern "^-?[0-9]+(\\.[0-9]+)?s$"])
  | "google.protobuf.FieldMask" => some (.ofKind .string)
  | "google.protobuf.StringValue" => scalar .string
  | "google.protobuf.BytesValue" => scalar .bytes
  | "google.protobuf.Int64Value" => scalar .int64
  | "google.protobuf.UInt64Value" => scalar .uint64
  | "google.protobuf.Int32Value" => scalar .int32
  | "google.protobuf.UInt32Value" => scalar .uint32
  | "google.protobuf.DoubleValue" => scalar .double
  | "google.protobuf.FloatValue" => scalar .float
  | "google.protobuf.BoolValue" => scalar .bool
  | "google.protobuf.Empty" | "google.protobuf.Struct" | "google.protobuf.Any" =>
    some (.ofKind .object)
  | "google.protobuf.ListValue" => some (.ofKind .array)
  | "google.protobuf.Value" => some (.all [])
  | _ => none

structure Context where
  index : Index
  plans : PlanSet
  package : String

namespace Context

variable (context : Context)

def componentName (fullName : String) : String :=
  context.index.componentName context.package fullName

def referenceTo (fullName : String) : JsonSchema :=
  .all [.reference (context.componentName fullName)]

def elementReference? (member : Member) : Option String :=
  match member.field.type with
  | .scalar _ => none
  | .enum name =>
    if (member.numberedValues?).isSome || name == WellKnown.nullValue then none else some name
  | .message name =>
    if name == WellKnown.timestamp || (wellKnownSchema? name).isSome then none else some name

def elementSchema (member : Member) : JsonSchema :=
  match member.field.type with
  | .scalar scalar =>
    scalarSchema (member.has .integerAsNumber) (member.bytesEncoding?.getD .base64) scalar
  | .enum name =>
    match member.numberedValues? with
    | some table =>
      .all [.type [.integer], .enum ((table.map (·.number)).eraseDups.map Json.int)]
    | none =>
      if name = WellKnown.nullValue then .ofKind .null else context.referenceTo name
  | .message name =>
    if name = WellKnown.timestamp then
      timestampSchema (member.timestampFormat?.getD .rfc3339)
    else (wellKnownSchema? name).getD (context.referenceTo name)

def unwrapped? (member : Member) : Option (Option Member) :=
  if member.field.isMap then
    member.unwrappedKey?.map (Interface.unwrappedList? context.index context.plans member)
  else none

def memberSchema (member : Member) : JsonSchema :=
  match context.unwrapped? member with
  | some (some inner) => .map (.array (context.elementSchema inner))
  | some none => .map (.ofKind .array)
  | none =>
    let element := context.elementSchema member
    if member.field.isMap then .map element
    else if member.field.isList then .array element
    else element

def memberReference? (member : Member) : Option String :=
  match context.unwrapped? member with
  | some inner => inner.bind elementReference?
  | none => elementReference? member

def propertySchema (member : Member) : JsonSchema :=
  member.transforms.foldl (fun schema transform =>
    match transform with
    | .nullable | .emptyValueAs .null => schema.nullable
    | _ => schema) (context.memberSchema member)

end Context

structure Object where
  properties : Entries JsonSchema
  required : List String

namespace Object

def empty : Object := ⟨[], []⟩

def addAbsent (properties more : Entries JsonSchema) : Entries JsonSchema :=
  more.foldl (fun all (key, schema) =>
    if Entries.contains all key then all else all.insert key schema) properties

/-- Adds a property. What a variant lifts is never required, as one variant is there at a time. -/
def add (context : Context) : Object → Property → Object
  | o, .discriminator key values => { o with properties := o.properties.insert key (.ofTexts values) }
  | o, .own _ .stray _ => o
  | o, .own key .variant member =>
    { o with properties := o.properties.insert key (context.memberSchema member) }
  | o, .own key .plain member =>
    { properties := o.properties.insert key (context.propertySchema member)
      required := o.required ++ (member.transforms.filter (· == .nullable)).map fun _ => key }
  | o, .lifted properties =>
    { o with properties := addAbsent o.properties (addAll empty properties).properties }
where
  addAll : Object → List Property → Object
    | o, [] => o
    | o, property :: rest => addAll (add context o property) rest

def ofProperties (context : Context) (properties : List Property) : Object :=
  properties.foldl (add context) empty

def schema (o : Object) : JsonSchema :=
  .all ([.type [.object], .properties o.properties]
    ++ if o.required.isEmpty then [] else [.required o.required])

end Object

def propertyReferences (context : Context) : Property → List String
  | .discriminator _ _ => []
  | .own _ .stray _ => []
  | .own _ _ member => (context.memberReference? member).toList
  | .lifted properties => ofList properties
where
  ofList : List Property → List String
    | [] => []
    | property :: rest => propertyReferences context property ++ ofList rest

namespace Context

variable (context : Context)

def messageSchema (m : Index.Message) : JsonSchema :=
  match Interface.ofMessage context.index context.plans m with
  | .alias member => context.memberSchema member
  | .object properties => (Object.ofProperties context properties).schema

def messageReferences (m : Index.Message) : List String :=
  match Interface.ofMessage context.index context.plans m with
  | .alias member => (context.memberReference? member).toList
  | .object properties => properties.flatMap (propertyReferences context)

end Context

def enumSchema (e : Index.Enum) : JsonSchema :=
  .ofTexts (e.values.map Index.EnumValue.wireName).eraseDups

namespace Context

variable (context : Context)

def typeSchema? (name : String) : Option JsonSchema :=
  match context.index.message? name with
  | some m => some (context.messageSchema m)
  | none => (context.index.enum? name).map enumSchema

def typeReferences (name : String) : List String :=
  match context.index.message? name with
  | some m => context.messageReferences m
  | none => []

def typesOf (file : Index.File) : List String :=
  let listed := file.messages ++ file.enums
  Reach.breadthFirst context.typeReferences
    (context.index.messages.keys ++ context.index.enums.keys ++ listed).eraseDups listed

end Context

structure Document where
  title : String
  components : KeyMap JsonSchema

namespace Document

def ofFile? (index : Index) (plans : PlanSet) (file : Index.File) : Option Document :=
  if file.messages.isEmpty && file.enums.isEmpty then none
  else
    let context : Context := ⟨index, plans, file.package⟩
    some ⟨file.name, KeyMap.ofList ((context.typesOf file).filterMap fun name =>
      (context.typeSchema? name).map fun schema => (context.componentName name, schema))⟩

def toJson (document : Document) : Json :=
  .obj [
    ("openapi", .str "3.1.0"),
    ("info", .obj [("title", .str document.title), ("version", .str "0.0.0")]),
    ("components", .obj [
      ("schemas", .obj (document.components.map fun _ schema => schema.toJson).entries)])]

def text (document : Document) : String := document.toJson.pretty ++ "\n"

end Document

end OpenApi

end Wireform

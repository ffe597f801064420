import Wireform.Json
import Wireform.KeyMap
import Wireform.Text.Uppercase

/-!
Protobuf schemas as descriptors: files with the messages, fields, oneofs and enums they declare. Options
are kept as raw JSON by key.
-/

set_option autoImplicit false

namespace Wireform.Schema

abbrev Options := KeyMap Json

inductive Label where
  | optional
  | required
  | repeated
deriving DecidableEq, Repr, Inhabited

inductive FieldKind where
  | double
  | float
  | int64
  | uint64
  | int32
  | fixed64
  | fixed32
  | bool
  | string
  | group
  | message
  | bytes
  | uint32
  | enum
  | sfixed32
  | sfixed64
  | sint32
  | sint64
deriving DecidableEq, Repr, Inhabited

structure EnumValue where
  name : String
  number : Int
  options : Option Options

instance : Inhabited EnumValue := ⟨⟨"", 0, none⟩⟩

structure Enum where
  name : String
  values : List EnumValue
  options : Option Options

instance : Inhabited Enum := ⟨⟨"", [], none⟩⟩

structure Oneof where
  name : String
  options : Option Options

instance : Inhabited Oneof := ⟨⟨"", none⟩⟩

structure Field where
  name : String
  number : Int
  label : Label
  kind : FieldKind
  typeName : Option String
  givenJsonName : Option String
  proto3Optional : Bool
  oneofIndex : Option Int
  options : Option Options

instance : Inhabited Field := ⟨⟨"", 0, .optional, .double, none, none, false, none, none⟩⟩

structure Message where
  name : String
  fields : List Field
  nested : List Message
  enums : List Enum
  oneofs : List Oneof
  options : Option Options

instance : Inhabited Message := ⟨⟨"", [], [], [], [], none⟩⟩

structure File where
  name : String
  package : String
  dependencies : List String
  messages : List Message
  enums : List Enum
  options : Option Options
  syntaxName : Option String

instance : Inhabited File := ⟨⟨"", "", [], [], [], none, none⟩⟩

structure FileSet where
  files : List File

instance : Inhabited FileSet := ⟨⟨[]⟩⟩

def Label.all : List (String × Label) :=
  [("LABEL_OPTIONAL", .optional), ("LABEL_REQUIRED", .required), ("LABEL_REPEATED", .repeated)]

def FieldKind.all : List (String × FieldKind) :=
  [("TYPE_DOUBLE", .double), ("TYPE_FLOAT", .float), ("TYPE_INT64", .int64),
    ("TYPE_UINT64", .uint64), ("TYPE_INT32", .int32), ("TYPE_FIXED64", .fixed64),
    ("TYPE_FIXED32", .fixed32), ("TYPE_BOOL", .bool), ("TYPE_STRING", .string),
    ("TYPE_GROUP", .group), ("TYPE_MESSAGE", .message), ("TYPE_BYTES", .bytes),
    ("TYPE_UINT32", .uint32), ("TYPE_ENUM", .enum), ("TYPE_SFIXED32", .sfixed32),
    ("TYPE_SFIXED64", .sfixed64), ("TYPE_SINT32", .sint32), ("TYPE_SINT64", .sint64)]

def nameIn {α : Type} [DecidableEq α] (table : List (String × α)) (value : α) : String :=
  ((table.find? fun entry => entry.2 = value).map (·.1)).getD ""

def Label.name (label : Label) : String := nameIn Label.all label

def FieldKind.name (kind : FieldKind) : String := nameIn FieldKind.all kind

/-- Underscores are dropped, and the character after a run of them is upper-cased. -/
def lowerCamel (name : String) : String :=
  String.ofList (go false name.toList)
where
  go (raise : Bool) : List Char → List Char
    | [] => []
    | c :: rest =>
      if c = '_' then go true rest
      else if raise then Text.upper c ++ go false rest
      else c :: go false rest

namespace Field

def jsonName (field : Field) : String :=
  match field.givenJsonName with
  | some name => if name.isEmpty then lowerCamel field.name else name
  | none => lowerCamel field.name

def typeRef? (field : Field) : Option String :=
  match field.typeName with
  | none => none
  | some name =>
    let bare := String.ofList (name.toList.dropWhile (· == '.'))
    if bare.isEmpty then none else some bare

/-- The position of the oneof that the field belongs to, unless that oneof only marks presence. -/
def realOneof? (field : Field) : Option Nat :=
  if field.proto3Optional then none
  else
    match field.oneofIndex with
    | some (.ofNat n) => some n
    | _ => none

end Field

def Message.isMapEntry (message : Message) : Bool :=
  match message.options with
  | none => false
  | some options => (options.get? "mapEntry").bind Json.bool? == some true

def File.goPackage? (file : File) : Option String := do
  (← (← file.options).get? "goPackage").str?

end Wireform.Schema

import Wireform.Schema

set_option autoImplicit false

namespace Wireform.Schema

def optionalText : Option String → Json
  | none => .null
  | some text => .str text

def optionalOptions : Option Options → Json
  | none => .null
  | some options => .obj options.entries

def EnumValue.toJson (v : EnumValue) : Json :=
  .obj [("name", .str v.name), ("number", .int v.number), ("options", optionalOptions v.options)]

def Enum.toJson (e : Enum) : Json :=
  .obj [("name", .str e.name), ("value", .arr (e.values.map EnumValue.toJson)),
    ("options", optionalOptions e.options)]

def Oneof.toJson (o : Oneof) : Json :=
  .obj [("name", .str o.name), ("options", optionalOptions o.options)]

def Field.toJson (f : Field) : Json :=
  .obj [
    ("name", .str f.name),
    ("number", .int f.number),
    ("label", .str f.label.name),
    ("type", .str f.kind.name),
    ("typeName", optionalText f.typeName),
    ("jsonName", optionalText f.givenJsonName),
    ("proto3Optional", .bool f.proto3Optional),
    ("oneofIndex", match f.oneofIndex with | none => .null | some n => .int n),
    ("options", optionalOptions f.options)]

def Message.toJson : Message → Json
  | ⟨name, fields, nested, enums, oneofs, options⟩ =>
    .obj [
      ("name", .str name),
      ("field", .arr (fields.map Field.toJson)),
      ("nestedType", .arr (nestedToJson nested)),
      ("enumType", .arr (enums.map Enum.toJson)),
      ("oneofDecl", .arr (oneofs.map Oneof.toJson)),
      ("options", optionalOptions options)]
where
  nestedToJson : List Message → List Json
    | [] => []
    | m :: rest => toJson m :: nestedToJson rest

def File.toJson (f : File) : Json :=
  .obj [
    ("name", .str f.name),
    ("package", .str f.package),
    ("dependency", .strings f.dependencies),
    ("messageType", .arr (f.messages.map Message.toJson)),
    ("enumType", .arr (f.enums.map Enum.toJson)),
    ("options", optionalOptions f.options),
    ("syntax", optionalText f.syntaxName)]

def FileSet.toJson (s : FileSet) : Json :=
  .obj [("file", .arr (s.files.map File.toJson))]

end Wireform.Schema

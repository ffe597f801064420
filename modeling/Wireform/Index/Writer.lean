import Wireform.Index.Basic

set_option autoImplicit false

namespace Wireform

def Json.member? {α : Type} (key : String) (write : α → Json) : Option α → List (String × Json)
  | none => []
  | some a => [(key, write a)]

def Cardinality.toJson : Cardinality → Json
  | .singular => .str "singular"
  | .optional => .str "optional"
  | .repeated => .str "repeated"
  | .map key => .obj [("map", .obj [("key", .str key.name)])]

def ValueType.toJson : ValueType → Json
  | .scalar s => .obj [("kind", .str "scalar"), ("name", .str s.name)]
  | .enum name => .obj [("kind", .str "enum"), ("name", .str name)]
  | .message name => .obj [("kind", .str "message"), ("name", .str name)]

def OneofConfig.toJson (config : OneofConfig) : Json :=
  .obj [("discriminator", .str config.discriminator), ("flatten", .bool config.flatten)]

def Finding.toJson (f : Finding) : Json :=
  .obj [
    ("kind", .str f.kind.key), ("file", .str f.file), ("message", .str f.message),
    ("field", .str f.field), ("directive", .str f.directive), ("reason", .str f.reason)]

namespace Index

def Field.toJson (f : Field) : Json :=
  .obj (
    [("name", .str f.name), ("json_name", .str f.jsonName), ("number", .int f.number),
      ("cardinality", f.cardinality.toJson), ("ty", f.type.toJson)]
      ++ Json.member? "oneof" .str f.oneof
      ++ [("annotations", f.annotations.toJson)]
      ++ (if f.unresolved then [("unresolved", .bool true)] else []))

def Oneof.toJson (o : Oneof) : Json :=
  .obj (
    [("name", .str o.name), ("members", .strings o.members)]
      ++ Json.member? "config" OneofConfig.toJson o.config)

def Message.toJson (m : Message) : Json :=
  .obj (
    [("full_name", .str m.fullName), ("local_name", .str m.localName), ("file", .str m.file),
      ("package", .str m.package), ("fields", .arr (m.fields.map Field.toJson))]
      ++ (if m.oneofs.isEmpty then [] else [("oneofs", .arr (m.oneofs.map Oneof.toJson))])
      ++ [("well_known", .bool m.wellKnown)])

def EnumValue.toJson (v : EnumValue) : Json :=
  .obj (
    [("name", .str v.name), ("number", .int v.number)]
      ++ Json.member? "custom_name" .str v.customName)

def Enum.toJson (e : Enum) : Json :=
  .obj [
    ("full_name", .str e.fullName), ("local_name", .str e.localName), ("file", .str e.file),
    ("package", .str e.package), ("values", .arr (e.values.map EnumValue.toJson)),
    ("well_known", .bool e.wellKnown)]

def File.toJson (f : File) : Json :=
  .obj (
    [("name", .str f.name), ("package", .str f.package)]
      ++ Json.member? "go_package" .str f.goPackage
      ++ [("dependencies", .strings f.dependencies), ("messages", .strings f.messages),
        ("enums", .strings f.enums), ("targeted", .bool f.targeted)])

def toJson (index : Index) : Json :=
  .obj [
    ("files", .arr (index.files.map File.toJson)),
    ("messages", .obj (index.messages.map fun _ m => Message.toJson m).entries),
    ("enums", .obj (index.enums.map fun _ e => Enum.toJson e).entries),
    ("problems", .arr (index.problems.map Finding.toJson)),
    ("max_depth", .nat index.maxDepth)]

end Index

end Wireform

import Wireform.Index.Writer
import Wireform.Plan.Basic

set_option autoImplicit false

namespace Wireform

def Container.key : Container → String
  | .single => "single"
  | .list => "list"
  | .mapValues => "map_values"

def EnumName.toJson (e : EnumName) : Json :=
  .obj [("name", .str e.name), ("number", .int e.number), ("wire", .str e.wire)]

def Variant.toJson (v : Variant) : Json :=
  .obj (
    [("field", .str v.field), ("json_name", .str v.jsonName), ("value", .str v.value)]
      ++ Json.member? "message_type" .str v.messageType
      ++ (if v.childKeys.isEmpty then [] else [("child_keys", .strings v.childKeys)]))

def Transform.members : Transform → List (String × Json)
  | .unwrapRoot elementType isMap =>
    [("element_type", (elementType.map Json.str).getD .null), ("is_map", .bool isMap),
      ("is_root", .bool true)]
  | .unwrapValues elementType valueField =>
    [("element_type", (elementType.map Json.str).getD .null), ("is_map", .bool true),
      ("is_root", .bool false), ("value_field", .str valueField)]
  | .nullable => []
  | .integerAsNumber unsigned => [("unsigned", .bool unsigned)]
  | .enumCustomNames enumType table =>
    [("enum_type", .str enumType), ("table", .arr (table.map EnumName.toJson))]
  | .enumAsNumber enumType table =>
    [("enum_type", .str enumType), ("values", .arr (table.map EnumName.toJson))]
  | .timestampAs format => [("format", .str (TimestampFormat.vocabulary.word format))]
  | .bytesAs encoding => [("encoding", .str (BytesEncoding.vocabulary.word encoding))]
  | .emptyValueAs behavior => [("behavior", .str (EmptyBehavior.vocabulary.word behavior))]
  | .nested messageType => [("message_type", .str messageType)]
  | .flatten messageType pre childKeys =>
    [("message_type", .str messageType), ("prefix", .str pre), ("child_keys", .strings childKeys)]
  | .oneofDiscriminator discriminator lifted variants =>
    [("discriminator", .str discriminator), ("flatten", .bool lifted),
      ("variants", .arr (variants.map Variant.toJson))]

def Step.toJson (s : Step) : Json :=
  .obj (
    [("field", .str s.field), ("json_name", .str s.jsonName), ("container", .str s.container.key),
      ("kind", .str s.transform.tag.key)]
      ++ s.transform.members)

def Plan.toJson (plan : Plan) : Json :=
  .obj [("message", .str plan.message), ("transforms", .arr (plan.steps.map Step.toJson))]

def PlanSet.toJson (plans : PlanSet) : Json :=
  .obj [("plans", .obj (plans.map fun _ plan => plan.toJson).entries)]

end Wireform

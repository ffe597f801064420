import Wireform.JsonSchema
import Wireform.JsonSchema.Reference

set_option autoImplicit false

namespace Wireform.JsonSchema

def strings? : Json → Option (List String)
  | .arr values => values.mapM Json.str?
  | _ => none

def areDistinct (value : Json) : Bool := (strings? value).any fun texts => decide texts.Nodup

def areKinds (value : Json) : Bool :=
  match value with
  | .str name => (JsonKind.ofName? name).isSome
  | value =>
    areDistinct value
      && (strings? value).any fun names =>
        !names.isEmpty && names.all fun name => (JsonKind.ofName? name).isSome

def isWellFormed : Json → Bool
  | .bool _ => true
  | .obj members => keywords members
  | _ => false
where
  keywords : List (String × Json) → Bool
    | [] => true
    | (key, value) :: rest =>
      (match key, value with
        | "type", value => areKinds value
        | "format", .str _ => true
        | "pattern", .str _ => true
        | "enum", .arr _ => true
        | "properties", .obj members => ofMembers members
        | "required", value => areDistinct value
        | "items", value => isWellFormed value
        | "additionalProperties", value => isWellFormed value
        | "oneOf", .arr (first :: others) => isWellFormed first && ofItems others
        | "$ref", .str text => Reference.isAllowed text
        | key, _ =>
          !(["format", "pattern", "enum", "properties", "oneOf", "$ref"].contains key))
        && keywords rest
  ofItems : List Json → Bool
    | [] => true
    | value :: rest => isWellFormed value && ofItems rest
  ofMembers : List (String × Json) → Bool
    | [] => true
    | (_, value) :: rest => isWellFormed value && ofMembers rest

end Wireform.JsonSchema

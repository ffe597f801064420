import Wireform.Json

set_option autoImplicit false

namespace Wireform

inductive JsonKind where
  | array
  | boolean
  | integer
  | null
  | number
  | object
  | string
deriving DecidableEq, Repr, Inhabited

namespace JsonKind

def all : List JsonKind := [.array, .boolean, .integer, .null, .number, .object, .string]

def name : JsonKind → String
  | .array => "array"
  | .boolean => "boolean"
  | .integer => "integer"
  | .null => "null"
  | .number => "number"
  | .object => "object"
  | .string => "string"

def ofName? (name : String) : Option JsonKind := all.find? (·.name == name)

def holds : JsonKind → Json → Bool
  | .array, .arr _ => true
  | .boolean, .bool _ => true
  | .integer, .num n => n.isIntegral
  | .null, .null => true
  | .number, .num _ => true
  | .object, .obj _ => true
  | .string, .str _ => true
  | _, _ => false

end JsonKind

inductive JsonSchema where
  | constant (allowed : Bool)
  | all (keywords : List JsonSchema)
  | type (kinds : List JsonKind)
  | format (name : String)
  | pattern (source : String)
  | enum (values : List Json)
  | properties (entries : List (String × JsonSchema))
  | required (keys : List String)
  | items (schema : JsonSchema)
  | additionalProperties (known : Option (List String)) (schema : JsonSchema)
  | oneOf (schemas : List JsonSchema)
  | reference (name : String)
deriving Inhabited

namespace JsonSchema

def componentsPath : String := "#/components/schemas/"

def kindsJson : List JsonKind → Json
  | [kind] => .str kind.name
  | kinds => .strings (kinds.map JsonKind.name)

def toJson : JsonSchema → Json
  | .constant allowed => .bool allowed
  | .all keywords => .obj (merged keywords)
  | .type kinds => .obj [("type", kindsJson kinds)]
  | .format name => .obj [("format", .str name)]
  | .pattern source => .obj [("pattern", .str source)]
  | .enum values => .obj [("enum", .arr values)]
  | .properties entries => .obj [("properties", .obj (entriesJson entries))]
  | .required keys => .obj [("required", .strings keys)]
  | .items schema => .obj [("items", toJson schema)]
  | .additionalProperties _ schema => .obj [("additionalProperties", toJson schema)]
  | .oneOf schemas => .obj [("oneOf", .arr (schemasJson schemas))]
  | .reference name => .obj [("$ref", .str (componentsPath ++ name))]
where
  merged : List JsonSchema → List (String × Json)
    | [] => []
    | keyword :: rest => (toJson keyword).obj?.getD [] ++ merged rest
  entriesJson : List (String × JsonSchema) → List (String × Json)
    | [] => []
    | (key, schema) :: rest => (key, toJson schema) :: entriesJson rest
  schemasJson : List JsonSchema → List Json
    | [] => []
    | schema :: rest => toJson schema :: schemasJson rest

def references : JsonSchema → List String
  | .constant _ | .type _ | .format _ | .pattern _ | .enum _ | .required _ => []
  | .all keywords => ofList keywords
  | .properties entries => ofEntries entries
  | .items schema => references schema
  | .additionalProperties _ schema => references schema
  | .oneOf schemas => ofList schemas
  | .reference name => [name]
where
  ofList : List JsonSchema → List String
    | [] => []
    | schema :: rest => references schema ++ ofList rest
  ofEntries : List (String × JsonSchema) → List String
    | [] => []
    | (_, schema) :: rest => references schema ++ ofEntries rest

def patterns : JsonSchema → List String
  | .constant _ | .type _ | .format _ | .enum _ | .required _ | .reference _ => []
  | .all keywords => ofList keywords
  | .properties entries => ofEntries entries
  | .items schema => patterns schema
  | .additionalProperties _ schema => patterns schema
  | .oneOf schemas => ofList schemas
  | .pattern source => [source]
where
  ofList : List JsonSchema → List String
    | [] => []
    | schema :: rest => patterns schema ++ ofList rest
  ofEntries : List (String × JsonSchema) → List String
    | [] => []
    | (_, schema) :: rest => patterns schema ++ ofEntries rest

end JsonSchema

end Wireform

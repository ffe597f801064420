import Wireform.JsonSchema.Pointer
import Wireform.JsonSchema.WellFormed

set_option autoImplicit false

namespace Wireform.JsonSchema

def kinds? : Json → Option (List JsonKind)
  | .str name => do return [← JsonKind.ofName? name]
  | value => do (← strings? value).mapM JsonKind.ofName?

def ofJson? : Json → Option JsonSchema
  | .bool allowed => some (.constant allowed)
  | .obj members => do return .all (← keywords members members)
  | _ => none
where
  keywords (all : List (String × Json)) : List (String × Json) → Option (List JsonSchema)
    | [] => some []
    | (key, value) :: rest => do
      let keyword ←
        match key, value with
        | "type", value => do pure [.type (← kinds? value)]
        | "format", .str name => some [.format name]
        | "pattern", .str source => some [.pattern source]
        | "enum", .arr values => some [.enum values]
        | "properties", .obj members => do pure [.properties (← ofMembers members)]
        | "required", value => do pure [.required (← strings? value)]
        | "items", value => do pure [.items (← ofJson? value)]
        | "additionalProperties", value => do
          let known := (Entries.get? all "properties").bind Json.obj?
          pure [.additionalProperties (known.map Entries.keys) (← ofJson? value)]
        | "oneOf", .arr values => do pure [.oneOf (← ofItems values)]
        | "$ref", .str text => do pure [.reference (← Reference.name? text)]
        | key, _ =>
          if ["pattern", "enum", "properties", "oneOf", "$ref"].contains key then none else some []
      return keyword ++ (← keywords all rest)
  ofItems : List Json → Option (List JsonSchema)
    | [] => some []
    | value :: rest => do return (← ofJson? value) :: (← ofItems rest)
  ofMembers : List (String × Json) → Option (List (String × JsonSchema))
    | [] => some []
    | (key, value) :: rest => do return (key, ← ofJson? value) :: (← ofMembers rest)

/-- What a dialect says about all schemas that are written in it: which kinds of value they are. It says so
once itself, and once more in each part that it is made of. -/
def dialect? (r : Reference) : Option JsonSchema :=
  let repeated (times : Nat) : JsonSchema :=
    .all (List.replicate times (.type [.object, .boolean]))
  if r.authority != some Reference.dialectHost || r.query.isSome || r.fragment != some "" then none
  else
    match r.scheme, (Text.split '/' r.path).drop 1 with
    | some "http", ["draft-04", "schema"] => some (.all [.type [.object]])
    | some "http", ["draft-06", "schema"] | some "http", ["draft-07", "schema"] =>
      some (repeated 1)
    | some "https", ["draft", "2019-09", "schema"] => some (repeated 7)
    | some "https", ["draft", "2020-12", "schema"] => some (repeated 8)
    | _, _ => none

def named? (document : Json) (name : String) : Option JsonSchema := do
  let r ← Reference.ofName? name
  if r.isLocal then ofJson? (← Pointer.place? document (r.fragment.getD "")) else dialect? r

end Wireform.JsonSchema

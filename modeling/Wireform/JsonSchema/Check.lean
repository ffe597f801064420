import Wireform.Json.Printer
import Wireform.JsonSchema
import Wireform.JsonSchema.Pointer
import Wireform.Pattern.Attempt
import Wireform.Pattern.Reader

set_option autoImplicit false

namespace Wireform

inductive Demand where
  | type (kinds : List JsonKind)
  | enum (values : List Json)
  | pattern (source : String)
  | member (key : String)
  | noOther (keys : List String)
  | one
  | onlyOne
  | nothing

structure Violation where
  path : List String
  value : Json
  demand : Demand

namespace Demand

def listed (quote : String) (texts : List String) : String :=
  ", ".intercalate (texts.map fun text => quote ++ text ++ quote)

def message (value : Json) : Demand → String
  | .type [kind] => value.compact ++ " is not of type \"" ++ kind.name ++ "\""
  | .type kinds =>
    value.compact ++ " is not of types "
      ++ listed "\"" ((JsonKind.all.filter kinds.contains).map JsonKind.name)
  | .enum values => value.compact ++ " is not one of " ++ (Json.arr values).compact
  | .pattern source => value.compact ++ " does not match \"" ++ source ++ "\""
  | .member key => Json.quote key ++ " is a required property"
  | .noOther keys =>
    "Additional properties are not allowed (" ++ listed "'" keys
      ++ (if keys.length = 1 then " was" else " were") ++ " unexpected)"
  | .one =>
    value.compact ++ " is not valid under any of the schemas listed in the 'oneOf' keyword"
  | .onlyOne =>
    value.compact ++ " is valid under more than one of the schemas listed in the 'oneOf' keyword"
  | .nothing => "False schema does not allow " ++ value.compact

end Demand

namespace Violation

def within (key : String) (v : Violation) : Violation := { v with path := key :: v.path }

def message (v : Violation) : String := v.demand.message v.value

def pointer (v : Violation) : String := Pointer.ofSteps v.path

def text (v : Violation) : String := v.pointer ++ ": " ++ v.message

end Violation

namespace JsonSchema

def expect (met : Bool) (value : Json) (demand : Demand) : List Violation :=
  if met then [] else [⟨[], value, demand⟩]

def itemViolations (check : Json → List Violation) (values : List Json) : List Violation :=
  values.zipIdx.flatMap fun (value, index) => (check value).map (·.within (toString index))

def memberViolations (check : Json → List Violation) (members : List (String × Json)) :
    List Violation :=
  members.flatMap fun (key, value) => (check value).map (·.within key)

/-- What a value violates, given what it would violate in a component. Keywords about a kind of value
ignore values of other kinds. Members that are not allowed are reported together, and if none is known,
only the first. -/
def violations (component : String → Json → List Violation) : JsonSchema → Json → List Violation
  | .constant allowed, value => expect allowed value .nothing
  | .all keywords, value => ofAll component value keywords
  | .type kinds, value => expect (kinds.any (·.holds value)) value (.type kinds)
  | .format _, _ => []
  | .pattern source, value =>
    match value with
    | .str text =>
      expect ((Pattern.parse? source).all (·.occursIn text)) value (.pattern source)
    | _ => []
  | .enum values, value => expect (values.any (Json.equal value)) value (.enum values)
  | .properties entries, value =>
    match value with
    | .obj members => ofEntries component members entries
    | _ => []
  | .required keys, value =>
    match value with
    | .obj members =>
      keys.flatMap fun key => expect (Entries.contains members key) value (.member key)
    | _ => []
  | .items schema, value =>
    match value with
    | .arr values => itemViolations (violations component schema) values
    | _ => []
  | .additionalProperties known schema, value =>
    match value with
    | .obj members =>
      let others := members.filter fun (key, _) => !(known.getD []).contains key
      match schema, known, others with
      | .constant false, none, (_, first) :: _ => [⟨[], first, .nothing⟩]
      | .constant false, _, others => expect others.isEmpty value (.noOther (others.map (·.1)))
      | schema, _, others => memberViolations (violations component schema) others
    | _ => []
  | .oneOf schemas, value =>
    match accepting component value schemas with
    | 0 => expect false value .one
    | 1 => []
    | _ => expect false value .onlyOne
  | .reference name, value => component name value
where
  ofAll (component : String → Json → List Violation) (value : Json) :
      List JsonSchema → List Violation
    | [] => []
    | keyword :: rest => violations component keyword value ++ ofAll component value rest
  ofEntries (component : String → Json → List Violation) (members : List (String × Json)) :
      List (String × JsonSchema) → List Violation
    | [] => []
    | (key, schema) :: rest =>
      (match Entries.get? members key with
        | some value => (violations component schema value).map (·.within key)
        | none => []) ++ ofEntries component members rest
  accepting (component : String → Json → List Violation) (value : Json) : List JsonSchema → Nat
    | [] => 0
    | schema :: rest =>
      (if (violations component schema value).isEmpty then 1 else 0)
        + accepting component value rest

def componentViolations (components : Entries JsonSchema) : Nat → String → Json → List Violation
  | 0, _, _ => []
  | references + 1, name, value =>
    match components.get? name with
    | some schema => violations (componentViolations components references) schema value
    | none => []

/-- What a value violates in a component. Between one level of the value and the next, each component is
referred to once at most, unless it refers to itself without end; so the number of references is enough. -/
def check (components : Entries JsonSchema) (name : String) (value : Json) : List Violation :=
  componentViolations components (value.depth * components.length) name value

end JsonSchema

end Wireform

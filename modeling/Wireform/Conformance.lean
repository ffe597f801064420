import Wireform.JsonSchema.Check
import Wireform.JsonSchema.Reader
import Wireform.OpenApi
import Wireform.Reach

set_option autoImplicit false

namespace Wireform

inductive ConformanceError where
  | unknownComponent (name : String)
  | invalidSchema
  | mismatch (component : String) (violations : List Violation)

namespace ConformanceError

def message : ConformanceError → String
  | .unknownComponent name => "no component schema named '" ++ name ++ "'"
  | .invalidSchema => "invalid component schema"
  | .mismatch component violations =>
    "payload does not match " ++ component ++ ": " ++ toString violations.length ++ " error(s)"

def exitCode : ConformanceError → Nat
  | .unknownComponent _ | .invalidSchema => 2
  | .mismatch _ _ => 1

end ConformanceError

namespace Conformance

def schemas? (document : Json) : Option (Entries Json) :=
  ((document.get? "components").bind (·.get? "schemas")).bind Json.obj?

/-- References to components of the document lead to the definitions that are made of them. What stands
under the key of a reference is a reference or none, but never a part of the document. -/
def rebased : Json → Json
  | .arr items => .arr (ofItems items)
  | .obj members => .obj (ofMembers members)
  | value => value
where
  target (value : Json) : Json :=
    match value with
    | .str text =>
      if Text.startsWith JsonSchema.componentsPath text then
        let name := text.toList.drop JsonSchema.componentsPath.length
        .str (Reference.definitionsPath ++ String.ofList name)
      else value
    | value => value
  ofItems : List Json → List Json
    | [] => []
    | value :: rest => rebased value :: ofItems rest
  ofMembers : List (String × Json) → List (String × Json)
    | [] => []
    | (key, value) :: rest =>
      (key, if key = "$ref" then target value else rebased value) :: ofMembers rest

def standalone (components : Entries Json) (component : String) : Json :=
  .obj [("$defs", rebased (.obj components)),
    ("$ref", .str (Reference.definitionsPath ++ component))]

def namesWithin : Json → List String
  | .arr items => ofItems items
  | .obj members => ofMembers members
  | _ => []
where
  ofItems : List Json → List String
    | [] => []
    | value :: rest => namesWithin value ++ ofItems rest
  ofMembers : List (String × Json) → List String
    | [] => []
    | (key, value) :: rest =>
      (match key, value with
        | "$ref", .str text => (Reference.name? text).toList
        | _, value => namesWithin value) ++ ofMembers rest

def reached (document : Json) (name : String) : List String :=
  let next (name : String) : List String :=
    ((JsonSchema.named? document name).map JsonSchema.references).getD []
  Reach.breadthFirst next (namesWithin document).eraseDups [name]

def areReadable (schema : JsonSchema) : Bool :=
  schema.patterns.all fun source => (Pattern.parse? source).isSome

def table? (document : Json) (name : String) : Option (Entries JsonSchema) :=
  (reached document name).mapM fun name => do
    let schema ← JsonSchema.named? document name
    if areReadable schema then some (name, schema) else none

def violations? (components : Entries Json) (component : String) (payload : Json) :
    Option (List Violation) := do
  if !(components.all fun (_, schema) => JsonSchema.isWellFormed schema) then none
  let name ← Reference.name? (Reference.definitionsPath ++ component)
  let table ← table? (standalone components component) name
  return JsonSchema.check table name payload

def check (document : Json) (component : String) (payload : Json) :
    Except ConformanceError Unit :=
  match schemas? document with
  | none => .error (.unknownComponent component)
  | some components =>
    if components.contains component then
      match violations? components component payload with
      | none => .error .invalidSchema
      | some [] => .ok ()
      | some violations => .error (.mismatch component violations)
    else .error (.unknownComponent component)

inductive WireError where
  | unknownMessage (name : String)
  | unknownFile (name : String)
  | nonconforming (error : ConformanceError)

namespace WireError

def message : WireError → String
  | .unknownMessage name => "no message named '" ++ name ++ "'"
  | .unknownFile name => "no schema file named '" ++ name ++ "'"
  | .nonconforming error => error.message

def exitCode : WireError → Nat
  | .unknownMessage _ | .unknownFile _ => 2
  | .nonconforming error => error.exitCode

end WireError

def checkMessage (index : Index) (plans : PlanSet) (message : String) (payload : Json) :
    Except WireError Unit :=
  match index.message? message with
  | none => .error (.unknownMessage message)
  | some m =>
    match index.file? m.file with
    | none => .error (.unknownFile m.file)
    | some file =>
      let document :=
        match OpenApi.Document.ofFile? index plans file with
        | some document => document.toJson
        | none => .null
      (check document (index.componentName file.package m.fullName) payload).mapError .nonconforming

end Conformance

end Wireform

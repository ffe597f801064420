import Wireform.Codec.Scalar
import Wireform.Index.Basic
import Wireform.Plan.Build

set_option autoImplicit false

namespace Wireform

structure Codec where
  index : Index
  plans : PlanSet

inductive CodecError where
  | unknownMessage (name : String)
  | expectedObject (message : String) (actual : Json)
  | invalidValue (message : String) (step : Step) (fault : ValueFault)
  | tooDeep (message : String) (limit : Nat)

def CodecError.message : CodecError → String
  | .unknownMessage name => "no message named '" ++ name ++ "'"
  | .expectedObject message actual =>
    "expected JSON object for " ++ message ++ ", got " ++ actual.kindName
  | .invalidValue message step fault =>
    "invalid value for " ++ message ++ "." ++ step.field ++ " [" ++ step.transform.tag.directive
      ++ "]: " ++ fault.message
  | .tooDeep message limit =>
    "nesting deeper than " ++ toString limit ++ " levels at " ++ message

def CodecError.exitCode : CodecError → Nat
  | .unknownMessage _ => 2
  | .expectedObject _ _ | .invalidValue _ _ _ | .tooDeep _ _ => 1

namespace Codec

/-- How many plans may be applied within each other, below the outermost. -/
def maxNesting : Nat := 100

abbrev Result (α : Type) := Except CodecError α

abbrev Doc := Entries Json

def expectObject (message : String) : Json → Result Doc
  | .obj entries => .ok entries
  | other => .error (.expectedObject message other)

def plan? (codec : Codec) (levels : Nat) (name : String) : Result (Option Plan) :=
  if (codec.index.message? name).isNone then .error (.unknownMessage name)
  else if levels = 0 then .error (.tooDeep name maxNesting)
  else .ok (codec.plans.plan? name)

def mapItems {ε : Type} (f : Json → Except ε Json) : List Json → Except ε (List Json)
  | [] => .ok []
  | item :: rest => do
    let item ← if item.isNull then pure item else f item
    return item :: (← mapItems f rest)

def mapMembers {ε : Type} (f : Json → Except ε Json) :
    List (String × Json) → Except ε (List (String × Json))
  | [] => .ok []
  | (key, value) :: rest => do
    let value ← if value.isNull then pure value else f value
    return (key, value) :: (← mapMembers f rest)

/-- Applies a function to the values in a container; a value of another shape stays as it is. -/
def mapContainer {ε : Type} (container : Container) (f : Json → Except ε Json) :
    Json → Except ε Json
  | .null => .ok .null
  | value =>
    match container, value with
    | .single, value => f value
    | .list, .arr items => .arr <$> mapItems f items
    | .mapValues, .obj entries => .obj <$> mapMembers f entries
    | _, value => .ok value

def mapValues {ε : Type} (step : Step) (f : Json → Except ε Json) (doc : Doc) : Except ε Doc :=
  match Entries.get? doc step.jsonName with
  | none => .ok doc
  | some value => do return Entries.insert doc step.jsonName (← mapContainer step.container f value)

def recodeValues (plan : Plan) (step : Step) (f : Json → Recoded) (doc : Doc) : Result Doc :=
  (mapValues step f doc).mapError (.invalidValue plan.message step)

def invalid {α : Type} (plan : Plan) (step : Step) (fault : ValueFault) : Result α :=
  .error (.invalidValue plan.message step fault)

end Codec

end Wireform

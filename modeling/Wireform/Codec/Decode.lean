import Wireform.Codec.Basic

set_option autoImplicit false

namespace Wireform.Codec

def wrapValue (key : String) : Json → Json
  | .arr (item :: rest) => .obj [(key, .arr (item :: rest))]
  | _ => .obj []

def gather (place : String → String) : List String → Doc → Doc → Doc × Doc
  | [], doc, child => (doc, child)
  | key :: rest, doc, child =>
    match Entries.get? doc (place key) with
    | none => gather place rest doc child
    | some value => gather place rest (Entries.erase doc (place key)) (Entries.insert child key value)

def decodeOneof (plan : Plan) (step : Step) (flatten : Bool) (variants : List Variant) (doc : Doc) :
    Result Doc :=
  let key := step.jsonName
  let bare := doc.erase key
  match doc.get? key with
  | none | some .null => .ok bare
  | some (.str tag) =>
    match variants.find? (·.value == tag) with
    | none => invalid plan step (.unknownTag key tag)
    | some variant =>
      if flatten then
        let (doc, child) := gather id variant.childKeys bare []
        .ok (doc.insert variant.jsonName (.obj child))
      else .ok bare
  | some other => invalid plan step (.tagNotString key other)

def decodeStep (decode : String → Json → Result Json) (plan : Plan) (step : Step) (doc : Doc) :
    Result Doc :=
  let key := step.jsonName
  match step.transform with
  | .emptyValueAs behavior =>
    match behavior, doc.get? key with
    | .null, some .null => .ok (doc.insert key (.obj []))
    | _, _ => .ok doc
  | .nested messageType => mapValues step (decode messageType) doc
  | .unwrapValues _ inner => mapValues step (fun v => .ok (wrapValue inner v)) doc
  | .unwrapRoot _ _ => .ok doc
  | .flatten _ pre childKeys =>
    let (doc, child) := gather (pre ++ ·) childKeys doc []
    .ok (if child.isEmpty then doc else doc.insert key (.obj child))
  | .nullable =>
    match doc.get? key with
    | some .null => .ok (doc.erase key)
    | _ => .ok doc
  | .oneofDiscriminator _ lifted variants => decodeOneof plan step lifted variants doc
  | .integerAsNumber _ | .enumCustomNames _ _ | .enumAsNumber _ _ | .timestampAs _ | .bytesAs _ =>
    recodeValues plan step step.transform.decodeValue doc

def decodeSteps (decode : String → Json → Result Json) (plan : Plan) : List Step → Doc → Result Doc
  | [], doc => .ok doc
  | step :: rest, doc => do decodeSteps decode plan rest (← decodeStep decode plan step doc)

/-- The document that a root unwrap was taken from; one without its field if nothing is in it. -/
def wrapRoot (plan : Plan) (root : Step) : Json → Result Doc
  | .null => .ok []
  | .arr [] => .ok []
  | .obj [] => .ok []
  | .arr items => .ok [(root.jsonName, .arr items)]
  | .obj entries => .ok [(root.jsonName, .obj entries)]
  | other => invalid plan root (.notContainer other)

def decodeWithin (codec : Codec) : Nat → String → Json → Result Json
  | 0, name, value => do
    let _ ← codec.plan? 0 name
    return value
  | levels + 1, name, value => do
    match ← codec.plan? (levels + 1) name with
    | none => return value
    | some plan =>
      let doc ←
        match plan.rootUnwrap? with
        | some root => wrapRoot plan root value
        | none => expectObject name value
      return .obj (← decodeSteps (decodeWithin codec levels) plan plan.steps.reverse doc)

def decode (codec : Codec) (message : String) (value : Json) : Result Json :=
  decodeWithin codec (maxNesting + 1) message value

end Wireform.Codec

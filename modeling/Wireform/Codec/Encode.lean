import Wireform.Codec.Basic

set_option autoImplicit false

namespace Wireform.Codec

def isEmptyObject : Json → Bool
  | .obj [] => true
  | _ => false

def emptyContainer (isMap : Bool) : Json := if isMap then .obj [] else .arr []

def unwrapValue (key : String) (value : Json) : Json := (value.get? key).getD (.arr [])

def lift (pre : String) (doc child : Doc) : Doc :=
  doc.extend (child.map fun (k, v) => (pre ++ k, v))

def setVariant? (variants : List Variant) (doc : Doc) : Option (Variant × Json) :=
  variants.findSome? fun v =>
    match doc.get? v.jsonName with
    | some value => if value.isNull then none else some (v, value)
    | none => none

def encodeOneof (plan : Plan) (step : Step) (discriminator : String) (flatten : Bool)
    (variants : List Variant) (doc : Doc) : Result Doc :=
  match setVariant? variants doc with
  | none => .ok doc
  | some (variant, value) => do
    let doc ←
      if flatten then
        match value with
        | .obj entries => pure (Entries.extend (doc.erase variant.jsonName) entries)
        | other => invalid plan step (.variantNotObject variant.field other)
      else pure doc
    return doc.insert discriminator (.str variant.value)

def encodeStep (encode : String → Json → Result Json) (plan : Plan) (step : Step) (doc : Doc) :
    Result Doc :=
  let key := step.jsonName
  match step.transform with
  | .emptyValueAs behavior =>
    if (doc.get? key).any isEmptyObject then
      match behavior with
      | .null => .ok (doc.insert key .null)
      | .omit => .ok (doc.erase key)
      | .unspecified | .preserve => .ok doc
    else .ok doc
  | .nested messageType => mapValues step (encode messageType) doc
  | .unwrapValues _ inner => mapValues step (fun v => .ok (unwrapValue inner v)) doc
  | .unwrapRoot _ _ => .ok doc
  | .flatten _ pre _ =>
    match doc.get? key with
    | none => .ok doc
    | some (.obj entries) => .ok (lift pre (doc.erase key) entries)
    | some .null => .ok (doc.erase key)
    | some other => invalid plan step (.notObject other)
  | .nullable => .ok (if doc.contains key then doc else doc.insert key .null)
  | .oneofDiscriminator discriminator lifted variants =>
    encodeOneof plan step discriminator lifted variants doc
  | .integerAsNumber _ | .enumCustomNames _ _ | .enumAsNumber _ _ | .timestampAs _ | .bytesAs _ =>
    recodeValues plan step step.transform.encodeValue doc

def encodeSteps (encode : String → Json → Result Json) (plan : Plan) : List Step → Doc → Result Json
  | [], doc => .ok (.obj doc)
  | step :: rest, doc =>
    match step.transform with
    | .unwrapRoot _ isMap => .ok ((doc.get? step.jsonName).getD (emptyContainer isMap))
    | _ => do encodeSteps encode plan rest (← encodeStep encode plan step doc)

def encodeWithin (codec : Codec) : Nat → String → Json → Result Json
  | 0, name, value => do
    let _ ← codec.plan? 0 name
    return value
  | levels + 1, name, value => do
    match ← codec.plan? (levels + 1) name with
    | none => return value
    | some plan =>
      let doc ← expectObject name value
      encodeSteps (encodeWithin codec levels) plan plan.steps doc

def encode (codec : Codec) (message : String) (value : Json) : Result Json :=
  encodeWithin codec (maxNesting + 1) message value

end Wireform.Codec

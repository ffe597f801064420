import Wireform.Plan.Build

set_option autoImplicit false

namespace Wireform

structure Member where
  field : Index.Field
  transforms : List Transform

namespace Member

def has (member : Member) (tag : TransformTag) : Bool := member.transforms.any (·.tag == tag)

def flattened? (member : Member) : Option (String × String) :=
  member.transforms.findSome? fun
    | .flatten messageType pre _ => some (messageType, pre)
    | _ => none

def unwrappedKey? (member : Member) : Option String :=
  member.transforms.findSome? fun
    | .unwrapValues _ key => some key
    | _ => none

def timestampFormat? (member : Member) : Option TimestampFormat :=
  member.transforms.findSome? fun
    | .timestampAs format => some format
    | _ => none

def bytesEncoding? (member : Member) : Option BytesEncoding :=
  member.transforms.findSome? fun
    | .bytesAs encoding => some encoding
    | _ => none

def numberedValues? (member : Member) : Option (List EnumName) :=
  member.transforms.findSome? fun
    | .enumAsNumber _ table => some table
    | _ => none

end Member

inductive Role where
  | plain
  | variant
  | stray
deriving DecidableEq, Repr

inductive Property where
  | discriminator (key : String) (values : List String)
  | own (key : String) (role : Role) (member : Member)
  | lifted (properties : List Property)

inductive Interface where
  | alias (member : Member)
  | object (properties : List Property)

namespace Interface

def memberOf (plans : PlanSet) (m : Index.Message) (f : Index.Field) : Member :=
  match plans.plan? m.fullName with
  | none => ⟨f, []⟩
  | some plan => ⟨f, (plan.steps.filter (·.field == f.name)).map (·.transform)⟩

structure Group where
  discriminator : String
  flatten : Bool
  variants : List Variant

def group? (plans : PlanSet) (m : Index.Message) (f : Index.Field) : Option Group :=
  if f.oneof.isNone then none
  else
    (plans.plan? m.fullName).bind fun plan => plan.steps.findSome? fun step =>
      match step.transform with
      | .oneofDiscriminator discriminator flatten variants =>
        if variants.any (·.field == f.name) then some ⟨discriminator, flatten, variants⟩ else none
      | _ => none

variable (index : Index) (plans : PlanSet)

def variantProperties (child : Index.Message → String → List Property) (m : Index.Message)
    (pre : String) (group : Group) (v : Variant) : List Property :=
  let lifted := if group.flatten then v.messageType.bind index.message? else none
  match lifted with
  | some message => [.lifted (child message pre)]
  | none =>
    match m.field? v.field with
    | some f => [.own (pre ++ f.jsonName) .variant (memberOf plans m f)]
    | none => []

def fieldProperties (child : Index.Message → String → List Property) (m : Index.Message)
    (pre : String) (f : Index.Field) : List Property :=
  match group? plans m f with
  | some group =>
    if group.variants.head?.any (·.field == f.name) then
      .discriminator (pre ++ group.discriminator) (group.variants.map (·.value))
        :: group.variants.flatMap (variantProperties index plans child m pre group)
    else []
  | none =>
    let member := memberOf plans m f
    match member.flattened? with
    | none => [.own (pre ++ f.jsonName) .plain member]
    | some (messageType, childPre) =>
      match index.message? messageType with
      | some message => child message (pre ++ childPre)
      | none => [.own (pre ++ f.jsonName) .stray member]

def propertiesWithin : Nat → Index.Message → String → List Property
  | 0, m, pre => m.fields.flatMap (fieldProperties index plans (fun _ _ => []) m pre)
  | levels + 1, m, pre => m.fields.flatMap (fieldProperties index plans (propertiesWithin levels) m pre)

def properties (m : Index.Message) : List Property :=
  propertiesWithin index plans index.maxDepth m ""

def ofMessage (m : Index.Message) : Interface :=
  match m.fields with
  | f :: _ =>
    if m.isRootUnwrap && (plans.plan? m.fullName).isSome then .alias (memberOf plans m f)
    else .object (properties index plans m)
  | [] => .object (properties index plans m)

def unwrappedList? (member : Member) (key : String) : Option Member := do
  let message ← member.field.message?.bind index.message?
  let inner ← message.fields.find? (·.jsonName == key)
  return memberOf plans message inner

end Interface

end Wireform

import Wireform.Index.WireKeys
import Wireform.Plan.Basic

/-!
The plans of an index. A message gets a plan if a directive changes it, or if it holds, at any depth, a
message that has one.
-/

set_option autoImplicit false

namespace Wireform

namespace Index

def Field.container (f : Field) : Container :=
  if f.isList then .list else if f.isMap then .mapValues else .single

def unwrapValues? (index : Index) (f : Field) (child : String) : Option Transform := do
  let value ← index.message? child
  let inner ← value.unwrapField?
  if f.isMap && !value.isRootUnwrap && inner.isList then
    some (.unwrapValues inner.message? inner.jsonName)
  else none

def messageSteps (index : Index) (m : Message) (f : Field) (planned : String → Bool) :
    List (Container × Transform) :=
  let a := f.annotations
  let child :=
    match f.message? with
    | none => []
    | some child =>
      (if planned child then [(f.container, .nested child)] else [])
        ++ ((unwrapValues? index f child).toList.map fun t => (Container.mapValues, t))
  let root :=
    if a.unwrap && m.isRootUnwrap then [(Container.single, .unwrapRoot f.message? f.isMap)] else []
  let flattened :=
    match f.message? with
    | some child =>
      if a.flatten && f.isSingular then
        let keys :=
          match index.flattenedKeys child with
          | .ok keys => keys
          | .error _ => []
        [(Container.single, .flatten child (a.flattenPrefix.getD "") keys)]
      else []
    | none => []
  child ++ root ++ flattened

def integerSteps (f : Field) : List (Container × Transform) :=
  match f.annotations.int64, f.type with
  | .number, .scalar s => [(f.container, .integerAsNumber (s == .uint64 || s == .fixed64))]
  | _, _ => []

def Enum.table (e : Enum) (wire : EnumValue → String) : List EnumName :=
  e.values.map fun v => ⟨v.name, v.number, wire v⟩

def enumSteps (index : Index) (f : Field) : List (Container × Transform) :=
  match f.enum? with
  | none => []
  | some name =>
    match index.enum? name with
    | none => []
    | some e =>
      if f.annotations.enumeration = .number then
        [(f.container, .enumAsNumber name (e.table fun v => toString v.number))]
      else if e.hasCustomNames then
        [(f.container, .enumCustomNames name (e.table EnumValue.wireName))]
      else []

def scalarSteps (index : Index) (f : Field) : List (Container × Transform) :=
  let a := f.annotations
  integerSteps f ++ enumSteps index f
    ++ (if a.changesTimestamp then [(f.container, .timestampAs a.timestamp)] else [])
    ++ (if a.changesBytes then [(f.container, .bytesAs a.bytes)] else [])
    ++ (if a.nullable then [(Container.single, .nullable)] else [])

def fieldSteps (index : Index) (m : Message) (planned : String → Bool) (f : Field) : List Step :=
  let empty : List (Container × Transform) :=
    if f.isSingular && f.annotations.changesEmpty then
      [(.single, .emptyValueAs f.annotations.empty)]
    else []
  (empty ++ messageSteps index m f planned ++ scalarSteps index f).map fun (container, transform) =>
    ⟨f.name, f.jsonName, container, transform⟩

def oneofStep (index : Index) (m : Message) (oneof : Oneof) (config : OneofConfig) : Step :=
  let variants := (m.oneofMembers oneof).map fun member =>
    let keys :=
      match config.flatten, member.message? with
      | true, some child =>
        match index.flattenedKeys child with
        | .ok keys => keys
        | .error _ => []
      | _, _ => []
    (⟨member.name, member.jsonName, member.variantValue, member.message?, keys⟩ : Variant)
  ⟨oneof.name, config.discriminator, .single,
    .oneofDiscriminator config.discriminator config.flatten variants⟩

def hasDirectTransform (index : Index) (m : Message) : Bool :=
  !m.discriminated.isEmpty ||
    m.fields.any fun f => !(fieldSteps index m (fun _ => false) f).isEmpty

def ownMessages (index : Index) : List Message := index.messages.values.filter (!·.wellKnown)

def transformed (index : Index) : List String :=
  (index.ownMessages.filter (hasDirectTransform index)).map (·.fullName)

def addHolders (index : Index) (names : List String) : List String :=
  names ++ (index.ownMessages.filter fun m =>
    !names.contains m.fullName && m.fields.any fun f => f.message?.any names.contains).map
      (·.fullName)

-- Each round adds a message or is the last, so there are no more rounds than messages.
def planned (index : Index) : List String :=
  Nat.repeat (addHolders index) index.messages.size (transformed index)

def planOf (index : Index) (planned : List String) (m : Message) : Plan :=
  let steps := m.fields.flatMap (fieldSteps index m planned.contains)
    ++ m.discriminated.map fun (oneof, config) => oneofStep index m oneof config
  ⟨m.fullName,
    steps.filter (!·.transform.isRootUnwrap) ++ steps.filter (·.transform.isRootUnwrap)⟩

def plans (index : Index) : PlanSet :=
  let planned := index.planned
  KeyMap.ofList (index.messages.values.filterMap fun m =>
    if planned.contains m.fullName then
      (index.message? m.fullName).map fun found => (m.fullName, planOf index planned found)
    else none)

end Index

namespace PlanSet

def plan? (plans : PlanSet) (message : String) : Option Plan := plans.get? (Index.bareName message)

end PlanSet

end Wireform

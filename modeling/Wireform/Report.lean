import Wireform.Index.WellKnown
import Wireform.Index.WireKeys

/-!
The rules that directives must keep, checked over every file of an index. All findings are reported, and
any of them stops a run; warnings do not.
-/

set_option autoImplicit false

namespace Wireform

structure Report where
  errors : List Finding
  warnings : List Warning

namespace Index

def issueIf (condition : Bool) (issue : Issue) : List Issue := if condition then [issue] else []

namespace Field

def isTimestamp (f : Field) : Bool := !f.isMap && f.message? == some WellKnown.timestamp

def isBytes (f : Field) : Bool := !f.isMap && f.type == .scalar .bytes

def is64Bit (f : Field) : Bool :=
  !f.isMap &&
    match f.type with
    | .scalar s => s.is64Bit
    | _ => false

def valueIssues (f : Field) : List Issue :=
  let a := f.annotations
  issueIf (a.timestamp != .unspecified && !f.isTimestamp) (.timestampOn f.describe)
    ++ issueIf (a.bytes != .unspecified && !f.isBytes) (.bytesOn f.describe)
    ++ issueIf (a.int64 != .unspecified && !f.is64Bit) (.int64On f.describe)

def enumIssues (index : Index) (f : Field) : List Issue :=
  if f.annotations.enumeration = .unspecified then []
  else
    match f.enum?, f.isMap with
    | some name, false =>
      let named := ((index.enum? name).map Enum.hasCustomNames).getD false
      issueIf (f.annotations.enumeration == .number && named) (.numbersWithNames name)
    | _, _ => [.enumOn f.describe]

def presenceIssues (f : Field) : List Issue :=
  let a := f.annotations
  (if a.nullable then
    if f.message?.isSome then [Issue.nullableMessage]
    else issueIf (f.cardinality != .optional) (.nullableOn f.describe)
  else [])
    ++ issueIf (a.empty != .unspecified && (!f.isSingular || f.message?.isNone))
      (.emptyOn f.describe)

def flattenConflicts (f : Field) : List Issue :=
  issueIf f.annotations.nullable (.flattenWith .nullable)
    ++ issueIf f.annotations.changesEmpty (.flattenWith .emptyBehavior)

def flattenIssues (index : Index) (f : Field) : List Issue :=
  let target :=
    match f.message?.bind index.message? with
    | some child =>
      if f.isSingular && !child.wellKnown then
        issueIf child.isRootUnwrap (.flattenRootUnwrap child.fullName)
      else [.flattenOn f.describe]
    | none => [.flattenOn f.describe]
  let member :=
    match f.oneof with
    | some oneof => [Issue.flattenInOneof oneof]
    | none => []
  target ++ member ++ f.flattenConflicts

def issues (index : Index) (m : Message) (f : Field) : List Issue :=
  let a := f.annotations
  f.valueIssues ++ f.enumIssues index ++ f.presenceIssues
    ++ issueIf (a.unwrap && (f.isSingular || f.message?.isNone)) (.unwrapOn f.describe)
    ++ (if a.flatten then f.flattenIssues index
      else issueIf a.flattenPrefix.isSome .unusedPrefix)
    ++ issueIf (a.oneofValue.isSome && (m.groupOf? f).isNone) .strayOneofValue
    ++ issueIf (1 < a.structural.length) (.manyStructural a.structural)

def hasWarning (f : Field) : Bool := f.is64Bit && f.annotations.int64 == .number

end Field

namespace Message

def finding (m : Message) (field : String) (issue : Issue) : Finding :=
  ⟨m.file, m.fullName, field, issue⟩

def fieldErrors (index : Index) (m : Message) : List Finding :=
  (m.fields.filter (!·.unresolved)).flatMap fun f => (f.issues index m).map (m.finding f.name)

def warnings (m : Message) : List Warning :=
  (m.fields.filter fun f => !f.unresolved && f.hasWarning).map fun f =>
    ⟨m.file, m.fullName, f.name⟩

def unwrapErrors (m : Message) : List Finding :=
  match m.fields.filter (·.annotations.unwrap) with
  | [] => []
  | first :: others =>
    others.map (fun f => m.finding f.name (.secondUnwrap first.name))
      ++ (issueIf (first.isMap && m.fields.length != 1) .unwrapMapBesideFields).map
        (m.finding first.name)
      ++ (if m.isRootUnwrap then
        (first.annotations.overrides.filter (· != .unwrap)).map fun other =>
          m.finding first.name (.rootUnwrapWith other)
      else [])

def variantIssues (index : Index) (oneof : Oneof) (config : OneofConfig) (member : Field) :
    List Issue :=
  if !config.flatten || member.unresolved then []
  else
    match member.message?.bind index.message? with
    | some child =>
      if child.wellKnown then [.variantOn oneof.name member.describe]
      else issueIf child.isRootUnwrap (.variantRootUnwrap child.fullName)
    | none => [.variantOn oneof.name member.describe]

/-- Members in order; `used` are the discriminator values so far, with the last member of each. -/
def memberErrors (index : Index) (m : Message) (oneof : Oneof) (config : OneofConfig) :
    KeyMap String → List Field → List Finding
  | _, [] => []
  | used, member :: rest =>
    let value := member.variantValue
    let repeatedValue :=
      match used.get? value with
      | some previous => [Issue.repeatedVariantValue value previous]
      | none => []
    (repeatedValue
      ++ issueIf member.annotations.changesEmpty (.emptyInOneof oneof.name)
      ++ variantIssues index oneof config member).map (m.finding member.name)
      ++ memberErrors index m oneof config (used.insert value member.name) rest

def oneofErrors (index : Index) (m : Message) : List Finding :=
  m.discriminated.flatMap fun (oneof, config) =>
    memberErrors index m oneof config .empty (m.oneofMembers oneof)

def repeatedKeys : List String → List String → List String
  | _, [] => []
  | seen, key :: rest =>
    let again := repeatedKeys (seen ++ [key]) rest
    if seen.count key = 1 then key :: again else again

def lifting? (m : Message) : Option (String × Directive) :=
  match m.fields.find? (·.annotations.flatten), m.discriminated with
  | some f, _ => some (f.name, .flatten)
  | none, (oneof, _) :: _ => some (oneof.name, .oneofConfig)
  | none, [] => none

/-- Each key on the wire has one owner. -/
def keyErrors (index : Index) (m : Message) : List Finding :=
  match m.lifting? with
  | none => []
  | some (culprit, directive) =>
    match index.flattenedKeys m.fullName with
    | .ok keys =>
      (repeatedKeys [] keys).map fun key =>
        match m.discriminated.find? fun (_, config) => config.discriminator == key with
        | some (oneof, _) => m.finding oneof.name (.keyCollision key .oneofConfig)
        | none => m.finding culprit (.keyCollision key directive)
    | .error cycle =>
      -- A cycle further down is reported where it starts.
      if cycle.head? = some m.fullName then [m.finding culprit (.flattenCycle cycle directive)]
      else []

def errors (index : Index) (m : Message) : List Finding :=
  m.fieldErrors index ++ m.unwrapErrors ++ m.oneofErrors index ++ m.keyErrors index

end Message

namespace Enum

/-- The issue of a custom name that is another value's own name, which readers accept too. -/
def shadowing (e : Enum) (v : EnumValue) (custom : String) : List Issue :=
  match e.values.find? fun other => other.name == custom && other.name != v.name with
  | some other => [.shadowingCustomName custom other.name other.number]
  | none => []

def valueErrors (e : Enum) : KeyMap String → List EnumValue → List Finding
  | _, [] => []
  | used, v :: rest =>
    let finding (issue : Issue) : Finding := ⟨e.file, e.fullName, v.name, issue⟩
    match v.customName with
    | none => finding (.missingCustomName v.name v.number) :: valueErrors e used rest
    | some custom =>
      let repeatedName :=
        match used.get? custom with
        | some previous => [Issue.repeatedCustomName custom previous]
        | none => []
      (repeatedName ++ e.shadowing v custom).map finding
        ++ valueErrors e (used.insert custom v.name) rest

/-- If one value has a custom name, all have, and they tell the values apart. -/
def errors (e : Enum) : List Finding :=
  if e.hasCustomNames then e.valueErrors .empty e.values else []

end Enum

def report (index : Index) : Report :=
  { errors := index.problems ++ index.files.flatMap fun file =>
      (index.messagesIn file).flatMap (Message.errors index)
        ++ (index.enumsIn file).flatMap Enum.errors
    warnings := index.files.flatMap fun file =>
      (index.messagesIn file).flatMap Message.warnings }

end Index

end Wireform

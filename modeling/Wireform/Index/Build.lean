import Wireform.Index.Imports
import Wireform.Index.WireKeys

/-!
Building the index of a run from a descriptor set.

Imports and types that are missing do not stop the run; they are kept as problems, next to directives
that cannot be interpreted.
-/

set_option autoImplicit false

namespace Wireform.Index

inductive BuildError where
  | unknownTarget (file : String)
  | tooDeep (type : String) (limit : Nat)
deriving DecidableEq, Repr

def BuildError.message : BuildError → String
  | .unknownTarget file => "unknown target file '" ++ file ++ "'"
  | .tooDeep type limit =>
    "recursion limit " ++ toString limit ++ " exceeded while resolving " ++ type

def qualify (package name : String) : String :=
  if package.isEmpty then name else package ++ "." ++ name

def join (parent name : String) : String :=
  if parent.isEmpty then name else parent ++ "." ++ name

structure Declared (α : Type) where
  file : Schema.File
  localName : String
  depth : Nat
  declaration : α

def Declared.fullName {α : Type} (d : Declared α) : String := qualify d.file.package d.localName

def declaredMessages (file : Schema.File) (parent : String) (depth : Nat) :
    Schema.Message → List (Declared Schema.Message)
  | ⟨name, fields, nested, enums, oneofs, options⟩ =>
    let localName := join parent name
    ⟨file, localName, depth, ⟨name, fields, nested, enums, oneofs, options⟩⟩ ::
      nestedMessages localName nested
where
  nestedMessages (localName : String) : List Schema.Message → List (Declared Schema.Message)
    | [] => []
    | m :: rest =>
      declaredMessages file localName (depth + 1) m ++ nestedMessages localName rest

def messagesOf (file : Schema.File) : List (Declared Schema.Message) :=
  file.messages.flatMap (declaredMessages file "" 1)

def enumsOf (file : Schema.File) : List (Declared Schema.Enum) :=
  ((messagesOf file).flatMap fun d =>
    d.declaration.enums.map fun e => ⟨file, d.localName ++ "." ++ e.name, d.depth + 1, e⟩)
    ++ file.enums.map fun e => ⟨file, e.name, 1, e⟩

def definedNames (package parent : String) (enums : List Schema.Enum)
    (messages : List Schema.Message) : List String :=
  enums.map (fun e => qualify package (join parent e.name)) ++ ofMessages parent messages
where
  ofMessage (parent : String) : Schema.Message → List String
    | ⟨name, _, nested, enums, _, _⟩ =>
      let localName := join parent name
      qualify package localName ::
        (enums.map fun e => qualify package (join localName e.name)) ++ ofMessages localName nested
  ofMessages (parent : String) : List Schema.Message → List String
    | [] => []
    | m :: rest => ofMessage parent m ++ ofMessages parent rest

structure Declarations where
  messages : KeyMap (Declared Schema.Message)
  enums : KeyMap (Declared Schema.Enum)
  definedIn : KeyMap String

def declarations (set : Schema.FileSet) (files : List Schema.File) : Declarations :=
  { messages := KeyMap.ofList ((files.flatMap messagesOf).map fun d => (d.fullName, d))
    enums := KeyMap.ofList ((files.flatMap enumsOf).map fun d => (d.fullName, d))
    definedIn := KeyMap.ofList (set.files.flatMap fun file =>
      (definedNames file.package "" file.enums file.messages).map fun name => (name, file.name)) }

namespace Declarations

variable (all : Declarations)

def hasMessage (name : String) : Bool := all.messages.contains name || WellKnown.isMessage name

def unresolved (name : String) : Issue :=
  match all.definedIn.get? name with
  | some file => .unimportedType name file
  | none => .undefinedType name

end Declarations

def plainCardinality (field : Schema.Field) : Cardinality :=
  if field.label = .repeated then .repeated
  else if field.proto3Optional then .optional
  else .singular

abbrev Shape := Cardinality × ValueType

def mapShape (all : Declarations) (entry : Declared Schema.Message) : Except Issue Shape := do
  let defect (d : MapEntryDefect) : Issue := .badMapEntry entry.localName d
  let fields := entry.declaration.fields
  let key ←
    match (fields.find? (·.number == 1)).bind fun f => Scalar.ofKind? f.kind with
    | some key => pure key
    | none => throw (defect .noScalarKey)
  let value ←
    match fields.find? (·.number == 2) with
    | some value => pure value
    | none => throw (defect .noValue)
  let name := value.typeRef?.getD ""
  let type ←
    match value.kind with
    | .message | .group =>
      if all.hasMessage name then pure (.message name) else throw (all.unresolved name)
    | .enum =>
      if all.enums.contains name then pure (.enum name) else throw (all.unresolved name)
    | kind =>
      match Scalar.ofKind? kind with
      | some scalar => pure (.scalar scalar)
      | none => throw (defect .badValueType)
  return (.map key, type)

def shapeOf (all : Declarations) (field : Schema.Field) : Except Issue Shape :=
  let cardinality := plainCardinality field
  let name := field.typeRef?.getD ""
  match field.kind with
  | .message | .group =>
    match all.messages.get? name with
    | some target =>
      if field.label = .repeated ∧ target.declaration.isMapEntry = true then mapShape all target
      else .ok (cardinality, .message name)
    | none =>
      if WellKnown.isMessage name then .ok (cardinality, .message name)
      else .error (all.unresolved name)
  | .enum =>
    if all.enums.contains name || WellKnown.isEnum name then .ok (cardinality, .enum name)
    else .error (all.unresolved name)
  | kind =>
    match Scalar.ofKind? kind with
    | some scalar => .ok (cardinality, .scalar scalar)
    | none => .error (all.unresolved name)

def placeholder (field : Schema.Field) : Shape :=
  let name := field.typeRef?.getD ""
  (plainCardinality field,
    match field.kind with
    | .enum => .enum name
    | _ => .message name)

def resolveField (all : Declarations) (package : String) (message : Schema.Message)
    (field : Schema.Field) : Field × List Issue :=
  let shape := shapeOf all field
  let (annotations, malformed) := Annotations.ofField package field
  let (cardinality, type) :=
    match shape with
    | .ok shape => shape
    | .error _ => placeholder field
  let issue : List Issue :=
    match shape with
    | .ok _ => []
    | .error issue => [issue]
  ({ name := field.name
     jsonName := field.jsonName
     number := field.number
     cardinality, type
     oneof := (field.realOneof?.bind fun i => message.oneofs[i]?).map (·.name)
     annotations
     unresolved := !issue.isEmpty },
    issue ++ malformed.map .malformed)

/-- The oneofs that have members; the others only mark the presence of a field. -/
def realOneofs (message : Schema.Message) : List (Schema.Oneof × List String) :=
  message.oneofs.zipIdx.filterMap fun (oneof, i) =>
    let members := message.fields.filter fun f => f.realOneof? = some i
    if members.isEmpty then none else some (oneof, members.map (·.name))

def resolveMessage (all : Declarations) (package fullName : String)
    (d : Declared Schema.Message) : Message × List Finding :=
  let place (field : String) (issue : Issue) : Finding := ⟨d.file.name, fullName, field, issue⟩
  let fields := d.declaration.fields.map fun f => (resolveField all package d.declaration f)
  let oneofs := (realOneofs d.declaration).map fun (oneof, members) =>
    (oneof.name, members, OneofConfig.ofOneof package oneof)
  let problems :=
    (fields.flatMap fun (f, issues) => issues.map (place f.name))
      ++ oneofs.filterMap fun (name, _, config) =>
        (Raw.problem? .oneofConfig config).map fun m => place name (.malformed m)
  ({ fullName
     localName := d.localName
     file := d.file.name
     package := d.file.package
     fields := fields.map (·.1)
     oneofs := oneofs.map fun (name, members, config) =>
       ⟨name, members, Raw.valueOr none config⟩
     wellKnown := WellKnown.isMessage fullName },
    problems)

def resolveEnum (package fullName : String) (d : Declared Schema.Enum) : Enum × List Finding :=
  let values := d.declaration.values.map fun v => (v, customName package v)
  ({ fullName
     localName := d.localName
     file := d.file.name
     package := d.file.package
     values := values.map fun (v, custom) => ⟨v.name, v.number, Raw.valueOr none custom⟩
     wellKnown := WellKnown.isEnum fullName },
    values.filterMap fun (v, custom) =>
      (Raw.problem? .enumValue custom).map fun m =>
        ⟨d.file.name, fullName, v.name, .malformed m⟩)

def resolveFile (targeted : List String) (file : Schema.File) : File :=
  { name := file.name
    package := file.package
    goPackage := file.goPackage?
    dependencies := file.dependencies
    messages := ((messagesOf file).filter fun d => !d.declaration.isMapEntry).map (·.fullName)
    enums := (enumsOf file).map (·.fullName)
    targeted := targeted.contains file.name }

def rootsOf (set : Schema.FileSet) (targets : List String) : List String :=
  if targets.isEmpty then set.files.map (·.name) else targets

def build (set : Schema.FileSet) (targets : List String) (settings : Settings) :
    Except BuildError Index :=
  match targets.find? fun name => !(set.files.any (·.name == name)) with
  | some name => .error (.unknownTarget name)
  | none =>
    let roots := rootsOf set targets
    let reached := Imports.closure set roots
    let files := set.files.filter fun f => reached.contains f.name
    match (files.flatMap messagesOf).find? fun d => settings.maxDepth < d.depth with
    | some d => .error (.tooDeep d.fullName settings.maxDepth)
    | none =>
      let all := declarations set files
      let package := settings.extensionPackage
      let messages := (all.messages.entries.filter fun (_, d) => !d.declaration.isMapEntry).map
        fun (name, d) => resolveMessage all package name d
      let enums := all.enums.entries.map fun (name, d) => resolveEnum package name d
      .ok
        { files := files.map (resolveFile roots)
          messages := WellKnown.addTo WellKnown.message WellKnown.messages
            (KeyMap.ofList (messages.map fun (m, _) => (m.fullName, m)))
          enums := WellKnown.addTo WellKnown.enum WellKnown.enums
            (KeyMap.ofList (enums.map fun (e, _) => (e.fullName, e)))
          problems := Imports.problems set reached ++ messages.flatMap (·.2) ++ enums.flatMap (·.2)
          maxDepth := settings.maxDepth }

end Wireform.Index

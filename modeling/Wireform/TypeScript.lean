import Wireform.Index.WellKnown
import Wireform.Interface
import Wireform.ModulePath

set_option autoImplicit false

namespace Wireform.TypeScript

inductive Shape where
  | string
  | number
  | boolean
  | null
  | unknown
  | nothing
  | named (ident : String)
  | literals (texts : List String)
  | array (element : Shape)
  | record (value : Shape)
  | orNull (shape : Shape)
deriving DecidableEq, Repr, Inhabited

def literal (text : String) : String := "\"" ++ text ++ "\""

def union (texts : List String) : String := " | ".intercalate (texts.map literal)

namespace Shape

def text : Shape → String
  | .string => "string"
  | .number => "number"
  | .boolean => "boolean"
  | .null => "null"
  | .unknown => "unknown"
  | .nothing => "Record<string, never>"
  | .named ident => ident
  | .literals texts => union texts
  | .array element =>
    let inner := element.text
    if inner.toList.contains ' ' then "(" ++ inner ++ ")[]" else inner ++ "[]"
  | .record value => "Record<string, " ++ value.text ++ ">"
  | .orNull shape => shape.text ++ " | null"

end Shape

def scalarShape (asNumber : Bool) (scalar : Scalar) : Shape :=
  match scalar with
  | .bool => .boolean
  | .string | .bytes => .string
  | scalar => if scalar.is64Bit && !asNumber then .string else .number

def wellKnownShape? (name : String) : Option Shape :=
  let package := "google.protobuf.".toList
  let localName := String.ofList (Text.dropStarts package name.toList)
  if package.isPrefixOf name.toList then
    match localName with
    | "Duration" | "FieldMask" | "StringValue" | "BytesValue" | "Int64Value" | "UInt64Value" =>
      some .string
    | "DoubleValue" | "FloatValue" | "Int32Value" | "UInt32Value" => some .number
    | "BoolValue" => some .boolean
    | "Empty" => some .nothing
    | "Struct" | "Any" => some (.record .unknown)
    | "Value" => some .unknown
    | "ListValue" => some (.array .unknown)
    | _ => none
  else none

structure Context where
  index : Index
  plans : PlanSet
  file : Index.File

structure Import where
  path : String
  ident : String
deriving DecidableEq, Repr

namespace Context

variable (context : Context)

def declared? (fullName : String) : Option (String × String) :=
  match context.index.message? fullName with
  | some m => some (m.ident, m.file)
  | none => (context.index.enum? fullName).map fun e => (e.ident, e.file)

def named (fullName : String) : Shape :=
  match context.declared? fullName with
  | some (ident, _) => .named ident
  | none => .unknown

def elementReference? (member : Member) : Option String :=
  match member.field.type with
  | .scalar _ => none
  | .enum name =>
    if member.has .enumAsNumber || name == WellKnown.nullValue then none else some name
  | .message name =>
    if name == WellKnown.timestamp || (wellKnownShape? name).isSome then none else some name

def elementShape (member : Member) : Shape :=
  match member.field.type with
  | .scalar scalar => scalarShape (member.has .integerAsNumber) scalar
  | .enum name =>
    if member.has .enumAsNumber then .number
    else if name = WellKnown.nullValue then .null
    else context.named name
  | .message name =>
    if name = WellKnown.timestamp then
      let numeric := member.transforms.any fun
        | .timestampAs format => format.isNumeric
        | _ => false
      if numeric then .number else .string
    else (wellKnownShape? name).getD (context.named name)

def unwrapped? (member : Member) : Option Member :=
  if member.field.isMap then
    member.unwrappedKey?.bind (Interface.unwrappedList? context.index context.plans member)
  else none

def memberShape (member : Member) : Shape :=
  match context.unwrapped? member with
  | some inner => .record (.array (context.elementShape inner))
  | none =>
    let element := context.elementShape member
    if member.field.isMap then .record element
    else if member.field.isList then .array element
    else element

def memberReferences (member : Member) : List String :=
  (elementReference? member).toList
    ++ ((context.unwrapped? member).bind elementReference?).toList

def propertyShape (member : Member) : Shape :=
  member.transforms.foldl (fun shape transform =>
    match transform with
    | .nullable | .emptyValueAs .null => .orNull shape
    | _ => shape) (context.memberShape member)

def import? (fullName : String) : Option Import :=
  match context.declared? fullName with
  | none => none
  | some (ident, file) =>
    if file = context.file.name then none
    else
      some ⟨ModulePath.relative context.file.name (Index.stemOf file ++ ".wire"), ident⟩

end Context

structure Declared where
  key : String
  shape : Shape
  optional : Bool
deriving DecidableEq, Repr

namespace Declared

def isPlainKey (key : String) : Bool :=
  match key.toList with
  | [] => false
  | c :: rest =>
    (c.isAlpha || c == '_' || c == '$')
      && rest.all fun c => c.isAlphanum || c == '_' || c == '$'

def keyText (key : String) : String := if isPlainKey key then key else literal key

def line (d : Declared) : String :=
  "  " ++ keyText d.key ++ (if d.optional then "?" else "") ++ ": " ++ d.shape.text ++ ";\n"

end Declared

/-- Adds what a variant lifts: keys that are there already stay as they are, the others become
optional, as one variant is there at a time. -/
def addLifted (declared lifted : List Declared) : List Declared :=
  lifted.foldl (fun all d =>
    if all.any (·.key == d.key) then all else all ++ [{ d with optional := true }]) declared

def addProperty (context : Context) : List Declared → Property → List Declared
  | all, .discriminator key values => all ++ [⟨key, .literals values, true⟩]
  | all, .own key _ member =>
    all ++ [⟨key, context.propertyShape member, !member.has .nullable⟩]
  | all, .lifted properties => addLifted all (addAll [] properties)
where
  addAll : List Declared → List Property → List Declared
    | all, [] => all
    | all, property :: rest => addAll (addProperty context all property) rest

def propertyReferences (context : Context) : Property → List String
  | .discriminator _ _ => []
  | .own _ _ member => context.memberReferences member
  | .lifted properties => ofList properties
where
  ofList : List Property → List String
    | [] => []
    | property :: rest => propertyReferences context property ++ ofList rest

namespace Context

variable (context : Context)

def declaredProperties (properties : List Property) : List Declared :=
  properties.foldl (addProperty context) []

def messageText (m : Index.Message) : String :=
  match Interface.ofMessage context.index context.plans m with
  | .alias member =>
    "export type " ++ m.ident ++ " = " ++ (context.memberShape member).text ++ ";\n"
  | .object properties =>
    "export interface " ++ m.ident ++ " \x7b\n"
      ++ String.join ((context.declaredProperties properties).map Declared.line) ++ "\x7d\n"

def messageReferences (m : Index.Message) : List String :=
  match Interface.ofMessage context.index context.plans m with
  | .alias member => context.memberReferences member
  | .object properties => properties.flatMap (propertyReferences context)

def enumText (e : Index.Enum) : String :=
  "export type " ++ e.ident ++ " = " ++ union (e.values.map Index.EnumValue.wireName).eraseDups
    ++ ";\n"

def imports : List Import :=
  ((context.index.messagesIn context.file).flatMap fun m =>
    context.messageReferences m).filterMap context.import?

end Context

def sortedTexts (texts : List String) : List String :=
  (KeyMap.ofList (texts.map fun text => (text, ()))).keys

def importLines (imports : List Import) : List String :=
  (sortedTexts (imports.map (·.path))).map fun path =>
    let idents := sortedTexts ((imports.filter (·.path == path)).map (·.ident))
    "import type \x7b " ++ ", ".intercalate idents ++ " \x7d from \"" ++ path ++ "\";\n"

def text? (index : Index) (plans : PlanSet) (banner : String) (file : Index.File) : Option String :=
  if file.messages.isEmpty && file.enums.isEmpty then none
  else
    let context : Context := ⟨index, plans, file⟩
    let imports := importLines context.imports
    let declarations :=
      (index.enumsIn file).map Context.enumText ++ (index.messagesIn file).map context.messageText
    some ("// " ++ banner ++ "\n// source: " ++ file.name ++ "\n"
      ++ (if imports.isEmpty then "" else "\n") ++ String.join imports
      ++ String.join (declarations.map fun text => "\n" ++ text))

end Wireform.TypeScript

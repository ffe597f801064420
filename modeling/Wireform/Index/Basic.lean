import Wireform.Finding
import Wireform.KeyMap
import Wireform.Text.Split

set_option autoImplicit false

namespace Wireform

namespace Index

structure Field where
  name : String
  jsonName : String
  number : Int
  cardinality : Cardinality
  type : ValueType
  oneof : Option String
  annotations : Annotations
  unresolved : Bool

structure Oneof where
  name : String
  members : List String
  config : Option OneofConfig

structure Message where
  fullName : String
  localName : String
  file : String
  package : String
  fields : List Field
  oneofs : List Oneof
  wellKnown : Bool

structure EnumValue where
  name : String
  number : Int
  customName : Option String

structure Enum where
  fullName : String
  localName : String
  file : String
  package : String
  values : List EnumValue
  wellKnown : Bool

structure File where
  name : String
  package : String
  goPackage : Option String
  dependencies : List String
  messages : List String
  enums : List String
  targeted : Bool

namespace Field

def variantValue (f : Field) : String := f.annotations.oneofValue.getD f.name

def isList (f : Field) : Bool := f.cardinality.isList

def isMap (f : Field) : Bool := f.cardinality.isMap

def isSingular (f : Field) : Bool := f.cardinality.isSingular

def message? (f : Field) : Option String := f.type.message?

def enum? (f : Field) : Option String := f.type.enum?

def describe (f : Field) : String := f.cardinality.describe f.type

end Field

def identOf (localName : String) : String := Text.replaceChar '.' '_' localName

namespace Message

def field? (m : Message) (name : String) : Option Field := m.fields.find? (·.name == name)

def ident (m : Message) : String := identOf m.localName

def unwrapField? (m : Message) : Option Field := m.fields.find? (·.annotations.unwrap)

/-- The only field is unwrapped, so the message itself takes the form of that field. -/
def isRootUnwrap (m : Message) : Bool :=
  match m.fields with
  | [f] => f.annotations.unwrap
  | _ => false

def discriminated (m : Message) : List (Oneof × OneofConfig) :=
  m.oneofs.filterMap fun o => o.config.map fun config => (o, config)

def oneofMembers (m : Message) (o : Oneof) : List Field := o.members.filterMap m.field?

def groupOf? (m : Message) (f : Field) : Option (Oneof × OneofConfig) := do
  let name ← f.oneof
  m.discriminated.find? fun (o, _) => o.name == name

end Message

def EnumValue.wireName (v : EnumValue) : String := v.customName.getD v.name

namespace Enum

def hasCustomNames (e : Enum) : Bool := e.values.any (·.customName.isSome)

def ident (e : Enum) : String := identOf e.localName

end Enum

def sanitizePackage (text : String) : String :=
  String.ofList ((text.toList.filter fun c => c.isAlphanum || c == '_').map Char.toLower)

def stemOf (name : String) : String := (Text.dropEnding? ".proto" name).getD name

namespace File

def stem (f : File) : String := stemOf f.name

def goImportPath? (f : File) : Option String :=
  f.goPackage.map fun text =>
    match Text.cut? ';' text with
    | some (path, _) => path
    | none => text

def goPackageName (f : File) : String :=
  match f.goPackage with
  | some text =>
    match Text.cut? ';' text with
    | some (_, name) => name
    | none => sanitizePackage (Text.lastPiece '/' text)
  | none =>
    let last := Text.lastPiece '.' f.package
    if last.isEmpty then "wire" else sanitizePackage last

end File

end Index

structure Index where
  files : List Index.File
  messages : KeyMap Index.Message
  enums : KeyMap Index.Enum
  problems : List Finding
  maxDepth : Nat

namespace Index

def bareName (name : String) : String := String.ofList (name.toList.dropWhile (· == '.'))

def targets (index : Index) : List File := index.files.filter (·.targeted)

def file? (index : Index) (name : String) : Option File := index.files.find? (·.name == name)

def message? (index : Index) (name : String) : Option Message := index.messages.get? (bareName name)

def enum? (index : Index) (name : String) : Option Enum := index.enums.get? (bareName name)

def messagesIn (index : Index) (file : File) : List Message := file.messages.filterMap index.message?

def enumsIn (index : Index) (file : File) : List Enum := file.enums.filterMap index.enum?

/-- The name of a type in a document about a package: types of that package go by their local
name. -/
def componentName (index : Index) (package fullName : String) : String :=
  let place :=
    match index.message? fullName with
    | some m => some (m.package, m.localName)
    | none => (index.enum? fullName).map fun e => (e.package, e.localName)
  match place with
  | some (owner, localName) => if owner = package then localName else bareName fullName
  | none => bareName fullName

end Index

end Wireform

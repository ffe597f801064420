import Wireform.Json.Reader
import Wireform.Schema

set_option autoImplicit false

namespace Wireform.Schema

open Json (Reader ReadResult Origin Draft)
open Json.Reader

inductive Spelling where
  | byName (name : String)
  | byNumber (n : Int)

namespace Spelling

def text : Spelling → String
  | .byName name => "\"" ++ name ++ "\""
  | .byNumber n => toString n

def reader : Reader Spelling := fun allowance draft => do
  let value ← json allowance draft
  match value with
  | .str name => return .byName name
  | .num (.int n) =>
    if n < 0x8000000000000000 then return .byNumber n else .error (.mismatch .notNameOrNumber none)
  | _ => .error (.mismatch .notNameOrNumber none)

def find? {α : Type} (table : List (String × α)) : Spelling → Option α
  | .byName name => (table.find? fun entry => entry.1 = name).map (·.2)
  | .byNumber (.ofNat (n + 1)) => table[n]?.map (·.2)
  | .byNumber _ => none

end Spelling

def Label.reader : Reader Label := fun allowance draft => do
  let spelling ← Spelling.reader allowance draft
  match spelling.find? Label.all with
  | some label => return label
  | none => .error (.mismatch (.unknownLabel spelling.text) none)

def FieldKind.reader : Reader FieldKind := fun allowance draft => do
  let spelling ← Spelling.reader allowance draft
  match spelling.find? FieldKind.all with
  | some kind => return kind
  | none => .error (.mismatch (.unknownKind spelling.text) none)

def EnumValue.reader (origin : Origin) : Reader EnumValue :=
  Record.reader origin
    { name := "EnumValueDescriptor"
      default := default
      members := [
        member "name" string fun name v => { v with name },
        member "number" int32 fun number v => { v with number },
        member "options" (option keyMap) fun options v => { v with options }]
      strict := false }

def Enum.reader (origin : Origin) : Reader Enum :=
  Record.reader origin
    { name := "EnumDescriptor"
      default := default
      members := [
        member "name" string fun name e => { e with name },
        member "value" (list (EnumValue.reader origin)) fun values e => { e with values },
        member "options" (option keyMap) fun options e => { e with options }]
      strict := false }

def Oneof.reader (origin : Origin) : Reader Oneof :=
  Record.reader origin
    { name := "OneofDescriptor"
      default := default
      members := [
        member "name" string fun name o => { o with name },
        member "options" (option keyMap) fun options o => { o with options }]
      strict := false }

def Field.reader (origin : Origin) : Reader Field :=
  Record.reader origin
    { name := "FieldDescriptor"
      default := default
      members := [
        member "name" string fun name f => { f with name },
        member "number" int32 fun number f => { f with number },
        member "label" Label.reader fun label f => { f with label },
        requiredMember "type" FieldKind.reader fun kind f => { f with kind },
        member "typeName" (option string) fun typeName f => { f with typeName },
        member "jsonName" (option string) fun givenJsonName f => { f with givenJsonName },
        member "proto3Optional" bool fun proto3Optional f => { f with proto3Optional },
        member "oneofIndex" (option int32) fun oneofIndex f => { f with oneofIndex },
        member "options" (option keyMap) fun options f => { f with options }]
      strict := false }

def Message.record (origin : Origin) (nested : Reader Message) : Record Message :=
  { name := "MessageDescriptor"
    default := default
    members := [
      member "name" string fun name m => { m with name },
      member "field" (list (Field.reader origin)) fun fields m => { m with fields },
      member "nestedType" (list nested) fun nested m => { m with nested },
      member "enumType" (list (Enum.reader origin)) fun enums m => { m with enums },
      member "oneofDecl" (list (Oneof.reader origin)) fun oneofs m => { m with oneofs },
      member "options" (option keyMap) fun options m => { m with options }]
    strict := false }

def Message.readerWithin (origin : Origin) : Nat → Reader Message
  | 0 => fun _ draft => .error (.fault (Draft.tooDeep draft.span))
  | levels + 1 => (Message.record origin (readerWithin origin levels)).reader origin

-- A message uses up part of the allowance, so the allowance bounds the levels too.
def Message.reader (origin : Origin) : Reader Message := fun allowance =>
  Message.readerWithin origin (allowance + 1) allowance

def File.reader (origin : Origin) : Reader File :=
  Record.reader origin
    { name := "FileDescriptor"
      default := default
      members := [
        member "name" string fun name f => { f with name },
        member "package" string fun package f => { f with package },
        member "dependency" (list string) fun dependencies f => { f with dependencies },
        member "messageType" (list (Message.reader origin)) fun messages f => { f with messages },
        member "enumType" (list (Enum.reader origin)) fun enums f => { f with enums },
        member "options" (option keyMap) fun options f => { f with options },
        member "syntax" (option string) fun syntaxName f => { f with syntaxName }]
      strict := false }

def FileSet.reader (origin : Origin) : Reader FileSet :=
  Record.reader origin
    { name := "FileDescriptorSet"
      default := default
      members := [member "file" (list (File.reader origin)) fun files s => { s with files }]
      strict := false }

def FileSet.parse (text : String) : ReadResult FileSet :=
  readText (FileSet.reader .text) text

def FileSet.ofJson (value : Json) : ReadResult FileSet :=
  readJson (FileSet.reader .value) value

end Wireform.Schema

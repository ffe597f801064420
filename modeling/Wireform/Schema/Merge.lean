import Wireform.Schema

set_option autoImplicit false

namespace Wireform.Schema

namespace Options

def same : Entries Json → Entries Json → Bool
  | [], [] => true
  | (k, v) :: as, (l, w) :: bs => k == l && v.same w && same as bs
  | _, _ => false

def sameOption : Option Options → Option Options → Bool
  | none, none => true
  | some a, some b => same a.entries b.entries
  | _, _ => false

end Options

def sameList {α : Type} (same : α → α → Bool) : List α → List α → Bool
  | [], [] => true
  | a :: as, b :: bs => same a b && sameList same as bs
  | _, _ => false

def EnumValue.same (a b : EnumValue) : Bool :=
  a.name == b.name && a.number == b.number && Options.sameOption a.options b.options

def Enum.same (a b : Enum) : Bool :=
  a.name == b.name && sameList EnumValue.same a.values b.values &&
    Options.sameOption a.options b.options

def Oneof.same (a b : Oneof) : Bool :=
  a.name == b.name && Options.sameOption a.options b.options

def Field.same (a b : Field) : Bool :=
  a.name == b.name && a.number == b.number && a.label == b.label && a.kind == b.kind &&
    a.typeName == b.typeName && a.givenJsonName == b.givenJsonName &&
    a.proto3Optional == b.proto3Optional && a.oneofIndex == b.oneofIndex &&
    Options.sameOption a.options b.options

def Message.same : Message → Message → Bool
  | ⟨name, fields, nested, enums, oneofs, options⟩, b =>
    name == b.name && sameList Field.same fields b.fields && sameNested nested b.nested &&
      sameList Enum.same enums b.enums && sameList Oneof.same oneofs b.oneofs &&
      Options.sameOption options b.options
where
  sameNested : List Message → List Message → Bool
    | [], [] => true
    | a :: as, b :: bs => same a b && sameNested as bs
    | _, _ => false

/-- Whether two files are equal; the order of keys inside option values does not count. -/
def File.same (a b : File) : Bool :=
  a.name == b.name && a.package == b.package && a.dependencies == b.dependencies &&
    sameList Message.same a.messages b.messages && sameList Enum.same a.enums b.enums &&
    Options.sameOption a.options b.options && a.syntaxName == b.syntaxName

namespace FileSet

structure Merged where
  set : FileSet
  clash : Option String

/-- Adds files in order; those after a clash are left out. -/
def addFiles (set : FileSet) : List File → Merged
  | [] => ⟨set, none⟩
  | file :: rest =>
    match set.files.find? (·.name == file.name) with
    | none => addFiles ⟨set.files ++ [file]⟩ rest
    | some present => if present.same file then addFiles set rest else ⟨set, some file.name⟩

def merge (set other : FileSet) : Merged := addFiles set other.files

end FileSet

end Wireform.Schema

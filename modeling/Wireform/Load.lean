import Wireform.Files
import Wireform.Schema.Merge
import Wireform.Schema.Reader

set_option autoImplicit false

namespace Wireform

inductive LoadError where
  | notFound (path : String)
  | unreadable (path reason : String)
  | noDescriptors (path : String)
  | invalid (source : String) (error : Json.ReadError)
  | duplicate (file : String)

namespace LoadError

def message : LoadError → String
  | .notFound path => "file not found: " ++ path
  | .unreadable path reason => "cannot read " ++ path ++ ": " ++ reason
  | .noDescriptors path => "no descriptor files found under " ++ path
  | .invalid source error => "invalid descriptor JSON: " ++ error.message source
  | .duplicate file => "duplicate descriptor file '" ++ file ++ "' with different contents"

def exitCode : LoadError → Nat
  | .notFound _ | .unreadable _ _ | .noDescriptors _ => 3
  | .invalid _ _ | .duplicate _ => 2

end LoadError

namespace Load

def text (path : String) (bytes : ByteArray) : Except LoadError String :=
  match String.fromUTF8? bytes with
  | some text => .ok text
  | none => .error (.unreadable path "stream did not contain valid UTF-8")

def setOfFile (path : String) (bytes : ByteArray) : Except LoadError Schema.FileSet := do
  let source ← text path bytes
  (Schema.FileSet.parse source).mapError (.invalid source)

/-- Whether a file is taken for a descriptor set by its name, which an ending alone does not make. -/
def isDescriptor (path : String) : Bool :=
  match Text.dropEnding? ".json" (Text.lastPiece '/' path) with
  | some stem => !stem.isEmpty
  | none => false

def addFile (merged : Schema.FileSet) (file : String × ByteArray) :
    Except LoadError Schema.FileSet := do
  match merged.merge (← setOfFile file.1 file.2) with
  | ⟨set, none⟩ => return set
  | ⟨_, some name⟩ => throw (.duplicate name)

def descriptors (path : String) : Option Node → Except LoadError Schema.FileSet
  | none => .error (.notFound path)
  | some (.file bytes) => setOfFile path bytes
  | some (.folder entries) =>
    match (Node.files path (.folder entries)).filter fun file => isDescriptor file.1 with
    | [] => .error (.noDescriptors path)
    | files => files.foldlM addFile ⟨[]⟩

def document (path : String) : Option Node → Except LoadError Json
  | none => .error (.notFound path)
  | some (.folder _) => .error (.unreadable path Refusal.isFolder.text)
  | some (.file bytes) => do
    let source ← text path bytes
    (Json.parse source).mapError fun fault => .invalid source (.fault fault)

end Load

end Wireform

import Wireform.Index.WellKnown
import Wireform.Reach

set_option autoImplicit false

namespace Wireform.Imports

/-- The file of a name: of several with one name, the last. -/
def fileOf? (set : Schema.FileSet) (name : String) : Option Schema.File :=
  (set.files.filter (·.name == name)).getLast?

def fileNames (set : Schema.FileSet) : List String := (set.files.map (·.name)).eraseDups

def known (set : Schema.FileSet) (name : String) : List String :=
  match fileOf? set name with
  | none => []
  | some file => file.dependencies.filter (fileNames set).contains

def missing (set : Schema.FileSet) (name : String) : List String :=
  match fileOf? set name with
  | none => []
  | some file =>
    file.dependencies.filter fun path => !(fileNames set).contains path && !WellKnown.isFile path

def closure (set : Schema.FileSet) (roots : List String) : List String :=
  Reach.depthFirst (known set) (fileNames set) roots

def problems (set : Schema.FileSet) (reached : List String) : List Finding :=
  reached.flatMap fun name =>
    (missing set name).reverse.map fun path => ⟨name, "", "", .missingImport path⟩

end Wireform.Imports

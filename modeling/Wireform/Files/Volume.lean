import Wireform.Files

set_option autoImplicit false

namespace Wireform

abbrev Place := List String

structure Volume where
  root : Node
  home : Place

namespace Volume

/-- A folder within another of which nothing is known. It has no name there, so that the way out of it
does not lead back. -/
def ofEntries (entries : List (String × Node)) : Volume :=
  ⟨.folder [("", .folder entries)], [""]⟩

def longestName : Nat := 255

def longestPath : Nat := 4095

def formFault? (path : String) : Option Refusal :=
  if path.toList.contains '\x00' then some .zeroByte
  else if longestPath < path.utf8ByteSize then some .nameTooLong
  else if path.isEmpty then some .missing
  else none

/-- Where a name leads from a place, which has to be a folder whatever the name is. A point stays and two
points go up, at the root nowhere. -/
def step (volume : Volume) (place : Place) (name : String) : Except Refusal Place :=
  match volume.root.at? place with
  | none => .error .missing
  | some (.file _) => .error .notFolder
  | some (.folder entries) =>
    if name = "" ∨ name = "." then .ok place
    else if name = ".." then .ok place.dropLast
    else if longestName < name.utf8ByteSize then .error .nameTooLong
    else if entries.any (·.1 == name) then .ok (place ++ [name])
    else .error .missing

def start (volume : Volume) (path : String) : Place :=
  if Text.startsWith "/" path then [] else volume.home

def resolve (volume : Volume) (path : String) : Except Refusal Place :=
  match formFault? path with
  | some refusal => .error refusal
  | none => (Text.split '/' path).foldlM volume.step (volume.start path)

def approach (volume : Volume) (path : String) : Except Refusal (Place × String) :=
  match formFault? path with
  | some refusal => .error refusal
  | none =>
    match (Text.split '/' path).reverse.dropWhile (·.isEmpty) with
    | [] => .ok ([], "")
    | name :: before =>
      (before.reverse.foldlM volume.step (volume.start path)).map fun place => (place, name)

def find? (volume : Volume) (path : String) : Option Node :=
  match volume.resolve path with
  | .ok place => volume.root.at? place
  | .error _ => none

def isFolder (volume : Volume) (path : String) : Bool :=
  match volume.find? path with
  | some (.folder _) => true
  | _ => false

def put (volume : Volume) (place : Place) (node : Node) : Volume :=
  { volume with root := volume.root.put node place }

def makeFolder (volume : Volume) (path : String) : Except Refusal Volume := do
  let (place, name) ← volume.approach path
  match volume.step place name with
  | .ok _ => throw .fileExists
  | .error .missing => return volume.put (place ++ [name]) (.folder [])
  | .error refusal => throw refusal

def makeEach (volume : Volume) : List String → Except Refusal Volume
  | [] => .ok volume
  | path :: outer =>
    let settled (volume : Volume) (refusal : Refusal) : Except Refusal Volume :=
      if volume.isFolder path then .ok volume else .error refusal
    match volume.makeFolder path with
    | .ok made => .ok made
    | .error .missing => do
      let volume ← volume.makeEach outer
      match volume.makeFolder path with
      | .ok made => .ok made
      | .error refusal => settled volume refusal
    | .error refusal => settled volume refusal

def makeFolders (volume : Volume) (path : String) : Except Refusal Volume :=
  volume.makeEach (Path.wayTo path)

def write (volume : Volume) (path : String) (bytes : ByteArray) : Except Refusal Volume := do
  let (place, name) ← volume.approach path
  match volume.step place name with
  | .ok there =>
    match volume.root.at? there with
    | some (.folder _) => throw .isFolder
    | _ => return volume.put there (.file bytes)
  | .error .missing => return volume.put (place ++ [name]) (.file bytes)
  | .error refusal => throw refusal

end Volume

end Wireform

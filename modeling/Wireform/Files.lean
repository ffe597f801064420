import Wireform.Text.Split

set_option autoImplicit false

namespace Wireform

inductive Node where
  | file (bytes : ByteArray)
  | folder (entries : List (String × Node))

namespace Path

def join (folder path : String) : String :=
  if Text.startsWith "/" path || folder.isEmpty then path
  else if (Text.dropEnding? "/" folder).isSome then folder ++ path
  else folder ++ "/" ++ path

def parent? (path : String) : Option String :=
  if path.toList.all (· == '/') then none
  else
    match (Text.split '/' path).dropLast with
    | [] => some ""
    | first :: rest =>
      let kept := (rest.reverse.dropWhile fun name => name == "" || name == ".").reverse
      some (if first = "" ∧ kept.isEmpty then "/" else "/".intercalate (first :: kept))

def wayTo (folder : String) : List String := back (Text.split '/' folder).length folder
where
  back : Nat → String → List String
    | 0, _ => []
    | names + 1, path =>
      match parent? path with
      | none => []
      | some outer => path :: back names outer

end Path

inductive Refusal where
  | missing
  | fileExists
  | notFolder
  | isFolder
  | nameTooLong
  | zeroByte
deriving DecidableEq, Repr

namespace Refusal

def code? : Refusal → Option Nat
  | .missing => some 2
  | .fileExists => some 17
  | .notFolder => some 20
  | .isFolder => some 21
  | .nameTooLong => some 36
  | .zeroByte => none

def ofCode? (code : Nat) : Option Refusal :=
  [missing, fileExists, notFolder, isFolder, nameTooLong].find? (·.code? == some code)

def meaning : Refusal → String
  | .missing => "No such file or directory"
  | .fileExists => "File exists"
  | .notFolder => "Not a directory"
  | .isFolder => "Is a directory"
  | .nameTooLong => "File name too long"
  | .zeroByte => "file name contained an unexpected NUL byte"

def text (refusal : Refusal) : String :=
  match refusal.code? with
  | some code => refusal.meaning ++ " (os error " ++ toString code ++ ")"
  | none => refusal.meaning

end Refusal

namespace Node

def entry? (node : Node) (name : String) : Option Node :=
  match node with
  | .file _ => none
  | .folder entries => (entries.find? (·.1 == name)).map (·.2)

def at? (node : Node) : List String → Option Node
  | [] => some node
  | name :: rest => (node.entry? name).bind (·.at? rest)

def withEntry (node : Node) (name : String) (value : Node) : Node :=
  match node with
  | .file bytes => .file bytes
  | .folder entries =>
    if entries.any (·.1 == name) then
      .folder (entries.map fun entry => if entry.1 = name then (name, value) else entry)
    else .folder (entries ++ [(name, value)])

def put (node value : Node) : List String → Node
  | [] => value
  | [name] => node.withEntry name value
  | name :: rest =>
    match node.entry? name with
    | some inner => node.withEntry name (inner.put value rest)
    | none => node

def files (path : String) : Node → List (String × ByteArray)
  | .file bytes => [(path, bytes)]
  | .folder entries =>
    ((below path entries).mergeSort fun a b => a.1 ≤ b.1).flatMap (·.2)
where
  below (path : String) : List (String × Node) → List (String × List (String × ByteArray))
    | [] => []
    | (name, node) :: rest => (name, files (Path.join path name) node) :: below path rest

end Node

end Wireform

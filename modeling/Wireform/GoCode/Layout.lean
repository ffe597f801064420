import Wireform.Text.Blank
import Wireform.Text.Split

set_option autoImplicit false

namespace Wireform.GoCode

def braces (head : String) (body : List String) : List String :=
  (head ++ " \x7b") :: body ++ ["\x7d"]

def block (texts : List String) : List String := texts.flatMap (Text.split '\n')

/-- A Go string: backslashes and quotes are escaped, and nothing else. -/
def quote (text : String) : String :=
  "\"" ++ String.ofList (text.toList.flatMap fun c =>
    if c = '\\' then ['\\', '\\'] else if c = '"' then ['\\', '"'] else [c]) ++ "\""

structure Layout where
  depth : Nat
  text : String

namespace Layout

def opens (line : String) : Bool :=
  match line.toList.getLast? with
  | some c => c == '\x7b' || c == '('
  | none => false

def closes (line : String) : Bool :=
  match line.toList.head? with
  | some c => c == '\x7d' || c == ')'
  | none => false

def isLabel (line : String) : Bool := Text.startsWith "case " line || line == "default:"

def add (l : Layout) (source : String) : Layout :=
  let line := Text.trim source
  if line.isEmpty then { l with text := l.text ++ "\n" }
  else
    let depth := if closes line then l.depth - 1 else l.depth
    let shown := if isLabel line then depth - 1 else depth
    { depth := if opens line then depth + 1 else depth
      text := l.text ++ String.ofList (List.replicate shown '\t') ++ line ++ "\n" }

def ofLines (depth : Nat) (lines : List String) : Layout := lines.foldl add ⟨depth, ""⟩

end Layout

end Wireform.GoCode

import Wireform.Json
import Wireform.Binary64.Shortest

set_option autoImplicit false

namespace Wireform

def Number.text : Number → String
  | .int n => toString n
  | .float x => x.text .json

namespace Json

def hexDigit (n : Nat) : Char := (Nat.toDigits 16 (n % 16)).headD '0'

def escapeChar (c : Char) : List Char :=
  if c = '"' then ['\\', '"']
  else if c = '\\' then ['\\', '\\']
  else if c = '\x08' then ['\\', 'b']
  else if c = '\t' then ['\\', 't']
  else if c = '\n' then ['\\', 'n']
  else if c = '\x0c' then ['\\', 'f']
  else if c = '\r' then ['\\', 'r']
  else if c.toNat < 32 then ['\\', 'u', '0', '0', hexDigit (c.toNat / 16), hexDigit c.toNat]
  else [c]

def quote (s : String) : String :=
  "\"" ++ String.ofList (s.toList.flatMap escapeChar) ++ "\""

def compact : Json → String
  | .null => "null"
  | .bool b => if b then "true" else "false"
  | .num n => n.text
  | .str s => quote s
  | .arr items => "[" ++ ",".intercalate (itemTexts items) ++ "]"
  | .obj entries => "\x7b" ++ ",".intercalate (memberTexts entries) ++ "\x7d"
where
  itemTexts : List Json → List String
    | [] => []
    | item :: rest => compact item :: itemTexts rest
  memberTexts : List (String × Json) → List String
    | [] => []
    | (k, v) :: rest => (quote k ++ ":" ++ compact v) :: memberTexts rest

def indent (level : Nat) : String := String.ofList (List.replicate (2 * level) ' ')

def bracketed (level : Nat) (opening closing : String) (members : List String) : String :=
  if members.isEmpty then opening ++ closing
  else
    let lines := members.map (indent (level + 1) ++ ·)
    opening ++ "\n" ++ ",\n".intercalate lines ++ "\n" ++ indent level ++ closing

def pretty (value : Json) : String := lines 0 value
where
  lines (level : Nat) : Json → String
    | .arr items => bracketed level "[" "]" (itemLines (level + 1) items)
    | .obj entries => bracketed level "\x7b" "\x7d" (memberLines (level + 1) entries)
    | .null => "null"
    | .bool b => if b then "true" else "false"
    | .num n => n.text
    | .str s => quote s
  itemLines (level : Nat) : List Json → List String
    | [] => []
    | item :: rest => lines level item :: itemLines level rest
  memberLines (level : Nat) : List (String × Json) → List String
    | [] => []
    | (k, v) :: rest => (quote k ++ ": " ++ lines level v) :: memberLines level rest

end Json

end Wireform

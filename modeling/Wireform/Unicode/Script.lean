import Wireform.Unicode.ScriptTable
import Wireform.Unicode.Table

set_option autoImplicit false

namespace Wireform.Unicode

structure Script where
  code : String
  name : String
deriving DecidableEq, Repr, Inhabited

namespace Script

def all : List Script :=
  (entries scriptNameLines).map fun entry =>
    ⟨String.ofList (entry.takeWhile (· != '=')), String.ofList ((entry.dropWhile (· != '=')).drop 1)⟩

def otherCode? : Script → Option String
  | ⟨"Copt", _⟩ => some "Qaac"
  | ⟨"Zinh", _⟩ => some "Qaai"
  | _ => none

def table : Runs String := runs some scriptLines

def extensions : Runs (Nat × List String) :=
  ((entries scriptExtensionLines).map fun entry =>
    let (first, last) := range (entry.takeWhile (· != ':'))
    let codes := (Text.pieces ',' ((entry.dropWhile (· != ':')).drop 1)).map String.ofList
    (first, last, codes)).toArray

def holds (s : Script) (c : Char) : Bool := table.at? c.toNat == some s.code

def isUsedWith (s : Script) (c : Char) : Bool :=
  match extensions.at? c.toNat with
  | some (last, codes) => if c.toNat ≤ last then codes.contains s.code else s.holds c
  | none => s.holds c

end Script

end Wireform.Unicode

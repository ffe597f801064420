set_option autoImplicit false

namespace Wireform.Text

def pieces (mark : Char) : List Char → List (List Char)
  | [] => [[]]
  | c :: rest =>
    if c = mark then [] :: pieces mark rest
    else
      match pieces mark rest with
      | [] => [[c]]
      | piece :: others => (c :: piece) :: others

def split (mark : Char) (text : String) : List String :=
  (pieces mark text.toList).map String.ofList

def cut? (mark : Char) (text : String) : Option (String × String) :=
  let cs := text.toList
  match cs.dropWhile (· != mark) with
  | [] => none
  | _ :: rest => some (String.ofList (cs.takeWhile (· != mark)), String.ofList rest)

def lastPiece (mark : Char) (text : String) : String :=
  ((split mark text).getLast?).getD ""

def startsWith (start text : String) : Bool := start.toList.isPrefixOf text.toList

def dropEnding? (ending text : String) : Option String :=
  let cs := text.toList
  let es := ending.toList
  if es.isSuffixOf cs then some (String.ofList (cs.take (cs.length - es.length))) else none

def replaceChar (old new : Char) (text : String) : String :=
  String.ofList (text.toList.map fun c => if c = old then new else c)

def dropStarts (start : List Char) (cs : List Char) : List Char :=
  if 0 < start.length ∧ start.isPrefixOf cs then dropStarts start (cs.drop start.length) else cs
termination_by cs.length
decreasing_by
  rename_i h
  have fits := (List.isPrefixOf_iff_prefix.mp h.2).length_le
  simp only [List.length_drop]
  omega

end Wireform.Text

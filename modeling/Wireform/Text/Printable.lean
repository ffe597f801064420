import Wireform.Unicode.Property

set_option autoImplicit false

namespace Wireform.Text

open Unicode

/-- Controls, format characters, blanks other than the space, unassigned code points, marks that join the
character before them, and fillers. -/
def isHidden (c : Char) : Bool :=
  if c.toNat < 128 then c.toNat < 32 || c.toNat == 127
  else
    match Category.of c with
    | .control | .format | .surrogate | .privateUse | .unassigned => true
    | .spaceSeparator | .lineSeparator | .paragraphSeparator => true
    | .nonspacingMark | .enclosingMark => true
    | .spacingMark => Property.graphemeExtend.holds c
    | _ => Property.defaultIgnorableCodePoint.holds c

def codePoint (c : Char) : List Char :=
  ['\\', 'u', '\x7b'] ++ Nat.toDigits 16 c.toNat ++ ['\x7d']

def shown (quote : Char) (c : Char) : List Char :=
  if c = '\x00' then ['\\', '0']
  else if c = '\t' then ['\\', 't']
  else if c = '\n' then ['\\', 'n']
  else if c = '\r' then ['\\', 'r']
  else if c = '\\' then ['\\', '\\']
  else if c = quote then ['\\', c]
  else if isHidden c then codePoint c
  else [c]

def shownString (s : String) : String :=
  String.ofList (['"'] ++ s.toList.flatMap (shown '"') ++ ['"'])

def shownChar (c : Char) : String :=
  String.ofList (['\''] ++ shown '\'' c ++ ['\''])

end Wireform.Text

import Wireform.Integer
import Wireform.Pattern.Brackets

set_option autoImplicit false

namespace Wireform.Escape

def hexValue? (c : Char) : Option Nat :=
  if c.isDigit then some (c.toNat - '0'.toNat)
  else if 'a' ≤ c ∧ c ≤ 'f' then some (c.toNat - 'a'.toNat + 10)
  else if 'A' ≤ c ∧ c ≤ 'F' then some (c.toNat - 'A'.toNat + 10)
  else none

def isHexDigit (c : Char) : Bool := (hexValue? c).isSome

def ofCode? (digits : List Char) : Option Char :=
  let n := digits.foldl (fun n c => n * 16 + (hexValue? c).getD 0) 0
  if n < 0xD800 ∨ (0xDFFF < n ∧ n < 0x110000) then some (Char.ofNat n) else none

def code? (count : Nat) (cs : List Char) : Option (Char × List Char) :=
  let digits := cs.take count
  if digits.length = count ∧ digits.all isHexDigit then
    (ofCode? digits).map fun c => (c, cs.drop count)
  else
    match cs with
    | '\x7b' :: rest =>
      let digits := rest.takeWhile isHexDigit
      match rest.dropWhile isHexDigit with
      | '\x7d' :: behind =>
        if digits.isEmpty ∨ 8 < digits.length then none
        else (ofCode? digits).map fun c => (c, behind)
      | _ => none
    | _ => none

def digitsOf? : Char → Option Nat
  | 'x' => some 2
  | 'u' => some 4
  | 'U' => some 8
  | _ => none

def cut? (mark name : List Char) : Option (List Char × List Char) :=
  match name with
  | [] => none
  | c :: rest =>
    if mark.isPrefixOf name then some ([], name.drop mark.length)
    else (cut? mark rest).map fun (before, behind) => (c :: before, behind)

def property? (name : List Char) : Option CharSet :=
  let value (parts : List Char × List Char) : Option CharSet :=
    (Unicode.Query.ofValue? (String.ofList parts.1) (String.ofList parts.2)).map .unicode
  match cut? ['!', '='] name, cut? [':'] name, cut? ['='] name with
  | some parts, _, _ => (value parts).map .outside
  | none, some parts, _ => value parts
  | none, none, some parts => value parts
  | none, none, none => (Unicode.Query.ofName? (String.ofList name)).map .unicode

def propertyName? (cs : List Char) : Option (List Char × List Char) :=
  match cs with
  | [] => none
  | '\x7b' :: rest =>
    match rest.dropWhile (· != '\x7d') with
    | [] => none
    | _ :: behind => some (rest.takeWhile (· != '\x7d'), behind)
  | c :: rest => some ([c], rest)

def control? : Char → Option Char
  | 'a' => some '\x07'
  | 'f' => some '\x0c'
  | 'n' => some '\n'
  | 'r' => some '\r'
  | 't' => some '\t'
  | 'v' => some '\x0b'
  | _ => none

def shorthand? : Char → Option CharSet
  | 'd' => some .digits
  | 'D' => some (.outside .digits)
  | 's' => some .blanks
  | 'S' => some (.outside .blanks)
  | 'w' => some .word
  | 'W' => some (.outside .word)
  | _ => none

end Wireform.Escape

set_option autoImplicit false

namespace Wireform.Integer

def inRange (unsigned : Bool) (n : Int) : Bool :=
  if unsigned then 0 ≤ n && n < 0x10000000000000000 else -0x8000000000000000 ≤ n && n < 0x8000000000000000

def magnitude (digits : List Char) : Nat :=
  digits.foldl (fun sum c => sum * 10 + (c.toNat - '0'.toNat)) 0

def ofDigits? (digits : List Char) : Option Nat :=
  if digits.isEmpty || !digits.all Char.isDigit then none else some (magnitude digits)

def parse (unsigned : Bool) (text : String) : Option Int := do
  let n : Int ←
    match text.toList with
    | '+' :: rest => (ofDigits? rest).map Int.ofNat
    | '-' :: rest => if unsigned then none else (ofDigits? rest).map fun n => -(n : Int)
    | digits => (ofDigits? digits).map Int.ofNat
  if inRange unsigned n then some n else none

end Wireform.Integer

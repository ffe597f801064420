import Wireform.Binary64
import Wireform.Entries

set_option autoImplicit false

namespace Wireform

/-- An integer that a signed or unsigned 64-bit word holds, or a floating-point number. -/
inductive Number where
  | int (n : Int)
  | float (x : Binary64)
deriving DecidableEq, Repr, Inhabited

inductive Json where
  | null
  | bool (value : Bool)
  | num (number : Number)
  | str (text : String)
  | arr (items : List Json)
  | obj (entries : List (String × Json))
deriving Repr, Inhabited

namespace Number

def maxUnsigned : Nat := 0xffffffffffffffff

def same : Number → Number → Bool
  | .int a, .int b => decide (a = b)
  | .float x, .float y => x.sameValue y
  | _, _ => false

def equal : Number → Number → Bool
  | .int a, .int b => decide (a = b)
  | .int a, .float y => y.isInt a
  | .float x, .int b => x.isInt b
  | .float x, .float y => x.sameValue y

def isIntegral : Number → Bool
  | .int _ => true
  | .float x => x.isIntegral

def toNat? : Number → Option Nat
  | .int (.ofNat n) => some n
  | _ => none

def toSigned? : Number → Option Int
  | .int n => if n < 0x8000000000000000 then some n else none
  | .float _ => none

end Number

namespace Json

def kindName : Json → String
  | .null => "null"
  | .bool _ => "boolean"
  | .num _ => "number"
  | .str _ => "string"
  | .arr _ => "array"
  | .obj _ => "object"

def isNull : Json → Bool
  | .null => true
  | _ => false

def str? : Json → Option String
  | .str s => some s
  | _ => none

def bool? : Json → Option Bool
  | .bool b => some b
  | _ => none

def arr? : Json → Option (List Json)
  | .arr items => some items
  | _ => none

def obj? : Json → Option (Entries Json)
  | .obj entries => some entries
  | _ => none

def get? (value : Json) (key : String) : Option Json :=
  match value with
  | .obj entries => Entries.get? entries key
  | _ => none

def int (n : Int) : Json := .num (.int n)

def nat (n : Nat) : Json := .num (.int n)

def strings (texts : List String) : Json := .arr (texts.map .str)

def depth : Json → Nat
  | .arr items => 1 + depthOfItems items
  | .obj entries => 1 + depthOfMembers entries
  | _ => 1
where
  depthOfItems : List Json → Nat
    | [] => 0
    | item :: rest => max (depth item) (depthOfItems rest)
  depthOfMembers : List (String × Json) → Nat
    | [] => 0
    | (_, value) :: rest => max (depth value) (depthOfMembers rest)

/-- Equality of two documents. The members of the two objects agree when they have the same number of keys and every key of
the first has an equal value in the second, so that the order of keys does not count. -/
def same : Json → Json → Bool
  | .null, .null => true
  | .bool a, .bool b => a == b
  | .num a, .num b => a.same b
  | .str a, .str b => a == b
  | .arr as, .arr bs => items as bs
  | .obj as, .obj bs => as.length == bs.length && members as bs
  | _, _ => false
where
  items : List Json → List Json → Bool
    | [], [] => true
    | a :: as, b :: bs => same a b && items as bs
    | _, _ => false
  members : List (String × Json) → List (String × Json) → Bool
    | [], _ => true
    | (k, a) :: as, bs =>
      (match Entries.get? bs k with
        | some b => same a b
        | none => false) && members as bs

def equal : Json → Json → Bool
  | .null, .null => true
  | .bool a, .bool b => a == b
  | .num a, .num b => a.equal b
  | .str a, .str b => a == b
  | .arr as, .arr bs => items as bs
  | .obj as, .obj bs => members as bs
  | _, _ => false
where
  items : List Json → List Json → Bool
    | [], [] => true
    | a :: as, b :: bs => equal a b && items as bs
    | _, _ => false
  members : List (String × Json) → List (String × Json) → Bool
    | [], [] => true
    | (k, a) :: as, (l, b) :: bs => k == l && equal a b && members as bs
    | _, _ => false

end Json

end Wireform

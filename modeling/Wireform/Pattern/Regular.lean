import Wireform.Pattern.Boundary

set_option autoImplicit false

namespace Wireform

inductive Regular where
  | empty
  | boundary (kind : Boundary)
  | one (set : CharSet)
  | seq (first second : Regular)
  | alt (left right : Regular)
  | times (body : Regular) (least : Nat) (most : Option Nat)
deriving DecidableEq, Repr, Inhabited

namespace Regular

def isNullable (before after : Option Char) : Regular → Bool
  | .empty => true
  | .boundary kind => kind.holds before after
  | .one _ => false
  | .seq p q => p.isNullable before after && q.isNullable before after
  | .alt p q => p.isNullable before after || q.isNullable before after
  | .times p least _ => least == 0 || p.isNullable before after

def andThen (p q : Regular) : Regular :=
  match p, q with
  | .empty, q => q
  | p, .empty => p
  | p, q => .seq p q

def copies (p : Regular) (least : Nat) (most : Option Nat) : Regular :=
  if most = some 0 then .empty else .times p least most

/-- What may remain after a character. Copies that need no character here count as done. -/
def rests (before : Option Char) (c : Char) : Regular → List Regular
  | .empty | .boundary _ => []
  | .one set => if set.contains c then [.empty] else []
  | .seq p q =>
    (p.rests before c).map (·.andThen q)
      ++ if p.isNullable before (some c) then q.rests before c else []
  | .alt p q => p.rests before c ++ q.rests before c
  | .times p least most =>
    if most = some 0 then []
    else
      let least := if p.isNullable before (some c) then 0 else least - 1
      (p.rests before c).map (·.andThen (p.copies least (most.map (· - 1))))

def found (p : Regular) (before : Option Char) (begun : List Regular) : List Char → Bool
  | [] => (p :: begun).any (·.isNullable before none)
  | c :: rest =>
    (p :: begun).any (·.isNullable before (some c))
      || p.found (some c) ((p :: begun).flatMap (·.rests before c)).eraseDups rest

def occursIn (p : Regular) (text : String) : Bool := p.found none [] text.toList

end Regular

end Wireform

import Wireform.Pattern.Regular

set_option autoImplicit false

namespace Wireform

inductive Pattern where
  | empty
  | boundary (kind : Boundary)
  | one (set : CharSet)
  | seq (first second : Pattern)
  | alt (left right : Pattern)
  | times (body : Pattern) (least : Nat) (most : Option Nat) (greedy : Bool)
  | group (number : Nat) (body : Pattern)
  | again (number : Nat)
  | look (behind : Option Nat) (negated : Bool) (body : Pattern)
  | atomic (body : Pattern)
deriving DecidableEq, Repr, Inhabited

namespace Pattern

def regular? : Pattern → Option Regular
  | .empty => some .empty
  | .boundary kind => some (.boundary kind)
  | .one set => some (.one set)
  | .seq p q => do return .seq (← p.regular?) (← q.regular?)
  | .alt p q => do return .alt (← p.regular?) (← q.regular?)
  | .times p least most _ => do return .times (← p.regular?) least most
  | .group _ p => p.regular?
  | .again _ | .look .. | .atomic _ => none

def size? : Pattern → Option Nat
  | .empty | .boundary _ | .look .. => some 0
  | .one _ => some 1
  | .seq p q => do return (← p.size?) + (← q.size?)
  | .alt p q => do
    let left ← p.size?
    let right ← q.size?
    if left = right then some left else none
  | .times p least most _ => if most = some least then p.size?.map (· * least) else none
  | .group _ p | .atomic p => p.size?
  | .again _ => none

def weight : Pattern → Nat
  | .empty | .boundary _ | .again _ => 0
  | .one _ => 1
  | .seq p q | .alt p q => p.weight + q.weight
  | .times p least most _ => p.weight * max least (most.getD 1)
  | .group _ p | .look _ _ p | .atomic p => p.weight

/-- A condition on what stands behind a place. Its alternatives may differ in size, but each needs one. -/
def behind? (negated : Bool) (p : Pattern) : Option Pattern :=
  match p.size?, p with
  | some size, p => some (.look (some size) negated p)
  | none, .alt p q => do
    let left ← behind? negated p
    let right ← behind? negated q
    return if negated then .seq left right else .alt left right
  | none, _ => none

end Pattern

end Wireform

import Wireform.Unicode.Folding
import Wireform.Unicode.Query

set_option autoImplicit false

namespace Wireform

inductive CharSet where
  | ranges (pairs : List (Char × Char))
  | unicode (query : Unicode.Query)
  | outside (set : CharSet)
  | union (left right : CharSet)
  | intersection (left right : CharSet)
  | difference (left right : CharSet)
  | symmetric (left right : CharSet)
  | folded (set : CharSet)
deriving DecidableEq, Repr, Inhabited

namespace CharSet

def contains : CharSet → Char → Bool
  | .ranges pairs, c => pairs.any fun (low, high) => low ≤ c && c ≤ high
  | .unicode query, c => query.holds c
  | .outside set, c => !set.contains c
  | .union left right, c => left.contains c || right.contains c
  | .intersection left right, c => left.contains c && right.contains c
  | .difference left right, c => left.contains c && !right.contains c
  | .symmetric left right, c => left.contains c != right.contains c
  | .folded set, c => set.contains c || (Unicode.caseVariants c).any set.contains

def none : CharSet := .ranges []

def single (c : Char) : CharSet := .ranges [(c, c)]

def or (left right : CharSet) : CharSet :=
  match left, right with
  | .ranges left, .ranges right => .ranges (left ++ right)
  | left, right => .union left right

theorem contains_or (left right : CharSet) (c : Char) :
    (left.or right).contains c = (left.contains c || right.contains c) := by
  unfold or
  split <;> simp [contains]

def complementIf (negated : Bool) (set : CharSet) : CharSet := if negated then .outside set else set

def inCase (anyCase : Bool) (set : CharSet) : CharSet := if anyCase then .folded set else set

def digits : CharSet := .unicode (.categories [.decimalNumber])

def blanks : CharSet := .unicode (.property Unicode.Property.whiteSpace)

def word : CharSet :=
  .union (.unicode (.property Unicode.Property.alphabetic))
    (.union (.unicode (.property Unicode.Property.joinControl))
      (.unicode (.categories (Unicode.Category.group 'M' ++ [.decimalNumber, .connectorPunctuation]))))

def hexDigits : CharSet := .ranges [('0', '9'), ('A', 'F'), ('a', 'f')]

end CharSet

end Wireform

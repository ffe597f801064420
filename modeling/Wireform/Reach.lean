/-!
Walks along references between names. A name leaves the list of those still ahead when it is reached, so
that each is reached once and every walk ends.
-/

set_option autoImplicit false

namespace Wireform.Reach

variable (next : String → List String)

/-- Visits the first name that waits and is still ahead, then the others; `enqueue` says in which order.
Each turn takes a name from those ahead, so there are no more turns than names. -/
def walk (enqueue : List String → List String → List String) :
    Nat → List String → List String → List String
  | 0, _, _ => []
  | turns + 1, ahead, waiting =>
    match waiting.dropWhile fun name => !ahead.contains name with
    | [] => []
    | name :: rest => name :: walk enqueue turns (ahead.erase name) (enqueue rest (next name))

def depthFirst (ahead waiting : List String) : List String :=
  walk next (fun rest more => more ++ rest) ahead.length ahead waiting

def breadthFirst (ahead waiting : List String) : List String :=
  walk next (fun rest more => rest ++ more) ahead.length ahead waiting

end Wireform.Reach

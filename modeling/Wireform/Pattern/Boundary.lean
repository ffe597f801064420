import Wireform.Pattern.CharSet

set_option autoImplicit false

namespace Wireform

inductive Boundary where
  | textStart
  | textEnd
  | lineStart
  | lineEnd
  | word
  | noWord
  | wordStart
  | wordEnd
deriving DecidableEq, Repr, Inhabited

namespace Boundary

def isWord (side : Option Char) : Bool := side.any CharSet.word.contains

def holds (before after : Option Char) : Boundary → Bool
  | .textStart => before.isNone
  | .textEnd => after.isNone
  | .lineStart => before.all (· == '\n')
  | .lineEnd => after.all (· == '\n')
  | .word => isWord before != isWord after
  | .noWord => isWord before == isWord after
  | .wordStart => !isWord before && isWord after
  | .wordEnd => isWord before && !isWord after

end Boundary

end Wireform

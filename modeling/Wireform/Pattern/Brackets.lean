import Wireform.Pattern.CharSet
import Wireform.Text.Blank

set_option autoImplicit false

namespace Wireform.Brackets

inductive Item where
  | char (c : Char)
  | set (set : CharSet)

inductive Operator where
  | intersection
  | difference
  | symmetric
deriving DecidableEq, Repr

def Operator.apply : Operator → CharSet → CharSet → CharSet
  | .intersection => .intersection
  | .difference => .difference
  | .symmetric => .symmetric

structure Bracket where
  negated : Bool
  left : Option (Operator × CharSet)
  items : Option CharSet

namespace Bracket

def add (b : Bracket) (set : CharSet) : Bracket :=
  { b with items := some (match b.items with | none => set | some items => items.or set) }

def value (b : Bracket) : CharSet :=
  let items := b.items.getD .none
  match b.left with
  | none => items
  | some (operator, left) => operator.apply left items

def operate (b : Bracket) (operator : Operator) : Bracket :=
  ⟨b.negated, some (operator, b.value), none⟩

def close (b : Bracket) : CharSet := b.value.complementIf b.negated

end Bracket

structure Style where
  anyCase : Bool
  spaced : Bool
  escape? : List Char → Option (Item × List Char)

def skipBlanks (inComment : Bool) : List Char → List Char
  | [] => []
  | c :: rest =>
    if inComment then skipBlanks (c != '\n') rest
    else if Text.isBlank c then skipBlanks false rest
    else if c = '#' then skipBlanks true rest
    else c :: rest

def Style.skip (style : Style) (cs : List Char) : List Char :=
  if style.spaced then skipBlanks false cs else cs

def named? (name : String) : Option CharSet :=
  let lower := ('a', 'z')
  let upper := ('A', 'Z')
  let digit := ('0', '9')
  match name with
  | "alnum" => some (.ranges [digit, upper, lower])
  | "alpha" => some (.ranges [upper, lower])
  | "ascii" => some (.ranges [('\x00', '\x7f')])
  | "blank" => some (.ranges [('\t', '\t'), (' ', ' ')])
  | "cntrl" => some (.ranges [('\x00', '\x1f'), ('\x7f', '\x7f')])
  | "digit" => some (.ranges [digit])
  | "graph" => some (.ranges [('!', '~')])
  | "lower" => some (.ranges [lower])
  | "print" => some (.ranges [(' ', '~')])
  | "punct" => some (.ranges [('!', '/'), (':', '@'), ('[', '\x60'), ('\x7b', '~')])
  | "space" => some (.ranges [('\t', '\r'), (' ', ' ')])
  | "upper" => some (.ranges [upper])
  | "word" => some (.ranges [digit, upper, ('_', '_'), lower])
  | "xdigit" => some (.ranges [digit, ('A', 'F'), ('a', 'f')])
  | _ => none

def colonSet? (style : Style) (cs : List Char) : Option (CharSet × List Char) :=
  match cs with
  | ':' :: rest =>
    let (negated, rest) :=
      match rest with
      | '^' :: rest => (true, rest)
      | rest => (false, rest)
    match rest.dropWhile (· != ':') with
    | ':' :: ']' :: behind => do
      let set ← named? (String.ofList (rest.takeWhile (· != ':')))
      return ((set.inCase style.anyCase).complementIf negated, behind)
    | _ => none
  | _ => none

def leadingHyphens (style : Style) : Nat → Bracket → List Char → Bracket × List Char
  | 0, b, cs => (b, cs)
  | fuel + 1, b, cs =>
    match cs with
    | '-' :: rest => leadingHyphens style fuel (b.add (.single '-')) (style.skip rest)
    | cs => (b, cs)

/-- What follows an opening bracket. A closing bracket that stands first stands for itself. -/
def start (style : Style) (cs : List Char) : Bracket × List Char :=
  let cs := style.skip cs
  let (negated, cs) :=
    match cs with
    | '^' :: rest => (true, style.skip rest)
    | cs => (false, cs)
  match leadingHyphens style cs.length ⟨negated, none, none⟩ cs with
  | (⟨_, _, none⟩, ']' :: rest) => (⟨negated, none, some (.single ']')⟩, style.skip rest)
  | opened => opened

def item? (style : Style) (cs : List Char) : Option (Item × List Char) :=
  match cs with
  | [] => none
  | '\\' :: rest => style.escape? rest
  | c :: rest => some (.char c, rest)

def addItem (style : Style) (b : Bracket) : Item → Bracket
  | .char c => b.add ((CharSet.single c).inCase style.anyCase)
  | .set set => b.add set

def read? (style : Style) : Nat → Bracket → List Bracket → List Char → Option (CharSet × List Char)
  | 0, _, _, _ => none
  | fuel + 1, b, outer, cs =>
    match style.skip cs with
    | [] => none
    | '[' :: rest =>
      match colonSet? style rest with
      | some (set, rest) => read? style fuel (b.add set) outer rest
      | none =>
        let (inner, rest) := start style rest
        read? style fuel inner (b :: outer) rest
    | ']' :: rest =>
      match outer with
      | [] => some (b.close, rest)
      | around :: outer => read? style fuel (around.add b.close) outer rest
    | '&' :: '&' :: rest => read? style fuel (b.operate .intersection) outer rest
    | '-' :: '-' :: rest => read? style fuel (b.operate .difference) outer rest
    | '~' :: '~' :: rest => read? style fuel (b.operate .symmetric) outer rest
    | cs => do
      let (low, rest) ← item? style cs
      match style.skip rest with
      | '-' :: behind =>
        match style.skip behind with
        | ']' :: _ | '-' :: _ => read? style fuel (addItem style b low) outer ('-' :: behind)
        | behind =>
          match low, ← item? style behind with
          | .char low, (.char high, rest) =>
            if low ≤ high then
              let range := (CharSet.ranges [(low, high)]).inCase style.anyCase
              read? style fuel (b.add range) outer rest
            else none
          | _, _ => none
      | rest => read? style fuel (addItem style b low) outer rest

def set? (style : Style) (cs : List Char) : Option (CharSet × List Char) :=
  let (b, rest) := start style cs
  read? style (cs.length + 1) b [] rest

end Wireform.Brackets

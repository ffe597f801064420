import Wireform.Pattern.Escape

/-!
The strict form of written patterns, which is that of regular expressions. A text in which a condition or a
reference is met has the strict form as far as that; what follows is free of it. In a text that has it all
through, the short names of sets stand for sets of ASCII characters.
-/

set_option autoImplicit false

namespace Wireform.Strict

open Brackets (Item Style)

def isPlainEscape (c : Char) : Bool :=
  c.toNat < 128 && !c.isAlphanum && c != '<' && c != '>'

def item? (cs : List Char) : Option (Item × List Char) :=
  match cs with
  | [] => none
  | c :: rest =>
    match Escape.digitsOf? c, Escape.control? c, Escape.shorthand? c with
    | some count, _, _ => (Escape.code? count rest).map fun (c, rest) => (.char c, rest)
    | _, some c, _ => some (.char c, rest)
    | _, _, some set => some (.set set, rest)
    | _, _, _ =>
      if c = 'p' ∨ c = 'P' then
        (Escape.propertyName? rest).map fun (_, rest) => (.set .none, rest)
      else if c = 'c' then
        match rest with
        | letter :: rest => if letter.isAlpha then some (.char letter, rest) else none
        | [] => none
      else if isPlainEscape c then some (.char c, rest)
      else none

def escape? (cs : List Char) : Option (List Char) :=
  match cs with
  | [] => none
  | c :: rest =>
    if ['A', 'z', 'b', 'B', '<', '>'].contains c then some rest
    else if c = 'a' then none
    else (item? cs).map (·.2)

def areFlags (letters : List Char) : Bool :=
  decide letters.Nodup && letters.all (fun c => "imsURux-".toList.contains c)
    && letters.getLast? != some '-'

def spacedBy (letters : List Char) (spaced : Bool) : Bool :=
  if (letters.takeWhile (· != '-')).contains 'x' then true
  else if letters.contains 'x' then false
  else spaced

def isNameStart (c : Char) : Bool := c == '_' || Unicode.Property.alphabetic.holds c

def isNamePart (c : Char) : Bool :=
  ['_', '.', '[', ']'].contains c || Unicode.Property.alphabetic.holds c
    || (Unicode.Category.group 'N').contains (.of c)

def name? (cs : List Char) : Option (List Char × List Char) :=
  match cs.takeWhile (· != '>'), cs.dropWhile (· != '>') with
  | first :: others, _ :: rest =>
    if isNameStart first && others.all isNamePart then some (first :: others, rest) else none
  | _, _ => none

def repetition? (style : Style) (cs : List Char) : Option (List Char) := do
  let number? (cs : List Char) : Option (Nat × List Char) := do
    let cs := cs.dropWhile Text.isBlank
    let digits := cs.takeWhile Char.isDigit
    let n ← Integer.ofDigits? digits
    let rest := (cs.dropWhile Char.isDigit).dropWhile Text.isBlank
    if n < 0x100000000 then some (n, style.skip rest) else none
  let (least, rest) ← number? (style.skip cs)
  match rest with
  | '\x7d' :: rest => return rest
  | ',' :: rest =>
    match style.skip rest with
    | '\x7d' :: rest => return rest
    | rest =>
      match ← number? rest with
      | (most, '\x7d' :: rest) => if least ≤ most then some rest else none
      | _ => none
  | _ => none

structure State where
  spaced : Bool
  outer : List Bool
  names : List (List Char)
  repeatable : Bool

inductive Opening where
  | beyond
  | flags (spaced : Bool) (rest : List Char)
  | group (spaced : Bool) (names : List (List Char)) (rest : List Char)

def opening? (state : State) (cs : List Char) : Option Opening :=
  match cs with
  | '?' :: '=' :: _ | '?' :: '!' :: _ | '?' :: '<' :: '=' :: _ | '?' :: '<' :: '!' :: _ =>
    some .beyond
  | '?' :: 'P' :: '<' :: rest | '?' :: '<' :: rest => do
    let (name, rest) ← name? rest
    if state.names.contains name then none
    else some (.group state.spaced (name :: state.names) rest)
  | '?' :: rest =>
    let isEnd (c : Char) : Bool := c == ':' || c == ')'
    let letters := rest.takeWhile fun c => !isEnd c
    let spaced := spacedBy letters state.spaced
    if areFlags letters then
      match rest.dropWhile fun c => !isEnd c with
      | ':' :: rest => some (.group spaced state.names rest)
      | ')' :: rest => if letters.isEmpty then none else some (.flags spaced rest)
      | _ => none
    else none
  | cs => some (.group state.spaced state.names cs)

def afterLazy (cs : List Char) : List Char :=
  match cs with
  | '?' :: rest => rest
  | cs => cs

/-- What is left of a text from the first condition or reference on, if it has the strict form as far as
that; nothing is left if there is neither. -/
def read? : Nat → State → List Char → Option (List Char)
  | 0, _, _ => none
  | fuel + 1, state, cs =>
    let style : Style := ⟨false, state.spaced, item?⟩
    let item := { state with repeatable := true }
    match style.skip cs with
    | [] => if state.outer.isEmpty then some [] else none
    | '(' :: rest =>
      match opening? state (style.skip rest) with
      | none => none
      | some .beyond => some ('(' :: rest)
      | some (.flags spaced rest) => read? fuel { state with spaced, repeatable := false } rest
      | some (.group spaced names rest) =>
        read? fuel ⟨spaced, state.spaced :: state.outer, names, false⟩ rest
    | ')' :: rest =>
      match state.outer with
      | [] => none
      | spaced :: outer => read? fuel { item with spaced, outer } rest
    | '|' :: rest => read? fuel { state with repeatable := false } rest
    | '[' :: rest => do
      let (_, rest) ← Brackets.set? style rest
      read? fuel item rest
    | '\x7b' :: rest =>
      if state.repeatable then do
        let rest ← repetition? style rest
        read? fuel item (afterLazy (style.skip rest))
      else none
    | '\\' :: c :: rest =>
      if c.isDigit then some ('\\' :: c :: rest)
      else do
        let rest ← escape? (c :: rest)
        read? fuel item rest
    | ['\\'] => none
    | c :: rest =>
      if c = '*' ∨ c = '+' ∨ c = '?' then
        if state.repeatable then read? fuel item (afterLazy rest) else none
      else read? fuel item rest

def controlOf (letter : Char) : Char := Char.ofNat (letter.toNat % 32)

def withControls : List Char → List Char
  | '\\' :: 'c' :: letter :: rest => controlOf letter :: withControls rest
  | '\\' :: c :: rest => '\\' :: c :: withControls rest
  | c :: rest => c :: withControls rest
  | [] => []

def shorthand? : Char → Option String
  | 'd' => some "[0-9]"
  | 'D' => some "[^0-9]"
  | 'w' => some "[A-Za-z0-9_]"
  | 'W' => some "[^A-Za-z0-9_]"
  | 's' => some "[ \\t\\n\\r\\u000b\\u000c\\u2003\\ufeff\\u2029]"
  | 'S' => some "[^ \\t\\n\\r\\u000b\\u000c\\u2003\\ufeff\\u2029]"
  | _ => none

def withSets : List Char → List Char
  | '\\' :: c :: rest =>
    match shorthand? c with
    | some set => set.toList ++ withSets rest
    | none => '\\' :: c :: withSets rest
  | c :: rest => c :: withSets rest
  | [] => []

def plain? (source : String) : Option (List Char) := do
  let cs := source.toList
  match ← read? (cs.length + 1) ⟨false, [], [], false⟩ cs with
  | [] => return withSets (withControls cs)
  | rest => return withControls (cs.take (cs.length - rest.length)) ++ rest

end Wireform.Strict

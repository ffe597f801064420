import Wireform.Pattern
import Wireform.Pattern.Strict

set_option autoImplicit false

namespace Wireform.Pattern

open Brackets (Item Style)

structure Flags where
  anyCase : Bool
  lines : Bool
  wholeText : Bool
  fewFirst : Bool
  spaced : Bool
deriving DecidableEq, Repr

structure Context where
  flags : Flags
  groups : Nat
  names : List (List Char × Nat)
  numbered : Bool
  bound : Nat

/-- Comments in a group of their own count as blanks, and so do blanks and comments on lines where the flags
say so. Nothing is left of a text with a comment that does not end. -/
def skip? (spaced : Bool) : Nat → List Char → Option (List Char)
  | 0, cs => some cs
  | fuel + 1, cs =>
    match cs with
    | '(' :: '?' :: '#' :: rest =>
      match rest.dropWhile (· != ')') with
      | [] => none
      | _ :: behind => skip? spaced fuel behind
    | '#' :: rest =>
      if spaced then skip? spaced fuel ((rest.dropWhile (· != '\n')).drop 1) else some cs
    | c :: rest =>
      if spaced ∧ [' ', '\r', '\n', '\t'].contains c then skip? spaced fuel rest else some cs
    | [] => some []

def Context.skip? (context : Context) (cs : List Char) : Option (List Char) :=
  Pattern.skip? context.flags.spaced cs.length cs

def setEscape? (anyCase : Bool) (c : Char) (rest : List Char) : Option (CharSet × List Char) :=
  if c = 'h' then some (.hexDigits, rest)
  else if c = 'H' then some (.outside .hexDigits, rest)
  else if c = 'p' ∨ c = 'P' then do
    let (name, rest) ← Escape.propertyName? rest
    let set ← Escape.property? name
    return ((set.inCase anyCase).complementIf (c == 'P'), rest)
  else (Escape.shorthand? c).map fun set => (set, rest)

def charEscape? (c : Char) (rest : List Char) : Option (Char × List Char) :=
  match Escape.digitsOf? c, Escape.control? c with
  | some count, _ => Escape.code? count rest
  | none, some c => some (c, rest)
  | none, none =>
    if c = 'e' then some ('\x1b', rest) else if c.isAlphanum then none else some (c, rest)

def item? (anyCase : Bool) (cs : List Char) : Option (Item × List Char) :=
  match cs with
  | [] => none
  | c :: rest =>
    match setEscape? anyCase c rest with
    | some (set, rest) => some (.set set, rest)
    | none =>
      if c = 'b' then some (.char '\x08', rest)
      else if ['k', 'A', 'z', 'B', 'K', 'G'].contains c then some (.char c, rest)
      else (charEscape? c rest).map fun (c, rest) => (.char c, rest)

/-- What follows a set of which the opening bracket has been read, by the number of brackets alone. -/
def afterBrackets? (style : Style) : Nat → Nat → List Char → Option (List Char)
  | 0, _, _ => none
  | fuel + 1, inner, cs =>
    match cs with
    | [] => none
    | '\\' :: rest => do
      let (_, rest) ← style.escape? rest
      afterBrackets? style fuel inner rest
    | '[' :: rest => afterBrackets? style fuel (inner + 1) rest
    | ']' :: rest => if inner = 0 then some rest else afterBrackets? style fuel (inner - 1) rest
    | _ :: rest => afterBrackets? style fuel inner rest

def set? (anyCase : Bool) (cs : List Char) : Option (CharSet × List Char) := do
  let style : Style := ⟨anyCase, false, item? anyCase⟩
  let inside :=
    match cs with
    | '^' :: ']' :: rest | '^' :: rest | ']' :: rest => rest
    | rest => rest
  let behind ← afterBrackets? style (cs.length + 1) 0 inside
  let (set, rest) ← Brackets.set? style cs
  if rest.length = behind.length then some (set, rest) else none

def isNamePart (c : Char) : Bool :=
  c == '_' || Unicode.Property.alphabetic.holds c || (Unicode.Category.group 'N').contains (.of c)

def name? (mark : Char) (cs : List Char) : Option (List Char × List Char) :=
  match cs.takeWhile isNamePart, cs.dropWhile isNamePart with
  | first :: others, c :: rest => if c = mark then some (first :: others, rest) else none
  | _, _ => none

def Context.reference? (context : Context) (number : Nat) : Option Pattern :=
  if number ≤ context.groups then some (.again number) else none

def Context.namedReference? (context : Context) (mark : Char) (cs : List Char) :
    Option (Pattern × List Char) := do
  let (name, rest) ← name? mark cs
  let number ←
    match context.names.find? (·.1 == name) with
    | some (_, number) => some number
    | none => Integer.ofDigits? name
  return (← context.reference? number, rest)

structure Piece where
  pattern : Pattern
  rest : List Char
  repeatable : Bool := true
  context : Context

def escape? (context : Context) (cs : List Char) : Option Piece :=
  match cs with
  | [] => none
  | c :: rest =>
    let boundary (kind : Boundary) : Option Piece :=
      some { pattern := .boundary kind, rest, repeatable := false, context }
    let isBraced : Bool := rest.head? == some '\x7b'
    match c with
    | 'A' => boundary .textStart
    | 'z' => boundary .textEnd
    | 'Z' =>
      let breaks : Pattern := .times (.one (.single '\n')) 0 none true
      let ending : Pattern := .look none false (.seq breaks (.boundary .textEnd))
      some { pattern := ending, rest, repeatable := false, context }
    | 'b' => if isBraced then none else boundary .word
    | 'B' => if isBraced then none else boundary .noWord
    | '<' => boundary .wordStart
    | '>' => boundary .wordEnd
    -- Where a match starts does not count, and every search is a first one.
    | 'K' => some { pattern := .atomic .empty, rest, context }
    | 'G' => some { pattern := .atomic (.boundary .textStart), rest, context }
    | 'k' =>
      match rest with
      | '<' :: rest => do
        let (pattern, rest) ← context.namedReference? '>' rest
        return { pattern, rest, context }
      | '\'' :: rest => do
        let (pattern, rest) ← context.namedReference? '\'' rest
        return { pattern, rest, context }
      | _ => none
    | c =>
      if c.isDigit then do
        let number ← Integer.ofDigits? (cs.takeWhile Char.isDigit)
        let pattern ← context.reference? number
        let context := { context with numbered := true }
        if number < context.bound then
          return { pattern, rest := cs.dropWhile Char.isDigit, context }
        else none
      else
        match setEscape? context.flags.anyCase c rest with
        | some (set, rest) => some { pattern := .one set, rest, context }
        | none => do
          let (c, rest) ← charEscape? c rest
          return { pattern := .one ((CharSet.single c).inCase context.flags.anyCase), rest, context }

def atom? (context : Context) (cs : List Char) : Option Piece :=
  match cs with
  | [] => none
  | c :: rest =>
    let flags := context.flags
    let boundary (whole line : Boundary) : Option Piece :=
      let kind := if flags.lines then line else whole
      some { pattern := .boundary kind, rest, repeatable := false, context }
    match c with
    | '\\' => escape? context rest
    | '[' => do
      let (set, rest) ← set? flags.anyCase rest
      return { pattern := .one set, rest, context }
    | '^' => boundary .textStart .lineStart
    | '$' => boundary .textEnd .lineEnd
    | '.' =>
      let breaks : CharSet := if flags.wholeText then .none else .single '\n'
      some { pattern := .one (.outside breaks), rest, context }
    | c => some { pattern := .one ((CharSet.single c).inCase flags.anyCase), rest, context }

def number? (cs : List Char) : Option Nat × List Char :=
  (Integer.ofDigits? (cs.takeWhile Char.isDigit), cs.dropWhile Char.isDigit)

def Context.limits? (context : Context) (cs : List Char) :
    Option (Nat × Option Nat × List Char) := do
  let cs ← context.skip? cs
  let (least, rest) := number? cs
  let rest ← context.skip? rest
  match least, rest with
  | some n, '\x7d' :: rest => return (n, some n, rest)
  | least, ',' :: rest =>
    let (most, rest) := number? (← context.skip? rest)
    match ← context.skip? rest with
    | '\x7d' :: rest => return (least.getD 0, most, rest)
    | _ => none
  | _, _ => none

def Context.repetition? (context : Context) (cs : List Char) :
    Option (Nat × Option Nat × List Char) :=
  match cs with
  | '?' :: rest => some (0, some 1, rest)
  | '*' :: rest => some (0, none, rest)
  | '+' :: rest => some (1, none, rest)
  | '\x7b' :: rest => context.limits? rest
  | _ => none

def repeated? (piece : Piece) : Option Piece := do
  let context := piece.context
  let rest ← context.skip? piece.rest
  match context.repetition? rest with
  | none => return { piece with rest }
  | some (least, most, rest) =>
    if !piece.repeatable || most.any (· < least) then none
    let rest ← context.skip? rest
    let (fewFirst, rest) :=
      match rest with
      | '?' :: rest => (true, rest)
      | rest => (false, rest)
    let copies : Pattern := .times piece.pattern least most (fewFirst == context.flags.fewFirst)
    match rest with
    | '+' :: rest => return { piece with pattern := .atomic copies, rest }
    | rest => return { piece with pattern := copies, rest }

inductive Enclosure where
  | plain (outer : Option Flags)
  | capture (number : Nat)
  | look (behind negated : Bool)
  | atomic

structure Frame where
  enclosure : Enclosure
  alternatives : List Pattern
  parts : List Pattern

namespace Frame

def new (enclosure : Enclosure) : Frame := ⟨enclosure, [], []⟩

def add (frame : Frame) (p : Pattern) : Frame :=
  if p = .empty then frame else { frame with parts := p :: frame.parts }

def sequence (frame : Frame) : Pattern :=
  match frame.parts with
  | [] => .empty
  | last :: before => before.foldl (fun rest p => .seq p rest) last

def bar (frame : Frame) : Frame :=
  { frame with alternatives := frame.sequence :: frame.alternatives, parts := [] }

def inside? (frame : Frame) (context : Context) : Option Pattern :=
  if frame.alternatives.isEmpty && context.numbered && !context.names.isEmpty then none
  else some (frame.alternatives.foldl (fun rest p => .alt p rest) frame.sequence)

def close? (frame : Frame) (context : Context) (rest : List Char) : Option Piece := do
  let inside ← frame.inside? context
  let isPlace : Bool :=
    match inside with
    | .empty | .boundary _ => true
    | _ => false
  match frame.enclosure with
  | .plain outer =>
    let context := { context with flags := outer.getD context.flags }
    return { pattern := inside, rest, repeatable := !isPlace, context }
  | .capture number => return { pattern := .group number inside, rest, context }
  | .atomic => return { pattern := .atomic inside, rest, context }
  | .look true negated =>
    return { pattern := ← behind? negated inside, rest, repeatable := false, context }
  | .look false negated =>
    return { pattern := .look none negated inside, rest, repeatable := false, context }

end Frame

def flagsOf? (flags : Flags) (raised : Bool) : List Char → Option Flags
  | [] => some flags
  | c :: rest =>
    match c with
    | 'i' => flagsOf? { flags with anyCase := raised } raised rest
    | 'm' => flagsOf? { flags with lines := raised } raised rest
    | 's' => flagsOf? { flags with wholeText := raised } raised rest
    | 'U' => flagsOf? { flags with fewFirst := raised } raised rest
    | 'x' => flagsOf? { flags with spaced := raised } raised rest
    | 'u' => if raised then flagsOf? flags raised rest else none
    | '-' => if raised then flagsOf? flags false rest else none
    | _ => none

inductive Opened where
  | frame (enclosure : Enclosure) (context : Context) (rest : List Char)
  | piece (piece : Piece)

def opened? (context : Context) (cs : List Char) : Option Opened :=
  let number := context.groups + 1
  let capture (named : List (List Char × Nat)) (rest : List Char) : Opened :=
    .frame (.capture number) { context with groups := number, names := named ++ context.names } rest
  let name (mark : Char) (cs : List Char) : Option Opened := do
    let (name, rest) ← name? mark cs
    return capture [(name, number)] rest
  match cs with
  | '?' :: '=' :: rest => some (.frame (.look false false) context rest)
  | '?' :: '!' :: rest => some (.frame (.look false true) context rest)
  | '?' :: '<' :: '=' :: rest => some (.frame (.look true false) context rest)
  | '?' :: '<' :: '!' :: rest => some (.frame (.look true true) context rest)
  | '?' :: '<' :: rest => name '>' rest
  | '?' :: '\'' :: rest => name '\'' rest
  | '?' :: 'P' :: '<' :: rest => name '>' rest
  | '?' :: 'P' :: '=' :: rest => do
    let (pattern, rest) ← context.namedReference? ')' rest
    return .piece { pattern, rest, context }
  | '?' :: '>' :: rest => some (.frame .atomic context rest)
  | '?' :: rest => do
    let isEnd (c : Char) : Bool := c == ':' || c == ')'
    let letters := rest.takeWhile fun c => !isEnd c
    let flags ← flagsOf? context.flags true letters
    let changed := { context with flags }
    if letters = ['-'] then none
    match rest.dropWhile fun c => !isEnd c with
    | ':' :: rest => return .frame (.plain (some context.flags)) changed rest
    | ')' :: rest =>
      if letters.isEmpty then none
      return .piece { pattern := .empty, rest, repeatable := false, context := changed }
    | _ => none
  | cs => some (capture [] cs)

def deepest : Nat := 64

def read? : Nat → Context → Frame → List Frame → List Char → Option Pattern
  | 0, _, _, _, _ => none
  | fuel + 1, context, frame, outer, cs => do
    let continued (frame : Frame) (outer : List Frame) (piece : Piece) : Option Pattern := do
      let piece ← repeated? piece
      read? fuel piece.context (frame.add piece.pattern) outer piece.rest
    match ← context.skip? cs with
    | [] => if outer.isEmpty then frame.inside? context else none
    | '|' :: rest => read? fuel context frame.bar outer rest
    | ')' :: rest =>
      match outer with
      | [] => none
      | around :: outer => continued around outer (← frame.close? context rest)
    | '(' :: rest =>
      if deepest ≤ outer.length + 1 then none
      match ← opened? context (← context.skip? rest) with
      | .frame enclosure context rest => read? fuel context (.new enclosure) (frame :: outer) rest
      | .piece piece => continued frame outer piece
    | c :: rest =>
      if c = '*' ∨ c = '+' ∨ c = '?' then none
      continued frame outer (← atom? context (c :: rest))

def largest : Nat := (10 <<< 20) / 32

def parse? (source : String) : Option Pattern := do
  let cs ← Strict.plain? source
  let bytes := (String.ofList cs).utf8ByteSize
  let flags : Flags := ⟨false, false, false, false, false⟩
  let pattern ← read? (cs.length + 1) ⟨flags, 0, [], false, bytes / 2⟩ (.new (.plain none)) [] cs
  if pattern.weight ≤ largest then some pattern else none

end Wireform.Pattern

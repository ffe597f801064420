import Wireform.Json
import Wireform.Text.ByteCount

/-!
The tokens of JSON text.

A string or number token carries two verdicts. A reader that wants the value meets every fault of the
literal; a reader that skips it meets only those that hide where the literal ends.
-/

set_option autoImplicit false

namespace Wireform.Json

inductive Cause where
  | endInList
  | endInObject
  | endInString
  | endInValue
  | wantsColon
  | wantsListEnd
  | wantsObjectEnd
  | wantsWord
  | wantsValue
  | wantsKey
  | badEscape
  | badNumber
  | tooLarge
  | controlCharacter
  | loneSurrogate
  | brokenPair
  | trailingComma
  | trailing
  | tooDeep
deriving DecidableEq, Repr, Inhabited

namespace Cause

def isEnd : Cause → Bool
  | .endInList | .endInObject | .endInString | .endInValue => true
  | _ => false

def message : Cause → String
  | .endInList => "EOF while parsing a list"
  | .endInObject => "EOF while parsing an object"
  | .endInString => "EOF while parsing a string"
  | .endInValue => "EOF while parsing a value"
  | .wantsColon => "expected `:`"
  | .wantsListEnd => "expected `,` or `]`"
  | .wantsObjectEnd => "expected `,` or `\x7d`"
  | .wantsWord => "expected ident"
  | .wantsValue => "expected value"
  | .wantsKey => "key must be a string"
  | .badEscape => "invalid escape"
  | .badNumber => "invalid number"
  | .tooLarge => "number out of range"
  | .controlCharacter => "control character (\\u0000-\\u001F) found while parsing a string"
  | .loneSurrogate => "lone leading surrogate in hex escape"
  | .brokenPair => "unexpected end of hex escape"
  | .trailingComma => "trailing comma"
  | .trailing => "trailing characters"
  | .tooDeep => "recursion limit exceeded"

end Cause

structure Place where
  rest : List Char
  bytes : Nat
deriving DecidableEq, Repr, Inhabited

namespace Place

def before (rest : List Char) : Place := ⟨rest, 0⟩

def forward : Nat → List Char → Place
  | _, [] => before []
  | n, c :: rest =>
    if n = 0 then before (c :: rest)
    else if c.utf8Size ≤ n then forward (n - c.utf8Size) rest
    else ⟨c :: rest, n⟩

def past (rest : List Char) : Place := forward 1 rest

def ending : Place := before []

def line (source : List Char) (p : Place) : Nat :=
  (source.take (source.length - p.rest.length)).count '\n' + 1

def column (source : List Char) (p : Place) : Nat :=
  let ahead := (source.take (source.length - p.rest.length)).reverse
  Text.byteCount (ahead.takeWhile (· != '\n')) + p.bytes

def text (source : String) (p : Place) : String :=
  " at line " ++ toString (p.line source.toList) ++ " column "
    ++ toString (p.column source.toList)

end Place

structure Fault where
  cause : Cause
  place : Place
deriving DecidableEq, Repr, Inhabited

def Fault.isEnd (f : Fault) : Bool := f.cause.isEnd

structure Literal (α : Type) where
  value : Except Fault α
  stop : Option Fault

instance {α : Type} : Inhabited (Literal α) := ⟨⟨.error default, none⟩⟩

def Literal.pure {α : Type} (value : α) : Literal α := ⟨.ok value, none⟩

inductive Token where
  | openList
  | closeList
  | openRecord
  | closeRecord
  | comma
  | colon
  | null
  | bool (value : Bool)
  | num (literal : Literal Number)
  | str (literal : Literal String)
  | bad (fault : Fault)

structure PlacedToken where
  token : Token
  here : List Char
  after : List Char

namespace Token

def isBlank (c : Char) : Bool := c == ' ' || c == '\n' || c == '\t' || c == '\r'

def hexValue? (c : Char) : Option Nat :=
  if c.isDigit then some (c.toNat - '0'.toNat)
  else if 'a' ≤ c ∧ c ≤ 'f' then some (c.toNat - 'a'.toNat + 10)
  else if 'A' ≤ c ∧ c ≤ 'F' then some (c.toNat - 'A'.toNat + 10)
  else none

def unit? (a b c d : Char) : Option Nat := do
  return ((← hexValue? a) * 16 + (← hexValue? b)) * 256 + (← hexValue? c) * 16 + (← hexValue? d)

def unitFault (cs : List Char) : Fault :=
  if Text.byteCount (cs.take 4) < 4 then ⟨.endInString, .ending⟩
  else ⟨.badEscape, .forward 4 cs⟩

def escape? (c : Char) : Option Char :=
  if c = '"' then some '"'
  else if c = '\\' then some '\\'
  else if c = '/' then some '/'
  else if c = 'b' then some '\x08'
  else if c = 'f' then some '\x0c'
  else if c = 'n' then some '\n'
  else if c = 'r' then some '\r'
  else if c = 't' then some '\t'
  else none

structure Partial where
  text : Except Fault (List Char)
  half : Option Nat

namespace Partial

def empty : Partial := ⟨.ok [], none⟩

def fail (p : Partial) (cause : Cause) (place : Place) : Partial :=
  ⟨p.text.bind fun _ => .error ⟨cause, place⟩, none⟩

/-- Adds a character, which the text reads from `here` on. A pair of units cannot be left half
finished. -/
def push (p : Partial) (c : Char) (here : List Char) : Partial :=
  match p.half with
  | some _ => p.fail .brokenPair (.past here)
  | none => ⟨p.text.map (c :: ·), none⟩

def pushUnit (p : Partial) (unit : Nat) (rest : List Char) : Partial :=
  let leading := 0xD800 ≤ unit ∧ unit ≤ 0xDBFF
  let trailing := 0xDC00 ≤ unit ∧ unit ≤ 0xDFFF
  match p.half with
  | some first =>
    if trailing then
      let code := 0x10000 + (first - 0xD800) * 0x400 + (unit - 0xDC00)
      ⟨p.text.map (Char.ofNat code :: ·), none⟩
    else p.fail .loneSurrogate (.before rest)
  | none =>
    if trailing then p.fail .loneSurrogate (.before rest)
    else if leading then ⟨p.text, some unit⟩
    else ⟨p.text.map (Char.ofNat unit :: ·), none⟩

def close (p : Partial) (here : List Char) : Literal String :=
  match p.half with
  | some _ => ⟨(p.fail .brokenPair (.past here)).text.map fun _ => "", none⟩
  | none => ⟨p.text.map fun cs => String.ofList cs.reverse, none⟩

def broken (p : Partial) (fault : Fault) (skipped : Place) : Literal String :=
  ⟨p.text.bind fun _ => .error fault, some { fault with place := skipped }⟩

end Partial

def readString (p : Partial) : List Char → Literal String × List Char
  | [] => (p.broken ⟨.endInString, .ending⟩ .ending, [])
  | '"' :: rest => (p.close ('"' :: rest), rest)
  | '\\' :: 'u' :: a :: b :: c :: d :: rest =>
    match unit? a b c d with
    | some unit => readString (p.pushUnit unit rest) rest
    | none =>
      let fault := unitFault (a :: b :: c :: d :: rest)
      (p.broken fault fault.place, [])
  | '\\' :: 'u' :: rest =>
    let fault := unitFault rest
    (p.broken fault fault.place, [])
  | '\\' :: c :: rest =>
    match escape? c with
    | some e => readString (p.push e (c :: rest)) rest
    | none =>
      let place := Place.past (c :: rest)
      let p := if p.half.isSome then p.fail .brokenPair place else p
      (p.broken ⟨.badEscape, place⟩ place, [])
  | '\\' :: [] => (p.broken ⟨.endInString, .ending⟩ .ending, [])
  | c :: rest =>
    if c.toNat < 32 then
      let p := if p.half.isSome then p.fail .brokenPair (.past (c :: rest)) else p
      (p.broken ⟨.controlCharacter, .past (c :: rest)⟩ (.before (c :: rest)), [])
    else readString (p.push c (c :: rest)) rest

def digitValue (c : Char) : Nat := c.toNat - '0'.toNat

def accumulate : Nat → Nat → List Char → Nat × Nat
  | sum, used, [] => (sum, used)
  | sum, used, c :: rest =>
    let next := sum * 10 + digitValue c
    if next ≤ Number.maxUnsigned then accumulate next (used + 1) rest else (sum, used)

def decimal (digits : List Char) : Nat :=
  digits.foldl (fun sum c => sum * 10 + digitValue c) 0

/-- A number is an integer if it is written as one, is not `-0` and fits a signed or unsigned 64-bit
word; else the leading digits that fit a word are scaled by a power of ten. -/
def numberOf (negative : Bool) (whole : List Char) (fractional : Option (List Char))
    (power : Option Int) : Option Number :=
  let (leading, used) := accumulate 0 0 whole
  let skipped := whole.length - used
  let plain := fractional.isNone && power.isNone && skipped == 0
  if plain && !negative then some (.int leading)
  else if plain && leading != 0 && leading ≤ 0x8000000000000000 then some (.int (-leading))
  else
    let (significand, places) := accumulate leading 0 (fractional.getD [])
    let exponent : Int := skipped - places + power.getD 0
    ((Binary64.ofNat significand).scale exponent).map fun x =>
      .float (if negative then x.neg else x)

def digitsMissing (rest : List Char) : Literal Number :=
  ⟨.error ⟨if rest.isEmpty then .endInValue else .badNumber, .past rest⟩,
    some ⟨.badNumber, .past rest⟩⟩

def readPower (cs : List Char) : Except (Literal Number) (Option Int × List Char) :=
  match cs with
  | c :: rest =>
    if c = 'e' ∨ c = 'E' then
      let (negative, rest) :=
        match rest with
        | '-' :: rest => (true, rest)
        | '+' :: rest => (false, rest)
        | rest => (false, rest)
      let digits := rest.takeWhile Char.isDigit
      if digits.isEmpty then .error (digitsMissing rest)
      else
        let size : Int := decimal digits
        .ok (some (if negative then -size else size), rest.dropWhile Char.isDigit)
    else .ok (none, cs)
  | [] => .ok (none, [])

def readFraction (cs : List Char) : Except (Literal Number) (Option (List Char) × List Char) :=
  match cs with
  | '.' :: rest =>
    let digits := rest.takeWhile Char.isDigit
    if digits.isEmpty then .error (digitsMissing rest)
    else .ok (some digits, rest.dropWhile Char.isDigit)
  | rest => .ok (none, rest)

def readNumber (negative : Bool) (cs : List Char) : Literal Number × List Char :=
  let whole := cs.takeWhile Char.isDigit
  let rest := cs.dropWhile Char.isDigit
  if whole.isEmpty then (digitsMissing rest, [])
  else if whole.head? = some '0' ∧ 1 < whole.length then
    let fault : Fault := ⟨.badNumber, .past cs.tail⟩
    (⟨.error fault, some fault⟩, [])
  else
    match readFraction rest with
    | .error broken => (broken, [])
    | .ok (fractional, rest) =>
      match readPower rest with
      | .error broken => (broken, [])
      | .ok (power, rest) =>
        match numberOf negative whole fractional power with
        | some n => (.pure n, rest)
        | none => (⟨.error ⟨.tooLarge, .before rest⟩, none⟩, rest)

def readWord : List Char → List Char → Except Fault (List Char)
  | [], rest => .ok rest
  | _ :: _, [] => .error ⟨.endInValue, .ending⟩
  | w :: word, c :: rest =>
    if w = c then readWord word rest else .error ⟨.wantsWord, .past (c :: rest)⟩

def word (text : String) (token : Token) (cs : List Char) : Token × List Char :=
  match readWord text.toList cs with
  | .ok rest => (token, rest)
  | .error fault => (.bad fault, [])

def read (c : Char) (rest : List Char) : Token × List Char :=
  if c = '[' then (.openList, rest)
  else if c = ']' then (.closeList, rest)
  else if c = '\x7b' then (.openRecord, rest)
  else if c = '\x7d' then (.closeRecord, rest)
  else if c = ',' then (.comma, rest)
  else if c = ':' then (.colon, rest)
  else if c = '"' then
    let (literal, rest) := readString .empty rest
    (.str literal, rest)
  else if c = '-' then
    let (literal, rest) := readNumber true rest
    (.num literal, rest)
  else if c.isDigit then
    let (literal, rest) := readNumber false (c :: rest)
    (.num literal, rest)
  else if c = 'n' then word "ull" .null rest
  else if c = 't' then word "rue" (.bool true) rest
  else if c = 'f' then word "alse" (.bool false) rest
  else (.bad ⟨.wantsValue, .past (c :: rest)⟩, [])

def readAll : Nat → List Char → List PlacedToken
  | 0, _ => []
  | _, [] => []
  | fuel + 1, c :: rest =>
    if isBlank c then readAll fuel rest
    else
      let (token, after) := read c rest
      ⟨token, c :: rest, after⟩ :: readAll fuel after

end Token

def tokens (text : String) : List PlacedToken :=
  let cs := text.toList
  Token.readAll cs.length cs

end Wireform.Json

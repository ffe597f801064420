import Wireform.Text.Blank
import Wireform.Time.Instant

set_option autoImplicit false

namespace Wireform.Time

def padded (width n : Nat) : List Char :=
  let digits := Nat.toDigits 10 n
  List.replicate (width - digits.length) '0' ++ digits

namespace Date

/-- Years from 0 to 9999 have four digits; all others have a sign as well, and at least four digits. -/
def yearText (year : Int) : List Char :=
  if year < 0 then '-' :: padded 4 year.natAbs
  else if 9999 < year then '+' :: padded 4 year.natAbs
  else padded 4 year.natAbs

def chars (d : Date) : List Char :=
  yearText d.year ++ ['-'] ++ padded 2 d.month ++ ['-'] ++ padded 2 d.day

def text (d : Date) : String := String.ofList d.chars

def greatestWord : Nat := 0x7fffffffffffffff

def readDigits (sum : Nat) : Option Nat → List Char → Except Fault (Nat × List Char)
  | some 0, rest => .ok (sum, rest)
  | _, [] => .ok (sum, [])
  | most, c :: rest =>
    if c.isDigit then
      let next := sum * 10 + (c.toNat - '0'.toNat)
      if greatestWord < next then .error .outOfRange
      else readDigits next (most.map (· - 1)) rest
    else .ok (sum, c :: rest)

def readNumber (most : Option Nat) (cs : List Char) : Except Fault (Nat × List Char) :=
  match cs with
  | [] => .error .tooShort
  | c :: _ => if c.isDigit then readDigits 0 most cs else .error .invalid

def readYear (cs : List Char) : Except Fault (Int × List Char) := do
  let (year, rest) ←
    match cs.dropWhile Text.isBlank with
    | '-' :: rest => do
      let (n, rest) ← readNumber none rest
      pure (-(n : Int), rest)
    | '+' :: rest => do
      let (n, rest) ← readNumber none rest
      pure ((n : Int), rest)
    | rest => do
      let (n, rest) ← readNumber (some 4) rest
      pure ((n : Int), rest)
  if -0x80000000 ≤ year ∧ year < 0x80000000 then return (year, rest) else throw .outOfRange

def readPart (bound : Nat) (cs : List Char) : Except Fault (Nat × List Char) := do
  let (n, rest) ← readNumber (some 2) (cs.dropWhile Text.isBlank)
  if 1 ≤ n ∧ n ≤ bound then return (n, rest) else throw .outOfRange

def readHyphen : List Char → Except Fault (List Char)
  | [] => .error .tooShort
  | c :: rest => if c = '-' then .ok rest else .error .invalid

def parse (text : String) : Except Fault Date := do
  let (year, rest) ← readYear text.toList
  let rest ← readHyphen rest
  let (month, rest) ← readPart 12 rest
  let rest ← readHyphen rest
  let (day, rest) ← readPart 31 rest
  let date : Date := ⟨year, month, day⟩
  if !rest.isEmpty then throw .tooLong
  else if date.inCalendar then return date
  else throw .outOfRange

end Date

end Wireform.Time

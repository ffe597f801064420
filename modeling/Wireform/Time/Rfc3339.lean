import Wireform.Text.ByteCount
import Wireform.Time.DateText

set_option autoImplicit false

namespace Wireform.Time

namespace Instant

def fractionChars (nanos : Nat) : List Char :=
  if nanos = 0 then []
  else if nanos % 1000000 = 0 then '.' :: padded 3 (nanos / 1000000)
  else if nanos % 1000 = 0 then '.' :: padded 6 (nanos / 1000)
  else '.' :: padded 9 nanos

def chars (t : Instant) : List Char :=
  let clock := t.secondOfDay
  let second := clock % 60 + t.nanos / nanosPerSecond
  t.date.chars ++ ['T'] ++ padded 2 (clock / 3600) ++ [':'] ++ padded 2 (clock / 60 % 60) ++ [':']
    ++ padded 2 second ++ fractionChars (t.nanos % nanosPerSecond) ++ ['Z']

def text (t : Instant) : String := String.ofList t.chars

end Instant

namespace Rfc3339

def digitValue (c : Char) : Nat := c.toNat - '0'.toNat

def readFixed : Nat → Nat → List Char → Except Fault (Nat × List Char)
  | 0, sum, rest => .ok (sum, rest)
  | _ + 1, _, [] => .error .invalid
  | count + 1, sum, c :: rest =>
    if c.isDigit then readFixed count (sum * 10 + digitValue c) rest else .error .invalid

def readMark (allowed : List Char) : List Char → Except Fault (List Char)
  | [] => .error .invalid
  | c :: rest => if allowed.contains c then .ok rest else .error .invalid

def readFraction : List Char → Except Fault (Nat × List Char)
  | '.' :: rest =>
    match rest with
    | [] => .error .tooShort
    | c :: _ =>
      if c.isDigit then
        let digits := (rest.takeWhile Char.isDigit).take 9
        let value := digits.foldl (fun sum d => sum * 10 + digitValue d) 0
        .ok (value * Nat.pow 10 (9 - digits.length), rest.dropWhile Char.isDigit)
      else .error .invalid
  | rest => .ok (0, rest)

def fewerBytes (count : Nat) (cs : List Char) : Bool :=
  Text.byteCount (cs.take count) < count

def readPair (cs : List Char) : Except Fault (Char × Char × List Char) :=
  match cs with
  | a :: b :: rest => if a.isDigit && b.isDigit then .ok (a, b, rest) else .error .invalid
  | _ => if fewerBytes 2 cs then .error .tooShort else .error .invalid

def readOffset (cs : List Char) : Except Fault (Int × List Char) :=
  match cs with
  | [] => .error .tooShort
  | c :: rest =>
    if c = 'Z' ∨ c = 'z' then .ok (0, rest)
    else if c = '+' ∨ c = '-' ∨ c = '\u2212' then do
      let (a, b, rest) ← readPair rest
      let hours := digitValue a * 10 + digitValue b
      let rest ←
        match rest with
        | [] => .error .tooShort
        | c :: rest => if c = ':' then pure rest else .error .invalid
      let (a, b, rest) ← readPair rest
      if 6 ≤ digitValue a then .error .outOfRange
      else
        let size : Int := hours * 3600 + (digitValue a * 10 + digitValue b) * 60
        .ok (if c = '+' then size else -size, rest)
    else .error .invalid

/-- The instant that a text denotes. Second 60 is the leap second of its minute. -/
def parse (text : String) : Except Fault Instant := do
  let cs := text.toList
  if fewerBytes 19 cs then throw .tooShort
  let (year, cs) ← readFixed 4 0 cs
  let cs ← readMark ['-'] cs
  let (month, cs) ← readFixed 2 0 cs
  let cs ← readMark ['-'] cs
  let (day, cs) ← readFixed 2 0 cs
  let date : Date := ⟨year, month, day⟩
  if !date.inCalendar then throw .outOfRange
  let cs ← readMark ['T', 't', ' '] cs
  let (hour, cs) ← readFixed 2 0 cs
  let cs ← readMark [':'] cs
  let (minute, cs) ← readFixed 2 0 cs
  let cs ← readMark [':'] cs
  let (second, cs) ← readFixed 2 0 cs
  let (fraction, cs) ← readFraction cs
  if 23 < hour ∨ 59 < minute ∨ 60 < second then throw .outOfRange
  let (offset, cs) ← readOffset cs
  if !cs.isEmpty then throw .tooLong
  if Instant.secondsPerDay ≤ offset.natAbs then throw .outOfRange
  let leap := second / 60
  let clock : Nat := hour * 3600 + minute * 60 + (second - leap)
  match Instant.of? (date.dayNumber * Instant.secondsPerDay + clock - offset)
    (fraction + leap * nanosPerSecond) with
  | some t => return t
  | none => throw .outOfRange

end Rfc3339

end Wireform.Time

/-!
Dates of the proleptic Gregorian calendar, and their numbers as days from 1970-01-01.

Years are taken to begin in March, so that a leap day is the last day of its year and every cycle of
the calendar ends with its longest part.
-/

set_option autoImplicit false

namespace Wireform.Time

structure Date where
  year : Int
  month : Nat
  day : Nat
deriving DecidableEq, Repr, Inhabited

namespace Date

def isLeap (year : Int) : Bool := year % 4 == 0 && (year % 100 != 0 || year % 400 == 0)

def monthLength (year : Int) (month : Nat) : Nat :=
  if month = 2 then (if isLeap year then 29 else 28)
  else if month = 4 ∨ month = 6 ∨ month = 9 ∨ month = 11 then 30
  else 31

def firstYear : Int := -262143
def lastYear : Int := 262142

def inCalendar (d : Date) : Bool :=
  firstYear ≤ d.year && d.year ≤ lastYear && 1 ≤ d.month && d.month ≤ 12 && 1 ≤ d.day &&
    d.day ≤ monthLength d.year d.month

def epoch : Int := 719468

def daysBefore (month : Nat) : Nat := (153 * month + 2) / 5

def dayNumber (d : Date) : Int :=
  let early := d.month ≤ 2
  let year := if early then d.year - 1 else d.year
  let month := if early then d.month + 9 else d.month - 3
  year * 365 + year / 4 - year / 100 + year / 400 + daysBefore month + (d.day - 1 : Int) - epoch

/-- Splits off whole parts of a cycle; only the last of them may be longer. -/
def parts (length most : Nat) (days : Nat) : Nat × Nat :=
  let count := min most (days / length)
  (count, days - count * length)

def ofDayOfYear (year : Int) (day : Nat) : Date :=
  let month := (5 * day + 2) / 153
  let day := day - daysBefore month + 1
  if month < 10 then ⟨year, month + 3, day⟩ else ⟨year + 1, month - 9, day⟩

def ofDayNumber (n : Int) : Date :=
  let fromMarch := n + epoch
  let cycles := fromMarch / 146097
  let (centuries, rest) := parts 36524 3 (fromMarch % 146097).toNat
  let (fours, rest) := parts 1461 24 rest
  let (ones, rest) := parts 365 3 rest
  ofDayOfYear (cycles * 400 + centuries * 100 + fours * 4 + ones) rest

end Date

end Wireform.Time

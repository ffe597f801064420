import Wireform.Time.Calendar

/-!
Instants as seconds from 1970-01-01T00:00:00Z and nanoseconds. A leap second is kept as the second before
it with a thousand million nanoseconds more.
-/

set_option autoImplicit false

namespace Wireform.Time

def leastSecond : Int := -8334601228800
def greatestSecond : Int := 8210266876799

def nanosPerSecond : Nat := 1000000000

/-- Whether an instant exists: it is in range, and extra nanoseconds stand in the last second of a
minute only. -/
def IsInstant (seconds : Int) (nanos : Nat) : Prop :=
  leastSecond ≤ seconds ∧ seconds ≤ greatestSecond ∧ nanos < 2 * nanosPerSecond ∧
    (nanosPerSecond ≤ nanos → seconds % 60 = 59)

instance (seconds : Int) (nanos : Nat) : Decidable (IsInstant seconds nanos) :=
  inferInstanceAs (Decidable (_ ∧ _ ∧ _ ∧ _))

structure Instant where
  seconds : Int
  nanos : Nat
  valid : IsInstant seconds nanos
deriving DecidableEq

namespace Instant

def of? (seconds : Int) (nanos : Nat) : Option Instant :=
  if valid : IsInstant seconds nanos then some ⟨seconds, nanos, valid⟩ else none

def ofMillis? (millis : Int) : Option Instant :=
  of? (millis / 1000) ((millis % 1000).toNat * 1000000)

/-- Whole milliseconds, rounded down; those of a leap second go on past its minute. -/
def millis (t : Instant) : Int := t.seconds * 1000 + t.nanos / 1000000

def secondsPerDay : Int := 86400

def date (t : Instant) : Date := Date.ofDayNumber (t.seconds / secondsPerDay)

def secondOfDay (t : Instant) : Nat := (t.seconds % secondsPerDay).toNat

end Instant

inductive Fault where
  | invalid
  | tooShort
  | tooLong
  | outOfRange
deriving DecidableEq, Repr

def Fault.message : Fault → String
  | .invalid => "input contains invalid characters"
  | .tooShort => "premature end of input"
  | .tooLong => "trailing input"
  | .outOfRange => "input is out of range"

end Wireform.Time

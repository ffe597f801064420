import Wireform.Directive
import Wireform.Time.Rfc3339

set_option autoImplicit false

namespace Wireform

namespace TimestampFormat

open Time

def write (format : TimestampFormat) (t : Instant) : Json :=
  match format with
  | .unixSeconds => .int t.seconds
  | .unixMillis => .int t.millis
  | .date => .str t.date.text
  | .unspecified => .str t.text
  | .rfc3339 => .str t.text

inductive Fault where
  | notWholeSeconds (number : Number)
  | notWholeMillis (number : Number)
  | outOfRange (value : Json)
  | badDate (text : String) (fault : Time.Fault)
  | badInstant (text : String) (fault : Time.Fault)
  | wrongKind (value : Json)

def Fault.message : Fault → String
  | .notWholeSeconds number => number.text ++ " is not whole seconds"
  | .notWholeMillis number => number.text ++ " is not whole milliseconds"
  | .outOfRange value => "timestamp " ++ value.compact ++ " is out of range"
  | .badDate text fault => "'" ++ text ++ "' is not a YYYY-MM-DD date: " ++ fault.message
  | .badInstant text fault => "'" ++ text ++ "' is not an RFC 3339 timestamp: " ++ fault.message
  | .wrongKind value => "unexpected " ++ value.kindName ++ " for timestamp"

def midnight? (d : Date) : Option Instant := Instant.of? (d.dayNumber * Instant.secondsPerDay) 0

def readText (text : String) : Except Fault Instant :=
  (Rfc3339.parse text).mapError (.badInstant text)

/-- Reads a wire value; `none` for a text that is not in the short form of the format and stays as it
is. -/
def read (format : TimestampFormat) (value : Json) : Except Fault (Option Instant) :=
  let inRange (t : Option Instant) : Except Fault (Option Instant) :=
    match t with
    | some t => .ok (some t)
    | none => .error (.outOfRange value)
  match format, value with
  | .unixSeconds, .num number =>
    match number.toSigned? with
    | some seconds => inRange (Instant.of? seconds 0)
    | none => .error (.notWholeSeconds number)
  | .unixMillis, .num number =>
    match number.toSigned? with
    | some millis => inRange (Instant.ofMillis? millis)
    | none => .error (.notWholeMillis number)
  | .date, .str text =>
    if text.toList.contains 'T' then .ok none
    else
      match Date.parse text with
      | .error fault => .error (.badDate text fault)
      | .ok day => inRange (midnight? day)
  | _, .str _ => .ok none
  | _, other => .error (.wrongKind other)

end TimestampFormat

end Wireform

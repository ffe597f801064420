import Wireform.Bytes
import Wireform.Integer
import Wireform.Plan.Basic
import Wireform.Timestamp

set_option autoImplicit false

namespace Wireform

inductive ValueFault where
  | notInteger (text : String)
  | notIntegral (number : Number)
  | unknownEnum (value : Json)
  | timestamp (fault : TimestampFormat.Fault)
  | bytes (fault : BytesEncoding.Fault)
  | notObject (value : Json)
  | notContainer (value : Json)
  | variantNotObject (field : String) (value : Json)
  | tagNotString (discriminator : String) (value : Json)
  | unknownTag (discriminator tag : String)

def ValueFault.message : ValueFault → String
  | .notInteger text => "'" ++ text ++ "' is not a 64-bit integer"
  | .notIntegral number => number.text ++ " is not an integer"
  | .unknownEnum value => "unknown enum value " ++ value.compact
  | .timestamp fault => fault.message
  | .bytes fault => fault.message
  | .notObject value => "expected object, got " ++ value.kindName
  | .notContainer value => "expected array or object, got " ++ value.kindName
  | .variantNotObject field value =>
    "variant '" ++ field ++ "' must be an object to flatten, got " ++ value.kindName
  | .tagNotString discriminator value =>
    "discriminator '" ++ discriminator ++ "' must be a string, got " ++ value.kindName
  | .unknownTag discriminator tag => "unknown " ++ discriminator ++ " value \"" ++ tag ++ "\""

abbrev Recoded := Except ValueFault Json

namespace EnumName

def named? (table : List EnumName) (name : String) : Option EnumName :=
  table.find? (·.name == name)

def numbered? (table : List EnumName) (number : Number) : Option EnumName := do
  let n ← number.toSigned?
  table.find? (·.number == n)

def find? (table : List EnumName) : Json → Option EnumName
  | .str name => named? table name
  | .num number => numbered? table number
  | _ => none

/-- The value that wire JSON means; a wire name wins over another value's own name. -/
def findWire? (table : List EnumName) : Json → Option EnumName
  | .str text => (table.find? (·.wire == text)).or (named? table text)
  | .num number => numbered? table number
  | _ => none

def decode (table : List EnumName) (value : Json) : Recoded :=
  match findWire? table value, value with
  | some entry, _ => .ok (.str entry.name)
  | none, .num _ => .ok value
  | none, _ => .error (.unknownEnum value)

end EnumName

namespace Transform

def encodeValue (transform : Transform) (value : Json) : Recoded :=
  match transform, value with
  | .integerAsNumber unsigned, .str text =>
    match Integer.parse unsigned text with
    | some n => .ok (.int n)
    | none => .error (.notInteger text)
  | .enumCustomNames _ table, _ =>
    match EnumName.find? table value with
    | some entry => .ok (.str entry.wire)
    | none => .ok value
  | .enumAsNumber _ table, _ =>
    match EnumName.find? table value with
    | some entry => .ok (.int entry.number)
    | none => .ok value
  | .timestampAs format, .str text =>
    match TimestampFormat.readText text with
    | .ok instant => .ok (format.write instant)
    | .error fault => .error (.timestamp fault)
  | .bytesAs encoding, .str text =>
    match BytesEncoding.base64.decode text with
    | .ok bytes => .ok (.str (encoding.encode bytes))
    | .error fault => .error (.bytes fault)
  | _, _ => .ok value

def decodeValue (transform : Transform) (value : Json) : Recoded :=
  match transform, value with
  | .integerAsNumber _, .num number =>
    match number with
    | .int n => .ok (.str (toString n))
    | .float _ => .error (.notIntegral number)
  | .enumCustomNames _ table, _ => EnumName.decode table value
  | .enumAsNumber _ table, _ => EnumName.decode table value
  | .timestampAs format, _ =>
    match format.read value with
    | .ok (some instant) => .ok (.str instant.text)
    | .ok none => .ok value
    | .error fault => .error (.timestamp fault)
  | .bytesAs encoding, .str text =>
    match encoding.decode text with
    | .ok bytes => .ok (.str (BytesEncoding.base64.encode bytes))
    | .error fault => .error (.bytes fault)
  | _, _ => .ok value

end Transform

end Wireform

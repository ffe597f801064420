import Wireform.Index.Basic

set_option autoImplicit false

namespace Wireform.WellKnown

def timestamp : String := "google.protobuf.Timestamp"

def nullValue : String := "google.protobuf.NullValue"

def messages : List (String × String) :=
  [(timestamp, "google/protobuf/timestamp.proto"),
    ("google.protobuf.Duration", "google/protobuf/duration.proto"),
    ("google.protobuf.Empty", "google/protobuf/empty.proto"),
    ("google.protobuf.FieldMask", "google/protobuf/field_mask.proto"),
    ("google.protobuf.Any", "google/protobuf/any.proto"),
    ("google.protobuf.Struct", "google/protobuf/struct.proto"),
    ("google.protobuf.Value", "google/protobuf/struct.proto"),
    ("google.protobuf.ListValue", "google/protobuf/struct.proto"),
    ("google.protobuf.DoubleValue", "google/protobuf/wrappers.proto"),
    ("google.protobuf.FloatValue", "google/protobuf/wrappers.proto"),
    ("google.protobuf.Int64Value", "google/protobuf/wrappers.proto"),
    ("google.protobuf.UInt64Value", "google/protobuf/wrappers.proto"),
    ("google.protobuf.Int32Value", "google/protobuf/wrappers.proto"),
    ("google.protobuf.UInt32Value", "google/protobuf/wrappers.proto"),
    ("google.protobuf.BoolValue", "google/protobuf/wrappers.proto"),
    ("google.protobuf.StringValue", "google/protobuf/wrappers.proto"),
    ("google.protobuf.BytesValue", "google/protobuf/wrappers.proto")]

def enums : List (String × String) :=
  [(nullValue, "google/protobuf/struct.proto")]

def isMessage (name : String) : Bool := messages.any (·.1 == name)

def isEnum (name : String) : Bool := enums.any (·.1 == name)

def isFile (path : String) : Bool := Text.startsWith "google/protobuf/" path

def package : String := "google.protobuf"

def localName (name : String) : String :=
  String.ofList (name.toList.drop (package.length + 1))

def message (name file : String) : Index.Message :=
  { fullName := name, localName := localName name, file, package, fields := [], oneofs := []
    wellKnown := true }

def enum (name file : String) : Index.Enum :=
  { fullName := name, localName := localName name, file, package
    values := [⟨"NULL_VALUE", 0, none⟩], wellKnown := true }

def addTo {α : Type} (make : String → String → α) (builtIn : List (String × String))
    (declared : KeyMap α) : KeyMap α :=
  builtIn.foldl (fun all (name, file) =>
    if all.contains name then all else all.insert name (make name file)) declared

end Wireform.WellKnown

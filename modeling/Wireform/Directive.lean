import Wireform.Json.Printer

set_option autoImplicit false

namespace Wireform

inductive Directive where
  | unwrap
  | flatten
  | flattenPrefix
  | nullable
  | int64Encoding
  | enumEncoding
  | timestampFormat
  | bytesEncoding
  | emptyBehavior
  | oneofValue
  | oneofConfig
  | enumValue
deriving DecidableEq, Repr, Inhabited

def Directive.name : Directive → String
  | .unwrap => "unwrap"
  | .flatten => "flatten"
  | .flattenPrefix => "flatten_prefix"
  | .nullable => "nullable"
  | .int64Encoding => "int64_encoding"
  | .enumEncoding => "enum_encoding"
  | .timestampFormat => "timestamp_format"
  | .bytesEncoding => "bytes_encoding"
  | .emptyBehavior => "empty_behavior"
  | .oneofValue => "oneof_value"
  | .oneofConfig => "oneof_config"
  | .enumValue => "enum_value"

inductive Int64Encoding where
  | unspecified
  | string
  | number
deriving DecidableEq, Repr, Inhabited

inductive EnumEncoding where
  | unspecified
  | string
  | number
deriving DecidableEq, Repr, Inhabited

inductive TimestampFormat where
  | unspecified
  | rfc3339
  | unixSeconds
  | unixMillis
  | date
deriving DecidableEq, Repr, Inhabited

inductive BytesEncoding where
  | unspecified
  | base64
  | base64Raw
  | base64Url
  | base64UrlRaw
  | hex
deriving DecidableEq, Repr, Inhabited

inductive EmptyBehavior where
  | unspecified
  | preserve
  | null
  | omit
deriving DecidableEq, Repr, Inhabited

structure Vocabulary (α : Type) where
  stem : String
  words : List (String × α)

namespace Vocabulary

variable {α : Type}

def shortForm (vocabulary : Vocabulary α) (text : String) : String :=
  let stem := vocabulary.stem.toList
  let cs := text.toList
  if stem.isPrefixOf cs then String.ofList (cs.drop stem.length) else text

/-- A value is spelled by its word, with or without the stem, or by its number. -/
def parse (vocabulary : Vocabulary α) : Json → Option α
  | .num number => do
    let index ← number.toNat?
    (← vocabulary.words[index]?).2
  | .str text => do
    let short := vocabulary.shortForm text
    (← vocabulary.words.find? fun entry => entry.1 == short).2
  | _ => none

def expected (vocabulary : Vocabulary α) : String :=
  ", ".intercalate (vocabulary.words.map (·.1))

def word [DecidableEq α] (vocabulary : Vocabulary α) (value : α) : String :=
  ((vocabulary.words.find? fun entry => entry.2 = value).map (·.1)).getD ""

end Vocabulary

def Int64Encoding.vocabulary : Vocabulary Int64Encoding :=
  ⟨"INT64_ENCODING_", [("UNSPECIFIED", .unspecified), ("STRING", .string), ("NUMBER", .number)]⟩

def EnumEncoding.vocabulary : Vocabulary EnumEncoding :=
  ⟨"ENUM_ENCODING_", [("UNSPECIFIED", .unspecified), ("STRING", .string), ("NUMBER", .number)]⟩

def TimestampFormat.vocabulary : Vocabulary TimestampFormat :=
  ⟨"TIMESTAMP_FORMAT_",
    [("UNSPECIFIED", .unspecified), ("RFC3339", .rfc3339), ("UNIX_SECONDS", .unixSeconds),
      ("UNIX_MILLIS", .unixMillis), ("DATE", .date)]⟩

def BytesEncoding.vocabulary : Vocabulary BytesEncoding :=
  ⟨"BYTES_ENCODING_",
    [("UNSPECIFIED", .unspecified), ("BASE64", .base64), ("BASE64_RAW", .base64Raw),
      ("BASE64URL", .base64Url), ("BASE64URL_RAW", .base64UrlRaw), ("HEX", .hex)]⟩

def EmptyBehavior.vocabulary : Vocabulary EmptyBehavior :=
  ⟨"EMPTY_BEHAVIOR_",
    [("UNSPECIFIED", .unspecified), ("PRESERVE", .preserve), ("NULL", .null), ("OMIT", .omit)]⟩

def TimestampFormat.isNumeric (format : TimestampFormat) : Bool :=
  format == .unixSeconds || format == .unixMillis

end Wireform

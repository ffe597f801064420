import Wireform.GoCode.Layout

set_option autoImplicit false

namespace Wireform.GoCode

inductive Helper where
  | each
  | isNull
  | isEmptyObject
  | int64Encode
  | int64Decode
  | enumEncode
  | enumDecode
  | enumToNumber
  | enumFromNumber
  | timestampEncode
  | timestampDecode
  | bytesEncode
  | bytesDecode
  | unwrapValue
  | wrapValue
deriving DecidableEq, Repr, Inhabited

namespace Helper

def all : List Helper :=
  [.each, .isNull, .isEmptyObject, .int64Encode, .int64Decode, .enumEncode, .enumDecode,
    .enumToNumber, .enumFromNumber, .timestampEncode, .timestampDecode, .bytesEncode, .bytesDecode,
    .unwrapValue, .wrapValue]

def baseName : Helper → String
  | .each => "Each"
  | .isNull => "IsNull"
  | .isEmptyObject => "IsEmptyObject"
  | .int64Encode => "Int64Encode"
  | .int64Decode => "Int64Decode"
  | .enumEncode => "EnumEncode"
  | .enumDecode => "EnumDecode"
  | .enumToNumber => "EnumToNumber"
  | .enumFromNumber => "EnumFromNumber"
  | .timestampEncode => "TimestampEncode"
  | .timestampDecode => "TimestampDecode"
  | .bytesEncode => "BytesEncode"
  | .bytesDecode => "BytesDecode"
  | .unwrapValue => "UnwrapValue"
  | .wrapValue => "WrapValue"

def name (pre : String) (helper : Helper) : String := pre ++ helper.baseName

def withNeeds : Helper → List Helper
  | .each => [.each, .isNull]
  | helper => [helper]

def imports : Helper → List String
  | .each => ["encoding/json", "fmt"]
  | .isNull => ["bytes"]
  | .isEmptyObject => ["encoding/json"]
  | .int64Encode => ["encoding/json", "strconv"]
  | .int64Decode => ["bytes", "encoding/json", "fmt", "strconv"]
  | .enumDecode => ["encoding/json", "fmt"]
  | .enumEncode | .enumToNumber | .enumFromNumber => ["encoding/json"]
  | .timestampEncode | .timestampDecode => ["encoding/json", "time"]
  | .bytesEncode | .bytesDecode => ["encoding/base64", "encoding/hex", "encoding/json"]
  | .unwrapValue | .wrapValue => ["encoding/json"]

end Helper

def onError (result : String) : List String := braces "if err != nil" ["return " ++ result]

def readInto (target source result : String) : List String :=
  braces s!"if err := json.Unmarshal({source}, &{target}); err != nil" ["return " ++ result]

def recoder (name parameters : String) (body : List String) : List String :=
  braces s!"func {name}({parameters}) func([]byte) ([]byte, error)"
    (braces "return func(v []byte) ([]byte, error)" body)

def readingRecoder (name parameters target type failure : String) (body : List String) :
    List String :=
  recoder name parameters ([s!"var {target} {type}"] ++ readInto target "v" failure ++ body)

namespace Helper

def eachItem (isNull label collection type entry item place : String) : List String :=
  [s!"case \"{label}\":", s!"var {collection} {type}"]
    ++ readInto collection "v" "fmt.Errorf(\"%s: %w\", key, err)"
    ++ braces s!"for {entry}, item := range {collection}" (
      braces s!"if {isNull}(item)" ["continue"]
        ++ ["out, err := fn(item)"]
        ++ onError s!"fmt.Errorf(\"{place}: %w\", key, {entry}, err)"
        ++ [s!"{item} = out"])
    ++ [s!"out, err := json.Marshal({collection})"]
    ++ onError "err"
    ++ ["raw[key] = out"]

def eachSource (pre : String) : List String :=
  let isNull := Helper.isNull.name pre
  [s!"// {pre}Each applies fn to the value at key, to each list element or to each map value."]
    ++ braces (s!"func {pre}Each(raw map[string]json.RawMessage, key string, container string, "
      ++ "fn func([]byte) ([]byte, error)) error") (
      ["v, ok := raw[key]"]
        ++ braces s!"if !ok || {isNull}(v)" ["return nil"]
        ++ braces "switch container" (
          eachItem isNull "list" "items" "[]json.RawMessage" "i" "items[i]" "%s[%d]"
            ++ eachItem isNull "map" "entries" "map[string]json.RawMessage" "k" "entries[k]" "%s[%q]"
            ++ ["default:", "out, err := fn(v)"]
            ++ onError "fmt.Errorf(\"%s: %w\", key, err)"
            ++ ["raw[key] = out"])
        ++ ["return nil"])

def choice (parameter : String) (cases : List (String × String)) (other : String) : List String :=
  braces s!"switch {parameter}"
    (cases.flatMap (fun (label, call) => [s!"case \"{label}\":", call]) ++ ["default:", other])

def timestampDecodeBody : List String :=
  ["var t time.Time"]
    ++ braces "switch format" (
      ["case \"unix_seconds\", \"unix_millis\":", "var n int64"]
        ++ readInto "n" "v" "nil, err"
        ++ ["if format == \"unix_seconds\" \x7b", "t = time.Unix(n, 0)", "\x7d else \x7b",
          "t = time.UnixMilli(n)", "\x7d"]
        ++ ["default:", "var s string"]
        ++ readInto "s" "v" "nil, err"
        ++ ["d, err := time.Parse(\"2006-01-02\", s)"]
        ++ onError "nil, err"
        ++ ["t = d"])
    ++ ["return json.Marshal(t.UTC().Format(time.RFC3339Nano))"]

def source (pre : String) (helper : Helper) : List String :=
  let name := helper.name pre
  match helper with
  | .each => eachSource pre
  | .isNull =>
    braces s!"func {name}(v []byte) bool"
      ["return bytes.Equal(bytes.TrimSpace(v), []byte(\"null\"))"]
  | .isEmptyObject =>
    braces s!"func {name}(v []byte) bool"
      ["var obj map[string]json.RawMessage",
        "return json.Unmarshal(v, &obj) == nil && obj != nil && len(obj) == 0"]
  | .int64Encode =>
    [s!"// {name} turns protojson's quoted 64-bit integers into JSON numbers."]
      ++ readingRecoder name "unsigned bool" "s" "string" "v, nil" (
        ["if unsigned \x7b"]
          ++ braces "if _, err := strconv.ParseUint(s, 10, 64); err != nil" ["return nil, err"]
          ++ ["\x7d else if _, err := strconv.ParseInt(s, 10, 64); err != nil \x7b",
            "return nil, err", "\x7d", "return []byte(s), nil"])
  | .int64Decode =>
    braces s!"func {name}(v []byte) ([]byte, error)" (
      ["trimmed := bytes.TrimSpace(v)"]
        ++ braces "if len(trimmed) > 0 && trimmed[0] == '\"'" ["return v, nil"]
        ++ ["s := string(trimmed)"]
        ++ braces "if _, err := strconv.ParseInt(s, 10, 64); err != nil" (
          braces "if _, uerr := strconv.ParseUint(s, 10, 64); uerr != nil"
            ["return nil, fmt.Errorf(\"%s is not a 64-bit integer\", s)"])
        ++ ["return json.Marshal(s)"])
  | .enumEncode =>
    readingRecoder name "names map[string]string" "s" "string" "v, nil" (
      braces "if name, ok := names[s]; ok" ["return json.Marshal(name)"] ++ ["return v, nil"])
  | .enumDecode =>
    readingRecoder name "values map[string]string" "s" "string" "v, nil" (
      ["name, ok := values[s]"]
        ++ braces "if !ok" ["return nil, fmt.Errorf(\"unknown enum value %q\", s)"]
        ++ ["return json.Marshal(name)"])
  | .enumToNumber =>
    readingRecoder name "numbers map[string]int32" "s" "string" "v, nil" (
      braces "if n, ok := numbers[s]; ok" ["return json.Marshal(n)"] ++ ["return v, nil"])
  | .enumFromNumber =>
    readingRecoder name "names map[int32]string" "n" "int32" "v, nil" (
      braces "if name, ok := names[n]; ok" ["return json.Marshal(name)"] ++ ["return v, nil"])
  | .timestampEncode =>
    [s!"// {name} re-expresses an RFC 3339 timestamp. Sub-unit precision is dropped."]
      ++ readingRecoder name "format string" "s" "string" "nil, err" (
        ["t, err := time.Parse(time.RFC3339Nano, s)"]
          ++ onError "nil, err"
          ++ choice "format"
            [("unix_seconds", "return json.Marshal(t.Unix())"),
              ("unix_millis", "return json.Marshal(t.UnixMilli())")]
            "return json.Marshal(t.UTC().Format(\"2006-01-02\"))")
  | .timestampDecode => recoder name "format string" timestampDecodeBody
  | .bytesEncode =>
    readingRecoder name "encoding string" "s" "string" "nil, err" (
      ["b, err := base64.StdEncoding.DecodeString(s)"]
        ++ onError "nil, err"
        ++ choice "encoding"
          [("hex", "return json.Marshal(hex.EncodeToString(b))"),
            ("base64_raw", "return json.Marshal(base64.RawStdEncoding.EncodeToString(b))"),
            ("base64url", "return json.Marshal(base64.URLEncoding.EncodeToString(b))")]
          "return json.Marshal(base64.RawURLEncoding.EncodeToString(b))")
  | .bytesDecode =>
    readingRecoder name "encoding string" "s" "string" "nil, err" (
      ["var b []byte", "var err error"]
        ++ choice "encoding"
          [("hex", "b, err = hex.DecodeString(s)"),
            ("base64_raw", "b, err = base64.RawStdEncoding.DecodeString(s)"),
            ("base64url", "b, err = base64.URLEncoding.DecodeString(s)")]
          "b, err = base64.RawURLEncoding.DecodeString(s)"
        ++ onError "nil, err"
        ++ ["return json.Marshal(base64.StdEncoding.EncodeToString(b))"])
  | .unwrapValue =>
    [s!"// {name} replaces a map value object by its list field."]
      ++ readingRecoder name "field string" "obj" "map[string]json.RawMessage" "nil, err" (
        braces "if items, ok := obj[field]; ok" ["return items, nil"]
          ++ ["return []byte(\"[]\"), nil"])
  | .wrapValue =>
    readingRecoder name "field string" "items" "[]json.RawMessage" "nil, err" (
      braces "if len(items) == 0" ["return []byte(\"\x7b\x7d\"), nil"]
        ++ ["return json.Marshal(map[string]json.RawMessage\x7bfield: v\x7d)"])

end Helper

end Wireform.GoCode

import Wireform.GoCode.Helper
import Wireform.Json.Printer
import Wireform.Plan.Build
import Wireform.Text.Identifier

set_option autoImplicit false

namespace Wireform.GoCode

inductive Table where
  | texts (entries : List (String × String))
  | numbers (entries : List (String × Int))
  | byNumber (entries : List (Int × String))
deriving DecidableEq, Repr

namespace Table

def type : Table → String
  | .texts _ => "map[string]string"
  | .numbers _ => "map[string]int32"
  | .byNumber _ => "map[int32]string"

def entryLines : Table → List String
  | .texts entries => entries.map fun (k, v) => quote k ++ ": " ++ quote v ++ ","
  | .numbers entries => entries.map fun (k, n) => quote k ++ ": " ++ toString n ++ ","
  | .byNumber entries => entries.map fun (n, v) => toString n ++ ": " ++ quote v ++ ","

def lines (name : String) (table : Table) : List String :=
  block ([s!"var {name} = {table.type}\x7b"] ++ table.entryLines ++ ["\x7d"])

end Table

structure Fragment where
  lines : List String
  helpers : List Helper
  tables : List (String × Table)
  imports : List String

namespace Fragment

def empty : Fragment := ⟨[], [], [], []⟩

instance : Append Fragment where
  append a b := ⟨a.lines ++ b.lines, a.helpers ++ b.helpers, a.tables ++ b.tables,
    a.imports ++ b.imports⟩

def join (fragments : List Fragment) : Fragment := fragments.foldl (· ++ ·) empty

def ofBlock (texts : List String) : Fragment := { empty with lines := block texts }

def ofLine (text : String) : Fragment := { empty with lines := [text] }

def calling (helper : Helper) (f : Fragment) : Fragment :=
  { f with helpers := helper.withNeeds ++ f.helpers }

def importing (path : String) (f : Fragment) : Fragment := { f with imports := path :: f.imports }

end Fragment

structure Context where
  index : Index
  file : Index.File
  pre : String
  aliases : KeyMap String

namespace Context

def foreignPackage? (index : Index) (file : Index.File) (message : Index.Message) :
    Option (String × String) := do
  let here ← file.goImportPath?
  let target ← index.file? message.file
  let there ← target.goImportPath?
  if here = there then none else some (there, target.goPackageName)

variable (context : Context)

def helper (h : Helper) : String := h.name context.pre

def nestedFunction (encode : Bool) (messageType : String) : String :=
  let verb := if encode then "Encode" else "Decode"
  match context.index.message? messageType with
  | none => verb ++ Text.pascalCase messageType ++ "WireJSON"
  | some message =>
    let function := verb ++ message.ident ++ "WireJSON"
    match foreignPackage? context.index context.file message with
    | some (path, name) => (context.aliases.get? path).getD name ++ "." ++ function
    | none => function

def tableName (enumType suffix : String) : String :=
  context.pre ++ Text.pascalCase enumType ++ suffix

end Context

def namesTable (table : List EnumName) : Table := .texts (table.map fun e => (e.name, e.wire))

/-- The value that a text on the wire stands for; own names count too, unless they stand for another
value. -/
def valuesTable (table : List EnumName) : Table :=
  let wires := table.map (·.wire)
  .texts (table.map (fun e => (e.wire, e.name))
    ++ (table.filter fun e => !wires.contains e.name).map fun e => (e.name, e.name))

def numbersTable (table : List EnumName) : Table := .numbers (table.map fun e => (e.name, e.number))

def firstOfEach : List Int → List EnumName → List (Int × String)
  | _, [] => []
  | seen, e :: rest =>
    if seen.contains e.number then firstOfEach seen rest
    else (e.number, e.name) :: firstOfEach (seen ++ [e.number]) rest

def byNumberTable (table : List EnumName) : Table := .byNumber (firstOfEach [] table)

def timestampMode : TimestampFormat → String
  | .unixSeconds => "unix_seconds"
  | .unixMillis => "unix_millis"
  | _ => "date"

def bytesMode : BytesEncoding → String
  | .hex => "hex"
  | .base64Raw => "base64_raw"
  | .base64Url => "base64url"
  | _ => "base64url_raw"

def containerMode : Container → String
  | .single => "single"
  | .list => "list"
  | .mapValues => "map"

structure ValueFunction where
  expression : String
  helpers : List Helper
  tables : List (String × Table)

namespace Context

variable (context : Context)

def called (h : Helper) (argument : String) : ValueFunction :=
  ⟨context.helper h ++ "(" ++ argument ++ ")", [h], []⟩

def withTable (h : Helper) (name : String) (table : Table) : ValueFunction :=
  ⟨context.helper h ++ "(" ++ name ++ ")", [h], [(name, table)]⟩

def valueFunction? (encode : Bool) : Transform → Option ValueFunction
  | .nested messageType => some ⟨context.nestedFunction encode messageType, [], []⟩
  | .unwrapValues _ key =>
    some (context.called (if encode then .unwrapValue else .wrapValue) (quote key))
  | .integerAsNumber unsigned =>
    some (if encode then context.called .int64Encode (if unsigned then "true" else "false")
      else ⟨context.helper .int64Decode, [.int64Decode], []⟩)
  | .enumCustomNames enumType table =>
    -- Both directions know the names.
    let names := (context.tableName enumType "Names", namesTable table)
    some (if encode then context.withTable .enumEncode names.1 names.2
      else
        let f := context.withTable .enumDecode (context.tableName enumType "Values")
          (valuesTable table)
        { f with tables := names :: f.tables })
  | .enumAsNumber enumType table =>
    some (if encode then
      context.withTable .enumToNumber (context.tableName enumType "Numbers") (numbersTable table)
    else
      context.withTable .enumFromNumber (context.tableName enumType "ByNumber")
        (byNumberTable table))
  | .timestampAs format =>
    some (context.called (if encode then .timestampEncode else .timestampDecode)
      ("\"" ++ timestampMode format ++ "\""))
  | .bytesAs encoding =>
    some (context.called (if encode then .bytesEncode else .bytesDecode)
      ("\"" ++ bytesMode encoding ++ "\""))
  | _ => none

def eachValue (encode : Bool) (step : Step) : Fragment :=
  match context.valueFunction? encode step.transform with
  | none => .empty
  | some f =>
    let each := context.helper .each
    let key := quote step.jsonName
    let container := containerMode step.container
    let call := s!"{each}(raw, {key}, \"{container}\", {f.expression})"
    { lines := block (braces s!"if err := {call}; err != nil" ["return nil, err"])
      helpers := f.helpers ++ Helper.each.withNeeds
      tables := f.tables
      imports := [] }

end Context

def liftedKey (pre : String) : String := if pre.isEmpty then "k" else quote pre ++ "+k"

def keyList (keys : List String) : String :=
  "[]string\x7b" ++ ", ".intercalate (keys.map quote) ++ "\x7d"

namespace Context

variable (context : Context)

def encodeFlatten (key pre : String) : Fragment :=
  let isNull := context.helper .isNull
  let lifted := liftedKey pre
  Fragment.calling .isNull (.ofBlock
    (braces s!"if v, ok := raw[{key}]; ok" (
      [s!"delete(raw, {key})"]
        ++ braces s!"if !{isNull}(v)" (
          ["var child map[string]json.RawMessage"]
            ++ readInto "child" "v" "nil, err"
            ++ braces "for k, cv := range child" [s!"raw[{lifted}] = cv"]))))

def decodeFlatten (key pre : String) (childKeys : List String) : Fragment :=
  let lifted := liftedKey pre
  let keys := keyList childKeys
  .ofBlock (
    ["\x7b", "child := map[string]json.RawMessage\x7b\x7d"]
      ++ braces s!"for _, k := range {keys}" (
        braces s!"if v, ok := raw[{lifted}]; ok" ["child[k] = v", s!"delete(raw, {lifted})"])
      ++ braces "if len(child) > 0" (
        ["v, err := json.Marshal(child)"] ++ onError "nil, err" ++ [s!"raw[{key}] = v"])
      ++ ["\x7d"])

def encodeVariant (key : String) (flatten : Bool) (opening : String) (v : Variant) : Fragment :=
  let isNull := context.helper .isNull
  let member := quote v.jsonName
  let lifting :=
    if flatten then
      Fragment.ofBlock (
        [s!"delete(raw, {member})", "var child map[string]json.RawMessage"]
          ++ readInto "child" "v" s!"nil, fmt.Errorf(\"%s: %w\", {member}, err)"
          ++ braces "for k, cv := range child" ["raw[k] = cv"])
    else .empty
  let tag := quote (Json.quote v.value)
  Fragment.ofLine s!"{opening} v, ok := raw[{member}]; ok && !{isNull}(v) \x7b"
    ++ lifting
    ++ Fragment.ofLine s!"raw[{key}] = json.RawMessage({tag})"

def encodeOneof (key : String) (flatten : Bool) (variants : List Variant) : Fragment :=
  let chain :=
    match variants with
    | [] => Fragment.empty
    | first :: others =>
      context.encodeVariant key flatten "if" first
        ++ Fragment.join (others.map (context.encodeVariant key flatten "\x7d else if"))
        ++ Fragment.ofLine "\x7d"
  Fragment.calling .isNull (chain.importing "fmt")

def decodeVariant (flatten : Bool) (v : Variant) : Fragment :=
  let keys := keyList v.childKeys
  let member := quote v.jsonName
  let label := quote v.value
  let gathering :=
    if flatten then
      Fragment.ofBlock (
        ["child := map[string]json.RawMessage\x7b\x7d"]
          ++ braces s!"for _, k := range {keys}" (
            braces "if cv, ok := raw[k]; ok" ["child[k] = cv", "delete(raw, k)"])
          ++ ["cb, err := json.Marshal(child)"]
          ++ onError "nil, err"
          ++ [s!"raw[{member}] = cb"])
    else .empty
  Fragment.ofLine s!"case {label}:" ++ gathering

def decodeOneof (key : String) (flatten : Bool) (variants : List Variant) : Fragment :=
  let isNull := context.helper .isNull
  let opening := Fragment.ofBlock (
    [s!"if v, ok := raw[{key}]; ok \x7b", s!"delete(raw, {key})", s!"if !{isNull}(v) \x7b",
      "var tag string"]
      ++ readInto "tag" "v" s!"nil, fmt.Errorf(\"%s: %w\", {key}, err)"
      ++ ["switch tag \x7b"])
  let closing := Fragment.ofBlock
    ["default:", s!"return nil, fmt.Errorf(\"unknown %s value %q\", {key}, tag)", "\x7d", "\x7d",
      "\x7d"]
  Fragment.calling .isNull
    ((opening ++ Fragment.join (variants.map (decodeVariant flatten)) ++ closing).importing "fmt")

def encodeStep (step : Step) : Fragment :=
  let key := quote step.jsonName
  match step.transform with
  | .emptyValueAs behavior =>
    let isEmpty := context.helper .isEmptyObject
    let action :=
      match behavior with
      | .omit => s!"delete(raw, {key})"
      | _ => s!"raw[{key}] = json.RawMessage(\"null\")"
    Fragment.calling .isEmptyObject
      (.ofBlock (braces s!"if v, ok := raw[{key}]; ok && {isEmpty}(v)" [action]))
  | .nullable =>
    .ofBlock (braces s!"if _, ok := raw[{key}]; !ok" [s!"raw[{key}] = json.RawMessage(\"null\")"])
  | .flatten _ pre _ => context.encodeFlatten key pre
  | .oneofDiscriminator _ flatten variants => context.encodeOneof key flatten variants
  | .unwrapRoot _ _ => .empty
  | _ => context.eachValue true step

def decodeStep (step : Step) : Fragment :=
  let key := quote step.jsonName
  let isNull := context.helper .isNull
  match step.transform with
  | .emptyValueAs .null =>
    Fragment.calling .isNull (.ofBlock (braces s!"if v, ok := raw[{key}]; ok && {isNull}(v)"
      [s!"raw[{key}] = json.RawMessage(\"\x7b\x7d\")"]))
  -- Nothing tells an omitted value from one that was never set.
  | .emptyValueAs _ => .empty
  | .nullable =>
    Fragment.calling .isNull (.ofBlock (braces s!"if v, ok := raw[{key}]; ok && {isNull}(v)"
      [s!"delete(raw, {key})"]))
  | .flatten _ pre childKeys => decodeFlatten key pre childKeys
  | .oneofDiscriminator _ flatten variants => context.decodeOneof key flatten variants
  | .unwrapRoot _ _ => .empty
  | _ => context.eachValue false step

end Context

def readMembers : List String :=
  ["var raw map[string]json.RawMessage"]
    ++ readInto "raw" "data" "nil, err"
    ++ braces "if raw == nil" ["raw = map[string]json.RawMessage\x7b\x7d"]

def methods (ident encode decode : String) : Fragment :=
  .ofBlock (
    ["", s!"// MarshalJSON writes {ident} in its wire format."]
      ++ braces s!"func (x *{ident}) MarshalJSON() ([]byte, error)" (
        braces "if x == nil" ["return []byte(\"null\"), nil"]
          ++ ["data, err := protojson.Marshal(x)"]
          ++ onError "nil, err"
          ++ [s!"return {encode}(data)"])
      ++ ["", s!"// UnmarshalJSON reads {ident} from its wire format."]
      ++ braces s!"func (x *{ident}) UnmarshalJSON(data []byte) error" (
        [s!"baseline, err := {decode}(data)"]
          ++ onError "err"
          ++ ["return protojson.Unmarshal(baseline, x)"]))

def root? (plan : Plan) : Option (String × Bool) :=
  plan.steps.findSome? fun step =>
    match step.transform with
    | .unwrapRoot _ isMap => some (quote step.jsonName, isMap)
    | _ => none

namespace Context

variable (context : Context)

def encodeEnd (plan : Plan) : List String :=
  match root? plan with
  | none => ["return json.Marshal(raw)", "\x7d"]
  | some (key, isMap) =>
    let empty := if isMap then "\x7b\x7d" else "[]"
    braces s!"if v, ok := raw[{key}]; ok" ["return v, nil"]
      ++ [s!"return []byte(\"{empty}\"), nil", "\x7d"]

def encodeFunction (plan : Plan) (ident name : String) : Fragment :=
  .ofBlock (
    ["", s!"// {name} rewrites protojson output for {ident} into the wire format.",
      s!"func {name}(data []byte) ([]byte, error) \x7b"] ++ readMembers)
    ++ Fragment.join ((plan.steps.takeWhile (!·.transform.isRootUnwrap)).map context.encodeStep)
    ++ Fragment.ofBlock (encodeEnd plan)

def readRoot (key : String) (isMap : Bool) : Fragment :=
  let isNull := context.helper .isNull
  let type := if isMap then "map[string]json.RawMessage" else "[]json.RawMessage"
  Fragment.calling .isNull (.ofBlock (
    ["raw := map[string]json.RawMessage\x7b\x7d"]
      ++ braces s!"if !{isNull}(data)" (
        [s!"var probe {type}"]
          ++ readInto "probe" "data" "nil, err"
          ++ braces "if len(probe) > 0" [s!"raw[{key}] = data"])))

def decodeFunction (plan : Plan) (ident name : String) : Fragment :=
  let start :=
    match root? plan with
    | none => Fragment.ofBlock readMembers
    | some (key, isMap) => context.readRoot key isMap
  .ofBlock
    ["", s!"// {name} rewrites the wire format of {ident} back into protojson input.",
      s!"func {name}(data []byte) ([]byte, error) \x7b"]
    ++ start
    ++ Fragment.join (plan.steps.reverse.map context.decodeStep)
    ++ Fragment.ofBlock ["return json.Marshal(raw)", "\x7d"]

def messageCode (message : Index.Message) (plan : Plan) : Fragment :=
  let ident := message.ident
  let encode := s!"Encode{ident}WireJSON"
  let decode := s!"Decode{ident}WireJSON"
  methods ident encode decode
    ++ context.encodeFunction plan ident encode
    ++ context.decodeFunction plan ident decode

end Context

end Wireform.GoCode

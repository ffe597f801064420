import Wireform.Settings

set_option autoImplicit false

namespace Wireform.CommandLine

inductive Command where
  | generate
  | lint
  | plan
  | encode
  | decode
deriving DecidableEq, Repr

namespace Command

def all : List Command := [.generate, .lint, .plan, .encode, .decode]

def name : Command → String
  | .generate => "generate"
  | .lint => "lint"
  | .plan => "plan"
  | .encode => "encode"
  | .decode => "decode"

def ofName? (name : String) : Option Command := all.find? (·.name == name)

def meaning : Command → String
  | .generate => "Generate Go, TypeScript and OpenAPI artifacts"
  | .lint => "Check directives without generating anything"
  | .plan => "Print encoding plans as JSON"
  | .encode => "Rewrite a baseline protobuf JSON payload into its wire form"
  | .decode => "Rewrite a wire payload back into baseline protobuf JSON"

end Command

inductive Parameter where
  | descriptors
  | payload
  | extensionPackage
  | maxDepth
  | file
  | target
  | out
  | serverPackage
  | clientPackage
  | format
  | message
  | quiet
  | strict
  | check
  | pretty
  | verbose
  | help
  | version
deriving DecidableEq, Repr

inductive Shape where
  | positional
  | single
  | repeated
  | flag
  | count
deriving DecidableEq, Repr

namespace Parameter

def shape : Parameter → Shape
  | .descriptors | .payload => .positional
  | .extensionPackage | .maxDepth | .out | .serverPackage | .clientPackage | .format | .message =>
    .single
  | .file | .target => .repeated
  | .quiet | .strict | .check | .pretty | .help | .version => .flag
  | .verbose => .count

def name : Parameter → String
  | .descriptors => "descriptors"
  | .payload => "payload"
  | .extensionPackage => "extension-package"
  | .maxDepth => "max-depth"
  | .file => "file"
  | .target => "target"
  | .out => "out"
  | .serverPackage => "server-package"
  | .clientPackage => "client-package"
  | .format => "format"
  | .message => "message"
  | .quiet => "quiet"
  | .strict => "strict"
  | .check => "check"
  | .pretty => "pretty"
  | .verbose => "verbose"
  | .help => "help"
  | .version => "version"

def valueName : Parameter → String
  | .descriptors => "DESCRIPTORS"
  | .payload => "PAYLOAD"
  | .extensionPackage => "EXTENSION_PACKAGE"
  | .maxDepth => "MAX_DEPTH"
  | .file => "FILES"
  | .target => "TARGETS"
  | .out => "OUT"
  | .serverPackage => "SERVER_PACKAGE"
  | .clientPackage => "CLIENT_PACKAGE"
  | .format => "FORMAT"
  | .message => "MESSAGE"
  | .quiet | .strict | .check | .pretty | .verbose | .help | .version => ""

def letter? : Parameter → Option Char
  | .quiet => some 'q'
  | .verbose => some 'v'
  | .help => some 'h'
  | .version => some 'V'
  | _ => none

def meaning : Parameter → String
  | .descriptors => "Descriptor set (JSON) or a directory of descriptor sets"
  | .payload => "Payload file"
  | .extensionPackage => "Proto package declaring the directive extensions"
  | .maxDepth => "Bound on type nesting depth"
  | .file => "Schema file to generate for (repeatable; default: every file)"
  | .target =>
    "Artifact to emit: go-server, go-client, typescript, openapi (repeatable; default: all)"
  | .out => "Output directory; each target gets its own subdirectory"
  | .serverPackage => "Go package name for server output"
  | .clientPackage => "Go package name for client output"
  | .format => "Output format: text or json"
  | .message => "Message type (fully-qualified name)"
  | .quiet => "Print less"
  | .strict => "Treat warnings as errors"
  | .check => "Check the wire payload against the generated OpenAPI schema"
  | .pretty => "Pretty-print JSON output"
  | .verbose => "Increase log verbosity (-v info, -vv debug, -vvv trace)"
  | .help => "Print help"
  | .version => "Print version"

def takesValue (p : Parameter) : Bool := p.shape != .flag && p.shape != .count

def text (p : Parameter) : String :=
  match p.shape with
  | .positional => "<" ++ p.valueName ++ ">"
  | .single | .repeated => "--" ++ p.name ++ " <" ++ p.valueName ++ ">"
  | .flag => "--" ++ p.name
  | .count => "--" ++ p.name ++ "..."

def magnitudeBelow (limit sum : Nat) : List Char → Except String Nat
  | [] => .ok sum
  | c :: rest =>
    if c.isDigit then
      let sum := sum * 10 + (c.toNat - '0'.toNat)
      if sum < limit then magnitudeBelow limit sum rest
      else .error "number too large to fit in target type"
    else .error "invalid digit found in string"

def readNat (text : String) : Except String Nat :=
  match text.toList with
  | [] => .error "cannot parse integer from empty string"
  | ['+'] => .error "invalid digit found in string"
  | '+' :: digits => magnitudeBelow 0x10000000000000000 0 digits
  | digits => magnitudeBelow 0x10000000000000000 0 digits

def readTarget (text : String) : Except String Target :=
  match Target.ofName? text with
  | some named => .ok named
  | none =>
    .error ("unknown target '" ++ text ++ "': expected go-server, go-client, typescript or openapi")

def isPath (p : Parameter) : Bool := p = .descriptors ∨ p = .payload ∨ p = .out

def fault? (p : Parameter) (value : String) : Option String :=
  let reason {α : Type} : Except String α → Option String
    | .ok _ => none
    | .error reason => some reason
  match p with
  | .maxDepth => reason (readNat value)
  | .target => reason (readTarget value)
  | _ => none

def default? : Parameter → Option String
  | .extensionPackage => some Settings.default.extensionPackage
  | .maxDepth => some (toString Settings.default.maxDepth)
  | .out => some "gen"
  | .format => some "text"
  | _ => none

end Parameter

namespace Command

def required : Command → List Parameter
  | .generate | .lint | .plan => [.descriptors]
  | .encode | .decode => [.descriptors, .message, .payload]

def parameters : Option Command → List Parameter
  | none => [.verbose, .help, .version]
  | some .generate =>
    [.descriptors, .extensionPackage, .maxDepth, .file, .target, .out, .serverPackage,
      .clientPackage, .quiet, .verbose, .help]
  | some .lint =>
    [.descriptors, .extensionPackage, .maxDepth, .format, .strict, .quiet, .verbose, .help]
  | some .plan => [.descriptors, .extensionPackage, .maxDepth, .message, .verbose, .help]
  | some .encode | some .decode =>
    [.descriptors, .extensionPackage, .maxDepth, .message, .payload, .check, .pretty, .verbose,
      .help]

end Command

end Wireform.CommandLine

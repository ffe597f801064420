import Wireform.CommandLine.Parser

set_option autoImplicit false

namespace Wireform.CommandLine

structure Generation where
  files : List String
  out : String
  quiet : Bool

structure Inspection where
  asJson : Bool
  strict : Bool
  quiet : Bool

inductive Direction where
  | encode
  | decode
deriving DecidableEq, Repr

structure Conversion where
  direction : Direction
  message : String
  payload : String
  check : Bool
  pretty : Bool

inductive Task where
  | generate (generation : Generation)
  | lint (inspection : Inspection)
  | plan (message : Option String)
  | convert (conversion : Conversion)

structure Invocation where
  descriptors : String
  settings : Settings
  task : Task

namespace Invocation

-- The parser has checked the values, so that no number or target is left out here.
def settingsOf (given : Given) : Settings :=
  let settings := Settings.default
  let settings :=
    match given.value? .extensionPackage with
    | some package => settings.withExtensionPackage package
    | none => settings
  { settings with
    serverPackage := given.value? .serverPackage
    clientPackage := given.value? .clientPackage
    targets := (given.values .target).filterMap Target.ofName?
    maxDepth :=
      match (given.value? .maxDepth).map Parameter.readNat with
      | some (.ok depth) => depth
      | _ => settings.maxDepth }

def text (given : Given) (p : Parameter) : String := (given.value? p).getD ""

def conversionOf (given : Given) (direction : Direction) : Conversion :=
  ⟨direction, text given .message, text given .payload, given.has .check, given.has .pretty⟩

def taskOf (given : Given) : Command → Task
  | .generate => .generate ⟨given.values .file, text given .out, given.has .quiet⟩
  | .lint => .lint ⟨text given .format == "json", given.has .strict, given.has .quiet⟩
  | .plan => .plan (given.value? .message)
  | .encode => .convert (conversionOf given .encode)
  | .decode => .convert (conversionOf given .decode)

def ofGiven (command : Command) (given : Given) : Invocation :=
  ⟨text given .descriptors, settingsOf given, taskOf given command⟩

/-- Reads a command line without the name of the program. Nothing is logged, so `--verbose` does not
change what is asked for. -/
def parse (arguments : List String) : Except Stop Invocation := do
  let (command, given) ← CommandLine.parse arguments
  return ofGiven command given

def payload? (invocation : Invocation) : Option String :=
  match invocation.task with
  | .convert conversion => some conversion.payload
  | _ => none

end Invocation

end Wireform.CommandLine

import Wireform.Codec.Decode
import Wireform.Codec.Encode
import Wireform.CommandLine.Help
import Wireform.CommandLine.Invocation
import Wireform.Conformance
import Wireform.Files.Volume
import Wireform.Lint
import Wireform.Plan.Writer

set_option autoImplicit false

namespace Wireform.CommandLine

structure Failure where
  errors : List String
  exitCode : Nat
deriving DecidableEq, Repr

structure Outcome where
  errors : List String
  files : List (String × String)
  output : String
  exitCode : Nat
deriving DecidableEq, Repr

namespace Failure

def of (message : String) (exitCode : Nat) : Failure := ⟨["Error: " ++ message], exitCode⟩

def ofLoad (error : LoadError) : Failure := of error.message error.exitCode

def ofPayload (error : LoadError) : Failure :=
  of ("loading payload: " ++ error.message) error.exitCode

def ofRun (error : Run.Error) : Failure :=
  ⟨("Error: " ++ error.message) :: error.findings.map fun f => "  " ++ f.text, error.exitCode⟩

def ofCodec (error : CodecError) : Failure := of error.message error.exitCode

def ofWire (error : Conformance.WireError) : Failure :=
  let violations :=
    match error with
    | .nonconforming (.mismatch _ violations) => violations
    | _ => []
  ⟨("Error: " ++ error.message) :: violations.map fun v => "  " ++ v.text, error.exitCode⟩

def outcome (failure : Failure) : Outcome := ⟨failure.errors, [], "", failure.exitCode⟩

def creating (folder reason : String) : Failure :=
  ⟨["Error creating " ++ folder ++ ": " ++ reason], 3⟩

def writing (path reason : String) : Failure :=
  ⟨["Error writing to " ++ path ++ ": " ++ reason], 3⟩

end Failure

namespace Outcome

def printing (output : String) : Outcome := ⟨[], [], output, 0⟩

def brokenOff (outcome : Outcome) (failure : Failure) : Outcome :=
  ⟨outcome.errors ++ failure.errors, [], "", failure.exitCode⟩

end Outcome

abbrev Disk := String → Option Node

namespace Invocation

variable (disk : Disk) (invocation : Invocation)

def load : Except Failure Schema.FileSet :=
  (Load.descriptors invocation.descriptors (disk invocation.descriptors)).mapError Failure.ofLoad

def compile : Except Failure Run.Compiled := do
  let set ← invocation.load disk
  (Run.compile set [] invocation.settings).mapError Failure.ofRun

def pathOf (out : String) (artifact : Artifact) : String :=
  Path.join (Path.join out artifact.target.name) artifact.name

def generate (task : Generation) : Except Failure Outcome := do
  let set ← invocation.load disk
  let output ← (Run.generate set task.files invocation.settings).mapError Failure.ofRun
  let summary :=
    "Generated " ++ toString output.artifacts.length ++ " files (" ++ toString output.plans.size
      ++ " plans) in " ++ task.out ++ "\n"
  return {
    errors := output.warnings.map fun w => "warning: " ++ w.text
    files := output.artifacts.map fun a => (pathOf task.out a, a.content)
    output := if task.quiet then "" else summary
    exitCode := 0 }

def lint (task : Inspection) : Except Failure Outcome := do
  let path := invocation.descriptors
  let node := disk path
  if node.isNone then throw (.of ("path not found: " ++ path) 2)
  let result := Lint.lint path node invocation.settings task.strict
  let output := if task.asJson then result.toJson.pretty ++ "\n" else result.text task.quiet
  return { Outcome.printing output with exitCode := if result.failed = 0 then 0 else 1 }

def showPlans (message : Option String) : Except Failure Outcome := do
  let compiled ← invocation.compile disk
  match message with
  | none => return .printing (compiled.plans.toJson.pretty ++ "\n")
  | some name =>
    if (compiled.index.message? name).isNone then
      throw (.of ("no message named '" ++ name ++ "'") 2)
    let shown :=
      match compiled.plans.plan? name with
      | some plan => plan.toJson
      | none => .null
    return .printing (shown.pretty ++ "\n")

/-- Converts a payload. What is checked is always the wire form: the payload when it is decoded, and the
result when it is encoded. -/
def convert (task : Conversion) : Except Failure Outcome := do
  let compiled ← invocation.compile disk
  let payload ← (Load.document task.payload (disk task.payload)).mapError Failure.ofPayload
  let codec : Codec := ⟨compiled.index, compiled.plans⟩
  let checkWire (value : Json) : Except Failure Unit :=
    if task.check then
      (Conformance.checkMessage compiled.index compiled.plans task.message value).mapError
        Failure.ofWire
    else .ok ()
  let result ←
    match task.direction with
    | .encode => do
      let wire ← (codec.encode task.message payload).mapError Failure.ofCodec
      checkWire wire
      pure wire
    | .decode => do
      checkWire payload
      (codec.decode task.message payload).mapError Failure.ofCodec
  return .printing ((if task.pretty then result.pretty else result.compact) ++ "\n")

def attempt : Except Failure Outcome :=
  match invocation.task with
  | .generate task => invocation.generate disk task
  | .lint task => invocation.lint disk task
  | .plan message => invocation.showPlans disk message
  | .convert task => invocation.convert disk task

def outcome : Outcome :=
  match invocation.attempt disk with
  | .ok outcome => outcome
  | .error failure => failure.outcome

end Invocation

namespace Stop

def lines (text : String) : List String := (Text.split '\n' text).dropLast

def outcome : Stop → Outcome
  | .misuse wrong => ⟨lines wrong.text, [], "", 2⟩
  | .help command => .printing (Help.text command)
  | .version => .printing (CommandLine.version ++ "\n")

end Stop

def outcome (disk : Disk) (arguments : List String) : Outcome :=
  match Invocation.parse arguments with
  | .ok invocation => invocation.outcome disk
  | .error stop => stop.outcome

def writeAll (volume : Volume) : List (String × String) → Volume × Option Failure
  | [] => (volume, none)
  | (path, content) :: rest =>
    let folder := (Path.parent? path).getD ""
    match volume.makeFolders folder with
    | .error refusal => (volume, some (.creating folder refusal.text))
    | .ok made =>
      match made.write path content.toUTF8 with
      | .error refusal => (made, some (.writing path refusal.text))
      | .ok written => writeAll written rest

def runIn (volume : Volume) (arguments : List String) : Volume × Outcome :=
  let outcome := outcome volume.find? arguments
  match writeAll volume outcome.files with
  | (volume, none) => (volume, outcome)
  | (volume, some failure) => (volume, outcome.brokenOff failure)

end Wireform.CommandLine

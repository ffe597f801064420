import Wireform.Load
import Wireform.Run

set_option autoImplicit false

namespace Wireform.Lint

inductive Severity where
  | error
  | warning
deriving DecidableEq, Repr

def Severity.name : Severity → String
  | .error => "error"
  | .warning => "warning"

structure Diagnostic where
  severity : Severity
  code : String
  file : String
  path : String
  message : String
deriving DecidableEq, Repr

inductive Status where
  | ok
  | error
  | warning
deriving DecidableEq, Repr

def Status.name : Status → String
  | .ok => "ok"
  | .error => "error"
  | .warning => "warning"

structure FileResult where
  file : String
  diagnostics : List Diagnostic

namespace FileResult

def errors (r : FileResult) : Nat := r.diagnostics.countP (·.severity == .error)

def warnings (r : FileResult) : Nat := r.diagnostics.countP (·.severity == .warning)

def status (r : FileResult) : Status :=
  if 0 < r.errors then .error else if 0 < r.warnings then .warning else .ok

def failed (strict : Bool) (r : FileResult) : Bool :=
  if strict then r.status != .ok else r.status == .error

end FileResult

structure Result where
  path : String
  strict : Bool
  files : List FileResult

namespace Result

def failed (r : Result) : Nat := r.files.countP (FileResult.failed r.strict)

def passed (r : Result) : Nat := r.files.length - r.failed

def errors (r : Result) : Nat := r.files.foldl (fun n file => n + file.errors) 0

def warnings (r : Result) : Nat := r.files.foldl (fun n file => n + file.warnings) 0

def isOk (r : Result) : Bool := r.errors == 0

end Result

def place (message field : String) : String :=
  if field.isEmpty then message else message ++ "." ++ field

def ofFinding (f : Finding) : Diagnostic :=
  ⟨.error, f.kind.code, f.file, place f.message f.field,
    f.kind.name ++ " [" ++ f.directive ++ "]: " ++ f.reason⟩

def ofWarning (w : Warning) : Diagnostic :=
  ⟨.warning, "W101", w.file, place w.message w.field, "[" ++ w.directive ++ "]: " ++ w.reason⟩

def ofBuildError (path : String) (error : Index.BuildError) : Diagnostic :=
  ⟨.error, "E002", path, "/", error.message⟩

/-- All diagnostics of a set. Emitters are asked only about a schema without errors. -/
def diagnostics (set : Schema.FileSet) (path : String) (settings : Settings) : List Diagnostic :=
  match Index.build set [] settings with
  | .error error => [ofBuildError path error]
  | .ok index =>
    let report := index.report
    let unsupported :=
      if report.errors.isEmpty then
        settings.effectiveTargets.flatMap fun target =>
          Emit.unsupported index index.plans (Emit.emitterOf target)
      else []
    report.errors.map ofFinding ++ report.warnings.map ofWarning ++ unsupported.map ofFinding

/-- Hands each file what is filed under its name; of several files with one name the first gets it. -/
def assign (all : List Diagnostic) : List String → List String → List FileResult
  | _, [] => []
  | seen, name :: rest =>
    let own := if seen.contains name then [] else all.filter (·.file == name)
    ⟨name, own⟩ :: assign all (seen ++ [name]) rest

def others (all : List Diagnostic) (names : List String) : List FileResult :=
  let left := all.filter fun d => !names.contains d.file
  let groups := (KeyMap.ofList (left.map fun d => (d.file, ()))).keys
  groups.map fun name => ⟨name, left.filter (·.file == name)⟩

def lintSet (set : Schema.FileSet) (path : String) (settings : Settings) (strict : Bool) : Result :=
  let all := diagnostics set path settings
  let names := set.files.map (·.name)
  ⟨path, strict, assign all [] names ++ others all names⟩

def lint (path : String) (node : Option Node) (settings : Settings) (strict : Bool) : Result :=
  match Load.descriptors path node with
  | .ok set => lintSet set path settings strict
  | .error error =>
    ⟨path, strict, [⟨path, [⟨.error, "E001", path, "/", "load error: " ++ error.message⟩]⟩]⟩

def Diagnostic.toJson (d : Diagnostic) : Json :=
  .obj [
    ("severity", .str d.severity.name), ("code", .str d.code), ("file", .str d.file),
    ("path", .str d.path), ("message", .str d.message)]

def FileResult.toJson (r : FileResult) : Json :=
  .obj ([("file", .str r.file), ("status", .str r.status.name)]
    ++ if r.diagnostics.isEmpty then []
      else [("diagnostics", .arr (r.diagnostics.map Diagnostic.toJson))])

def Result.toJson (r : Result) : Json :=
  .obj [
    ("path", .str r.path), ("files_checked", .nat r.files.length), ("passed", .nat r.passed),
    ("failed", .nat r.failed), ("errors", .nat r.errors), ("warnings", .nat r.warnings),
    ("results", .arr (r.files.map FileResult.toJson))]

def coloured (code text : String) : String := "\x1b[" ++ code ++ "m" ++ text ++ "\x1b[0m"

def red : String := "31"

def green : String := "32"

def yellow : String := "33"

def Status.mark : Status → String
  | .ok => coloured green "✓"
  | .warning => coloured yellow "⚠"
  | .error => coloured red "✗"

def Diagnostic.line (d : Diagnostic) : String :=
  let colour := if d.severity = .error then red else yellow
  "    " ++ coloured colour (d.severity.name ++ "[" ++ d.code ++ "]") ++ ": " ++ d.path ++ " - "
    ++ d.message ++ "\n"

def FileResult.lines (quiet : Bool) (r : FileResult) : List String :=
  (if !quiet || r.status != .ok then ["  " ++ r.status.mark ++ " " ++ r.file ++ "\n"] else [])
    ++ (r.diagnostics.filter fun d => !quiet || d.severity == .error).map Diagnostic.line

def Result.summary (r : Result) : String :=
  let checked := toString r.files.length ++ " files checked"
  if r.failed = 0 then coloured green ("✓ " ++ checked ++ ", all passed")
  else
    coloured red ("✗ " ++ checked ++ ": " ++ toString r.passed ++ " passed, " ++ toString r.failed
      ++ " failed (" ++ toString r.errors ++ " errors, " ++ toString r.warnings ++ " warnings)")

def Result.text (quiet : Bool) (r : Result) : String :=
  (if quiet then "" else "Linting " ++ r.path ++ " ...\n\n")
    ++ String.join (r.files.flatMap (FileResult.lines quiet)) ++ "\n" ++ r.summary ++ "\n"

end Wireform.Lint

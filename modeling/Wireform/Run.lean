import Wireform.Emit
import Wireform.Index.Build
import Wireform.Plan.Build
import Wireform.Report

/-!
Runs: from a set of descriptors to an index, plans and generated files. Each stage is finished before the
next starts, so that a run gives all its results or everything that is wrong.
-/

set_option autoImplicit false

namespace Wireform

namespace Run

inductive Error where
  | unresolved (error : Index.BuildError)
  | invalid (findings : List Finding)

namespace Error

def message : Error → String
  | .unresolved error => error.message
  | .invalid findings => "generation failed with " ++ toString findings.length ++ " error(s)"

def findings : Error → List Finding
  | .unresolved _ => []
  | .invalid findings => findings

def exitCode : Error → Nat
  | .unresolved _ => 2
  | .invalid _ => 1

end Error

structure Compiled where
  index : Index
  plans : PlanSet
  warnings : List Warning

def compile (set : Schema.FileSet) (files : List String) (settings : Settings) :
    Except Error Compiled := do
  let index ← (Index.build set files settings).mapError .unresolved
  match index.report with
  | ⟨[], warnings⟩ => return ⟨index, index.plans, warnings⟩
  | ⟨errors, _⟩ => throw (.invalid errors)

def Compiled.emit (compiled : Compiled) (settings : Settings) : Except Error (List Artifact) :=
  (Emit.emitWith (settings.effectiveTargets.map Emit.emitterOf) compiled.index compiled.plans
    settings).mapError .invalid

structure Output where
  artifacts : List Artifact
  plans : PlanSet
  warnings : List Warning

def generate (set : Schema.FileSet) (files : List String) (settings : Settings) :
    Except Error Output := do
  let compiled ← compile set files settings
  return ⟨← compiled.emit settings, compiled.plans, compiled.warnings⟩

end Run

end Wireform

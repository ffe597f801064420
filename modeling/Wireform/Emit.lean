import Wireform.Finding
import Wireform.GoCode.File
import Wireform.OpenApi
import Wireform.TypeScript

/-!
Emitters and the files that they make. A run emits for all its targets or for none.
-/

set_option autoImplicit false

namespace Wireform

structure Artifact where
  target : Target
  name : String
  content : String
deriving DecidableEq, Repr

structure Emitter where
  target : Target
  supports : TransformTag → Bool
  render : Index → PlanSet → Settings → Index.File → Option Artifact

namespace Emit

def banner : String := "Code generated by protowire. DO NOT EDIT."

def render (target : Target) (index : Index) (plans : PlanSet) (settings : Settings)
    (file : Index.File) : Option Artifact :=
  match target with
  | .goServer | .goClient =>
    (GoCode.text? index plans banner (GoCode.packageName settings target file) file).map
      fun text => ⟨target, file.stem ++ "_wire.pb.go", text⟩
  | .typeScript =>
    (TypeScript.text? index plans banner file).map fun text =>
      ⟨target, file.stem ++ ".wire.ts", text⟩
  | .openApi =>
    (OpenApi.Document.ofFile? index plans file).map fun document =>
      ⟨target, file.stem ++ ".openapi.json", document.text⟩

def emitterOf (target : Target) : Emitter := ⟨target, fun _ => true, render target⟩

def finding (index : Index) (emitter : Emitter) (plan : Plan) (tag : TransformTag) : Finding :=
  { file := ((index.message? plan.message).map (·.file)).getD ""
    message := plan.message
    field := ",".intercalate (plan.fieldsWith tag)
    issue := .unsupported emitter.target tag.name tag.directive }

def unsupported (index : Index) (plans : PlanSet) (emitter : Emitter) : List Finding :=
  plans.values.flatMap fun plan =>
    (plan.tags.filter fun tag => !emitter.supports tag).map (finding index emitter plan)

def emitWith (emitters : List Emitter) (index : Index) (plans : PlanSet) (settings : Settings) :
    Except (List Finding) (List Artifact) :=
  match emitters.flatMap (unsupported index plans) with
  | [] =>
    .ok (emitters.flatMap fun emitter =>
      index.targets.filterMap (emitter.render index plans settings))
  | findings => .error findings

end Emit

end Wireform

import Wireform.GoCode.Message
import Wireform.Settings

set_option autoImplicit false

namespace Wireform.GoCode

def marshalerPath : String := "google.golang.org/protobuf/encoding/protojson"

namespace Aliases

def free (taken : List String) (name : String) : String :=
  let numbered := (List.range (taken.length + 1)).map fun n => name ++ toString (n + 2)
  ((name :: numbered).find? fun candidate => !taken.contains candidate).getD name

def add (aliases : KeyMap String) (package : String × String) : KeyMap String :=
  let (path, name) := package
  if aliases.contains path then aliases else aliases.insert path (free aliases.values name)

def ofPackages (packages : List (String × String)) : KeyMap String := packages.foldl add .empty

end Aliases

def planned (index : Index) (plans : PlanSet) (file : Index.File) : List (Index.Message × Plan) :=
  (index.messagesIn file).filterMap fun m => (plans.plan? m.fullName).map fun plan => (m, plan)

def calledPackages (index : Index) (file : Index.File) (messages : List (Index.Message × Plan)) :
    List (String × String) :=
  messages.flatMap fun (_, plan) =>
    plan.nestedMessages.filterMap fun name =>
      (index.message? name).bind (Context.foreignPackage? index file)

def sortedPaths (paths : List String) : List String :=
  (KeyMap.ofList (paths.map fun path => (path, ()))).keys

def headLines (banner source package : String) (imports : List String) (aliases : KeyMap String) :
    List String :=
  ["// " ++ banner, "// source: " ++ source, "", "package " ++ package, "", "import ("]
    ++ imports.map quote
    ++ ["", quote marshalerPath]
    ++ (aliases.entries.map fun (path, name) => name ++ " " ++ quote path)
    ++ [")"]

def packageName (settings : Settings) (target : Target) (file : Index.File) : String :=
  let override :=
    match target with
    | .goClient => settings.clientPackage
    | _ => settings.serverPackage
  override.getD file.goPackageName

def text? (index : Index) (plans : PlanSet) (banner package : String) (file : Index.File) :
    Option String :=
  let messages := planned index plans file
  if messages.isEmpty then none
  else
    let pre := "wire" ++ Text.pascalCase file.stem
    let aliases := Aliases.ofPackages (calledPackages index file messages)
    let context : Context := ⟨index, file, pre, aliases⟩
    let body := Fragment.join (messages.map fun (m, plan) => context.messageCode m plan)
    let helpers := Helper.all.filter body.helpers.contains
    let imports := sortedPaths
      ("encoding/json" :: body.imports ++ helpers.flatMap Helper.imports)
    let head := Layout.ofLines 0 (headLines banner file.name package imports aliases)
    let tables := (KeyMap.ofList body.tables).entries.flatMap fun (name, table) =>
      "" :: table.lines name
    let sources := helpers.flatMap fun helper => "" :: helper.source pre
    some (head.text ++ (Layout.ofLines 0 body.lines).text
      ++ (Layout.ofLines head.depth (tables ++ sources)).text)

end Wireform.GoCode

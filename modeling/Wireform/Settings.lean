set_option autoImplicit false

namespace Wireform

inductive Target where
  | goServer
  | goClient
  | typeScript
  | openApi
deriving DecidableEq, Repr, Inhabited

namespace Target

def all : List Target := [.goServer, .goClient, .typeScript, .openApi]

def name : Target → String
  | .goServer => "go-server"
  | .goClient => "go-client"
  | .typeScript => "typescript"
  | .openApi => "openapi"

def ofName? (text : String) : Option Target :=
  if text = "go-server" then some .goServer
  else if text = "go-client" then some .goClient
  else if text = "typescript" ∨ text = "ts" then some .typeScript
  else if text = "openapi" then some .openApi
  else none

end Target

structure Settings where
  extensionPackage : String
  serverPackage : Option String
  clientPackage : Option String
  targets : List Target
  maxDepth : Nat

namespace Settings

def default : Settings := ⟨"sebuf.http", none, none, [], 64⟩

instance : Inhabited Settings := ⟨default⟩

def trimPoints (text : String) : String :=
  let bare := text.toList.dropWhile (· == '.')
  String.ofList (bare.reverse.dropWhile (· == '.')).reverse

def withExtensionPackage (settings : Settings) (package : String) : Settings :=
  { settings with extensionPackage := trimPoints package }

def effectiveTargets (settings : Settings) : List Target :=
  if settings.targets.isEmpty then Target.all
  else Target.all.filter settings.targets.contains

end Settings

end Wireform

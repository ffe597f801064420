import Wireform.CommandLine.Outcome

/-!
The program. It reads single files: what a folder holds is known only where `runIn` is given the folder.
-/

set_option autoImplicit false

open Wireform CommandLine

namespace Wireform.Main

def refusal? : IO.Error → Option Refusal
  | .noFileOrDirectory _ code _ | .inappropriateType _ code _ | .invalidArgument _ code _
  | .alreadyExists _ code _ => Refusal.ofCode? code.toNat
  | _ => none

def reason (error : IO.Error) : String :=
  match refusal? error with
  | some refusal => refusal.text
  | none => error.toString

def nodeAt (path : String) : ExceptT LoadError IO (Option Node) := do
  match ← (IO.FS.readBinFile path).toBaseIO with
  | .ok bytes => return some (.file bytes)
  | .error (.noFileOrDirectory ..) | .error (.inappropriateType _ 20 _) => return none
  | .error error => throw (.unreadable path (reason error))

def diskFor (invocation : Invocation) : ExceptT Failure IO Disk := do
  let descriptors ← (nodeAt invocation.descriptors).adapt Failure.ofLoad
  match invocation.payload? with
  | none => return fun _ => descriptors
  | some path =>
    let payload ← (nodeAt path).adapt Failure.ofPayload
    return fun asked => if asked = invocation.descriptors then descriptors else payload

def isFolder (path : String) : IO Bool := do
  try
    let _ ← IO.FS.realPath (Path.join path ".")
    return true
  catch _ => return false

def makeFolder (path : String) : IO Unit := do
  try IO.FS.createDir path
  catch error => unless ← isFolder path do throw error

def makeEach : List String → IO Unit
  | [] => return ()
  | path :: outer => do
    try makeFolder path
    catch error =>
      unless refusal? error = some .missing do throw error
      makeEach outer
      makeFolder path

def writeFile (path content : String) : IO (Option Failure) := do
  let folder := (Path.parent? path).getD ""
  try makeEach (Path.wayTo folder)
  catch error => return some (.creating folder (reason error))
  try IO.FS.writeFile path content
  catch error => return some (.writing path (reason error))
  return none

def carryOut (outcome : Outcome) : IO UInt32 := do
  for line in outcome.errors do
    IO.eprintln line
  for (path, content) in outcome.files do
    if let some failure ← writeFile path content then
      for line in failure.errors do
        IO.eprintln line
      return failure.exitCode.toUInt32
  IO.print outcome.output
  return outcome.exitCode.toUInt32

end Wireform.Main

open Wireform.Main in
def main (arguments : List String) : IO UInt32 := do
  match Invocation.parse arguments with
  | .error stop => carryOut stop.outcome
  | .ok invocation =>
    match ← (diskFor invocation).run with
    | .error failure => carryOut failure.outcome
    | .ok disk => carryOut (invocation.outcome disk)

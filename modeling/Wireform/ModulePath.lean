import Wireform.Text.Split

set_option autoImplicit false

namespace Wireform.ModulePath

def shared : List String → List String → Nat
  | a :: as, b :: bs => if a = b then shared as bs + 1 else 0
  | _, _ => 0

def steps (directory target : List String) : List String :=
  let common := min (shared directory target) (target.length - 1)
  List.replicate (directory.length - common) ".." ++ target.drop common

def relative (file target : String) : String :=
  let path := "/".intercalate (steps (Text.split '/' file).dropLast (Text.split '/' target))
  if Text.startsWith ".." path then path else "./" ++ path

end Wireform.ModulePath

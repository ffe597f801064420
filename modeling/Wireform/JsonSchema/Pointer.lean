import Wireform.Bytes.Hex
import Wireform.Integer
import Wireform.Json
import Wireform.Text.Split

set_option autoImplicit false

namespace Wireform.Pointer

def escape : List Char → List Char
  | [] => []
  | '~' :: rest => '~' :: '0' :: escape rest
  | '/' :: rest => '~' :: '1' :: escape rest
  | c :: rest => c :: escape rest

def unescape : List Char → List Char
  | [] => []
  | '~' :: '0' :: rest => '~' :: unescape rest
  | '~' :: '1' :: rest => '/' :: unescape rest
  | '~' :: c :: rest => '~' :: c :: unescape rest
  | c :: rest => c :: unescape rest

theorem unescape_escape (step : List Char) : unescape (escape step) = step := by
  fun_induction escape step with
  | case1 => rfl
  | case2 rest ih => simp [unescape, ih]
  | case3 rest ih => simp [unescape, ih]
  | case4 c rest tilde slash ih => rw [unescape.eq_5 _ _ (by simp_all) (by simp_all) (by simp_all), ih]

theorem not_mem_escape (step : List Char) : '/' ∉ escape step := by
  fun_induction escape step with
  | case1 => simp
  | case2 rest ih => simp [ih]
  | case3 rest ih => simp [ih]
  | case4 c rest tilde slash ih =>
    have other : '/' ≠ c := fun same => slash same.symm
    simp [other, ih]

def ofSteps (steps : List String) : String :=
  String.join (steps.map fun step => "/" ++ String.ofList (escape step.toList))

def percentDecode : List UInt8 → List UInt8
  | [] => []
  | byte :: rest =>
    if byte = '%'.toUInt8 then
      match rest with
      | high :: low :: rest =>
        match Hex.value? high, Hex.value? low with
        | some h, some l => UInt8.ofNat (h * 16 + l) :: percentDecode rest
        | _, _ => byte :: percentDecode (high :: low :: rest)
      | rest => byte :: percentDecode rest
    else byte :: percentDecode rest

def steps? (fragment : String) : Option (List String) := do
  let bytes := percentDecode (fragment.toList.flatMap String.utf8EncodeChar)
  let text ← String.fromUTF8? ⟨bytes.toArray⟩
  match Text.split '/' text with
  | "" :: steps => return steps
  | _ => none

def step? (value : Json) (step : String) : Option Json :=
  match value with
  | .arr items => do items[(← Integer.parse true step).toNat]?
  | value => value.get? (String.ofList (unescape step.toList))

def place? (document : Json) (fragment : String) : Option Json :=
  if fragment.isEmpty then some document
  else do (← steps? fragment).foldlM step? document

end Wireform.Pointer

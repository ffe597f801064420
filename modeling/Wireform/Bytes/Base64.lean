set_option autoImplicit false

namespace Wireform.Base64

def bytesOf (text : String) : List UInt8 := text.toList.flatMap String.utf8EncodeChar

structure Scheme where
  high : Char × Char
  padded : Bool
deriving DecidableEq, Repr

def Scheme.standard : Scheme := ⟨('+', '/'), true⟩
def Scheme.standardRaw : Scheme := ⟨('+', '/'), false⟩
def Scheme.url : Scheme := ⟨('-', '_'), true⟩
def Scheme.urlRaw : Scheme := ⟨('-', '_'), false⟩

inductive Fault where
  | badSymbol (byte : UInt8) (offset : Nat)
  | badLength (symbols : Nat)
  | badPadding
  | strayBits (byte : UInt8) (offset : Nat)
deriving DecidableEq, Repr

def Fault.message : Fault → String
  | .badSymbol byte offset =>
    "Invalid symbol " ++ toString byte.toNat ++ ", offset " ++ toString offset ++ "."
  | .badLength symbols => "Invalid input length: " ++ toString symbols
  | .badPadding => "Invalid padding"
  | .strayBits byte offset =>
    "Invalid last symbol " ++ toString byte.toNat ++ ", offset " ++ toString offset ++ "."

namespace Scheme

def symbol (scheme : Scheme) (value : Nat) : Char :=
  if value < 26 then Char.ofNat (value + 'A'.toNat)
  else if value < 52 then Char.ofNat (value - 26 + 'a'.toNat)
  else if value < 62 then Char.ofNat (value - 52 + '0'.toNat)
  else if value = 62 then scheme.high.1
  else scheme.high.2

def value? (scheme : Scheme) (byte : UInt8) : Option Nat :=
  let n := byte.toNat
  if 'A'.toNat ≤ n ∧ n ≤ 'Z'.toNat then some (n - 'A'.toNat)
  else if 'a'.toNat ≤ n ∧ n ≤ 'z'.toNat then some (n - 'a'.toNat + 26)
  else if '0'.toNat ≤ n ∧ n ≤ '9'.toNat then some (n - '0'.toNat + 52)
  else if n = scheme.high.1.toNat then some 62
  else if n = scheme.high.2.toNat then some 63
  else none

def padding (scheme : Scheme) (count : Nat) : List Char :=
  if scheme.padded then List.replicate count '=' else []

def symbols (scheme : Scheme) (values : List Nat) : List Char := values.map scheme.symbol

def encode (scheme : Scheme) : List UInt8 → List Char
  | a :: b :: c :: rest =>
    let (a, b, c) := (a.toNat, b.toNat, c.toNat)
    scheme.symbols [a / 4, a % 4 * 16 + b / 16, b % 16 * 4 + c / 64, c % 64] ++ encode scheme rest
  | [a, b] =>
    let (a, b) := (a.toNat, b.toNat)
    scheme.symbols [a / 4, a % 4 * 16 + b / 16, b % 16 * 4] ++ scheme.padding 1
  | [a] => scheme.symbols [a.toNat / 4, a.toNat % 4 * 16] ++ scheme.padding 2
  | [] => []

def pad : UInt8 := 61

def readBody (scheme : Scheme) : Nat → List UInt8 → Except Fault (List Nat)
  | _, [] => .ok []
  | offset, byte :: rest =>
    match scheme.value? byte with
    | none => .error (.badSymbol byte offset)
    | some v => (readBody scheme (offset + 1) rest).map (v :: ·)

def readSuffix (scheme : Scheme) (start : Nat) (firstPad : Option Nat) :
    Nat → List UInt8 → Except Fault (List (Nat × UInt8) × Nat)
  | _, [] => .ok ([], 0)
  | index, byte :: rest =>
    if byte = pad then
      if index < 2 then .error (.badSymbol pad (start + index))
      else
        (readSuffix scheme start (some (firstPad.getD index)) (index + 1) rest).map
          fun (values, pads) => (values, pads + 1)
    else
      match firstPad with
      | some first => .error (.badSymbol pad (start + first))
      | none =>
        match scheme.value? byte with
        | none => .error (.badSymbol byte (start + index))
        | some v =>
          (readSuffix scheme start none (index + 1) rest).map
            fun (values, pads) => ((v, byte) :: values, pads)

def join : List Nat → List UInt8
  | a :: b :: c :: d :: rest =>
    UInt8.ofNat (a * 4 + b / 16) :: UInt8.ofNat (b % 16 * 16 + c / 4) ::
      UInt8.ofNat (c % 4 * 64 + d) :: join rest
  | [a, b, c] => [UInt8.ofNat (a * 4 + b / 16), UInt8.ofNat (b % 16 * 16 + c / 4)]
  | [a, b] => [UInt8.ofNat (a * 4 + b / 16)]
  | _ => []

def strayBits (count value : Nat) : Nat :=
  if count = 2 then value % 16 else if count = 3 then value % 4 else 0

def decode (scheme : Scheme) (text : String) : Except Fault (List UInt8) := do
  let bytes := bytesOf text
  let size := bytes.length
  let start := if size = 0 then 0 else (size - 1) / 4 * 4
  match bytes.getLast? with
  | some last =>
    if size % 4 = 1 ∧ last ≠ pad ∧ (scheme.value? last).isNone then
      throw (.badSymbol last (size - 1))
  | none => pure ()
  let body ← scheme.readBody 0 (bytes.take start)
  let (suffix, pads) ← scheme.readSuffix start none 0 (bytes.drop start)
  let count := suffix.length
  if size ≠ 0 ∧ count < 2 then throw (.badLength (start + count))
  if scheme.padded then
    if (count + pads) % 4 ≠ 0 then throw .badPadding
  else if pads ≠ 0 then throw .badPadding
  match suffix.getLast? with
  | some (value, byte) =>
    if strayBits count value ≠ 0 then throw (.strayBits byte (start + count - 1))
  | none => pure ()
  return join (body ++ suffix.map (·.1))

end Scheme

end Wireform.Base64

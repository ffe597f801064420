import Wireform.Text.Printable

set_option autoImplicit false

namespace Wireform.Hex

def digit (value : Nat) : Char :=
  if value < 10 then Char.ofNat (value + '0'.toNat) else Char.ofNat (value - 10 + 'a'.toNat)

def value? (byte : UInt8) : Option Nat :=
  let n := byte.toNat
  if '0'.toNat ≤ n ∧ n ≤ '9'.toNat then some (n - '0'.toNat)
  else if 'a'.toNat ≤ n ∧ n ≤ 'f'.toNat then some (n - 'a'.toNat + 10)
  else if 'A'.toNat ≤ n ∧ n ≤ 'F'.toNat then some (n - 'A'.toNat + 10)
  else none

inductive Fault where
  | oddLength
  | badDigit (byte : UInt8) (offset : Nat)
deriving DecidableEq, Repr

def Fault.message : Fault → String
  | .oddLength => "Odd number of digits"
  | .badDigit byte offset =>
    "Invalid character " ++ Text.shownChar (Char.ofNat byte.toNat) ++ " at position "
      ++ toString offset

def encode (bytes : List UInt8) : List Char :=
  bytes.flatMap fun byte => [digit (byte.toNat / 16), digit (byte.toNat % 16)]

def readPairs : Nat → List UInt8 → Except Fault (List UInt8)
  | offset, high :: low :: rest =>
    match value? high, value? low with
    | none, _ => .error (.badDigit high offset)
    | some _, none => .error (.badDigit low (offset + 1))
    | some h, some l => (readPairs (offset + 2) rest).map (UInt8.ofNat (h * 16 + l) :: ·)
  | _, _ => .ok []

def decode (text : String) : Except Fault (List UInt8) :=
  let bytes := text.toList.flatMap String.utf8EncodeChar
  if bytes.length % 2 = 1 then .error .oddLength else readPairs 0 bytes

end Wireform.Hex

import Wireform.Text.Split

set_option autoImplicit false

namespace Wireform.Unicode

def digit? (c : Char) : Option Nat :=
  if '0' ≤ c ∧ c ≤ '9' then some (c.toNat - '0'.toNat)
  else if 'a' ≤ c ∧ c ≤ 'f' then some (c.toNat - 'a'.toNat + 10)
  else none

def number (digits : List Char) : Nat :=
  digits.foldl (fun n c => n * 16 + (digit? c).getD 0) 0

def entries (lines : List String) : List (List Char) :=
  lines.flatMap fun line => Text.pieces ' ' line.toList

abbrev Runs (α : Type) := Array (Nat × α)

def runs {α : Type} (value? : String → Option α) (lines : List String) : Runs α :=
  ((entries lines).filterMap fun entry =>
    (value? (String.ofList (entry.dropWhile fun c => (digit? c).isSome))).map fun value =>
      (number (entry.takeWhile fun c => (digit? c).isSome), value)).toArray

abbrev Ranges := Runs Nat

def range (entry : List Char) : Nat × Nat :=
  let first := number (entry.takeWhile (· != '-'))
  match entry.dropWhile (· != '-') with
  | [] => (first, first)
  | _ :: last => (first, number last)

def ranges (lines : List String) : Ranges := ((entries lines).map range).toArray

def Runs.lastUpTo? {α : Type} (table : Runs α) (n low high : Nat) : Option (Nat × α) :=
  if low < high then
    let middle := (low + high) / 2
    match table[middle]? with
    | none => none
    | some entry =>
      if entry.1 ≤ n then (table.lastUpTo? n (middle + 1) high).or (some entry)
      else table.lastUpTo? n low middle
  else none
termination_by high - low
decreasing_by all_goals omega

def Runs.at? {α : Type} (table : Runs α) (n : Nat) : Option α :=
  (table.lastUpTo? n 0 table.size).map (·.2)

def Ranges.contains (table : Ranges) (n : Nat) : Bool :=
  (Runs.at? table n).any (n ≤ ·)

end Wireform.Unicode

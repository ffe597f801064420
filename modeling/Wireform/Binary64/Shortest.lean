import Wireform.Binary64

set_option autoImplicit false

namespace Wireform.Binary64

structure Decimal where
  digits : Nat
  exponent : Int
deriving DecidableEq, Repr, Inhabited

namespace Decimal

def strip : Nat → Decimal → Decimal
  | 0, d => d
  | fuel + 1, d =>
    if d.digits % 10 = 0 ∧ d.digits ≠ 0 then strip fuel ⟨d.digits / 10, d.exponent + 1⟩ else d

end Decimal

structure Interval where
  low : Nat
  value : Nat
  high : Nat
  closed : Bool
  exponent : Int
deriving Repr

def interval (x : Binary64) : Interval :=
  let m := x.significand
  let narrow := m = 1 <<< 52 ∧ leastExponent < x.exponent
  { low := if narrow then 4 * m - 1 else 4 * m - 2
    value := 4 * m
    high := 4 * m + 2
    closed := m % 2 == 0
    exponent := x.exponent - 2 }

namespace Interval

def scaled (i : Interval) : Nat × Nat × Nat × Nat :=
  if 0 ≤ i.exponent then
    let unit := 1 <<< i.exponent.toNat
    (i.low * unit, i.value * unit, i.high * unit, 1)
  else (i.low, i.value, i.high, 1 <<< (-i.exponent).toNat)

end Interval

def log10 : Nat → Nat → Nat
  | 0, _ => 0
  | fuel + 1, n => if n < 10 then 0 else log10 fuel (n / 10) + 1

def reach (num den : Nat) : Nat → Nat → Nat
  | 0, j => j
  | fuel + 1, j => if den ≤ num * Nat.pow 10 j then j else reach num den fuel (j + 1)

def floorLog10 (num den : Nat) : Int :=
  if den ≤ num then log10 400 (num / den) else -(reach num den 400 1)

def Interval.onGrid? (i : Interval) (unit : Int) : Option Nat :=
  let (low, value, high, den) := i.scaled
  let up := Nat.pow 10 (-unit).toNat
  let grid := den * Nat.pow 10 unit.toNat
  let (low, value, high) := (low * up, value * up, high * up)
  let below := value / grid
  let inside (n : Nat) : Bool :=
    if i.closed then low ≤ n * grid && n * grid ≤ high else low < n * grid && n * grid < high
  let downGap := value - below * grid
  let upGap := (below + 1) * grid - value
  let belowFirst := downGap < upGap || (downGap == upGap && below % 2 == 0)
  match inside below, inside (below + 1) with
  | true, true => some (if belowFirst then below else below + 1)
  | true, false => some below
  | false, true => some (below + 1)
  | false, false => none

def Interval.search (i : Interval) (top : Int) : Nat → Nat → Decimal
  | 0, _ => ⟨0, 0⟩
  | fuel + 1, count =>
    let unit := top - (count : Int) + 1
    match i.onGrid? unit with
    | some n => Decimal.strip 20 ⟨n, unit⟩
    | none => search i top fuel (count + 1)

def shortest (x : Binary64) : Decimal :=
  if x.isZero then ⟨0, 0⟩ else
    let i := x.interval
    let (_, value, _, den) := i.scaled
    i.search (floorLog10 value den) 17 1

/-- Where positional text ends: numbers from `10 ^ least` up to below `10 ^ limit` have no
exponent. -/
structure Layout where
  least : Int
  limit : Int
deriving Repr

def Layout.json : Layout := ⟨-5, 16⟩

def zeros (n : Nat) : String := String.ofList (List.replicate n '0')

def positional (digits : String) (whole : Int) : String :=
  let size : Int := digits.length
  if whole ≤ 0 then "0." ++ zeros (-whole).toNat ++ digits
  else if size ≤ whole then digits ++ zeros (whole - size).toNat ++ ".0"
  else
    let cs := digits.toList
    String.ofList (cs.take whole.toNat) ++ "." ++ String.ofList (cs.drop whole.toNat)

def scientific (digits : String) (power : Int) : String :=
  let cs := digits.toList
  let fractional := String.ofList (cs.drop 1)
  let point := if fractional.isEmpty then "" else "."
  let sign := if power < 0 then "-" else "+"
  String.ofList (cs.take 1) ++ point ++ fractional ++ "e" ++ sign ++ toString power.natAbs

def text (layout : Layout) (x : Binary64) : String :=
  let sign := if x.negative then "-" else ""
  let d := x.shortest
  let digits := toString d.digits
  let power := d.exponent + (digits.length : Int) - 1
  let body :=
    if x.isZero then "0.0"
    else if layout.least ≤ power ∧ power < layout.limit then positional digits (power + 1)
    else scientific digits power
  sign ++ body

end Wireform.Binary64

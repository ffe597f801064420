/-!
Finite binary floating-point numbers with 53 significant bits, kept as exact data so that equality
is decidable and every operation is arithmetic on natural numbers.
-/

set_option autoImplicit false

namespace Wireform

structure Binary64 where
  negative : Bool
  significand : Nat
  exponent : Int
deriving DecidableEq, Repr, Inhabited

namespace Binary64

def leastExponent : Int := -1074

def greatestExponent : Int := 971

def zero : Binary64 := ⟨false, 0, leastExponent⟩

def neg (x : Binary64) : Binary64 := { x with negative := !x.negative }

def isZero (x : Binary64) : Bool := x.significand == 0

def roundHalfEven (num den : Nat) : Nat :=
  let quotient := num / den
  let rest := 2 * (num % den)
  if rest < den then quotient
  else if den < rest then quotient + 1
  else quotient + quotient % 2

def fraction (x : Binary64) : Nat × Nat :=
  if 0 ≤ x.exponent then (x.significand <<< x.exponent.toNat, 1)
  else (x.significand, 1 <<< (-x.exponent).toNat)

def floorLog2 (num den : Nat) : Int :=
  let guess : Int := (Nat.log2 num : Int) - Nat.log2 den
  let reached :=
    if 0 ≤ guess then den <<< guess.toNat ≤ num else den ≤ num <<< (-guess).toNat
  if reached then guess else guess - 1

def nearest (num den : Nat) : Option Binary64 :=
  if num = 0 then some zero else
    let exponent := max (floorLog2 num den - 52) leastExponent
    let rounded :=
      if 0 ≤ exponent then roundHalfEven num (den <<< exponent.toNat)
      else roundHalfEven (num <<< (-exponent).toNat) den
    let (significand, exponent) :=
      if rounded = 1 <<< 53 then (1 <<< 52, exponent + 1) else (rounded, exponent)
    if greatestExponent < exponent then none else some ⟨false, significand, exponent⟩

def ofNat (n : Nat) : Binary64 := (nearest n 1).getD zero

def mul? (x y : Binary64) : Option Binary64 :=
  let (xn, xd) := x.fraction
  let (yn, yd) := y.fraction
  nearest (xn * yn) (xd * yd)

def div (x y : Binary64) : Binary64 :=
  let (xn, xd) := x.fraction
  let (yn, yd) := y.fraction
  (nearest (xn * yd) (xd * yn)).getD zero

def tenTo (e : Nat) : Binary64 := ofNat (Nat.pow 10 e)

def greatestPower : Nat := 308

def shrink : Nat → Nat → Binary64 → Binary64
  | 0, _, x => x
  | fuel + 1, n, x =>
    if n ≤ greatestPower then x.div (tenTo n)
    else if x.isZero then x
    else shrink fuel (n - greatestPower) (x.div (tenTo greatestPower))

def scale (x : Binary64) (e : Int) : Option Binary64 :=
  if e < 0 then some (shrink (e.natAbs / greatestPower + 1) e.natAbs x)
  else if e.natAbs ≤ greatestPower then x.mul? (tenTo e.natAbs)
  else if x.isZero then some x
  else none

def isIntegral (x : Binary64) : Bool :=
  let (num, den) := x.fraction
  num % den == 0

def sameValue (x y : Binary64) : Bool :=
  (x.isZero && y.isZero) || decide (x = y)

def isInt (x : Binary64) (n : Int) : Bool :=
  let (num, den) := x.fraction
  (if x.negative then -(num : Int) else num) == n * den

end Binary64

end Wireform

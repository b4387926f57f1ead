/-!
This module contains the double precision floating point numbers, as bit patterns with exact
arithmetic on the values they stand for: rounding of a quotient, multiplication and division.
-/

namespace Upvalue

/-- A double precision floating point number, given by its bits: sign, exponent, fraction. -/
structure Binary64 where
  bits : UInt64
deriving DecidableEq, Repr, Inhabited

namespace Binary64

/-- The bits without the sign. They are in the order of the absolute values. -/
def magnitude (x : Binary64) : Nat :=
  x.bits.toNat % Nat.pow 2 63

/-- The magnitude of infinity. Everything above it is not a number. -/
def infinity : Nat := 2047 * Nat.pow 2 52

def isNegative (x : Binary64) : Bool :=
  Nat.pow 2 63 ≤ x.bits.toNat

def isFinite (x : Binary64) : Bool :=
  x.magnitude < infinity

def ofMagnitude (negative : Bool) (magnitude : Nat) : Binary64 :=
  ⟨UInt64.ofNat (magnitude % Nat.pow 2 63 + if negative then Nat.pow 2 63 else 0)⟩

def zero : Binary64 := ⟨0⟩

/-- Quiet not-a-number. -/
def nan : Binary64 := ⟨0x7FF8000000000000⟩

def neg (x : Binary64) : Binary64 :=
  ofMagnitude (!x.isNegative) x.magnitude

def abs (x : Binary64) : Binary64 :=
  ofMagnitude false x.magnitude

/-- The absolute value of a finite number is its `significand` times two to its `exponent`. -/
def significand (x : Binary64) : Nat :=
  if x.magnitude / Nat.pow 2 52 = 0 then x.magnitude
  else Nat.pow 2 52 + x.magnitude % Nat.pow 2 52

/-- See `significand`. -/
def exponent (x : Binary64) : Int :=
  if x.magnitude / Nat.pow 2 52 = 0 then -1074 else (x.magnitude / Nat.pow 2 52 : Nat) - 1075

/-- The numerator of the absolute value of a finite number. -/
def num (x : Binary64) : Nat :=
  x.significand * Nat.pow 2 x.exponent.toNat

/-- The denominator of the absolute value of a finite number. -/
def den (x : Binary64) : Nat :=
  Nat.pow 2 (-x.exponent).toNat

/-- Whether `a / b` is at least two to the `e`. -/
def twoPowLe (e : Int) (a b : Nat) : Bool :=
  b * Nat.pow 2 e.toNat ≤ a * Nat.pow 2 (-e).toNat

/-- The exponent of the greatest power of two that is at most `a / b`. Both are positive. -/
def log2Ratio (a b : Nat) : Int :=
  let e : Int := (a.log2 : Int) - (b.log2 : Int)
  if twoPowLe e a b then e else e - 1

/-- The quotient `a / b` as an integer. A half goes to the even neighbour. -/
def divNearest (a b : Nat) : Nat :=
  let q := a / b
  let r := a % b
  if 2 * r < b then q
  else if b < 2 * r then q + 1
  else if q % 2 = 0 then q else q + 1

/--
The number nearest to `a / b`, a tie going to the even one. `none` if it is not finite. `b` is
positive.

The unit of the last place is chosen such that the significand has 53 bits, or fewer below the
normal range. A significand that is rounded up to 54 bits carries into the exponent, because the
magnitude is a sum of both.
-/
def nearest (a b : Nat) : Option Binary64 :=
  if a = 0 then some zero
  else
    let e := max (log2Ratio a b - 52) (-1074)
    let m := divNearest (a * Nat.pow 2 (-e).toNat) (b * Nat.pow 2 e.toNat)
    let magnitude := (e + 1074).toNat * Nat.pow 2 52 + m
    if magnitude < infinity then some (ofMagnitude false magnitude) else none

/-- The product of two finite numbers without their signs, rounded. -/
def mul (x y : Binary64) : Option Binary64 :=
  nearest (x.num * y.num) (x.den * y.den)

/-- The quotient of two finite numbers without their signs, rounded. `y` is not zero. -/
def div (x y : Binary64) : Option Binary64 :=
  nearest (x.num * y.den) (x.den * y.num)

/-- The number nearest to an integer. `none` if it is not finite. -/
def ofInt (i : Int) : Option Binary64 :=
  (nearest i.natAbs 1).map fun x => if i < 0 then x.neg else x

end Binary64

end Upvalue

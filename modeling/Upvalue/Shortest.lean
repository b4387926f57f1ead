import Upvalue.Binary64

/-!
This module contains the choice of the decimal digits that identify a floating point number: as few
as possible, and of those the ones nearest to its value.
-/

namespace Upvalue

/-- The decimal number `digits * 10 ^ exponent`. -/
structure Decimal where
  digits : Nat
  exponent : Int
deriving DecidableEq, Repr

namespace Decimal

def num (d : Decimal) : Nat :=
  d.digits * Nat.pow 10 d.exponent.toNat

def den (d : Decimal) : Nat :=
  Nat.pow 10 (-d.exponent).toNat

/-- Whether the absolute value of a number is the number nearest to a decimal number. -/
def identifies (d : Decimal) (x : Binary64) : Bool :=
  Binary64.nearest d.num d.den == some x.abs

/-- The least `k` such that `a / b` is less than ten to the `k`. Both are positive. -/
def magnitude (a b : Nat) : Int :=
  if b ≤ a then (Nat.toDigits 10 (a / b)).length
  else
    1 - ((Nat.toDigits 10 (b / a)).length : Int)
      + if b % a = 0 ∧ isPowerOfTen (b / a) then 1 else 0
where
  /-- Whether a positive number is a power of ten. -/
  isPowerOfTen (n : Nat) : Bool :=
    n == Nat.pow 10 ((Nat.toDigits 10 n).length - 1)

/--
The decimal numbers next to `a / b`, below and above, whose last digit has the place `exponent`. The
nearer one comes first.
-/
def neighbours (a b : Nat) (exponent : Int) : List Decimal :=
  let a := a * Nat.pow 10 (-exponent).toNat
  let b := b * Nat.pow 10 exponent.toNat
  let below : Decimal := ⟨a / b, exponent⟩
  let above : Decimal := ⟨a / b + 1, exponent⟩
  if 2 * (a % b) < b || (2 * (a % b) == b && a / b % 2 == 0) then [below, above] else [above, below]

/-- Drop the zeros at the end. -/
def normalize (d : Decimal) : Decimal :=
  go d.digits d.digits d.exponent
where
  go (fuel digits : Nat) (exponent : Int) : Decimal :=
    match fuel with
    | 0 => ⟨digits, exponent⟩
    | fuel + 1 =>
      if digits % 10 = 0 ∧ digits ≠ 0 then go fuel (digits / 10) (exponent + 1)
      else ⟨digits, exponent⟩

/-- The exact absolute value of a finite number. -/
def exact (x : Binary64) : Decimal :=
  if 0 ≤ x.exponent then ⟨x.num, 0⟩
  else ⟨x.significand * Nat.pow 5 (-x.exponent).toNat, x.exponent⟩

end Decimal

/--
The decimal number with the fewest digits that identifies the absolute value of a finite number
other than zero, and of those the nearest one. Seventeen digits always identify a number.
-/
def Binary64.shortest (x : Binary64) : Decimal :=
  let k := Decimal.magnitude x.num x.den
  let candidates := (List.range 17).flatMap fun n =>
    Decimal.neighbours x.num x.den (k - (n + 1 : Nat))
  match candidates.find? (·.identifies x) with
  | some d => d.normalize
  | none => (Decimal.exact x).normalize

end Upvalue

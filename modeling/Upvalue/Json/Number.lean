import Upvalue.Shortest

/-!
This module contains the number tokens of JSON: what they are read as and how numbers are written.
-/

namespace Upvalue.Json

/-- The exponent of a number token. -/
structure Exponent where
  negative : Bool
  digits : List Char
deriving DecidableEq, Repr

/-- A number token. `fraction` is empty if there is no decimal point. -/
structure Number where
  negative : Bool
  whole : List Char
  fraction : List Char
  exponent : Option Exponent
deriving DecidableEq, Repr

namespace Number

/-- What a number token is read as. -/
inductive Value where
  | integer (i : Int)
  | float (x : Binary64)
deriving DecidableEq, Repr

def natOfDigits (digits : List Char) : Nat :=
  Nat.ofDigitChars 10 digits 0

/--
Read as many digits as fit into 64 bits after those of `significand`. Returns the significand and
the digits that are left.
-/
def takeDigits (significand : Nat) : List Char → Nat × List Char
  | [] => (significand, [])
  | c :: cs =>
    let next := 10 * significand + (c.toNat - '0'.toNat)
    if next < Nat.pow 2 64 then takeDigits next cs else (significand, c :: cs)

def powerOfTen (k : Nat) : Option Binary64 :=
  Binary64.nearest (Nat.pow 10 k) 1

/-- The greatest power of ten that is a finite number. -/
def maxPowerOfTen : Nat := 308

/-- Divide by `10 ^ (maxPowerOfTen * steps + exponent)`, one division at a time. -/
def divPowerOfTen : (steps : Nat) → (exponent : Nat) → Binary64 → Option Binary64
  | 0, exponent, x => powerOfTen exponent >>= x.div
  | steps + 1, exponent, x =>
    if x.magnitude = 0 then some x
    else powerOfTen maxPowerOfTen >>= x.div >>= divPowerOfTen steps exponent

/--
Multiply a number by `10 ^ exponent`. It is multiplied or divided by the number nearest to the power
of ten, so that the result is rounded once more. `none` if it is not finite.
-/
def scale (exponent : Int) (x : Binary64) : Option Binary64 :=
  if x.magnitude = 0 then some x
  else if maxPowerOfTen < exponent then none
  else if 0 ≤ exponent then powerOfTen exponent.toNat >>= x.mul
  else
    let steps := (exponent.natAbs - 1) / maxPowerOfTen
    divPowerOfTen steps (exponent.natAbs - maxPowerOfTen * steps) x

def exponentValue (n : Number) : Int :=
  match n.exponent with
  | none => 0
  | some e => if e.negative then -(natOfDigits e.digits : Int) else natOfDigits e.digits

/--
The floating point value of a token, `none` if it is not finite. Digits of the integer part that do
not fit into 64 bits count as zeros, digits of the fraction that do not fit are dropped.
-/
def toBinary64 (n : Number) : Option Binary64 :=
  let (whole, left) := takeDigits 0 n.whole
  let (significand, dropped) := takeDigits whole n.fraction
  let places : Int := (left.length : Int) - ((n.fraction.length : Int) - (dropped.length : Int))
  let absolute := Binary64.nearest significand 1 >>= scale (places + n.exponentValue)
  absolute.map fun x => if n.negative then x.neg else x

/-- Whether a token has neither a fraction nor an exponent. -/
def isPlain (n : Number) : Bool :=
  n.fraction.isEmpty && n.exponent.isNone

def toInt (n : Number) : Int :=
  if n.negative then -(natOfDigits n.whole : Int) else natOfDigits n.whole

/--
What a token is read as. A token with a fraction or an exponent, negative zero and an integer
outside of the signed and unsigned 64 bit ranges are floating point numbers. `none` if the value is
not finite.
-/
def value? (n : Number) : Option Value :=
  if n.isPlain && !(n.negative && n.toInt == 0) && -Int.pow 2 63 ≤ n.toInt
      && n.toInt < Int.pow 2 64 then
    some (.integer n.toInt)
  else
    n.toBinary64.map .float

def ofInt (i : Int) : Number :=
  ⟨i < 0, Nat.toDigits 10 i.natAbs, [], none⟩

def ofNat (n : Nat) : Number :=
  ⟨false, Nat.toDigits 10 n, [], none⟩

/-- Where positional notation ends: the exponents of the first digit for which it is used. -/
structure Layout where
  least : Int
  greatest : Int

/--
Floating point numbers are written positionally from `0.00001` up to sixteen digits before the
point, otherwise with one digit before the point and an exponent.
-/
def floatLayout : Layout := ⟨-5, 15⟩

/--
Write a decimal number. A positional number always has a fraction, so that it does not read as an
integer.
-/
def ofDecimal (layout : Layout) (negative : Bool) (d : Decimal) : Number :=
  let digits := Nat.toDigits 10 d.digits
  let first : Int := digits.length - 1 + d.exponent
  if layout.least ≤ first ∧ first ≤ layout.greatest then
    if 0 ≤ d.exponent then
      ⟨negative, digits ++ List.replicate d.exponent.toNat '0', ['0'], none⟩
    else if 0 ≤ first then
      ⟨negative, digits.take (first.toNat + 1), digits.drop (first.toNat + 1), none⟩
    else
      ⟨negative, ['0'], List.replicate (-first - 1).toNat '0' ++ digits, none⟩
  else
    ⟨negative, digits.take 1, digits.drop 1, some ⟨first < 0, Nat.toDigits 10 first.natAbs⟩⟩

/-- The token of a finite floating point number, `none` for the others. -/
def ofBinary64? (x : Binary64) : Option Number :=
  if !x.isFinite then none
  else if x.magnitude = 0 then some ⟨x.isNegative, ['0'], ['0'], none⟩
  else some (ofDecimal floatLayout x.isNegative x.shortest)

/-- The characters of a token. The sign of an exponent is always written. -/
def chars (n : Number) : List Char :=
  (if n.negative then ['-'] else []) ++ n.whole
    ++ (if n.fraction.isEmpty then [] else '.' :: n.fraction)
    ++ match n.exponent with
      | none => []
      | some e => 'e' :: (if e.negative then '-' else '+') :: e.digits

def text (n : Number) : String :=
  String.ofList n.chars

end Number

end Upvalue.Json

import Upvalue.Toml.Value

/-!
This module contains the form of numbers, booleans, and dates and times in TOML. What is not in the
range of its kind does not count as one.
-/

namespace Upvalue.Toml

def isDigitOf (radix : Nat) (c : Char) : Bool :=
  match radix with
  | 2 => c == '0' || c == '1'
  | 8 => '0' ≤ c && c ≤ '7'
  | 16 => c.isDigit || ('a' ≤ c && c ≤ 'f') || ('A' ≤ c && c ≤ 'F')
  | _ => c.isDigit

def digitValue (c : Char) : Nat :=
  if c.isDigit then c.toNat - '0'.toNat else c.toLower.toNat - 'a'.toNat + 10

def digitsValue (radix : Nat) (digits : List Char) : Nat :=
  digits.foldl (fun n c => radix * n + digitValue c) 0

/-- The digits that follow a digit. Single underscores may stand between digits. -/
def moreDigits (radix : Nat) : List Char → List Char × List Char
  | '_' :: c :: rest =>
    if isDigitOf radix c then
      let (digits, rest) := moreDigits radix rest
      (c :: digits, rest)
    else ([], '_' :: c :: rest)
  | c :: rest =>
    if isDigitOf radix c then
      let (digits, rest) := moreDigits radix rest
      (c :: digits, rest)
    else ([], c :: rest)
  | [] => ([], [])

/-- One digit or more, between which single underscores may stand. -/
def digits (radix : Nat) : Scanner (List Char)
  | c :: rest =>
    if isDigitOf radix c then
      let (digits, rest) := moreDigits radix rest
      some (c :: digits, rest)
    else none
  | [] => none

/-- A sign. Returns whether it is a minus. -/
def sign : List Char → Bool × List Char
  | '-' :: rest => (true, rest)
  | '+' :: rest => (false, rest)
  | cs => (false, cs)

/-- The digits of a decimal integer: no further digits follow a leading zero. -/
def decimal : Scanner (List Char)
  | '0' :: rest => some (['0'], rest)
  | cs => digits 10 cs

/-- What follows an integer, which has to fit into 64 bits. -/
def integer (cs : List Char) : Option (List Char) :=
  let prefixed (radix : Nat) (rest : List Char) : Option (List Char) := do
    let (digits, rest) ← digits radix rest
    if digitsValue radix digits < Nat.pow 2 63 then return rest else none
  match cs with
  | '0' :: 'x' :: rest => prefixed 16 rest
  | '0' :: 'o' :: rest => prefixed 8 rest
  | '0' :: 'b' :: rest => prefixed 2 rest
  | _ => do
    let (isNegative, cs) := sign cs
    let (digits, rest) ← decimal cs
    let bound := Nat.pow 2 63 + if isNegative then 1 else 0
    if digitsValue 10 digits < bound then return rest else none

/-- The exponent of a float. Returns its sign and digits. -/
def exponent : Scanner (Bool × List Char)
  | c :: rest => do
    if c == 'e' || c == 'E' then
      let (isNegative, rest) := sign rest
      let (digits, rest) ← digits 10 rest
      return ((isNegative, digits), rest)
    else none
  | [] => none

/--
Whether a number with the given digits around the point and the given exponent is too large for a
float: it is at least half a step above the largest one. The digits are compared only if the number
of digits does not decide.
-/
def isHuge (whole fraction : List Char) (exponent : Int) : Bool :=
  let digits := (whole ++ fraction).dropWhile (· == '0')
  let exponent := exponent - fraction.length
  let magnitude := digits.length + exponent
  if digits.isEmpty ∨ magnitude < 300 then false
  else if 400 < magnitude then true
  else
    let bound := Nat.pow 2 1024 - Nat.pow 2 970
    bound * Nat.pow 10 (-exponent).toNat ≤ digitsValue 10 digits * Nat.pow 10 exponent.toNat

/-- What follows a float. Positive ones have to be in range. -/
def float (cs : List Char) : Option (List Char) :=
  let (isNegative, cs) := sign cs
  match cs with
  | 'i' :: 'n' :: 'f' :: rest => some rest
  | 'n' :: 'a' :: 'n' :: rest => some rest
  | _ => do
    let (whole, rest) ← decimal cs
    let (fraction, rest) ←
      match rest with
      | '.' :: rest => digits 10 rest
      | _ => some ([], rest)
    let ((isFraction, power), rest) ←
      if fraction.isEmpty then exponent rest
      else some ((exponent rest).getD ((false, []), rest))
    let power : Int := if isFraction then -digitsValue 10 power else digitsValue 10 power
    if !isNegative && isHuge whole fraction power then none else return rest

/-- A number with a fixed number of digits, between two bounds. -/
def fixedDigits (count low high : Nat) : Scanner Nat := fun cs =>
  let digits := cs.take count
  let n := digitsValue 10 digits
  if digits.length = count ∧ digits.all Char.isDigit ∧ low ≤ n ∧ n ≤ high then
    some (n, cs.drop count)
  else none

def expect (c : Char) : List Char → Option (List Char)
  | [] => none
  | c' :: rest => if c = c' then some rest else none

def daysIn (year month : Nat) : Nat :=
  if month = 2 then
    if year % 4 = 0 ∧ (year % 100 ≠ 0 ∨ year % 400 = 0) then 29 else 28
  else if month ∈ [4, 6, 9, 11] then 30
  else 31

def date (cs : List Char) : Option (List Char) := do
  let (year, rest) ← fixedDigits 4 0 9999 cs
  let (month, rest) ← fixedDigits 2 1 12 (← expect '-' rest)
  let (_, rest) ← fixedDigits 2 1 (daysIn year month) (← expect '-' rest)
  return rest

def time (cs : List Char) : Option (List Char) := do
  let (_, rest) ← fixedDigits 2 0 23 cs
  let (_, rest) ← fixedDigits 2 0 59 (← expect ':' rest)
  let (_, rest) ← fixedDigits 2 0 60 (← expect ':' rest)
  match rest with
  | '.' :: c :: rest' =>
    if c.isDigit then return rest'.dropWhile Char.isDigit else none
  | '.' :: [] => none
  | _ => return rest

/-- What follows the distance to the universal time, which need not be there. -/
def offset : List Char → Option (List Char)
  | 'Z' :: rest => some rest
  | 'z' :: rest => some rest
  | c :: rest => do
    if c == '+' || c == '-' then
      let (_, rest) ← fixedDigits 2 0 23 rest
      let (_, rest) ← fixedDigits 2 0 59 (← expect ':' rest)
      return rest
    else return c :: rest
  | [] => some []

/-- What follows a date, a time, or both. -/
def dateTime (cs : List Char) : Option (List Char) :=
  match date cs with
  | none => time cs
  | some rest =>
    match rest with
    | c :: rest' =>
      if c == 'T' || c == 't' || c == ' ' then
        match time rest' with
        | some rest'' => offset rest''
        | none => some rest
      else some rest
    | [] => some rest

def boolean : List Char → Option (List Char)
  | 't' :: 'r' :: 'u' :: 'e' :: rest => some rest
  | 'f' :: 'a' :: 'l' :: 's' :: 'e' :: rest => some rest
  | _ => none

/-- What follows a number, a boolean, or a date or time. -/
def scalar (cs : List Char) : Option (List Char) :=
  dateTime cs <|> float cs <|> integer cs <|> boolean cs

end Upvalue.Toml

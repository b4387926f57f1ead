import Upvalue.Json.Basic

/-!
This module contains the tokens of JSON texts. Blanks between tokens are skipped, a token extends as
far as it can.
-/

namespace Upvalue.Json

/-- A token of a JSON text. -/
inductive Token where
  | openBrace
  | closeBrace
  | openBracket
  | closeBracket
  | colon
  | comma
  | null
  | bool (value : Bool)
  | number (token : Number)
  | string (text : Text)
deriving DecidableEq, Repr

/-- A piece of a string: a character, or a unit of 16 bits given by its number. -/
inductive Piece where
  | char (c : Char)
  | unit (n : Nat)
deriving DecidableEq, Repr

namespace Piece

def isLeading (n : Nat) : Bool :=
  0xD800 ≤ n && n < 0xDC00

def isTrailing (n : Nat) : Bool :=
  0xDC00 ≤ n && n < 0xE000

def pair (leading trailing : Nat) : Char :=
  Char.ofNat (0x10000 + (leading - 0xD800) * 0x400 + (trailing - 0xDC00))

/-- The characters of the pieces of a string. Surrogates have to come in pairs. -/
def join : List Piece → Except EscapeFault (List Char)
  | [] => .ok []
  | .char c :: rest => (join rest).map (c :: ·)
  | .unit n :: rest =>
    if isTrailing n then .error .loneSurrogate
    else if isLeading n then
      match rest with
      | .unit m :: rest =>
        if isTrailing m then (join rest).map (pair n m :: ·) else .error .loneSurrogate
      | _ => .error .endOfEscape
    else (join rest).map (Char.ofNat n :: ·)

def text (pieces : List Piece) : Text :=
  match join pieces with
  | .ok cs => .plain (String.ofList cs)
  | .error fault => .broken fault

end Piece

namespace Token

/-- Characters that may stand between tokens. -/
def isBlank (c : Char) : Bool :=
  c == ' ' || c == '\n' || c == '\t' || c == '\r'

def hexDigit? (c : Char) : Option Nat :=
  if '0' ≤ c ∧ c ≤ '9' then some (c.toNat - '0'.toNat)
  else if 'a' ≤ c ∧ c ≤ 'f' then some (c.toNat - 'a'.toNat + 10)
  else if 'A' ≤ c ∧ c ≤ 'F' then some (c.toNat - 'A'.toNat + 10)
  else none

def unit? (a b c d : Char) : Option Nat := do
  return ((← hexDigit? a) * 16 + (← hexDigit? b)) * 256 + (← hexDigit? c) * 16 + (← hexDigit? d)

/-- The character that an escape of one letter stands for. -/
def escaped? (c : Char) : Option Char :=
  if c = '"' then some '"'
  else if c = '\\' then some '\\'
  else if c = '/' then some '/'
  else if c = 'b' then some '\x08'
  else if c = 'f' then some '\x0c'
  else if c = 'n' then some '\n'
  else if c = 'r' then some '\r'
  else if c = 't' then some '\t'
  else none

/-- Characters that may only be written as escapes. -/
def isControl (c : Char) : Bool :=
  c.toNat < 0x20

/--
The pieces of a string after its opening quote, collected in reverse, and what follows the closing
quote.
-/
def stringBody (pieces : List Piece) : List Char → Option (List Piece × List Char)
  | [] => none
  | '"' :: rest => some (pieces.reverse, rest)
  | '\\' :: 'u' :: a :: b :: c :: d :: rest =>
    match unit? a b c d with
    | some n => stringBody (.unit n :: pieces) rest
    | none => none
  | '\\' :: c :: rest =>
    match escaped? c with
    | some c => stringBody (.char c :: pieces) rest
    | none => none
  | c :: rest => if isControl c then none else stringBody (.char c :: pieces) rest

/-- The digits at the start of a text, and the rest. -/
def digits (cs : List Char) : List Char × List Char :=
  (cs.takeWhile Char.isDigit, cs.dropWhile Char.isDigit)

/-- The fraction at the start of a text, empty if there is no decimal point, and the rest. -/
def fraction? : List Char → Option (List Char × List Char)
  | '.' :: cs => if (digits cs).1.isEmpty then none else some (digits cs)
  | cs => some ([], cs)

/-- The sign at the start of a text, and the rest. -/
def sign : List Char → Bool × List Char
  | '-' :: cs => (true, cs)
  | '+' :: cs => (false, cs)
  | cs => (false, cs)

/-- The exponent at the start of a text, and the rest. -/
def exponent? : List Char → Option (Option Exponent × List Char)
  | [] => some (none, [])
  | c :: cs =>
    if c = 'e' ∨ c = 'E' then
      let (negative, cs) := sign cs
      let (digits, cs) := digits cs
      if digits.isEmpty then none else some (some ⟨negative, digits⟩, cs)
    else some (none, c :: cs)

/--
The digits before the decimal point at the start of a text, and the rest. A leading zero stands
alone.
-/
def whole? : List Char → Option (List Char × List Char)
  | '0' :: cs => some (['0'], cs)
  | cs => if (digits cs).1.isEmpty then none else some (digits cs)

/-- The number after its sign at the start of a text, and the rest. -/
def number? (negative : Bool) (cs : List Char) : Option (Number × List Char) := do
  let (whole, cs) ← whole? cs
  let (fraction, cs) ← fraction? cs
  let (exponent, cs) ← exponent? cs
  return (⟨negative, whole, fraction, exponent⟩, cs)

/-- The token at the start of a text that does not start with a blank, and the rest. -/
def first? : List Char → Option (Token × List Char)
  | '\x7b' :: cs => some (.openBrace, cs)
  | '\x7d' :: cs => some (.closeBrace, cs)
  | '[' :: cs => some (.openBracket, cs)
  | ']' :: cs => some (.closeBracket, cs)
  | ':' :: cs => some (.colon, cs)
  | ',' :: cs => some (.comma, cs)
  | 'n' :: 'u' :: 'l' :: 'l' :: cs => some (.null, cs)
  | 't' :: 'r' :: 'u' :: 'e' :: cs => some (.bool true, cs)
  | 'f' :: 'a' :: 'l' :: 's' :: 'e' :: cs => some (.bool false, cs)
  | '"' :: cs =>
    (stringBody [] cs).map fun (pieces, cs) => (.string (Piece.text pieces), cs)
  | '-' :: cs => (number? true cs).map fun (token, cs) => (.number token, cs)
  | cs => (number? false cs).map fun (token, cs) => (.number token, cs)

theorem length_digits_le (cs : List Char) : (digits cs).2.length ≤ cs.length := by
  exact (List.dropWhile_suffix Char.isDigit).length_le

theorem length_lt_of_stringBody {pieces cs body rest}
    (h : stringBody pieces cs = some (body, rest)) :
    rest.length < cs.length := by
  fun_induction stringBody pieces cs with
  | case1 => simp at h
  | case2 => simp_all
  | case3 _ _ _ _ _ _ _ _ ih => have := ih h; simp only [List.length_cons]; omega
  | case4 => simp at h
  | case5 _ _ _ _ _ _ ih => have := ih h; simp only [List.length_cons]; omega
  | case6 => simp at h
  | case7 => simp at h
  | case8 _ _ _ _ _ _ _ ih => have := ih h; simp only [List.length_cons]; omega

theorem length_le_of_fraction? {cs digits rest} (h : fraction? cs = some (digits, rest)) :
    rest.length ≤ cs.length := by
  unfold fraction? at h
  split at h
  · rename_i cs
    split at h
    · simp at h
    · have := length_digits_le cs
      simp_all only [Option.some.injEq, List.length_cons]
      omega
  · simp_all

theorem length_sign_le (cs : List Char) : (sign cs).2.length ≤ cs.length := by
  unfold sign
  split <;> simp

theorem length_le_of_exponent? {cs exponent rest} (h : exponent? cs = some (exponent, rest)) :
    rest.length ≤ cs.length := by
  unfold exponent? at h
  split at h
  · simp_all
  · rename_i c cs
    split at h
    · have hsign := length_sign_le cs
      have hdigits := length_digits_le (sign cs).2
      simp only at h
      split at h
      · simp at h
      · simp_all only [Option.some.injEq, Prod.mk.injEq, List.length_cons]
        obtain ⟨-, rfl⟩ := h
        omega
    · simp_all

theorem length_lt_of_whole? {cs digits rest} (h : whole? cs = some (digits, rest)) :
    rest.length < cs.length := by
  unfold whole? at h
  split at h
  · simp_all
  · split at h
    · simp at h
    · rename_i hempty
      have hsplit := congrArg List.length (@List.takeWhile_append_dropWhile _ Char.isDigit cs)
      simp only [Token.digits, List.isEmpty_iff, Option.some.injEq, Prod.mk.injEq] at h hempty
      have := List.length_pos_iff.mpr hempty
      rw [List.length_append] at hsplit
      rw [← h.2]
      omega

theorem length_lt_of_number? {negative cs number rest}
    (h : number? negative cs = some (number, rest)) : rest.length < cs.length := by
  simp only [number?, Option.bind_eq_bind, Option.bind_eq_some_iff] at h
  obtain ⟨⟨whole, rest₁⟩, hwhole, ⟨fraction, rest₂⟩, hfraction, ⟨exponent, rest₃⟩, hexponent, h⟩ :=
    h
  have hwhole := length_lt_of_whole? hwhole
  have hfraction := length_le_of_fraction? hfraction
  have hexponent := length_le_of_exponent? hexponent
  simp only [pure, Option.some.injEq, Prod.mk.injEq] at h
  dsimp only at hfraction hexponent
  rw [← h.2]
  omega

theorem length_lt_of_first? {cs token rest} (h : first? cs = some (token, rest)) :
    rest.length < cs.length := by
  unfold first? at h
  split at h <;> simp only [Option.some.injEq, Prod.mk.injEq, Option.map_eq_some_iff] at h
  all_goals try (obtain ⟨-, rfl⟩ := h; simp only [List.length_cons]; omega)
  · obtain ⟨⟨pieces, rest⟩, h, -, rfl⟩ := h
    have := length_lt_of_stringBody h
    simp only [List.length_cons]
    omega
  · obtain ⟨⟨number, rest⟩, h, -, rfl⟩ := h
    have := length_lt_of_number? h
    simp only [List.length_cons]
    omega
  · obtain ⟨⟨number, rest⟩, h, -, rfl⟩ := h
    exact length_lt_of_number? h

/-- The tokens of a text after those of `tokens`, which are in reverse. -/
def collect (tokens : List Token) (cs : List Char) : Option (List Token) :=
  match cs with
  | [] => some tokens.reverse
  | c :: cs =>
    if isBlank c then collect tokens cs
    else
      match h : first? (c :: cs) with
      | some (token, rest) =>
        have := length_lt_of_first? h
        collect (token :: tokens) rest
      | none => none
termination_by cs.length
decreasing_by
  · simp only [List.length_cons]
    omega
  · simp only [List.length_cons] at this ⊢
    omega

/-- The tokens of a text. `none` if some part of it is not a token. -/
def all? (cs : List Char) : Option (List Token) :=
  collect [] cs

end Token

end Upvalue.Json

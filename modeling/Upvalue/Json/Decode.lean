import Upvalue.Json.Basic
import Upvalue.Text.Quoted

/-!
This module contains the errors that are found when a JSON value does not have the expected form,
and the decoders of the basic values.
-/

namespace Upvalue.Json

/-- What was found in place of the expected value. -/
inductive Found where
  | null
  | bool (value : Bool)
  | integer (i : Int)
  | float (x : Binary64)
  | string (s : String)
  | sequence
  | map
  /-- A variant without contents. -/
  | unitVariant
deriving DecidableEq, Repr

/-- The form that a value is expected to have. -/
inductive Shape where
  /-- A basic form, given by how it is called. -/
  | basic (name : String)
  | tuple (size : Nat)
  | struct (name : String) (size : Nat)
  | structVariant (name : String) (size : Nat)
deriving DecidableEq, Repr

/-- Why a JSON value cannot be decoded. -/
inductive DecodeError where
  | invalidType (found : Found) (expected : Shape)
  | invalidValue (found : Found) (expected : Shape)
  /-- A sequence ends before the element at position `length`. -/
  | invalidLength (length : Nat) (expected : Shape)
  | unknownVariant (name : String) (known : List String)
  | missingField (name : String)
  | duplicateField (name : String)
  /-- Something else stands where a variant is expected, or more follows it. -/
  | expectedValue
  /-- A sequence has more elements than expected. -/
  | trailing
  /-- Too many arrays and objects are open. -/
  | nesting
  | range
  | escape (fault : EscapeFault)
deriving DecidableEq, Repr

namespace Found

def text : Found → String
  | .null => "null"
  | .bool b => "boolean `" ++ toString b ++ "`"
  | .integer i => "integer `" ++ toString i ++ "`"
  | .float x => "floating point `" ++ ((Number.ofBinary64? x).map Number.text).getD "" ++ "`"
  | .string s => "string " ++ Text.quoted s
  | .sequence => "sequence"
  | .map => "map"
  | .unitVariant => "unit variant"

end Found

namespace Shape

def text : Shape → String
  | .basic name => name
  | .tuple size => "a tuple of size " ++ toString size
  | .struct name _ => "struct " ++ name
  | .structVariant name _ => "struct variant " ++ name

/-- How a message shows the expected number of elements. -/
def lengthText (shape : Shape) : String :=
  match shape with
  | .struct _ size | .structVariant _ size =>
    shape.text ++ " with " ++ toString size ++ if size = 1 then " element" else " elements"
  | _ => shape.text

end Shape

def EscapeFault.message : EscapeFault → String
  | .loneSurrogate => "lone leading surrogate in hex escape"
  | .endOfEscape => "unexpected end of hex escape"

def DecodeError.message : DecodeError → String
  | .invalidType found expected => "invalid type: " ++ found.text ++ ", expected " ++ expected.text
  | .invalidValue found expected =>
    "invalid value: " ++ found.text ++ ", expected " ++ expected.text
  | .invalidLength n expected =>
    "invalid length " ++ toString n ++ ", expected " ++ expected.lengthText
  | .unknownVariant name known =>
    "unknown variant `" ++ name ++ "`, expected one of "
      ++ ", ".intercalate (known.map fun name => "`" ++ name ++ "`")
  | .missingField name => "missing field `" ++ name ++ "`"
  | .duplicateField name => "duplicate field `" ++ name ++ "`"
  | .expectedValue => "expected value"
  | .trailing => "trailing characters"
  | .nesting => "recursion limit exceeded"
  | .range => "number out of range"
  | .escape fault => fault.message

/-- The text of a string, unless an escape in it is broken. -/
def Text.read : Text → Except DecodeError String
  | .plain s => .ok s
  | .broken fault => .error (.escape fault)

def found : Json → Except DecodeError Found
  | .null => .ok .null
  | .bool b => .ok (.bool b)
  | .number n =>
    match n.value? with
    | some (.integer i) => .ok (.integer i)
    | some (.float x) => .ok (.float x)
    | none => .error .range
  | .string s => s.read.map .string
  | .array _ => .ok .sequence
  | .object _ => .ok .map

/-- The error of a value that does not have the expected form. -/
def mismatch (json : Json) (expected : Shape) : DecodeError :=
  match json.found with
  | .ok found => .invalidType found expected
  | .error e => e

/--
How many arrays and objects may be open at once on the way to a value. What is skipped does not
count.
-/
def nestingLimit : Nat := 127

/-- A decoder knows how many more arrays and objects may be opened. -/
abbrev Decoder (α : Type) := (room : Nat) → Json → Except DecodeError α

namespace Decoder

def map (f : α → β) (decode : Decoder α) : Decoder β :=
  fun room json => (decode room json).map f

/-- Decode a value from its start, with nothing open. -/
def run (decode : Decoder α) (json : Json) : Except DecodeError α :=
  decode nestingLimit json

/-- Open one more array or object and go on inside. -/
def descend (room : Nat) (inside : Nat → Except DecodeError α) : Except DecodeError α :=
  match room with
  | 0 => .error .nesting
  | room + 1 => inside room

def bool : Decoder Bool
  | _, .bool b => .ok b
  | _, json => .error (json.mismatch (.basic "a boolean"))

def string : Decoder String
  | _, .string s => s.read
  | _, json => .error (json.mismatch (.basic "a string"))

/-- The unit value is written as `null`. -/
def unit : Decoder Unit
  | _, .null => .ok ()
  | _, json => .error (json.mismatch (.basic "unit"))

/-- An integer from `least` on and below `bound`. -/
def integer (name : String) (least bound : Int) : Decoder Int :=
  fun _ json =>
    match json.found with
    | .ok (.integer i) =>
      if least ≤ i ∧ i < bound then .ok i else .error (.invalidValue (.integer i) (.basic name))
    | _ => .error (json.mismatch (.basic name))

def uint32 : Decoder UInt32 :=
  (integer "u32" 0 (Int.pow 2 32)).map fun i => UInt32.ofNat i.toNat

def int64 : Decoder Int64 :=
  (integer "i64" (-Int.pow 2 63) (Int.pow 2 63)).map Int64.ofInt

/-- A floating point number. An integer stands for the number nearest to it. -/
def float : Decoder Binary64 :=
  fun _ json =>
    match json.found with
    | .ok (.float x) => .ok x
    | .ok (.integer i) =>
      match Binary64.ofInt i with
      | some x => .ok x
      | none => .error .range
    | _ => .error (json.mismatch (.basic "f64"))

/-- A value that may be `null`. -/
def option (decode : Decoder α) : Decoder (Option α) :=
  fun room json =>
    match json with
    | .null => .ok none
    | json => (decode room json).map some

def list (decode : Decoder α) : Decoder (List α) :=
  fun room json =>
    match json with
    | .array items => descend room fun room => items.mapM (decode room)
    | json => .error (json.mismatch (.basic "a sequence"))

end Decoder

end Upvalue.Json

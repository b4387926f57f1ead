import Upvalue.Json.Number

/-!
This module contains the values of JSON. Objects keep their fields in the order they are written in,
repeated names included.
-/

namespace Upvalue

namespace Json

/-- Why the escapes of a string do not stand for characters. -/
inductive EscapeFault where
  /-- A surrogate without the other half of its pair. -/
  | loneSurrogate
  /-- A leading surrogate that no further escape follows. -/
  | endOfEscape
deriving DecidableEq, Repr

/-- The contents of a string. Every string can be skipped, but only some can be read. -/
inductive Text where
  | plain (s : String)
  | broken (fault : EscapeFault)
deriving DecidableEq, Repr

/-- The text of a string, if it can be read. -/
def Text.toOption : Text → Option String
  | .plain s => some s
  | .broken _ => none

end Json

/-- A JSON value. -/
inductive Json where
  | null
  | bool (value : Bool)
  | number (token : Json.Number)
  | string (text : Json.Text)
  | array (items : List Json)
  | object (fields : List (Json.Text × Json))
deriving Repr, Inhabited

namespace Json

def str (s : String) : Json :=
  .string (.plain s)

def ofNat (n : Nat) : Json :=
  .number (.ofNat n)

def obj (fields : List (String × Json)) : Json :=
  .object (fields.map fun (name, value) => (.plain name, value))

/-- A value or `null`. -/
def ofOption (encode : α → Json) : Option α → Json
  | none => .null
  | some a => encode a

/-- The fields of an object, nothing for the other values. -/
def fields : Json → List (Text × Json)
  | .object fields => fields
  | _ => []

/-- The value of the first field with a given name, `null` if there is none. -/
def get (json : Json) (name : String) : Json :=
  match json.fields.find? fun (key, _) => key.toOption == some name with
  | some (_, value) => value
  | none => .null

end Json

end Upvalue

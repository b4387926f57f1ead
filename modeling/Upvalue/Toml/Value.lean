/-!
This module contains the values of TOML. Numbers, booleans and dates have to be well-formed, but
they are not kept, since no setting has such a value.
-/

namespace Upvalue.Toml

/-- A value. -/
inductive Value where
  | string (text : String)
  /-- A number, a boolean, or a date or time. -/
  | scalar
  | array (items : List Value)
  | table (fields : List (String × Value))
deriving Repr, Inhabited

/-- A scanner takes what it knows from the front of a text, and returns the rest. -/
abbrev Scanner (α : Type) := List Char → Option (α × List Char)

end Upvalue.Toml

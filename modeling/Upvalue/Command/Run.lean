import Upvalue.Command.Convert
import Upvalue.Command.Explain

/-!
This module contains the command line as a whole: from its arguments to its output.
-/

namespace Upvalue.Command

variable {m : Type → Type} [Monad m]

/-- Whether output is coloured. It is only on a terminal. -/
def Invocation.colored (invocation : Invocation) (terminal : Bool) : Bool :=
  terminal && !invocation.noColor && !invocation.quiet

def perform (host : Host m) (terminal : Bool) (invocation : Invocation) :
    ExceptT Failure m Output := do
  let colored := invocation.colored terminal
  match invocation.task with
  | .convert input output config pretty =>
    Convert.run host ⟨invocation.format, colored, invocation.quiet⟩ input output config pretty
  | .explain code => Explain.run invocation.format colored code

/-- Run a command line. `terminal` says whether the standard error output is a terminal. -/
def run (host : Host m) (terminal : Bool) (args : List String) : m Output := do
  match Arguments.parse args with
  | .error error => return ⟨2, "", "error: " ++ error.message ++ "\n"⟩
  | .ok invocation =>
    match ← (perform host terminal invocation).run with
    | .ok output => return output
    | .error failure => return failure.output

end Upvalue.Command

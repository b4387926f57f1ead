import Upvalue.Diagnostic.Basic
import Upvalue.Program.Basic

/-!
This module contains the ways in which boxing the captured variables of a program can fail.
-/

namespace Upvalue.Boxing

/--
Why the variables of a program cannot be boxed. Only `uninitializedCapture` is a mistake of the
user, all others mean that the program is in a state that earlier phases should have ruled out.
-/
inductive BoxingError where
  /-- A variable that has to be boxed has no initializer. -/
  | uninitializedCapture (decl : DeclId) (name : String) (loc : Span) (assignedAt : Span)
  /-- A variable is used before its declaration has been visited. -/
  | unregisteredDecl (decl : DeclId) (name : String) (loc : Span)
  /-- A variable is used after the function that declares it has been left. -/
  | closedScope (decl : DeclId) (name : String) (loc : Span)
  /-- More functions are left than have been entered. -/
  | scopeUnderflow
deriving DecidableEq, Repr

namespace BoxingError

def message : BoxingError → String
  | .uninitializedCapture _ name _ _ =>
    "captured variable '" ++ name ++ "' is reassigned but has no initializer"
  | .unregisteredDecl _ name _ =>
    "internal error: '" ++ name ++ "' is referenced before its declaration was visited"
  | .closedScope _ name _ =>
    "internal error: '" ++ name ++ "' is used after its declaring function was left"
  | .scopeUnderflow => "internal error: function scope stack underflow"

def name : BoxingError → String
  | .uninitializedCapture .. => "UninitializedCapture"
  | .unregisteredDecl .. => "UnregisteredDecl"
  | .closedScope .. => "ClosedScope"
  | .scopeUnderflow => "ScopeUnderflow"

/-- Whether an error is a defect of the compiler and not of the user's program. -/
def isInternal : BoxingError → Bool
  | .uninitializedCapture .. => false
  | _ => true

def decl? : BoxingError → Option DeclId
  | .uninitializedCapture decl .. | .unregisteredDecl decl .. | .closedScope decl .. => some decl
  | .scopeUnderflow => none

/-- The declaration of the variable that an error is about. -/
def loc : BoxingError → Span
  | .uninitializedCapture _ _ loc _ | .unregisteredDecl _ _ loc | .closedScope _ _ loc => loc
  | .scopeUnderflow => Span.dummy

/-- The first assignment of a variable that has no initializer. -/
def assignedAt? : BoxingError → Option Span
  | .uninitializedCapture _ _ _ assignedAt => some assignedAt
  | _ => none

/-- What is reported to the user about an error. -/
def diagnostic (error : BoxingError) : Diagnostic :=
  match error with
  | .uninitializedCapture _ name loc assignedAt =>
    let diagnostic := (Diagnostic.ofCode .uninitializedCapture error.message).withSpan loc
    let diagnostic :=
      if assignedAt.isDummy then diagnostic
      else diagnostic.withLabel assignedAt "reassigned here"
    diagnostic.withHelp ("'" ++ name ++ "' is reassigned and used from a nested function, "
      ++ "so it must be declared with a value (e.g. `local " ++ name ++ " = ...`)")
  | _ =>
    (Diagnostic.ofCode .internalError error.message).withSpan error.loc
      |>.withHelp "this is a compiler bug; please report it with the input program"

end BoxingError

end Upvalue.Boxing

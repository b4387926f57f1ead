import Upvalue.Diagnostic.Basic

/-!
This module contains the explanations of the codes of diagnostics.
-/

namespace Upvalue

/-- What a code is about. Texts are lists of lines. -/
structure Explanation where
  title : String
  description : List String
  example? : Option (List String)
  suggestion? : Option (List String)
  related : List Code
deriving DecidableEq, Repr

def Code.explanation : Code → Explanation
  | .malformedProgram =>
    { title := "Malformed Program"
      description := [
        "The input could not be read as a typed program.",
        "",
        "Either the JSON is invalid, a node is missing one of its fields or has a",
        "field of the wrong kind, a node refers to a declaration, statement,",
        "expression or variable that does not exist, or a statement, expression or",
        "variable is reachable from two parents (including a node that contains",
        "itself)."]
      example? := some [
        "\x7b \"Binop\": \x7b \"lhs\": 0, \"op\": \"Add\" \x7d \x7d   // no right operand"]
      suggestion? := some [
        "Regenerate the input with the type checker rather than editing it by hand."]
      related := [.internalError] }
  | .uninitializedCapture =>
    { title := "Captured Variable Without Initializer"
      description := [
        "A local variable is reassigned and also used from a nested function, so it",
        "has to live in a heap box shared by every closure that sees it. The box is",
        "created where the variable is declared, from its initial value; a variable",
        "declared without a value has nothing to build the box from.",
        "",
        "Function parameters and loop variables have no initializer either, so they",
        "cannot be reassigned from a nested function."]
      example? := some [
        "local function counter()",
        "    local n: integer",
        "    local inc = function() n = n + 1 end",
        "end"]
      suggestion? := some [
        "Give the variable an initial value:",
        "",
        "    local n: integer = 0",
        "",
        "For a parameter or loop variable, copy it into a fresh local first:",
        "",
        "    local count = n"]
      related := [] }
  | .internalError =>
    { title := "Internal Compiler Error"
      description := [
        "The program reached the boxing pass in a state earlier phases should have",
        "ruled out, such as a name that resolves to a declaration which is never",
        "declared, or a variable used outside the function that declares it."]
      example? := none
      suggestion? := some ["Please report this with the input program attached."]
      related := [.malformedProgram] }

end Upvalue

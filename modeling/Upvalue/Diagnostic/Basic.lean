import Upvalue.Span

/-!
This module contains diagnostics: what is reported to the user about a program, how severe it is and
where it comes from.
-/

namespace Upvalue

/-- How severe a diagnostic is, from the least to the most severe. -/
inductive Severity where
  | note
  | warning
  /-- Blocks compilation. -/
  | error
deriving DecidableEq, Repr, Inhabited

namespace Severity

def text : Severity → String
  | .note => "note"
  | .warning => "warning"
  | .error => "error"

def name : Severity → String
  | .note => "Note"
  | .warning => "Warning"
  | .error => "Error"

def all : List Severity := [.note, .warning, .error]

def rank : Severity → Nat
  | .note => 0
  | .warning => 1
  | .error => 2

instance : LE Severity := ⟨fun a b => a.rank ≤ b.rank⟩

instance (a b : Severity) : Decidable (a ≤ b) :=
  inferInstanceAs (Decidable (a.rank ≤ b.rank))

end Severity

/-- The codes of diagnostics, by what they are about. -/
inductive Code where
  /-- A program could not be read, or is not a tree of nodes. -/
  | malformedProgram
  /-- A captured, reassigned variable has no initializer to box. -/
  | uninitializedCapture
  /-- A program is in a state that earlier phases should have ruled out. -/
  | internalError
deriving DecidableEq, Repr, Inhabited

namespace Code

def all : List Code := [.malformedProgram, .uninitializedCapture, .internalError]

def text : Code → String
  | .malformedProgram => "L001"
  | .uninitializedCapture => "B001"
  | .internalError => "I001"

def name : Code → String
  | .malformedProgram => "MalformedProgram"
  | .uninitializedCapture => "UninitializedCapture"
  | .internalError => "InternalError"

/-- The code with a given text. The case of ASCII letters does not matter. -/
def ofText? (text : String) : Option Code :=
  all.find? fun code => code.text.toList.map Char.toUpper == text.toList.map Char.toUpper

/-- The severity of diagnostics with a given code, unless they say otherwise. -/
def severity : Code → Severity
  | .malformedProgram => .error
  | .uninitializedCapture => .error
  | .internalError => .error

theorem ofText?_text (code : Code) : ofText? code.text = some code := by
  cases code <;> decide +kernel

end Code

/-- What is reported to the user. -/
structure Diagnostic where
  code : Code
  severity : Severity
  message : String
  span : Span
  labels : List Label
  help : Option String
deriving DecidableEq, Repr

namespace Diagnostic

/-- A diagnostic that says no more than its message. -/
def new (code : Code) (severity : Severity) (message : String) : Diagnostic :=
  ⟨code, severity, message, Span.dummy, [], none⟩

def ofCode (code : Code) (message : String) : Diagnostic :=
  new code code.severity message

def withSpan (diagnostic : Diagnostic) (span : Span) : Diagnostic :=
  { diagnostic with span := span }

def withLabel (diagnostic : Diagnostic) (span : Span) (message : String) : Diagnostic :=
  { diagnostic with labels := diagnostic.labels ++ [⟨span, message⟩] }

def withHelp (diagnostic : Diagnostic) (help : String) : Diagnostic :=
  { diagnostic with help := some help }

def isError (diagnostic : Diagnostic) : Bool :=
  diagnostic.severity = .error

def isWarning (diagnostic : Diagnostic) : Bool :=
  diagnostic.severity = .warning

def errorCount (diagnostics : List Diagnostic) : Nat :=
  diagnostics.countP isError

def warningCount (diagnostics : List Diagnostic) : Nat :=
  diagnostics.countP isWarning

def hasErrors (diagnostics : List Diagnostic) : Bool :=
  diagnostics.any isError

end Diagnostic

end Upvalue

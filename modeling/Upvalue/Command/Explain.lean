import Upvalue.Command.Arguments
import Upvalue.Command.Host
import Upvalue.Diagnostic.Explanation
import Upvalue.Diagnostic.Terminal
import Upvalue.Json.Printer
import Upvalue.Text.Uppercase

/-!
This module contains the command that explains the code of a diagnostic.
-/

namespace Upvalue.Command.Explain

open Terminal (Part)

/-- A word with styles, in front of which stands nothing. -/
def styled (styles : List Terminal.Style) (text : String) : List Part :=
  styles.map .style ++ [.fixed text, .reset]

/-- A section: its name, and its lines below. -/
def sectionOf (styles : List Terminal.Style) (name : String) (lines : List String) : List Part :=
  styled styles name ++ [.fixed ":\n"]
    ++ lines.flatMap (fun line => [.fixed "  ", .fixed line, .fixed "\n"]) ++ [.fixed "\n"]

def text (code : Code) : List Part :=
  let e := code.explanation
  [.fixed "\n"] ++ styled [.cyan, .bold] code.text ++ [.fixed ": "] ++ styled [.bold] e.title
    ++ [.fixed "\n",
      .fixed (Terminal.repeated (code.text.utf8ByteSize + e.title.utf8ByteSize + 2) '='),
      .fixed "\n\n", .fixed ("\n".intercalate e.description), .fixed "\n\n"]
    ++ (e.example?.map (sectionOf [.bold] "Example")).getD []
    ++ (e.suggestion?.map (sectionOf [.green, .bold] "Suggestion")).getD []
    ++ (if e.related.isEmpty then []
      else styled [.dim] "Related"
        ++ [.fixed ": ", .fixed (", ".intercalate (e.related.map Code.text)), .fixed "\n"])

/-- The explanation of a code as a JSON object. -/
def json (code : Code) : Json :=
  let e := code.explanation
  let lines (text : List String) : Json := .str ("\n".intercalate text)
  Json.obj [("code", .str code.text), ("description", lines e.description),
    ("example", .ofOption lines e.example?),
    ("related", .array (e.related.map fun code => .str code.text)),
    ("severity", .str code.severity.text), ("suggestion", .ofOption lines e.suggestion?),
    ("title", .str e.title)]

/-- Explain the code with a given text, whose case does not matter. -/
def run (format : Format) (colored : Bool) (text : String) : Except Failure Output :=
  let text := Text.upper text
  match Code.ofText? text with
  | none => .error (.ofMessage ("Unknown error code: " ++ text))
  | some code =>
    match format with
    | .text => .ok ⟨0, Terminal.print colored (Explain.text code), ""⟩
    | .json => .ok ⟨0, (json code).pretty ++ "\n", ""⟩

end Upvalue.Command.Explain

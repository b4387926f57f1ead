import Upvalue.Diagnostic.Basic
import Upvalue.Source.Cache

/-!
This module contains the text that a terminal shows for diagnostics: the message, the line of source
text with a marker below the span, the labels and the help. The layout is a list of parts, colour is
a matter of how the parts are printed.
-/

namespace Upvalue

namespace Terminal

/-- How the text after a part looks. -/
inductive Style where
  | bold | dim | red | green | yellow | blue | cyan
deriving DecidableEq, Repr

def Style.number : Style → Nat
  | .bold => 1
  | .dim => 2
  | .red => 31
  | .green => 32
  | .yellow => 33
  | .blue => 34
  | .cyan => 36

/-- A part of the output. -/
inductive Part where
  /-- From here on the text has a style. -/
  | style (style : Style)
  /-- From here on the text has no style. -/
  | reset
  | fixed (text : String)
  /-- Text of the user: messages, paths and source lines. -/
  | given (text : String)
deriving DecidableEq, Repr

def escape (number : Nat) : String :=
  "\x1b[" ++ toString number ++ "m"

/-- The text of a part. Styles have a text only in colour. -/
def Part.text (colored : Bool) : Part → String
  | .style s => if colored then escape s.number else ""
  | .reset => if colored then escape 0 else ""
  | .fixed text => text
  | .given text => text

def print (colored : Bool) (parts : List Part) : String :=
  parts.foldl (fun out part => out ++ part.text colored) ""

def repeated (count : Nat) (c : Char) : String :=
  String.ofList (List.replicate count c)

def severityStyle : Severity → Style
  | .error => .red
  | .warning => .yellow
  | .note => .blue

/-- A number of things, with their name in the singular or the plural. -/
def counted (count : Nat) (noun : String) : String :=
  toString count ++ " " ++ noun ++ (if count = 1 then "" else "s")

/-- The first line: severity, code and message. -/
def headline (diagnostic : Diagnostic) : List Part :=
  [.style .bold, .style (severityStyle diagnostic.severity), .fixed diagnostic.severity.text,
    .fixed "[", .fixed diagnostic.code.text, .fixed "]", .reset, .fixed ": ",
    .given diagnostic.message, .fixed "\n"]

/--
The number of carets below a span that starts at a column of a line: one for every byte, not further
than the end of the line, and at least one.
-/
def markerWidth (span : Span) (line : String) (column : Nat) : Nat :=
  max 1 (min span.length (line.utf8ByteSize - (column - 1)))

/-- A line of source text, with a marker below the span that starts there. -/
def snippet (diagnostic : Diagnostic) (loc : Location) (line : String) : List Part :=
  let number := toString loc.line
  let padding := repeated number.length ' '
  [.fixed padding, .fixed " ", .style .cyan, .fixed "|", .reset, .fixed "\n",
    .style .cyan, .fixed number, .fixed " |", .reset, .fixed " ", .given line, .fixed "\n",
    .fixed padding, .fixed " ", .style .cyan, .fixed "|", .reset, .fixed " ",
    .fixed (repeated (loc.column - 1) ' '), .style (severityStyle diagnostic.severity),
    .fixed (repeated (markerWidth diagnostic.span line loc.column) '^'), .reset, .fixed "\n"]

/-- The place of a diagnostic, if it is known. -/
def place (cache : SourceCache) (diagnostic : Diagnostic) : List Part :=
  match cache.location? diagnostic.span with
  | none => []
  | some loc =>
    let line? := (cache.file? diagnostic.span.file).bind (·.lineText? loc.line)
    [.fixed "  ", .style .cyan, .fixed "-->", .reset, .fixed " ", .given loc.text, .fixed "\n"]
      ++ (line?.map (snippet diagnostic loc)).getD []

def note (cache : SourceCache) (label : Label) : List Part :=
  [.fixed "  ", .style .cyan, .fixed "note", .reset, .fixed ": ", .given label.message]
    ++ (match cache.location? label.span with
      | some loc => [.fixed " (", .given loc.text, .fixed ")"]
      | none => [])
    ++ [.fixed "\n"]

def help (text : String) : List Part :=
  [.fixed "  ", .style .cyan, .fixed "= help:", .reset, .fixed " ", .given text, .fixed "\n"]

/-- What is shown for a diagnostic. An empty line ends it. -/
def diagnostic (cache : SourceCache) (d : Diagnostic) : List Part :=
  headline d ++ place cache d ++ d.labels.flatMap (note cache) ++ (d.help.map help).getD []
    ++ [.fixed "\n"]

/-- What is shown below a list of diagnostics: nothing, if there are no errors and no warnings. -/
def summary (diagnostics : List Diagnostic) : List Part :=
  let errors := Diagnostic.errorCount diagnostics
  let warnings := Diagnostic.warningCount diagnostics
  if errors = 0 ∧ warnings = 0 then []
  else
    let counts :=
      (if 0 < errors then [counted errors "error"] else [])
        ++ (if 0 < warnings then [counted warnings "warning"] else [])
    [.style (severityStyle (if 0 < errors then .error else .warning)),
      .fixed (" and ".intercalate counts), .fixed " emitted", .reset, .fixed "\n"]

def report (cache : SourceCache) (diagnostics : List Diagnostic) : List Part :=
  diagnostics.flatMap (diagnostic cache) ++ summary diagnostics

def text (colored : Bool) (cache : SourceCache) (diagnostics : List Diagnostic) : String :=
  print colored (report cache diagnostics)

@[simp]
theorem print_nil (colored : Bool) : print colored [] = "" := rfl

@[simp]
theorem print_cons (colored : Bool) (part : Part) (parts : List Part) :
    print colored (part :: parts) = part.text colored ++ print colored parts := by
  have hfoldl (out : String) : parts.foldl (fun out part => out ++ part.text colored) out
      = out ++ print colored parts := by
    unfold print
    induction parts generalizing out with
    | nil => simp
    | cons part parts ih =>
      rw [List.foldl_cons, List.foldl_cons, ih, ih ("" ++ _), String.empty_append,
        String.append_assoc]
  rw [print, List.foldl_cons, hfoldl, String.empty_append]

theorem print_append (colored : Bool) (parts parts' : List Part) :
    print colored (parts ++ parts') = print colored parts ++ print colored parts' := by
  induction parts with
  | nil => simp
  | cons part parts ih => simp [ih, String.append_assoc]

end Terminal

end Upvalue

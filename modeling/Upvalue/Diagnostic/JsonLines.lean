import Upvalue.Diagnostic.Basic
import Upvalue.Json.Printer
import Upvalue.Source.Cache

/-!
This module contains diagnostics for other tools: one JSON object on every line, and a last one that
counts them. The fields of an object are in alphabetical order.
-/

namespace Upvalue.JsonLines

/-- The place where a span starts, `null` if it is not known. -/
def location (cache : SourceCache) (span : Span) : Json :=
  Json.ofOption
    (fun loc => Json.obj [("column", .ofNat loc.column), ("file", .str loc.file),
      ("line", .ofNat loc.line)])
    (cache.location? span)

def label (cache : SourceCache) (label : Label) : Json :=
  Json.obj [("location", location cache label.span), ("message", .str label.message)]

def diagnostic (cache : SourceCache) (d : Diagnostic) : Json :=
  Json.obj [("code", .str d.code.text), ("help", .ofOption .str d.help),
    ("labels", .array (d.labels.map (label cache))), ("location", location cache d.span),
    ("message", .str d.message), ("severity", .str d.severity.text)]

def summary (diagnostics : List Diagnostic) : Json :=
  Json.obj [("errors", .ofNat (Diagnostic.errorCount diagnostics)),
    ("total", .ofNat diagnostics.length), ("type", .str "summary"),
    ("warnings", .ofNat (Diagnostic.warningCount diagnostics))]

/-- A JSON value on a line of its own. -/
def line (json : Json) : String :=
  json.compact ++ "\n"

def text (cache : SourceCache) (diagnostics : List Diagnostic) : String :=
  (diagnostics.map (diagnostic cache) ++ [summary diagnostics]).foldl
    (fun out json => out ++ line json) ""

end Upvalue.JsonLines

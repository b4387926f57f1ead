/-!
This module contains positions in source texts: spans of bytes, resolved locations and labels.
-/

namespace Upvalue

/--
A range of bytes in one source file. `file` is the position of the file in the list of files of a
program, `start` is inclusive and `stop` exclusive.
-/
structure Span where
  file : UInt32
  start : UInt32
  stop : UInt32
deriving DecidableEq, Repr

namespace Span

/-- The file number of nodes that have no source text. -/
def noFile : UInt32 := 0xFFFFFFFF

/-- The span of nodes that have no source text. -/
def dummy : Span := ⟨noFile, 0, 0⟩

instance : Inhabited Span := ⟨dummy⟩

/-- Whether a span has no source text. Only the file decides. -/
def isDummy (span : Span) : Bool :=
  span.file == noFile

/-- The number of bytes in a span, `0` if it ends before it starts. -/
def length (span : Span) : Nat :=
  span.stop.toNat - span.start.toNat

def isEmpty (span : Span) : Bool :=
  span.stop ≤ span.start

@[simp]
theorem isDummy_dummy : dummy.isDummy = true := rfl

theorem isEmpty_iff_length_eq_zero (span : Span) : span.isEmpty = true ↔ span.length = 0 := by
  simp only [isEmpty, length, decide_eq_true_eq, UInt32.le_iff_toNat_le]
  omega

end Span

/-- A place in a source text. Lines and columns count from `1`, columns count bytes. -/
structure Location where
  file : String
  line : Nat
  column : Nat
deriving DecidableEq, Repr

/-- The text of a location: file, line and column, separated by colons. -/
def Location.text (loc : Location) : String :=
  loc.file ++ ":" ++ toString loc.line ++ ":" ++ toString loc.column

/-- A further place that a diagnostic mentions, with what it has to say about it. -/
structure Label where
  span : Span
  message : String
deriving DecidableEq, Repr

end Upvalue

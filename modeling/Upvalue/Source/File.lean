import Upvalue.Source.Lines

/-!
This module contains source texts, and what is asked about them: the line and the column of an
offset, and the text of a line. Offsets and columns count bytes.

Numbers have no largest one here. Everything that is computed for a text of less than `2 ^ 32 - 1`
bytes fits into 32 bits.
-/

namespace Upvalue

/-- A source text with the path it was read from. -/
structure SourceFile where
  path : String
  text : String
deriving DecidableEq, Repr

namespace SourceFile

def size (file : SourceFile) : Nat :=
  Source.byteSize file.text.toList

/-- The offsets at which the lines of the text start. -/
def lineStarts (file : SourceFile) : Array Nat :=
  Source.lineStarts file.text.toList

/--
The line and the column of an offset, both counting from `1`. An offset behind the text stands for
its end. There are none if the line is not in the table of lines, or starts behind the offset.
-/
def findLineColumn? (file : SourceFile) (offset : Nat) : Option (Nat × Nat) := do
  let offset := min offset file.size
  let index := Source.lineIndex file.lineStarts offset
  let start ← file.lineStarts[index]?
  if start ≤ offset then return (index + 1, offset - start + 1) else none

theorem isSome_findLineColumn? (file : SourceFile) (offset : Nat) :
    (file.findLineColumn? offset).isSome = true := by
  obtain ⟨start, hstart, hle, -⟩ :=
    Source.lineIndex_lineStarts file.text.toList (min offset file.size)
  simp only [findLineColumn?, lineStarts, hstart, Option.bind_eq_bind, Option.bind_some]
  rw [if_pos hle]
  rfl

/-- The line and the column of an offset. Every offset has one. -/
def lineColumn (file : SourceFile) (offset : Nat) : Nat × Nat :=
  (file.findLineColumn? offset).get (file.isSome_findLineColumn? offset)

theorem findLineColumn?_eq (file : SourceFile) (offset : Nat) :
    file.findLineColumn? offset = some (file.lineColumn offset) := by
  simp [lineColumn]

/--
The text of a line, which counts from `1`, without its terminator, or `none` for a line that the
text does not have. There is no answer if the line is a part that cannot be cut out of the text.
-/
def findLineText? (file : SourceFile) (line : Nat) : Option (Option String) :=
  match Source.lineRange? file.text.toList line with
  | none => some none
  | some (start, stop) =>
    (Source.slice? file.text.toList start stop).map fun piece =>
      some (String.ofList (Source.trimTerminator piece))

theorem isSome_findLineText? (file : SourceFile) (line : Nat) :
    (file.findLineText? line).isSome = true := by
  unfold findLineText?
  split
  . rfl
  . rename_i hrange
    obtain ⟨piece, -, hpiece⟩ := Source.slice?_lineRange? hrange
    simp [hpiece]

/-- The text of a line, if there is such a line. Every line can be cut out of its text. -/
def lineText? (file : SourceFile) (line : Nat) : Option String :=
  (file.findLineText? line).get (file.isSome_findLineText? line)

theorem findLineText?_eq (file : SourceFile) (line : Nat) :
    file.findLineText? line = some (file.lineText? line) := by
  simp [lineText?]

@[simp]
theorem lineText?_zero (file : SourceFile) : file.lineText? 0 = none := rfl

/-- The text of a line is its piece of the text without the terminator. -/
theorem lineText?_succ (file : SourceFile) (i : Nat) :
    file.lineText? (i + 1) = ((Source.pieces file.text.toList)[i]?).map fun piece =>
      String.ofList (Source.trimTerminator piece) := by
  have hfind := file.findLineText?_eq (i + 1)
  unfold findLineText? at hfind
  cases hrange : Source.lineRange? file.text.toList (i + 1) with
  | none =>
    rw [hrange] at hfind
    rw [Source.lineRange?_succ, Option.map_eq_none_iff] at hrange
    rw [hrange, ← Option.some.inj hfind]
    rfl
  | some range =>
    obtain ⟨piece, hpiece, hslice⟩ := Source.slice?_lineRange? hrange
    rw [hrange] at hfind
    rw [Nat.add_sub_cancel] at hpiece
    simp only [hslice, Option.map_some, Option.some.injEq] at hfind
    rw [← hfind, hpiece]
    rfl

theorem lineText?_of_piece {file : SourceFile} {i : Nat} {piece : List Char}
    (h : (Source.pieces file.text.toList)[i]? = some piece) :
    file.lineText? (i + 1) = some (String.ofList (Source.trimTerminator piece)) := by
  rw [lineText?_succ, h, Option.map_some]

theorem subset_of_lineText? {file : SourceFile} {line : Nat} {text : String}
    (h : file.lineText? line = some text) : text.toList ⊆ file.text.toList := by
  cases line with
  | zero => cases h
  | succ i =>
    rw [lineText?_succ, Option.map_eq_some_iff] at h
    obtain ⟨piece, hpiece, rfl⟩ := h
    obtain ⟨count, hcount⟩ := Source.exists_trimTerminator_append hpiece
    intro c hc
    rw [String.toList_ofList] at hc
    rw [Source.flatten_take_append hpiece, hcount]
    simp [hc]

/-- A text has a line for each of its pieces. -/
theorem isSome_lineText?_iff (file : SourceFile) (line : Nat) :
    (file.lineText? line).isSome = true ↔
      1 ≤ line ∧ line ≤ (Source.pieces file.text.toList).length := by
  cases line with
  | zero => simp
  | succ i =>
    rw [lineText?_succ, Option.isSome_map, isSome_getElem?]
    omega

end SourceFile

end Upvalue

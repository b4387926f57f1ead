import Upvalue.Diagnostic.Terminal
import Upvalue.Proofs.Source.Position

/-!
This module contains the marker below a line of source text. In front of it are as many spaces as
bytes in front of the span, and it has as many carets as the span has bytes in its line. So it stands
below the characters of the span as long as every character is one byte.
-/

namespace Upvalue

namespace Source

theorem length_le_byteSize (cs : List Char) : cs.length ≤ byteSize cs := by
  induction cs with
  | nil => exact Nat.le_refl _
  | cons c cs ih =>
    have hsize := c.utf8Size_pos
    rw [byteSize_cons, List.length_cons]
    omega

/-- A text has as many bytes as characters if and only if all of them are ASCII. -/
theorem byteSize_eq_length_iff (cs : List Char) :
    byteSize cs = cs.length ↔ ∀ c ∈ cs, c.toNat < 128 := by
  induction cs with
  | nil => simp
  | cons c cs ih =>
    have hsize := c.utf8Size_pos
    have hle := length_le_byteSize cs
    have hone : c.utf8Size = 1 ↔ c.toNat < 128 := by
      rw [Char.utf8Size_eq_one_iff, UInt32.le_iff_toNat_le]
      exact Nat.lt_succ_iff.symm
    rw [List.forall_mem_cons, ← ih, ← hone, byteSize_cons, List.length_cons]
    omega

end Source

namespace SourceFile

open Source

/--
A span covers a part of the text of a line: the characters `inside`, which stand between `ahead` and
`behind`.
-/
structure Covers (file : SourceFile) (span : Span) (line : Nat) (ahead inside behind : List Char) :
    Prop where
  text : file.lineText? line = some (String.ofList (ahead ++ inside ++ behind))
  start : ∃ offset, file.lineStarts[line - 1]? = some offset ∧
    span.start.toNat = offset + byteSize ahead
  stop : span.stop.toNat = span.start.toNat + byteSize inside
  inside_ne : inside ≠ []

variable {file : SourceFile}

/-- Every offset is in a line that has a text. -/
theorem exists_lineText (offset : Nat) :
    ∃ text, file.lineText? (file.lineColumn offset).1 = some text := by
  obtain ⟨i, piece, hpiece, -, -, hposition⟩ := file.exists_lineColumn offset
  refine ⟨String.ofList (trimTerminator piece), ?_⟩
  rw [hposition, lineText?_of_piece hpiece]

/-- A span that covers a part of a line starts behind what is in front of this part. -/
theorem Covers.lineColumn {span : Span} {line : Nat} {ahead inside behind : List Char}
    (h : file.Covers span line ahead inside behind) :
    file.lineColumn span.start.toNat = (line, byteSize ahead + 1) := by
  obtain ⟨offset, hoffset, hstart⟩ := h.start
  have htext := h.text
  cases line with
  | zero => cases htext
  | succ i =>
    rw [lineText?_succ, Option.map_eq_some_iff] at htext
    obtain ⟨piece, hpiece, htext⟩ := htext
    rw [String.ofList_inj] at htext
    rw [Nat.add_sub_cancel, lineStarts, getElem?_lineStarts, hpiece] at hoffset
    have hoffset : bytesBefore file.text.toList i = offset := Option.some.inj hoffset
    obtain ⟨count, hcount⟩ := exists_trimTerminator_append hpiece
    have hsize := congrArg byteSize hcount
    have hinside := byteSize_pos h.inside_ne
    have hnext := bytesBefore_succ hpiece
    rw [htext] at hsize
    simp only [byteSize_append] at hsize
    rw [file.lineColumn_of_mem hpiece (by omega) (by omega)]
    congr 2
    omega

end SourceFile

namespace Terminal

open Source

/-- The row of a line of source text. -/
def sourceRow (line : Nat) (text : String) : String :=
  toString line ++ " | " ++ text ++ "\n"

/-- The row below it, with carets behind a number of spaces. -/
def markerRow (line spaces carets : Nat) : String :=
  repeated (toString line).length ' ' ++ " | " ++ repeated spaces ' ' ++ repeated carets '^' ++ "\n"

theorem print_snippet (d : Diagnostic) (loc : Location) (text : String) :
    print false (snippet d loc text) =
      repeated (toString loc.line).length ' ' ++ " |\n" ++ sourceRow loc.line text
        ++ markerRow loc.line (loc.column - 1) (markerWidth d.span text loc.column) := by
  have hnumber : " |" = " " ++ "|" := rfl
  have hbar : " | " = " " ++ ("|" ++ " ") := rfl
  have hempty : " |\n" = " " ++ ("|" ++ "\n") := rfl
  unfold snippet sourceRow markerRow
  simp [-String.reduceAppend, Part.text, String.append_assoc, hnumber, hbar, hempty]

/-- The line that a span starts in is shown, with the marker below it. -/
theorem exists_print_diagnostic {cache : SourceCache} {d : Diagnostic} {loc : Location}
    {file : SourceFile} {text : String} (hloc : cache.location? d.span = some loc)
    (hfile : cache.file? d.span.file = some file) (htext : file.lineText? loc.line = some text) :
    ∃ before after, print false (diagnostic cache d) =
      before ++ "\n" ++ sourceRow loc.line text
        ++ markerRow loc.line (loc.column - 1) (markerWidth d.span text loc.column) ++ after := by
  have hplace : place cache d = [.fixed "  ", .style .cyan, .fixed "-->", .reset, .fixed " ",
      .given loc.text, .fixed "\n"] ++ snippet d loc text := by
    unfold place
    rw [hloc]
    simp [hfile, htext]
  have hempty : " |\n" = " |" ++ "\n" := rfl
  refine ⟨print false (headline d) ++ print false [.fixed "  ", .style .cyan, .fixed "-->", .reset,
      .fixed " ", .given loc.text, .fixed "\n"] ++ repeated (toString loc.line).length ' ' ++ " |",
    print false (d.labels.flatMap (note cache) ++ (d.help.map help).getD [] ++ [.fixed "\n"]), ?_⟩
  simp only [diagnostic, hplace, print_append, print_snippet, hempty, String.append_assoc]

/-- What is shown for a list of diagnostics contains what is shown for each of them. -/
theorem exists_text_eq (cache : SourceCache) {ds : List Diagnostic} {d : Diagnostic} (h : d ∈ ds) :
    ∃ before after, text false cache ds = before ++ print false (diagnostic cache d) ++ after := by
  obtain ⟨ahead, behind, rfl⟩ := List.append_of_mem h
  refine ⟨print false (ahead.flatMap (diagnostic cache)),
    print false (behind.flatMap (diagnostic cache)) ++ print false (summary (ahead ++ d :: behind)),
    ?_⟩
  simp only [text, report, List.flatMap_append, List.flatMap_cons, print_append,
    String.append_assoc]

/-- The marker of a span that covers a part of a line has the width of this part in bytes. -/
theorem markerWidth_of_covers {file : SourceFile} {span : Span} {line : Nat}
    {ahead inside behind : List Char} (h : file.Covers span line ahead inside behind) :
    markerWidth span (String.ofList (ahead ++ inside ++ behind)) (byteSize ahead + 1)
      = byteSize inside := by
  have hstop := h.stop
  have hinside := byteSize_pos h.inside_ne
  rw [markerWidth, Span.length, Nat.add_sub_cancel, byteSize_ofList, byteSize_append,
    byteSize_append]
  omega

/--
Every diagnostic with a span in a known source text is shown with the line in which the span starts,
and with at least one caret below it. If the span covers a part of a line this is the line, with as
many spaces as bytes in front of the part, and as many carets as bytes in it. These are the numbers
of its characters if and only if they are ASCII.
-/
theorem marked {cache : SourceCache} {ds : List Diagnostic} {d : Diagnostic} {file : SourceFile}
    (hd : d ∈ ds) (hfile : cache.file? d.span.file = some file)
    (hplaced : d.span.isDummy = false) :
    ∃ line column shown before after,
      file.lineColumn d.span.start.toNat = (line, column) ∧ 1 ≤ column ∧
      file.lineText? line = some shown ∧
      text false cache ds = before ++ "\n" ++ sourceRow line shown
        ++ markerRow line (column - 1) (markerWidth d.span shown column) ++ after ∧
      1 ≤ markerWidth d.span shown column ∧
      ∀ covered ahead inside behind, file.Covers d.span covered ahead inside behind →
        covered = line ∧ shown = String.ofList (ahead ++ inside ++ behind) ∧
        column - 1 = byteSize ahead ∧ markerWidth d.span shown column = byteSize inside ∧
        (column - 1 = ahead.length ↔ ∀ c ∈ ahead, c.toNat < 128) ∧
        (markerWidth d.span shown column = inside.length ↔ ∀ c ∈ inside, c.toNat < 128) := by
  obtain ⟨shown, hshown⟩ := file.exists_lineText d.span.start.toNat
  have hloc : cache.location? d.span = some ⟨file.path, (file.lineColumn d.span.start.toNat).1,
      (file.lineColumn d.span.start.toNat).2⟩ := by
    simp [SourceCache.location?, hplaced, hfile]
  obtain ⟨before, after, hone⟩ := exists_print_diagnostic hloc hfile hshown
  obtain ⟨before', after', hall⟩ := exists_text_eq cache hd
  refine ⟨(file.lineColumn d.span.start.toNat).1, (file.lineColumn d.span.start.toNat).2, shown,
    before' ++ before, after ++ after', rfl, ?_, hshown, ?_, Nat.le_max_left _ _, ?_⟩
  . rw [file.lineColumn_eq]
    exact Nat.le_add_left _ _
  . rw [hall, hone]
    simp only [String.append_assoc]
  . intro covered ahead inside behind hcovers
    have hposition := hcovers.lineColumn
    have htext := hcovers.text
    rw [hposition] at hshown ⊢
    rw [hshown, Option.some_inj] at htext
    subst htext
    rw [markerWidth_of_covers hcovers]
    exact ⟨rfl, rfl, rfl, rfl, byteSize_eq_length_iff ahead, byteSize_eq_length_iff inside⟩

/-- A line with characters of two bytes, in front of a span and in it. -/
def accented : SourceFile := ⟨"a.tn", "s = \"é\" .. \"ñ\"\n"⟩

/-- A diagnostic about the second string. -/
def accentedString : Diagnostic :=
  (Diagnostic.ofCode .uninitializedCapture "no value").withSpan ⟨0, 12, 16⟩

theorem covers_accented :
    accented.Covers accentedString.span 1 "s = \"é\" .. ".toList "\"ñ\"".toList [] where
  text := by decide +kernel
  start := ⟨0, by decide +kernel, by decide +kernel⟩
  stop := by decide +kernel
  inside_ne := by decide +kernel

/-- The second string is shown with the line it is in, and with a caret for each of its bytes. -/
theorem marked_accented :
    accentedString ∈ [accentedString] ∧
      (SourceCache.ofList [accented]).file? accentedString.span.file = some accented ∧
      accentedString.span.isDummy = false ∧
      ∃ before after, text false (.ofList [accented]) [accentedString] =
        before ++ "\n" ++ sourceRow 1 "s = \"é\" .. \"ñ\"" ++ markerRow 1 12 4 ++ after := by
  have hd : accentedString ∈ [accentedString] := List.mem_singleton.mpr rfl
  have hfile : (SourceCache.ofList [accented]).file? accentedString.span.file = some accented := rfl
  have hplaced : accentedString.span.isDummy = false := rfl
  obtain ⟨line, column, shown, before, after, -, -, -, htext, -, hcovers⟩ :=
    marked hd hfile hplaced
  obtain ⟨rfl, rfl, hspaces, hcarets, -, -⟩ := hcovers _ _ _ _ covers_accented
  rw [hspaces, hcarets] at htext
  exact ⟨hd, hfile, hplaced, before, after, htext⟩

/-- The marker is a character further to the right than the string, and a character wider. -/
theorem marked_beside :
    accented.Covers accentedString.span 1 "s = \"é\" .. ".toList "\"ñ\"".toList [] ∧
      text false (.ofList [accented]) [accentedString]
        = "error[B001]: no value\n  --> a.tn:1:13\n  |\n" ++ sourceRow 1 "s = \"é\" .. \"ñ\""
          ++ markerRow 1 12 4 ++ "\n1 error emitted\n" ∧
      "s = \"é\" .. ".toList.length = 11 ∧ "\"ñ\"".toList.length = 3 :=
  ⟨covers_accented, by decide +kernel, by decide +kernel, by decide +kernel⟩

end Terminal

end Upvalue

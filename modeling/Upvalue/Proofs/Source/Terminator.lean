import Upvalue.Source.File

/-!
This module contains the ends of lines. A line ends with a newline, or with a carriage return and a
newline. The text of a line lacks more than that: all carriage returns in front of its end, and those
at the end of a text without a last newline.
-/

namespace Upvalue

namespace Source

/-- What ends a line: a newline with the carriage return before it. The last line has no end. -/
def terminator (piece : List Char) : List Char :=
  if ['\r', '\n'].isSuffixOf piece then ['\r', '\n']
  else if ['\n'].isSuffixOf piece then ['\n']
  else []

/-- A line without what ends it. -/
def content (piece : List Char) : List Char :=
  piece.take (piece.length - (terminator piece).length)

theorem content_append_terminator (piece : List Char) :
    content piece ++ terminator piece = piece := by
  have hsuffix : terminator piece <:+ piece := by
    unfold terminator
    split
    . rename_i h
      exact List.isSuffixOf_iff_suffix.mp h
    . split
      . rename_i h
        exact List.isSuffixOf_iff_suffix.mp h
      . exact List.nil_suffix
  rw [content, ← List.suffix_iff_eq_append]
  exact hsuffix

theorem terminator_cases (piece : List Char) :
    piece = content piece ++ ['\r', '\n'] ∨ piece = content piece ++ ['\n'] ∨
      piece = content piece ∧ piece.getLast? ≠ some '\n' := by
  have hpiece := content_append_terminator piece
  unfold terminator at hpiece
  split at hpiece
  . exact .inl hpiece.symm
  . split at hpiece
    . exact .inr (.inl hpiece.symm)
    . rename_i hnewline
      rw [List.append_nil] at hpiece
      refine .inr (.inr ⟨hpiece.symm, ?_⟩)
      intro hlast
      obtain ⟨before, hbefore⟩ := List.getLast?_eq_some_iff.mp hlast
      apply hnewline
      rw [List.isSuffixOf_iff_suffix]
      exact ⟨before, hbefore.symm⟩

/-- The text of a line lacks its terminator and all carriage returns in front of it. -/
theorem trimTerminator_eq {cs : List Char} {i : Nat} {piece : List Char}
    (hpiece : (pieces cs)[i]? = some piece) :
    trimTerminator piece = trimEnd '\r' (content piece) := by
  obtain ⟨line, hline, heq⟩ := exists_line_of_piece hpiece
  rcases terminator_cases piece with h | h | ⟨h, hlast⟩
  . have hnewline : trimEnd '\n' (content piece ++ ['\r']) = content piece ++ ['\r'] :=
      trimEnd_eq_self_iff.mpr (by simp)
    calc
      trimTerminator piece
        = trimEnd '\r' (trimEnd '\n' (content piece ++ ['\r'] ++ ['\n'])) := by
          rw [trimTerminator, List.append_assoc]
          exact congrArg (fun piece => trimEnd '\r' (trimEnd '\n' piece)) h
      _ = trimEnd '\r' (content piece) := by
          rw [trimEnd_concat, hnewline, trimEnd_concat]
  . have hcontent : content piece = line := by
      split at heq
      . exact List.append_cancel_right (h.symm.trans heq)
      . rw [List.append_nil] at heq
        rw [← heq, h] at hline
        simp at hline
    rw [← trimTerminator_concat (hcontent ▸ hline), ← h]
  . have hnewline : trimEnd '\n' piece = piece := trimEnd_eq_self_iff.mpr hlast
    rw [trimTerminator, hnewline, ← h]

end Source

namespace SourceFile

open Source

variable (file : SourceFile)

/-- The texts of the lines of a source text, from the first to the last. -/
def lines : List String :=
  (List.range (pieces file.text.toList).length).filterMap fun i => file.lineText? (i + 1)

theorem lines_eq :
    file.lines = (pieces file.text.toList).map fun piece =>
      String.ofList (trimEnd '\r' (content piece)) := by
  have hrange (ps : List (List Char)) : (List.range ps.length).filterMap (fun i =>
      (ps[i]?).map fun piece => String.ofList (trimTerminator piece))
        = ps.map fun piece => String.ofList (trimTerminator piece) := by
    induction ps with
    | nil => rfl
    | cons piece ps ih =>
      simp only [List.length_cons, List.range_succ_eq_map, List.filterMap_cons, List.filterMap_map,
        Function.comp_def, List.getElem?_cons_zero, List.getElem?_cons_succ, Option.map_some, ih,
        List.map_cons]
  unfold lines
  simp only [lineText?_succ]
  rw [hrange]
  apply List.map_congr_left
  intro piece hmem
  obtain ⟨i, hpiece⟩ := List.mem_iff_getElem?.mp hmem
  rw [trimTerminator_eq hpiece]

/-- Pieces that are not lengthened have the same text together only if none of them is shortened. -/
theorem forall_of_flatten_map_eq {ps : List (List Char)} {f : List Char → List Char}
    (hle : ∀ piece, (f piece).length ≤ piece.length) (h : (ps.map f).flatten = ps.flatten) :
    ∀ piece ∈ ps, (f piece).length = piece.length := by
  replace h := congrArg List.length h
  induction ps with
  | nil => simp
  | cons piece ps ih =>
    have hrest : (ps.map f).flatten.length ≤ ps.flatten.length := by
      clear h ih
      induction ps with
      | nil => exact Nat.le_refl _
      | cons piece ps ih =>
        have hfirst := hle piece
        simp only [List.map_cons, List.flatten_cons, List.length_append]
        omega
    have hfirst := hle piece
    simp only [List.map_cons, List.flatten_cons, List.length_append] at h
    rw [List.forall_mem_cons]
    exact ⟨by omega, ih (by omega)⟩

/--
A source text has a text for each of its pieces: the piece without its terminator, and without the
carriage returns in front of the terminator. So the lines with their terminators are the source text
if and only if no line has such a carriage return.
-/
theorem lines_reattached :
    (∀ line, (file.lineText? line).isSome = true ↔
      1 ≤ line ∧ line ≤ (pieces file.text.toList).length) ∧
    (∀ i piece, (pieces file.text.toList)[i]? = some piece →
      content piece ++ terminator piece = piece ∧
        file.lineText? (i + 1) = some (String.ofList (trimEnd '\r' (content piece))) ∧
        (file.lineText? (i + 1) = some (String.ofList (content piece)) ↔
          (content piece).getLast? ≠ some '\r')) ∧
    ((file.lines.zipWith (fun text piece => text.toList ++ terminator piece)
        (pieces file.text.toList)).flatten = file.text.toList ↔
      ∀ piece ∈ pieces file.text.toList, (content piece).getLast? ≠ some '\r') := by
  refine ⟨file.isSome_lineText?_iff, ?_, ?_⟩
  . intro i piece hpiece
    have htext : file.lineText? (i + 1) = some (String.ofList (trimEnd '\r' (content piece))) := by
      rw [lineText?_of_piece hpiece, trimTerminator_eq hpiece]
    refine ⟨content_append_terminator piece, htext, ?_⟩
    rw [htext, Option.some_inj, String.ofList_inj, trimEnd_eq_self_iff]
  . have hzip : file.lines.zipWith (fun text piece => text.toList ++ terminator piece)
        (pieces file.text.toList)
          = (pieces file.text.toList).map fun piece =>
              trimEnd '\r' (content piece) ++ terminator piece := by
      rw [lines_eq, List.zipWith_map_left, List.zipWith_self]
      simp only [String.toList_ofList]
    have htext := flatten_pieces file.text.toList
    have hpiece (piece : List Char) :
        (content piece).length + (terminator piece).length = piece.length := by
      rw [← List.length_append, content_append_terminator]
    rw [hzip]
    constructor
    . intro h piece hmem
      rw [← trimEnd_eq_self_iff]
      apply (trimEnd_sublist _ _).eq_of_length
      have hsame := forall_of_flatten_map_eq (fun piece => by
        have hle := (trimEnd_sublist '\r' (content piece)).length_le
        rw [List.length_append, ← hpiece piece]
        omega) (h.trans htext.symm) piece hmem
      rw [List.length_append, ← hpiece piece] at hsame
      omega
    . intro h
      conv =>
        rhs
        rw [← htext, ← List.map_id (pieces file.text.toList)]
      congr 1
      apply List.map_congr_left
      intro piece hmem
      rw [trimEnd_eq_self_iff.mpr (h piece hmem), content_append_terminator]
      rfl

/-- Carriage returns are lost in front of the end of a line, and at the end of the text. -/
theorem lines_reattached_doubled :
    (pieces "one\r\r\ntwo\r".toList).map content = ["one\r".toList, "two\r".toList] ∧
      (⟨"a.tn", "one\r\r\ntwo\r"⟩ : SourceFile).lineText? 1 = some "one" ∧
      (⟨"a.tn", "one\r\r\ntwo\r"⟩ : SourceFile).lineText? 2 = some "two" := by
  decide +kernel

end SourceFile

end Upvalue

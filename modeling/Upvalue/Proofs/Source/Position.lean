import Upvalue.Proofs.Source.Bytes

/-!
This module contains the proof that lines and columns are what the newlines of a text say: the line
of an offset counts the newlines before it, and its column is the distance from the last one of
them. A byte stands at its column in the text of its line, unless it belongs to the line's end.
-/

namespace Upvalue

namespace Source

/-- The number of newlines before an offset. -/
def newlinesBefore (bs : List UInt8) (offset : Nat) : Nat :=
  (bs.take offset).count newline

/-- The number of bytes between the last newline before an offset, or the start, and the offset. -/
def sinceNewline (bs : List UInt8) (offset : Nat) : Nat :=
  ((bs.take offset).reverse.takeWhile (· != newline)).length

/-- What stands behind the last newline is counted. -/
theorem length_takeWhile_append {before rest : List UInt8}
    (hbefore : before = [] ∨ before.getLast? = some newline) (hrest : newline ∉ rest) :
    ((before ++ rest).reverse.takeWhile (· != newline)).length = rest.length := by
  have hall : ∀ b ∈ rest.reverse, (b != newline) = true := by
    intro b hb
    rw [List.mem_reverse] at hb
    rw [bne_iff_ne]
    rintro rfl
    exact hrest hb
  have hstop : before.reverse.takeWhile (· != newline) = [] := by
    cases hbefore with
    | inl h => simp [h]
    | inr h =>
      rw [← List.head?_reverse] at h
      obtain ⟨rest, hcons⟩ := List.head?_eq_some_iff.mp h
      simp [hcons]
  rw [List.reverse_append, List.takeWhile_append_of_pos hall, hstop]
  simp

/-- An offset in a line is not behind the end of the line. -/
theorem le_bytesBefore_succ {cs : List Char} {i offset : Nat} (hend : offset ≤ byteSize cs)
    (hnext : i + 1 < (pieces cs).length → offset < bytesBefore cs (i + 1)) :
    offset ≤ bytesBefore cs (i + 1) := by
  by_cases hlt : i + 1 < (pieces cs).length
  . exact Nat.le_of_lt (hnext hlt)
  . rw [bytesBefore_of_last (Nat.le_of_not_lt hlt)]
    exact hend

section Piece

variable {cs piece : List Char} {i offset : Nat} (hpiece : (pieces cs)[i]? = some piece)

include hpiece

/-- Every line before a line ends with its newline. -/
theorem encode_before :
    (encode ((pieces cs).take i).flatten).count newline = i ∧
      (encode ((pieces cs).take i).flatten = [] ∨
        (encode ((pieces cs).take i).flatten).getLast? = some newline) := by
  have hlt := (List.getElem?_eq_some_iff.mp hpiece).1
  clear hpiece
  induction i with
  | zero => exact ⟨rfl, .inl rfl⟩
  | succ i ih =>
    have hget : (pieces cs)[i]? = some (pieces cs)[i] := List.getElem?_eq_getElem (by omega)
    obtain ⟨line, hline, hpiece⟩ := exists_line_of_piece hget
    rw [if_pos hlt] at hpiece
    have htake : encode ((pieces cs).take (i + 1)).flatten
        = encode ((pieces cs).take i).flatten ++ encode line ++ [newline] := by
      simp [List.take_add_one, hget, hpiece]
    rw [htake]
    constructor
    . have hcount : (encode line).count newline = 0 := by
        rw [count_newline_encode, List.count_eq_zero]
        exact hline
      rw [List.count_append, List.count_append, (ih (by omega)).1, hcount]
      rfl
    . exact .inr List.getLast?_concat

/-- The bytes before an offset are those of the lines before, and the first ones of its line. -/
theorem take_encode (hstart : bytesBefore cs i ≤ offset)
    (hstop : offset ≤ bytesBefore cs i + byteSize piece) :
    (encode cs).take offset
      = encode ((pieces cs).take i).flatten ++ (encode piece).take (offset - bytesBefore cs i) := by
  have htext := congrArg encode (flatten_take_append hpiece)
  rw [encode_append, encode_append] at htext
  have hlength : (encode ((pieces cs).take i).flatten).length = bytesBefore cs i := length_encode _
  rw [htext, List.append_assoc, List.take_append, List.take_of_length_le (by omega), hlength,
    List.take_append_of_le_length]
  rw [length_encode]
  omega

/-- There is no newline between the start of a line and the offsets that are in it. -/
theorem newline_not_mem_take (hnext : i + 1 < (pieces cs).length →
    offset < bytesBefore cs (i + 1)) :
    newline ∉ (encode piece).take (offset - bytesBefore cs i) := by
  obtain ⟨line, hline, rfl⟩ := exists_line_of_piece hpiece
  have hbytes : newline ∉ encode line := by
    rw [newline_mem_encode_iff]
    exact hline
  split at hpiece
  . rename_i hlt
    have hsize := bytesBefore_succ hpiece
    have hlast := hnext hlt
    have hnewline : byteSize ['\n'] = 1 := rfl
    rw [byteSize_append, hnewline] at hsize
    rw [if_pos hlt, encode_append, List.take_append_of_le_length]
    . intro h
      exact hbytes (List.mem_of_mem_take h)
    . rw [length_encode]
      omega
  . rename_i hlt
    rw [if_neg hlt, List.append_nil]
    intro h
    exact hbytes (List.mem_of_mem_take h)

variable (hstart : bytesBefore cs i ≤ offset)

include hstart

variable (hend : offset ≤ byteSize cs)
  (hnext : i + 1 < (pieces cs).length → offset < bytesBefore cs (i + 1))

include hend hnext

/-- The newlines before an offset are those of the lines before. -/
theorem newlinesBefore_encode : newlinesBefore (encode cs) offset = i := by
  have hstop := le_bytesBefore_succ hend hnext
  rw [bytesBefore_succ hpiece] at hstop
  rw [newlinesBefore, take_encode hpiece hstart hstop, List.count_append, (encode_before hpiece).1,
    List.count_eq_zero.mpr (newline_not_mem_take hpiece hnext)]
  rfl

/-- The last newline before an offset is where its line starts. -/
theorem sinceNewline_encode : sinceNewline (encode cs) offset = offset - bytesBefore cs i := by
  have hstop := le_bytesBefore_succ hend hnext
  rw [bytesBefore_succ hpiece] at hstop
  rw [sinceNewline, take_encode hpiece hstart hstop,
    length_takeWhile_append (encode_before hpiece).2 (newline_not_mem_take hpiece hnext),
    List.length_take_of_le]
  rw [length_encode]
  omega

end Piece

end Source

namespace SourceFile

open Source

variable (file : SourceFile)

/-- Every offset is in a line, which starts at it or before. -/
theorem exists_lineColumn (offset : Nat) :
    ∃ i piece, (pieces file.text.toList)[i]? = some piece ∧
      bytesBefore file.text.toList i ≤ min offset file.size ∧
      (i + 1 < (pieces file.text.toList).length →
        min offset file.size < bytesBefore file.text.toList (i + 1)) ∧
      file.lineColumn offset = (i + 1, min offset file.size - bytesBefore file.text.toList i + 1) := by
  obtain ⟨start, hstart, hle, hnext⟩ :=
    lineIndex_lineStarts file.text.toList (min offset file.size)
  have hfind := file.findLineColumn?_eq offset
  simp only [findLineColumn?, lineStarts, hstart, Option.bind_eq_bind, Option.bind_some] at hfind
  rw [if_pos hle] at hfind
  rw [getElem?_lineStarts, Option.map_eq_some_iff] at hstart
  obtain ⟨piece, hpiece, rfl⟩ := hstart
  refine ⟨_, piece, hpiece, hle, ?_, (Option.some.inj hfind).symm⟩
  intro hlt
  apply hnext
  rw [getElem?_lineStarts, List.getElem?_eq_getElem hlt]
  rfl

/-- Lines and columns count newlines and the bytes behind them. -/
theorem lineColumn_eq (offset : Nat) :
    file.lineColumn offset =
      (newlinesBefore (bytes file.text) (min offset file.size) + 1,
        sinceNewline (bytes file.text) (min offset file.size) + 1) := by
  obtain ⟨i, piece, hpiece, hstart, hnext, heq⟩ := file.exists_lineColumn offset
  have hend : min offset file.size ≤ byteSize file.text.toList := Nat.min_le_right _ _
  rw [heq, bytes_eq, newlinesBefore_encode hpiece hstart hend hnext,
    sinceNewline_encode hpiece hstart hend hnext]

/-- The position of an offset that is known to be in a line. -/
theorem lineColumn_of_mem {i : Nat} {piece : List Char} {offset : Nat}
    (hpiece : (pieces file.text.toList)[i]? = some piece)
    (hstart : bytesBefore file.text.toList i ≤ offset)
    (hlt : offset < bytesBefore file.text.toList (i + 1)) :
    file.lineColumn offset = (i + 1, offset - bytesBefore file.text.toList i + 1) := by
  have hend : offset ≤ byteSize file.text.toList :=
    Nat.le_of_lt (Nat.lt_of_lt_of_le hlt (bytesBefore_le _ _))
  rw [lineColumn_eq, size, Nat.min_eq_left hend, bytes_eq,
    newlinesBefore_encode hpiece hstart hend (fun _ => hlt),
    sinceNewline_encode hpiece hstart hend (fun _ => hlt)]

end SourceFile

end Upvalue

import Upvalue.Source.Text

/-!
This module contains the lines of a text: a table of the offsets at which they start, and the line
that an offset is in. A text is cut behind every newline, its pieces are the lines together with
their terminators.
-/

namespace Upvalue.Source

/-- The offsets behind the newlines of a text that itself starts at an offset. -/
def startsFrom (offset : Nat) : List Char → List Nat
  | [] => []
  | c :: cs =>
    if c = '\n' then (offset + c.utf8Size) :: startsFrom (offset + c.utf8Size) cs
    else startsFrom (offset + c.utf8Size) cs

/-- The offsets at which the lines of a text start: the first one, and one behind every newline. -/
def lineStarts (cs : List Char) : Array Nat :=
  (0 :: startsFrom 0 cs).toArray

/--
Halves a part of a sorted table until only one entry is left. If an entry of the part is not larger
than a number, this is the last one of them.
-/
def narrow (table : Array Nat) (x base size : Nat) (h : base + size ≤ table.size) : Nat :=
  if hsize : size ≤ 1 then base
  else
    have hmid : base + size / 2 < table.size := by omega
    if x < table[base + size / 2] then narrow table x base (size - size / 2) (by omega)
    else narrow table x (base + size / 2) (size - size / 2) (by omega)
termination_by size

/--
Looks for a number in a sorted table: `.ok` has the place where it stands, `.error` has the one where
it is missing.
-/
def search (table : Array Nat) (x : Nat) : Except Nat Nat :=
  let base := narrow table x 0 table.size (by omega)
  match table[base]? with
  | none => .error base
  | some entry => if entry = x then .ok base else .error (if entry < x then base + 1 else base)

/-- The line that an offset is in, counting from `0`. -/
def lineIndex (table : Array Nat) (offset : Nat) : Nat :=
  match search table offset with
  | .ok index => index
  | .error index => index - 1

/-- The offsets between which a line with its terminator stands. Lines count from `1`. -/
def lineRange? (cs : List Char) (line : Nat) : Option (Nat × Nat) :=
  if line = 0 then none
  else
    (lineStarts cs)[line - 1]?.map fun start => (start, (lineStarts cs)[line]?.getD (byteSize cs))

/-- The pieces of a text, cut behind every newline. What stands behind the last one is a piece. -/
def pieces : List Char → List (List Char)
  | [] => [[]]
  | c :: cs =>
    if c = '\n' then [c] :: pieces cs
    else
      match pieces cs with
      | [] => [[c]]
      | piece :: rest => (c :: piece) :: rest

/-- The number of bytes of the pieces before a line, which counts from `0`. -/
def bytesBefore (cs : List Char) (index : Nat) : Nat :=
  byteSize ((pieces cs).take index).flatten

section Pieces

theorem pieces_newline (cs : List Char) : pieces ('\n' :: cs) = ['\n'] :: pieces cs := rfl

theorem pieces_ne_nil (cs : List Char) : pieces cs ≠ [] := by
  cases cs with
  | nil => simp [pieces]
  | cons c cs =>
    unfold pieces
    split
    . simp
    . split <;> simp

/-- A character that is no newline belongs to the first piece. -/
theorem exists_pieces_cons {c : Char} (hc : c ≠ '\n') (cs : List Char) :
    ∃ piece rest, pieces cs = piece :: rest ∧ pieces (c :: cs) = (c :: piece) :: rest := by
  obtain ⟨piece, rest, h⟩ := List.exists_cons_of_ne_nil (pieces_ne_nil cs)
  exact ⟨piece, rest, h, by simp [pieces, hc, h]⟩

/-- No character is lost by cutting. -/
theorem flatten_pieces (cs : List Char) : (pieces cs).flatten = cs := by
  induction cs with
  | nil => rfl
  | cons c cs ih =>
    by_cases hc : c = '\n'
    . simp [hc, pieces_newline, ih]
    . obtain ⟨piece, rest, hcs, h⟩ := exists_pieces_cons hc cs
      rw [h]
      simpa [hcs] using ih

/-- A text has one line more than newlines. -/
theorem length_pieces (cs : List Char) : (pieces cs).length = cs.count '\n' + 1 := by
  induction cs with
  | nil => rfl
  | cons c cs ih =>
    by_cases hc : c = '\n'
    . simp [hc, pieces_newline, ih]
    . obtain ⟨piece, rest, hcs, h⟩ := exists_pieces_cons hc cs
      rw [hcs] at ih
      rw [h, List.count_cons_of_ne (by simpa using hc)]
      simpa using ih

/-- Every piece but the last one ends with its only newline. The last one has none. -/
theorem exists_line_of_piece {cs : List Char} {i : Nat} {piece : List Char}
    (h : (pieces cs)[i]? = some piece) :
    ∃ line, '\n' ∉ line ∧
      piece = line ++ (if i + 1 < (pieces cs).length then ['\n'] else []) := by
  induction cs generalizing i piece with
  | nil =>
    cases i with
    | zero =>
      injection h with h
      exact ⟨[], by simp [pieces, ← h]⟩
    | succ i => simp [pieces] at h
  | cons c cs ih =>
    by_cases hc : c = '\n'
    . rw [hc, pieces_newline] at h ⊢
      cases i with
      | zero =>
        injection h with h
        have hlength := length_pieces cs
        exact ⟨[], by simp [← h, hlength]⟩
      | succ i => simpa using ih h
    . obtain ⟨first, rest, hcs, hcons⟩ := exists_pieces_cons hc cs
      rw [hcons] at h ⊢
      rw [hcs] at ih
      cases i with
      | zero =>
        injection h with h
        obtain ⟨line, hline, hfirst⟩ := ih (i := 0) rfl
        refine ⟨c :: line, ?_, ?_⟩
        . simpa [hline] using Ne.symm hc
        . rw [← h, hfirst]
          simp
      | succ i => exact ih (i := i + 1) h

/-- What is lost at the end of a piece are carriage returns and the newline behind them. -/
theorem exists_trimTerminator_append {cs : List Char} {i : Nat} {piece : List Char}
    (h : (pieces cs)[i]? = some piece) :
    ∃ count, piece = trimTerminator piece ++ List.replicate count '\r'
      ++ (if i + 1 < (pieces cs).length then ['\n'] else []) := by
  obtain ⟨line, hline, rfl⟩ := exists_line_of_piece h
  have htrim : trimTerminator (line ++ (if i + 1 < (pieces cs).length then ['\n'] else []))
      = trimEnd '\r' line := by
    split
    . exact trimTerminator_concat hline
    . rw [List.append_nil]
      exact trimTerminator_of_not_mem hline
  obtain ⟨count, hcount⟩ := exists_trimEnd_append '\r' line
  refine ⟨count, ?_⟩
  rw [htrim, ← hcount]

end Pieces

section Starts

theorem getElem?_startsFrom (offset i : Nat) (cs : List Char) :
    (offset :: startsFrom offset cs)[i]?
      = ((pieces cs)[i]?).map fun _ => offset + byteSize ((pieces cs).take i).flatten := by
  induction cs generalizing offset i with
  | nil => cases i <;> simp [startsFrom, pieces]
  | cons c cs ih =>
    cases i with
    | zero =>
      obtain ⟨piece, rest, h⟩ := List.exists_cons_of_ne_nil (pieces_ne_nil (c :: cs))
      simp [h]
    | succ i =>
      by_cases hc : c = '\n'
      . subst hc
        rw [pieces_newline, startsFrom, if_pos rfl, List.getElem?_cons_succ, ih]
        simp [Nat.add_assoc]
      . obtain ⟨piece, rest, hcs, h⟩ := exists_pieces_cons hc cs
        have hrest := ih (offset + c.utf8Size) (i + 1)
        rw [List.getElem?_cons_succ, hcs] at hrest
        rw [startsFrom, if_neg hc, List.getElem?_cons_succ, hrest, h]
        simp [Nat.add_assoc]

/-- A line starts behind the pieces before it. -/
theorem getElem?_lineStarts (cs : List Char) (i : Nat) :
    (lineStarts cs)[i]? = ((pieces cs)[i]?).map fun _ => bytesBefore cs i := by
  simpa [lineStarts, bytesBefore] using getElem?_startsFrom 0 i cs

/-- A text is cut before and behind each of its pieces. -/
theorem flatten_take_append {cs : List Char} {i : Nat} {piece : List Char}
    (h : (pieces cs)[i]? = some piece) :
    cs = ((pieces cs).take i).flatten ++ piece ++ ((pieces cs).drop (i + 1)).flatten := by
  obtain ⟨hlt, hget⟩ := List.getElem?_eq_some_iff.mp h
  calc
    cs = (pieces cs).flatten := (flatten_pieces cs).symm
    _ = ((pieces cs).take i ++ piece :: (pieces cs).drop (i + 1)).flatten := by
      rw [← hget, ← List.drop_eq_getElem_cons hlt, List.take_append_drop]
    _ = _ := by simp

theorem bytesBefore_succ {cs : List Char} {i : Nat} {piece : List Char}
    (h : (pieces cs)[i]? = some piece) :
    bytesBefore cs (i + 1) = bytesBefore cs i + byteSize piece := by
  simp [bytesBefore, List.take_add_one, h]

theorem bytesBefore_le (cs : List Char) (i : Nat) : bytesBefore cs i ≤ byteSize cs := by
  have htext := congrArg byteSize (flatten_pieces cs)
  rw [← List.take_append_drop i (pieces cs), List.flatten_append, byteSize_append] at htext
  rw [bytesBefore]
  omega

/-- The last line ends where the text does. -/
theorem bytesBefore_of_last {cs : List Char} {i : Nat} (h : (pieces cs).length ≤ i) :
    bytesBefore cs i = byteSize cs := by
  rw [bytesBefore, List.take_of_length_le h, flatten_pieces]

/-- A line stands where its piece does. -/
theorem lineRange?_succ (cs : List Char) (i : Nat) :
    lineRange? cs (i + 1) = ((pieces cs)[i]?).map fun piece =>
      (bytesBefore cs i, bytesBefore cs i + byteSize piece) := by
  unfold lineRange?
  rw [if_neg (Nat.succ_ne_zero i), Nat.add_sub_cancel, getElem?_lineStarts, getElem?_lineStarts]
  cases hpiece : (pieces cs)[i]? with
  | none => rfl
  | some piece =>
    simp only [Option.map_some, ← bytesBefore_succ hpiece]
    cases hnext : (pieces cs)[i + 1]? with
    | none =>
      rw [bytesBefore_of_last (List.getElem?_eq_none_iff.mp hnext)]
      rfl
    | some next => rfl

/-- A line can be cut out of its text. -/
theorem slice?_lineRange? {cs : List Char} {line start stop : Nat}
    (h : lineRange? cs line = some (start, stop)) :
    ∃ piece, (pieces cs)[line - 1]? = some piece ∧ slice? cs start stop = some piece := by
  cases line with
  | zero => cases h
  | succ i =>
    rw [lineRange?_succ, Option.map_eq_some_iff] at h
    obtain ⟨piece, hpiece, hrange⟩ := h
    injection hrange with hstart hstop
    refine ⟨piece, hpiece, ?_⟩
    have hslice := slice?_append ((pieces cs).take i).flatten piece
      ((pieces cs).drop (i + 1)).flatten
    rw [← flatten_take_append hpiece] at hslice
    rw [← hstop, ← hstart]
    exact hslice

theorem lt_of_mem_startsFrom {offset start : Nat} {cs : List Char}
    (h : start ∈ startsFrom offset cs) : offset < start := by
  induction cs generalizing offset with
  | nil => cases h
  | cons c cs ih =>
    have hsize := c.utf8Size_pos
    unfold startsFrom at h
    split at h
    . cases h with
      | head => omega
      | tail _ h =>
        have hlt := ih h
        omega
    . have hlt := ih h
      omega

theorem pairwise_startsFrom (offset : Nat) (cs : List Char) :
    (startsFrom offset cs).Pairwise (· < ·) := by
  induction cs generalizing offset with
  | nil => exact List.Pairwise.nil
  | cons c cs ih =>
    unfold startsFrom
    split
    . apply List.Pairwise.cons
      . intro start hstart
        exact lt_of_mem_startsFrom hstart
      . apply ih
    . apply ih

/-- Later lines start further behind. -/
theorem pairwise_lineStarts (cs : List Char) : (lineStarts cs).toList.Pairwise (· < ·) := by
  apply List.Pairwise.cons
  . intro start hstart
    exact lt_of_mem_startsFrom hstart
  . apply pairwise_startsFrom

end Starts

section Search

variable {table : Array Nat} {x : Nat}

theorem getElem_lt_getElem (hsorted : table.toList.Pairwise (· < ·)) {i j : Nat} (hij : i < j)
    (hj : j < table.size) : table[i] < table[j] := by
  have h := List.pairwise_iff_getElem.mp hsorted i j (by simp; omega) (by simpa using hj) hij
  simpa using h

/--
What is left of a part of a sorted table: nothing behind it is as small as the number, and it is
itself, unless everything in the part is larger.
-/
theorem narrow_spec (hsorted : table.toList.Pairwise (· < ·)) {base size : Nat}
    (h : base + size ≤ table.size) (hsize : 0 < size)
    (hbase : ∀ hlt : base < table.size, table[base] ≤ x)
    (hbehind : ∀ j (hj : j < table.size), base + size ≤ j → x < table[j]) :
    ∃ hlt : narrow table x base size h < table.size, table[narrow table x base size h] ≤ x ∧
      ∀ j (hj : j < table.size), narrow table x base size h < j → x < table[j] := by
  fun_induction narrow table x base size h with
  | case1 base size h hone =>
    refine ⟨by omega, hbase _, ?_⟩
    intro j hj hlt
    exact hbehind j hj (by omega)
  | case2 base size h hmore hmid hless ih =>
    apply ih (by omega) hbase
    intro j hj hle
    cases Nat.eq_or_lt_of_le (show base + size / 2 ≤ j by omega) with
    | inl heq =>
      subst heq
      exact hless
    | inr hlt => exact Nat.lt_trans hless (getElem_lt_getElem hsorted hlt hj)
  | case3 base size h hmore hmid hless ih =>
    apply ih (by omega)
    . intro hlt
      omega
    . intro j hj hle
      exact hbehind j hj (by omega)

/-- The last entry of a sorted table that is not larger than the number. -/
theorem lineIndex_spec (hsorted : table.toList.Pairwise (· < ·)) {first : Nat}
    (hfirst : table[0]? = some first) (hle : first ≤ x) :
    ∃ start, table[lineIndex table x]? = some start ∧ start ≤ x ∧
      ∀ next, table[lineIndex table x + 1]? = some next → x < next := by
  obtain ⟨hpos, hget⟩ := Array.getElem?_eq_some_iff.mp hfirst
  have hall : 0 + table.size ≤ table.size := by omega
  obtain ⟨hlt, hbase, hbehind⟩ := narrow_spec (x := x) hsorted hall hpos
    (fun _ => by omega) (by omega)
  have hindex : lineIndex table x = narrow table x 0 table.size hall := by
    simp only [lineIndex, search, Array.getElem?_eq_getElem hlt]
    by_cases heq : table[narrow table x 0 table.size hall] = x
    . simp [heq]
    . simp [heq, Nat.lt_of_le_of_ne hbase heq]
  rw [hindex]
  refine ⟨_, Array.getElem?_eq_getElem hlt, hbase, ?_⟩
  intro next hnext
  obtain ⟨hj, rfl⟩ := Array.getElem?_eq_some_iff.mp hnext
  exact hbehind _ hj (Nat.lt_succ_self _)

/-- The line that an offset is in starts at it or before, and the next one starts behind it. -/
theorem lineIndex_lineStarts (cs : List Char) (offset : Nat) :
    ∃ start, (lineStarts cs)[lineIndex (lineStarts cs) offset]? = some start ∧ start ≤ offset ∧
      ∀ next, (lineStarts cs)[lineIndex (lineStarts cs) offset + 1]? = some next → offset < next :=
  lineIndex_spec (pairwise_lineStarts cs) rfl (Nat.zero_le offset)

end Search

end Upvalue.Source

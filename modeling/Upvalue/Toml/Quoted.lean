import Upvalue.Toml.Blank

/-!
This module contains the strings of TOML. A string stands between quotes, with escapes, or between
apostrophes, without. Three quotes or apostrophes enclose a string of several lines.
-/

namespace Upvalue.Toml

/--
Whether a character can stand in a string as it is: all but the control characters, tabs excepted.
-/
def isStringChar (c : Char) : Bool :=
  isCommentChar c

/-- What an escape with a single character stands for. -/
def shortEscape : Char → Option Char
  | 'b' => some '\x08'
  | 't' => some '\t'
  | 'n' => some '\n'
  | 'f' => some '\x0c'
  | 'r' => some '\r'
  | '"' => some '"'
  | '\\' => some '\\'
  | _ => none

def hexDigit (c : Char) : Option Nat :=
  if '0' ≤ c ∧ c ≤ '9' then some (c.toNat - '0'.toNat)
  else if 'a' ≤ c ∧ c ≤ 'f' then some (c.toNat - 'a'.toNat + 10)
  else if 'A' ≤ c ∧ c ≤ 'F' then some (c.toNat - 'A'.toNat + 10)
  else none

/-- The character whose number is written with the given digits. -/
def codePoint (digits : List Char) : Option Char := do
  let digits ← digits.mapM hexDigit
  let n := digits.foldl (fun n digit => 16 * n + digit) 0
  if n.isValidChar then return Char.ofNat n else none

/-- The character that an escape stands for, without the backslash. -/
def escape : Scanner Char
  | 'u' :: cs =>
    if cs.length < 4 then none else (codePoint (cs.take 4)).map fun c => (c, cs.drop 4)
  | 'U' :: cs =>
    if cs.length < 8 then none else (codePoint (cs.take 8)).map fun c => (c, cs.drop 8)
  | c :: cs => (shortEscape c).map fun c => (c, cs)
  | [] => none

theorem length_of_escape {cs rest : List Char} {c : Char} (h : escape cs = some (c, rest)) :
    rest.length < cs.length := by
  unfold escape at h
  split at h
  · split at h
    · simp at h
    · simp only [Option.map_eq_some_iff, Prod.mk.injEq] at h
      obtain ⟨_, _, _, rfl⟩ := h
      simp only [List.length_drop, List.length_cons]
      omega
  · split at h
    · simp at h
    · simp only [Option.map_eq_some_iff, Prod.mk.injEq] at h
      obtain ⟨_, _, _, rfl⟩ := h
      simp only [List.length_drop, List.length_cons]
      omega
  · simp only [Option.map_eq_some_iff, Prod.mk.injEq] at h
    obtain ⟨_, _, _, rfl⟩ := h
    simp
  · simp at h

/-- The rest of a string between quotes, behind the characters of `seen` in reverse. -/
def basicBody (seen : List Char) (cs : List Char) : Option (String × List Char) :=
  match cs with
  | [] => none
  | '"' :: rest => some (String.ofList seen.reverse, rest)
  | '\\' :: rest =>
    match h : escape rest with
    | some (c, rest') =>
      have := length_of_escape h
      basicBody (c :: seen) rest'
    | none => none
  | c :: rest => if isStringChar c then basicBody (c :: seen) rest else none
termination_by cs.length

def literalBody (seen : List Char) : List Char → Option (String × List Char)
  | [] => none
  | '\'' :: rest => some (String.ofList seen.reverse, rest)
  | c :: rest => if isStringChar c then literalBody (c :: seen) rest else none

/-- A text without the spaces and ends of lines at its front. -/
def skipLines : List Char → List Char
  | '\r' :: '\n' :: rest => skipLines rest
  | c :: rest => if isSpace c || c == '\n' then skipLines rest else c :: rest
  | [] => []

theorem length_skipLines_le (cs : List Char) : (skipLines cs).length ≤ cs.length := by
  fun_induction skipLines cs <;> simp_all <;> omega

/-- What follows a backslash at the end of a line: the blank space behind it does not count. -/
def lineContinuation? (cs : List Char) : Option (List Char) :=
  match skipSpace cs with
  | '\n' :: rest => some (skipLines rest)
  | '\r' :: '\n' :: rest => some (skipLines rest)
  | _ => none

theorem length_of_lineContinuation? {cs rest : List Char} (h : lineContinuation? cs = some rest) :
    rest.length ≤ cs.length := by
  have hspace : (skipSpace cs).length ≤ cs.length := (List.dropWhile_sublist _).length_le
  unfold lineContinuation? at h
  split at h
  · rename_i rest' heq
    rw [heq] at hspace
    have := length_skipLines_le rest'
    simp only [Option.some.injEq, List.length_cons] at h hspace
    subst h
    omega
  · rename_i rest' heq
    rw [heq] at hspace
    have := length_skipLines_le rest'
    simp only [Option.some.injEq, List.length_cons] at h hspace
    subst h
    omega
  · simp at h

/--
The end of a string of several lines, behind its three closing marks. Up to two marks right before
them belong to the string, so they are counted here.
-/
def closeLines (mark : Char) (seen : List Char) (rest : List Char) : String × List Char :=
  let extra := min 2 (rest.takeWhile (· == mark)).length
  (String.ofList (seen.reverse ++ List.replicate extra mark), rest.drop extra)

/-- The rest of a string of several lines between quotes. -/
def basicLines (seen : List Char) (cs : List Char) : Option (String × List Char) :=
  match cs with
  | [] => none
  | '"' :: '"' :: '"' :: rest => some (closeLines '"' seen rest)
  | '\\' :: rest =>
    match hline : lineContinuation? rest with
    | some rest' =>
      have := length_of_lineContinuation? hline
      basicLines seen rest'
    | none =>
      match hescape : escape rest with
      | some (c, rest') =>
        have := length_of_escape hescape
        basicLines (c :: seen) rest'
      | none => none
  | '\r' :: '\n' :: rest => basicLines ('\n' :: seen) rest
  | c :: rest => if isStringChar c || c == '\n' then basicLines (c :: seen) rest else none
termination_by cs.length

/-- The rest of a string of several lines between apostrophes. -/
def literalLines (seen : List Char) : List Char → Option (String × List Char)
  | [] => none
  | '\'' :: '\'' :: '\'' :: rest => some (closeLines '\'' seen rest)
  | '\r' :: '\n' :: rest => literalLines ('\n' :: seen) rest
  | c :: rest => if isStringChar c || c == '\n' then literalLines (c :: seen) rest else none

/-- A text without an end of line at its front. -/
def dropLineEnd : List Char → List Char
  | '\n' :: rest => rest
  | '\r' :: '\n' :: rest => rest
  | cs => cs

def lineString : Scanner String
  | '"' :: rest => basicBody [] rest
  | '\'' :: rest => literalBody [] rest
  | _ => none

def string : Scanner String
  | '"' :: '"' :: '"' :: rest => basicLines [] (dropLineEnd rest)
  | '\'' :: '\'' :: '\'' :: rest => literalLines [] (dropLineEnd rest)
  | cs => lineString cs

end Upvalue.Toml

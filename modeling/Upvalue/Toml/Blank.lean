import Upvalue.Toml.Value

/-!
This module contains what separates the words of a TOML text: spaces, ends of lines and comments.
-/

namespace Upvalue.Toml

def isSpace (c : Char) : Bool :=
  c == ' ' || c == '\t'

/-- Whether a character can stand in a comment: all but the control characters, tabs excepted. -/
def isCommentChar (c : Char) : Bool :=
  c == '\t' || (' ' ≤ c && c != '\x7f')

def skipSpace (cs : List Char) : List Char :=
  cs.dropWhile isSpace

/-- A text without the spaces, ends of lines and comments at its front. -/
def skipBlank (inComment : Bool) : List Char → List Char
  | [] => []
  | c :: cs =>
    if inComment && isCommentChar c then skipBlank true cs
    else if isSpace c || c == '\n' then skipBlank false cs
    else if c == '#' then skipBlank true cs
    else if c == '\r' then
      match cs with
      | '\n' :: rest => skipBlank false rest
      | _ => c :: cs
    else c :: cs

/-- What follows the end of a line, behind which only spaces and a comment may stand. -/
def endOfLine (cs : List Char) : Option (List Char) :=
  let cs :=
    match skipSpace cs with
    | '#' :: rest => rest.dropWhile isCommentChar
    | rest => rest
  match cs with
  | [] => some []
  | '\n' :: rest => some rest
  | '\r' :: '\n' :: rest => some rest
  | _ => none

end Upvalue.Toml

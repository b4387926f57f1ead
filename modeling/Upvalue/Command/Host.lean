/-!
This module contains what a command needs from the outside: files that it can read and write, and
what it leaves behind.
-/

namespace Upvalue.Command

/-- Why a file cannot be read or written. -/
inductive FileError where
  | notFound
  | notDirectory
  | isDirectory
  | noSpace
  | nameTooLong
  | notUtf8
  | other (message : String)
deriving DecidableEq, Repr

def FileError.message : FileError → String
  | .notFound => "No such file or directory (os error 2)"
  | .notDirectory => "Not a directory (os error 20)"
  | .isDirectory => "Is a directory (os error 21)"
  | .noSpace => "No space left on device (os error 28)"
  | .nameTooLong => "File name too long (os error 36)"
  | .notUtf8 => "stream did not contain valid UTF-8"
  | .other message => message

/-- The files that a command works with, inside a monad `m`. -/
structure Host (m : Type → Type) where
  isFile : String → m Bool
  read : String → m (Except FileError String)
  /-- Write a text to the file at a path, which may be new. -/
  write : String → String → m (Except FileError Unit)

/-- What a command leaves behind. -/
structure Output where
  code : UInt32
  out : String
  err : String
deriving DecidableEq, Repr

/-- Why a command fails. -/
structure Failure where
  /-- What is reported before the error itself. -/
  report : String
  message : String
  cause? : Option String
deriving DecidableEq, Repr

namespace Failure

def ofMessage (message : String) : Failure := ⟨"", message, none⟩

def indented (text : String) : String :=
  text.toList.foldl (fun out c => if c = '\n' then out ++ "\n    " else out.push c) "    "

def text (failure : Failure) : String :=
  match failure.cause? with
  | none => "Error: " ++ failure.message ++ "\n"
  | some cause => "Error: " ++ failure.message ++ "\n\nCaused by:\n" ++ indented cause ++ "\n"

def output (failure : Failure) : Output :=
  ⟨1, "", failure.report ++ failure.text⟩

end Failure

end Upvalue.Command

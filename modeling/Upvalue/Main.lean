import Upvalue.Command.Run

/-!
This module contains the program: the command line with the files of the system.
-/

namespace Upvalue.Command

/-- Whether a number of an error, which may come negated, is a given one. -/
def isErrorCode (code expected : UInt32) : Bool :=
  code == expected || code + expected == 0

/-- The reason why the system refuses a file. -/
def FileError.ofSystem (error : IO.Error) : FileError :=
  match error with
  | .noFileOrDirectory .. => .notFound
  | .inappropriateType _ code _ => if isErrorCode code 20 then .notDirectory else .isDirectory
  | .resourceExhausted _ code _ =>
    if isErrorCode code 28 then .noSpace else .other (toString error)
  | .invalidArgument _ code _ =>
    if isErrorCode code 36 then .nameTooLong else .other (toString error)
  | error => .other (toString error)

def readSystemFile (path : String) : IO (Except FileError String) := do
  try
    let bytes ← IO.FS.readBinFile path
    return (String.fromUTF8? bytes).elim (.error .notUtf8) .ok
  catch error => return .error (.ofSystem error)

def systemHost : Host IO where
  isFile path := do return (← readSystemFile path) matches .ok _ | .error .notUtf8
  read := readSystemFile
  write path text := do
    try
      IO.FS.withFile path .write fun file => do
        file.putStr text
        file.flush
      return .ok ()
    catch error => return .error (.ofSystem error)

end Upvalue.Command

def main (args : List String) : IO UInt32 := do
  let err ← IO.getStderr
  let output ← Upvalue.Command.run Upvalue.Command.systemHost (← err.isTty) args
  IO.print output.out
  err.putStr output.err
  return output.code

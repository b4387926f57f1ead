import Upvalue.Command.Host

/-!
This module contains the places that paths lead to: below the directory that paths start in, or in
the system around it, of which only what every system has is known.
-/

namespace Upvalue.Command

/-- The names that lead to a file, from a directory on. -/
abbrev Path := List String

/-- Where a path leads. -/
inductive Place where
  /-- Below the directory that paths start in. -/
  | inside (path : Path)
  /-- Below one of the directories around it. -/
  | around (path : Path)
  /-- Below the root of the system. -/
  | system (path : Path)
deriving DecidableEq, Repr

namespace Place

def child (name : String) : Place → Place
  | .inside path => .inside (path ++ [name])
  | .around path => .around (path ++ [name])
  | .system path => .system (path ++ [name])

/-- The directory that a place is in. The root of the system is in itself. -/
def parent : Place → Place
  | .inside [] => .around []
  | .inside path => .inside path.dropLast
  | .around path => .around path.dropLast
  | .system path => .system path.dropLast

def start (path : String) : Place :=
  if path.startsWith "/" then .system [] else .inside []

end Place

/-- The names of a path, in the order that they are followed. -/
def pathNames (path : String) : Path :=
  (path.splitOn "/").filter (· ≠ "")

/-- The number of bytes that a name can have. -/
def nameLimit : Nat := 255

/-- The number of bytes that a path can have. -/
def pathLimit : Nat := 4095

/-- A file of the system to which everything can be written, but from which nothing can be read. -/
inductive Device where
  /-- What is written to it is gone. -/
  | null
  /-- There is never space left on it. -/
  | full
  /-- Nothing is waiting on the standard input. -/
  | input
  | output
  | errors
deriving DecidableEq, Repr

def Device.ofName? : String → Option Device
  | "null" => some .null
  | "full" => some .full
  | "stdin" => some .input
  | "stdout" => some .output
  | "stderr" => some .errors
  | _ => none

/-- What is at a place. -/
inductive Node where
  | missing
  | directory
  | file (text : String)
  | device (device : Device)
deriving DecidableEq, Repr

/-- The directories that every system has. -/
def systemDirectories : List String :=
  ["bin", "boot", "dev", "etc", "home", "lib", "media", "mnt", "opt", "proc", "root", "run", "sbin",
    "srv", "sys", "tmp", "usr", "var"]

/-- What is known to be at a place in the system. -/
def systemNode : Path → Node
  | [] => .directory
  | [name] => if name ∈ systemDirectories then .directory else .missing
  | ["dev", name] => (Device.ofName? name).elim .missing .device
  | _ => .missing

end Upvalue.Command

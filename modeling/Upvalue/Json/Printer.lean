import Upvalue.Json.Basic

/-!
This module contains the two ways to write JSON: without any blanks, and over several lines with an
indentation of two blanks.
-/

namespace Upvalue.Json

/-- The two digits of a hexadecimal number below 256. -/
def hexByte (n : Nat) : List Char :=
  [Nat.digitChar (n / 16), Nat.digitChar (n % 16)]

/-- How a character is written in a string. Only what has to be escaped is escaped. -/
def escape (c : Char) : List Char :=
  if c = '"' then ['\\', '"']
  else if c = '\\' then ['\\', '\\']
  else if c = '\x08' then ['\\', 'b']
  else if c = '\x0c' then ['\\', 'f']
  else if c = '\n' then ['\\', 'n']
  else if c = '\r' then ['\\', 'r']
  else if c = '\t' then ['\\', 't']
  else if c.toNat < 0x20 then ['\\', 'u', '0', '0'] ++ hexByte c.toNat
  else [c]

def writeString (out : String) (s : String) : String :=
  (s.toList.foldl (fun out c => (escape c).foldl String.push out) (out.push '"')).push '"'

/-- Write the contents of a string after `out`. What cannot be read is left empty. -/
def writeText (out : String) (text : Text) : String :=
  writeString out (text.toOption.getD "")

mutual

def writeCompact (out : String) : Json → String
  | .null => out ++ "null"
  | .bool true => out ++ "true"
  | .bool false => out ++ "false"
  | .number n => out ++ n.text
  | .string s => writeText out s
  | .array [] => out ++ "[]"
  | .array (item :: items) => (writeItems (writeCompact (out.push '[') item) items).push ']'
  | .object [] => out ++ "\x7b\x7d"
  | .object ((key, value) :: fields) =>
    let out := (writeText (out.push '\x7b') key).push ':'
    (writeFields (writeCompact out value) fields).push '\x7d'

def writeItems (out : String) : List Json → String
  | [] => out
  | item :: items => writeItems (writeCompact (out.push ',') item) items

def writeFields (out : String) : List (Text × Json) → String
  | [] => out
  | (key, value) :: fields =>
    writeFields (writeCompact ((writeText (out.push ',') key).push ':') value) fields

end

def newLine (out : String) (indent : Nat) : String :=
  (List.replicate (2 * indent) ' ').foldl String.push (out.push '\n')

mutual

/-- Write a value after `out` over several lines. Empty arrays and objects stay on one line. -/
def writePretty (indent : Nat) (out : String) : Json → String
  | .null => out ++ "null"
  | .bool true => out ++ "true"
  | .bool false => out ++ "false"
  | .number n => out ++ n.text
  | .string s => writeText out s
  | .array [] => out ++ "[]"
  | .array (item :: items) =>
    let out := writePretty (indent + 1) (newLine (out.push '[') (indent + 1)) item
    (newLine (writePrettyItems (indent + 1) out items) indent).push ']'
  | .object [] => out ++ "\x7b\x7d"
  | .object ((key, value) :: fields) =>
    let out := writeText (newLine (out.push '\x7b') (indent + 1)) key ++ ": "
    let out := writePretty (indent + 1) out value
    (newLine (writePrettyFields (indent + 1) out fields) indent).push '\x7d'

/-- Write the further items of an array, each on a line of its own. -/
def writePrettyItems (indent : Nat) (out : String) : List Json → String
  | [] => out
  | item :: items =>
    writePrettyItems indent (writePretty indent (newLine (out.push ',') indent) item) items

/-- Write the further fields of an object, each on a line of its own. -/
def writePrettyFields (indent : Nat) (out : String) : List (Text × Json) → String
  | [] => out
  | (key, value) :: fields =>
    let out := writeText (newLine (out.push ',') indent) key ++ ": "
    writePrettyFields indent (writePretty indent out value) fields

end

def compact (json : Json) : String :=
  writeCompact "" json

def pretty (json : Json) : String :=
  writePretty 0 "" json

end Upvalue.Json

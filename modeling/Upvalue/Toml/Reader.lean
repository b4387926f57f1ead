import Upvalue.Toml.Quoted
import Upvalue.Toml.Scalar

/-!
This module contains the reader of TOML: keys, values and lines, and the tables that the lines of a
text describe together.
-/

namespace Upvalue.Toml

abbrev Key := List String

def isBareKeyChar (c : Char) : Bool :=
  c.isAlphanum || c == '-' || c == '_'

def keyPart : Scanner String := fun cs =>
  match cs with
  | '"' :: _ => lineString cs
  | '\'' :: _ => lineString cs
  | _ =>
    let name := cs.takeWhile isBareKeyChar
    if name.isEmpty then none else some (String.ofList name, cs.dropWhile isBareKeyChar)

/-- The names of a key, behind those of `seen` in reverse. Spaces may stand around every name. -/
def keyNames (seen : List String) (cs : List Char) : Option (Key × List Char) :=
  match keyPart (skipSpace cs) with
  | none => none
  | some (name, rest) =>
    match skipSpace rest with
    | '.' :: rest' =>
      if rest'.length < cs.length then keyNames (name :: seen) rest' else none
    | rest' => some ((name :: seen).reverse, rest')
termination_by cs.length

/-- The number of tables that may stand around each other. Arrays count as tables here. -/
def nestingLimit : Nat := 79

def key : Scanner Key := fun cs => do
  let (names, rest) ← keyNames [] cs
  if names.length ≤ nestingLimit then return (names, rest) else none

/-! ### Tables -/

/-- How a table came to be. It decides what may still be added to it. -/
inductive Origin where
  /-- By a header with its name. -/
  | header
  /-- By a header with a longer name. -/
  | implied
  /-- By a dotted key. -/
  | dotted
deriving DecidableEq, Repr

/-- A value under construction. -/
inductive Draft where
  | value (value : Value)
  | table (origin : Origin) (fields : List (String × Draft))
  /-- The rows of an array of tables, the last one first. -/
  | rows (rows : List (List (String × Draft)))

abbrev Fields := List (String × Draft)

namespace Fields

def set (fields : Fields) (name : String) (draft : Draft) : Fields :=
  if (fields.lookup name).isSome then
    fields.map fun (name', draft') => (name', if name' = name then draft else draft')
  else fields ++ [(name, draft)]

/-- Add a value. The tables on the way are those of dotted keys. -/
def add (value : Value) : Key → Fields → Option Fields
  | [], _ => none
  | [name], fields =>
    if (fields.lookup name).isSome then none else some (fields.set name (.value value))
  | name :: key, fields =>
    match fields.lookup name with
    | none => (add value key []).map fun sub => fields.set name (.table .dotted sub)
    | some (.table .dotted sub) =>
      (add value key sub).map fun sub => fields.set name (.table .dotted sub)
    | some _ => none

/--
Change the tables of a header. The last name of the key is the one that `f` is for, the tables
before it are made if there are none. The last row of an array of tables stands for the array.
-/
def atHeader (f : Option Draft → Option Draft) : Key → Fields → Option Fields
  | [], _ => none
  | [name], fields => (f (fields.lookup name)).map (fields.set name)
  | name :: key, fields =>
    match fields.lookup name with
    | none => (atHeader f key []).map fun sub => fields.set name (.table .implied sub)
    | some (.table origin sub) =>
      (atHeader f key sub).map fun sub => fields.set name (.table origin sub)
    | some (.rows (row :: rows)) =>
      (atHeader f key row).map fun row => fields.set name (.rows (row :: rows))
    | some _ => none

/-- A header opens a table, once. -/
def openTable : Option Draft → Option Draft
  | none => some (.table .header [])
  | some (.table .implied sub) => some (.table .header sub)
  | some _ => none

/-- A header with two brackets opens a new row of an array of tables. -/
def openRow : Option Draft → Option Draft
  | none => some (.rows [[]])
  | some (.rows rows) => some (.rows ([] :: rows))
  | some _ => none

/-- Add a value to the table that was opened last. -/
def addInside (key : Key) (value : Value) : Option Draft → Option Draft
  | some (.table origin sub) => (add value key sub).map (.table origin)
  | some (.rows (row :: rows)) => (add value key row).map fun row => .rows (row :: rows)
  | _ => none

end Fields

mutual

def Draft.toValue : Draft → Value
  | .value value => value
  | .table _ fields => .table (Fields.toValues fields)
  | .rows rows => .array (Fields.rowsToValues rows).reverse

def Fields.toValues : List (String × Draft) → List (String × Value)
  | [] => []
  | (name, draft) :: fields => (name, draft.toValue) :: Fields.toValues fields

def Fields.rowsToValues : List (List (String × Draft)) → List Value
  | [] => []
  | row :: rows => .table (Fields.toValues row) :: Fields.rowsToValues rows

end

/-! ### Values -/

/-- The items of an array behind its opening bracket. A comma may follow the last item. -/
def items (element : Scanner Value) (seen : List Value) (cs : List Char) :
    Option (Value × List Char) :=
  match skipBlank false cs with
  | ']' :: rest => some (.array seen.reverse, rest)
  | start =>
    match element start with
    | none => none
    | some (value, rest) =>
      match skipBlank false rest with
      | ']' :: rest' => some (.array (value :: seen).reverse, rest')
      | ',' :: rest' =>
        if rest'.length < cs.length then items element (value :: seen) rest' else none
      | _ => none
termination_by cs.length

def entry (element : Scanner Value) : Scanner (Key × Value) := fun cs => do
  let (key, rest) ← key cs
  let (value, rest) ← element (skipSpace (← expect '=' rest))
  return ((key, value), skipSpace rest)

/-- The fields of a table between braces, behind the opening one. They stand on one line. -/
def inlineFields (element : Scanner Value) (fields : Fields) (cs : List Char) :
    Option (Value × List Char) :=
  match entry element cs with
  | none => none
  | some ((key, value), rest) =>
    match fields.add value key with
    | none => none
    | some fields =>
      match rest with
      | '}' :: rest' => some (.table (Fields.toValues fields), rest')
      | ',' :: rest' =>
        if rest'.length < cs.length then inlineFields element fields rest' else none
      | _ => none
termination_by cs.length

/-- A value with at most `depth` arrays and inline tables around each other. -/
def value (depth : Nat) : Scanner Value := fun cs =>
  match cs with
  | '"' :: _ => (string cs).map fun (text, rest) => (.string text, rest)
  | '\'' :: _ => (string cs).map fun (text, rest) => (.string text, rest)
  | '[' :: rest =>
    match depth with
    | 0 => none
    | depth + 1 => items (value depth) [] rest
  | '{' :: rest =>
    match depth with
    | 0 => none
    | depth + 1 =>
      match skipSpace rest with
      | '}' :: rest' => some (.table [], rest')
      | rest' => inlineFields (value depth) [] rest'
  | _ => (scalar cs).map fun rest => (.scalar, rest)

/-! ### Lines -/

/-- What a line says. -/
inductive Line where
  | blank
  | header (key : Key)
  | row (key : Key)
  | entry (key : Key) (value : Value)

def line : Scanner Line := fun cs =>
  match skipSpace cs with
  | '[' :: '[' :: rest => do
    let (key, rest) ← key rest
    return (.row key, ← endOfLine (← expect ']' (← expect ']' rest)))
  | '[' :: rest => do
    let (key, rest) ← key rest
    return (.header key, ← endOfLine (← expect ']' rest))
  | rest =>
    match endOfLine rest with
    | some rest' => some (.blank, rest')
    | none => do
      let ((key, value), rest) ← entry (value nestingLimit) rest
      return (.entry key value, ← endOfLine rest)

def lines (cs : List Char) : Option (List Line) :=
  if cs.isEmpty then some []
  else
    match line cs with
    | none => none
    | some (first, rest) =>
      if rest.length < cs.length then (lines rest).map (first :: ·) else none
termination_by cs.length

/-- Add what lines say to the fields of a text, where the table with a given name is open. -/
def assemble : List Line → Key → Fields → Option Fields
  | [], _, fields => some fields
  | .blank :: rest, opened, fields => assemble rest opened fields
  | .header key :: rest, _, fields => do
    assemble rest key (← fields.atHeader Fields.openTable key)
  | .row key :: rest, _, fields => do
    assemble rest key (← fields.atHeader Fields.openRow key)
  | .entry key value :: rest, [], fields => do
    assemble rest [] (← fields.add value key)
  | .entry key value :: rest, opened, fields => do
    assemble rest opened (← fields.atHeader (Fields.addInside key value) opened)

/-- Read a text. A byte order mark may stand at its front. -/
def read? (text : String) : Option (List (String × Value)) := do
  let cs :=
    match text.toList with
    | '\ufeff' :: rest => rest
    | cs => cs
  let fields ← assemble (← lines cs) [] []
  return Fields.toValues fields

end Upvalue.Toml

import Upvalue.Json.Token

/-!
This module contains the reader of JSON texts. It goes through the tokens once and keeps the arrays
and objects that are still open on a stack.
-/

namespace Upvalue.Json

/-- An array or object that is still open. What it contains so far is in reverse. -/
inductive Frame where
  | array (items : List Json)
  | object (fields : List (Text × Json)) (key : Text)

/-- What the reader has just seen or has to see next. -/
inductive Mode where
  /-- A value has to follow. -/
  | value
  /-- An array has been opened: a value or the end of the array has to follow. -/
  | item
  /-- An object has been opened: a key or the end of the object has to follow. -/
  | field
  /-- A field has ended with a comma: a key has to follow. -/
  | key (fields : List (Text × Json))
  /-- A key has been read: a colon has to follow. -/
  | colon
  /-- A value is complete. -/
  | done (json : Json)

/-- The state of the reader. -/
structure Reader where
  stack : List Frame
  mode : Mode

namespace Reader

def start : Reader := ⟨[], .value⟩

def value? (stack : List Frame) : Token → Option Reader
  | .null => some ⟨stack, .done .null⟩
  | .bool b => some ⟨stack, .done (.bool b)⟩
  | .number n => some ⟨stack, .done (.number n)⟩
  | .string s => some ⟨stack, .done (.string s)⟩
  | .openBracket => some ⟨stack, .item⟩
  | .openBrace => some ⟨stack, .field⟩
  | _ => none

def next? (json : Json) : List Frame → Token → Option Reader
  | .array items :: stack, .comma => some ⟨.array (json :: items) :: stack, .value⟩
  | .array items :: stack, .closeBracket => some ⟨stack, .done (.array (json :: items).reverse)⟩
  | .object fields key :: stack, .comma => some ⟨stack, .key ((key, json) :: fields)⟩
  | .object fields key :: stack, .closeBrace =>
    some ⟨stack, .done (.object ((key, json) :: fields).reverse)⟩
  | _, _ => none

/-- Read one token. `none` if it must not stand here. -/
def step? (reader : Reader) (token : Token) : Option Reader :=
  match reader.mode, token with
  | .value, token => value? reader.stack token
  | .item, .closeBracket => some ⟨reader.stack, .done (.array [])⟩
  | .item, token => value? (.array [] :: reader.stack) token
  | .field, .closeBrace => some ⟨reader.stack, .done (.object [])⟩
  | .field, .string key => some ⟨.object [] key :: reader.stack, .colon⟩
  | .key fields, .string key => some ⟨.object fields key :: reader.stack, .colon⟩
  | .colon, .colon => some ⟨reader.stack, .value⟩
  | .done json, token => next? json reader.stack token
  | _, _ => none

/-- The value that has been read, if it is complete. -/
def result? (reader : Reader) : Option Json :=
  match reader.stack, reader.mode with
  | [], .done json => some json
  | _, _ => none

end Reader

/-- The value of a list of tokens. `none` if they do not form exactly one value. -/
def ofTokens? (tokens : List Token) : Option Json := do
  (← tokens.foldlM Reader.step? Reader.start).result?

/-- The value of a text. `none` if the text is not in JSON form. -/
def read? (text : String) : Option Json := do
  ofTokens? (← Token.all? text.toList)

end Upvalue.Json

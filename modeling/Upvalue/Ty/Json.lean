import Upvalue.Json.Record
import Upvalue.Ty.Basic

/-!
This module contains the JSON forms of types and type expressions. They nest at least as deep as the
types themselves, so that the limit on open arrays and objects bounds how deep a type can be read.
-/

namespace Upvalue

open Json

/-- A list of named values is a sequence of pairs. -/
def Json.Codec.named (codec : Codec α) : Codec (List (String × α)) :=
  .list (.pair .string codec)

namespace Ty

def functionRecord (ty : Codec Ty) : Record (List Ty × List Ty × Unit) :=
  .cons (.required "params" ty.list) <| .cons (.required "returns" ty.list) .nil

def recordRecord (ty : Codec Ty) : Record (String × List (String × Ty) × Bool × Unit) :=
  .cons (.required "name" .string) <| .cons (.required "fields" ty.named) <|
    .cons (.withDefault "is_upvalue_box" .bool false) .nil

mutual

def encode : Ty → Json
  | .any => .str "Any"
  | .nil => .str "Nil"
  | .boolean => .str "Boolean"
  | .integer => .str "Integer"
  | .float => .str "Float"
  | .string => .str "String"
  | .function params returns =>
    Variant.tagged "Function"
      (Json.obj [("params", .array (encodeList params)), ("returns", .array (encodeList returns))])
  | .array element => Variant.tagged "Array" (encode element)
  | .table fields => Variant.tagged "Table" (.array (encodeFields fields))
  | .record name fields isBox =>
    Variant.tagged "Record"
      (Json.obj [("name", .str name), ("fields", .array (encodeFields fields)),
        ("is_upvalue_box", .bool isBox)])

def encodeList : List Ty → List Json
  | [] => []
  | ty :: tys => encode ty :: encodeList tys

def encodeFields : List (String × Ty) → List Json
  | [] => []
  | (name, ty) :: fields => .array [.str name, encode ty] :: encodeFields fields

end

/-- The variants of a type, given how the types inside of it are read. -/
def variants (ty : Codec Ty) : List (Variant Ty) := [
  .unit "Any" .any,
  .unit "Nil" .nil,
  .unit "Boolean" .boolean,
  .unit "Integer" .integer,
  .unit "Float" .float,
  .unit "String" .string,
  .value "Function"
    (((functionRecord ty).decode (.struct "FunctionType" 2)).map fun (params, returns, ()) =>
      .function params returns),
  .value "Array" (ty.decode.map .array),
  .value "Table" (ty.named.decode.map .table),
  .value "Record"
    (((recordRecord ty).decode (.struct "RecordType" 3)).map fun (name, fields, isBox, ()) =>
      .record name fields isBox)]

/-- Read a type that is at most `depth` types deep. -/
def decode : (depth : Nat) → Decoder Ty
  | 0 => fun _ _ => .error .nesting
  | depth + 1 => Variant.decode (variants ⟨encode, decode depth⟩)

def codec : Codec Ty := ⟨encode, decode (nestingLimit + 1)⟩

end Ty

namespace TypeExpr

def functionRecord (expr : Codec TypeExpr) : Record (List TypeExpr × List TypeExpr × Unit) :=
  .cons (.required "params" expr.list) <| .cons (.required "returns" expr.list) .nil

mutual

def encode : TypeExpr → Json
  | .nil => .str "Nil"
  | .named name => Variant.tagged "Name" (.str name)
  | .array element => Variant.tagged "Array" (encode element)
  | .table fields => Variant.tagged "Table" (.array (encodeFields fields))
  | .function params returns =>
    Variant.tagged "Function"
      (Json.obj [("params", .array (encodeList params)), ("returns", .array (encodeList returns))])

def encodeList : List TypeExpr → List Json
  | [] => []
  | expr :: exprs => encode expr :: encodeList exprs

def encodeFields : List (String × TypeExpr) → List Json
  | [] => []
  | (name, expr) :: fields => .array [.str name, encode expr] :: encodeFields fields

end

/-- The variants of a type expression, given how those inside of it are read. -/
def variants (expr : Codec TypeExpr) : List (Variant TypeExpr) := [
  .unit "Nil" .nil,
  .value "Name" (Decoder.string.map .named),
  .value "Array" (expr.decode.map .array),
  .value "Table" (expr.named.decode.map .table),
  .fields "TypeAnnotation" "Function" (functionRecord expr) fun (params, returns, ()) =>
    .function params returns]

/-- Read a type expression that is at most `depth` expressions deep. -/
def decode : (depth : Nat) → Decoder TypeExpr
  | 0 => fun _ _ => .error .nesting
  | depth + 1 => Variant.decode (variants ⟨encode, decode depth⟩)

def codec : Codec TypeExpr := ⟨encode, decode (nestingLimit + 1)⟩

end TypeExpr

end Upvalue

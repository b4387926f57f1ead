import Upvalue.Program.Basic
import Upvalue.Ty.Json

/-!
This module contains the JSON forms of programs and their nodes. Each structure lists its fields in
the order they are written in; locations, arenas and flags may be left out.
-/

namespace Upvalue

open Json

def Span.record : Record (UInt32 × UInt32 × UInt32 × Unit) :=
  .cons (.required "file_id" .uint32) <| .cons (.required "start" .uint32) <|
    .cons (.required "end" .uint32) .nil

def Span.codec : Codec Span :=
  .struct "Span" record (fun span => (span.file, span.start, span.stop, ()))
    fun (file, start, stop, ()) => ⟨file, start, stop⟩

def locField : Member Span := .required "loc" Span.codec

/-- A location that may be left out. -/
def optionalLocField : Member Span := .withDefault "loc" Span.codec Span.dummy

/-- A written type that may be left out. -/
def writtenField : Member (Option TypeExpr) :=
  .withDefault "annotation" TypeExpr.codec.option none

def tyField : Member Ty := .required "ty" Ty.codec

def DeclId.codec : Codec DeclId := .via .uint32 DeclId.index DeclId.mk

def StatId.codec : Codec StatId := .via .uint32 StatId.index StatId.mk

def ExprId.codec : Codec ExprId := .via .uint32 ExprId.index ExprId.mk

def VarId.codec : Codec VarId := .via .uint32 VarId.index VarId.mk

def exprField (name : String) : Member ExprId := .required name ExprId.codec

def exprsField (name : String) : Member (List ExprId) := .required name ExprId.codec.list

def declsField (name : String) : Member (List DeclId) := .required name DeclId.codec.list

namespace Decl

def record : Record (String × Option TypeExpr × Span × Ty × Bool × Unit) :=
  .cons (.required "name" .string) <| .cons writtenField <| .cons optionalLocField <|
    .cons tyField <| .cons (.withDefault "exported" .bool false) .nil

def codec : Codec Decl :=
  .struct "Decl" record
    (fun decl => (decl.name, decl.written, decl.loc, decl.ty, decl.exported, ()))
    fun (name, written, loc, ty, exported, ()) => ⟨name, written, loc, ty, exported⟩

end Decl

namespace FuncDef

def record : Record (Span × DeclId × ExprId × Unit) :=
  .cons locField <| .cons (.required "decl" DeclId.codec) <| .cons (exprField "value") .nil

def codec : Codec FuncDef :=
  .struct "FuncDef" record (fun func => (func.loc, func.decl, func.value, ()))
    fun (loc, decl, value, ()) => ⟨loc, decl, value⟩

end FuncDef

namespace RecordField

/-- The fields of a field of a record declaration. -/
def record : Record (String × Option TypeExpr × Ty × Unit) :=
  .cons (.required "name" .string) <| .cons writtenField <| .cons tyField .nil

def codec : Codec RecordField :=
  .struct "RecordField" record (fun field => (field.name, field.written, field.ty, ()))
    fun (name, written, ty, ()) => ⟨name, written, ty⟩

end RecordField

namespace Block

def record : Record (List StatId × Unit) :=
  .cons (.required "stats" StatId.codec.list) .nil

def codec : Codec Block :=
  .struct "Block" record (fun block => (block.stats, ())) fun (stats, ()) => ⟨stats⟩

end Block

def blockField (name : String) : Member Block := .required name Block.codec

namespace Toplevel

def statsRecord : Record (Span × List StatId × Unit) :=
  .cons locField <| .cons (.required "stats" StatId.codec.list) .nil

def functionsRecord : Record (Span × List FuncDef × Unit) :=
  .cons locField <| .cons (.required "funcs" FuncDef.codec.list) .nil

def recordRecord : Record (Span × String × List RecordField × Ty × Unit) :=
  .cons locField <| .cons (.required "name" .string) <|
    .cons (.required "fields" RecordField.codec.list) <| .cons tyField .nil

def typealiasRecord : Record (Span × String × TypeExpr × Ty × Unit) :=
  .cons locField <| .cons (.required "name" .string) <|
    .cons (.required "annotation" TypeExpr.codec) <| .cons tyField .nil

def encode : Toplevel → Json
  | .stats loc ids => Variant.tagged "Stats" (statsRecord.encode (loc, ids, ()))
  | .functions loc funcs => Variant.tagged "Functions" (functionsRecord.encode (loc, funcs, ()))
  | .record loc name fields ty =>
    Variant.tagged "Record" (recordRecord.encode (loc, name, fields, ty, ()))
  | .typealias loc name written ty =>
    Variant.tagged "Typealias" (typealiasRecord.encode (loc, name, written, ty, ()))

def variants : List (Variant Toplevel) := [
  .fields "Toplevel" "Stats" statsRecord fun (loc, ids, ()) => .stats loc ids,
  .fields "Toplevel" "Functions" functionsRecord fun (loc, funcs, ()) => .functions loc funcs,
  .fields "Toplevel" "Record" recordRecord fun (loc, name, fields, ty, ()) =>
    .record loc name fields ty,
  .fields "Toplevel" "Typealias" typealiasRecord fun (loc, name, written, ty, ()) =>
    .typealias loc name written ty]

def codec : Codec Toplevel := ⟨encode, Variant.decode variants⟩

end Toplevel

namespace Stat

def declRecord : Record (Span × List DeclId × List ExprId × Unit) :=
  .cons locField <| .cons (declsField "decls") <| .cons (exprsField "exps") .nil

def assignRecord : Record (Span × List VarId × List ExprId × Unit) :=
  .cons locField <| .cons (.required "vars" VarId.codec.list) <| .cons (exprsField "exps") .nil

def functionsRecord : Record (Span × List FuncDef × Unit) :=
  .cons locField <| .cons (.required "funcs" FuncDef.codec.list) .nil

def retRecord : Record (Span × List ExprId × Unit) :=
  .cons locField <| .cons (exprsField "exps") .nil

def blockRecord : Record (Span × Block × Unit) :=
  .cons locField <| .cons (blockField "block") .nil

def whileRecord : Record (Span × ExprId × Block × Unit) :=
  .cons locField <| .cons (exprField "condition") <| .cons (blockField "block") .nil

def repeatRecord : Record (Span × Block × ExprId × Unit) :=
  .cons locField <| .cons (blockField "block") <| .cons (exprField "condition") .nil

def branchRecord : Record (Span × ExprId × Block × Option Block × Unit) :=
  .cons locField <| .cons (exprField "condition") <| .cons (blockField "then_block") <|
    .cons (.optional "else_block" Block.codec) .nil

def forNumRecord : Record (Span × DeclId × ExprId × ExprId × Option ExprId × Block × Unit) :=
  .cons locField <| .cons (.required "decl" DeclId.codec) <| .cons (exprField "start") <|
    .cons (exprField "limit") <| .cons (.optional "step" ExprId.codec) <|
    .cons (blockField "block") .nil

def forInRecord : Record (Span × List DeclId × List ExprId × Block × Unit) :=
  .cons locField <| .cons (declsField "decls") <| .cons (exprsField "exps") <|
    .cons (blockField "block") .nil

def callRecord : Record (Span × ExprId × Unit) :=
  .cons locField <| .cons (exprField "call") .nil

def breakRecord : Record (Span × Unit) :=
  .cons locField .nil

def encode : Stat → Json
  | .decl loc decls exps => Variant.tagged "Decl" (declRecord.encode (loc, decls, exps, ()))
  | .assign loc vars exps => Variant.tagged "Assign" (assignRecord.encode (loc, vars, exps, ()))
  | .functions loc funcs => Variant.tagged "Functions" (functionsRecord.encode (loc, funcs, ()))
  | .ret loc exps => Variant.tagged "Return" (retRecord.encode (loc, exps, ()))
  | .block loc body => Variant.tagged "Block" (blockRecord.encode (loc, body, ()))
  | .whileLoop loc condition body =>
    Variant.tagged "While" (whileRecord.encode (loc, condition, body, ()))
  | .repeatLoop loc body condition =>
    Variant.tagged "Repeat" (repeatRecord.encode (loc, body, condition, ()))
  | .branch loc condition thenBlock elseBlock =>
    Variant.tagged "If" (branchRecord.encode (loc, condition, thenBlock, elseBlock, ()))
  | .forNum loc id start limit step body =>
    Variant.tagged "ForNum" (forNumRecord.encode (loc, id, start, limit, step, body, ()))
  | .forIn loc decls exps body =>
    Variant.tagged "ForIn" (forInRecord.encode (loc, decls, exps, body, ()))
  | .call loc exp => Variant.tagged "Call" (callRecord.encode (loc, exp, ()))
  | .breakLoop loc => Variant.tagged "Break" (breakRecord.encode (loc, ()))

def variants : List (Variant Stat) := [
  .fields "Stat" "Decl" declRecord fun (loc, decls, exps, ()) => .decl loc decls exps,
  .fields "Stat" "Assign" assignRecord fun (loc, vars, exps, ()) => .assign loc vars exps,
  .fields "Stat" "Functions" functionsRecord fun (loc, funcs, ()) => .functions loc funcs,
  .fields "Stat" "Return" retRecord fun (loc, exps, ()) => .ret loc exps,
  .fields "Stat" "Block" blockRecord fun (loc, body, ()) => .block loc body,
  .fields "Stat" "While" whileRecord fun (loc, condition, body, ()) =>
    .whileLoop loc condition body,
  .fields "Stat" "Repeat" repeatRecord fun (loc, body, condition, ()) =>
    .repeatLoop loc body condition,
  .fields "Stat" "If" branchRecord fun (loc, condition, thenBlock, elseBlock, ()) =>
    .branch loc condition thenBlock elseBlock,
  .fields "Stat" "ForNum" forNumRecord fun (loc, id, start, limit, step, body, ()) =>
    .forNum loc id start limit step body,
  .fields "Stat" "ForIn" forInRecord fun (loc, decls, exps, body, ()) =>
    .forIn loc decls exps body,
  .fields "Stat" "Call" callRecord fun (loc, exp, ()) => .call loc exp,
  .fields "Stat" "Break" breakRecord fun (loc, ()) => .breakLoop loc]

def codec : Codec Stat := ⟨encode, Variant.decode variants⟩

end Stat

namespace UnaryOp

def name : UnaryOp → String
  | .neg => "Neg"
  | .not => "Not"
  | .len => "Len"
  | .bitNot => "BitNot"

def all : List UnaryOp := [.neg, .not, .len, .bitNot]

def codec : Codec UnaryOp :=
  ⟨fun op => .str op.name, Variant.decode (all.map fun op => .unit op.name op)⟩

end UnaryOp

namespace BinaryOp

def name : BinaryOp → String
  | .add => "Add"
  | .sub => "Sub"
  | .mul => "Mul"
  | .div => "Div"
  | .intDiv => "IntDiv"
  | .mod => "Mod"
  | .pow => "Pow"
  | .concat => "Concat"
  | .eq => "Eq"
  | .ne => "Ne"
  | .lt => "Lt"
  | .le => "Le"
  | .gt => "Gt"
  | .ge => "Ge"
  | .and => "And"
  | .or => "Or"
  | .bitAnd => "BitAnd"
  | .bitOr => "BitOr"
  | .bitXor => "BitXor"
  | .shl => "Shl"
  | .shr => "Shr"

def all : List BinaryOp :=
  [.add, .sub, .mul, .div, .intDiv, .mod, .pow, .concat, .eq, .ne, .lt, .le, .gt, .ge, .and, .or,
    .bitAnd, .bitOr, .bitXor, .shl, .shr]

def codec : Codec BinaryOp :=
  ⟨fun op => .str op.name, Variant.decode (all.map fun op => .unit op.name op)⟩

end BinaryOp

namespace InitField

def record : Record (Option String × ExprId × Unit) :=
  .cons (.optional "name" .string) <| .cons (exprField "exp") .nil

def codec : Codec InitField :=
  .struct "InitField" record (fun field => (field.name, field.exp, ()))
    fun (name, exp, ()) => ⟨name, exp⟩

end InitField

namespace ExprKind

def initListRecord : Record (List InitField × Unit) :=
  .cons (.required "fields" InitField.codec.list) .nil

def lambdaRecord : Record (List DeclId × Block × Unit) :=
  .cons (declsField "params") <| .cons (blockField "body") .nil

def callRecord : Record (ExprId × List ExprId × Unit) :=
  .cons (exprField "callee") <| .cons (exprsField "args") .nil

def methodCallRecord : Record (ExprId × String × List ExprId × Unit) :=
  .cons (exprField "receiver") <| .cons (.required "method" .string) <|
    .cons (exprsField "args") .nil

def unopRecord : Record (UnaryOp × ExprId × Unit) :=
  .cons (.required "op" UnaryOp.codec) <| .cons (exprField "exp") .nil

def binopRecord : Record (ExprId × BinaryOp × ExprId × Unit) :=
  .cons (exprField "lhs") <| .cons (.required "op" BinaryOp.codec) <| .cons (exprField "rhs") .nil

def castRecord : Record (ExprId × Option TypeExpr × Unit) :=
  .cons (exprField "exp") <| .cons (.optional "target" TypeExpr.codec) .nil

/-- The fields of an expression around another one. -/
def wrapRecord : Record (ExprId × Unit) :=
  .cons (exprField "exp") .nil

def encode : ExprKind → Json
  | .nil => .str "Nil"
  | .bool value => Variant.tagged "Bool" (Codec.bool.encode value)
  | .integer value => Variant.tagged "Integer" (Codec.int64.encode value)
  | .float value => Variant.tagged "Float" (Codec.float.encode value)
  | .string value => Variant.tagged "String" (Codec.string.encode value)
  | .initList fields => Variant.tagged "InitList" (initListRecord.encode (fields, ()))
  | .lambda params body => Variant.tagged "Lambda" (lambdaRecord.encode (params, body, ()))
  | .call callee args => Variant.tagged "CallFunc" (callRecord.encode (callee, args, ()))
  | .methodCall receiver method args =>
    Variant.tagged "CallMethod" (methodCallRecord.encode (receiver, method, args, ()))
  | .var id => Variant.tagged "Var" (VarId.codec.encode id)
  | .unop op exp => Variant.tagged "Unop" (unopRecord.encode (op, exp, ()))
  | .binop lhs op rhs => Variant.tagged "Binop" (binopRecord.encode (lhs, op, rhs, ()))
  | .cast exp target => Variant.tagged "Cast" (castRecord.encode (exp, target, ()))
  | .toFloat exp => Variant.tagged "ToFloat" (wrapRecord.encode (exp, ()))
  | .paren exp => Variant.tagged "Paren" (wrapRecord.encode (exp, ()))

def variants : List (Variant ExprKind) := [
  .unit "Nil" .nil,
  .value "Bool" (Codec.bool.decode.map .bool),
  .value "Integer" (Codec.int64.decode.map .integer),
  .value "Float" (Codec.float.decode.map .float),
  .value "String" (Codec.string.decode.map .string),
  .fields "ExprKind" "InitList" initListRecord fun (fields, ()) => .initList fields,
  .fields "ExprKind" "Lambda" lambdaRecord fun (params, body, ()) => .lambda params body,
  .fields "ExprKind" "CallFunc" callRecord fun (callee, args, ()) => .call callee args,
  .fields "ExprKind" "CallMethod" methodCallRecord fun (receiver, method, args, ()) =>
    .methodCall receiver method args,
  .value "Var" (VarId.codec.decode.map .var),
  .fields "ExprKind" "Unop" unopRecord fun (op, exp, ()) => .unop op exp,
  .fields "ExprKind" "Binop" binopRecord fun (lhs, op, rhs, ()) => .binop lhs op rhs,
  .fields "ExprKind" "Cast" castRecord fun (exp, target, ()) => .cast exp target,
  .fields "ExprKind" "ToFloat" wrapRecord fun (exp, ()) => .toFloat exp,
  .fields "ExprKind" "Paren" wrapRecord fun (exp, ()) => .paren exp]

def codec : Codec ExprKind := ⟨encode, Variant.decode variants⟩

end ExprKind

namespace Expr

def record : Record (Span × Ty × ExprKind × Unit) :=
  .cons optionalLocField <| .cons tyField <| .cons (.required "kind" ExprKind.codec) .nil

def codec : Codec Expr :=
  .struct "Expr" record (fun expr => (expr.loc, expr.ty, expr.kind, ()))
    fun (loc, ty, kind, ()) => ⟨loc, ty, kind⟩

end Expr

namespace Def

def encode : Def → Json
  | .variable id => Variant.tagged "Variable" (DeclId.codec.encode id)
  | .builtin name => Variant.tagged "Builtin" (Codec.string.encode name)
  | .unresolved => .str "Unresolved"

/-- How it is read what a simple name stands for. -/
def variants : List (Variant Def) := [
  .value "Variable" (DeclId.codec.decode.map .variable),
  .value "Builtin" (Codec.string.decode.map .builtin),
  .unit "Unresolved" .unresolved]

/-- The JSON form of what a simple name stands for. -/
def codec : Codec Def := ⟨encode, Variant.decode variants⟩

end Def

namespace VarKind

def nameRecord : Record (String × Def × Unit) :=
  .cons (.required "name" .string) <| .cons (.required "def" Def.codec) .nil

def dotRecord : Record (ExprId × String × Unit) :=
  .cons (exprField "exp") <| .cons (.required "field" .string) .nil

def bracketRecord : Record (ExprId × ExprId × Unit) :=
  .cons (exprField "table") <| .cons (exprField "key") .nil

def encode : VarKind → Json
  | .name text target => Variant.tagged "Name" (nameRecord.encode (text, target, ()))
  | .dot exp field => Variant.tagged "Dot" (dotRecord.encode (exp, field, ()))
  | .bracket table key => Variant.tagged "Bracket" (bracketRecord.encode (table, key, ()))

def variants : List (Variant VarKind) := [
  .fields "VarKind" "Name" nameRecord fun (text, target, ()) => .name text target,
  .fields "VarKind" "Dot" dotRecord fun (exp, field, ()) => .dot exp field,
  .fields "VarKind" "Bracket" bracketRecord fun (table, key, ()) => .bracket table key]

/-- The JSON form of variable forms without their types. -/
def codec : Codec VarKind := ⟨encode, Variant.decode variants⟩

end VarKind

namespace Var

def record : Record (Span × Ty × VarKind × Unit) :=
  .cons optionalLocField <| .cons tyField <| .cons (.required "kind" VarKind.codec) .nil

def codec : Codec Var :=
  .struct "Var" record (fun var => (var.loc, var.ty, var.kind, ()))
    fun (loc, ty, kind, ()) => ⟨loc, ty, kind⟩

end Var

namespace Program

def record :
    Record (Array String × Array Toplevel × Array Decl × Array Stat × Array Expr × Array Var
      × Unit) :=
  .cons (.withDefault "files" Codec.string.array #[]) <|
    .cons (.required "items" Toplevel.codec.array) <|
    .cons (.withDefault "decls" Decl.codec.array #[]) <|
    .cons (.withDefault "stats" Stat.codec.array #[]) <|
    .cons (.withDefault "exprs" Expr.codec.array #[]) <|
    .cons (.withDefault "vars" Var.codec.array #[]) .nil

def codec : Codec Program :=
  .struct "Program" record
    (fun p => (p.files, p.items, p.decls, p.stats, p.exprs, p.vars, ()))
    fun (files, items, decls, stats, exprs, vars, ()) => ⟨files, items, decls, stats, exprs, vars⟩

end Program

end Upvalue

import Upvalue.Span
import Upvalue.Binary64
import Upvalue.Ty.Basic

/-!
This module contains typed programs. The nodes of a program live in arenas and refer to each other
by handles, so that a node can be overwritten without touching the nodes that refer to it. Slots are
never freed.
-/

namespace Upvalue

/-- Handle of a declaration: a local, a parameter, a loop variable or the name of a function. -/
structure DeclId where
  index : UInt32
deriving DecidableEq, Repr, Inhabited

/-- Handle of a statement. -/
structure StatId where
  index : UInt32
deriving DecidableEq, Repr, Inhabited

/-- Handle of an expression. -/
structure ExprId where
  index : UInt32
deriving DecidableEq, Repr, Inhabited

/-- Handle of a variable form: a name, a field access or an index access. -/
structure VarId where
  index : UInt32
deriving DecidableEq, Repr, Inhabited

/-- A named binding. -/
structure Decl where
  name : String
  /-- The type as it is written in the source text, if it is. -/
  written : Option TypeExpr
  loc : Span
  ty : Ty
  /-- Whether the binding is visible outside of the module. -/
  exported : Bool
deriving Repr, Inhabited

/-- One function of a group of functions: the name it is bound to and its function literal. -/
structure FuncDef where
  loc : Span
  decl : DeclId
  value : ExprId
deriving DecidableEq, Repr, Inhabited

/-- A field of a record declaration. -/
structure RecordField where
  name : String
  written : Option TypeExpr
  ty : Ty
deriving Repr, Inhabited

/-- A direct child of a program. -/
inductive Toplevel where
  | stats (loc : Span) (stats : List StatId)
  | functions (loc : Span) (funcs : List FuncDef)
  | record (loc : Span) (name : String) (fields : List RecordField) (ty : Ty)
  | typealias (loc : Span) (name : String) (written : TypeExpr) (ty : Ty)
deriving Repr, Inhabited

/-- A sequence of statements. -/
structure Block where
  stats : List StatId
deriving DecidableEq, Repr, Inhabited

/-- A statement. -/
inductive Stat where
  /-- Declare names with the values at the same positions. -/
  | decl (loc : Span) (decls : List DeclId) (exps : List ExprId)
  | assign (loc : Span) (vars : List VarId) (exps : List ExprId)
  /-- A group of functions that may call each other. -/
  | functions (loc : Span) (funcs : List FuncDef)
  | ret (loc : Span) (exps : List ExprId)
  | block (loc : Span) (body : Block)
  | whileLoop (loc : Span) (condition : ExprId) (body : Block)
  | repeatLoop (loc : Span) (body : Block) (condition : ExprId)
  | branch (loc : Span) (condition : ExprId) (thenBlock : Block) (elseBlock : Option Block)
  | forNum (loc : Span) (decl : DeclId) (start limit : ExprId) (step : Option ExprId) (body : Block)
  | forIn (loc : Span) (decls : List DeclId) (exps : List ExprId) (body : Block)
  /-- A call that is made for its effects. -/
  | call (loc : Span) (call : ExprId)
  | breakLoop (loc : Span)
deriving DecidableEq, Repr, Inhabited

def Stat.loc : Stat → Span
  | .decl loc .. | .assign loc .. | .functions loc .. | .ret loc .. | .block loc ..
  | .whileLoop loc .. | .repeatLoop loc .. | .branch loc .. | .forNum loc .. | .forIn loc ..
  | .call loc .. | .breakLoop loc => loc

inductive UnaryOp where
  | neg | not | len | bitNot
deriving DecidableEq, Repr, Inhabited

inductive BinaryOp where
  | add | sub | mul | div | intDiv | mod | pow | concat
  | eq | ne | lt | le | gt | ge | and | or
  | bitAnd | bitOr | bitXor | shl | shr
deriving DecidableEq, Repr, Inhabited

/-- A field of a constructor. Fields without a name are positional. -/
structure InitField where
  name : Option String
  exp : ExprId
deriving DecidableEq, Repr, Inhabited

/-- An expression without its type. -/
inductive ExprKind where
  | nil
  | bool (value : Bool)
  | integer (value : Int64)
  | float (value : Binary64)
  | string (value : String)
  | initList (fields : List InitField)
  | lambda (params : List DeclId) (body : Block)
  | call (callee : ExprId) (args : List ExprId)
  | methodCall (receiver : ExprId) (method : String) (args : List ExprId)
  | var (var : VarId)
  | unop (op : UnaryOp) (exp : ExprId)
  | binop (lhs : ExprId) (op : BinaryOp) (rhs : ExprId)
  | cast (exp : ExprId) (target : Option TypeExpr)
  /-- The promotion of an integer. -/
  | toFloat (exp : ExprId)
  | paren (exp : ExprId)
deriving Repr, Inhabited

/-- An expression. -/
structure Expr where
  loc : Span
  ty : Ty
  kind : ExprKind
deriving Repr, Inhabited

/-- What a simple name stands for. -/
inductive Def where
  | variable (decl : DeclId)
  | builtin (name : String)
  | unresolved
deriving DecidableEq, Repr, Inhabited

/-- A variable form without its type. -/
inductive VarKind where
  | name (name : String) (target : Def)
  | dot (exp : ExprId) (field : String)
  | bracket (table key : ExprId)
deriving DecidableEq, Repr, Inhabited

/-- The declaration that a variable form names directly, if it is a simple name of a variable. -/
def VarKind.decl? : VarKind → Option DeclId
  | .name _ (.variable decl) => some decl
  | _ => none

/-- A variable form. -/
structure Var where
  loc : Span
  ty : Ty
  kind : VarKind
deriving Repr, Inhabited

/-- A typed program: one source module. -/
structure Program where
  /-- The paths of the source texts. The file of a span is a position in this list. -/
  files : Array String
  items : Array Toplevel
  decls : Array Decl
  stats : Array Stat
  exprs : Array Expr
  vars : Array Var
deriving Repr, Inhabited

namespace Program

def empty : Program := ⟨#[], #[], #[], #[], #[], #[]⟩

/-- The declaration of a handle, `none` if the handle is out of range. -/
def decl? (p : Program) (id : DeclId) : Option Decl :=
  p.decls[id.index.toNat]?

/-- The statement of a handle, `none` if the handle is out of range. -/
def stat? (p : Program) (id : StatId) : Option Stat :=
  p.stats[id.index.toNat]?

/-- The expression of a handle, `none` if the handle is out of range. -/
def expr? (p : Program) (id : ExprId) : Option Expr :=
  p.exprs[id.index.toNat]?

/-- The variable form of a handle, `none` if the handle is out of range. -/
def var? (p : Program) (id : VarId) : Option Var :=
  p.vars[id.index.toNat]?

def nextDecl (p : Program) : DeclId := ⟨UInt32.ofNat p.decls.size⟩

def nextStat (p : Program) : StatId := ⟨UInt32.ofNat p.stats.size⟩

def nextExpr (p : Program) : ExprId := ⟨UInt32.ofNat p.exprs.size⟩

def nextVar (p : Program) : VarId := ⟨UInt32.ofNat p.vars.size⟩

/-- Put a declaration into a new slot, the one of `nextDecl`. -/
def addDecl (p : Program) (decl : Decl) : Program :=
  { p with decls := p.decls.push decl }

/-- Put a statement into a new slot, the one of `nextStat`. -/
def addStat (p : Program) (stat : Stat) : Program :=
  { p with stats := p.stats.push stat }

/-- Put an expression into a new slot, the one of `nextExpr`. -/
def addExpr (p : Program) (expr : Expr) : Program :=
  { p with exprs := p.exprs.push expr }

/-- Put a variable form into a new slot, the one of `nextVar`. -/
def addVar (p : Program) (var : Var) : Program :=
  { p with vars := p.vars.push var }

def addItem (p : Program) (item : Toplevel) : Program :=
  { p with items := p.items.push item }

/-- Overwrite the slot of a declaration. Nothing happens if the handle is out of range. -/
def setDecl (p : Program) (id : DeclId) (decl : Decl) : Program :=
  { p with decls := p.decls.setIfInBounds id.index.toNat decl }

/-- Overwrite the slot of an expression. Nothing happens if the handle is out of range. -/
def setExpr (p : Program) (id : ExprId) (expr : Expr) : Program :=
  { p with exprs := p.exprs.setIfInBounds id.index.toNat expr }

/-- Overwrite the slot of a variable form. Nothing happens if the handle is out of range. -/
def setVar (p : Program) (id : VarId) (var : Var) : Program :=
  { p with vars := p.vars.setIfInBounds id.index.toNat var }

/-- The number of statements, expressions and variable forms. -/
def slotCount (p : Program) : Nat :=
  p.stats.size + p.exprs.size + p.vars.size

end Program

end Upvalue

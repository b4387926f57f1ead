import Upvalue.Program.Basic

/-!
This module contains the handles that the nodes of a program store, in the order they are written
in, and the nodes among them: the statements, expressions and variable forms that a node owns.
-/

namespace Upvalue

/-- A statement, expression or variable form, by its handle. -/
inductive Node where
  | stat (id : StatId)
  | expr (id : ExprId)
  | var (id : VarId)
deriving DecidableEq, Repr

/-- A stored handle. Declarations are shared, nodes have one owner. -/
inductive Ref where
  | decl (id : DeclId)
  | node (node : Node)
deriving DecidableEq, Repr

namespace Ref

def stat (id : StatId) : Ref := .node (.stat id)

def expr (id : ExprId) : Ref := .node (.expr id)

def var (id : VarId) : Ref := .node (.var id)

/-- The node that a handle refers to, if it is not a declaration. -/
def node? : Ref → Option Node
  | .decl _ => none
  | .node target => some target

/-- What a message calls the kind of a handle. -/
def kind : Ref → String
  | .decl _ => "declaration"
  | .node (.stat _) => "statement"
  | .node (.expr _) => "expression"
  | .node (.var _) => "variable"

def index : Ref → UInt32
  | .decl id => id.index
  | .node (.stat id) => id.index
  | .node (.expr id) => id.index
  | .node (.var id) => id.index

end Ref

/-- The handles of a function: its name, then its function literal. -/
def FuncDef.refs (func : FuncDef) : List Ref :=
  [.decl func.decl, .expr func.value]

def Block.refs (block : Block) : List Ref :=
  block.stats.map .stat

def Toplevel.refs : Toplevel → List Ref
  | .stats _ ids => ids.map .stat
  | .functions _ funcs => funcs.flatMap FuncDef.refs
  | .record .. => []
  | .typealias .. => []

def Stat.refs : Stat → List Ref
  | .decl _ decls exps => decls.map .decl ++ exps.map .expr
  | .assign _ vars exps => vars.map .var ++ exps.map .expr
  | .functions _ funcs => funcs.flatMap FuncDef.refs
  | .ret _ exps => exps.map .expr
  | .block _ body => body.refs
  | .whileLoop _ condition body => .expr condition :: body.refs
  | .repeatLoop _ body condition => .expr condition :: body.refs
  | .branch _ condition thenBlock elseBlock =>
    .expr condition :: (thenBlock.refs ++ elseBlock.toList.flatMap Block.refs)
  | .forNum _ id start limit step body =>
    .decl id :: .expr start :: .expr limit :: (step.toList.map .expr ++ body.refs)
  | .forIn _ decls exps body => decls.map .decl ++ exps.map .expr ++ body.refs
  | .call _ exp => [.expr exp]
  | .breakLoop _ => []

def ExprKind.refs : ExprKind → List Ref
  | .nil => []
  | .bool _ => []
  | .integer _ => []
  | .float _ => []
  | .string _ => []
  | .initList fields => fields.map fun field => .expr field.exp
  | .lambda params body => params.map .decl ++ body.refs
  | .call callee args => .expr callee :: args.map .expr
  | .methodCall receiver _ args => .expr receiver :: args.map .expr
  | .var id => [.var id]
  | .unop _ exp => [.expr exp]
  | .binop lhs _ rhs => [.expr lhs, .expr rhs]
  | .cast exp _ => [.expr exp]
  | .toFloat exp => [.expr exp]
  | .paren exp => [.expr exp]

def VarKind.refs : VarKind → List Ref
  | .name _ (.variable decl) => [.decl decl]
  | .name _ (.builtin _) => []
  | .name _ .unresolved => []
  | .dot exp _ => [.expr exp]
  | .bracket table key => [.expr table, .expr key]

namespace Program

/-- All handles that are stored in a program, in reachable slots or not. -/
def refs (p : Program) : List Ref :=
  p.items.toList.flatMap Toplevel.refs
    ++ p.stats.toList.flatMap Stat.refs
    ++ p.exprs.toList.flatMap (·.kind.refs)
    ++ p.vars.toList.flatMap (·.kind.refs)

/-- The number of slots of the kind that a handle refers to. -/
def sizeFor (p : Program) : Ref → Nat
  | .decl _ => p.decls.size
  | .node (.stat _) => p.stats.size
  | .node (.expr _) => p.exprs.size
  | .node (.var _) => p.vars.size

/-- Whether a handle is in range. -/
def contains (p : Program) (ref : Ref) : Bool :=
  ref.index.toNat < p.sizeFor ref

/-- The nodes that the items of a program own. -/
def roots (p : Program) : List Node :=
  (p.items.toList.flatMap Toplevel.refs).filterMap Ref.node?

/-- The handles that a node stores, none if it is out of range. -/
def refsOf (p : Program) : Node → List Ref
  | .stat id => ((p.stat? id).map Stat.refs).getD []
  | .expr id => ((p.expr? id).map (·.kind.refs)).getD []
  | .var id => ((p.var? id).map (·.kind.refs)).getD []

/-- The nodes that a node owns. -/
def children (p : Program) (node : Node) : List Node :=
  (p.refsOf node).filterMap Ref.node?

/-- The position of a node when all statements, expressions and variable forms are in one row. -/
def slot (p : Program) : Node → Nat
  | .stat id => id.index.toNat
  | .expr id => p.stats.size + id.index.toNat
  | .var id => p.stats.size + p.exprs.size + id.index.toNat

end Program

end Upvalue

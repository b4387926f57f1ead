import Upvalue.Program.Handles

/-!
This module contains the order in which the nodes of a program are visited. Visiting a node is a
list of actions, some of which visit other nodes. The list of a node does not depend on anything but
the node.
-/

namespace Upvalue.Boxing

/-- One step of a visit. -/
inductive Action where
  | visit (node : Node)
  /-- A variable is declared in the function that is being visited. -/
  | register (decl : DeclId)
  | initializer (decl : DeclId) (value : ExprId)
  | assign (target : VarId)
  | reference (name : VarId)
  | enter
  | leave
deriving DecidableEq, Repr

namespace Action

def stat (id : StatId) : Action := .visit (.stat id)

def expr (id : ExprId) : Action := .visit (.expr id)

def var (id : VarId) : Action := .visit (.var id)

def node? : Action → Option Node
  | .visit node => some node
  | _ => none

end Action

/-- What of a loop is visited first. -/
inductive LoopOrder where
  /-- A condition that stands behind the body can refer to the variables of the body. -/
  | bodyFirst
  | conditionFirst
deriving DecidableEq, Repr, Inhabited

def LoopOrder.plan (order : LoopOrder) (body condition : List Action) : List Action :=
  match order with
  | .bodyFirst => body ++ condition
  | .conditionFirst => condition ++ body

/-- Declare a group of functions: all names are known in all bodies. -/
def planFunctions (funcs : List FuncDef) : List Action :=
  funcs.map (.register ·.decl) ++ funcs.map (.expr ·.value)

/-- Declare names with the values at the same positions. Names without a value are only declared. -/
def planDecls : List DeclId → List ExprId → List Action
  | [], _ => []
  | decl :: decls, [] => .register decl :: planDecls decls []
  | decl :: decls, value :: values =>
    .register decl :: .initializer decl value :: planDecls decls values

def planBlock (block : Block) : List Action :=
  block.stats.map .stat

/-- The actions of an item. Only items with code have any. -/
def planItem : Toplevel → List Action
  | .stats _ ids => ids.map .stat
  | .functions _ funcs => planFunctions funcs
  | .record .. => []
  | .typealias .. => []

/-- The actions of a statement. Values are visited before the names they are for are declared. -/
def planStat (order : LoopOrder) : Stat → List Action
  | .decl _ decls exps => exps.map .expr ++ planDecls decls exps
  | .assign _ vars exps => vars.flatMap (fun var => [.assign var, .var var]) ++ exps.map .expr
  | .functions _ funcs => planFunctions funcs
  | .ret _ exps => exps.map .expr
  | .block _ body => planBlock body
  | .whileLoop _ condition body => order.plan (planBlock body) [.expr condition]
  | .repeatLoop _ body condition => order.plan (planBlock body) [.expr condition]
  | .branch _ condition thenBlock elseBlock =>
    .expr condition :: (planBlock thenBlock ++ elseBlock.toList.flatMap planBlock)
  | .forNum _ decl start limit step body =>
    .expr start :: .expr limit :: (step.toList.map .expr ++ .register decl :: planBlock body)
  | .forIn _ decls exps body => exps.map .expr ++ decls.map .register ++ planBlock body
  | .call _ exp => [.expr exp]
  | .breakLoop _ => []

def planExpr : ExprKind → List Action
  | .nil => []
  | .bool _ => []
  | .integer _ => []
  | .float _ => []
  | .string _ => []
  | .initList fields => fields.map fun field => .expr field.exp
  | .lambda params body => .enter :: (params.map .register ++ planBlock body ++ [.leave])
  | .call callee args => .expr callee :: args.map .expr
  | .methodCall receiver _ args => .expr receiver :: args.map .expr
  | .var id => [.var id]
  | .unop _ exp => [.expr exp]
  | .binop lhs _ rhs => [.expr lhs, .expr rhs]
  | .cast exp _ => [.expr exp]
  | .toFloat exp => [.expr exp]
  | .paren exp => [.expr exp]

def planVar (id : VarId) : VarKind → List Action
  | .name _ _ => [.reference id]
  | .dot exp _ => [.expr exp]
  | .bracket table key => [.expr table, .expr key]

/-- The actions of a node, `none` if it is out of range. -/
def plan? (order : LoopOrder) (p : Program) : Node → Option (List Action)
  | .stat id => (p.stat? id).map (planStat order)
  | .expr id => (p.expr? id).map (planExpr ·.kind)
  | .var id => (p.var? id).map (planVar id ·.kind)

def planProgram (p : Program) : List Action :=
  p.items.toList.flatMap planItem

end Upvalue.Boxing

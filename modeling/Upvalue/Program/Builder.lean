import Upvalue.Program.Handles

/-!
This module contains the construction of programs node by node. Every node gets the location that is
set at the time, names get the type of their declaration, and function literals the types of their
parameters.
-/

namespace Upvalue

/-- A program under construction. -/
structure Builder where
  program : Program
  loc : Span
deriving Repr

/-- A part of a construction. It fails, and changes nothing, if a handle is out of range. -/
abbrev Build := EStateM Ref Builder

namespace Builder

def empty : Builder := ⟨Program.empty, Span.dummy⟩

instance : Inhabited Builder := ⟨empty⟩

/-- Register the path of a source text. Returns the file of the spans in it. -/
def file (path : String) : Build UInt32 := fun b =>
  .ok (UInt32.ofNat b.program.files.size)
    { b with program := { b.program with files := b.program.files.push path } }

/-- Set the location of the nodes that are built from now on. -/
def setLoc (loc : Span) : Build Unit := fun b =>
  .ok () { b with loc := loc }

/-- The program that has been built. -/
def finish (b : Builder) : Program := b.program

/-! ### Declarations -/

def getDecl (id : DeclId) : Build Decl := fun b =>
  match b.program.decl? id with
  | some decl => .ok decl b
  | none => .error (.decl id) b

def setDecl (id : DeclId) (decl : Decl) : Build Unit := fun b =>
  .ok () { b with program := b.program.setDecl id decl }

def decl (name : String) (ty : Ty) : Build DeclId := fun b =>
  .ok b.program.nextDecl { b with program := b.program.addDecl ⟨name, none, b.loc, ty, false⟩ }

def annotatedDecl (name : String) (written : TypeExpr) (ty : Ty) : Build DeclId := do
  let id ← decl name ty
  let made ← getDecl id
  setDecl id { made with written := some written }
  return id

def exportedDecl (name : String) (ty : Ty) : Build DeclId := do
  let id ← decl name ty
  let made ← getDecl id
  setDecl id { made with exported := true }
  return id

/-! ### Variable forms -/

def addVar (kind : VarKind) (ty : Ty) : Build VarId := fun b =>
  .ok b.program.nextVar { b with program := b.program.addVar ⟨b.loc, ty, kind⟩ }

def nameVar (id : DeclId) : Build VarId := do
  let decl ← getDecl id
  addVar (.name decl.name (.variable id)) decl.ty

def builtinVar (name : String) (ty : Ty) : Build VarId :=
  addVar (.name name (.builtin name)) ty

def dotVar (exp : ExprId) (field : String) (ty : Ty) : Build VarId :=
  addVar (.dot exp field) ty

def bracketVar (table key : ExprId) (ty : Ty) : Build VarId :=
  addVar (.bracket table key) ty

/-! ### Expressions -/

def addExpr (kind : ExprKind) (ty : Ty) : Build ExprId := fun b =>
  .ok b.program.nextExpr { b with program := b.program.addExpr ⟨b.loc, ty, kind⟩ }

def nil : Build ExprId :=
  addExpr .nil .nil

def boolean (value : Bool) : Build ExprId :=
  addExpr (.bool value) .boolean

def integer (value : Int64) : Build ExprId :=
  addExpr (.integer value) .integer

def float (value : Binary64) : Build ExprId :=
  addExpr (.float value) .float

def string (value : String) : Build ExprId :=
  addExpr (.string value) .string

def varExpr (id : VarId) : Build ExprId := fun b =>
  match b.program.var? id with
  | some var => addExpr (.var id) var.ty b
  | none => .error (.var id) b

def name (id : DeclId) : Build ExprId := do
  let var ← nameVar id
  varExpr var

def initList (fields : List InitField) (ty : Ty) : Build ExprId :=
  addExpr (.initList fields) ty

def lambda (params : List DeclId) (body : List StatId) (returns : List Ty) : Build ExprId := do
  let decls ← params.mapM getDecl
  addExpr (.lambda params ⟨body⟩) (.function (decls.map Decl.ty) returns)

def call (callee : ExprId) (args : List ExprId) (ty : Ty) : Build ExprId :=
  addExpr (.call callee args) ty

def methodCall (receiver : ExprId) (method : String) (args : List ExprId) (ty : Ty) :
    Build ExprId :=
  addExpr (.methodCall receiver method args) ty

def unop (op : UnaryOp) (exp : ExprId) (ty : Ty) : Build ExprId :=
  addExpr (.unop op exp) ty

def binop (lhs : ExprId) (op : BinaryOp) (rhs : ExprId) (ty : Ty) : Build ExprId :=
  addExpr (.binop lhs op rhs) ty

def cast (exp : ExprId) (target : Option TypeExpr) (ty : Ty) : Build ExprId :=
  addExpr (.cast exp target) ty

def toFloat (exp : ExprId) : Build ExprId :=
  addExpr (.toFloat exp) .float

def paren (id : ExprId) : Build ExprId := fun b =>
  match b.program.expr? id with
  | some exp => addExpr (.paren id) exp.ty b
  | none => .error (.expr id) b

/-! ### Statements -/

def addStat (make : Span → Stat) : Build StatId := fun b =>
  .ok b.program.nextStat { b with program := b.program.addStat (make b.loc) }

/-- The functions of a group, from their names and values. -/
def funcDefs (loc : Span) (funcs : List (DeclId × ExprId)) : List FuncDef :=
  funcs.map fun (decl, value) => ⟨loc, decl, value⟩

def declare (decls : List DeclId) (exps : List ExprId) : Build StatId :=
  addStat (.decl · decls exps)

def assign (vars : List VarId) (exps : List ExprId) : Build StatId :=
  addStat (.assign · vars exps)

def functions (funcs : List (DeclId × ExprId)) : Build StatId :=
  addStat fun loc => .functions loc (funcDefs loc funcs)

def ret (exps : List ExprId) : Build StatId :=
  addStat (.ret · exps)

def block (stats : List StatId) : Build StatId :=
  addStat (.block · ⟨stats⟩)

def whileLoop (condition : ExprId) (body : List StatId) : Build StatId :=
  addStat (.whileLoop · condition ⟨body⟩)

def repeatLoop (body : List StatId) (condition : ExprId) : Build StatId :=
  addStat (.repeatLoop · ⟨body⟩ condition)

def branch (condition : ExprId) (thenBody : List StatId) (elseBody : Option (List StatId)) :
    Build StatId :=
  addStat (.branch · condition ⟨thenBody⟩ (elseBody.map Block.mk))

def forNum (decl : DeclId) (start limit : ExprId) (step : Option ExprId) (body : List StatId) :
    Build StatId :=
  addStat (.forNum · decl start limit step ⟨body⟩)

def forIn (decls : List DeclId) (exps : List ExprId) (body : List StatId) : Build StatId :=
  addStat (.forIn · decls exps ⟨body⟩)

def callStat (call : ExprId) : Build StatId :=
  addStat (.call · call)

def breakLoop : Build StatId :=
  addStat .breakLoop

/-! ### Items -/

def addItem (make : Span → Toplevel) : Build Unit := fun b =>
  .ok () { b with program := b.program.addItem (make b.loc) }

def statsItem (stats : List StatId) : Build Unit :=
  addItem (.stats · stats)

def functionsItem (funcs : List (DeclId × ExprId)) : Build Unit :=
  addItem fun loc => .functions loc (funcDefs loc funcs)

/-- Declare a record. Returns its type. -/
def record (name : String) (fields : List (String × Ty)) : Build Ty := do
  let ty := Ty.record name fields false
  addItem (.record · name (fields.map fun (field, ty) => ⟨field, none, ty⟩) ty)
  return ty

def typealias (name : String) (written : TypeExpr) (ty : Ty) : Build Unit :=
  addItem (.typealias · name written ty)

end Builder

end Upvalue

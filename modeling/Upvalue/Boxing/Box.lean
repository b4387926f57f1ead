import Upvalue.Program.Basic

/-!
This module contains boxes. A box is a record with a single field, in which a variable lives that
several functions share. Applying a box to a program gives the declaration the type of the box,
makes a box of its initializer and turns every name that refers to the variable into an access to
the field.
-/

namespace Upvalue

/-- A variable that is moved into a box. -/
structure Box where
  decl : DeclId
  name : String
  loc : Span
  /-- The position of the box among the boxes of the program, from `1`. -/
  number : Nat
  /-- The name of the field that holds the value. -/
  field : String
  valueTy : Ty
  /-- The expression that the variable is initialized with. -/
  initializer : ExprId
  /-- The names that refer to the variable, in the order they were met in. -/
  references : Array VarId
deriving Repr

namespace Box

def typeName (b : Box) : String :=
  "$" ++ b.name ++ "_box" ++ toString b.number

def ty (b : Box) : Ty :=
  Ty.box b.typeName b.field b.valueTy

/-- The item that declares the type of a box. -/
def item (b : Box) : Toplevel :=
  .record b.loc b.typeName [⟨b.field, none, b.valueTy⟩] b.ty

/-- Give the declaration of the variable the type of the box. -/
def retype (b : Box) (p : Program) : Program :=
  match p.decl? b.decl with
  | some decl => p.setDecl b.decl { decl with ty := b.ty }
  | none => p

/--
Make a box of the initializer. The value moves to a new slot, so that the slot that the declaration
refers to holds the constructor.
-/
def wrap (b : Box) (p : Program) : Program :=
  match p.expr? b.initializer with
  | some value =>
    (p.addExpr value).setExpr b.initializer
      ⟨value.loc, b.ty, .initList [⟨some b.field, p.nextExpr⟩]⟩
  | none => p

/--
Turn a name into an access to the field. The name moves to a new slot and takes the type of the box,
the access has the type of the value.
-/
def access (b : Box) (p : Program) (id : VarId) : Program :=
  match p.var? id with
  | some var =>
    ((p.addVar ⟨var.loc, b.ty, var.kind⟩).addExpr ⟨var.loc, b.ty, .var p.nextVar⟩).setVar id
      ⟨var.loc, b.valueTy, .dot p.nextExpr b.field⟩
  | none => p

/-- Move a variable into its box, everywhere in a program but in the list of its items. -/
def apply (b : Box) (p : Program) : Program :=
  b.references.foldl b.access (b.wrap (b.retype p))

end Box

end Upvalue

/-!
This module contains the types that a checker has resolved, and type expressions as they are written
in a source text.
-/

namespace Upvalue

/--
A resolved type. A record is nominal: it carries its fields so that no table of types is needed, but
its name alone tells it apart.
-/
inductive Ty where
  | any
  | nil
  | boolean
  | integer
  | float
  | string
  | function (params returns : List Ty)
  | array (element : Ty)
  | table (fields : List (String × Ty))
  /-- `isBox` marks the one-field records that hold captured, reassigned variables. -/
  | record (name : String) (fields : List (String × Ty)) (isBox : Bool)
deriving Repr, Inhabited

namespace Ty

/-- The record with a single field that stores a captured variable. -/
def box (name field : String) (ty : Ty) : Ty :=
  .record name [(field, ty)] true

def recordName? : Ty → Option String
  | .record name _ _ => some name
  | _ => none

/-- Whether a type is a record made for a captured variable. -/
def isBox : Ty → Bool
  | .record _ _ isBox => isBox
  | _ => false

/-- The type of the first field of a record with a given name. -/
def fieldType? (ty : Ty) (field : String) : Option Ty :=
  match ty with
  | .record _ fields _ => fields.lookup field
  | _ => none

mutual

/-- Equality of types, where two records are equal if their names are. -/
def same : Ty → Ty → Bool
  | .any, .any => true
  | .nil, .nil => true
  | .boolean, .boolean => true
  | .integer, .integer => true
  | .float, .float => true
  | .string, .string => true
  | .function params returns, .function params' returns' =>
    sameList params params' && sameList returns returns'
  | .array element, .array element' => same element element'
  | .table fields, .table fields' => sameFields fields fields'
  | .record name _ _, .record name' _ _ => name == name'
  | _, _ => false

def sameList : List Ty → List Ty → Bool
  | [], [] => true
  | ty :: tys, ty' :: tys' => same ty ty' && sameList tys tys'
  | _, _ => false

/-- Equality of lists of fields. Names and order count. -/
def sameFields : List (String × Ty) → List (String × Ty) → Bool
  | [], [] => true
  | (name, ty) :: fields, (name', ty') :: fields' =>
    name == name' && same ty ty' && sameFields fields fields'
  | _, _ => false

end

mutual

def text : Ty → String
  | .any => "any"
  | .nil => "nil"
  | .boolean => "boolean"
  | .integer => "integer"
  | .float => "float"
  | .string => "string"
  | .function params [ret] => "(" ++ textList params ++ ") -> " ++ text ret
  | .function params returns => "(" ++ textList params ++ ") -> (" ++ textList returns ++ ")"
  | .array element => "\x7b " ++ text element ++ " \x7d"
  | .table fields => "\x7b " ++ textFields fields ++ " \x7d"
  | .record name _ _ => name

def textList : List Ty → String
  | [] => ""
  | [ty] => text ty
  | ty :: tys => text ty ++ ", " ++ textList tys

/-- The texts of the fields of a table, separated by commas. -/
def textFields : List (String × Ty) → String
  | [] => ""
  | [(name, ty)] => name ++ ": " ++ text ty
  | (name, ty) :: fields => name ++ ": " ++ text ty ++ ", " ++ textFields fields

end

@[simp]
theorem isBox_box (name field : String) (ty : Ty) : (box name field ty).isBox = true := rfl

@[simp]
theorem recordName?_box (name field : String) (ty : Ty) :
    (box name field ty).recordName? = some name := rfl

@[simp]
theorem fieldType?_box (name field : String) (ty : Ty) :
    (box name field ty).fieldType? field = some ty := by
  simp [box, fieldType?]

end Ty

/-- A type expression of a source text. -/
inductive TypeExpr where
  | nil
  | named (name : String)
  | array (element : TypeExpr)
  | table (fields : List (String × TypeExpr))
  | function (params returns : List TypeExpr)
deriving Repr, Inhabited

namespace TypeExpr

mutual

/-- Equality of type expressions, which may be tested. -/
def same : TypeExpr → TypeExpr → Bool
  | .nil, .nil => true
  | .named name, .named name' => name == name'
  | .array element, .array element' => same element element'
  | .table fields, .table fields' => sameFields fields fields'
  | .function params returns, .function params' returns' =>
    sameList params params' && sameList returns returns'
  | _, _ => false

def sameList : List TypeExpr → List TypeExpr → Bool
  | [], [] => true
  | expr :: exprs, expr' :: exprs' => same expr expr' && sameList exprs exprs'
  | _, _ => false

/-- Equality of lists of fields. Names and order count. -/
def sameFields : List (String × TypeExpr) → List (String × TypeExpr) → Bool
  | [], [] => true
  | (name, expr) :: fields, (name', expr') :: fields' =>
    name == name' && same expr expr' && sameFields fields fields'
  | _, _ => false

end

end TypeExpr

end Upvalue

import Upvalue.Ty.Basic

/-!
This module contains the proof that the equality of types is an equivalence, although it compares
records by their names only.
-/

namespace Upvalue.Ty

mutual

/-- A type without what does not count for its equality: records have nothing but their names. -/
def nominal : Ty → Ty
  | .function params returns => .function (nominalList params) (nominalList returns)
  | .array element => .array (nominal element)
  | .table fields => .table (nominalFields fields)
  | .record name _ _ => .record name [] false
  | ty => ty

def nominalList : List Ty → List Ty
  | [] => []
  | ty :: tys => nominal ty :: nominalList tys

def nominalFields : List (String × Ty) → List (String × Ty)
  | [] => []
  | (name, ty) :: fields => (name, nominal ty) :: nominalFields fields

end

mutual

theorem same_iff : ∀ ty ty' : Ty, same ty ty' = true ↔ nominal ty = nominal ty'
  | .any, ty' | .nil, ty' | .boolean, ty' | .integer, ty' | .float, ty' | .string, ty' => by
    cases ty' <;> simp [same, nominal]
  | .function params returns, ty' => by
    cases ty' <;> simp [same, nominal, sameList_iff params, sameList_iff returns]
  | .array element, ty' => by
    cases ty' <;> simp [same, nominal, same_iff element]
  | .table fields, ty' => by
    cases ty' <;> simp [same, nominal, sameFields_iff fields]
  | .record name _ _, ty' => by
    cases ty' <;> simp [same, nominal]

theorem sameList_iff : ∀ tys tys' : List Ty,
    sameList tys tys' = true ↔ nominalList tys = nominalList tys'
  | [], tys' => by
    cases tys' <;> simp [sameList, nominalList]
  | ty :: tys, tys' => by
    cases tys' <;> simp [sameList, nominalList, same_iff ty, sameList_iff tys]

theorem sameFields_iff : ∀ fields fields' : List (String × Ty),
    sameFields fields fields' = true ↔ nominalFields fields = nominalFields fields'
  | [], fields' => by
    cases fields' <;> simp [sameFields, nominalFields]
  | (name, ty) :: fields, fields' => by
    cases fields' <;>
      simp [sameFields, nominalFields, same_iff ty, sameFields_iff fields, and_assoc]

end

theorem equivalence_same : Equivalence fun ty ty' => same ty ty' = true := by
  constructor
  . intro ty
    rw [same_iff]
  . intro ty ty' h
    rw [same_iff] at h ⊢
    exact h.symm
  . intro ty ty' ty'' h h'
    rw [same_iff] at h h' ⊢
    exact h.trans h'

end Upvalue.Ty

import Upvalue.Proofs.Boxing.Box

/-!
This module contains the slots of a program after several boxes were applied to it, each of them to
slots of its own. What a box has written is not touched by the other boxes: they overwrite slots of
the first program, and what is new stands behind these slots.
-/

namespace Upvalue

namespace Box

/-- The slots that a box overwrites are there. -/
structure Fits (p : Program) (b : Box) : Prop where
  initializer : b.initializer.index.toNat < p.exprs.size
  references : ∀ id ∈ b.references, id.index.toNat < p.vars.size

theorem fits_of_contains {p : Program} {b : Box}
    (hinitializer : p.contains (.node (.expr b.initializer)) = true)
    (hreferences : ∀ id ∈ b.references, p.contains (.node (.var id)) = true) : b.Fits p :=
  ⟨of_decide_eq_true hinitializer, fun id hid => of_decide_eq_true (hreferences id hid)⟩

/-- The slot of the initializer holds the constructor of the box, and the value has a new slot. -/
def Wrapped (p q : Program) (b : Box) (value : Expr) : Prop :=
  ∃ moved : ExprId, p.exprs.size ≤ moved.index.toNat ∧
    q.expr? b.initializer = some ⟨value.loc, b.ty, .initList [⟨some b.field, moved⟩]⟩ ∧
    q.expr? moved = some value

/-- The slot of a name holds the access to the field, and the name has a new slot. -/
def Accessed (p q : Program) (b : Box) (id : VarId) (var : Var) : Prop :=
  ∃ (base : ExprId) (name : VarId), p.exprs.size ≤ base.index.toNat ∧
    p.vars.size ≤ name.index.toNat ∧ q.var? id = some ⟨var.loc, b.valueTy, .dot base b.field⟩ ∧
    q.expr? base = some ⟨var.loc, b.ty, .var name⟩ ∧ q.var? name = some ⟨var.loc, b.ty, var.kind⟩

variable {p q : Program} {b b' : Box}

section Size

variable (b)

theorem size_foldl_access_le {f : Program → Nat} (hf : ∀ p id, f p ≤ f (b.access p id))
    (p : Program) (ids : List VarId) : f p ≤ f (ids.foldl b.access p) := by
  induction ids generalizing p with
  | nil => exact Nat.le_refl _
  | cons id ids ih =>
    have haccess := hf p id
    have hrest := ih (b.access p id)
    rw [List.foldl_cons]
    omega

theorem size_exprs_apply_le : p.exprs.size ≤ (b.apply p).exprs.size := by
  have hwrap := b.size_exprs_wrap_le (p := b.retype p)
  have haccess := b.size_foldl_access_le (f := fun p => p.exprs.size)
    (fun p id => b.size_exprs_access_le id) (b.wrap (b.retype p)) b.references.toList
  rw [exprs_retype] at hwrap
  rw [apply_eq]
  omega

theorem size_vars_apply_le : p.vars.size ≤ (b.apply p).vars.size := by
  have haccess := b.size_foldl_access_le (f := fun p => p.vars.size)
    (fun p id => b.size_vars_access_le id) (b.wrap (b.retype p)) b.references.toList
  rw [vars_wrap, vars_retype] at haccess
  rw [apply_eq]
  omega

end Size

section Wrapped

variable {value : Expr}

theorem Wrapped.apply (h : Wrapped p q b value) (hfits : b'.Fits p)
    (hne : b.initializer ≠ b'.initializer) : Wrapped p (b'.apply q) b value := by
  rcases h with ⟨moved, hmoved, hwrapper, hvalue⟩
  refine ⟨moved, hmoved, ?_, ?_⟩
  . apply expr?_apply_of_ne _ hne
    exact hwrapper
  . apply expr?_apply_of_ne
    . rintro rfl
      have := hfits.initializer
      omega
    . exact hvalue

theorem Wrapped.foldl_access (h : Wrapped p q b value) (ids : List VarId) :
    Wrapped p (ids.foldl b'.access q) b value := by
  rcases h with ⟨moved, hmoved, hwrapper, hvalue⟩
  exact ⟨moved, hmoved, b'.expr?_foldl_access hwrapper, b'.expr?_foldl_access hvalue⟩

theorem wrapped_apply (hfit : (b.apply q).Addressable) (hsize : p.exprs.size ≤ q.exprs.size)
    (hvalue : q.expr? b.initializer = some value) : Wrapped p (b.apply q) b value := by
  rw [apply_eq] at hfit ⊢
  apply Wrapped.foldl_access
  have hfit' := b.addressable_of_foldl_access hfit
  have hvalue' : (b.retype q).expr? b.initializer = some value := by
    rw [expr?_retype, hvalue]
  have hlt := b.size_exprs_lt_of_wrap hfit' hvalue'
  have hnext := (b.retype q).toNat_nextExpr hlt
  have hne : (b.retype q).nextExpr ≠ b.initializer := by
    intro heq
    rw [← heq, Program.expr?_nextExpr _ hlt] at hvalue'
    cases hvalue'
  refine ⟨(b.retype q).nextExpr, ?_, ?_, ?_⟩
  . rw [hnext, exprs_retype]
    exact hsize
  . rw [b.expr?_wrap hlt hvalue', if_pos rfl]
  . rw [b.expr?_wrap hlt hvalue', if_neg hne, if_pos rfl]

end Wrapped

section Accessed

variable {id : VarId} {var : Var}

theorem Accessed.access (h : Accessed p q b id var) {i : VarId}
    (hi : i.index.toNat < p.vars.size) (hne : id ≠ i) : Accessed p (b'.access q i) b id var := by
  rcases h with ⟨base, name, hbase, hname, haccess, hbase', hname'⟩
  refine ⟨base, name, hbase, hname, ?_, ?_, ?_⟩
  . exact b'.var?_access_of_ne hne haccess
  . exact b'.exprs_access hbase'
  . apply b'.var?_access_of_ne _ hname'
    rintro rfl
    omega

theorem Accessed.foldl_access (h : Accessed p q b id var) {ids : List VarId}
    (hids : ∀ i ∈ ids, i.index.toNat < p.vars.size) (hne : id ∉ ids) :
    Accessed p (ids.foldl b'.access q) b id var := by
  induction ids generalizing q with
  | nil => exact h
  | cons i ids ih =>
    rw [List.mem_cons, not_or] at hne
    rw [List.forall_mem_cons] at hids
    apply ih _ hids.2 hne.2
    exact h.access hids.1 hne.1

theorem Accessed.apply (h : Accessed p q b id var) (hfits : b'.Fits p) (hne : id ∉ b'.references) :
    Accessed p (b'.apply q) b id var := by
  rw [apply_eq]
  apply Accessed.foldl_access
  . rcases h with ⟨base, name, hbase, hname, haccess, hbase', hname'⟩
    refine ⟨base, name, hbase, hname, ?_, ?_, ?_⟩
    . rw [var?_wrap, var?_retype, haccess]
    . apply b'.exprs_wrap_of_ne
      . have := hfits.initializer
        omega
      . rw [exprs_retype]
        exact hbase'
    . rw [var?_wrap, var?_retype, hname']
  . intro i hi
    exact hfits.references i (Array.mem_toList_iff.mp hi)
  . rwa [Array.mem_toList_iff]

theorem accessed_access (hfit : (b.access q id).Addressable) (hexprs : p.exprs.size ≤ q.exprs.size)
    (hvars : p.vars.size ≤ q.vars.size) (hvar : q.var? id = some var) :
    Accessed p (b.access q id) b id var := by
  have hlt := b.size_exprs_lt_of_access hfit hvar
  have hlt' := b.size_vars_lt_of_access hfit hvar
  have hne : q.nextVar ≠ id := by
    rintro rfl
    rw [Program.var?_nextVar _ hlt'] at hvar
    cases hvar
  refine ⟨q.nextExpr, q.nextVar, ?_, ?_, ?_, ?_, ?_⟩
  . rw [Program.toNat_nextExpr _ hlt]
    exact hexprs
  . rw [Program.toNat_nextVar _ hlt']
    exact hvars
  . rw [b.var?_access_eq hlt' hvar, if_pos rfl]
  . rw [b.expr?_access_eq hlt hvar, if_pos rfl]
  . rw [b.var?_access_eq hlt' hvar, if_neg hne, if_pos rfl]

theorem accessed_foldl_access {ids : List VarId} (hfit : (ids.foldl b.access q).Addressable)
    (hexprs : p.exprs.size ≤ q.exprs.size) (hvars : p.vars.size ≤ q.vars.size)
    (hids : ∀ i ∈ ids, i.index.toNat < p.vars.size) (hnodup : ids.Nodup) (hid : id ∈ ids)
    (hvar : q.var? id = some var) : Accessed p (ids.foldl b.access q) b id var := by
  induction ids generalizing q with
  | nil => cases hid
  | cons i ids ih =>
    rw [List.nodup_cons] at hnodup
    rw [List.forall_mem_cons] at hids
    rw [List.foldl_cons] at hfit ⊢
    rw [List.mem_cons] at hid
    rcases hid with rfl | hid
    . apply Accessed.foldl_access _ hids.2 hnodup.1
      exact accessed_access (b.addressable_of_foldl_access hfit) hexprs hvars hvar
    . have hne : id ≠ i := by
        rintro rfl
        exact hnodup.1 hid
      have hexprs' := b.size_exprs_access_le (p := q) i
      have hvars' := b.size_vars_access_le (p := q) i
      apply ih hfit (by omega) (by omega) hids.2 hnodup.2 hid
      exact b.var?_access_of_ne hne hvar

theorem accessed_apply (hfit : (b.apply q).Addressable) (hfits : b.Fits p)
    (hexprs : p.exprs.size ≤ q.exprs.size) (hvars : p.vars.size ≤ q.vars.size)
    (hnodup : b.references.toList.Nodup) (hid : id ∈ b.references) (hvar : q.var? id = some var) :
    Accessed p (b.apply q) b id var := by
  have hwrap := b.size_exprs_wrap_le (p := b.retype q)
  rw [exprs_retype] at hwrap
  rw [apply_eq] at hfit ⊢
  apply accessed_foldl_access hfit (by omega) _ _ hnodup (Array.mem_toList_iff.mpr hid)
  . rw [var?_wrap, var?_retype, hvar]
  . rw [vars_wrap, vars_retype]
    exact hvars
  . intro i hi
    exact hfits.references i (Array.mem_toList_iff.mp hi)

end Accessed

section Boxes

variable {boxes : List Box}

theorem Wrapped.foldl_apply {value : Expr} (h : Wrapped p q b value)
    (hfits : ∀ b' ∈ boxes, b'.Fits p) (hne : ∀ b' ∈ boxes, b.initializer ≠ b'.initializer) :
    Wrapped p (boxes.foldl (fun q b => b.apply q) q) b value := by
  induction boxes generalizing q with
  | nil => exact h
  | cons b' boxes ih =>
    rw [List.forall_mem_cons] at hfits hne
    apply ih _ hfits.2 hne.2
    exact h.apply hfits.1 hne.1

theorem Accessed.foldl_apply {id : VarId} {var : Var} (h : Accessed p q b id var)
    (hfits : ∀ b' ∈ boxes, b'.Fits p) (hne : ∀ b' ∈ boxes, id ∉ b'.references) :
    Accessed p (boxes.foldl (fun q b => b.apply q) q) b id var := by
  induction boxes generalizing q with
  | nil => exact h
  | cons b' boxes ih =>
    rw [List.forall_mem_cons] at hfits hne
    apply ih _ hfits.2 hne.2
    exact h.apply hfits.1 hne.1

/-- The value of every box is wrapped in the end. -/
theorem wrapped_foldl_apply (hfit : (boxes.foldl (fun q b => b.apply q) q).Addressable)
    (hsize : p.exprs.size ≤ q.exprs.size) (hfits : ∀ b ∈ boxes, b.Fits p)
    (hapart : (boxes.map Box.initializer).Nodup) (hb : b ∈ boxes) {value : Expr}
    (hvalue : q.expr? b.initializer = some value) :
    Wrapped p (boxes.foldl (fun q b => b.apply q) q) b value := by
  induction boxes generalizing q with
  | nil => cases hb
  | cons b' boxes ih =>
    rw [List.map_cons, List.nodup_cons, List.mem_map] at hapart
    rw [List.forall_mem_cons] at hfits
    rw [List.foldl_cons] at hfit ⊢
    rw [List.mem_cons] at hb
    rcases hb with rfl | hb
    . have hself := wrapped_apply (addressable_of_foldl_apply hfit) hsize hvalue
      apply hself.foldl_apply hfits.2
      intro b' hb' heq
      exact hapart.1 ⟨b', hb', heq.symm⟩
    . have hne : b.initializer ≠ b'.initializer := by
        intro heq
        exact hapart.1 ⟨b, hb, heq⟩
      have hsize' := b'.size_exprs_apply_le (p := q)
      apply ih hfit (by omega) hfits.2 hapart.2 hb
      exact b'.expr?_apply_of_ne hne hvalue

/-- The names of every box are accesses in the end. -/
theorem accessed_foldl_apply (hfit : (boxes.foldl (fun q b => b.apply q) q).Addressable)
    (hexprs : p.exprs.size ≤ q.exprs.size) (hvars : p.vars.size ≤ q.vars.size)
    (hfits : ∀ b ∈ boxes, b.Fits p)
    (hapart : (boxes.flatMap fun b => b.references.toList).Nodup) (hb : b ∈ boxes) {id : VarId}
    (hid : id ∈ b.references) {var : Var} (hvar : q.var? id = some var) :
    Accessed p (boxes.foldl (fun q b => b.apply q) q) b id var := by
  induction boxes generalizing q with
  | nil => cases hb
  | cons b' boxes ih =>
    rw [List.flatMap_cons, List.nodup_append] at hapart
    rw [List.forall_mem_cons] at hfits
    rw [List.foldl_cons] at hfit ⊢
    rw [List.mem_cons] at hb
    rcases hb with rfl | hb
    . have hself := accessed_apply (addressable_of_foldl_apply hfit) hfits.1 hexprs hvars hapart.1
        hid hvar
      apply hself.foldl_apply hfits.2
      intro b' hb' hid'
      apply hapart.2.2 id (Array.mem_toList_iff.mpr hid) id _ rfl
      rw [List.mem_flatMap]
      exact ⟨b', hb', Array.mem_toList_iff.mpr hid'⟩
    . have hne : id ∉ b'.references := by
        intro hid'
        apply hapart.2.2 id (Array.mem_toList_iff.mpr hid') id _ rfl
        rw [List.mem_flatMap]
        exact ⟨b, hb, Array.mem_toList_iff.mpr hid⟩
      have hexprs' := b'.size_exprs_apply_le (p := q)
      have hvars' := b'.size_vars_apply_le (p := q)
      apply ih hfit (by omega) (by omega) hfits.2 hapart.2.1 hb
      exact b'.var?_apply_of_not_mem hne hvar

end Boxes

end Box

end Upvalue

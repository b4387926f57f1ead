import Upvalue.Boxing.Box
import Upvalue.Proofs.Program.Content

/-!
This module contains what the steps of a box do to the slots of a program. The slots that are added
need handles of their own, everything else holds for programs of any size.
-/

namespace Upvalue

/--
Every expression and every variable form has a handle. Handles have 32 bits, so that larger arenas
have slots that cannot be referred to.
-/
def Program.Addressable (p : Program) : Prop :=
  p.exprs.size ≤ UInt32.size ∧ p.vars.size ≤ UInt32.size

instance (p : Program) : Decidable p.Addressable :=
  inferInstanceAs (Decidable (_ ∧ _))

namespace Box

variable (b : Box) {p : Program}

section Frame

@[simp]
theorem files_retype : (b.retype p).files = p.files := by
  unfold retype
  split <;> rfl

@[simp]
theorem files_wrap : (b.wrap p).files = p.files := by
  unfold wrap
  split <;> rfl

@[simp]
theorem files_access (id : VarId) : (b.access p id).files = p.files := by
  unfold access
  split <;> rfl

@[simp]
theorem items_retype : (b.retype p).items = p.items := by
  unfold retype
  split <;> rfl

@[simp]
theorem items_wrap : (b.wrap p).items = p.items := by
  unfold wrap
  split <;> rfl

@[simp]
theorem items_access (id : VarId) : (b.access p id).items = p.items := by
  unfold access
  split <;> rfl

@[simp]
theorem stats_retype : (b.retype p).stats = p.stats := by
  unfold retype
  split <;> rfl

@[simp]
theorem stats_wrap : (b.wrap p).stats = p.stats := by
  unfold wrap
  split <;> rfl

@[simp]
theorem stats_access (id : VarId) : (b.access p id).stats = p.stats := by
  unfold access
  split <;> rfl

@[simp]
theorem exprs_retype : (b.retype p).exprs = p.exprs := by
  unfold retype
  split <;> rfl

@[simp]
theorem vars_retype : (b.retype p).vars = p.vars := by
  unfold retype
  split <;> rfl

@[simp]
theorem vars_wrap : (b.wrap p).vars = p.vars := by
  unfold wrap
  split <;> rfl

@[simp]
theorem decls_wrap : (b.wrap p).decls = p.decls := by
  unfold wrap
  split <;> rfl

@[simp]
theorem decls_access (id : VarId) : (b.access p id).decls = p.decls := by
  unfold access
  split <;> rfl

@[simp]
theorem size_decls_retype : (b.retype p).decls.size = p.decls.size := by
  unfold retype
  split
  . apply Array.size_setIfInBounds
  . rfl

theorem size_exprs_wrap_le : p.exprs.size ≤ (b.wrap p).exprs.size := by
  unfold wrap
  split
  . dsimp only [Program.setExpr, Program.addExpr]
    rw [Array.size_setIfInBounds, Array.size_push]
    omega
  . omega

theorem size_exprs_access_le (id : VarId) : p.exprs.size ≤ (b.access p id).exprs.size := by
  unfold access
  split
  . dsimp only [Program.setVar, Program.addExpr, Program.addVar]
    rw [Array.size_push]
    omega
  . omega

theorem size_vars_access_le (id : VarId) : p.vars.size ≤ (b.access p id).vars.size := by
  unfold access
  split
  . dsimp only [Program.setVar, Program.addExpr, Program.addVar]
    rw [Array.size_setIfInBounds, Array.size_push]
    omega
  . omega

end Frame

section Kept

theorem exprs_wrap_of_ne {i : Nat} {expr : Expr} (hne : i ≠ b.initializer.index.toNat)
    (h : p.exprs[i]? = some expr) : (b.wrap p).exprs[i]? = some expr := by
  unfold wrap
  split
  . dsimp only [Program.setExpr, Program.addExpr]
    rw [Array.getElem?_setIfInBounds_ne hne.symm]
    exact Program.getElem?_push_of_some h
  . exact h

theorem exprs_access {id : VarId} {i : Nat} {expr : Expr} (h : p.exprs[i]? = some expr) :
    (b.access p id).exprs[i]? = some expr := by
  unfold access
  split
  . exact Program.getElem?_push_of_some h
  . exact h

theorem vars_access_of_ne {id : VarId} {i : Nat} {var : Var} (hne : i ≠ id.index.toNat)
    (h : p.vars[i]? = some var) : (b.access p id).vars[i]? = some var := by
  unfold access
  split
  . dsimp only [Program.setVar, Program.addExpr, Program.addVar]
    rw [Array.getElem?_setIfInBounds_ne hne.symm]
    exact Program.getElem?_push_of_some h
  . exact h

theorem exprs_foldl_access {ids : List VarId} {i : Nat} {expr : Expr}
    (h : p.exprs[i]? = some expr) : (ids.foldl b.access p).exprs[i]? = some expr := by
  induction ids generalizing p with
  | nil => exact h
  | cons id ids ih =>
    apply ih
    apply exprs_access
    exact h

theorem vars_foldl_access_of_ne {ids : List VarId} {i : Nat} {var : Var}
    (hne : ∀ id ∈ ids, i ≠ id.index.toNat) (h : p.vars[i]? = some var) :
    (ids.foldl b.access p).vars[i]? = some var := by
  induction ids generalizing p with
  | nil => exact h
  | cons id ids ih =>
    rw [List.forall_mem_cons] at hne
    apply ih hne.2
    apply vars_access_of_ne b hne.1
    exact h

theorem toNat_ne_of_expr {id id' : ExprId} (hne : id ≠ id') :
    id.index.toNat ≠ id'.index.toNat := by
  rw [Ne, UInt32.toNat_inj]
  exact fun heq => hne (congrArg ExprId.mk heq)

theorem toNat_ne_of_var {id id' : VarId} (hne : id ≠ id') : id.index.toNat ≠ id'.index.toNat := by
  rw [Ne, UInt32.toNat_inj]
  exact fun heq => hne (congrArg VarId.mk heq)

theorem expr?_foldl_access {ids : List VarId} {i : ExprId} {expr : Expr}
    (h : p.expr? i = some expr) : (ids.foldl b.access p).expr? i = some expr :=
  b.exprs_foldl_access h

theorem var?_access_of_ne {id i : VarId} {var : Var} (hne : i ≠ id) (h : p.var? i = some var) :
    (b.access p id).var? i = some var :=
  b.vars_access_of_ne (toNat_ne_of_var hne) h

theorem var?_foldl_access {ids : List VarId} {i : VarId} {var : Var} (hne : i ∉ ids)
    (h : p.var? i = some var) : (ids.foldl b.access p).var? i = some var := by
  apply b.vars_foldl_access_of_ne _ h
  intro id hid
  apply toNat_ne_of_var
  rintro rfl
  exact hne hid

/-- What an access leaves alone is the same after all of them. -/
theorem kept_foldl_access {α : Type} {f : Program → α} (hf : ∀ p id, f (b.access p id) = f p)
    (p : Program) (ids : List VarId) : f (ids.foldl b.access p) = f p := by
  induction ids generalizing p with
  | nil => rfl
  | cons id ids ih => rw [List.foldl_cons, ih, hf]

theorem apply_eq : b.apply p = b.references.toList.foldl b.access (b.wrap (b.retype p)) := by
  unfold apply
  rw [Array.foldl_toList]

@[simp]
theorem stats_apply : (b.apply p).stats = p.stats := by
  have hkept := b.kept_foldl_access (f := Program.stats) fun p id => b.stats_access id
  rw [apply_eq, hkept, stats_wrap, stats_retype]

@[simp]
theorem files_apply : (b.apply p).files = p.files := by
  have hkept := b.kept_foldl_access (f := Program.files) fun p id => b.files_access id
  rw [apply_eq, hkept, files_wrap, files_retype]

@[simp]
theorem items_apply : (b.apply p).items = p.items := by
  have hkept := b.kept_foldl_access (f := Program.items) fun p id => b.items_access id
  rw [apply_eq, hkept, items_wrap, items_retype]

theorem decls_apply : (b.apply p).decls = (b.retype p).decls := by
  have hkept := b.kept_foldl_access (f := Program.decls) fun p id => b.decls_access id
  rw [apply_eq, hkept, decls_wrap]

theorem stat?_apply (id : StatId) : (b.apply p).stat? id = p.stat? id := by
  unfold Program.stat?
  rw [stats_apply]

theorem expr?_retype (id : ExprId) : (b.retype p).expr? id = p.expr? id := by
  unfold Program.expr?
  rw [exprs_retype]

theorem var?_retype (id : VarId) : (b.retype p).var? id = p.var? id := by
  unfold Program.var?
  rw [vars_retype]

theorem var?_wrap (id : VarId) : (b.wrap p).var? id = p.var? id := by
  unfold Program.var?
  rw [vars_wrap]

theorem exprs_apply_of_ne {i : Nat} {expr : Expr} (hne : i ≠ b.initializer.index.toNat)
    (h : p.exprs[i]? = some expr) : (b.apply p).exprs[i]? = some expr := by
  rw [apply_eq]
  apply exprs_foldl_access
  apply exprs_wrap_of_ne b hne
  rw [exprs_retype]
  exact h

theorem vars_apply_of_ne {i : Nat} {var : Var} (hne : ∀ id ∈ b.references, i ≠ id.index.toNat)
    (h : p.vars[i]? = some var) : (b.apply p).vars[i]? = some var := by
  rw [apply_eq]
  apply vars_foldl_access_of_ne
  . intro id hid
    exact hne id (Array.mem_toList_iff.mp hid)
  . rw [vars_wrap, vars_retype]
    exact h

theorem expr?_apply_of_ne {id : ExprId} {expr : Expr} (hne : id ≠ b.initializer)
    (h : p.expr? id = some expr) : (b.apply p).expr? id = some expr :=
  b.exprs_apply_of_ne (toNat_ne_of_expr hne) h

theorem var?_apply_of_not_mem {id : VarId} {var : Var} (hne : id ∉ b.references)
    (h : p.var? id = some var) : (b.apply p).var? id = some var := by
  apply b.vars_apply_of_ne _ h
  intro id' hid
  apply toNat_ne_of_var
  rintro rfl
  exact hne hid

end Kept

section Added

theorem expr?_wrap {value : Expr} (hfit : p.exprs.size < UInt32.size)
    (h : p.expr? b.initializer = some value) (id : ExprId) :
    (b.wrap p).expr? id =
      if id = b.initializer then
        some ⟨value.loc, b.ty, .initList [⟨some b.field, p.nextExpr⟩]⟩
      else if id = p.nextExpr then some value
      else p.expr? id := by
  have hfresh := Program.expr?_nextExpr p hfit
  unfold wrap
  rw [h]
  dsimp only
  rw [Program.expr?_setExpr, Program.expr?_addExpr, Program.expr?_addExpr]
  split
  . split
    . rfl
    . rw [h]
      rfl
  . simp only [Program.toNat_eq_size_exprs_iff p hfit]

theorem expr?_access_eq {id : VarId} {var : Var} (hfit : p.exprs.size < UInt32.size)
    (h : p.var? id = some var) (i : ExprId) :
    (b.access p id).expr? i =
      if i = p.nextExpr then some ⟨var.loc, b.ty, .var p.nextVar⟩ else p.expr? i := by
  unfold access
  rw [h]
  dsimp only
  rw [Program.expr?_setVar, Program.expr?_addExpr, Program.expr?_addVar]
  dsimp only [Program.addVar]
  simp only [Program.toNat_eq_size_exprs_iff p hfit]

theorem var?_access_eq {id : VarId} {var : Var} (hfit : p.vars.size < UInt32.size)
    (h : p.var? id = some var) (i : VarId) :
    (b.access p id).var? i =
      if i = id then some ⟨var.loc, b.valueTy, .dot p.nextExpr b.field⟩
      else if i = p.nextVar then some ⟨var.loc, b.ty, var.kind⟩
      else p.var? i := by
  unfold access
  rw [h]
  dsimp only
  rw [Program.var?_setVar, Program.var?_addExpr, Program.var?_addExpr, Program.var?_addVar,
    Program.var?_addVar]
  split
  . split
    . rfl
    . rw [h]
      rfl
  . simp only [Program.toNat_eq_size_vars_iff p hfit]

end Added

section Fold

variable {boxes : List Box}

/-- The items of boxes hold no code. -/
theorem refs_of_mem_items {boxes : Array Box} {item : Toplevel} (h : item ∈ boxes.map Box.item) :
    item.refs = [] := by
  rcases Array.mem_map.mp h with ⟨b, -, rfl⟩
  rfl

/-- What a box leaves alone is the same after all of them. -/
theorem kept_foldl_apply {α : Type} {f : Program → α} (hf : ∀ (b : Box) p, f (b.apply p) = f p)
    (p : Program) : f (boxes.foldl (fun q b => b.apply q) p) = f p := by
  induction boxes generalizing p with
  | nil => rfl
  | cons b boxes ih => rw [List.foldl_cons, ih, hf]

theorem stat?_foldl_apply (id : StatId) :
    (boxes.foldl (fun q b => b.apply q) p).stat? id = p.stat? id := by
  apply kept_foldl_apply (f := fun p => p.stat? id)
  intro b p
  apply stat?_apply

theorem files_foldl_apply : (boxes.foldl (fun q b => b.apply q) p).files = p.files := by
  apply kept_foldl_apply (f := Program.files)
  intro b p
  apply files_apply

theorem items_foldl_apply : (boxes.foldl (fun q b => b.apply q) p).items = p.items := by
  apply kept_foldl_apply (f := Program.items)
  intro b p
  apply items_apply

theorem exprs_foldl_apply {i : Nat} {expr : Expr}
    (hne : ∀ b ∈ boxes, i ≠ b.initializer.index.toNat) (h : p.exprs[i]? = some expr) :
    (boxes.foldl (fun q b => b.apply q) p).exprs[i]? = some expr := by
  induction boxes generalizing p with
  | nil => exact h
  | cons b boxes ih =>
    rw [List.forall_mem_cons] at hne
    apply ih hne.2
    apply exprs_apply_of_ne b hne.1
    exact h

theorem vars_foldl_apply {i : Nat} {var : Var}
    (hne : ∀ b ∈ boxes, ∀ id ∈ b.references, i ≠ id.index.toNat) (h : p.vars[i]? = some var) :
    (boxes.foldl (fun q b => b.apply q) p).vars[i]? = some var := by
  induction boxes generalizing p with
  | nil => exact h
  | cons b boxes ih =>
    rw [List.forall_mem_cons] at hne
    apply ih hne.2
    apply vars_apply_of_ne b hne.1
    exact h

theorem expr?_foldl_apply {id : ExprId} {expr : Expr} (hne : ∀ b ∈ boxes, id ≠ b.initializer)
    (h : p.expr? id = some expr) :
    (boxes.foldl (fun q b => b.apply q) p).expr? id = some expr :=
  exprs_foldl_apply (fun b hb => toNat_ne_of_expr (hne b hb)) h

theorem var?_foldl_apply {id : VarId} {var : Var} (hne : ∀ b ∈ boxes, id ∉ b.references)
    (h : p.var? id = some var) :
    (boxes.foldl (fun q b => b.apply q) p).var? id = some var := by
  apply vars_foldl_apply _ h
  intro b hb id' hid
  apply toNat_ne_of_var
  rintro rfl
  exact hne b hb hid

theorem decls_apply_eq (i : Nat) :
    (b.apply p).decls[i]? =
      if i = b.decl.index.toNat then p.decls[i]?.map fun decl => { decl with ty := b.ty }
      else p.decls[i]? := by
  rw [decls_apply]
  unfold retype
  cases hdecl : p.decl? b.decl with
  | none =>
    dsimp only
    split
    . next heq =>
      rw [heq]
      change p.decl? b.decl = (p.decl? b.decl).map _
      rw [hdecl, Option.map_none]
    . rfl
  | some decl =>
    dsimp only [Program.setDecl]
    split
    . next heq =>
      have hlt := (Array.getElem?_eq_some_iff.mp hdecl).1
      have hold : p.decls[b.decl.index.toNat]? = some decl := hdecl
      rw [heq, Array.getElem?_setIfInBounds_self_of_lt hlt, hold, Option.map_some]
    . next hne => rw [Array.getElem?_setIfInBounds_ne (Ne.symm hne)]

theorem decl?_apply (id : DeclId) :
    (b.apply p).decl? id =
      if id = b.decl then (p.decl? id).map fun decl => { decl with ty := b.ty }
      else p.decl? id := by
  have hiff : id.index.toNat = b.decl.index.toNat ↔ id = b.decl := by
    rw [UInt32.toNat_inj]
    exact ⟨congrArg DeclId.mk, congrArg DeclId.index⟩
  unfold Program.decl?
  rw [decls_apply_eq]
  simp only [hiff]

/-- Declarations keep everything but their types, and also their types if they get no box. -/
theorem exists_decls_foldl_apply (boxes : List Box) {i : Nat} {d : Decl}
    (h : p.decls[i]? = some d) :
    ∃ ty, (boxes.foldl (fun q b => b.apply q) p).decls[i]? = some { d with ty := ty } ∧
      ((∀ b ∈ boxes, i ≠ b.decl.index.toNat) → ty = d.ty) := by
  induction boxes generalizing p d with
  | nil => exact ⟨d.ty, h, fun _ => rfl⟩
  | cons b boxes ih =>
    by_cases heq : i = b.decl.index.toNat
    . have hretyped : (b.apply p).decls[i]? = some { d with ty := b.ty } := by
        rw [decls_apply_eq, if_pos heq, h, Option.map_some]
      rcases ih hretyped with ⟨ty, hty, -⟩
      refine ⟨ty, hty, ?_⟩
      intro hne
      exact absurd heq (hne b List.mem_cons_self)
    . have hkept : (b.apply p).decls[i]? = some d := by
        rw [decls_apply_eq, if_neg heq, h]
      rcases ih hkept with ⟨ty, hty, hsame⟩
      refine ⟨ty, hty, ?_⟩
      intro hne
      exact hsame fun b' hb' => hne b' (List.mem_cons_of_mem _ hb')

theorem exists_decl?_foldl_apply (boxes : List Box) {id : DeclId} {d : Decl}
    (h : p.decl? id = some d) :
    ∃ ty, (boxes.foldl (fun q b => b.apply q) p).decl? id = some { d with ty := ty } := by
  rcases exists_decls_foldl_apply boxes h with ⟨ty, hty, -⟩
  exact ⟨ty, hty⟩

theorem decl?_foldl_apply_of_ne {id : DeclId} (hne : ∀ b ∈ boxes, id ≠ b.decl) :
    (boxes.foldl (fun q b => b.apply q) p).decl? id = p.decl? id := by
  induction boxes generalizing p with
  | nil => rfl
  | cons b boxes ih =>
    rw [List.forall_mem_cons] at hne
    rw [List.foldl_cons, ih hne.2, decl?_apply, if_neg hne.1]

/-- The last box of a variable gives the variable its type. -/
theorem decl?_foldl_apply_of_last {before after : List Box} {b : Box} {d : Decl}
    (hlast : ∀ b' ∈ after, b.decl ≠ b'.decl) (hd : p.decl? b.decl = some d) :
    ((before ++ b :: after).foldl (fun q b => b.apply q) p).decl? b.decl =
      some { d with ty := b.ty } := by
  rcases exists_decl?_foldl_apply before hd with ⟨ty, hbefore⟩
  rw [List.foldl_append, List.foldl_cons, decl?_foldl_apply_of_ne hlast, decl?_apply, if_pos rfl,
    hbefore, Option.map_some]

theorem unexported_apply (id : DeclId) : (b.apply p).Unexported id ↔ p.Unexported id := by
  unfold Program.Unexported
  rw [decl?_apply]
  split
  . cases p.decl? id <;> simp
  . rfl

theorem unexported_foldl_apply (id : DeclId) :
    (boxes.foldl (fun q b => b.apply q) p).Unexported id ↔ p.Unexported id := by
  apply Iff.of_eq
  apply kept_foldl_apply (f := fun p => p.Unexported id)
  intro b p
  exact propext (b.unexported_apply id)

end Fold

section Rewritten

/-- A variable form is there, and it is not a simple name of a variable. -/
def Rewritten (p : Program) (id : VarId) : Prop :=
  ∃ var, p.var? id = some var ∧ var.kind.decl? = none

theorem Rewritten.named? {id : VarId} (h : Rewritten p id) : p.named? id = none := by
  rcases h with ⟨var, hvar, hdecl⟩
  unfold Program.named?
  rw [hvar, Option.bind_some, hdecl]

theorem rewritten_access_self {id : VarId} {var : Var} (h : p.var? id = some var) :
    Rewritten (b.access p id) id := by
  have hsome : ∃ old, ((p.addVar ⟨var.loc, b.ty, var.kind⟩).addExpr
      ⟨var.loc, b.ty, .var p.nextVar⟩).var? id = some old := by
    rw [Program.var?_addExpr, Program.var?_addVar]
    split
    . exact ⟨_, rfl⟩
    . exact ⟨var, h⟩
  rcases hsome with ⟨old, hold⟩
  refine ⟨⟨var.loc, b.valueTy, .dot p.nextExpr b.field⟩, ?_, rfl⟩
  unfold access
  rw [h]
  dsimp only
  rw [Program.var?_setVar, if_pos rfl, hold, Option.map_some]

theorem exists_var?_access {id i : VarId} {var : Var} (h : p.var? i = some var) :
    ∃ var', (b.access p id).var? i = some var' := by
  by_cases hid : i = id
  . subst hid
    rcases b.rewritten_access_self h with ⟨var', hvar', -⟩
    exact ⟨var', hvar'⟩
  . exact ⟨var, b.var?_access_of_ne hid h⟩

theorem Rewritten.access {id i : VarId} (h : Rewritten p i) : Rewritten (b.access p id) i := by
  rcases h with ⟨var, hvar, hdecl⟩
  by_cases hid : i = id
  . subst hid
    exact b.rewritten_access_self hvar
  . exact ⟨var, b.var?_access_of_ne hid hvar, hdecl⟩

theorem Rewritten.foldl_access {ids : List VarId} {i : VarId} (h : Rewritten p i) :
    Rewritten (ids.foldl b.access p) i := by
  induction ids generalizing p with
  | nil => exact h
  | cons id ids ih =>
    apply ih
    exact h.access b

theorem rewritten_foldl_access {ids : List VarId} {i : VarId} {var : Var} (hi : i ∈ ids)
    (h : p.var? i = some var) : Rewritten (ids.foldl b.access p) i := by
  induction ids generalizing p var with
  | nil => cases hi
  | cons id ids ih =>
    rw [List.mem_cons] at hi
    rw [List.foldl_cons]
    rcases hi with rfl | hi
    . apply Rewritten.foldl_access
      exact b.rewritten_access_self h
    . rcases b.exists_var?_access h with ⟨var', hvar'⟩
      exact ih hi hvar'

theorem Rewritten.apply {i : VarId} (h : Rewritten p i) : Rewritten (b.apply p) i := by
  rw [apply_eq]
  apply Rewritten.foldl_access
  rcases h with ⟨var, hvar, hdecl⟩
  refine ⟨var, ?_, hdecl⟩
  rw [var?_wrap, var?_retype, hvar]

theorem exists_var?_apply {i : VarId} {var : Var} (h : p.var? i = some var) :
    ∃ var', (b.apply p).var? i = some var' := by
  by_cases hi : i ∈ b.references
  . rw [apply_eq]
    rcases b.rewritten_foldl_access (Array.mem_toList_iff.mpr hi)
      (show (b.wrap (b.retype p)).var? i = some var by rw [var?_wrap, var?_retype, h])
      with ⟨var', hvar', -⟩
    exact ⟨var', hvar'⟩
  . exact ⟨var, b.var?_apply_of_not_mem hi h⟩

theorem rewritten_foldl_apply {boxes : List Box} {b : Box} (hb : b ∈ boxes) {i : VarId}
    (hi : i ∈ b.references) {var : Var} (h : p.var? i = some var) :
    Rewritten (boxes.foldl (fun q b => b.apply q) p) i := by
  have hlater (later : List Box) : ∀ {q : Program}, Rewritten q i →
      Rewritten (later.foldl (fun q b => b.apply q) q) i := by
    induction later with
    | nil =>
      intro q hq
      exact hq
    | cons b' later ih =>
      intro q hq
      apply ih
      exact hq.apply b'
  induction boxes generalizing p var with
  | nil => cases hb
  | cons b' boxes ih =>
    rw [List.mem_cons] at hb
    rw [List.foldl_cons]
    rcases hb with rfl | hb
    . apply hlater
      rw [apply_eq]
      apply b.rewritten_foldl_access (Array.mem_toList_iff.mpr hi)
      rw [var?_wrap, var?_retype]
      exact h
    . rcases b'.exists_var?_apply h with ⟨var', hvar'⟩
      exact ih hb hvar'

end Rewritten

section Size

variable {id : VarId}

theorem size_exprs_wrap {value : Expr} (h : p.expr? b.initializer = some value) :
    (b.wrap p).exprs.size = p.exprs.size + 1 := by
  simp [wrap, h, Program.setExpr, Program.addExpr]

theorem size_exprs_access {var : Var} (h : p.var? id = some var) :
    (b.access p id).exprs.size = p.exprs.size + 1 := by
  simp [access, h, Program.setVar, Program.addExpr, Program.addVar]

theorem size_vars_access {var : Var} (h : p.var? id = some var) :
    (b.access p id).vars.size = p.vars.size + 1 := by
  simp [access, h, Program.setVar, Program.addExpr, Program.addVar]

theorem size_exprs_lt_of_wrap {value : Expr} (hfit : (b.wrap p).Addressable)
    (h : p.expr? b.initializer = some value) : p.exprs.size < UInt32.size := by
  have := hfit.1
  rw [b.size_exprs_wrap h] at this
  omega

theorem size_exprs_lt_of_access {var : Var} (hfit : (b.access p id).Addressable)
    (h : p.var? id = some var) : p.exprs.size < UInt32.size := by
  have := hfit.1
  rw [b.size_exprs_access h] at this
  omega

theorem size_vars_lt_of_access {var : Var} (hfit : (b.access p id).Addressable)
    (h : p.var? id = some var) : p.vars.size < UInt32.size := by
  have := hfit.2
  rw [b.size_vars_access h] at this
  omega

theorem addressable_of_wrap (h : (b.wrap p).Addressable) : p.Addressable := by
  have hsize := b.size_exprs_wrap_le (p := p)
  rcases h with ⟨hexprs, hvars⟩
  rw [vars_wrap] at hvars
  exact ⟨by omega, hvars⟩

theorem addressable_of_access (h : (b.access p id).Addressable) : p.Addressable := by
  have hsize := b.size_exprs_access_le (p := p) id
  have hsize' := b.size_vars_access_le (p := p) id
  rcases h with ⟨hexprs, hvars⟩
  exact ⟨by omega, by omega⟩

theorem addressable_of_foldl_access {ids : List VarId}
    (h : (ids.foldl b.access p).Addressable) : p.Addressable := by
  induction ids generalizing p with
  | nil => exact h
  | cons id ids ih =>
    apply b.addressable_of_access
    exact ih h

theorem addressable_retype : (b.retype p).Addressable ↔ p.Addressable := by
  unfold Program.Addressable
  rw [exprs_retype, vars_retype]

theorem addressable_of_apply (h : (b.apply p).Addressable) : p.Addressable := by
  rw [apply_eq] at h
  rw [← b.addressable_retype]
  apply b.addressable_of_wrap
  exact b.addressable_of_foldl_access h

theorem addressable_of_foldl_apply {boxes : List Box}
    (h : (boxes.foldl (fun q b => b.apply q) p).Addressable) : p.Addressable := by
  induction boxes generalizing p with
  | nil => exact h
  | cons b boxes ih =>
    apply b.addressable_of_apply
    exact ih h

end Size

section Content

variable {id : VarId}

open Program

theorem sameSlot_retype (node : Node) : SameSlot p (b.retype p) node := by
  cases node with
  | stat id =>
    rw [sameSlot_stat]
    unfold stat?
    rw [stats_retype]
  | expr id => exact b.expr?_retype id
  | var id => exact b.var?_retype id

theorem sameSlot_wrap {value : Expr} (hlt : p.exprs.size < UInt32.size)
    (hvalue : p.expr? b.initializer = some value) {node : Node}
    (hne : node ≠ .expr b.initializer) (hnext : node ≠ .expr p.nextExpr) :
    SameSlot p (b.wrap p) node := by
  cases node with
  | stat id =>
    rw [sameSlot_stat]
    unfold stat?
    rw [stats_wrap]
  | expr id =>
    have hne' : id ≠ b.initializer := by
      rintro rfl
      exact hne rfl
    have hnext' : id ≠ p.nextExpr := by
      rintro rfl
      exact hnext rfl
    rw [sameSlot_expr, b.expr?_wrap hlt hvalue, if_neg hne', if_neg hnext']
  | var id => exact b.var?_wrap id

theorem sameSlot_access {var : Var} (hlt : p.exprs.size < UInt32.size)
    (hlt' : p.vars.size < UInt32.size) (hvar : p.var? id = some var) {node : Node}
    (hne : node ≠ .var id) (hexpr : node ≠ .expr p.nextExpr) (hname : node ≠ .var p.nextVar) :
    SameSlot p (b.access p id) node := by
  cases node with
  | stat i =>
    rw [sameSlot_stat]
    unfold stat?
    rw [stats_access]
  | expr i =>
    have hexpr' : i ≠ p.nextExpr := by
      rintro rfl
      exact hexpr rfl
    rw [sameSlot_expr, b.expr?_access_eq hlt hvar, if_neg hexpr']
  | var i =>
    have hne' : i ≠ id := by
      rintro rfl
      exact hne rfl
    have hname' : i ≠ p.nextVar := by
      rintro rfl
      exact hname rfl
    rw [sameSlot_var, b.var?_access_eq hlt' hvar, if_neg hne', if_neg hname']

theorem content?_wrap_initializer {value : Expr} (hlt : p.exprs.size < UInt32.size)
    (hvalue : p.expr? b.initializer = some value) :
    (b.wrap p).content? (.expr b.initializer) =
      some (.expr (.initList [⟨some b.field, p.nextExpr⟩])) := by
  rw [content?_expr, b.expr?_wrap hlt hvalue, if_pos rfl]
  rfl

theorem content?_wrap_value {value : Expr} (hlt : p.exprs.size < UInt32.size)
    (hvalue : p.expr? b.initializer = some value) :
    (b.wrap p).content? (.expr p.nextExpr) = p.content? (.expr b.initializer) := by
  have hne : p.nextExpr ≠ b.initializer := by
    intro heq
    rw [← heq, expr?_nextExpr p hlt] at hvalue
    cases hvalue
  rw [content?_expr, content?_expr, b.expr?_wrap hlt hvalue, if_neg hne, if_pos rfl, hvalue]

theorem content?_access_name {var : Var} (hlt' : p.vars.size < UInt32.size)
    (hvar : p.var? id = some var) :
    (b.access p id).content? (.var id) = some (.var (.dot p.nextExpr b.field)) := by
  rw [content?_var, b.var?_access_eq hlt' hvar, if_pos rfl]
  rfl

theorem content?_access_base {var : Var} (hlt : p.exprs.size < UInt32.size)
    (hvar : p.var? id = some var) :
    (b.access p id).content? (.expr p.nextExpr) = some (.expr (.var p.nextVar)) := by
  rw [content?_expr, b.expr?_access_eq hlt hvar, if_pos rfl]
  rfl

theorem content?_access_moved {var : Var} (hlt' : p.vars.size < UInt32.size)
    (hvar : p.var? id = some var) :
    (b.access p id).content? (.var p.nextVar) = p.content? (.var id) := by
  have hne : p.nextVar ≠ id := by
    intro heq
    rw [← heq, var?_nextVar p hlt'] at hvar
    cases hvar
  rw [content?_var, content?_var, b.var?_access_eq hlt' hvar, if_neg hne, if_pos rfl, hvar]
  rfl

end Content

end Box

end Upvalue

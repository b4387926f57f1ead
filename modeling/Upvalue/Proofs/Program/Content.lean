import Upvalue.Program.Handles

/-!
This module contains what a node holds apart from its type and its source text, and how the arenas
of a program look after a slot was added or overwritten.
-/

namespace Upvalue

/-- What a node holds, apart from its type and its source text. -/
inductive Content where
  | stat (stat : Stat)
  | expr (kind : ExprKind)
  | var (kind : VarKind)

def Content.refs : Content → List Ref
  | .stat s => s.refs
  | .expr k => k.refs
  | .var k => k.refs

theorem VarKind.mem_refs_of_decl? {kind : VarKind} {decl : DeclId} (h : kind.decl? = some decl) :
    .decl decl ∈ kind.refs := by
  unfold VarKind.decl? at h
  split at h
  . injection h with h
    rw [h]
    apply List.mem_cons_self
  . cases h

namespace Program

/-- What a node holds, `none` if it is out of range. -/
def content? (p : Program) : Node → Option Content
  | .stat id => (p.stat? id).map .stat
  | .expr id => (p.expr? id).map fun expr => .expr expr.kind
  | .var id => (p.var? id).map fun var => .var var.kind

theorem content?_stat (p : Program) (id : StatId) :
    p.content? (.stat id) = (p.stat? id).map .stat := rfl

theorem content?_expr (p : Program) (id : ExprId) :
    p.content? (.expr id) = (p.expr? id).map fun expr => .expr expr.kind := rfl

theorem content?_var (p : Program) (id : VarId) :
    p.content? (.var id) = (p.var? id).map fun var => .var var.kind := rfl

theorem content?_of_stat? {p : Program} {id : StatId} {stat : Stat} (h : p.stat? id = some stat) :
    p.content? (.stat id) = some (.stat stat) := by
  rw [content?_stat, h]
  rfl

theorem content?_of_expr? {p : Program} {id : ExprId} {expr : Expr} (h : p.expr? id = some expr) :
    p.content? (.expr id) = some (.expr expr.kind) := by
  rw [content?_expr, h]
  rfl

theorem content?_of_var? {p : Program} {id : VarId} {var : Var} (h : p.var? id = some var) :
    p.content? (.var id) = some (.var var.kind) := by
  rw [content?_var, h]
  rfl

theorem exists_expr_of_content? {p : Program} {node : Node} {kind : ExprKind}
    (h : p.content? node = some (.expr kind)) : ∃ id, node = .expr id := by
  cases node with
  | stat id => cases hstat : p.stat? id <;> simp [content?_stat, hstat] at h
  | expr id => exact ⟨id, rfl⟩
  | var id => cases hvar : p.var? id <;> simp [content?_var, hvar] at h

theorem exists_var_of_content? {p : Program} {node : Node} {kind : VarKind}
    (h : p.content? node = some (.var kind)) : ∃ id, node = .var id := by
  cases node with
  | stat id => cases hstat : p.stat? id <;> simp [content?_stat, hstat] at h
  | expr id => cases hexpr : p.expr? id <;> simp [content?_expr, hexpr] at h
  | var id => exact ⟨id, rfl⟩

theorem refsOf_eq (p : Program) (node : Node) :
    p.refsOf node = ((p.content? node).map Content.refs).getD [] := by
  cases node with
  | stat id =>
    unfold refsOf content?
    rw [Option.map_map]
    rfl
  | expr id =>
    unfold refsOf content?
    rw [Option.map_map]
    rfl
  | var id =>
    unfold refsOf content?
    rw [Option.map_map]
    rfl

theorem children_eq_of_content? {p : Program} {node : Node} {content : Content}
    (h : p.content? node = some content) :
    p.children node = content.refs.filterMap Ref.node? := by
  unfold children
  rw [refsOf_eq, h]
  rfl

theorem children_eq_nil {p : Program} {node : Node} (h : p.content? node = none) :
    p.children node = [] := by
  unfold children
  rw [refsOf_eq, h]
  rfl

theorem children_congr {p q : Program} {node node' : Node}
    (h : q.content? node' = p.content? node) : q.children node' = p.children node := by
  unfold children
  rw [refsOf_eq, refsOf_eq, h]

/-- The slot of a node holds the same in the second program. -/
def SameSlot (p q : Program) : Node → Prop
  | .stat id => q.stat? id = p.stat? id
  | .expr id => q.expr? id = p.expr? id
  | .var id => q.var? id = p.var? id

theorem sameSlot_stat {p q : Program} {id : StatId} :
    SameSlot p q (.stat id) ↔ q.stat? id = p.stat? id := Iff.rfl

theorem sameSlot_expr {p q : Program} {id : ExprId} :
    SameSlot p q (.expr id) ↔ q.expr? id = p.expr? id := Iff.rfl

theorem sameSlot_var {p q : Program} {id : VarId} :
    SameSlot p q (.var id) ↔ q.var? id = p.var? id := Iff.rfl

theorem SameSlot.content? {p q : Program} {node : Node} (h : SameSlot p q node) :
    q.content? node = p.content? node := by
  cases node with
  | stat id => rw [content?_stat, content?_stat, sameSlot_stat.mp h]
  | expr id => rw [content?_expr, content?_expr, sameSlot_expr.mp h]
  | var id => rw [content?_var, content?_var, sameSlot_var.mp h]

theorem contains_iff_isSome {p : Program} {node : Node} :
    p.contains (.node node) = true ↔ (p.content? node).isSome = true := by
  unfold contains
  rw [decide_eq_true_iff]
  cases node <;> simp [content?, sizeFor, Ref.index, stat?, expr?, var?]

theorem exists_expr?_of_contains {p : Program} {id : ExprId}
    (h : p.contains (.node (.expr id)) = true) : ∃ expr, p.expr? id = some expr := by
  rw [contains_iff_isSome] at h
  rwa [content?_expr, Option.isSome_map, Option.isSome_iff_exists] at h

theorem exists_var?_of_contains {p : Program} {id : VarId}
    (h : p.contains (.node (.var id)) = true) : ∃ var, p.var? id = some var := by
  rw [contains_iff_isSome] at h
  rwa [content?_var, Option.isSome_map, Option.isSome_iff_exists] at h

/-- The declaration that a simple name refers to. -/
def named? (p : Program) (id : VarId) : Option DeclId :=
  (p.var? id).bind fun var => var.kind.decl?

theorem named?_of_var? {p : Program} {id : VarId} {var : Var} (h : p.var? id = some var) :
    p.named? id = var.kind.decl? := by
  unfold named?
  rw [h, Option.bind_some]

theorem exists_var?_of_named? {p : Program} {id : VarId} {decl : DeclId}
    (h : p.named? id = some decl) :
    ∃ loc ty text, p.var? id = some ⟨loc, ty, .name text (.variable decl)⟩ := by
  unfold named? at h
  rw [Option.bind_eq_some_iff] at h
  rcases h with ⟨⟨loc, ty, kind⟩, hvar, hkind⟩
  dsimp only at hkind
  unfold VarKind.decl? at hkind
  split at hkind
  . next text decl' =>
    injection hkind with hkind
    subst hkind
    exact ⟨loc, ty, text, hvar⟩
  . cases hkind

/-- A declaration is there and it is not exported. -/
def Unexported (p : Program) (decl : DeclId) : Prop :=
  ∃ d, p.decl? decl = some d ∧ d.exported = false

/-- The declaration that a simple name refers to, if it is not exported. -/
def candidate? (p : Program) (id : VarId) : Option DeclId :=
  (p.named? id).bind fun decl =>
    (p.decl? decl).bind fun d => if d.exported then none else some decl

theorem candidate?_eq_some_iff {p : Program} {id : VarId} {decl : DeclId} :
    p.candidate? id = some decl ↔ p.named? id = some decl ∧ p.Unexported decl := by
  unfold candidate? Unexported
  rw [Option.bind_eq_some_iff]
  constructor
  . rintro ⟨decl', hnamed, h⟩
    rw [Option.bind_eq_some_iff] at h
    rcases h with ⟨d, hd, h⟩
    cases hexported : d.exported with
    | true => simp [hexported] at h
    | false =>
      simp only [hexported, Bool.false_eq_true, if_false, Option.some.injEq] at h
      subst h
      exact ⟨hnamed, d, hd, hexported⟩
  . rintro ⟨hnamed, d, hd, hexported⟩
    refine ⟨decl, hnamed, ?_⟩
    simp [hd, hexported]

theorem candidate?_congr {p q : Program} {id : VarId} (hvar : q.var? id = p.var? id)
    (hexports : ∀ decl, q.Unexported decl ↔ p.Unexported decl) :
    q.candidate? id = p.candidate? id := by
  have hnamed : q.named? id = p.named? id := by
    unfold named?
    rw [hvar]
  apply Option.ext
  intro decl
  rw [candidate?_eq_some_iff, candidate?_eq_some_iff, hnamed, hexports]

section Slots

variable (p : Program)

@[simp]
theorem stat?_addExpr (expr : Expr) (id : StatId) : (p.addExpr expr).stat? id = p.stat? id := rfl

@[simp]
theorem stat?_addVar (var : Var) (id : StatId) : (p.addVar var).stat? id = p.stat? id := rfl

@[simp]
theorem stat?_setExpr (i : ExprId) (expr : Expr) (id : StatId) :
    (p.setExpr i expr).stat? id = p.stat? id := rfl

@[simp]
theorem stat?_setVar (i : VarId) (var : Var) (id : StatId) :
    (p.setVar i var).stat? id = p.stat? id := rfl

@[simp]
theorem stat?_setDecl (i : DeclId) (decl : Decl) (id : StatId) :
    (p.setDecl i decl).stat? id = p.stat? id := rfl

@[simp]
theorem decl?_addExpr (expr : Expr) (id : DeclId) : (p.addExpr expr).decl? id = p.decl? id := rfl

@[simp]
theorem decl?_addVar (var : Var) (id : DeclId) : (p.addVar var).decl? id = p.decl? id := rfl

@[simp]
theorem decl?_setExpr (i : ExprId) (expr : Expr) (id : DeclId) :
    (p.setExpr i expr).decl? id = p.decl? id := rfl

@[simp]
theorem decl?_setVar (i : VarId) (var : Var) (id : DeclId) :
    (p.setVar i var).decl? id = p.decl? id := rfl

@[simp]
theorem expr?_addVar (var : Var) (id : ExprId) : (p.addVar var).expr? id = p.expr? id := rfl

@[simp]
theorem expr?_setVar (i : VarId) (var : Var) (id : ExprId) :
    (p.setVar i var).expr? id = p.expr? id := rfl

@[simp]
theorem expr?_setDecl (i : DeclId) (decl : Decl) (id : ExprId) :
    (p.setDecl i decl).expr? id = p.expr? id := rfl

@[simp]
theorem var?_addExpr (expr : Expr) (id : VarId) : (p.addExpr expr).var? id = p.var? id := rfl

@[simp]
theorem var?_setExpr (i : ExprId) (expr : Expr) (id : VarId) :
    (p.setExpr i expr).var? id = p.var? id := rfl

@[simp]
theorem var?_setDecl (i : DeclId) (decl : Decl) (id : VarId) :
    (p.setDecl i decl).var? id = p.var? id := rfl

theorem expr?_addExpr (expr : Expr) (id : ExprId) :
    (p.addExpr expr).expr? id =
      if id.index.toNat = p.exprs.size then some expr else p.expr? id := by
  unfold addExpr expr?
  dsimp only
  rw [Array.getElem?_push]

theorem var?_addVar (var : Var) (id : VarId) :
    (p.addVar var).var? id = if id.index.toNat = p.vars.size then some var else p.var? id := by
  unfold addVar var?
  dsimp only
  rw [Array.getElem?_push]

/-- What a handle refers to is still there if a slot is added. -/
theorem getElem?_push_of_some {α : Type} {slots : Array α} {i : Nat} {slot new : α}
    (h : slots[i]? = some slot) : (slots.push new)[i]? = some slot := by
  rcases Array.getElem?_eq_some_iff.mp h with ⟨hlt, rfl⟩
  exact Array.getElem?_push_lt hlt

theorem getElem?_set_handle {α : Type} (slots : Array α) {i j : UInt32} (slot : α) :
    (slots.setIfInBounds i.toNat slot)[j.toNat]? =
      if j = i then slots[i.toNat]?.map (fun _ => slot) else slots[j.toNat]? := by
  rw [Array.getElem?_setIfInBounds]
  by_cases h : j = i
  . subst h
    rw [if_pos rfl, if_pos rfl]
    split
    . next hlt => rw [Array.getElem?_eq_getElem hlt, Option.map_some]
    . next hge => rw [Array.getElem?_eq_none (by omega), Option.map_none]
  . have hne : i.toNat ≠ j.toNat := by
      intro heq
      exact h (UInt32.toNat_inj.mp heq.symm)
    rw [if_neg hne, if_neg h]

theorem expr?_setExpr (i : ExprId) (expr : Expr) (id : ExprId) :
    (p.setExpr i expr).expr? id =
      if id = i then (p.expr? i).map (fun _ => expr) else p.expr? id := by
  obtain ⟨i⟩ := i
  obtain ⟨id⟩ := id
  unfold setExpr expr?
  dsimp only
  rw [getElem?_set_handle]
  simp only [ExprId.mk.injEq]

theorem var?_setVar (i : VarId) (var : Var) (id : VarId) :
    (p.setVar i var).var? id = if id = i then (p.var? i).map (fun _ => var) else p.var? id := by
  obtain ⟨i⟩ := i
  obtain ⟨id⟩ := id
  unfold setVar var?
  dsimp only
  rw [getElem?_set_handle]
  simp only [VarId.mk.injEq]

theorem decl?_setDecl (i : DeclId) (decl : Decl) (id : DeclId) :
    (p.setDecl i decl).decl? id =
      if id = i then (p.decl? i).map (fun _ => decl) else p.decl? id := by
  obtain ⟨i⟩ := i
  obtain ⟨id⟩ := id
  unfold setDecl decl?
  dsimp only
  rw [getElem?_set_handle]
  simp only [DeclId.mk.injEq]

theorem toNat_nextExpr (h : p.exprs.size < UInt32.size) :
    p.nextExpr.index.toNat = p.exprs.size :=
  UInt32.toNat_ofNat_of_lt' h

theorem toNat_nextVar (h : p.vars.size < UInt32.size) : p.nextVar.index.toNat = p.vars.size :=
  UInt32.toNat_ofNat_of_lt' h

theorem toNat_eq_size_exprs_iff (h : p.exprs.size < UInt32.size) {id : ExprId} :
    id.index.toNat = p.exprs.size ↔ id = p.nextExpr := by
  rw [← toNat_nextExpr p h, UInt32.toNat_inj]
  constructor
  . intro heq
    exact congrArg ExprId.mk heq
  . intro heq
    rw [heq]

theorem toNat_eq_size_vars_iff (h : p.vars.size < UInt32.size) {id : VarId} :
    id.index.toNat = p.vars.size ↔ id = p.nextVar := by
  rw [← toNat_nextVar p h, UInt32.toNat_inj]
  constructor
  . intro heq
    exact congrArg VarId.mk heq
  . intro heq
    rw [heq]

theorem expr?_nextExpr (h : p.exprs.size < UInt32.size) : p.expr? p.nextExpr = none := by
  unfold expr?
  rw [toNat_nextExpr p h]
  apply Array.getElem?_eq_none
  omega

theorem var?_nextVar (h : p.vars.size < UInt32.size) : p.var? p.nextVar = none := by
  unfold var?
  rw [toNat_nextVar p h]
  apply Array.getElem?_eq_none
  omega

end Slots

end Program

end Upvalue

import Upvalue.Proofs.Program.Tree
import Mathlib.Logic.Equiv.Defs

/-!
This module contains programs whose slots are in another order. Every slot of the first program is
found in the second one under its new handle, with the new handles of the slots that it refers to.
The second program may have more slots. They cannot be reached, since nothing that comes from the
first program refers to them.
-/

namespace Upvalue

/-- New handles for all slots. -/
structure Renumbering where
  decl : Equiv.Perm DeclId
  stat : Equiv.Perm StatId
  expr : Equiv.Perm ExprId
  var : Equiv.Perm VarId

variable (ρ : Renumbering)

/-- New handles for the declarations only. -/
def Renumbering.decls : Renumbering :=
  ⟨ρ.decl, .refl _, .refl _, .refl _⟩

def Node.renumber : Node → Node
  | .stat id => .stat (ρ.stat id)
  | .expr id => .expr (ρ.expr id)
  | .var id => .var (ρ.var id)

def Ref.renumber : Ref → Ref
  | .decl id => .decl (ρ.decl id)
  | .node target => .node (target.renumber ρ)

def FuncDef.renumber (func : FuncDef) : FuncDef :=
  ⟨func.loc, ρ.decl func.decl, ρ.expr func.value⟩

def Block.renumber (block : Block) : Block :=
  ⟨block.stats.map ρ.stat⟩

def Toplevel.renumber : Toplevel → Toplevel
  | .stats loc ids => .stats loc (ids.map ρ.stat)
  | .functions loc funcs => .functions loc (funcs.map (FuncDef.renumber ρ))
  | .record loc name fields ty => .record loc name fields ty
  | .typealias loc name written ty => .typealias loc name written ty

def Stat.renumber : Stat → Stat
  | .decl loc decls exps => .decl loc (decls.map ρ.decl) (exps.map ρ.expr)
  | .assign loc vars exps => .assign loc (vars.map ρ.var) (exps.map ρ.expr)
  | .functions loc funcs => .functions loc (funcs.map (FuncDef.renumber ρ))
  | .ret loc exps => .ret loc (exps.map ρ.expr)
  | .block loc body => .block loc (body.renumber ρ)
  | .whileLoop loc condition body => .whileLoop loc (ρ.expr condition) (body.renumber ρ)
  | .repeatLoop loc body condition => .repeatLoop loc (body.renumber ρ) (ρ.expr condition)
  | .branch loc condition thenBlock elseBlock =>
    .branch loc (ρ.expr condition) (thenBlock.renumber ρ) (elseBlock.map (Block.renumber ρ))
  | .forNum loc id start limit step body =>
    .forNum loc (ρ.decl id) (ρ.expr start) (ρ.expr limit) (step.map ρ.expr) (body.renumber ρ)
  | .forIn loc decls exps body =>
    .forIn loc (decls.map ρ.decl) (exps.map ρ.expr) (body.renumber ρ)
  | .call loc exp => .call loc (ρ.expr exp)
  | .breakLoop loc => .breakLoop loc

def InitField.renumber (field : InitField) : InitField :=
  ⟨field.name, ρ.expr field.exp⟩

def ExprKind.renumber : ExprKind → ExprKind
  | .nil => .nil
  | .bool value => .bool value
  | .integer value => .integer value
  | .float value => .float value
  | .string value => .string value
  | .initList fields => .initList (fields.map (InitField.renumber ρ))
  | .lambda params body => .lambda (params.map ρ.decl) (body.renumber ρ)
  | .call callee args => .call (ρ.expr callee) (args.map ρ.expr)
  | .methodCall receiver method args => .methodCall (ρ.expr receiver) method (args.map ρ.expr)
  | .var id => .var (ρ.var id)
  | .unop op exp => .unop op (ρ.expr exp)
  | .binop lhs op rhs => .binop (ρ.expr lhs) op (ρ.expr rhs)
  | .cast exp target => .cast (ρ.expr exp) target
  | .toFloat exp => .toFloat (ρ.expr exp)
  | .paren exp => .paren (ρ.expr exp)

def Expr.renumber (expr : Expr) : Expr :=
  { expr with kind := expr.kind.renumber ρ }

def Def.renumber : Def → Def
  | .variable decl => .variable (ρ.decl decl)
  | .builtin name => .builtin name
  | .unresolved => .unresolved

def VarKind.renumber : VarKind → VarKind
  | .name text target => .name text (target.renumber ρ)
  | .dot exp field => .dot (ρ.expr exp) field
  | .bracket table key => .bracket (ρ.expr table) (ρ.expr key)

def Var.renumber (var : Var) : Var :=
  { var with kind := var.kind.renumber ρ }

def Content.renumber : Content → Content
  | .stat s => .stat (s.renumber ρ)
  | .expr k => .expr (k.renumber ρ)
  | .var k => .var (k.renumber ρ)

/-- The second program holds what the first one holds, under other handles. -/
structure Renumbers (ρ : Renumbering) (p q : Program) : Prop where
  files : q.files = p.files
  items : q.items = p.items.map (Toplevel.renumber ρ)
  decl : ∀ id d, p.decl? id = some d → q.decl? (ρ.decl id) = some d
  stat : ∀ id s, p.stat? id = some s → q.stat? (ρ.stat id) = some (s.renumber ρ)
  expr : ∀ id e, p.expr? id = some e → q.expr? (ρ.expr id) = some (e.renumber ρ)
  var : ∀ id v, p.var? id = some v → q.var? (ρ.var id) = some (v.renumber ρ)
  inRange : q.InRange

variable {ρ}

/-! ### Handles -/

section Refs

theorem Node.renumber_injective : Function.Injective (Node.renumber ρ) := by
  intro node node' h
  cases node <;> cases node' <;> simp_all [Node.renumber]

@[simp]
theorem Node.renumber_inj {node node' : Node} :
    node.renumber ρ = node'.renumber ρ ↔ node = node' :=
  Node.renumber_injective.eq_iff

theorem Ref.node?_renumber (ref : Ref) :
    (ref.renumber ρ).node? = ref.node?.map (Node.renumber ρ) := by
  cases ref <;> rfl

theorem filterMap_node?_renumber (refs : List Ref) :
    (refs.map (Ref.renumber ρ)).filterMap Ref.node? =
      (refs.filterMap Ref.node?).map (Node.renumber ρ) := by
  rw [List.filterMap_map, List.map_filterMap]
  congr 1
  funext ref
  exact ref.node?_renumber

@[simp]
theorem Ref.renumber_decl (id : DeclId) : (Ref.decl id).renumber ρ = .decl (ρ.decl id) := rfl

@[simp]
theorem Ref.renumber_stat (id : StatId) : (Ref.stat id).renumber ρ = .stat (ρ.stat id) := rfl

@[simp]
theorem Ref.renumber_expr (id : ExprId) : (Ref.expr id).renumber ρ = .expr (ρ.expr id) := rfl

@[simp]
theorem Ref.renumber_var (id : VarId) : (Ref.var id).renumber ρ = .var (ρ.var id) := rfl

@[simp]
theorem Ref.renumber_comp_expr : Ref.renumber ρ ∘ Ref.expr = Ref.expr ∘ ρ.expr := rfl

@[simp]
theorem flatMap_refs_renumber (funcs : List FuncDef) :
    (funcs.map (FuncDef.renumber ρ)).flatMap FuncDef.refs =
      (funcs.flatMap FuncDef.refs).map (Ref.renumber ρ) := by
  rw [List.flatMap_map, List.map_flatMap]
  rfl

@[simp]
theorem Block.refs_renumber (block : Block) :
    (block.renumber ρ).refs = block.refs.map (Ref.renumber ρ) := by
  simp [Block.renumber, Block.refs]

theorem Toplevel.refs_renumber (item : Toplevel) :
    (item.renumber ρ).refs = item.refs.map (Ref.renumber ρ) := by
  cases item <;> simp [Toplevel.renumber, Toplevel.refs]

theorem Stat.refs_renumber (s : Stat) : (s.renumber ρ).refs = s.refs.map (Ref.renumber ρ) := by
  cases s with
  | branch loc condition thenBlock elseBlock =>
    cases elseBlock <;> simp [Stat.renumber, Stat.refs]
  | forNum loc id start limit step body => cases step <;> simp [Stat.renumber, Stat.refs]
  | _ => simp [Stat.renumber, Stat.refs]

theorem ExprKind.refs_renumber (k : ExprKind) :
    (k.renumber ρ).refs = k.refs.map (Ref.renumber ρ) := by
  cases k <;> simp [ExprKind.renumber, ExprKind.refs, InitField.renumber]

theorem VarKind.refs_renumber (k : VarKind) :
    (k.renumber ρ).refs = k.refs.map (Ref.renumber ρ) := by
  cases k with
  | name text target => cases target <;> rfl
  | _ => rfl

theorem Content.refs_renumber (content : Content) :
    (content.renumber ρ).refs = content.refs.map (Ref.renumber ρ) := by
  cases content with
  | stat s => exact s.refs_renumber
  | expr k => exact k.refs_renumber
  | var k => exact k.refs_renumber

theorem VarKind.decl?_renumber (k : VarKind) : (k.renumber ρ).decl? = k.decl?.map ρ.decl := by
  cases k with
  | name text target => cases target <;> rfl
  | _ => rfl

end Refs

/-! ### Nodes -/

namespace Renumbers

open Program

variable {p q : Program} {node : Node} {content : Content}

theorem forall_slot {α : Type} {slots : Array α} {P : UInt32 → α → Prop}
    (h : ∀ i (hi : i < slots.size), P (UInt32.ofNat i) slots[i]) (i : UInt32) (slot : α)
    (hslot : slots[i.toNat]? = some slot) : P i slot := by
  rcases Array.getElem?_eq_some_iff.mp hslot with ⟨hi, rfl⟩
  have hi' := h i.toNat hi
  rwa [UInt32.ofNat_toNat] at hi'

/-- It is enough to look at the slots one after the other. -/
theorem of_slots (hfiles : q.files = p.files) (hitems : q.items = p.items.map (Toplevel.renumber ρ))
    (hdecl : ∀ i (hi : i < p.decls.size), q.decl? (ρ.decl ⟨.ofNat i⟩) = some p.decls[i])
    (hstat : ∀ i (hi : i < p.stats.size),
      q.stat? (ρ.stat ⟨.ofNat i⟩) = some (p.stats[i].renumber ρ))
    (hexpr : ∀ i (hi : i < p.exprs.size),
      q.expr? (ρ.expr ⟨.ofNat i⟩) = some (p.exprs[i].renumber ρ))
    (hvar : ∀ i (hi : i < p.vars.size), q.var? (ρ.var ⟨.ofNat i⟩) = some (p.vars[i].renumber ρ))
    (hrange : q.InRange) : Renumbers ρ p q := by
  refine ⟨hfiles, hitems, ?_, ?_, ?_, ?_, hrange⟩
  . rintro ⟨id⟩
    exact @forall_slot _ p.decls (fun i d => q.decl? (ρ.decl ⟨i⟩) = some d) hdecl id
  . rintro ⟨id⟩
    exact @forall_slot _ p.stats (fun i s => q.stat? (ρ.stat ⟨i⟩) = some (s.renumber ρ)) hstat id
  . rintro ⟨id⟩
    exact @forall_slot _ p.exprs (fun i e => q.expr? (ρ.expr ⟨i⟩) = some (e.renumber ρ)) hexpr id
  . rintro ⟨id⟩
    exact @forall_slot _ p.vars (fun i v => q.var? (ρ.var ⟨i⟩) = some (v.renumber ρ)) hvar id

theorem content?_eq (h : Renumbers ρ p q) (hcontent : p.content? node = some content) :
    q.content? (node.renumber ρ) = some (content.renumber ρ) := by
  cases node with
  | stat id =>
    rcases Option.map_eq_some_iff.mp hcontent with ⟨s, hs, rfl⟩
    exact content?_of_stat? (h.stat id s hs)
  | expr id =>
    rcases Option.map_eq_some_iff.mp hcontent with ⟨e, he, rfl⟩
    exact content?_of_expr? (h.expr id e he)
  | var id =>
    rcases Option.map_eq_some_iff.mp hcontent with ⟨v, hv, rfl⟩
    exact content?_of_var? (h.var id v hv)

theorem children_eq (h : Renumbers ρ p q) (hcontent : p.content? node = some content) :
    q.children (node.renumber ρ) = (p.children node).map (Node.renumber ρ) := by
  rw [children_eq_of_content? (h.content?_eq hcontent), children_eq_of_content? hcontent,
    content.refs_renumber, filterMap_node?_renumber]

theorem roots_eq (h : Renumbers ρ p q) : q.roots = p.roots.map (Node.renumber ρ) := by
  unfold roots
  rw [h.items, ← filterMap_node?_renumber, Array.toList_map, List.flatMap_map, List.map_flatMap]
  simp only [Toplevel.refs_renumber]

theorem inside_eq (h : Renumbers ρ p q) (hcontent : p.content? node = some content)
    (around : List ExprId) :
    q.inside (node.renumber ρ) (around.map ρ.expr) = (p.inside node around).map ρ.expr := by
  unfold inside
  rw [h.content?_eq hcontent, hcontent]
  cases node with
  | expr id =>
    cases content with
    | expr k => cases k <;> rfl
    | _ => rfl
  | _ => rfl

/-- Simple names name the same declarations. -/
theorem named?_eq (h : Renumbers ρ p q) {id : VarId} {v : Var} (hv : p.var? id = some v) :
    q.named? (ρ.var id) = (p.named? id).map ρ.decl := by
  rw [named?_of_var? (h.var id v hv), named?_of_var? hv]
  exact v.kind.decl?_renumber

theorem candidate?_eq (h : Renumbers ρ p q) (hrange : p.InRange) {id : VarId} {v : Var}
    (hv : p.var? id = some v) : q.candidate? (ρ.var id) = (p.candidate? id).map ρ.decl := by
  unfold candidate?
  rw [h.named?_eq hv]
  cases hnamed : p.named? id with
  | none => rfl
  | some decl =>
    rw [named?_of_var? hv] at hnamed
    rcases hrange.exists_decl? hv hnamed with ⟨d, hd⟩
    simp only [Option.map_some, Option.bind_some, hd, h.decl decl d hd]
    split <;> rfl

theorem walk (h : Renumbers ρ p q) {nodes met : List Node} (hwalk : p.Walk nodes met)
    (hcontains : ∀ node ∈ met, p.contains (.node node) = true) :
    q.Walk (nodes.map (Node.renumber ρ)) (met.map (Node.renumber ρ)) := by
  induction hwalk with
  | nil => exact .nil
  | @cons node nodes below met _ _ ihbelow ihmet =>
    rw [List.forall_mem_cons, List.forall_mem_append, contains_iff_isSome,
      Option.isSome_iff_exists] at hcontains
    rcases hcontains with ⟨⟨content, hcontent⟩, hbelow, hmet⟩
    rw [List.map_cons, List.map_cons, List.map_append]
    apply Walk.cons _ (ihmet hmet)
    rw [h.children_eq hcontent]
    exact ihbelow hbelow

/-- The nodes of the second program form a tree if those of the first one do. -/
theorem valid (h : Renumbers ρ p q) (hvalid : p.Valid) : q.Valid := by
  rcases valid_iff.mp hvalid with ⟨hrange, met, hwalk, hnodup⟩
  have hcontains := hwalk.contains hrange fun _ hroot => contains_root hrange hroot
  rw [valid_iff]
  refine ⟨h.inRange, met.map (Node.renumber ρ), ?_, hnodup.map Node.renumber_injective⟩
  rw [h.roots_eq]
  exact h.walk hwalk hcontains

end Renumbers

end Upvalue

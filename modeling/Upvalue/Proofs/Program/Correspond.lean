import Upvalue.Proofs.Program.Renumber

/-!
This module contains nodes of two programs that correspond to each other. Corresponding nodes have
the same outline, apart from the handles of declarations, and they own corresponding nodes, so they
are expanded to the same trees.
-/

namespace Upvalue

variable {ρ : Renumbering}

/-! ### Outlines -/

section Shapes

theorem FuncDef.shape_renumber (func : FuncDef) :
    (func.renumber ρ).shape = func.shape.renumber ρ.decls := rfl

theorem Block.shape_renumber (block : Block) :
    (block.renumber ρ).shape = block.shape.renumber ρ.decls := by
  simp [Block.renumber, Block.shape, Function.comp_def, Renumbering.decls]

theorem funcs_shape_renumber (funcs : List FuncDef) :
    (funcs.map (FuncDef.renumber ρ)).map FuncDef.shape =
      (funcs.map FuncDef.shape).map (FuncDef.renumber ρ.decls) := by
  rw [List.map_map, List.map_map]
  rfl

theorem Toplevel.shape_renumber (item : Toplevel) :
    (item.renumber ρ).shape = item.shape.renumber ρ.decls := by
  cases item with
  | stats loc ids => simp [Toplevel.renumber, Toplevel.shape, Function.comp_def, Renumbering.decls]
  | functions loc funcs => exact congrArg (Toplevel.functions loc) (funcs_shape_renumber funcs)
  | record loc name fields ty => rfl
  | typealias loc name written ty => rfl

theorem Stat.shape_renumber (s : Stat) : (s.renumber ρ).shape = s.shape.renumber ρ.decls := by
  cases s with
  | functions loc funcs => exact congrArg (Stat.functions loc) (funcs_shape_renumber funcs)
  | branch loc condition thenBlock elseBlock =>
    cases elseBlock <;> simp [Stat.renumber, Stat.shape, Block.shape_renumber, Renumbering.decls]
  | forNum loc id start limit step body =>
    cases step <;> simp [Stat.renumber, Stat.shape, Block.shape_renumber, Renumbering.decls]
  | _ =>
    simp [Stat.renumber, Stat.shape, Block.shape_renumber, Function.comp_def, Renumbering.decls]

theorem ExprKind.shape_renumber (k : ExprKind) :
    (k.renumber ρ).shape = k.shape.renumber ρ.decls := by
  cases k <;>
    simp [ExprKind.renumber, ExprKind.shape, InitField.renumber, Block.shape_renumber,
      Function.comp_def, Renumbering.decls]

theorem VarKind.shape_renumber (k : VarKind) :
    (k.renumber ρ).shape = k.shape.renumber ρ.decls := by
  cases k with
  | name text target => cases target <;> rfl
  | _ => rfl

end Shapes

def Outline.renumber (ρ : Renumbering) : Outline → Outline
  | .stat shape => .stat (shape.renumber ρ)
  | .expr loc ty shape => .expr loc ty (shape.renumber ρ)
  | .var loc ty shape => .var loc ty (shape.renumber ρ)

namespace Program

/-- Nodes of two programs have the same outline, apart from the handles of declarations. -/
def SameOutline (ρ : Renumbering) (p q : Program) (node node' : Node) : Prop :=
  ∃ outline, p.outline? node = some outline ∧ q.outline? node' = some (outline.renumber ρ.decls)

/-- Corresponding nodes have the same outlines and own corresponding nodes. -/
structure Corresponds (ρ : Renumbering) (p q : Program) (R : Node → Node → Prop) : Prop where
  outline : ∀ node node', R node node' → SameOutline ρ p q node node'
  children : ∀ node node', R node node' → List.Forall₂ R (p.children node) (q.children node')
  unique : ∀ node node' other other', R node node' → R other other' →
    (node = other ↔ node' = other')

variable {p q : Program} {R : Node → Node → Prop}

theorem outline?_eq_none {node : Node} (h : p.content? node = none) : p.outline? node = none := by
  cases node with
  | stat id => exact Option.map_eq_none_iff.mpr (Option.map_eq_none_iff.mp h)
  | expr id => exact Option.map_eq_none_iff.mpr (Option.map_eq_none_iff.mp h)
  | var id => exact Option.map_eq_none_iff.mpr (Option.map_eq_none_iff.mp h)

/-- Corresponding nodes are expanded to the same trees. -/
theorem Corresponds.expands (h : Corresponds ρ p q R) {nodes nodes' : List Node} {trees : Forest}
    (hnodes : List.Forall₂ R nodes nodes') (htrees : p.Expands nodes trees) :
    q.Expands nodes' (trees.map (Outline.renumber ρ.decls)) := by
  induction htrees generalizing nodes' with
  | nil =>
    cases hnodes
    exact .nil
  | cons houtline _ _ ihbelow ihrest =>
    cases hnodes with
    | cons hnode hnodes =>
      rcases h.outline _ _ hnode with ⟨outline, hleft, hright⟩
      rw [houtline] at hleft
      cases hleft
      exact .cons hright (ihbelow (h.children _ _ hnode)) (ihrest hnodes)

end Program

namespace Renumbers

open Program

variable {p q : Program}

theorem outline?_eq (h : Renumbers ρ p q) {node : Node} {outline : Outline}
    (houtline : p.outline? node = some outline) :
    q.outline? (node.renumber ρ) = some (outline.renumber ρ.decls) := by
  cases node with
  | stat id =>
    rcases Option.map_eq_some_iff.mp houtline with ⟨s, hs, rfl⟩
    refine Option.map_eq_some_iff.mpr ⟨_, h.stat id s hs, ?_⟩
    rw [s.shape_renumber]
    rfl
  | expr id =>
    rcases Option.map_eq_some_iff.mp houtline with ⟨e, he, rfl⟩
    rw [Node.renumber, outline?_of_expr? (h.expr id e he)]
    simp only [Expr.renumber, ExprKind.shape_renumber, Outline.renumber]
  | var id =>
    rcases Option.map_eq_some_iff.mp houtline with ⟨v, hv, rfl⟩
    rw [Node.renumber, outline?_of_var? (h.var id v hv)]
    simp only [Var.renumber, VarKind.shape_renumber, Outline.renumber]

/-- A node that is there corresponds to the one with its new handle. -/
theorem corresponds (h : Renumbers ρ p q) (hrange : p.InRange) :
    Corresponds ρ p q fun node node' =>
      p.contains (.node node) = true ∧ node' = node.renumber ρ := by
  constructor
  . rintro node node' ⟨hnode, rfl⟩
    rcases exists_outline? hnode with ⟨outline, houtline⟩
    exact ⟨outline, houtline, h.outline?_eq houtline⟩
  . rintro node node' ⟨hnode, rfl⟩
    rw [contains_iff_isSome, Option.isSome_iff_exists] at hnode
    rcases hnode with ⟨content, hcontent⟩
    rw [h.children_eq hcontent, List.forall₂_map_right_iff, List.forall₂_same]
    intro child hchild
    exact ⟨contains_child hrange hchild, rfl⟩
  . rintro node node' other other' ⟨-, rfl⟩ ⟨-, rfl⟩
    rw [Node.renumber_inj]

end Renumbers

end Upvalue

import Upvalue.Proofs.Program.Within

/-!
This module contains the trees that programs stand for. A tree says everything about the nodes that
can be reached but in which slots they are.
-/

namespace Upvalue

def FuncDef.shape (func : FuncDef) : FuncDef :=
  { func with value := ⟨0⟩ }

def Block.shape (block : Block) : Block :=
  ⟨block.stats.map fun _ => ⟨0⟩⟩

/-- An item with the handles of its nodes left out. -/
def Toplevel.shape : Toplevel → Toplevel
  | .stats loc ids => .stats loc (ids.map fun _ => ⟨0⟩)
  | .functions loc funcs => .functions loc (funcs.map FuncDef.shape)
  | .record loc name fields ty => .record loc name fields ty
  | .typealias loc name written ty => .typealias loc name written ty

/-- A statement with the handles of its nodes left out. -/
def Stat.shape : Stat → Stat
  | .decl loc decls exps => .decl loc decls (exps.map fun _ => ⟨0⟩)
  | .assign loc vars exps => .assign loc (vars.map fun _ => ⟨0⟩) (exps.map fun _ => ⟨0⟩)
  | .functions loc funcs => .functions loc (funcs.map FuncDef.shape)
  | .ret loc exps => .ret loc (exps.map fun _ => ⟨0⟩)
  | .block loc body => .block loc body.shape
  | .whileLoop loc _ body => .whileLoop loc ⟨0⟩ body.shape
  | .repeatLoop loc body _ => .repeatLoop loc body.shape ⟨0⟩
  | .branch loc _ thenBlock elseBlock =>
    .branch loc ⟨0⟩ thenBlock.shape (elseBlock.map Block.shape)
  | .forNum loc id _ _ step body =>
    .forNum loc id ⟨0⟩ ⟨0⟩ (step.map fun _ => ⟨0⟩) body.shape
  | .forIn loc decls exps body => .forIn loc decls (exps.map fun _ => ⟨0⟩) body.shape
  | .call loc _ => .call loc ⟨0⟩
  | .breakLoop loc => .breakLoop loc

/-- An expression with the handles of its nodes left out. -/
def ExprKind.shape : ExprKind → ExprKind
  | .initList fields => .initList (fields.map fun field => { field with exp := ⟨0⟩ })
  | .lambda params body => .lambda params body.shape
  | .call _ args => .call ⟨0⟩ (args.map fun _ => ⟨0⟩)
  | .methodCall _ method args => .methodCall ⟨0⟩ method (args.map fun _ => ⟨0⟩)
  | .var _ => .var ⟨0⟩
  | .unop op _ => .unop op ⟨0⟩
  | .binop _ op _ => .binop ⟨0⟩ op ⟨0⟩
  | .cast _ target => .cast ⟨0⟩ target
  | .toFloat _ => .toFloat ⟨0⟩
  | .paren _ => .paren ⟨0⟩
  | .nil => .nil
  | .bool value => .bool value
  | .integer value => .integer value
  | .float value => .float value
  | .string value => .string value

/-- A variable form with the handles of its nodes left out. -/
def VarKind.shape : VarKind → VarKind
  | .name text target => .name text target
  | .dot _ field => .dot ⟨0⟩ field
  | .bracket _ _ => .bracket ⟨0⟩ ⟨0⟩

/-- What a tree says about one node. The nodes that the node owns are the trees below it. -/
inductive Outline where
  | stat (shape : Stat)
  | expr (loc : Span) (ty : Ty) (shape : ExprKind)
  | var (loc : Span) (ty : Ty) (shape : VarKind)
deriving Repr

/-- Trees in a row: the outline of the first one, the trees below it, and the other trees. -/
inductive Forest where
  | nil
  | cons (outline : Outline) (below rest : Forest)
deriving Repr

/-- Change all outlines. -/
def Forest.map (f : Outline → Outline) : Forest → Forest
  | .nil => .nil
  | .cons outline below rest => .cons (f outline) (below.map f) (rest.map f)

/-- A program without its slots. -/
structure Tree where
  files : Array String
  items : Array Toplevel
  decls : Array Decl
  nodes : Forest

namespace Program

/-- What a tree says about a node, `none` if the node is out of range. -/
def outline? (p : Program) : Node → Option Outline
  | .stat id => (p.stat? id).map fun s => .stat s.shape
  | .expr id => (p.expr? id).map fun e => .expr e.loc e.ty e.kind.shape
  | .var id => (p.var? id).map fun v => .var v.loc v.ty v.kind.shape

/-- The trees of nodes, cut off where there are more than `depth` nodes on the way. -/
def forest (p : Program) : Nat → List Node → Forest
  | 0, _ => .nil
  | _ + 1, [] => .nil
  | depth + 1, node :: nodes =>
    match p.outline? node with
    | some outline => .cons outline (p.forest depth (p.children node)) (p.forest depth nodes)
    | none => .nil

/-- The tree of a program. No way is longer than the number of slots if the nodes form a tree. -/
def tree (p : Program) : Tree :=
  ⟨p.files, p.items.map Toplevel.shape, p.decls, p.forest p.slotCount p.roots⟩

/-- The trees of nodes are complete. -/
inductive Expands (p : Program) : List Node → Forest → Prop where
  | nil : Expands p [] .nil
  | cons {node : Node} {nodes : List Node} {outline : Outline} {below rest : Forest}
      (houtline : p.outline? node = some outline) (hbelow : Expands p (p.children node) below)
      (hrest : Expands p nodes rest) : Expands p (node :: nodes) (.cons outline below rest)

theorem outline?_stat (p : Program) (id : StatId) :
    p.outline? (.stat id) = (p.stat? id).map fun s => .stat s.shape := rfl

theorem outline?_expr (p : Program) (id : ExprId) :
    p.outline? (.expr id) = (p.expr? id).map fun e => .expr e.loc e.ty e.kind.shape := rfl

theorem outline?_var (p : Program) (id : VarId) :
    p.outline? (.var id) = (p.var? id).map fun v => .var v.loc v.ty v.kind.shape := rfl

variable {p : Program}

theorem SameSlot.outline? {q : Program} {node : Node} (h : SameSlot p q node) :
    q.outline? node = p.outline? node := by
  cases node with
  | stat id => rw [outline?_stat, outline?_stat, sameSlot_stat.mp h]
  | expr id => rw [outline?_expr, outline?_expr, sameSlot_expr.mp h]
  | var id => rw [outline?_var, outline?_var, sameSlot_var.mp h]

theorem outline?_of_expr? {id : ExprId} {expr : Expr} (h : p.expr? id = some expr) :
    p.outline? (.expr id) = some (.expr expr.loc expr.ty expr.kind.shape) := by
  rw [outline?_expr, h, Option.map_some]

theorem outline?_of_var? {id : VarId} {var : Var} (h : p.var? id = some var) :
    p.outline? (.var id) = some (.var var.loc var.ty var.kind.shape) := by
  rw [outline?_var, h, Option.map_some]

theorem exists_expr?_of_outline? {node : Node} {loc : Span} {ty : Ty} {shape : ExprKind}
    (h : p.outline? node = some (.expr loc ty shape)) :
    ∃ id kind, node = .expr id ∧ p.expr? id = some ⟨loc, ty, kind⟩ ∧ kind.shape = shape := by
  cases node with
  | stat id =>
    rw [outline?_stat, Option.map_eq_some_iff] at h
    rcases h with ⟨_, -, heq⟩
    cases heq
  | expr id =>
    rw [outline?_expr, Option.map_eq_some_iff] at h
    rcases h with ⟨⟨loc', ty', kind⟩, hexpr, heq⟩
    cases heq
    exact ⟨id, kind, rfl, hexpr, rfl⟩
  | var id =>
    rw [outline?_var, Option.map_eq_some_iff] at h
    rcases h with ⟨_, -, heq⟩
    cases heq

theorem named?_of_outline? {node : Node} {loc : Span} {ty : Ty} {text : String} {decl : DeclId}
    (h : p.outline? node = some (.var loc ty (.name text (.variable decl)))) :
    ∃ id, node = .var id ∧ p.named? id = some decl := by
  cases node with
  | stat id =>
    rw [outline?_stat, Option.map_eq_some_iff] at h
    rcases h with ⟨_, -, heq⟩
    cases heq
  | expr id =>
    rw [outline?_expr, Option.map_eq_some_iff] at h
    rcases h with ⟨_, -, heq⟩
    cases heq
  | var id =>
    rw [outline?_var, Option.map_eq_some_iff] at h
    rcases h with ⟨var, hvar, heq⟩
    injection heq with _ _ hkind
    refine ⟨id, rfl, ?_⟩
    rw [named?_of_var? hvar]
    cases hshape : var.kind with
    | name text' target =>
      rw [hshape] at hkind
      cases hkind
      rfl
    | dot exp field =>
      rw [hshape] at hkind
      cases hkind
    | bracket table key =>
      rw [hshape] at hkind
      cases hkind

theorem children_of_expr? {id : ExprId} {expr : Expr} (h : p.expr? id = some expr) :
    p.children (.expr id) = expr.kind.refs.filterMap Ref.node? := by
  rw [children_eq_of_content? (content?_of_expr? h)]
  rfl

theorem children_of_var? {id : VarId} {var : Var} (h : p.var? id = some var) :
    p.children (.var id) = var.kind.refs.filterMap Ref.node? := by
  rw [children_eq_of_content? (content?_of_var? h)]
  rfl

theorem Expands.unique {nodes : List Node} {trees trees' : Forest} (h : p.Expands nodes trees)
    (h' : p.Expands nodes trees') : trees = trees' := by
  induction h generalizing trees' with
  | nil =>
    cases h'
    rfl
  | cons houtline _ _ ihbelow ihrest =>
    cases h' with
    | cons houtline' hbelow' hrest' =>
      rw [houtline] at houtline'
      cases houtline'
      rw [ihbelow hbelow', ihrest hrest']

theorem exists_outline? {node : Node} (h : p.contains (.node node) = true) :
    ∃ outline, p.outline? node = some outline := by
  rw [contains_iff_isSome, Option.isSome_iff_exists] at h
  rcases h with ⟨content, hcontent⟩
  cases node with
  | stat id =>
    rw [content?_stat, Option.map_eq_some_iff] at hcontent
    rcases hcontent with ⟨stat, hstat, -⟩
    exact ⟨_, congrArg (Option.map _) hstat⟩
  | expr id =>
    rw [content?_expr, Option.map_eq_some_iff] at hcontent
    rcases hcontent with ⟨expr, hexpr, -⟩
    exact ⟨_, outline?_of_expr? hexpr⟩
  | var id =>
    rw [content?_var, Option.map_eq_some_iff] at hcontent
    rcases hcontent with ⟨var, hvar, -⟩
    exact ⟨_, outline?_of_var? hvar⟩

theorem Walk.expands {nodes met : List Node} (h : p.Walk nodes met)
    (hmet : ∀ node ∈ met, p.contains (.node node) = true) {depth : Nat}
    (hdepth : met.length ≤ depth) : p.Expands nodes (p.forest depth nodes) := by
  -- Every node on the way takes one from the depth, and it is met once more than what is below it.
  induction h generalizing depth with
  | nil => cases depth <;> exact .nil
  | @cons node nodes below met _ _ ihbelow ihmet =>
    rw [List.length_cons, List.length_append] at hdepth
    cases depth with
    | zero => omega
    | succ depth =>
      rcases exists_outline? (hmet node List.mem_cons_self) with ⟨outline, houtline⟩
      unfold forest
      rw [houtline]
      apply Expands.cons houtline
      . apply ihbelow
        . intro n hn
          exact hmet n (List.mem_cons_of_mem _ (List.mem_append_left _ hn))
        . omega
      . apply ihmet
        . intro n hn
          exact hmet n (List.mem_cons_of_mem _ (List.mem_append_right _ hn))
        . omega

/-- The tree of a program that passes the check is complete. -/
theorem Valid.expands (h : p.Valid) : p.Expands p.roots p.tree.nodes := by
  rcases valid_iff.mp h with ⟨hrange, met, hwalk, hnodup⟩
  have hmet := hwalk.contains hrange fun _ hroot => contains_root hrange hroot
  exact hwalk.expands hmet (length_le_slotCount hnodup hmet)

end Program

end Upvalue

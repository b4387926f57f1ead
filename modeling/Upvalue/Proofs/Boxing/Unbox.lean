import Upvalue.Proofs.Boxing.Complete
import Upvalue.Proofs.Boxing.Validity
import Upvalue.Proofs.Program.Tree

/-!
This module contains the proof that boxing can be undone: if the variables in the tree that a run
leaves behind are taken out of their boxes, the first tree is back.
-/

namespace Upvalue

namespace Program

/-- A variable form is the access to a field of a simple name. -/
def Accesses (p : Program) (field : String) (access name : VarId) : Prop :=
  ∃ loc ty base loc' ty', p.var? access = some ⟨loc, ty, .dot base field⟩ ∧
    p.expr? base = some ⟨loc', ty', .var name⟩

/-- An expression is a constructor that gives a value to a single field. -/
def Constructs (p : Program) (field : String) (id : ExprId) : Prop :=
  ∃ loc ty value, p.expr? id = some ⟨loc, ty, .initList [⟨some field, value⟩]⟩

end Program

namespace Outline

/-- The declarations that stand next to the trees below. -/
def decls : Outline → List DeclId
  | .stat (.decl _ decls _) => decls
  | _ => []

/-- Names of boxed variables have the types of their declarations. -/
def annotate (types : Array Decl) (boxed : List DeclId) : Outline → Outline
  | .var loc ty (.name name (.variable decl)) =>
    if decl ∈ boxed then
      .var loc ((types[decl.index.toNat]?.map Decl.ty).getD ty) (.name name (.variable decl))
    else .var loc ty (.name name (.variable decl))
  | outline => outline

end Outline

namespace Forest

variable (field : String) (boxed : List DeclId)

/--
If a tree is the access to the field of a boxed variable, the name of the variable, with the type of
the access.
-/
def name? : Outline → Forest → Option Outline
  | .var _ ty (.dot _ f),
    .cons (.expr _ _ (.var _)) (.cons (.var loc _ (.name name (.variable decl))) .nil .nil) .nil =>
    if f = field ∧ decl ∈ boxed then some (.var loc ty (.name name (.variable decl))) else none
  | _, _ => none

/-- If a tree stands next to a boxed variable and constructs its box, the tree of the value. -/
def unwrap (decls : List DeclId) (outline : Outline) (below : Forest) : Outline × Forest :=
  match decls, outline, below with
  | decl :: _, .expr _ _ (.initList [⟨some f, _⟩]), .cons value inner .nil =>
    if f = field ∧ decl ∈ boxed then (value, inner) else (outline, below)
  | _, _, _ => (outline, below)

/-- Take the boxed variables out of their boxes, in trees that stand next to declarations. -/
def unbox : List DeclId → Forest → Forest
  | _, .nil => .nil
  | decls, .cons outline below rest =>
    match name? field boxed outline below with
    | some name => .cons name .nil (unbox decls.tail rest)
    | none =>
      let value := unwrap field boxed decls outline (unbox outline.decls below)
      .cons value.1 value.2 (unbox decls.tail rest)

end Forest

namespace Tree

/-- Give a declaration the type of the field of its type. -/
def restore (field : String) (decl : DeclId) (decls : Array Decl) : Array Decl :=
  decls.modify decl.index.toNat fun d => { d with ty := (d.ty.fieldType? field).getD d.ty }

/--
Take boxed variables out of their boxes: accesses become names, constructors become values, the
types of the boxes are dropped and declarations have the types of the fields.
-/
def unbox (field : String) (boxed : List DeclId) (tree : Tree) : Tree :=
  { files := tree.files
    items := tree.items.take (tree.items.size - boxed.length)
    decls := boxed.foldr (restore field) tree.decls
    nodes := tree.nodes.unbox field boxed [] }

/-- Names of boxed variables have the types of their declarations. -/
def annotate (boxed : List DeclId) (tree : Tree) : Tree :=
  { tree with nodes := tree.nodes.map (Outline.annotate tree.decls boxed) }

end Tree

namespace Boxing

open Program

/-- What the slot of a node holds after variables of the first program were put in boxes. -/
inductive Slot (field : String) (boxed : List DeclId) (p q : Program) : Node → Prop where
  | kept {node : Node} (houtline : q.outline? node = p.outline? node)
      (hchildren : q.children node = p.children node)
      (hvalue : ∀ decl ∈ boxed, ∀ id, node = .expr id → ¬ p.Initializes decl id)
      (hname : ∀ decl ∈ boxed, ∀ id, node = .var id → p.named? id ≠ some decl) :
      Slot field boxed p q node
  | value {decl : DeclId} {id moved : ExprId} {expr : Expr} {ty : Ty} (hdecl : decl ∈ boxed)
      (hinitializes : p.Initializes decl id) (hexpr : p.expr? id = some expr)
      (hwrapper : q.expr? id = some ⟨expr.loc, ty, .initList [⟨some field, moved⟩]⟩)
      (hmoved : q.expr? moved = some expr) : Slot field boxed p q (.expr id)
  | name {decl : DeclId} {d : Decl} {id moved : VarId} {base : ExprId} {loc : Span} {ty ty' : Ty}
      {text : String} (hdecl : decl ∈ boxed) (hd : p.decl? decl = some d)
      (hvar : p.var? id = some ⟨loc, ty, .name text (.variable decl)⟩)
      (haccess : q.var? id = some ⟨loc, d.ty, .dot base field⟩)
      (hbase : q.expr? base = some ⟨loc, ty', .var moved⟩)
      (hmoved : q.var? moved = some ⟨loc, ty', .name text (.variable decl)⟩) :
      Slot field boxed p q (.var id)

variable {field : String} {boxed : List DeclId} {p q : Program}

section Nodes

variable {loc : Span} {ty : Ty}

theorem children_constructor {id value : ExprId}
    (h : p.expr? id = some ⟨loc, ty, .initList [⟨some field, value⟩]⟩) :
    p.children (.expr id) = [.expr value] :=
  children_of_expr? h

theorem children_base {id : ExprId} {name : VarId} (h : p.expr? id = some ⟨loc, ty, .var name⟩) :
    p.children (.expr id) = [.var name] :=
  children_of_expr? h

theorem children_access {id : VarId} {base : ExprId}
    (h : p.var? id = some ⟨loc, ty, .dot base field⟩) : p.children (.var id) = [.expr base] :=
  children_of_var? h

theorem children_name {id : VarId} {text : String} {decl : DeclId}
    (h : p.var? id = some ⟨loc, ty, .name text (.variable decl)⟩) : p.children (.var id) = [] :=
  children_of_var? h

theorem InBoxes.slot_expr (h : InBoxes field boxed p q) {id : ExprId} {expr : Expr}
    (hexpr : p.expr? id = some expr) : Slot field boxed p q (.expr id) := by
  by_cases hvalue : ∃ decl ∈ boxed, p.Initializes decl id
  . rcases hvalue with ⟨decl, hdecl, hvalue⟩
    rcases h.value decl hdecl id hvalue with ⟨expr, ty, moved, hexpr, hwrapper, hmoved⟩
    exact .value hdecl hvalue hexpr hwrapper hmoved
  . have hnot : ∀ decl ∈ boxed, ¬ p.Initializes decl id := by
      intro decl hdecl hvalue'
      exact hvalue ⟨decl, hdecl, hvalue'⟩
    have hkept := h.expr id expr hexpr hnot
    refine .kept ?_ ?_ ?_ (fun _ _ _ heq => by cases heq)
    . rw [outline?_of_expr? hkept, outline?_of_expr? hexpr]
    . rw [children_of_expr? hkept, children_of_expr? hexpr]
    . intro decl hdecl id' heq
      injection heq with heq
      subst heq
      exact hnot decl hdecl

theorem InBoxes.slot_var (h : InBoxes field boxed p q) {id : VarId} {var : Var}
    (hid : p.Reachable (.var id)) (hvar : p.var? id = some var) :
    Slot field boxed p q (.var id) := by
  by_cases hname : ∃ decl ∈ boxed, p.named? id = some decl
  . rcases hname with ⟨decl, hdecl, hnamed⟩
    rcases h.name decl hdecl id hid hnamed with
      ⟨var, d, ty, base, moved, hvar, hd, haccess, hbase, hmoved⟩
    rcases exists_var?_of_named? hnamed with ⟨loc, ty', text, hvar'⟩
    rw [hvar] at hvar'
    cases hvar'
    exact .name hdecl hd hvar haccess hbase hmoved
  . have hnot : ∀ decl ∈ boxed, p.named? id ≠ some decl := by
      intro decl hdecl hnamed
      exact hname ⟨decl, hdecl, hnamed⟩
    have hkept := h.var id var hvar hnot
    refine .kept ?_ ?_ (fun _ _ _ heq => by cases heq) ?_
    . rw [outline?_of_var? hkept, outline?_of_var? hvar]
    . rw [children_of_var? hkept, children_of_var? hvar]
    . intro decl hdecl id' heq
      injection heq with heq
      subst heq
      exact hnot decl hdecl

/-- Every node that could be reached before is in its slot, or it is in a box. -/
theorem InBoxes.slot (h : InBoxes field boxed p q) (hvalid : p.Valid) {node : Node}
    (hnode : p.Reachable node) : Slot field boxed p q node := by
  have hcontains := contains_iff_isSome.mp (hnode.contains hvalid)
  cases node with
  | stat id =>
    refine .kept ?_ ?_ (fun _ _ _ heq => by cases heq) (fun _ _ _ heq => by cases heq)
    . rw [outline?_stat, outline?_stat, h.stat]
    . apply children_congr
      rw [content?_stat, content?_stat, h.stat]
  | expr id =>
    rw [content?_expr, Option.isSome_map, Option.isSome_iff_exists] at hcontains
    rcases hcontains with ⟨expr, hexpr⟩
    exact h.slot_expr hexpr
  | var id =>
    rw [content?_var, Option.isSome_map, Option.isSome_iff_exists] at hcontains
    rcases hcontains with ⟨var, hvar⟩
    exact h.slot_var hnode hvar

theorem InBoxes.named?_ne (h : InBoxes field boxed p q) (hvalid : p.Valid) {id : VarId}
    (hid : p.Reachable (.var id)) {decl : DeclId} (hdecl : decl ∈ boxed) :
    q.named? id ≠ some decl := by
  intro hnamed
  cases h.slot hvalid hid with
  | kept houtline _ _ hname =>
    rcases exists_var?_of_named? hnamed with ⟨loc, ty, text, hvar⟩
    rw [outline?_of_var? hvar] at houtline
    rcases named?_of_outline? houtline.symm with ⟨id', heq, hnamed'⟩
    cases heq
    exact hname decl hdecl id rfl hnamed'
  | name _ _ _ haccess =>
    rw [named?_of_var? haccess] at hnamed
    cases hnamed

theorem InBoxes.reachable_name (h : InBoxes field boxed p q) (hvalid : p.Valid) {id : ExprId}
    (hid : p.Reachable (.expr id)) {loc : Span} {ty : Ty} {name : VarId}
    (hexpr : q.expr? id = some ⟨loc, ty, .var name⟩) : p.Reachable (.var name) := by
  cases h.slot hvalid hid with
  | kept _ hchildren =>
    apply reachable_child hid
    rw [← hchildren, children_of_expr? hexpr]
    exact List.mem_singleton.mpr rfl
  | value _ _ _ hwrapper =>
    rw [hwrapper] at hexpr
    cases hexpr

end Nodes

section Trees

variable {loc : Span} {ty : Ty}

/-- The nodes of a list stand next to the boxed variables that they initialize. -/
def Aligned (p : Program) (boxed decls : List DeclId) (nodes : List Node) : Prop :=
  ∀ (i : Nat) id, nodes[i]? = some (.expr id) → ∀ decl ∈ boxed,
    (p.Initializes decl id ↔ decls[i]? = some decl)

theorem Aligned.tail {decls : List DeclId} {node : Node} {nodes : List Node}
    (h : Aligned p boxed decls (node :: nodes)) : Aligned p boxed decls.tail nodes := by
  intro i id hid decl hdecl
  rw [List.getElem?_tail]
  exact h (i + 1) id hid decl hdecl

theorem aligned_roots (hvalid : p.Valid) : Aligned p boxed [] p.roots := by
  intro i id hid decl _
  constructor
  . rintro ⟨stat, loc, decls, exps, i', hstat, hdecls, -, hvalue⟩
    exfalso
    apply hvalid.not_mem_roots hstat _ (List.mem_of_getElem? hid)
    rw [children_decl hdecls]
    exact List.mem_map_of_mem (List.mem_of_getElem? hvalue)
  . intro hnone
    cases hnone

/-- Only the outline of a declaration names variables. -/
theorem exists_decl_of_decls {node : Node} {outline : Outline}
    (houtline : p.outline? node = some outline) {i : Nat} {decl : DeclId}
    (hdecl : outline.decls[i]? = some decl) :
    ∃ stat loc decls exps, node = .stat stat ∧ p.stat? stat = some (.decl loc decls exps) ∧
      decls[i]? = some decl := by
  unfold Outline.decls at hdecl
  split at hdecl
  . next loc decls _ =>
    cases node with
    | stat stat =>
      rw [outline?_stat, Option.map_eq_some_iff] at houtline
      rcases houtline with ⟨s, hstat, heq⟩
      injection heq with heq
      cases s <;> cases heq
      next exps => exact ⟨stat, loc, decls, exps, rfl, hstat, hdecl⟩
    | expr _ =>
      rw [outline?_expr, Option.map_eq_some_iff] at houtline
      rcases houtline with ⟨_, -, heq⟩
      cases heq
    | var _ =>
      rw [outline?_var, Option.map_eq_some_iff] at houtline
      rcases houtline with ⟨_, -, heq⟩
      cases heq
  . cases hdecl

theorem aligned_children (hvalid : p.Valid) {node : Node} (hnode : p.Reachable node)
    {outline : Outline} (houtline : p.outline? node = some outline) :
    Aligned p boxed outline.decls (p.children node) := by
  intro i id hid decl _
  constructor
  . rintro ⟨stat, loc, decls, exps, i', hstat, hdecls, hdecl, hvalue⟩
    have hchild : (p.children (.stat stat))[i']? = some (.expr id) := by
      rw [children_decl hdecls, List.getElem?_map, hvalue, Option.map_some]
    -- The value stands at one place in the program, and this is in the declaration.
    rcases hvalid.owner_unique hnode hstat hid hchild with ⟨rfl, rfl⟩
    rw [outline?_stat, hdecls] at houtline
    cases houtline
    exact hdecl
  . intro hdecl
    rcases exists_decl_of_decls houtline hdecl with ⟨stat, loc, decls, exps, rfl, hstat, hdecl⟩
    rw [children_decl hstat, List.getElem?_map, Option.map_eq_some_iff] at hid
    rcases hid with ⟨value, hvalue, heq⟩
    cases heq
    exact ⟨stat, loc, decls, exps, i, hnode, hstat, hdecl, hvalue⟩

theorem annotate_eq_self {types : Array Decl} {node : Node} {outline : Outline}
    (houtline : p.outline? node = some outline)
    (hname : ∀ decl ∈ boxed, ∀ id, node = .var id → p.named? id ≠ some decl) :
    outline.annotate types boxed = outline := by
  unfold Outline.annotate
  split
  . next loc ty text decl =>
    rcases named?_of_outline? houtline with ⟨id, hnode, hnamed⟩
    rw [if_neg]
    intro hdecl
    exact hname decl hdecl id hnode hnamed
  . rfl

theorem InBoxes.name?_eq_none (h : InBoxes field boxed p q) (hvalid : p.Valid) {node : Node}
    (hnode : p.Reachable node) {outline : Outline} {below : Forest}
    (hbelow : q.Expands (p.children node) below) :
    Forest.name? field boxed outline below = none := by
  cases hname : Forest.name? field boxed outline below with
  | none => rfl
  | some name =>
    exfalso
    unfold Forest.name? at hname
    split at hname
    . next _ ty _ f _ _ _ loc _ text decl =>
      split at hname
      . next hboxed =>
        generalize hnodes : p.children node = nodes at hbelow
        cases hbelow with
        | cons houtline hbelow =>
          rcases exists_expr?_of_outline? houtline with ⟨base, kind, rfl, hbase, hshape⟩
          have hbase' : p.Reachable (.expr base) := by
            apply reachable_child hnode
            rw [hnodes]
            exact List.mem_cons_self
          cases kind <;> cases hshape
          next name =>
          rw [children_of_expr? hbase] at hbelow
          cases hbelow with
          | cons houtline' _ _ =>
            rcases named?_of_outline? houtline' with ⟨id, heq, hnamed⟩
            cases heq
            exact h.named?_ne hvalid (h.reachable_name hvalid hbase' hbase) hboxed.2 hnamed
      . cases hname
    . cases hname

theorem unwrap_eq_self {decls : List DeclId} {outline : Outline} {below : Forest}
    (h : ∀ decl, decls.head? = some decl → decl ∉ boxed) :
    Forest.unwrap field boxed decls outline below = (outline, below) := by
  unfold Forest.unwrap
  split
  . next decl _ _ _ _ _ _ _ =>
    rw [if_neg]
    rintro ⟨-, hdecl⟩
    exact h decl rfl hdecl
  . rfl

theorem unwrap_eq_self_of_ne {decls : List DeclId} {outline : Outline} {below : Forest}
    (h : ∀ loc ty kind, outline ≠ .expr loc ty kind) :
    Forest.unwrap field boxed decls outline below = (outline, below) := by
  unfold Forest.unwrap
  split
  . exact absurd rfl (h _ _ _)
  . rfl

theorem unwrap_eq_of_kept {node : Node} {nodes : List Node} {decls : List DeclId}
    (haligned : Aligned p boxed decls (node :: nodes))
    (hvalue : ∀ decl ∈ boxed, ∀ id, node = .expr id → ¬ p.Initializes decl id)
    {outline : Outline} (houtline : p.outline? node = some outline) {below : Forest} :
    Forest.unwrap field boxed decls outline below = (outline, below) := by
  cases node with
  | stat id =>
    apply unwrap_eq_self_of_ne
    rintro loc ty kind rfl
    rcases exists_expr?_of_outline? houtline with ⟨_, _, heq, -, -⟩
    cases heq
  | expr id =>
    apply unwrap_eq_self
    intro decl hhead hdecl
    rw [List.head?_eq_getElem?] at hhead
    exact hvalue decl hdecl id rfl ((haligned 0 id rfl decl hdecl).mpr hhead)
  | var id =>
    apply unwrap_eq_self_of_ne
    rintro loc ty kind rfl
    rcases exists_expr?_of_outline? houtline with ⟨_, _, heq, -, -⟩
    cases heq

theorem unbox_kept {decls : List DeclId} {outline : Outline} {below rest : Forest}
    (hname : Forest.name? field boxed outline below = none)
    (hvalue : Forest.unwrap field boxed decls outline (below.unbox field boxed outline.decls) =
      (outline, below.unbox field boxed outline.decls)) :
    (Forest.cons outline below rest).unbox field boxed decls =
      .cons outline (below.unbox field boxed outline.decls)
        (rest.unbox field boxed decls.tail) := by
  rw [Forest.unbox, hname]
  dsimp only
  rw [hvalue]

theorem unbox_constructor {decl : DeclId} (hdecl : decl ∈ boxed) (decls : List DeclId)
    (loc loc' : Span) (ty ty' : Ty) (kind : ExprKind) (below rest : Forest) :
    (Forest.cons (.expr loc ty (.initList [⟨some field, ⟨0⟩⟩]))
      (.cons (.expr loc' ty' kind) below .nil) rest).unbox field boxed (decl :: decls) =
      .cons (.expr loc' ty' kind) (below.unbox field boxed []) (rest.unbox field boxed decls) := by
  simp [Forest.unbox, Forest.name?, Forest.unwrap, Outline.decls, hdecl]

theorem unbox_access {decl : DeclId} (hdecl : decl ∈ boxed) (decls : List DeclId)
    (loc loc' loc'' : Span) (ty ty' ty'' : Ty) (text : String) (rest : Forest) :
    (Forest.cons (.var loc ty (.dot ⟨0⟩ field)) (.cons (.expr loc' ty' (.var ⟨0⟩))
      (.cons (.var loc'' ty'' (.name text (.variable decl))) .nil .nil) .nil) rest).unbox field
        boxed decls =
      .cons (.var loc'' ty (.name text (.variable decl))) .nil
        (rest.unbox field boxed decls.tail) := by
  simp [Forest.unbox, Forest.name?, hdecl]

/-- The tree of a constructor whose field is the value. -/
theorem expands_constructor {id moved : ExprId} {expr : Expr} {below : Forest}
    (hexpr : p.expr? id = some expr)
    (hwrapper : q.expr? id = some ⟨loc, ty, .initList [⟨some field, moved⟩]⟩)
    (hmoved : q.expr? moved = some expr) (hbelow : q.Expands (p.children (.expr id)) below) :
    q.Expands (q.children (.expr id))
      (.cons (.expr expr.loc expr.ty expr.kind.shape) below .nil) := by
  rw [children_constructor hwrapper]
  apply Expands.cons (outline?_of_expr? hmoved) _ .nil
  rwa [children_of_expr? hmoved, ← children_of_expr? hexpr]

/-- The tree of an access whose base is the name. -/
theorem expands_access {id moved : VarId} {base : ExprId} {ty' : Ty} {text : String}
    {decl : DeclId} (haccess : q.var? id = some ⟨loc, ty, .dot base field⟩)
    (hbase : q.expr? base = some ⟨loc, ty', .var moved⟩)
    (hmoved : q.var? moved = some ⟨loc, ty', .name text (.variable decl)⟩) :
    q.Expands (q.children (.var id)) (.cons (.expr loc ty' (.var ⟨0⟩))
      (.cons (.var loc ty' (.name text (.variable decl))) .nil .nil) .nil) := by
  rw [children_access haccess]
  apply Expands.cons (outline?_of_expr? hbase) _ .nil
  rw [children_base hbase]
  apply Expands.cons (outline?_of_var? hmoved) _ .nil
  rw [children_name hmoved]
  exact .nil

/-- The trees after the boxing are the trees before it if they are taken out of the boxes. -/
theorem InBoxes.exists_unbox (h : InBoxes field boxed p q) (hvalid : p.Valid) {nodes : List Node}
    {trees : Forest} (hp : p.Expands nodes trees) {decls : List DeclId}
    (hnodes : ∀ node ∈ nodes, p.Reachable node) (haligned : Aligned p boxed decls nodes) :
    ∃ trees', q.Expands nodes trees' ∧
      trees'.unbox field boxed decls = trees.map (Outline.annotate p.decls boxed) := by
  induction hp generalizing decls with
  | nil =>
    refine ⟨.nil, .nil, ?_⟩
    cases decls <;> rfl
  | @cons node nodes outline below rest houtline hbelow _ ihbelow ihrest =>
    rw [List.forall_mem_cons] at hnodes
    have hchildren : ∀ child ∈ p.children node, p.Reachable child := by
      intro child hchild
      exact reachable_child hnodes.1 hchild
    rcases ihbelow hchildren (aligned_children hvalid hnodes.1 houtline) with
      ⟨below', hbelow', heqbelow⟩
    rcases ihrest hnodes.2 haligned.tail with ⟨rest', hrest', heqrest⟩
    rw [Forest.map, ← heqbelow, ← heqrest]
    cases h.slot hvalid hnodes.1 with
    | kept houtline' hchildren' hvalue hname =>
      refine ⟨.cons outline below' rest', ?_, ?_⟩
      . apply Expands.cons _ _ hrest'
        . rw [houtline', houtline]
        . rwa [hchildren']
      . rw [annotate_eq_self houtline hname]
        apply unbox_kept
        . exact h.name?_eq_none hvalid hnodes.1 hbelow'
        . exact unwrap_eq_of_kept haligned hvalue houtline
    | @value decl id moved expr ty hdecl hinitializes hexpr hwrapper hmoved =>
      rw [outline?_of_expr? hexpr] at houtline
      injection houtline with houtline
      subst houtline
      have hhead := (haligned 0 id rfl decl hdecl).mp hinitializes
      have hvalue := expands_constructor hexpr hwrapper hmoved hbelow'
      refine ⟨_, .cons (outline?_of_expr? hwrapper) hvalue hrest', ?_⟩
      cases decls with
      | nil => cases hhead
      | cons decl' decls =>
        injection hhead with hhead
        subst hhead
        exact unbox_constructor hdecl decls _ _ _ _ _ below' rest'
    | @name decl d id moved base loc ty ty' text hdecl hd hvar haccess hbase hmoved =>
      rw [outline?_of_var? hvar] at houtline
      injection houtline with houtline
      subst houtline
      have hnil : below' = .nil := by
        rw [children_name hvar] at hbelow'
        cases hbelow'
        rfl
      subst hnil
      have hname := expands_access haccess hbase hmoved
      refine ⟨_, .cons (outline?_of_var? haccess) hname hrest', ?_⟩
      dsimp only [VarKind.shape]
      rw [unbox_access hdecl]
      unfold decl? at hd
      simp [Outline.annotate, hdecl, hd, Forest.unbox]

end Trees

section Occurrences

/-- Where a node comes from that can be reached after variables were put in boxes. -/
inductive Origin (field : String) (boxed : List DeclId) (p q : Program) : Node → Prop where
  | old {node : Node} (hnode : p.Reachable node) : Origin field boxed p q node
  | value {id moved : ExprId} {expr : Expr} (hid : p.Reachable (.expr id))
      (hexpr : p.expr? id = some expr) (hmoved : q.expr? moved = some expr) :
      Origin field boxed p q (.expr moved)
  | base {access name : VarId} {base : ExprId} {loc loc' : Span} {ty ty' : Ty} {text : String}
      {target : DeclId} (hreachable : q.Reachable (.var access))
      (haccess : q.var? access = some ⟨loc, ty, .dot base field⟩)
      (hbase : q.expr? base = some ⟨loc', ty', .var name⟩)
      (hname : q.var? name = some ⟨loc', ty', .name text (.variable target)⟩) :
      Origin field boxed p q (.expr base)
  | name {access name : VarId} {loc : Span} {ty : Ty} {text : String} {target : DeclId}
      (hreachable : q.Reachable (.var access)) (haccesses : q.Accesses field access name)
      (hname : q.var? name = some ⟨loc, ty, .name text (.variable target)⟩) :
      Origin field boxed p q (.var name)

theorem InBoxes.origin (h : InBoxes field boxed p q) (hvalid : p.Valid) {around : List ExprId}
    {node : Node} (hnode : q.Within around node) : Origin field boxed p q node := by
  induction hnode with
  | root hroot =>
    rw [h.roots] at hroot
    exact .old ⟨[], .root hroot⟩
  | @child around node child hparent hchild ih =>
    cases ih with
    | old hold =>
      cases h.slot hvalid hold with
      | kept _ hchildren =>
        rw [hchildren] at hchild
        exact .old (reachable_child hold hchild)
      | value _ _ hexpr hwrapper hmoved =>
        rw [children_constructor hwrapper, List.mem_singleton] at hchild
        subst hchild
        exact .value hold hexpr hmoved
      | name _ _ _ haccess hbase hmoved =>
        rw [children_access haccess, List.mem_singleton] at hchild
        subst hchild
        exact .base ⟨around, hparent⟩ haccess hbase hmoved
    | value hid hexpr hmoved =>
      rw [children_of_expr? hmoved, ← children_of_expr? hexpr] at hchild
      exact .old (reachable_child hid hchild)
    | base hreachable haccess hbase hname =>
      rw [children_base hbase, List.mem_singleton] at hchild
      subst hchild
      exact .name hreachable ⟨_, _, _, _, _, haccess, hbase⟩ hname
    | name _ _ hname =>
      rw [children_name hname] at hchild
      cases hchild

theorem InBoxes.reachable (h : InBoxes field boxed p q) (hvalid : p.Valid) {node : Node}
    (hnode : p.Reachable node) : q.Reachable node := by
  rcases hnode with ⟨around, hnode⟩
  induction hnode with
  | root hroot =>
    rw [← h.roots] at hroot
    exact ⟨[], .root hroot⟩
  | @child around node child hparent hchild ih =>
    cases h.slot hvalid ⟨around, hparent⟩ with
    | kept _ hchildren =>
      rw [← hchildren] at hchild
      exact reachable_child ih hchild
    | @value decl id moved expr ty _ _ hexpr hwrapper hmoved =>
      have hvalue : q.Reachable (.expr moved) := by
        apply reachable_child ih
        rw [children_constructor hwrapper]
        exact List.mem_singleton_self _
      apply reachable_child hvalue
      rwa [children_of_expr? hmoved, ← children_of_expr? hexpr]
    | name _ _ hvar =>
      rw [children_name hvar] at hchild
      cases hchild

theorem InBoxes.initializes_iff (h : InBoxes field boxed p q) (hvalid : p.Valid) {decl : DeclId}
    {id : ExprId} : q.Initializes decl id ↔ p.Initializes decl id := by
  constructor
  . rintro ⟨stat, loc, decls, exps, i, ⟨around, hstat⟩, hdecls, hdecl, hvalue⟩
    rw [h.stat] at hdecls
    cases h.origin hvalid hstat with
    | old hold => exact ⟨stat, loc, decls, exps, i, hold, hdecls, hdecl, hvalue⟩
  . rintro ⟨stat, loc, decls, exps, i, hstat, hdecls, hdecl, hvalue⟩
    rw [← h.stat] at hdecls
    exact ⟨stat, loc, decls, exps, i, h.reachable hvalid hstat, hdecls, hdecl, hvalue⟩

/-- The names of boxed variables are the bases of accesses, each of them of one access. -/
theorem InBoxes.existsUnique_access (h : InBoxes field boxed p q) (hvalid : p.Valid)
    (hvalid' : q.Valid) {decl : DeclId} (hdecl : decl ∈ boxed) {id : VarId}
    (hid : q.Reachable (.var id)) (hnamed : q.named? id = some decl) :
    ∃! access, q.Reachable (.var access) ∧ q.Accesses field access id := by
  rcases hid with ⟨around, hid⟩
  cases h.origin hvalid hid with
  | old hold => exact absurd hnamed (h.named?_ne hvalid hold hdecl)
  | @name access _ _ _ _ _ hreachable haccesses _ =>
    refine ⟨access, ⟨hreachable, haccesses⟩, ?_⟩
    rintro access' ⟨hreachable', haccesses'⟩
    rcases haccesses with ⟨_, _, base, _, _, haccess, hbase⟩
    rcases haccesses' with ⟨_, _, base', _, _, haccess', hbase'⟩
    -- The name has one owner, and so has the base.
    have hchild : (q.children (.var access))[0]? = some (.expr base) := by
      rw [children_access haccess]
      rfl
    have hchild' : (q.children (.var access'))[0]? = some (.expr base') := by
      rw [children_access haccess']
      rfl
    have hname : (q.children (.expr base))[0]? = some (.var id) := by
      rw [children_base hbase]
      rfl
    have hname' : (q.children (.expr base'))[0]? = some (.var id) := by
      rw [children_base hbase']
      rfl
    have howner := hvalid'.owner_unique
      (reachable_child hreachable (List.mem_of_getElem? hchild))
      (reachable_child hreachable' (List.mem_of_getElem? hchild')) hname hname'
    rw [← howner.1] at hchild'
    have howner' := hvalid'.owner_unique hreachable hreachable' hchild hchild'
    injection howner'.1 with heq
    exact heq.symm

theorem InBoxes.constructs (h : InBoxes field boxed p q) (hvalid : p.Valid) {decl : DeclId}
    (hdecl : decl ∈ boxed) {id : ExprId} (hid : q.Initializes decl id) :
    q.Constructs field id := by
  rw [h.initializes_iff hvalid] at hid
  rcases h.value decl hdecl id hid with ⟨expr, ty, moved, -, hwrapper, -⟩
  exact ⟨_, _, _, hwrapper⟩

end Occurrences

section Declarations

theorem restore_retype {b : Box} {d : Decl} (hd : p.decl? b.decl = some d)
    (hty : b.valueTy = d.ty) : Tree.restore b.field b.decl (b.apply p).decls = p.decls := by
  unfold decl? at hd
  rcases Array.getElem?_eq_some_iff.mp hd with ⟨hlt, hget⟩
  rw [Box.decls_apply]
  unfold Box.retype decl?
  rw [hd]
  dsimp only [Program.setDecl]
  unfold Tree.restore
  apply Array.ext_getElem?
  intro i
  rw [Array.getElem?_modify, Array.getElem?_setIfInBounds]
  by_cases hi : b.decl.index.toNat = i
  . subst hi
    simp only [if_true, hlt, Option.map_some, hd]
    simp [Box.ty, hty]
  . rw [if_neg hi, if_neg hi]

theorem restore_foldl_apply {boxes : List Box} (htyped : Box.Typed p boxes)
    (hfield : ∀ b ∈ boxes, b.field = field) :
    (boxes.map Box.decl).foldr (Tree.restore field)
      (boxes.foldl (fun q b => b.apply q) p).decls = p.decls := by
  induction boxes generalizing p with
  | nil => rfl
  | cons b boxes ih =>
    rw [List.forall_mem_cons] at hfield
    rcases htyped with ⟨⟨d, hd, hty⟩, htyped⟩
    rw [List.map_cons, List.foldr_cons, List.foldl_cons, ih htyped hfield.2, ← hfield.1]
    exact restore_retype hd hty

end Declarations

/-- The names of variables have the types of the declarations. -/
def NamesTyped (p : Program) (decls : List DeclId) : Prop :=
  ∀ decl ∈ decls, ∀ id, p.Reachable (.var id) → p.named? id = some decl →
    ∃ var d, p.var? id = some var ∧ p.decl? decl = some d ∧ var.ty = d.ty

theorem map_annotate_eq_self (htyped : NamesTyped p boxed) {nodes : List Node} {trees : Forest}
    (h : p.Expands nodes trees) (hnodes : ∀ node ∈ nodes, p.Reachable node) :
    trees.map (Outline.annotate p.decls boxed) = trees := by
  induction h with
  | nil => rfl
  | @cons node nodes outline below rest houtline _ _ ihbelow ihrest =>
    rw [List.forall_mem_cons] at hnodes
    have hchildren : ∀ child ∈ p.children node, p.Reachable child := by
      intro child hchild
      exact reachable_child hnodes.1 hchild
    rw [Forest.map, ihbelow hchildren, ihrest hnodes.2]
    congr 1
    unfold Outline.annotate
    split
    . next loc ty text decl =>
      split
      . next hdecl =>
        rcases named?_of_outline? houtline with ⟨id, rfl, hnamed⟩
        rcases htyped decl hdecl id hnodes.1 hnamed with ⟨var, d, hvar, hd, hty⟩
        rw [outline?_of_var? hvar] at houtline
        injection houtline with houtline
        injection houtline with _ hty'
        unfold decl? at hd
        simp [hd, ← hty', hty]
      . rfl
    . rfl

theorem InBoxes.append_items {items : Array Toplevel} (h : InBoxes field boxed p q)
    (hitems : ∀ item ∈ items, item.refs = []) :
    InBoxes field boxed p { q with items := q.items ++ items } := by
  refine ⟨?_, h.stat, h.expr, h.value, h.var, h.name, h.initialized⟩
  rw [roots_append_items hitems, h.roots]

theorem reachable_roots : ∀ node ∈ p.roots, p.Reachable node :=
  fun _ hroot => ⟨[], .root hroot⟩

theorem InBoxes.unbox_nodes (h : InBoxes field boxed p q) (hvalid : p.Valid) (hvalid' : q.Valid) :
    q.tree.nodes.unbox field boxed [] = p.tree.nodes.map (Outline.annotate p.decls boxed) := by
  rcases h.exists_unbox hvalid hvalid.expands reachable_roots (aligned_roots hvalid) with
    ⟨trees, htrees, heq⟩
  rw [← h.roots] at htrees
  rw [hvalid'.expands.unique htrees, heq]

/-- What a run leaves behind, part by part. -/
theorem inBoxes_run (options : Options) (p : Program) (hvalid : p.Valid) (hscoped : p.WellScoped)
    (boxes : Array Box) (hok : (run options p).verdict = .ok boxes)
    (hfit : (run options p).program.Addressable) :
    InBoxes options.field (boxes.toList.map Box.decl) p (run options p).program ∧
      (run options p).program.files = p.files ∧
      (run options p).program.items = p.items ++ boxes.map Box.item ∧
      (boxes.toList.map Box.decl).foldr (Tree.restore options.field)
        (run options p).program.decls = p.decls := by
  rcases exists_schedule options.order hvalid with ⟨all, hall⟩
  rcases play_of_run_ok hall hvalid hok with ⟨s, hplay, rfl, hprogram⟩
  have haccurate := accurate_of_play hall hscoped hplay
  have hfold : s.program = s.boxes.toList.foldl (fun q b => b.apply q) p :=
    Changes.program (Pass.changes_play hplay) rfl
  rw [hfold] at hprogram
  rw [hprogram] at hfit ⊢
  refine ⟨?_, ?_, ?_, ?_⟩
  . exact (haccurate.inBoxes hvalid hscoped hfit).append_items fun _ => Box.refs_of_mem_items
  . apply Box.files_foldl_apply
  . dsimp only
    rw [Box.items_foldl_apply]
  . exact restore_foldl_apply haccurate.typed haccurate.field

/--
Boxing is complete and changes nothing else. If the variables of a program with scopes are boxed,
every name of a boxed variable is the base of one access to the field of its box, every value that
a boxed variable starts with is the field of a constructor, and taking the variables out of their
boxes leads back to the tree of the program, with the types of the declarations at the names of the
boxed variables. This is the tree of the program if the names have these types.
-/
theorem unbox_run (options : Options) (p : Program) (hvalid : p.Valid) (hscoped : p.WellScoped)
    (boxes : Array Box) (hok : (run options p).verdict = .ok boxes)
    (hfit : (run options p).program.Addressable) :
    (∀ decl ∈ boxes.toList.map Box.decl,
      (∀ id, (run options p).program.Reachable (.var id) →
        (run options p).program.named? id = some decl →
          ∃! access, (run options p).program.Reachable (.var access) ∧
            (run options p).program.Accesses options.field access id) ∧
      (∃ value, (run options p).program.Initializes decl value) ∧
      ∀ value, (run options p).program.Initializes decl value →
        (run options p).program.Constructs options.field value) ∧
    (run options p).program.tree.unbox options.field (boxes.toList.map Box.decl) =
      p.tree.annotate (boxes.toList.map Box.decl) ∧
    (NamesTyped p (boxes.toList.map Box.decl) →
      (run options p).program.tree.unbox options.field (boxes.toList.map Box.decl) = p.tree) := by
  have hvalid' := valid_program_run hvalid hfit
  rcases inBoxes_run options p hvalid hscoped boxes hok hfit with
    ⟨hboxes, hfiles, hitems, hdecls⟩
  have htree : (run options p).program.tree.unbox options.field (boxes.toList.map Box.decl) =
      p.tree.annotate (boxes.toList.map Box.decl) := by
    unfold Tree.unbox
    rw [hboxes.unbox_nodes hvalid hvalid']
    unfold tree Tree.annotate
    dsimp only
    rw [hfiles, hitems, hdecls]
    simp
  refine ⟨?_, htree, ?_⟩
  . intro decl hdecl
    refine ⟨?_, ?_, ?_⟩
    . intro id hid hnamed
      exact hboxes.existsUnique_access hvalid hvalid' hdecl hid hnamed
    . rcases hboxes.initialized decl hdecl with ⟨value, hvalue⟩
      exact ⟨value, (hboxes.initializes_iff hvalid).mpr hvalue⟩
    . intro value hvalue
      exact hboxes.constructs hvalid hdecl hvalue
  . intro htyped
    rw [htree]
    unfold Tree.annotate
    have hnodes : p.tree.nodes.map (Outline.annotate p.tree.decls (boxes.toList.map Box.decl)) =
        p.tree.nodes := map_annotate_eq_self htyped hvalid.expands reachable_roots
    rw [hnodes]

/-- The names of `x` have the type of `x`, so that the function is back as it was. -/
theorem unbox_run_counter :
    counter.Valid ∧ counter.WellScoped ∧ (run default counter).program.Addressable ∧
      ∃ boxes, (run default counter).verdict = .ok boxes ∧
        boxes.toList.map Box.decl = [⟨1⟩] ∧
        (run default counter).program.tree.unbox defaultField [⟨1⟩] = counter.tree := by
  have hvalid : counter.Valid := by decide +kernel
  have hfit : (run default counter).program.Addressable := by decide +kernel
  have hboxes : (run default counter).verdict.toOption.map (·.toList.map Box.decl) =
      some [⟨1⟩] := by decide +kernel
  cases hok : (run default counter).verdict with
  | error stop =>
    rw [hok] at hboxes
    cases hboxes
  | ok boxes =>
    rw [hok] at hboxes
    injection hboxes with hdecls
    change boxes.toList.map Box.decl = [⟨1⟩] at hdecls
    have htyped : NamesTyped counter [⟨1⟩] := by
      intro decl hdecl id hid hnamed
      rw [List.mem_singleton] at hdecl
      subst hdecl
      rcases hid with ⟨around, hid⟩
      have hmem : (around, Node.var id) ∈ counterNodes :=
        hid.mem_of_closed (by decide) (by decide)
      unfold counterNodes at hmem
      simp only [List.mem_cons, Prod.mk.injEq, reduceCtorEq, and_false, Node.var.injEq, false_or,
        List.not_mem_nil, or_false] at hmem
      rcases hmem with ⟨-, rfl⟩ | ⟨-, rfl⟩ | ⟨-, rfl⟩
      . exact ⟨_, _, rfl, rfl, rfl⟩
      . cases hnamed
      . exact ⟨_, _, rfl, rfl, rfl⟩
    have hunbox := unbox_run default counter hvalid wellScoped_counter boxes hok hfit
    rw [hdecls] at hunbox
    exact ⟨hvalid, wellScoped_counter, hfit, boxes, rfl, hdecls, hunbox.2.2 htyped⟩

/-- The types of variable forms in trees. -/
def varTypes : Forest → List Ty
  | .nil => []
  | .cons (.var _ ty _) below rest => ty :: varTypes below ++ varTypes rest
  | .cons _ below rest => varTypes below ++ varTypes rest

/-- The function in which `x` is returned with another type than the one it is declared with. -/
def mistyped : Program :=
  { counter with
    vars := #[⟨.dummy, .integer, .name "x" (.variable ⟨1⟩)⟩,
      ⟨.dummy, .integer, .name "y" (.variable ⟨3⟩)⟩,
      ⟨.dummy, .any, .name "x" (.variable ⟨1⟩)⟩] }

theorem wellScoped_mistyped : mistyped.WellScoped :=
  @wellScoped_of_nodes mistyped counterNodes (by decide) (by decide) (by decide) (by decide)

/-- The access has the type of the declaration, the type of the name is lost. -/
theorem unbox_run_mistyped :
    mistyped.Valid ∧ mistyped.WellScoped ∧ (run default mistyped).program.Addressable ∧
      ∃ boxes, (run default mistyped).verdict = .ok boxes ∧
        (run default mistyped).program.tree.unbox defaultField (boxes.toList.map Box.decl) ≠
          mistyped.tree := by
  have hboxes : (run default mistyped).verdict.toOption.map (·.toList.map Box.decl) =
      some [⟨1⟩] := by decide +kernel
  cases hok : (run default mistyped).verdict with
  | error stop =>
    rw [hok] at hboxes
    cases hboxes
  | ok boxes =>
    rw [hok] at hboxes
    injection hboxes with hdecls
    change boxes.toList.map Box.decl = [⟨1⟩] at hdecls
    refine ⟨by decide +kernel, wellScoped_mistyped, by decide +kernel, boxes, rfl, ?_⟩
    rw [hdecls]
    intro heq
    have htypes : Ty.sameList (varTypes mistyped.tree.nodes) (varTypes mistyped.tree.nodes) =
        true := by decide +kernel
    have hlost : Ty.sameList (varTypes mistyped.tree.nodes)
        (varTypes ((run default mistyped).program.tree.unbox defaultField [⟨1⟩]).nodes) =
          false := by decide +kernel
    rw [heq, htypes] at hlost
    cases hlost

end Boxing

end Upvalue

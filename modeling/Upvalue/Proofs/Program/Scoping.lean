import Upvalue.Proofs.Program.Within

/-!
This module contains where the variables of a program are bound, which of them are shared between
functions, and which values they start with.
-/

namespace Upvalue

/-- The declarations that an item binds. -/
def Toplevel.binders : Toplevel → List DeclId
  | .functions _ funcs => funcs.map FuncDef.decl
  | _ => []

/-- The declarations that a statement binds. -/
def Stat.binders : Stat → List DeclId
  | .decl _ decls _ => decls
  | .functions _ funcs => funcs.map FuncDef.decl
  | .forNum _ id _ _ _ _ => [id]
  | .forIn _ decls _ _ => decls
  | _ => []

/-- The declarations that an expression binds. -/
def ExprKind.binders : ExprKind → List DeclId
  | .lambda params _ => params
  | _ => []

def Content.binders : Content → List DeclId
  | .stat s => s.binders
  | .expr k => k.binders
  | .var _ => []

/-- Where declarations are bound: at an item or at a node. -/
inductive Place where
  | item (index : Nat)
  | node (node : Node)
deriving DecidableEq

namespace Program

/-- The declarations that a place binds, none if it does not exist. -/
def binders (p : Program) : Place → List DeclId
  | .item index => (p.items[index]?.map Toplevel.binders).getD []
  | .node node => ((p.content? node).map Content.binders).getD []

/--
A place can be reached from the items of a program. The list contains the function literals around
what it binds, the innermost one first. Parameters are inside of their function literal.
-/
inductive Around (p : Program) : List ExprId → Place → Prop where
  | item (index : Nat) : Around p [] (.item index)
  | node {around : List ExprId} {node : Node} (h : p.Within around node) :
      Around p (p.inside node around) (.node node)

/-- A declaration is bound at a position of a place that can be reached. -/
structure BoundAt (p : Program) (decl : DeclId) (around : List ExprId) (place : Place)
    (position : Nat) : Prop where
  around : p.Around around place
  bound : (p.binders place)[position]? = some decl

/--
No declaration is bound twice, and names do not leave the function literal in which the declaration
is bound that they refer to. Exported declarations are not restricted.
-/
structure WellScoped (p : Program) : Prop where
  once : ∀ decl around place position around' place' position', p.Unexported decl →
    p.BoundAt decl around place position → p.BoundAt decl around' place' position' →
      place = place' ∧ position = position'
  inside : ∀ decl func outer place position around id, p.Unexported decl →
    p.BoundAt decl (func :: outer) place position → p.Within around (.var id) →
      p.named? id = some decl → func ∈ around

/-- An assignment that can be reached has a simple name of a declaration as a target. -/
def Assigned (p : Program) (decl : DeclId) : Prop :=
  ∃ stat loc vars exps id, p.Reachable (.stat stat) ∧
    p.stat? stat = some (.assign loc vars exps) ∧ id ∈ vars ∧ p.named? id = some decl

/-- A simple name of a declaration is inside of a function literal that is inside of another one. -/
def CapturedFrom (p : Program) (decl : DeclId) (func : ExprId) : Prop :=
  ∃ inner outer id, p.Within (inner :: outer) (.var id) ∧ func ∈ outer ∧ p.named? id = some decl

/--
A variable of a function is assigned, and it is used from a function inside of the one that binds
it. Exported variables are not meant.
-/
def Shared (p : Program) (decl : DeclId) : Prop :=
  p.Unexported decl ∧ p.Assigned decl ∧
    ∃ func outer place position, p.BoundAt decl (func :: outer) place position ∧
      p.CapturedFrom decl func

/-- A statement that can be reached declares a variable with the value at the same position. -/
def Initializes (p : Program) (decl : DeclId) (value : ExprId) : Prop :=
  ∃ stat loc decls exps, ∃ i : Nat, p.Reachable (.stat stat) ∧
    p.stat? stat = some (.decl loc decls exps) ∧ decls[i]? = some decl ∧ exps[i]? = some value

section Initializers

variable {p : Program} {decl decl' : DeclId} {value value' : ExprId}

theorem children_decl {stat : StatId} {loc : Span} {decls : List DeclId} {exps : List ExprId}
    (h : p.stat? stat = some (.decl loc decls exps)) :
    p.children (.stat stat) = exps.map Node.expr := by
  rw [children_eq_of_content? (content?_of_stat? h)]
  change (decls.map Ref.decl ++ exps.map Ref.expr).filterMap Ref.node? = _
  rw [List.filterMap_append, List.filterMap_map, List.filterMap_map]
  have hdecls : decls.filterMap (Ref.node? ∘ Ref.decl) = [] := by
    rw [List.filterMap_eq_nil_iff]
    intro decl _
    rfl
  have hexps : exps.filterMap (Ref.node? ∘ Ref.expr) = exps.map Node.expr := by
    rw [← List.filterMap_eq_map]
    rfl
  rw [hdecls, hexps, List.nil_append]

theorem Initializes.reachable (h : p.Initializes decl value) :
    p.Reachable (.expr value) := by
  rcases h with ⟨stat, loc, decls, exps, i, hstat, hdecl, -, hvalue⟩
  apply reachable_child hstat
  rw [children_decl hdecl, List.mem_map]
  exact ⟨value, List.mem_of_getElem? hvalue, rfl⟩

theorem Initializes.decl_unique (hvalid : p.Valid) (h : p.Initializes decl value)
    (h' : p.Initializes decl' value) : decl = decl' := by
  rcases h with ⟨stat, loc, decls, exps, i, hstat, hdecls, hdecl, hvalue⟩
  rcases h' with ⟨stat', loc', decls', exps', i', hstat', hdecls', hdecl', hvalue'⟩
  have hchild : (p.children (.stat stat))[i]? = some (.expr value) := by
    rw [children_decl hdecls, List.getElem?_map, hvalue, Option.map_some]
  have hchild' : (p.children (.stat stat'))[i']? = some (.expr value) := by
    rw [children_decl hdecls', List.getElem?_map, hvalue', Option.map_some]
  -- The expression has one owner, and so has its position there.
  rcases hvalid.owner_unique hstat hstat' hchild hchild' with ⟨hsame, rfl⟩
  injection hsame with hsame
  subst hsame
  rw [hdecls] at hdecls'
  cases hdecls'
  rw [hdecl] at hdecl'
  injection hdecl'

theorem boundAt_of_decl {stat : StatId} {around : List ExprId} {loc : Span} {decls : List DeclId}
    {exps : List ExprId} {i : Nat} (hstat : p.Within around (.stat stat))
    (hdecls : p.stat? stat = some (.decl loc decls exps)) (hbound : decls[i]? = some decl) :
    p.BoundAt decl (p.inside (.stat stat) around) (.node (.stat stat)) i := by
  refine ⟨.node hstat, ?_⟩
  change (((p.content? (.stat stat)).map Content.binders).getD [])[i]? = some decl
  rw [content?_of_stat? hdecls]
  exact hbound

theorem boundAt_of_lambda {id : ExprId} {around : List ExprId} {loc : Span} {ty : Ty}
    {params : List DeclId} {body : Block} {i : Nat} {param : DeclId}
    (hid : p.Within around (.expr id)) (hexpr : p.expr? id = some ⟨loc, ty, .lambda params body⟩)
    (hparam : params[i]? = some param) :
    p.BoundAt param (p.inside (.expr id) around) (.node (.expr id)) i := by
  refine ⟨.node hid, ?_⟩
  change (((p.content? (.expr id)).map Content.binders).getD [])[i]? = some param
  rw [content?_of_expr? hexpr]
  exact hparam

theorem Initializes.value_unique (hscoped : p.WellScoped) (hdecl : p.Unexported decl)
    (h : p.Initializes decl value) (h' : p.Initializes decl value') : value = value' := by
  rcases h with ⟨stat, loc, decls, exps, i, ⟨around, hstat⟩, hdecls, hbound, hvalue⟩
  rcases h' with ⟨stat', loc', decls', exps', i', ⟨around', hstat'⟩, hdecls', hbound', hvalue'⟩
  have hplace := boundAt_of_decl hstat hdecls hbound
  have hplace' := boundAt_of_decl hstat' hdecls' hbound'
  have hsame := hscoped.once _ _ _ _ _ _ _ hdecl hplace hplace'
  rcases hsame with ⟨hsame, rfl⟩
  injection hsame with hsame
  injection hsame with hsame
  subst hsame
  rw [hdecls] at hdecls'
  cases hdecls'
  rw [hvalue] at hvalue'
  injection hvalue'

end Initializers

section Check

variable {p : Program} {nodes : List (List ExprId × Node)}

/-- The declarations that are bound at places, each with its place and its position. -/
def sites (p : Program) (places : List Place) : List (DeclId × Place × Nat) :=
  places.flatMap fun place => (p.binders place).zipIdx.map fun site => (site.1, place, site.2)

theorem mem_sites {places : List Place} {decl : DeclId} {place : Place} {position : Nat}
    (hplace : place ∈ places) (hbound : (p.binders place)[position]? = some decl) :
    (decl, place, position) ∈ p.sites places := by
  unfold sites
  rw [List.mem_flatMap]
  refine ⟨place, hplace, ?_⟩
  rw [List.mem_map]
  refine ⟨(decl, position), ?_, rfl⟩
  rw [List.mem_zipIdx_iff_getElem?]
  exact hbound

/-- A list of nodes that contains the roots and is closed under children contains all nodes. -/
theorem Within.mem_of_closed (hroots : ∀ root ∈ p.roots, ([], root) ∈ nodes)
    (hclosed : ∀ n ∈ nodes, ∀ child ∈ p.children n.2, (p.inside n.2 n.1, child) ∈ nodes)
    {around : List ExprId} {node : Node} (h : p.Within around node) : (around, node) ∈ nodes := by
  induction h with
  | root hroot => exact hroots _ hroot
  | child _ hchild ih => exact hclosed _ ih _ hchild

/-- The declaration that a node refers to as a simple name. -/
def referent? (p : Program) : Node → Option DeclId
  | .var id => p.named? id
  | _ => none

theorem BoundAt.lt_size {decl : DeclId} {around : List ExprId} {index position : Nat}
    (h : p.BoundAt decl around (.item index) position) : index < p.items.size := by
  have hbound := h.bound
  unfold binders at hbound
  cases hitem : p.items[index]? with
  | none => simp [hitem] at hbound
  | some item => exact (Array.getElem?_eq_some_iff.mp hitem).1

/-- A program can be checked for its scoping if its nodes are listed. -/
theorem wellScoped_of_nodes (hroots : ∀ root ∈ p.roots, ([], root) ∈ nodes)
    (hclosed : ∀ n ∈ nodes, ∀ child ∈ p.children n.2, (p.inside n.2 n.1, child) ∈ nodes)
    (honce : ((p.sites ((List.range p.items.size).map .item ++
      nodes.map fun n => .node n.2)).map Prod.fst).Nodup)
    (hinside : ∀ n ∈ nodes, ∀ func ∈ (p.inside n.2 n.1).head?, ∀ decl ∈ p.binders (.node n.2),
      ∀ name ∈ nodes, p.referent? name.2 = some decl → func ∈ name.1) :
    p.WellScoped := by
  have hplace {decl around place position} (h : p.BoundAt decl around place position) :
      (decl, place, position) ∈ p.sites ((List.range p.items.size).map .item ++
        nodes.map fun n => .node n.2) := by
    apply mem_sites _ h.bound
    rw [List.mem_append, List.mem_map, List.mem_map]
    cases h.around with
    | item index => exact .inl ⟨index, List.mem_range.mpr h.lt_size, rfl⟩
    | node hnode => exact .inr ⟨_, hnode.mem_of_closed hroots hclosed, rfl⟩
  constructor
  . intro decl around place position around' place' position' _ h h'
    have heq := List.inj_on_of_nodup_map honce (hplace h) (hplace h') rfl
    rw [Prod.mk.injEq, Prod.mk.injEq] at heq
    exact heq.2
  . intro decl func outer place position around id _ h hwithin hnamed
    have hname := hwithin.mem_of_closed hroots hclosed
    have hbound := List.mem_of_getElem? h.bound
    -- Only a node has function literals around what it binds.
    generalize hinner : func :: outer = inner at h
    cases h.around with
    | item index => cases hinner
    | node hnode =>
      have hnode' := hnode.mem_of_closed hroots hclosed
      apply hinside _ hnode' func _ decl hbound _ hname hnamed
      rw [← hinner]
      rfl

end Check

end Program

end Upvalue

import Upvalue.Boxing.Action
import Upvalue.Proofs.Program.Scoping

/-!
This module contains what the plans of nodes consist of: the nodes that they visit, which are the
nodes that a node owns, and the other actions.
-/

namespace Upvalue.Boxing

open Program

/-- The actions of a node, by what it holds. -/
def contentPlan (order : LoopOrder) (node : Node) : Content → List Action
  | .stat stat => planStat order stat
  | .expr kind => planExpr kind
  | .var kind =>
    match node with
    | .var id => planVar id kind
    | _ => []

variable {order : LoopOrder} {p : Program}

theorem plan?_eq (order : LoopOrder) (p : Program) (node : Node) :
    plan? order p node = (p.content? node).map (contentPlan order node) := by
  cases node with
  | stat id =>
    rw [content?_stat, Option.map_map]
    rfl
  | expr id =>
    rw [content?_expr, Option.map_map]
    rfl
  | var id =>
    rw [content?_var, Option.map_map]
    rfl

theorem plan?_stat (order : LoopOrder) (p : Program) (id : StatId) :
    plan? order p (.stat id) = (p.stat? id).map (planStat order) := rfl

theorem plan?_congr {q : Program} {node : Node} (h : q.content? node = p.content? node) :
    plan? order q node = plan? order p node := by
  rw [plan?_eq, plan?_eq, h]

section Nodes

/-- The nodes that a list of actions visits. -/
def nodes (actions : List Action) : List Node :=
  actions.filterMap Action.node?

@[simp]
theorem nodes_nil : nodes [] = [] := rfl

@[simp]
theorem nodes_append (actions actions' : List Action) :
    nodes (actions ++ actions') = nodes actions ++ nodes actions' := by
  apply List.filterMap_append

@[simp]
theorem nodes_stat_cons (id : StatId) (actions : List Action) :
    nodes (.stat id :: actions) = .stat id :: nodes actions := rfl

@[simp]
theorem nodes_expr_cons (id : ExprId) (actions : List Action) :
    nodes (.expr id :: actions) = .expr id :: nodes actions := rfl

@[simp]
theorem nodes_var_cons (id : VarId) (actions : List Action) :
    nodes (.var id :: actions) = .var id :: nodes actions := rfl

@[simp]
theorem nodes_register_cons (decl : DeclId) (actions : List Action) :
    nodes (.register decl :: actions) = nodes actions := rfl

@[simp]
theorem nodes_initializer_cons (decl : DeclId) (value : ExprId) (actions : List Action) :
    nodes (.initializer decl value :: actions) = nodes actions := rfl

@[simp]
theorem nodes_enter_cons (actions : List Action) :
    nodes (.enter :: actions) = nodes actions := rfl

@[simp]
theorem nodes_leave_cons (actions : List Action) :
    nodes (.leave :: actions) = nodes actions := rfl

theorem nodes_visit_cons (node : Node) (actions : List Action) :
    nodes (.visit node :: actions) = node :: nodes actions := rfl

theorem mem_nodes {node : Node} {actions : List Action} :
    node ∈ nodes actions ↔ .visit node ∈ actions := by
  unfold nodes
  rw [List.mem_filterMap]
  constructor
  . rintro ⟨action, hmem, hnode⟩
    cases action with
    | visit n =>
      injection hnode with hnode
      rwa [← hnode]
    | _ => cases hnode
  . intro hmem
    exact ⟨_, hmem, rfl⟩

theorem nodes_step_cons {action : Action} (h : action.node? = none) (actions : List Action) :
    nodes (action :: actions) = nodes actions := by
  unfold nodes
  rw [List.filterMap_cons, h]

@[simp]
theorem nodes_map_stat (ids : List StatId) : nodes (ids.map .stat) = ids.map .stat := by
  induction ids with
  | nil => rfl
  | cons id ids ih => rw [List.map_cons, nodes_stat_cons, ih, List.map_cons]

@[simp]
theorem nodes_map_expr (ids : List ExprId) : nodes (ids.map .expr) = ids.map .expr := by
  induction ids with
  | nil => rfl
  | cons id ids ih => rw [List.map_cons, nodes_expr_cons, ih, List.map_cons]

@[simp]
theorem nodes_map_register (decls : List DeclId) : nodes (decls.map .register) = [] := by
  induction decls with
  | nil => rfl
  | cons decl decls ih => rw [List.map_cons, nodes_register_cons, ih]

@[simp]
theorem nodes_planDecls (decls : List DeclId) (exps : List ExprId) :
    nodes (planDecls decls exps) = [] := by
  induction decls generalizing exps with
  | nil =>
    unfold planDecls
    rfl
  | cons decl decls ih =>
    cases exps with
    | nil =>
      unfold planDecls
      rw [nodes_register_cons, ih]
    | cons value exps =>
      unfold planDecls
      rw [nodes_register_cons, nodes_initializer_cons, ih]

@[simp]
theorem nodes_assigned (vars : List VarId) :
    nodes (vars.flatMap fun var => [.assign var, .var var]) = vars.map .var := by
  induction vars with
  | nil => rfl
  | cons var vars ih =>
    rw [List.flatMap_cons, nodes_append, ih]
    rfl

/-- The nodes that a list of handles refers to. -/
def targets (refs : List Ref) : List Node :=
  refs.filterMap Ref.node?

@[simp]
theorem targets_nil : targets [] = [] := rfl

@[simp]
theorem targets_append (refs refs' : List Ref) :
    targets (refs ++ refs') = targets refs ++ targets refs' := by
  apply List.filterMap_append

@[simp]
theorem targets_decl_cons (id : DeclId) (refs : List Ref) :
    targets (.decl id :: refs) = targets refs := rfl

@[simp]
theorem targets_expr_cons (id : ExprId) (refs : List Ref) :
    targets (.expr id :: refs) = .expr id :: targets refs := rfl

@[simp]
theorem targets_var_cons (id : VarId) (refs : List Ref) :
    targets (.var id :: refs) = .var id :: targets refs := rfl

@[simp]
theorem targets_map_stat (ids : List StatId) : targets (ids.map .stat) = ids.map .stat := by
  induction ids with
  | nil => rfl
  | cons id ids ih =>
    rw [List.map_cons, List.map_cons, ← ih]
    rfl

@[simp]
theorem targets_map_expr (ids : List ExprId) : targets (ids.map .expr) = ids.map .expr := by
  induction ids with
  | nil => rfl
  | cons id ids ih => rw [List.map_cons, targets_expr_cons, ih, List.map_cons]

@[simp]
theorem targets_map_var (ids : List VarId) : targets (ids.map .var) = ids.map .var := by
  induction ids with
  | nil => rfl
  | cons id ids ih => rw [List.map_cons, targets_var_cons, ih, List.map_cons]

@[simp]
theorem targets_map_decl (ids : List DeclId) : targets (ids.map .decl) = [] := by
  induction ids with
  | nil => rfl
  | cons id ids ih => rw [List.map_cons, targets_decl_cons, ih]

theorem nodes_planFunctions (funcs : List FuncDef) :
    nodes (planFunctions funcs) = targets (funcs.flatMap FuncDef.refs) := by
  have hregister : nodes (funcs.map (.register ·.decl)) = [] := by
    rw [← nodes_map_register (funcs.map FuncDef.decl), List.map_map]
    rfl
  have hvalues : nodes (funcs.map (.expr ·.value)) = funcs.map (.expr ·.value) := by
    have := nodes_map_expr (funcs.map FuncDef.value)
    rwa [List.map_map, List.map_map] at this
  unfold planFunctions
  rw [nodes_append, hregister, hvalues, List.nil_append]
  induction funcs with
  | nil => rfl
  | cons func funcs ih =>
    rw [List.flatMap_cons, targets_append, ← ih, List.map_cons]
    . rfl
    . rw [List.map_cons, nodes_register_cons] at hregister
      exact hregister
    . rw [List.map_cons, nodes_expr_cons, List.map_cons] at hvalues
      exact List.tail_eq_of_cons_eq hvalues

theorem nodes_planBlock (block : Block) : nodes (planBlock block) = targets block.refs := by
  unfold planBlock Block.refs
  rw [nodes_map_stat, targets_map_stat]

theorem nodes_planBlocks (blocks : List Block) :
    nodes (blocks.flatMap planBlock) = targets (blocks.flatMap Block.refs) := by
  induction blocks with
  | nil => rfl
  | cons block blocks ih =>
    rw [List.flatMap_cons, List.flatMap_cons, nodes_append, targets_append, ih, nodes_planBlock]

theorem nodes_planLoop_perm (order : LoopOrder) (condition : ExprId) (body : Block) :
    (nodes (order.plan (planBlock body) [.expr condition])).Perm
      (targets (.expr condition :: body.refs)) := by
  rw [targets_expr_cons, ← nodes_planBlock]
  cases order with
  | bodyFirst =>
    unfold LoopOrder.plan
    rw [nodes_append, nodes_expr_cons, nodes_nil]
    exact List.perm_append_singleton _ _
  | conditionFirst =>
    unfold LoopOrder.plan
    rw [nodes_append, nodes_expr_cons, nodes_nil, List.singleton_append]

theorem nodes_planStat_perm (order : LoopOrder) (stat : Stat) :
    (nodes (planStat order stat)).Perm (targets stat.refs) := by
  cases stat with
  | decl loc decls exps => simp [planStat, Stat.refs]
  | assign loc vars exps => simp [planStat, Stat.refs]
  | functions loc funcs => exact .of_eq (nodes_planFunctions funcs)
  | ret loc exps => simp [planStat, Stat.refs]
  | block loc body => exact .of_eq (nodes_planBlock body)
  | whileLoop loc condition body => exact nodes_planLoop_perm order condition body
  | repeatLoop loc body condition => exact nodes_planLoop_perm order condition body
  | branch loc condition thenBlock elseBlock =>
    simp [planStat, Stat.refs, nodes_planBlock, nodes_planBlocks]
  | forNum loc decl start limit step body =>
    simp [planStat, Stat.refs, nodes_planBlock]
  | forIn loc decls exps body => simp [planStat, Stat.refs, nodes_planBlock]
  | call loc exp => simp [planStat, Stat.refs]
  | breakLoop loc => exact .refl _

theorem nodes_planExpr (kind : ExprKind) : nodes (planExpr kind) = targets kind.refs := by
  cases kind with
  | initList fields =>
    unfold planExpr ExprKind.refs
    have hnodes := nodes_map_expr (fields.map InitField.exp)
    have htargets := targets_map_expr (fields.map InitField.exp)
    rw [List.map_map, List.map_map] at hnodes htargets
    exact hnodes.trans htargets.symm
  | lambda params body =>
    simp [planExpr, ExprKind.refs, nodes_planBlock]
  | call callee args => simp [planExpr, ExprKind.refs]
  | methodCall receiver method args => simp [planExpr, ExprKind.refs]
  | _ => rfl

theorem nodes_planVar (id : VarId) (kind : VarKind) :
    nodes (planVar id kind) = targets kind.refs := by
  cases kind with
  | name name target => cases target <;> rfl
  | _ => rfl

/-- The plan of a node visits exactly the nodes that it owns. -/
theorem nodes_plan_perm {node : Node} {plan : List Action}
    (h : plan? order p node = some plan) : (nodes plan).Perm (p.children node) := by
  rw [plan?_eq, Option.map_eq_some_iff] at h
  rcases h with ⟨content, hcontent, rfl⟩
  rw [children_eq_of_content? hcontent]
  cases node with
  | stat id =>
    rcases Option.map_eq_some_iff.mp hcontent with ⟨stat, -, rfl⟩
    exact nodes_planStat_perm order stat
  | expr id =>
    rcases Option.map_eq_some_iff.mp hcontent with ⟨expr, -, rfl⟩
    exact .of_eq (nodes_planExpr expr.kind)
  | var id =>
    rcases Option.map_eq_some_iff.mp hcontent with ⟨var, -, rfl⟩
    exact .of_eq (nodes_planVar id var.kind)

theorem nodes_planItem (item : Toplevel) : nodes (planItem item) = targets item.refs := by
  cases item with
  | stats loc ids =>
    unfold planItem Toplevel.refs
    rw [nodes_map_stat, targets_map_stat]
  | functions loc funcs => exact nodes_planFunctions funcs
  | _ => rfl

theorem nodes_planProgram (p : Program) : nodes (planProgram p) = p.roots := by
  unfold planProgram roots
  change _ = targets _
  induction p.items.toList with
  | nil => rfl
  | cons item items ih =>
    rw [List.flatMap_cons, List.flatMap_cons, nodes_append, targets_append, ih, nodes_planItem]

end Nodes

section Effects

/-- The actions of a list that do not visit a node. -/
def effects (actions : List Action) : List Action :=
  actions.filter (·.node?.isNone)

theorem mem_effects {action : Action} {actions : List Action} :
    action ∈ effects actions ↔ action ∈ actions ∧ action.node? = none := by
  unfold effects
  rw [List.mem_filter, Option.isNone_iff_eq_none]

@[simp]
theorem effects_nil : effects [] = [] := rfl

@[simp]
theorem effects_append (actions actions' : List Action) :
    effects (actions ++ actions') = effects actions ++ effects actions' := by
  apply List.filter_append

@[simp]
theorem effects_visit_cons (node : Node) (actions : List Action) :
    effects (.visit node :: actions) = effects actions := rfl

@[simp]
theorem effects_expr_cons (id : ExprId) (actions : List Action) :
    effects (.expr id :: actions) = effects actions := rfl

@[simp]
theorem effects_var_cons (id : VarId) (actions : List Action) :
    effects (.var id :: actions) = effects actions := rfl

theorem effects_step_cons {action : Action} (h : action.node? = none) (actions : List Action) :
    effects (action :: actions) = action :: effects actions := by
  unfold effects
  rw [List.filter_cons_of_pos]
  rw [h]
  rfl

@[simp]
theorem effects_register_cons (decl : DeclId) (actions : List Action) :
    effects (.register decl :: actions) = .register decl :: effects actions := rfl

@[simp]
theorem effects_map_stat (ids : List StatId) : effects (ids.map .stat) = [] := by
  induction ids with
  | nil => rfl
  | cons id ids ih =>
    rw [List.map_cons]
    apply ih

@[simp]
theorem effects_map_expr (ids : List ExprId) : effects (ids.map .expr) = [] := by
  induction ids with
  | nil => rfl
  | cons id ids ih => rw [List.map_cons, effects_expr_cons, ih]

@[simp]
theorem effects_map_register (decls : List DeclId) :
    effects (decls.map .register) = decls.map .register := by
  induction decls with
  | nil => rfl
  | cons decl decls ih => rw [List.map_cons, effects_step_cons rfl, ih]

@[simp]
theorem effects_planDecls (decls : List DeclId) (exps : List ExprId) :
    effects (planDecls decls exps) = planDecls decls exps := by
  induction decls generalizing exps with
  | nil =>
    unfold planDecls
    rfl
  | cons decl decls ih =>
    cases exps with
    | nil =>
      unfold planDecls
      rw [effects_step_cons rfl, ih]
    | cons value exps =>
      unfold planDecls
      rw [effects_step_cons rfl, effects_step_cons rfl, ih]

@[simp]
theorem effects_assigned (vars : List VarId) :
    effects (vars.flatMap fun var => [.assign var, .var var]) = vars.map .assign := by
  induction vars with
  | nil => rfl
  | cons var vars ih =>
    rw [List.flatMap_cons, effects_append, ih]
    rfl

@[simp]
theorem effects_planFunctions (funcs : List FuncDef) :
    effects (planFunctions funcs) = (funcs.map FuncDef.decl).map .register := by
  have hregister := effects_map_register (funcs.map FuncDef.decl)
  have hvalues := effects_map_expr (funcs.map FuncDef.value)
  rw [List.map_map] at hregister hvalues
  unfold planFunctions
  rw [effects_append, List.map_map]
  simp only [Function.comp_def] at hregister hvalues ⊢
  rw [hregister, hvalues, List.append_nil]

@[simp]
theorem effects_planBlock (block : Block) : effects (planBlock block) = [] := by
  apply effects_map_stat

@[simp]
theorem effects_planBlocks (blocks : List Block) : effects (blocks.flatMap planBlock) = [] := by
  induction blocks with
  | nil => rfl
  | cons block blocks ih => rw [List.flatMap_cons, effects_append, ih, effects_planBlock]; rfl

/-- What a statement does besides visiting nodes. -/
def statEffects : Stat → List Action
  | .decl _ decls exps => planDecls decls exps
  | .assign _ vars _ => vars.map .assign
  | .functions _ funcs => (funcs.map FuncDef.decl).map .register
  | .forNum _ id _ _ _ _ => [.register id]
  | .forIn _ decls _ _ => decls.map .register
  | _ => []

/-- What an expression does besides visiting nodes. -/
def exprEffects : ExprKind → List Action
  | .lambda params _ => .enter :: (params.map .register ++ [.leave])
  | _ => []

/-- What a variable form does besides visiting nodes. -/
def varEffects (id : VarId) : VarKind → List Action
  | .name _ _ => [.reference id]
  | _ => []

theorem effects_planStat (order : LoopOrder) (stat : Stat) :
    effects (planStat order stat) = statEffects stat := by
  cases stat with
  | whileLoop loc condition body => cases order <;> simp [planStat, statEffects, LoopOrder.plan]
  | repeatLoop loc body condition => cases order <;> simp [planStat, statEffects, LoopOrder.plan]
  | _ => simp [planStat, statEffects]

theorem effects_planExpr (kind : ExprKind) : effects (planExpr kind) = exprEffects kind := by
  cases kind with
  | initList fields =>
    have := effects_map_expr (fields.map InitField.exp)
    rwa [List.map_map] at this
  | lambda params body =>
    unfold planExpr exprEffects
    rw [effects_step_cons rfl, effects_append, effects_append, effects_planBlock,
      effects_map_register, List.append_nil]
    rfl
  | _ => simp [planExpr, exprEffects]

theorem effects_planVar (id : VarId) (kind : VarKind) :
    effects (planVar id kind) = varEffects id kind := by
  cases kind with
  | _ => rfl

end Effects

section Members

variable {node : Node} {plan : List Action} {decl : DeclId}

/-- What a node does besides visiting other nodes, by what it holds. -/
def contentEffects (node : Node) : Content → List Action
  | .stat s => statEffects s
  | .expr k => exprEffects k
  | .var k =>
    match node with
    | .var id => varEffects id k
    | _ => []

theorem exists_content?_of_plan? (h : plan? order p node = some plan) :
    ∃ content, p.content? node = some content := by
  rw [plan?_eq, Option.map_eq_some_iff] at h
  rcases h with ⟨content, hcontent, -⟩
  exact ⟨content, hcontent⟩

theorem effects_plan (h : plan? order p node = some plan) :
    ∃ content, p.content? node = some content ∧ plan = contentPlan order node content ∧
      ∀ action : Action, action.node? = none →
        (action ∈ plan ↔ action ∈ contentEffects node content) := by
  rw [plan?_eq, Option.map_eq_some_iff] at h
  rcases h with ⟨content, hcontent, rfl⟩
  have heffects : effects (contentPlan order node content) = contentEffects node content := by
    cases content with
    | stat s => apply effects_planStat
    | expr k => apply effects_planExpr
    | var k =>
      cases node with
      | var id => apply effects_planVar
      | _ => rfl
  refine ⟨content, hcontent, rfl, ?_⟩
  intro action hstep
  rw [← heffects, mem_effects]
  simp [hstep]

theorem register_mem_planDecls {decls : List DeclId} {exps : List ExprId} :
    .register decl ∈ planDecls decls exps ↔ decl ∈ decls := by
  induction decls generalizing exps with
  | nil => simp [planDecls]
  | cons head decls ih => cases exps <;> simp [planDecls, ih]

theorem initializer_mem_planDecls {decls : List DeclId} {exps : List ExprId} {value : ExprId} :
    .initializer decl value ∈ planDecls decls exps ↔
      ∃ i : Nat, decls[i]? = some decl ∧ exps[i]? = some value := by
  induction decls generalizing exps with
  | nil => simp [planDecls]
  | cons head decls ih =>
    cases exps with
    | nil => simp [planDecls, ih]
    | cons exp exps =>
      simp only [planDecls, List.mem_cons, reduceCtorEq, false_or, Action.initializer.injEq, ih]
      constructor
      . rintro (⟨rfl, rfl⟩ | ⟨i, hdecl, hvalue⟩)
        . exact ⟨0, rfl, rfl⟩
        . exact ⟨i + 1, hdecl, hvalue⟩
      . rintro ⟨i, hdecl, hvalue⟩
        cases i with
        | zero => exact .inl ⟨(Option.some.inj hdecl).symm, (Option.some.inj hvalue).symm⟩
        | succ i => exact .inr ⟨i, hdecl, hvalue⟩

theorem register_mem_statEffects {stat : Stat} :
    .register decl ∈ statEffects stat ↔ decl ∈ stat.binders := by
  cases stat with
  | decl loc decls exps => exact register_mem_planDecls
  | _ => simp [statEffects, Stat.binders]

/-- A node registers exactly the declarations that it binds. -/
theorem register_mem_plan (h : plan? order p node = some plan) :
    .register decl ∈ plan ↔ decl ∈ p.binders (.node node) := by
  rcases effects_plan h with ⟨content, hcontent, -, heffects⟩
  rw [heffects _ rfl]
  simp only [Program.binders, hcontent, Option.map_some, Option.getD_some]
  cases content with
  | stat s => exact register_mem_statEffects
  | expr k => cases k <;> simp [contentEffects, exprEffects, Content.binders, ExprKind.binders]
  | var k =>
    cases node with
    | var id => cases k <;> simp [contentEffects, varEffects, Content.binders]
    | _ => simp [contentEffects, Content.binders]

theorem mem_planDecls {action : Action} {decls : List DeclId} {exps : List ExprId}
    (h : action ∈ planDecls decls exps) :
    (∃ decl, action = .register decl) ∨ ∃ decl value, action = .initializer decl value := by
  induction decls generalizing exps with
  | nil => simp [planDecls] at h
  | cons head decls ih =>
    cases exps with
    | nil =>
      simp only [planDecls, List.mem_cons] at h
      rcases h with rfl | h
      . exact .inl ⟨head, rfl⟩
      . exact ih h
    | cons exp exps =>
      simp only [planDecls, List.mem_cons] at h
      rcases h with rfl | rfl | h
      . exact .inl ⟨head, rfl⟩
      . exact .inr ⟨head, exp, rfl⟩
      . exact ih h

theorem initializer_mem_plan {value : ExprId} (h : plan? order p node = some plan) :
    .initializer decl value ∈ plan ↔
      ∃ id loc decls exps, ∃ i : Nat, node = .stat id ∧ p.stat? id = some (.decl loc decls exps) ∧
        decls[i]? = some decl ∧ exps[i]? = some value := by
  rcases effects_plan h with ⟨content, hcontent, -, heffects⟩
  rw [heffects _ rfl]
  cases node with
  | stat id =>
    rw [content?_stat, Option.map_eq_some_iff] at hcontent
    rcases hcontent with ⟨stat, hstat, rfl⟩
    cases stat with
    | decl loc decls exps => simp [contentEffects, statEffects, initializer_mem_planDecls, hstat]
    | _ => simp [contentEffects, statEffects, hstat]
  | expr id =>
    rw [content?_expr, Option.map_eq_some_iff] at hcontent
    rcases hcontent with ⟨expr, -, rfl⟩
    cases expr.kind <;> simp [contentEffects, exprEffects]
  | var id =>
    rw [content?_var, Option.map_eq_some_iff] at hcontent
    rcases hcontent with ⟨var, -, rfl⟩
    cases var.kind <;> simp [contentEffects, varEffects]

theorem assign_mem_statEffects {stat : Stat} {target : VarId} :
    .assign target ∈ statEffects stat ↔
      ∃ loc vars exps, stat = .assign loc vars exps ∧ target ∈ vars := by
  cases stat with
  | decl loc decls exps =>
    simp only [statEffects, reduceCtorEq, false_and, exists_false, iff_false]
    intro h
    rcases mem_planDecls h with ⟨decl, heq⟩ | ⟨decl, value, heq⟩ <;> cases heq
  | _ => simp [statEffects]

theorem assign_mem_plan {target : VarId} (h : plan? order p node = some plan) :
    .assign target ∈ plan ↔
      ∃ id loc vars exps, node = .stat id ∧ p.stat? id = some (.assign loc vars exps) ∧
        target ∈ vars := by
  rcases effects_plan h with ⟨content, hcontent, -, heffects⟩
  rw [heffects _ rfl]
  cases node with
  | stat id =>
    rw [content?_stat, Option.map_eq_some_iff] at hcontent
    rcases hcontent with ⟨stat, hstat, rfl⟩
    simp [contentEffects, assign_mem_statEffects, hstat]
  | expr id =>
    rw [content?_expr, Option.map_eq_some_iff] at hcontent
    rcases hcontent with ⟨expr, -, rfl⟩
    cases expr.kind <;> simp [contentEffects, exprEffects]
  | var id =>
    rw [content?_var, Option.map_eq_some_iff] at hcontent
    rcases hcontent with ⟨var, -, rfl⟩
    cases var.kind <;> simp [contentEffects, varEffects]

theorem mem_statEffects {stat : Stat} {action : Action} (h : action ∈ statEffects stat) :
    (∃ decl, action = .register decl) ∨ (∃ decl value, action = .initializer decl value) ∨
      ∃ target, action = .assign target := by
  cases stat with
  | decl loc decls exps =>
    cases mem_planDecls h with
    | inl hregister => exact .inl hregister
    | inr hinitializer => exact .inr (.inl hinitializer)
  | assign loc vars exps =>
    rw [statEffects, List.mem_map] at h
    rcases h with ⟨target, -, rfl⟩
    exact .inr (.inr ⟨target, rfl⟩)
  | functions loc funcs =>
    rw [statEffects, List.mem_map] at h
    rcases h with ⟨decl, -, rfl⟩
    exact .inl ⟨decl, rfl⟩
  | forNum loc decl start limit step body =>
    rw [statEffects, List.mem_singleton] at h
    exact .inl ⟨decl, h⟩
  | forIn loc decls exps body =>
    rw [statEffects, List.mem_map] at h
    rcases h with ⟨decl, -, rfl⟩
    exact .inl ⟨decl, rfl⟩
  | _ => cases h

theorem not_mem_statEffects {stat : Stat} {action : Action}
    (hregister : ∀ decl, action ≠ .register decl)
    (hinitializer : ∀ decl value, action ≠ .initializer decl value)
    (hassign : ∀ target, action ≠ .assign target) : action ∉ statEffects stat := by
  intro hmem
  rcases mem_statEffects hmem with ⟨decl, heq⟩ | ⟨decl, value, heq⟩ | ⟨target, heq⟩
  . exact hregister decl heq
  . exact hinitializer decl value heq
  . exact hassign target heq

theorem reference_mem_plan {id : VarId} (h : plan? order p node = some plan)
    (hmem : .reference id ∈ plan) : node = .var id ∧ plan = [.reference id] := by
  rcases effects_plan h with ⟨content, hcontent, rfl, heffects⟩
  rw [heffects _ rfl] at hmem
  cases content with
  | stat s =>
    exfalso
    revert hmem
    apply not_mem_statEffects <;> simp
  | expr k => cases k <;> simp [contentEffects, exprEffects] at hmem
  | var k =>
    cases node with
    | var id' =>
      cases k with
      | name name target =>
        simp only [contentEffects, varEffects, List.mem_singleton, Action.reference.injEq] at hmem
        rw [hmem]
        exact ⟨rfl, rfl⟩
      | _ => cases hmem
    | _ => cases hmem

theorem plan?_of_named? {id : VarId} (h : p.named? id = some decl) :
    plan? order p (.var id) = some [.reference id] := by
  unfold named? at h
  rw [Option.bind_eq_some_iff] at h
  rcases h with ⟨var, hvar, hdecl⟩
  rw [plan?_eq, content?_var, hvar]
  cases hkind : var.kind with
  | name name target => simp [contentPlan, planVar, hkind]
  | _ =>
    rw [hkind] at hdecl
    cases hdecl

theorem inside_of_ne {content : Content} (hcontent : p.content? node = some content)
    (h : ∀ params body, content ≠ .expr (.lambda params body)) (around : List ExprId) :
    p.inside node around = around := by
  rcases inside_eq (p := p) node around with heq | ⟨id, params, body, rfl, hlambda, -⟩
  . exact heq
  . rw [hlambda] at hcontent
    injection hcontent with hcontent
    exact absurd hcontent.symm (h params body)

/-- A function literal begins and ends a function. No other node does. -/
theorem plan_cases (h : plan? order p node = some plan) :
    (∃ id params body, node = .expr id ∧
        p.content? node = some (.expr (.lambda params body)) ∧
        plan = .enter :: (params.map .register ++ planBlock body ++ [.leave])) ∨
      ((∀ around, p.inside node around = around) ∧ .enter ∉ plan ∧ .leave ∉ plan) := by
  rcases effects_plan h with ⟨content, hcontent, hplan, heffects⟩
  cases content with
  | stat s =>
    right
    rw [heffects _ rfl, heffects _ rfl]
    refine ⟨inside_of_ne hcontent (by simp), ?_, ?_⟩
    . apply not_mem_statEffects <;> simp
    . apply not_mem_statEffects <;> simp
  | expr k =>
    rcases exists_expr_of_content? hcontent with ⟨id, rfl⟩
    cases k with
    | lambda params body => exact .inl ⟨id, params, body, rfl, hcontent, hplan⟩
    | _ =>
      right
      rw [heffects _ rfl, heffects _ rfl]
      refine ⟨inside_of_ne hcontent (by simp), ?_, ?_⟩
      . apply List.not_mem_nil
      . apply List.not_mem_nil
  | var k =>
    rcases exists_var_of_content? hcontent with ⟨id, rfl⟩
    right
    rw [heffects _ rfl, heffects _ rfl]
    refine ⟨inside_of_ne hcontent (by simp), ?_⟩
    cases k <;> simp [contentEffects, varEffects]

end Members

section Neighbours

variable {node : Node} {decl : DeclId} {before after : List Action}

theorem assigned_split {target : VarId} {vars : List VarId} {actions : List Action}
    (hactions : .assign target ∉ actions)
    (h : (vars.flatMap fun var => [.assign var, .var var]) ++ actions =
      before ++ .assign target :: after) :
    ∃ after', after = .var target :: after' := by
  induction vars generalizing before with
  | nil =>
    rw [List.flatMap_nil, List.nil_append] at h
    subst h
    simp at hactions
  | cons var vars ih =>
    rw [List.flatMap_cons, List.append_assoc] at h
    cases before with
    | nil =>
      injection h with hvar h
      cases hvar
      exact ⟨_, h.symm⟩
    | cons head before =>
      injection h with _ h
      cases before with
      | nil =>
        injection h with hvar h
        cases hvar
      | cons head before =>
        injection h with _ h
        exact ih h

theorem assign_split {target : VarId}
    (h : plan? order p node = some (before ++ .assign target :: after)) :
    ∃ after', after = .var target :: after' := by
  have hmem : .assign target ∈ before ++ .assign target :: after := by simp
  rw [assign_mem_plan h] at hmem
  rcases hmem with ⟨id, loc, vars, exps, rfl, hstat, -⟩
  rw [plan?_stat, hstat] at h
  injection h with h
  unfold planStat at h
  apply assigned_split _ h
  simp [Action.expr]

/-- All values of a statement are visited before its variables are declared. -/
theorem values_split {value : ExprId}
    (h : plan? order p node = some (before ++ .initializer decl value :: after)) :
    ∃ decls exps before', value ∈ exps ∧ before = exps.map .expr ++ before' ∧
      planDecls decls exps = before' ++ .initializer decl value :: after := by
  have hmem : .initializer decl value ∈ before ++ .initializer decl value :: after := by simp
  rw [initializer_mem_plan h] at hmem
  rcases hmem with ⟨id, loc, decls, exps, i, rfl, hstat, -, hvalue⟩
  rw [plan?_stat, hstat] at h
  injection h with h
  unfold planStat at h
  refine ⟨decls, exps, ?_⟩
  rcases List.append_eq_append_iff.mp h with ⟨before', hbefore, hdecls⟩ | ⟨w, hw, hrest⟩
  . exact ⟨before', List.mem_of_getElem? hvalue, hbefore, hdecls⟩
  . cases w with
    | nil =>
      rw [List.append_nil] at hw
      refine ⟨[], List.mem_of_getElem? hvalue, ?_, hrest.symm⟩
      rw [List.append_nil, hw]
    | cons head w =>
      injection hrest with hhead _
      have : head ∈ exps.map Action.expr := by
        rw [hw]
        simp
      rw [← hhead] at this
      simp [Action.expr] at this

theorem initializer_split {value : ExprId}
    (h : plan? order p node = some (before ++ .initializer decl value :: after)) :
    .expr value ∈ before := by
  rcases values_split h with ⟨decls, exps, before', hvalue, rfl, -⟩
  rw [List.mem_append, List.mem_map]
  exact .inl ⟨value, hvalue, rfl⟩

theorem register_mem_of_planDecls_split {value : ExprId} {decls : List DeclId} {exps : List ExprId}
    (h : planDecls decls exps = before ++ .initializer decl value :: after) :
    .register decl ∈ before := by
  induction decls generalizing exps before with
  | nil => simp [planDecls] at h
  | cons head decls ih =>
    cases exps with
    | nil =>
      rw [planDecls] at h
      cases before with
      | nil => cases h
      | cons action before =>
        injection h with haction h
        apply List.mem_cons_of_mem
        apply ih h
    | cons exp exps =>
      rw [planDecls] at h
      cases before with
      | nil => cases h
      | cons action before =>
        injection h with haction h
        cases before with
        | nil =>
          cases h
          simp [← haction]
        | cons action' before =>
          injection h with _ h
          apply List.mem_cons_of_mem
          apply List.mem_cons_of_mem
          apply ih h

theorem register_split {value : ExprId}
    (h : plan? order p node = some (before ++ .initializer decl value :: after)) :
    .register decl ∈ before := by
  rcases values_split h with ⟨decls, exps, before', -, rfl, hdecls⟩
  rw [List.mem_append]
  right
  apply register_mem_of_planDecls_split hdecls

end Neighbours

theorem mem_planProgram {action : Action} (h : action ∈ planProgram p) :
    (∃ node, action = .visit node) ∨ ∃ decl, action = .register decl := by
  unfold planProgram at h
  rw [List.mem_flatMap] at h
  rcases h with ⟨item, -, h⟩
  cases item with
  | stats loc ids =>
    rw [planItem, List.mem_map] at h
    rcases h with ⟨id, -, rfl⟩
    exact .inl ⟨.stat id, rfl⟩
  | functions loc funcs =>
    rw [planItem, planFunctions, List.mem_append, List.mem_map, List.mem_map] at h
    rcases h with ⟨func, -, rfl⟩ | ⟨func, -, rfl⟩
    . exact .inr ⟨func.decl, rfl⟩
    . exact .inl ⟨.expr func.value, rfl⟩
  | record loc name fields ty => cases h
  | typealias loc name written ty => cases h

theorem not_mem_planProgram {action : Action} (hvisit : ∀ node, action ≠ .visit node)
    (hregister : ∀ decl, action ≠ .register decl) : action ∉ planProgram p := by
  intro hmem
  cases mem_planProgram hmem with
  | inl hmem =>
    rcases hmem with ⟨node, heq⟩
    exact hvisit node heq
  | inr hmem =>
    rcases hmem with ⟨decl, heq⟩
    exact hregister decl heq

theorem register_mem_planProgram {decl : DeclId} :
    .register decl ∈ planProgram p ↔ ∃ index, decl ∈ p.binders (.item index) := by
  have hitem (item : Toplevel) : .register decl ∈ planItem item ↔ decl ∈ item.binders := by
    cases item with
    | functions loc funcs =>
      simp [planItem, planFunctions, Toplevel.binders, Action.expr]
    | _ => simp [planItem, Toplevel.binders, Action.stat]
  unfold planProgram
  rw [List.mem_flatMap]
  constructor
  . rintro ⟨item, hmem, h⟩
    rw [hitem] at h
    rcases List.getElem?_of_mem hmem with ⟨index, hindex⟩
    refine ⟨index, ?_⟩
    rw [Array.getElem?_toList] at hindex
    simp only [Program.binders, hindex, Option.map_some, Option.getD_some]
    exact h
  . rintro ⟨index, h⟩
    unfold Program.binders at h
    cases hindex : p.items[index]? with
    | none => simp [hindex] at h
    | some item =>
      simp only [hindex, Option.map_some, Option.getD_some] at h
      refine ⟨item, Array.mem_toList_iff.mpr (Array.mem_of_getElem? hindex), ?_⟩
      rw [hitem]
      exact h

end Upvalue.Boxing

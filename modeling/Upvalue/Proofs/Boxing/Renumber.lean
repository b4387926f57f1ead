import Upvalue.Proofs.Boxing.Schedule
import Upvalue.Proofs.Program.Renumber

/-!
This module contains the moments of a program whose slots are in another order: they are the same
moments, in the same order, with the new handles.
-/

namespace Upvalue.Boxing

open Program

def Action.renumber (ρ : Renumbering) : Action → Action
  | .visit node => .visit (node.renumber ρ)
  | .register decl => .register (ρ.decl decl)
  | .initializer decl value => .initializer (ρ.decl decl) (ρ.expr value)
  | .assign target => .assign (ρ.var target)
  | .reference name => .reference (ρ.var name)
  | .enter => .enter
  | .leave => .leave

def Moment.renumber (ρ : Renumbering) (m : Moment) : Moment :=
  ⟨m.around.map ρ.expr, m.action.renumber ρ⟩

variable {ρ : Renumbering} {order : LoopOrder} {p q : Program}

section Plans

theorem Action.node?_renumber (action : Action) :
    (action.renumber ρ).node? = action.node?.map (Node.renumber ρ) := by
  cases action <;> rfl

@[simp]
theorem Action.renumber_stat (id : StatId) : (Action.stat id).renumber ρ = .stat (ρ.stat id) := rfl

@[simp]
theorem Action.renumber_expr (id : ExprId) : (Action.expr id).renumber ρ = .expr (ρ.expr id) := rfl

@[simp]
theorem Action.renumber_var (id : VarId) : (Action.var id).renumber ρ = .var (ρ.var id) := rfl

@[simp]
theorem Action.renumber_register (decl : DeclId) :
    (Action.register decl).renumber ρ = .register (ρ.decl decl) := rfl

@[simp]
theorem Action.renumber_assign (target : VarId) :
    (Action.assign target).renumber ρ = .assign (ρ.var target) := rfl

@[simp]
theorem Action.renumber_enter : Action.enter.renumber ρ = .enter := rfl

@[simp]
theorem Action.renumber_leave : Action.leave.renumber ρ = .leave := rfl

theorem planFunctions_renumber (funcs : List FuncDef) :
    planFunctions (funcs.map (FuncDef.renumber ρ)) =
      (planFunctions funcs).map (Action.renumber ρ) := by
  simp [planFunctions, FuncDef.renumber, Function.comp_def]

theorem planDecls_renumber (decls : List DeclId) (exps : List ExprId) :
    planDecls (decls.map ρ.decl) (exps.map ρ.expr) =
      (planDecls decls exps).map (Action.renumber ρ) := by
  induction decls generalizing exps with
  | nil => rfl
  | cons decl decls ih =>
    cases exps with
    | nil => exact congrArg _ (ih [])
    | cons exp exps => exact congrArg (_ :: _ :: ·) (ih exps)

theorem planBlock_renumber (block : Block) :
    planBlock (block.renumber ρ) = (planBlock block).map (Action.renumber ρ) := by
  simp [planBlock, Block.renumber, Function.comp_def]

theorem LoopOrder.plan_renumber (order : LoopOrder) (body condition : List Action) :
    order.plan (body.map (Action.renumber ρ)) (condition.map (Action.renumber ρ)) =
      (order.plan body condition).map (Action.renumber ρ) := by
  cases order <;> simp [LoopOrder.plan]

theorem planItem_renumber (item : Toplevel) :
    planItem (item.renumber ρ) = (planItem item).map (Action.renumber ρ) := by
  cases item with
  | stats loc ids => simp [planItem, Toplevel.renumber, Function.comp_def]
  | functions loc funcs => exact planFunctions_renumber funcs
  | _ => rfl

theorem planStat_renumber (order : LoopOrder) (s : Stat) :
    planStat order (s.renumber ρ) = (planStat order s).map (Action.renumber ρ) := by
  cases s with
  | decl loc decls exps =>
    simp [planStat, Stat.renumber, planDecls_renumber, Function.comp_def]
  | assign loc vars exps =>
    simp [planStat, Stat.renumber, List.flatMap_map, List.map_flatMap, Function.comp_def]
  | functions loc funcs => exact planFunctions_renumber funcs
  | whileLoop loc condition body =>
    simp [planStat, Stat.renumber, planBlock_renumber, ← LoopOrder.plan_renumber]
  | repeatLoop loc body condition =>
    simp [planStat, Stat.renumber, planBlock_renumber, ← LoopOrder.plan_renumber]
  | branch loc condition thenBlock elseBlock =>
    cases elseBlock <;> simp [planStat, Stat.renumber, planBlock_renumber]
  | forNum loc id start limit step body =>
    cases step <;> simp [planStat, Stat.renumber, planBlock_renumber]
  | _ => simp [planStat, Stat.renumber, planBlock_renumber, Function.comp_def]

theorem planExpr_renumber (k : ExprKind) :
    planExpr (k.renumber ρ) = (planExpr k).map (Action.renumber ρ) := by
  cases k <;>
    simp [planExpr, ExprKind.renumber, InitField.renumber, planBlock_renumber, Function.comp_def]

theorem contentPlan_renumber (order : LoopOrder) (node : Node) (content : Content) :
    contentPlan order (node.renumber ρ) (content.renumber ρ) =
      (contentPlan order node content).map (Action.renumber ρ) := by
  cases content with
  | stat s => exact planStat_renumber order s
  | expr k => exact planExpr_renumber k
  | var k =>
    cases node with
    | var id => cases k <;> rfl
    | _ => rfl

theorem plan?_renumber (h : Renumbers ρ p q) {node : Node} {plan : List Action}
    (hplan : plan? order p node = some plan) :
    plan? order q (node.renumber ρ) = some (plan.map (Action.renumber ρ)) := by
  rw [plan?_eq, Option.map_eq_some_iff] at hplan
  rcases hplan with ⟨content, hcontent, rfl⟩
  rw [plan?_eq, h.content?_eq hcontent, Option.map_some, contentPlan_renumber]

theorem planProgram_renumber (h : Renumbers ρ p q) :
    planProgram q = (planProgram p).map (Action.renumber ρ) := by
  unfold planProgram
  rw [h.items, Array.toList_map, List.flatMap_map, List.map_flatMap]
  simp only [planItem_renumber]

end Plans

section Moments

variable {all moments : List Moment} {around : List ExprId} {actions : List Action}

theorem Unfolds.renumber (h : Renumbers ρ p q) (hunfolds : Unfolds order p around actions moments) :
    Unfolds order q (around.map ρ.expr) (actions.map (Action.renumber ρ))
      (moments.map (Moment.renumber ρ)) := by
  induction hunfolds with
  | nil => exact .nil
  | visit hplan _ _ ihbelow ihrest =>
    rcases exists_content?_of_plan? hplan with ⟨content, hcontent⟩
    rw [← h.inside_eq hcontent] at ihbelow
    rw [List.map_cons, List.map_cons, List.map_append]
    exact .visit (plan?_renumber h hplan) ihbelow ihrest
  | @step around action actions rest hstep _ ih =>
    have hstep' : (action.renumber ρ).node? = none := by
      rw [action.node?_renumber, hstep, Option.map_none]
    exact .step hstep' ih

theorem visits_renumber (moments : List Moment) :
    visits (moments.map (Moment.renumber ρ)) = (visits moments).map (Node.renumber ρ) := by
  unfold visits
  rw [List.filterMap_map, List.map_filterMap]
  congr 1
  funext m
  exact m.action.node?_renumber

theorem Schedule.renumber (h : Renumbers ρ p q) (hall : Schedule order p all) :
    Schedule order q (all.map (Moment.renumber ρ)) := by
  constructor
  . rw [planProgram_renumber h]
    exact hall.unfolds.renumber h
  . rw [visits_renumber]
    exact hall.nodup.map Node.renumber_injective

end Moments

end Upvalue.Boxing

import Upvalue.Proofs.Boxing.Box
import Upvalue.Proofs.Boxing.Unfold

/-!
This module contains what the boxes leave of the visits of a program. Where a slot was overwritten,
its visit leads through the nodes that were put in between to the node that was moved. So the same
steps are performed in the same order, only that the names that were moved are used in their new
slots.
-/

namespace Upvalue.Boxing

open Program

/-- The visit of a node does nothing but lead to the visit of another one. -/
inductive Leads (order : LoopOrder) (q : Program) : Node → Node → Prop where
  | refl (node : Node) : Leads order q node node
  | step {node next target : Node} (hplan : plan? order q node = some [.visit next])
      (h : Leads order q next target) : Leads order q node target

/-- The second program holds what the first one holds, perhaps behind nodes that only lead to it. -/
structure Refines (order : LoopOrder) (p q : Program) (moved : VarId → VarId) : Prop where
  plan : planProgram q = planProgram p
  leads : ∀ node content, p.content? node = some content →
    ∃ target, Leads order q node target ∧ q.content? target = some content ∧
      ∀ id, node = .var id → target = .var (moved id)

/-- The steps of moments are their actions that do not visit a node. -/
def steps (moments : List Moment) : List Action :=
  effects (moments.map Moment.action)

/-- An action on the slots that the names were moved to. -/
def rename (moved : VarId → VarId) : Action → Action
  | .reference id => .reference (moved id)
  | action => action

variable {order : LoopOrder} {p q r : Program} {moved moved' : VarId → VarId}

section Steps

@[simp]
theorem steps_nil : steps [] = [] := rfl

@[simp]
theorem steps_append (moments moments' : List Moment) :
    steps (moments ++ moments') = steps moments ++ steps moments' := by
  unfold steps
  rw [List.map_append, effects_append]

@[simp]
theorem steps_cons_visit (around : List ExprId) (node : Node) (moments : List Moment) :
    steps (⟨around, .visit node⟩ :: moments) = steps moments := rfl

theorem steps_cons_step {action : Action} (h : action.node? = none) (around : List ExprId)
    (moments : List Moment) : steps (⟨around, action⟩ :: moments) = action :: steps moments := by
  unfold steps
  rw [List.map_cons, effects_step_cons h]

theorem node?_rename (action : Action) : (rename moved action).node? = action.node? := by
  cases action <;> rfl

theorem rename_of_ne {action : Action} (h : ∀ id, action ≠ .reference id) :
    rename moved action = action := by
  cases action with
  | reference id => exact absurd rfl (h id)
  | _ => rfl

theorem map_rename_of_not_mem {actions : List Action} (h : ∀ id, .reference id ∉ actions) :
    actions.map (rename moved) = actions := by
  induction actions with
  | nil => rfl
  | cons action actions ih =>
    rw [List.map_cons, rename_of_ne, ih]
    . intro id hmem
      exact h id (List.mem_cons_of_mem _ hmem)
    . rintro id rfl
      exact h id List.mem_cons_self

theorem map_rename_planProgram : (planProgram p).map (rename moved) = planProgram p := by
  apply map_rename_of_not_mem
  intro id
  apply not_mem_planProgram <;> simp

end Steps

section Plans

/-- Wherever a node is moved to, its plan does not change, except that a name uses its new slot. -/
theorem plan?_of_moved {node target : Node} {content : Content} {plan : List Action}
    (hcontent : p.content? node = some content) (htarget : q.content? target = some content)
    (hmoved : ∀ id, node = .var id → target = .var (moved id))
    (hplan : plan? order p node = some plan) :
    plan? order q target = some (plan.map (rename moved)) := by
  rw [plan?_eq, hcontent, Option.map_some] at hplan
  injection hplan with hplan
  rw [plan?_eq, htarget, Option.map_some]
  congr 1
  rw [← hplan]
  cases content with
  | stat s =>
    symm
    apply map_rename_of_not_mem
    intro id hmem
    have hstat : .reference id ∈ statEffects s := by
      rw [← effects_planStat order, mem_effects]
      exact ⟨hmem, rfl⟩
    revert hstat
    apply not_mem_statEffects <;> simp
  | expr k =>
    symm
    apply map_rename_of_not_mem
    intro id hmem
    have hexpr : .reference id ∈ exprEffects k := by
      rw [← effects_planExpr, mem_effects]
      exact ⟨hmem, rfl⟩
    cases k <;> simp [exprEffects] at hexpr
  | var k =>
    rcases exists_var_of_content? hcontent with ⟨id, rfl⟩
    rw [hmoved id rfl]
    cases k <;> rfl

theorem plan?_visit_of_moved {node target next : Node} {content : Content}
    (hcontent : p.content? node = some content) (htarget : q.content? target = some content)
    (hmoved : ∀ id, node = .var id → target = .var (moved id))
    (hplan : plan? order p node = some [.visit next]) :
    plan? order q target = some [.visit next] :=
  plan?_of_moved hcontent htarget hmoved hplan

end Plans

theorem Leads.trans {a b c : Node} (h : Leads order q a b) (h' : Leads order q b c) :
    Leads order q a c := by
  induction h with
  | refl => exact h'
  | step hplan _ ih => exact .step hplan (ih h')

namespace Refines

theorem refl (order : LoopOrder) (p : Program) : Refines order p p id := by
  constructor
  . rfl
  . intro node content hcontent
    refine ⟨node, .refl node, hcontent, ?_⟩
    intro id heq
    exact heq

theorem leads_of_leads (h : Refines order q r moved) {node target : Node} {content : Content}
    (hleads : Leads order q node target) (hcontent : q.content? target = some content) :
    ∃ final, Leads order r node final ∧ r.content? final = some content ∧
      ∀ id, target = .var id → final = .var (moved id) := by
  induction hleads with
  | refl node => exact h.leads node content hcontent
  | @step node next target hplan _ ih =>
    rcases ih hcontent with ⟨final, hfinal, hcontent', hmoved⟩
    rcases exists_content?_of_plan? hplan with ⟨c, hc⟩
    rcases h.leads node c hc with ⟨middle, hmiddle, hc', hmoved'⟩
    have hnext := plan?_visit_of_moved hc hc' hmoved' hplan
    exact ⟨final, hmiddle.trans (.step hnext hfinal), hcontent', hmoved⟩

theorem trans (h : Refines order p q moved) (h' : Refines order q r moved') :
    Refines order p r (moved' ∘ moved) := by
  constructor
  . rw [h'.plan, h.plan]
  . intro node content hcontent
    rcases h.leads node content hcontent with ⟨target, hleads, htarget, hmoved⟩
    rcases h'.leads_of_leads hleads htarget with ⟨final, hfinal, hcontent', hmoved'⟩
    refine ⟨final, hfinal, hcontent', ?_⟩
    intro id heq
    exact hmoved' _ (hmoved id heq)

theorem unfolds_of_leads {node target : Node} {plan actions : List Action}
    (h : Leads order q node target) (hplan : plan? order q target = some plan)
    (hbelow : ∀ around, ∃ below, Unfolds order q around plan below ∧ steps below = actions)
    (around : List ExprId) :
    ∃ moments, Unfolds order q around [.visit node] moments ∧ steps moments = actions := by
  induction h generalizing around with
  | refl node =>
    rcases hbelow (q.inside node around) with ⟨below, hunfolds, hsteps⟩
    refine ⟨_, .visit hplan hunfolds .nil, ?_⟩
    rw [steps_cons_visit, List.append_nil, hsteps]
  | @step node next target hnext _ ih =>
    rcases ih hplan (q.inside node around) with ⟨moments, hunfolds, hsteps⟩
    refine ⟨_, .visit hnext hunfolds .nil, ?_⟩
    rw [steps_cons_visit, List.append_nil, hsteps]

/-- The same actions lead to the same steps. -/
theorem unfolds (h : Refines order p q moved) {around : List ExprId} {actions : List Action}
    {moments : List Moment} (hunfolds : Unfolds order p around actions moments)
    (around' : List ExprId) :
    ∃ moments', Unfolds order q around' (actions.map (rename moved)) moments' ∧
      steps moments' = (steps moments).map (rename moved) := by
  induction hunfolds generalizing around' with
  | nil => exact ⟨[], .nil, rfl⟩
  | @visit around node plan actions below rest hplan _ _ ihbelow ihrest =>
    rcases exists_content?_of_plan? hplan with ⟨content, hcontent⟩
    rcases h.leads node content hcontent with ⟨target, hleads, htarget, hmoved⟩
    have hplan' := plan?_of_moved hcontent htarget hmoved hplan
    rcases unfolds_of_leads hleads hplan' ihbelow around' with ⟨below', hbelow', hsteps⟩
    rcases ihrest around' with ⟨rest', hrest', hsteps'⟩
    refine ⟨below' ++ rest', ?_, ?_⟩
    . exact hbelow'.append hrest'
    . rw [steps_append, hsteps, hsteps', steps_cons_visit, steps_append, List.map_append]
  | @step around action actions rest hstep _ ih =>
    rcases ih around' with ⟨rest', hrest', hsteps⟩
    have hstep' : (rename moved action).node? = none := by
      rw [node?_rename, hstep]
    refine ⟨_, .step hstep' hrest', ?_⟩
    rw [steps_cons_step hstep', steps_cons_step hstep, hsteps, List.map_cons]

theorem named?_moved (h : Refines order p q moved) {id : VarId} {var : Var}
    (hvar : p.var? id = some var) : q.named? (moved id) = p.named? id := by
  have hcontent := content?_of_var? hvar
  rcases h.leads _ _ hcontent with ⟨target, -, htarget, hmoved⟩
  rw [hmoved id rfl, content?_var, Option.map_eq_some_iff] at htarget
  rcases htarget with ⟨var', hvar', heq⟩
  unfold named?
  rw [hvar, hvar', Option.bind_some, Option.bind_some]
  injection heq with heq
  rw [heq]

theorem exists_var?_moved (h : Refines order p q moved) {id : VarId} {var : Var}
    (hvar : p.var? id = some var) : ∃ var', q.var? (moved id) = some var' := by
  have hcontent := content?_of_var? hvar
  rcases h.leads _ _ hcontent with ⟨target, -, htarget, hmoved⟩
  rw [hmoved id rfl, content?_var, Option.map_eq_some_iff] at htarget
  rcases htarget with ⟨var', hvar', -⟩
  exact ⟨var', hvar'⟩

theorem exists_var? (h : Refines order p q moved) {id : VarId} {var : Var}
    (hvar : p.var? id = some var) : ∃ var', q.var? id = some var' := by
  have hcontent := content?_of_var? hvar
  rcases h.leads _ _ hcontent with ⟨target, hleads, htarget, -⟩
  have hsome : ∃ content, q.content? (.var id) = some content := by
    cases hleads with
    | refl => exact ⟨_, htarget⟩
    | step hplan _ => exact exists_content?_of_plan? hplan
  rcases hsome with ⟨content, hsome⟩
  rw [content?_var, Option.map_eq_some_iff] at hsome
  rcases hsome with ⟨var', hvar', -⟩
  exact ⟨var', hvar'⟩

theorem named?_of_named? (h : Refines order p q moved) {id : VarId} {var : Var} {decl : DeclId}
    (hvar : p.var? id = some var) (hnamed : q.named? id = some decl) :
    p.named? id = some decl := by
  have hcontent := content?_of_var? hvar
  rcases h.leads _ _ hcontent with ⟨target, hleads, htarget, hmoved⟩
  -- A node that leads to another one holds no name.
  cases hleads with
  | refl =>
    have := h.named?_moved hvar
    rw [← hnamed, ← this]
    have hself := hmoved id rfl
    injection hself with hself
    rw [← hself]
  | step hplan _ =>
    rw [plan?_of_named? hnamed] at hplan
    cases hplan

section Boxes

variable (b : Box)

theorem planProgram_congr (h : q.items = p.items) : planProgram q = planProgram p := by
  unfold planProgram
  rw [h]

theorem retype (order : LoopOrder) (p : Program) : Refines order p (b.retype p) id := by
  constructor
  . apply planProgram_congr
    apply Box.items_retype
  . intro node content hcontent
    refine ⟨node, .refl node, ?_, fun _ heq => heq⟩
    rw [(b.sameSlot_retype node).content?, hcontent]

theorem wrap (order : LoopOrder) (hfit : (b.wrap p).Addressable) :
    Refines order p (b.wrap p) id := by
  cases hvalue : p.expr? b.initializer with
  | none =>
    unfold Box.wrap
    rw [hvalue]
    apply refl
  | some value =>
    have hlt := b.size_exprs_lt_of_wrap hfit hvalue
    constructor
    . apply planProgram_congr
      apply Box.items_wrap
    . intro node content hcontent
      by_cases hnode : node = .expr b.initializer
      . subst hnode
        refine ⟨.expr p.nextExpr, ?_, ?_, ?_⟩
        . apply Leads.step _ (.refl _)
          rw [plan?_eq, b.content?_wrap_initializer hlt hvalue]
          rfl
        . rw [b.content?_wrap_value hlt hvalue, hcontent]
        . intro id heq
          cases heq
      . have hnext : node ≠ .expr p.nextExpr := by
          rintro rfl
          rw [content?_expr, expr?_nextExpr p hlt] at hcontent
          cases hcontent
        refine ⟨node, .refl node, ?_, fun _ heq => heq⟩
        rw [(b.sameSlot_wrap hlt hvalue hnode hnext).content?, hcontent]

theorem access (order : LoopOrder) {id : VarId} (hfit : (b.access p id).Addressable) :
    ∃ moved, Refines order p (b.access p id) moved := by
  cases hvar : p.var? id with
  | none =>
    unfold Box.access
    rw [hvar]
    exact ⟨_, refl order p⟩
  | some var =>
    have hlt := b.size_exprs_lt_of_access hfit hvar
    have hlt' := b.size_vars_lt_of_access hfit hvar
    refine ⟨fun i => if i = id then p.nextVar else i, ?_, ?_⟩
    . apply planProgram_congr
      apply Box.items_access
    . intro node content hcontent
      by_cases hnode : node = .var id
      . subst hnode
        refine ⟨.var p.nextVar, ?_, ?_, ?_⟩
        . have hbase : Leads order (b.access p id) (.expr p.nextExpr) (.var p.nextVar) := by
            apply Leads.step _ (.refl _)
            rw [plan?_eq, b.content?_access_base hlt hvar]
            rfl
          apply Leads.step _ hbase
          rw [plan?_eq, b.content?_access_name hlt' hvar]
          rfl
        . rw [b.content?_access_moved hlt' hvar, hcontent]
        . intro i heq
          cases heq
          rw [if_pos rfl]
      . have hexpr : node ≠ .expr p.nextExpr := by
          rintro rfl
          rw [content?_expr, expr?_nextExpr p hlt] at hcontent
          cases hcontent
        have hname : node ≠ .var p.nextVar := by
          rintro rfl
          rw [content?_var, var?_nextVar p hlt'] at hcontent
          cases hcontent
        refine ⟨node, .refl node, ?_, ?_⟩
        . rw [(b.sameSlot_access hlt hlt' hvar hnode hexpr hname).content?, hcontent]
        . rintro i rfl
          have hne : i ≠ id := by
            rintro rfl
            exact hnode rfl
          rw [if_neg hne]

theorem foldl_access (order : LoopOrder) {ids : List VarId}
    (hfit : (ids.foldl b.access p).Addressable) :
    ∃ moved, Refines order p (ids.foldl b.access p) moved := by
  induction ids generalizing p with
  | nil => exact ⟨_, refl order p⟩
  | cons id ids ih =>
    rcases access b order (b.addressable_of_foldl_access hfit) with ⟨moved, hid⟩
    rcases ih hfit with ⟨moved', hids⟩
    exact ⟨_, hid.trans hids⟩

theorem apply (order : LoopOrder) (hfit : (b.apply p).Addressable) :
    ∃ moved, Refines order p (b.apply p) moved := by
  rw [Box.apply_eq] at hfit ⊢
  rcases foldl_access b order hfit with ⟨moved, haccess⟩
  have hwrap := wrap b order (b.addressable_of_foldl_access hfit)
  exact ⟨_, ((retype b order p).trans hwrap).trans haccess⟩

/-- Boxes leave everything that a program holds, behind the nodes that they put in between. -/
theorem foldl_apply (order : LoopOrder) {boxes : List Box}
    (hfit : (boxes.foldl (fun q b => b.apply q) p).Addressable) :
    ∃ moved, Refines order p (boxes.foldl (fun q b => b.apply q) p) moved := by
  induction boxes generalizing p with
  | nil => exact ⟨_, refl order p⟩
  | cons b boxes ih =>
    rcases apply b order (Box.addressable_of_foldl_apply hfit) with ⟨moved, hb⟩
    rcases ih hfit with ⟨moved', hboxes⟩
    exact ⟨_, hb.trans hboxes⟩

theorem append_items (h : Refines order p q moved) {items : Array Toplevel}
    (hitems : ∀ item ∈ items, planItem item = []) :
    Refines order p { q with items := q.items ++ items } moved := by
  constructor
  . rw [← h.plan]
    unfold planProgram
    dsimp only
    rw [Array.toList_append, List.flatMap_append, List.append_right_eq_self,
      List.flatMap_eq_nil_iff]
    intro item hitem
    exact hitems item (Array.mem_toList_iff.mp hitem)
  . intro node content hcontent
    rcases h.leads node content hcontent with ⟨target, hleads, htarget, hmoved⟩
    refine ⟨target, ?_, htarget, hmoved⟩
    clear hcontent htarget hmoved
    induction hleads with
    | refl node => exact .refl node
    | step hplan _ ih => exact .step hplan ih

end Boxes

end Refines

end Upvalue.Boxing

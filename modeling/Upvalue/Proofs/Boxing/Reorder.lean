import Upvalue.Proofs.Boxing.Report

/-!
This module contains what the order of the two parts of a loop changes about the moments of a
program. Both orders have the same moments. If nothing is assigned in the condition of a loop, the
assignments and the ends of the functions that contain assignments come in the same order, and so do
the boxes.
-/

namespace Upvalue

namespace Program

/-- A node belongs to the tree of another one: it is that node, or one that it owns in the end. -/
inductive Below (p : Program) (node : Node) : Node → Prop where
  | self : Below p node node
  | child {parent child : Node} (hparent : Below p node parent)
      (hchild : child ∈ p.children parent) : Below p node child

/-- An expression is the condition of a loop that can be reached. -/
def LoopCondition (p : Program) (condition : ExprId) : Prop :=
  ∃ loop loc body, p.Reachable (.stat loop) ∧
    (p.stat? loop = some (.whileLoop loc condition body) ∨
      p.stat? loop = some (.repeatLoop loc body condition))

/-- An assignment is in the tree of a node. -/
def AssignsBelow (p : Program) (node : Node) : Prop :=
  ∃ stat loc vars exps, p.Below node (.stat stat) ∧ p.stat? stat = some (.assign loc vars exps)

/-- Nothing is assigned in the condition of a loop. -/
def QuietConditions (p : Program) : Prop :=
  ∀ condition, p.LoopCondition condition → ¬ p.AssignsBelow (.expr condition)

variable {p : Program} {node node' node'' : Node}

theorem Below.trans (h : p.Below node node') (h' : p.Below node' node'') : p.Below node node'' := by
  induction h' with
  | self => exact h
  | child _ hchild ih => exact .child ih hchild

theorem Below.mem_of_closed {nodes : List Node} (h : p.Below node node') (hnode : node ∈ nodes)
    (hclosed : ∀ parent ∈ nodes, ∀ child ∈ p.children parent, child ∈ nodes) : node' ∈ nodes := by
  induction h with
  | self => exact hnode
  | child _ hchild ih => exact hclosed _ ih _ hchild

end Program

namespace Boxing

open Program

variable {order order' : LoopOrder} {p : Program} {around : List ExprId} {actions : List Action}
variable {moments moments' all all' : List Moment} {m : Moment} {node : Node}

/-! ### Moments -/

section Plans

variable {plan : List Action}

/-- A node has the same plan for both orders, or it is a loop. -/
theorem plan?_reorder (order' : LoopOrder) (h : plan? order p node = some plan) :
    plan? order' p node = some plan ∨
      ∃ loop body condition, node = .stat loop ∧
        (p.Reachable node → p.LoopCondition condition) ∧
        plan = order.plan (planBlock body) [.expr condition] ∧
        plan? order' p node = some (order'.plan (planBlock body) [.expr condition]) := by
  cases node with
  | expr id => exact .inl h
  | var id => exact .inl h
  | stat id =>
    rw [plan?_stat] at h ⊢
    cases hstat : p.stat? id with
    | none =>
      rw [hstat] at h
      cases h
    | some stat =>
      rw [hstat] at h
      cases h
      cases stat with
      | whileLoop loc condition body =>
        exact .inr ⟨id, body, condition, rfl,
          fun hreachable => ⟨id, loc, body, hreachable, .inl hstat⟩, rfl, rfl⟩
      | repeatLoop loc body condition =>
        exact .inr ⟨id, body, condition, rfl,
          fun hreachable => ⟨id, loc, body, hreachable, .inr hstat⟩, rfl, rfl⟩
      | _ => exact .inl rfl

theorem mem_planLoop {body condition : List Action} {action : Action} :
    action ∈ order.plan body condition ↔ action ∈ body ∨ action ∈ condition := by
  cases order with
  | bodyFirst => exact List.mem_append
  | conditionFirst => exact List.mem_append.trans or_comm

theorem exists_plan?_reorder (order' : LoopOrder) (h : plan? order p node = some plan) :
    ∃ plan', plan? order' p node = some plan' ∧ ∀ action, action ∈ plan' ↔ action ∈ plan := by
  rcases plan?_reorder order' h with hsame | ⟨loop, body, condition, -, -, rfl, hplan⟩
  . exact ⟨plan, hsame, fun _ => Iff.rfl⟩
  . refine ⟨_, hplan, ?_⟩
    intro action
    rw [mem_planLoop, mem_planLoop]

theorem Schedule.mem_of_mem (hall : Schedule order p all) (hall' : Schedule order' p all')
    (hm : m ∈ all) : m ∈ all' := by
  rcases m with ⟨around, action⟩
  rcases hall.exists_plan_of_mem hm with
    ⟨rfl, haction⟩ | ⟨outer, node, plan, hnode, hplan, haction, rfl⟩
  . exact hall'.unfolds.mem_of_mem haction
  . rcases exists_plan?_reorder order' hplan with ⟨plan', hplan', hmem⟩
    exact hall'.mem_of_plan hnode hplan' ((hmem action).mpr haction)

/-- The same moments happen in both orders. -/
theorem Schedule.mem_iff_mem (hall : Schedule order p all) (hall' : Schedule order' p all') :
    m ∈ all ↔ m ∈ all' :=
  ⟨hall.mem_of_mem hall', hall'.mem_of_mem hall⟩

end Plans

section Loops

variable {body condition : List Action}

theorem Unfolds.of_planLoop {order'' : LoopOrder}
    (h : Unfolds order p around (order''.plan body condition) moments) :
    ∃ ms ms', Unfolds order p around body ms ∧ Unfolds order p around condition ms' ∧
      (moments = ms ++ ms' ∨ moments = ms' ++ ms) := by
  cases order'' with
  | bodyFirst =>
    rcases h.of_append with ⟨ms, ms', rfl, hbody, hcondition⟩
    exact ⟨ms, ms', hbody, hcondition, .inl rfl⟩
  | conditionFirst =>
    rcases h.of_append with ⟨ms', ms, rfl, hcondition, hbody⟩
    exact ⟨ms, ms', hbody, hcondition, .inr rfl⟩

theorem exists_unfolds_planLoop (order'' : LoopOrder) {ms ms' : List Moment}
    (hbody : Unfolds order p around body ms) (hcondition : Unfolds order p around condition ms') :
    ∃ moments, Unfolds order p around (order''.plan body condition) moments ∧
      (moments = ms ++ ms' ∨ moments = ms' ++ ms) := by
  cases order'' with
  | bodyFirst => exact ⟨_, hbody.append hcondition, .inl rfl⟩
  | conditionFirst => exact ⟨_, hcondition.append hbody, .inr rfl⟩

theorem filter_of_append {f : Moment → Bool} {ms ms' : List Moment} (hquiet : ms'.filter f = [])
    (h : moments = ms ++ ms' ∨ moments = ms' ++ ms) : moments.filter f = ms.filter f := by
  rcases h with rfl | rfl
  . rw [List.filter_append, hquiet, List.append_nil]
  . rw [List.filter_append, hquiet, List.nil_append]

end Loops

/--
The order of the parts of loops does not change the order of moments that do not come from a
condition.
-/
theorem filter_eq_of_unfolds {f : Moment → Bool}
    (hquiet : ∀ condition, p.LoopCondition condition → ∀ order around moments,
      Unfolds order p around [.expr condition] moments → moments.filter f = [])
    (h : Unfolds order p around actions moments)
    (hreachable : ∀ node ∈ nodes actions, p.Reachable node)
    (h' : Unfolds order' p around actions moments') : moments.filter f = moments'.filter f := by
  induction h generalizing moments' with
  | nil =>
    cases h'
    rfl
  | step hstep hrest ih =>
    cases h' with
    | visit => cases hstep
    | step hstep' hrest' =>
      rw [nodes_step_cons hstep] at hreachable
      rw [List.filter_cons, List.filter_cons, ih hreachable hrest']
  | @visit around node plan actions below rest hplan hbelow hrest ihbelow ihrest =>
    cases h' with
    | step hstep' => cases hstep'
    | @visit _ _ plan' _ below' rest' hplan' hbelow' hrest' =>
      rw [nodes_visit_cons, List.forall_mem_cons] at hreachable
      have hchildren : ∀ child ∈ nodes plan, p.Reachable child := fun child hchild =>
        reachable_child hreachable.1 ((nodes_plan_perm hplan).mem_iff.mp hchild)
      have hsame : below.filter f = below'.filter f := by
        rcases plan?_reorder order' hplan with
          heq | ⟨loop, body, condition, rfl, hcondition, rfl, heq⟩
        . cases heq.symm.trans hplan'
          exact ihbelow hchildren hbelow'
        . cases heq.symm.trans hplan'
          -- The condition may come first or last, nothing of it is kept.
          rcases hbelow'.of_planLoop with ⟨ms, ms', hms, hms', hparts⟩
          have hnone := hquiet condition (hcondition hreachable.1) _ _ _ hms'
          rcases exists_unfolds_planLoop order hms hms' with ⟨other, hother, hparts'⟩
          rw [ihbelow hchildren hother, filter_of_append hnone hparts,
            filter_of_append hnone hparts']
      rw [List.filter_cons, List.filter_cons, List.filter_append, List.filter_append, hsame,
        ihrest hreachable.2 hrest']

/-- A moment stands for one of the actions, or for an action of a node below those they visit. -/
theorem Unfolds.exists_below (h : Unfolds order p around actions moments) (hm : m ∈ moments) :
    (m.around = around ∧ m.action ∈ actions) ∨ ∃ root ∈ nodes actions, ∃ node outer plan,
      p.Below root node ∧ plan? order p node = some plan ∧ m.action ∈ plan ∧
        m.around = p.inside node outer := by
  induction h with
  | nil => cases hm
  | @step around action actions rest hstep _ ih =>
    rw [nodes_step_cons hstep]
    rw [List.mem_cons] at hm
    rcases hm with rfl | hm
    . exact .inl ⟨rfl, List.mem_cons_self⟩
    . rcases ih hm with ⟨haround, haction⟩ | hbelow
      . exact .inl ⟨haround, List.mem_cons_of_mem _ haction⟩
      . exact .inr hbelow
  | @visit around node plan actions below rest hplan _ _ ihbelow ihrest =>
    rw [nodes_visit_cons]
    rw [List.mem_cons, List.mem_append] at hm
    rcases hm with rfl | hm | hm
    . exact .inl ⟨rfl, List.mem_cons_self⟩
    . right
      refine ⟨node, List.mem_cons_self, ?_⟩
      rcases ihbelow hm with
        ⟨haround, haction⟩ | ⟨root, hroot, node', outer, plan', hnode', hplan', haction, haround⟩
      . exact ⟨node, around, plan, .self, hplan, haction, haround⟩
      . have hchild := (nodes_plan_perm hplan).mem_iff.mp hroot
        exact ⟨node', outer, plan', Below.trans (.child .self hchild) hnode', hplan', haction,
          haround⟩
    . rcases ihrest hm with ⟨haround, haction⟩ | ⟨root, hroot, hbelow⟩
      . exact .inl ⟨haround, List.mem_cons_of_mem _ haction⟩
      . exact .inr ⟨root, List.mem_cons_of_mem _ hroot, hbelow⟩

/-! ### Marks -/

/-- A moment is an assignment, or the end of a function literal that contains one. -/
def Marks (p : Program) (m : Moment) : Prop :=
  (∃ target, m.action = .assign target) ∨
    (m.action = .leave ∧ ∃ func outer, m.around = func :: outer ∧ p.AssignsBelow (.expr func))

section Marks

variable {decl decl' : DeclId} {home home' : List ExprId}

theorem not_marks_of_condition (hquiet : p.QuietConditions) {condition : ExprId}
    (hcondition : p.LoopCondition condition)
    (h : Unfolds order p around [.expr condition] moments) : ∀ m ∈ moments, ¬ Marks p m := by
  intro m hm hmarks
  apply hquiet condition hcondition
  rcases h.exists_below hm with
    ⟨-, haction⟩ | ⟨root, hroot, node, outer, plan, hnode, hplan, haction, haround⟩
  . rw [List.mem_singleton] at haction
    rcases hmarks with ⟨target, htarget⟩ | ⟨hleave, -⟩
    . cases haction.symm.trans htarget
    . cases haction.symm.trans hleave
  . cases List.mem_singleton.mp hroot
    rcases hmarks with ⟨target, htarget⟩ | ⟨hleave, func, outer', haround', hassigns⟩
    . rw [htarget, assign_mem_plan hplan] at haction
      rcases haction with ⟨stat, loc, vars, exps, rfl, hstat, -⟩
      exact ⟨stat, loc, vars, exps, hnode, hstat⟩
    . rw [hleave] at haction
      rcases plan_cases hplan with ⟨id, params, body, rfl, hcontent, -⟩ | ⟨-, -, hnot⟩
      . rw [inside_lambda hcontent, haround'] at haround
        injection haround with hfunc _
        rcases hassigns with ⟨stat, loc, vars, exps, hstat, hassign⟩
        rw [hfunc] at hstat
        exact ⟨stat, loc, vars, exps, hnode.trans hstat, hassign⟩
      . exact absurd haction hnot

open Classical in
/-- If nothing is assigned in conditions, the order of the marks is the same for both orders. -/
theorem filter_marks_eq (hquiet : p.QuietConditions) (hall : Schedule order p all)
    (hall' : Schedule order' p all') : all.filter (Marks p ·) = all'.filter (Marks p ·) := by
  apply filter_eq_of_unfolds _ hall.unfolds _ hall'.unfolds
  . intro condition hcondition _ _ moments h
    rw [List.filter_eq_nil_iff]
    intro m hm
    rw [decide_eq_true_iff]
    exact not_marks_of_condition hquiet hcondition h m hm
  . rw [nodes_planProgram]
    exact reachable_roots

theorem below_of_within (h : p.Within around node) {func : ExprId} (hfunc : func ∈ around) :
    p.Below (.expr func) node := by
  induction h with
  | root => cases hfunc
  | @child around node child _ hchild ih =>
    rcases inside_eq (p := p) node around with heq | ⟨id, params, body, rfl, -, heq⟩
    . rw [heq] at hfunc
      exact .child (ih hfunc) hchild
    . rw [heq, List.mem_cons] at hfunc
      rcases hfunc with rfl | hfunc
      . exact .child .self hchild
      . exact .child (ih hfunc) hchild

/-- A function with a variable that is assigned contains an assignment. -/
theorem AssignedIn.marks_leave (h : AssignedIn p all all home decl) (hall : Schedule order p all)
    (hscoped : p.WellScoped) (hhome : home ≠ []) : Marks p ⟨home, .leave⟩ := by
  rcases h with ⟨hregister, gs, id, hmem, hid⟩
  cases home with
  | nil => exact absurd rfl hhome
  | cons func outer =>
    refine .inr ⟨rfl, func, outer, rfl, ?_⟩
    have hsuffix := hall.home_suffix hscoped hid hregister (hall.within_of_assign hmem)
    rcases hall.exists_plan_of_mem hmem with
      ⟨-, haction⟩ | ⟨gs', node, plan, hnode, hplan, haction, rfl⟩
    . exact absurd haction (not_mem_planProgram (by simp) (by simp))
    . rw [assign_mem_plan hplan] at haction
      rcases haction with ⟨stat, loc, vars, exps, rfl, hstat, -⟩
      exact ⟨stat, loc, vars, exps,
        below_of_within hnode (hsuffix.subset List.mem_cons_self), hstat⟩

end Marks

/-! ### Order -/

section Transfer

variable {f : Moment → Bool} {past past' before after : List Moment} {decl decl' : DeclId}
variable {home home' : List ExprId}

/-- What stands around a moment in a list stands around it in a list with the same kept moments. -/
theorem exists_split_of_filter (hf : past.filter f = past'.filter f)
    (hpast : past = before ++ m :: after) (hm : f m = true) :
    ∃ before' after', past' = before' ++ m :: after' ∧ before.filter f = before'.filter f ∧
      after.filter f = after'.filter f := by
  rw [hpast, List.filter_append, List.filter_cons_of_pos hm] at hf
  rcases List.filter_eq_append_iff.mp hf.symm with ⟨before', rest, rfl, hbefore, hrest⟩
  rcases List.filter_eq_cons_iff.mp hrest with ⟨skipped, after', rfl, hskipped, -, hafter⟩
  refine ⟨before' ++ skipped, after', ?_, ?_, hafter.symm⟩
  . rw [List.append_assoc]
  . rw [List.filter_append, hbefore, List.filter_eq_nil_iff.mpr hskipped, List.append_nil]

theorem LeftBefore.of_filter (h : LeftBefore past home home')
    (hf : past.filter f = past'.filter f) (hhome : f ⟨home, .leave⟩ = true)
    (hhome' : f ⟨home', .leave⟩ = true) : LeftBefore past' home home' := by
  rcases h with ⟨before, between, after, hpast⟩
  rcases exists_split_of_filter hf hpast hhome with ⟨before', rest, rfl, -, hrest⟩
  rcases exists_split_of_filter hrest rfl hhome' with ⟨between', after', rfl, -, -⟩
  exact ⟨before', between', after', rfl⟩

theorem Earlier.of_filter (h : Earlier p past decl decl') (hf : past.filter f = past'.filter f)
    (hassign : ∀ gs target, f ⟨gs, .assign target⟩ = true) : Earlier p past' decl decl' := by
  rcases h with ⟨before, ⟨gs, action⟩, after, hpast, hm, hnone⟩
  rcases isSome_assignment?_iff.mp hm with ⟨target, rfl, -⟩
  rcases exists_split_of_filter hf hpast (hassign gs target) with ⟨before', after', rfl, hbefore, -⟩
  refine ⟨before', _, after', rfl, hm, ?_⟩
  rw [assignedAt?_eq_none_iff] at hnone ⊢
  intro gs' target' hmem
  have hkept : ⟨gs', .assign target'⟩ ∈ before'.filter f :=
    List.mem_filter.mpr ⟨hmem, hassign gs' target'⟩
  rw [← hbefore] at hkept
  exact hnone gs' target' (List.mem_of_mem_filter hkept)

/-- A function is left once, so that it is not left before and after another one. -/
theorem LeftBefore.asymm (hall : Schedule order p all) (hhome : home ≠ []) (hhome' : home' ≠ [])
    (h : LeftBefore all home home') : ¬ LeftBefore all home' home := by
  rintro ⟨before', between', after', hsplit'⟩
  rcases h with ⟨before, between, after, hsplit⟩
  rcases List.exists_cons_of_ne_nil hhome with ⟨func, outer, rfl⟩
  rcases List.exists_cons_of_ne_nil hhome' with ⟨func', outer', rfl⟩
  have hnot := hall.not_mem_around_of_leave hsplit
  have hnot' := hall.not_mem_around_of_leave hsplit'
  rcases split_cases (hsplit.symm.trans hsplit') with ⟨rfl, heq⟩ | ⟨rest, rfl⟩ | ⟨rest, rfl⟩
  . cases heq
    apply hnot ⟨func :: outer, .leave⟩
    . simp
    . simp
  . rw [hsplit, List.append_assoc, List.append_cancel_left_eq, List.cons_append,
      List.cons.injEq] at hsplit'
    apply hnot ⟨func :: outer, .leave⟩
    . rw [hsplit'.2]
      simp
    . simp
  . rw [hsplit', List.append_assoc, List.append_cancel_left_eq, List.cons_append,
      List.cons.injEq] at hsplit
    apply hnot' ⟨func' :: outer', .leave⟩
    . rw [hsplit.2]
      simp
    . simp

theorem Earlier.antisymm (h : Earlier p past decl decl') (h' : Earlier p past decl' decl) :
    decl = decl' := by
  rcases h with ⟨before, m, after, hpast, hm, hnone⟩
  rcases h' with ⟨before', m', after', hpast', hm', hnone'⟩
  rcases m with ⟨gs, action⟩
  rcases m' with ⟨gs', action'⟩
  rcases isSome_assignment?_iff.mp hm with ⟨target, rfl, hid⟩
  rcases isSome_assignment?_iff.mp hm' with ⟨target', rfl, hid'⟩
  rw [assignedAt?_eq_none_iff] at hnone hnone'
  rcases split_cases (hpast.symm.trans hpast') with ⟨-, heq⟩ | ⟨rest, rfl⟩ | ⟨rest, rfl⟩
  . cases heq
    rw [hid] at hid'
    injection hid'
  . exact absurd hid (hnone' gs target (by simp))
  . exact absurd hid' (hnone gs' target' (by simp))

end Transfer

section Boxes

variable {field : String} {s s' : State} {decl decl' : DeclId}

/-- A variable of a function literal is assigned. -/
def AssignedLocal (p : Program) (all : List Moment) (decl : DeclId) : Prop :=
  ∃ home, home ≠ [] ∧ AssignedIn p all all home decl

theorem AssignedLocal.exists_home (h : AssignedLocal p all decl) (hall : Schedule order p all)
    (hscoped : p.WellScoped) : ∃ home, home ≠ [] ∧ Marks p ⟨home, .leave⟩ ∧
      ∀ home' place position, p.BoundAt decl home' place position → home' = home := by
  rcases h with ⟨home, hne, hassigned⟩
  refine ⟨home, hne, hassigned.marks_leave hall hscoped hne, ?_⟩
  intro home' place position hbound
  apply hall.home_unique hscoped hassigned.unexported _ hassigned.1
  exact hall.register_mem_iff.mpr ⟨place, position, hbound⟩

open Classical in
/-- The marks say which variable is boxed first. -/
theorem BoxedBefore.of_marks (h : BoxedBefore p all decl decl') (hall : Schedule order p all)
    (hscoped : p.WellScoped) (hdecl : AssignedLocal p all decl)
    (hdecl' : AssignedLocal p all decl')
    (hmarks : all.filter (Marks p ·) = all'.filter (Marks p ·)) :
    BoxedBefore p all' decl decl' := by
  rcases hdecl.exists_home hall hscoped with ⟨home, -, hleave, hhome⟩
  rcases hdecl'.exists_home hall hscoped with ⟨home', -, hleave', hhome'⟩
  rcases h with ⟨_, place, position, _, place', position', hbound, hbound', horder⟩
  cases hhome _ _ _ hbound
  cases hhome' _ _ _ hbound'
  refine ⟨_, place, position, _, place', position', hbound, hbound', ?_⟩
  rcases horder with hleft | ⟨heq, hearlier⟩
  . left
    exact hleft.of_filter hmarks (decide_eq_true hleave) (decide_eq_true hleave')
  . right
    exact ⟨heq, hearlier.of_filter hmarks fun _ target => decide_eq_true (.inl ⟨target, rfl⟩)⟩

theorem BoxedBefore.antisymm (h : BoxedBefore p all decl decl') (h' : BoxedBefore p all decl' decl)
    (hall : Schedule order p all) (hscoped : p.WellScoped) (hdecl : AssignedLocal p all decl)
    (hdecl' : AssignedLocal p all decl') : decl = decl' := by
  rcases hdecl.exists_home hall hscoped with ⟨home, hne, -, hhome⟩
  rcases hdecl'.exists_home hall hscoped with ⟨home', hne', -, hhome'⟩
  rcases h with ⟨_, _, _, _, _, _, hbound, hbound', horder⟩
  rcases h' with ⟨_, _, _, _, _, _, hbound₁', hbound₁, horder'⟩
  cases hhome _ _ _ hbound
  cases hhome' _ _ _ hbound'
  cases hhome _ _ _ hbound₁
  cases hhome' _ _ _ hbound₁'
  rcases horder with hleft | ⟨heq, hearlier⟩
  . rcases horder' with hleft' | ⟨heq', -⟩
    . exact absurd hleft' (hleft.asymm hall hne hne')
    . subst heq'
      exact absurd hleft (hleft.asymm hall hne hne)
  . rcases horder' with hleft' | ⟨-, hearlier'⟩
    . subst heq
      exact absurd hleft' (hleft'.asymm hall hne hne)
    . exact hearlier.antisymm hearlier'

variable (hall : Schedule order p all) (hall' : Schedule order' p all') (hscoped : p.WellScoped)
variable (h : Pass.play field all (.start p) = .ok () s)
variable (h' : Pass.play field all' (.start p) = .ok () s')

include hall hscoped h

theorem decides_of_play_all : Decides p all all [] s :=
  (decides_of_play hall hscoped (List.append_nil all).symm hall.follows h).1

theorem assignedLocal_of_boxed (hdecl : decl ∈ s.boxes.toList.map Box.decl) :
    AssignedLocal p all decl := by
  rcases ((decides_of_play_all hall hscoped h).boxed decl).mp hdecl with
    ⟨home, hclosed, hassigned, -⟩
  refine ⟨home, ?_, hassigned⟩
  rintro rfl
  exact hclosed (List.suffix_refl _)

include hall' h'

/-- The same variables are boxed in both orders. -/
theorem mem_decls_iff_of_play :
    decl ∈ s.boxes.toList.map Box.decl ↔ decl ∈ s'.boxes.toList.map Box.decl := by
  have hmem (m : Moment) : m ∈ all ↔ m ∈ all' := hall.mem_iff_mem hall'
  rw [(decides_of_play_all hall hscoped h).boxed, (decides_of_play_all hall' hscoped h').boxed]
  simp only [AssignedIn, CapturedIn, hmem]

/-- The variables are boxed in the same order if nothing is assigned in conditions. -/
theorem decls_eq_of_play (hquiet : p.QuietConditions) :
    s.boxes.toList.map Box.decl = s'.boxes.toList.map Box.decl := by
  have hmem (decl : DeclId) :
      decl ∈ s.boxes.toList.map Box.decl ↔ decl ∈ s'.boxes.toList.map Box.decl :=
    mem_decls_iff_of_play hall hall' hscoped h h'
  have hlocal {decl : DeclId} (hdecl : decl ∈ s.boxes.toList.map Box.decl) :
      AssignedLocal p all decl := assignedLocal_of_boxed hall hscoped h hdecl
  have hperm : (s.boxes.toList.map Box.decl).Perm (s'.boxes.toList.map Box.decl) :=
    (List.perm_ext_iff_of_nodup (decides_of_play_all hall hscoped h).once
      (decides_of_play_all hall' hscoped h').once).mpr hmem
  have hsorted' : (s'.boxes.toList.map Box.decl).Pairwise (BoxedBefore p all) := by
    apply (sequenced_of_play hall' hscoped h').pairwise.imp_of_mem
    intro decl decl' hdecl hdecl' hbefore
    apply hbefore.of_marks hall' hscoped
    . exact assignedLocal_of_boxed hall' hscoped h' hdecl
    . exact assignedLocal_of_boxed hall' hscoped h' hdecl'
    . exact filter_marks_eq hquiet hall' hall
  apply hperm.eq_of_pairwise _ (sequenced_of_play hall hscoped h).pairwise hsorted'
  intro decl decl' hdecl hdecl' hbefore hbefore'
  exact hbefore.antisymm hbefore' hall hscoped (hlocal hdecl) (hlocal ((hmem _).mpr hdecl'))

end Boxes

end Boxing

end Upvalue

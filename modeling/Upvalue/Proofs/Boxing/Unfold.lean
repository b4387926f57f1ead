import Upvalue.Proofs.Boxing.Plan

/-!
This module contains the order of all visits of a program as one list. Its moments are the actions
that the pass performs from the first item to the last one, each with the function literals around
it. The list is read off the program before the pass, it does not depend on what the pass does.
-/

namespace Upvalue.Boxing

open Program

/-- An action, with the function literals around it, the innermost one first. -/
structure Moment where
  around : List ExprId
  action : Action
deriving DecidableEq, Repr

/-- The nodes that are visited, in this order. -/
def visits (moments : List Moment) : List Node :=
  moments.filterMap (·.action.node?)

/-- Actions lead to moments: the visit of a node is followed by what its plan leads to. -/
inductive Unfolds (order : LoopOrder) (p : Program) :
    List ExprId → List Action → List Moment → Prop where
  | nil {around : List ExprId} : Unfolds order p around [] []
  | visit {around : List ExprId} {node : Node} {plan actions : List Action}
      {below rest : List Moment} (hplan : plan? order p node = some plan)
      (hbelow : Unfolds order p (p.inside node around) plan below)
      (hrest : Unfolds order p around actions rest) :
      Unfolds order p around (.visit node :: actions) (⟨around, .visit node⟩ :: (below ++ rest))
  | step {around : List ExprId} {action : Action} {actions : List Action} {rest : List Moment}
      (hstep : action.node? = none) (hrest : Unfolds order p around actions rest) :
      Unfolds order p around (action :: actions) (⟨around, action⟩ :: rest)

variable {order : LoopOrder} {p : Program}

theorem Unfolds.append {around : List ExprId} {actions actions' : List Action}
    {moments moments' : List Moment} (h : Unfolds order p around actions moments)
    (h' : Unfolds order p around actions' moments') :
    Unfolds order p around (actions ++ actions') (moments ++ moments') := by
  induction h with
  | nil => exact h'
  | visit hplan hbelow _ _ ih =>
    rw [List.cons_append, List.cons_append, List.append_assoc]
    exact .visit hplan hbelow (ih h')
  | step hstep _ ih => exact .step hstep (ih h')

theorem Unfolds.of_append {around : List ExprId} {actions actions' : List Action}
    {moments : List Moment} (h : Unfolds order p around (actions ++ actions') moments) :
    ∃ ms ms', moments = ms ++ ms' ∧ Unfolds order p around actions ms ∧
      Unfolds order p around actions' ms' := by
  induction actions generalizing moments with
  | nil => exact ⟨[], moments, rfl, .nil, h⟩
  | cons action actions ih =>
    cases h with
    | visit hplan hbelow hrest =>
      rcases ih hrest with ⟨ms, ms', rfl, hms, hms'⟩
      refine ⟨_, ms', ?_, .visit hplan hbelow hms, hms'⟩
      rw [List.cons_append, List.append_assoc]
    | step hstep hrest =>
      rcases ih hrest with ⟨ms, ms', rfl, hms, hms'⟩
      exact ⟨_, ms', rfl, .step hstep hms, hms'⟩

theorem Unfolds.unique {around : List ExprId} {actions : List Action}
    {moments moments' : List Moment} (h : Unfolds order p around actions moments)
    (h' : Unfolds order p around actions moments') : moments = moments' := by
  induction h generalizing moments' with
  | nil =>
    cases h'
    rfl
  | visit hplan _ _ ihbelow ihrest =>
    cases h' with
    | visit hplan' hbelow' hrest' =>
      rw [hplan] at hplan'
      cases hplan'
      rw [ihbelow hbelow', ihrest hrest']
    | step hstep _ => cases hstep
  | step hstep _ ih =>
    cases h' with
    | visit => cases hstep
    | step _ hrest' => rw [ih hrest']

theorem visits_cons_visit (around : List ExprId) (node : Node) (moments : List Moment) :
    visits (⟨around, .visit node⟩ :: moments) = node :: visits moments := rfl

theorem visits_cons_step {action : Action} (h : action.node? = none) (around : List ExprId)
    (moments : List Moment) : visits (⟨around, action⟩ :: moments) = visits moments := by
  unfold visits
  rw [List.filterMap_cons, h]

theorem visits_append (moments moments' : List Moment) :
    visits (moments ++ moments') = visits moments ++ visits moments' := by
  apply List.filterMap_append

theorem exists_unfolds_of_walk (order : LoopOrder) (size : Nat) :
    ∀ {actions : List Action} {met : List Node} (around : List ExprId), met.length ≤ size →
      p.Walk (nodes actions) met → (∀ node ∈ met, p.contains (.node node) = true) →
      ∃ moments, Unfolds order p around actions moments ∧ (visits moments).Perm met := by
  -- The number of nodes gets smaller below a node, the list of actions after an action.
  induction size using Nat.strongRecOn with
  | _ size ihsize =>
    intro actions
    induction actions with
    | nil =>
      intro met around hsize hwalk hcontains
      cases hwalk
      exact ⟨[], .nil, .refl _⟩
    | cons action actions ih =>
      intro met around hsize hwalk hcontains
      cases hnode : action.node? with
      | none =>
        rw [nodes_step_cons hnode] at hwalk
        rcases ih around hsize hwalk hcontains with ⟨moments, hmoments, hperm⟩
        refine ⟨_, .step hnode hmoments, ?_⟩
        rw [visits_cons_step hnode]
        exact hperm
      | some node =>
        have haction : action = .visit node := by
          cases action <;> cases hnode
          rfl
        subst haction
        rw [nodes_visit_cons] at hwalk
        cases hwalk with
        | @cons _ _ below met hbelow hmet =>
          rw [List.forall_mem_cons, List.forall_mem_append] at hcontains
          rw [List.length_cons, List.length_append] at hsize
          have hsome := contains_iff_isSome.mp hcontains.1
          rcases Option.isSome_iff_exists.mp hsome with ⟨content, hcontent⟩
          have hplan : plan? order p node = some (contentPlan order node content) := by
            rw [plan?_eq, hcontent]
            rfl
          -- The plan may visit the nodes in another order than they are stored in.
          rcases Walk.perm (nodes_plan_perm hplan).symm hbelow with ⟨below', hperm, hbelow'⟩
          have hlength := hperm.length_eq
          rcases ihsize below'.length (by omega) (p.inside node around) (Nat.le_refl _) hbelow'
            (fun n hn => hcontains.2.1 n (hperm.mem_iff.mpr hn)) with ⟨ms, hms, hmsperm⟩
          rcases ih around (by omega) hmet hcontains.2.2 with ⟨ms', hms', hmsperm'⟩
          refine ⟨_, .visit hplan hms hms', ?_⟩
          rw [visits_cons_visit, visits_append]
          exact ((hmsperm.trans hperm.symm).append hmsperm').cons node

/-- The visits of a program whose nodes form a tree unfold, and no node is visited twice. -/
theorem exists_unfolds (order : LoopOrder) (h : p.Valid) :
    ∃ moments, Unfolds order p [] (planProgram p) moments ∧ (visits moments).Nodup := by
  rcases valid_iff.mp h with ⟨hrange, met, hwalk, hnodup⟩
  have hcontains : ∀ node ∈ met, p.contains (.node node) = true := by
    apply hwalk.contains hrange
    intro node hnode
    exact contains_root hrange hnode
  have hroots : p.Walk (nodes (planProgram p)) met := by
    rw [nodes_planProgram]
    exact hwalk
  rcases exists_unfolds_of_walk order met.length [] (Nat.le_refl _) hroots hcontains with
    ⟨moments, hmoments, hperm⟩
  exact ⟨moments, hmoments, hperm.nodup_iff.mpr hnodup⟩

end Upvalue.Boxing

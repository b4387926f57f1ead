import Upvalue.Proofs.Boxing.Blame
import Upvalue.Proofs.Boxing.Trail
import Upvalue.Proofs.Boxing.Validity
import Upvalue.Proofs.Program.Follow

/-!
This module contains the proof that the trail of the pass is orderly. The pass visits the nodes that
the check of the program follows, and no slot is overwritten before the visit of its node has ended.
-/

namespace Upvalue.Boxing

open Program

/-- The values of the variables that are declared are visited first. -/
def Ready (trail : List Stamp) (actions : List Action) : Prop :=
  ∀ before decl value after, actions = before ++ .initializer decl value :: after →
    .expr value ∈ before ∨ .expr value ∈ ended trail

variable {order : LoopOrder} {field : String} {p : Program} {all past rest : List Moment}
variable {around : List ExprId} {trail : List Stamp} {s s' : State} {node : Node}

/--
A part of the pass performs moments and leaves stamps. If it stops, it has performed some of the
moments.
-/
structure Covers (field : String) (p : Program) (all past moments : List Moment)
    (trail stamps : List Stamp) (part : Pass Unit) (s : State) : Prop where
  ok : ∀ s', part s = .ok () s' → Sound field p (past ++ moments) (trail ++ stamps) s' ∧
    (ended stamps).Perm (visits moments)
  error : ∀ stop s', part s = .error stop s' → ∃ past' later, all = past' ++ later ∧
    Sound field p past' (trail ++ stamps) s'

namespace Covers

variable {options : Options} {moments moments' below later : List Moment} {depth : Nat}
variable {plan actions : List Action} {action : Action}

theorem nil (h : Sound field p past trail s) : Covers field p all past [] trail [] (pure ()) s := by
  constructor
  . intro s' hs
    cases hs
    simp [h, visits, ended]
  . intro stop s' hs
    cases hs

theorem cons {α : Type} {f : α → Pass Unit} {stamps : α → State → List Stamp} {a : α}
    {as : List α} (hfirst : Covers field p all past moments trail (stamps a s) (f a) s)
    (hrest : ∀ s', f a s = .ok () s' → Covers field p all (past ++ moments) moments'
      (trail ++ stamps a s) (Pass.stampsOfAll f stamps as s') (as.forM f) s') :
    Covers field p all past (moments ++ moments') trail (Pass.stampsOfAll f stamps (a :: as) s)
      ((a :: as).forM f) s := by
  cases hs : f a s with
  | ok _ s₁ =>
    have hperm := (hfirst.ok s₁ hs).2
    have hcovers := hrest s₁ hs
    rw [Pass.stampsOfAll_cons_ok hs]
    constructor
    . intro s' hs'
      rw [Pass.forM_cons_ok hs] at hs'
      have hsound := hcovers.ok s' hs'
      rw [← List.append_assoc, ← List.append_assoc, ended_append, visits_append]
      exact ⟨hsound.1, hperm.append hsound.2⟩
    . intro stop s' hs'
      rw [Pass.forM_cons_ok hs] at hs'
      rw [← List.append_assoc]
      apply hcovers.error stop s' hs'
  | error stop₁ s₁ =>
    rw [Pass.stampsOfAll_cons_error hs]
    constructor
    . intro s' hs'
      rw [Pass.forM_cons_error hs] at hs'
      cases hs'
    . intro stop s' hs'
      rw [Pass.forM_cons_error hs] at hs'
      cases hs'
      apply hfirst.error stop₁ s₁ hs

theorem ended_boxes (decls : List DeclId) (s : State) :
    ended (Pass.stampsOfAll (Pass.box field) (Pass.stampsOfBox field) decls s) = [] := by
  induction decls generalizing s with
  | nil => rfl
  | cons decl decls ih =>
    have hstamps : ended (Pass.stampsOfBox field decl s) = [] := by
      unfold Pass.stampsOfBox
      split <;> rfl
    rw [Pass.stampsOfAll, ended_append, hstamps, List.nil_append]
    split
    . apply ih
    . rfl

theorem leave (hall : Schedule order p all) (hvalid : p.Valid)
    {stamps : Node → State → List Stamp} (h : Sound field p past trail s)
    (hsplit : all = past ++ ⟨around, .leave⟩ :: later) :
    Covers field p all past [⟨around, .leave⟩] trail
      (Pass.stampsOfAction field stamps .leave s) (Pass.leave field) s := by
  unfold Pass.stampsOfAction Pass.leave
  cases hexit : s.exit with
  | error stop =>
    constructor
    . intro s' hs
      rw [hexit] at hs
      cases hs
    . intro stop' s' hs
      rw [hexit] at hs
      cases hs
      refine ⟨past, _, hsplit, ?_⟩
      rw [List.append_nil]
      exact h
  | ok result =>
    rcases result with ⟨scope, s₁⟩
    have hs₁ : Sound field p past trail s₁ := by
      rcases State.exit_ok hexit with ⟨stack, -, rfl⟩
      exact h.congr rfl rfl rfl
    have hboxes := hs₁.boxes hall hvalid hsplit scope.boxable
    constructor
    . intro s' hs
      simp only [hexit] at hs
      rw [Pass.after_ok hs] at hboxes
      refine ⟨?_, ?_⟩
      . apply hboxes.advance _ rfl rfl
        . intro decl value heq
          cases heq
        . intro id heq
          cases heq
        . apply h.tracks.tick hall hsplit (.leave hexit hs)
      . dsimp only
        rw [ended_boxes]
        apply List.Perm.refl
    . intro stop s' hs
      simp only [hexit] at hs
      rw [Pass.after_error hs] at hboxes
      exact ⟨past, _, hsplit, hboxes⟩

/-- Only visits and the ends of functions leave stamps. -/
theorem step (hall : Schedule order p all) (hvalid : p.Valid) {visit : Node → Pass Unit}
    {stamps : Node → State → List Stamp} (h : Sound field p past trail s)
    (hsplit : all = past ++ ⟨around, action⟩ :: later) (hstep : action.node? = none)
    (hinitializer : ∀ decl value, action = .initializer decl value → .expr value ∈ ended trail)
    (hreference : ∀ id, action = .reference id → .var id ∈ ended trail) :
    Covers field p all past [⟨around, action⟩] trail (Pass.stampsOfAction field stamps action s)
      (Pass.perform field visit action) s := by
  by_cases hleave : action = .leave
  . subst hleave
    apply leave hall hvalid h hsplit
  . have hstamps : Pass.stampsOfAction field stamps action s = [] := by
      cases action with
      | visit node => cases hstep
      | leave => simp at hleave
      | _ => rfl
    have hperform : Pass.perform field visit action =
        Pass.perform field (fun _ => pure ()) action := Pass.perform_of_node?_eq_none hstep
    rw [hstamps, hperform]
    constructor
    . intro s' hs
      have htick := Pass.tick_of_perform hs
      rw [List.append_nil, visits_cons_step hstep]
      refine ⟨?_, List.Perm.refl []⟩
      apply h.advance _ (htick.boxes_eq hleave) hstep hinitializer hreference
      apply h.tracks.tick hall hsplit htick
    . intro stop s' hs
      refine ⟨past, _, hsplit, ?_⟩
      rw [Pass.perform_error hstep hleave hs, List.append_nil]
      exact h

theorem mem_visits_of_child {around : List ExprId} (hplan : plan? order p node = some plan)
    (hbelow : Unfolds order p around plan below) :
    ∀ child ∈ p.children node, child ∈ visits below := by
  intro child hchild
  rw [← (nodes_plan_perm hplan).mem_iff, mem_nodes] at hchild
  apply Schedule.mem_visits (hbelow.mem_of_mem hchild)

/-- The visit of a node covers its plan, and ends if the plan has been carried out. -/
theorem visit (hall : Schedule options.order p all) (h : Sound options.field p past trail s)
    (hsplit : all = past ++ ⟨around, .visit node⟩ :: (below ++ later))
    (hplan : plan? options.order p node = some plan)
    (hbelow : Unfolds options.order p (p.inside node around) plan below)
    (hcovers : Covers options.field p all (past ++ [⟨around, .visit node⟩]) below
      (trail ++ [⟨.begun node, s.program⟩])
      (Pass.stampsOfAll (Pass.perform options.field (Pass.visit options depth))
        (Pass.stampsOfAction options.field (Pass.stampsOfVisit options depth)) plan s)
      (plan.forM (Pass.perform options.field (Pass.visit options depth))) s) :
    Covers options.field p all past (⟨around, .visit node⟩ :: below) trail
      (Pass.stampsOfVisit options (depth + 1) node s) (Pass.visit options (depth + 1) node) s := by
  have hplan' := h.tracks.plan?_eq hall hsplit hplan
  have hvisit : Pass.visit options (depth + 1) node s = _ := Pass.visit_succ hplan'
  constructor
  . intro s' hs
    have hs' := hs
    rw [hvisit] at hs'
    rcases hcovers.ok s' hs' with ⟨hsound, hperm⟩
    rw [Pass.stampsOfVisit_ok hplan' hs, ← List.append_assoc, ← List.append_assoc]
    rw [List.append_assoc past, List.singleton_append] at hsound
    refine ⟨?_, ?_⟩
    . apply hsound.finish
      . rw [hsound.visited, visits_append, visits_cons_visit]
        simp
      . -- The node is visited once, so its visit has not ended before.
        rw [ended_append, ended_append, ended_begun, List.append_nil, List.mem_append,
          hperm.mem_iff, not_or]
        constructor
        . intro hmem
          apply hall.not_mem_visits hsplit (h.ended_subset hmem)
          simp [visits_cons_visit]
        . intro hmem
          rw [← List.singleton_append, ← List.append_assoc] at hsplit
          have hpast : node ∈ visits (past ++ [⟨around, .visit node⟩]) := by
            simp [visits_append, visits_cons_visit]
          apply hall.not_mem_visits hsplit hpast
          simp [visits_append, hmem]
      . intro child hchild
        have hmem := mem_visits_of_child hplan hbelow child hchild
        rw [ended_append, List.mem_append, hperm.mem_iff]
        exact .inr hmem
    . rw [visits_cons_visit, ended_append, ended_append, ended_begun, ended_ended,
        List.nil_append]
      apply (hperm.append_right [node]).trans
      apply List.perm_append_singleton
  . intro stop s' hs
    have hs' := hs
    rw [hvisit] at hs'
    rw [Pass.stampsOfVisit_error hplan' hs, ← List.append_assoc]
    apply hcovers.error stop s' hs'

/-- The visit of a simple name can be over as soon as the name has been used. -/
theorem sound_of_reference (hall : Schedule order p all) {id : VarId} {inner : List ExprId}
    (h : Sound field p past trail s)
    (hsplit : all = past ++ ⟨around, .visit (.var id)⟩ :: ⟨inner, .reference id⟩ :: later)
    (hplan : plan? order p (.var id) = some [.reference id]) (hs : s.reference id = .ok s') :
    Sound field p (past ++ [⟨around, .visit (.var id)⟩] ++ [⟨inner, .reference id⟩])
      (trail ++ [⟨.begun (.var id), s.program⟩] ++ [⟨.ended (.var id), s.program⟩]) s' := by
  have hbegin := h.begin hall hsplit
  have hended : Node.var id ∉ ended (trail ++ [⟨.begun (.var id), s.program⟩]) := by
    rw [ended_append, ended_begun, List.append_nil]
    intro hmem
    apply hall.not_mem_visits hsplit (h.ended_subset hmem)
    simp [visits_cons_visit]
  have hchildren : ∀ child ∈ p.children (.var id),
      child ∈ ended (trail ++ [⟨.begun (.var id), s.program⟩]) := by
    intro child hchild
    rw [← (nodes_plan_perm hplan).mem_iff] at hchild
    cases hchild
  have htick : Tick field (.reference id) s s' := .reference hs
  have hfinish := hbegin.finish (by simp) hended hchildren
  apply hfinish.advance _ _ rfl
  . intro decl value heq
    cases heq
  . intro id' heq
    cases heq
    rw [ended_append, ended_ended, List.mem_append]
    exact .inr List.mem_cons_self
  . apply hbegin.tracks.tick hall _ htick
    . exact later
    . rw [hsplit]
      simp
  . apply htick.boxes_eq
    simp

/-- The visit of a simple name ends right after the name is used. -/
theorem visit_name (hall : Schedule options.order p all) {id : VarId} {inner : List ExprId}
    (h : Sound options.field p past trail s)
    (hsplit : all = past ++ ⟨around, .visit (.var id)⟩ :: ⟨inner, .reference id⟩ :: later)
    (hplan : plan? options.order p (.var id) = some [.reference id]) :
    Covers options.field p all past [⟨around, .visit (.var id)⟩, ⟨inner, .reference id⟩] trail
      (Pass.stampsOfVisit options (depth + 1) (.var id) s)
      (Pass.visit options (depth + 1) (.var id)) s := by
  have hplan' := h.tracks.plan?_eq hall hsplit hplan
  have hvisit : Pass.visit options (depth + 1) (.var id) s = _ := Pass.visit_succ hplan'
  have hstep : Pass.perform options.field (Pass.visit options depth) (.reference id) s =
      Pass.step (·.reference id) s := rfl
  cases hs : s.reference id with
  | ok s₁ =>
    rw [Pass.step_of_ok hs] at hstep
    have hok : Pass.visit options (depth + 1) (.var id) s = .ok () s₁ := by
      rw [hvisit, Pass.forM_cons_ok hstep]
      rfl
    have hprogram : s₁.program = s.program := by
      rcases State.reference_ok hs with ⟨-, rfl⟩ | ⟨_, _, -, -, ⟨-, -, rfl⟩ | ⟨-, rfl⟩⟩ <;> rfl
    constructor
    . intro s' hs'
      rw [hok] at hs'
      cases hs'
      rw [Pass.stampsOfVisit_ok hplan' hok, Pass.stampsOfAll_cons_ok hstep]
      simp only [Pass.stampsOfAction, Pass.stampsOfAll, List.nil_append, ended_append, ended_begun,
        ended_ended]
      refine ⟨?_, List.Perm.refl _⟩
      have hsound := sound_of_reference hall h hsplit hplan hs
      rw [List.append_assoc, List.append_assoc] at hsound
      rw [hprogram]
      exact hsound
    . intro stop s' hs'
      rw [hok] at hs'
      cases hs'
  | error stop₁ =>
    rw [Pass.step_of_error hs] at hstep
    have hstop : Pass.visit options (depth + 1) (.var id) s = .error stop₁ s := by
      rw [hvisit]
      apply Pass.forM_cons_error hstep
    constructor
    . intro s' hs'
      rw [hstop] at hs'
      cases hs'
    . intro stop s' hs'
      rw [hstop] at hs'
      cases hs'
      rw [Pass.stampsOfVisit_error hplan' hstop, Pass.stampsOfAll_cons_error hstep]
      simp only [Pass.stampsOfAction, List.append_nil]
      refine ⟨_, ⟨inner, .reference id⟩ :: later, ?_, h.begin hall hsplit⟩
      rw [hsplit, List.append_assoc, List.singleton_append]

end Covers

section Ready

variable {trail' : List Stamp} {actions : List Action} {action : Action}

theorem ready_cons (h : Ready trail (action :: actions)) (htrail : ended trail ⊆ ended trail')
    (haction : ∀ node, action = .visit node → node ∈ ended trail') : Ready trail' actions := by
  intro before decl value after hactions
  have hsplit : action :: actions = (action :: before) ++ .initializer decl value :: after := by
    rw [hactions, List.cons_append]
  cases h _ decl value after hsplit with
  | inl hmem =>
    rw [List.mem_cons] at hmem
    cases hmem with
    | inl heq =>
      right
      apply haction
      rw [← heq]
      rfl
    | inr hmem => exact .inl hmem
  | inr hmem =>
    right
    apply htrail hmem

theorem ready_plan {plan : List Action} (hplan : plan? order p node = some plan) :
    Ready trail plan := by
  intro before decl value after hactions
  rw [hactions] at hplan
  left
  apply initializer_split hplan

theorem ready_planProgram : Ready trail (planProgram p) := by
  intro before decl value after hactions
  have hnot : Action.initializer decl value ∉ planProgram p := by
    apply not_mem_planProgram
    . simp
    . simp
  rw [hactions] at hnot
  simp at hnot

end Ready

/-- The pass covers the moments of a list of actions, unless it is the plan of a simple name. -/
theorem covers_of_unfolds {options : Options} {moments later : List Moment} {actions : List Action}
    {depth : Nat} (hall : Schedule options.order p all) (hvalid : p.Valid)
    (hunfolds : Unfolds options.order p around actions moments)
    (hdepth : (visits moments).length ≤ depth) (hsplit : all = past ++ moments ++ later)
    (hready : Ready trail actions) (hreference : ∀ action ∈ actions, ∀ id, action ≠ .reference id)
    (h : Sound options.field p past trail s) :
    Covers options.field p all past moments trail
      (Pass.stampsOfAll (Pass.perform options.field (Pass.visit options depth))
        (Pass.stampsOfAction options.field (Pass.stampsOfVisit options depth)) actions s)
      (actions.forM (Pass.perform options.field (Pass.visit options depth))) s := by
  -- Every visit takes one from the depth, as in the proof that the pass performs the moments.
  induction hunfolds generalizing depth past later trail s with
  | nil => apply Covers.nil h
  | @visit around node plan actions below moments hplan hbelow _ ihbelow ihrest =>
    rw [visits_cons_visit, List.length_cons, visits_append, List.length_append] at hdepth
    rw [List.forall_mem_cons] at hreference
    cases depth with
    | zero => omega
    | succ depth =>
      simp only [List.append_assoc, List.cons_append] at hsplit
      have hfirst : Covers options.field p all past (⟨around, .visit node⟩ :: below) trail
          (Pass.stampsOfAction options.field (Pass.stampsOfVisit options (depth + 1))
            (.visit node) s)
          (Pass.perform options.field (Pass.visit options (depth + 1)) (.visit node)) s := by
        change Covers _ _ _ _ _ _ (Pass.stampsOfVisit options (depth + 1) node s)
          (Pass.visit options (depth + 1) node) _
        by_cases hname : ∃ id, .reference id ∈ plan
        . rcases hname with ⟨id, hmem⟩
          rcases reference_mem_plan hplan hmem with ⟨rfl, rfl⟩
          cases hbelow with
          | step _ hnil =>
            cases hnil
            apply Covers.visit_name hall h hsplit hplan
        . have hnone : ∀ action ∈ plan, ∀ id, action ≠ .reference id := by
            rintro action hmem id rfl
            apply hname ⟨id, hmem⟩
          apply Covers.visit hall h hsplit hplan hbelow
          apply ihbelow (by omega) _ (ready_plan hplan) hnone (h.begin hall hsplit)
          . exact moments ++ later
          . rw [hsplit]
            simp
      rw [← List.cons_append]
      apply Covers.cons hfirst
      intro s' hs'
      rcases hfirst.ok s' hs' with ⟨hsound, hperm⟩
      apply ihrest (by omega) _ _ hreference.2 hsound
      . exact later
      . rw [hsplit]
        simp
      . apply ready_cons hready
        . simp
        . intro node' heq
          cases heq
          rw [ended_append, List.mem_append, hperm.mem_iff]
          simp [visits_cons_visit]
  | @step around action actions moments hstep _ ih =>
    rw [visits_cons_step hstep] at hdepth
    rw [List.forall_mem_cons] at hreference
    rw [List.append_assoc, List.cons_append] at hsplit
    have hfirst : Covers options.field p all past [⟨around, action⟩] trail
        (Pass.stampsOfAction options.field (Pass.stampsOfVisit options depth) action s)
        (Pass.perform options.field (Pass.visit options depth) action) s := by
      apply Covers.step hall hvalid h hsplit hstep
      . intro decl value heq
        subst heq
        cases hready [] decl value actions rfl with
        | inl hmem => cases hmem
        | inr hmem => exact hmem
      . intro id heq
        exact absurd heq (hreference.1 id)
    rw [← List.singleton_append]
    apply Covers.cons hfirst
    intro s' hs'
    rcases hfirst.ok s' hs' with ⟨hsound, -⟩
    apply ih hdepth _ _ hreference.2 hsound
    . exact later
    . rw [hsplit]
      simp
    . apply ready_cons hready
      . simp
      . intro node heq
        subst heq
        cases hstep

theorem covers_trailOf {options : Options} (hall : Schedule options.order p all)
    (hvalid : p.Valid) : Covers options.field p all [] all [] (trailOf options p)
      (Pass.visitProgram options (depthLimit p)) (.start p) := by
  have hlength := Pass.length_visits_le hall hvalid
  have hlimit := Pass.slotCount_le_depthLimit (p := p)
  have hsplit : all = [] ++ all ++ [] := by simp
  have hreference : ∀ action ∈ planProgram p, ∀ id, action ≠ .reference id := by
    rintro action hmem id rfl
    apply not_mem_planProgram (p := p) _ _ hmem
    . simp
    . simp
  have hdepth : (visits all).length ≤ depthLimit p := by omega
  have hcovers := covers_of_unfolds hall hvalid hall.unfolds hdepth hsplit ready_planProgram
    hreference (.start options.field p)
  exact ⟨hcovers.ok, hcovers.error⟩

/-- Whether the pass stops or not, its trail is about the moments that it has performed. -/
theorem exists_sound {options : Options} (hall : Schedule options.order p all)
    (hvalid : p.Valid) : ∃ past later, all = past ++ later ∧
      Sound options.field p past (trailOf options p) (finalState options p) := by
  have hcovers := covers_trailOf hall hvalid
  unfold finalState
  cases hpass : Pass.visitProgram options (depthLimit p) (.start p) with
  | ok _ s =>
    rw [Pass.after_ok hpass]
    exact ⟨all, [], (List.append_nil all).symm, (hcovers.ok s hpass).1⟩
  | error stop s =>
    rw [Pass.after_error hpass]
    apply hcovers.error stop s hpass

/-- The nodes that the check of a program follows are the ones that the moments visit. -/
theorem visits_perm_followed (hall : Schedule order p all) (hvalid : p.Valid) :
    (visits all).Perm p.followed := by
  rw [List.perm_ext_iff_of_nodup hall.nodup (nodup_followed p)]
  intro node
  rw [mem_followed_iff hvalid, hall.reachable_iff]

theorem sameAt_run {options : Options} (h : SameAt p (finalState options p).program node) :
    SameAt p (run options p).program node := by
  rcases run_program_eq options p with ⟨items, -, hrun⟩
  rw [hrun]
  cases node with
  | _ => exact h

theorem fault_of_error {options : Options} (hall : Schedule options.order p all)
    (hvalid : p.Valid) {stop : Stop} (h : (run options p).verdict = .error stop) :
    ∃ error, stop = .fault error := by
  rw [verdict_eq_error_iff hall hvalid] at h
  rcases h with ⟨s, h⟩
  rcases fails_of_play hall hvalid h with ⟨past, m, rest, s', error, -, -, hstop, -⟩
  exact ⟨error, hstop⟩

/--
The pass over a program whose nodes form a tree stops for the sake of a variable only, and it does
not need more depth than the program has slots. It visits the nodes that the check of the program
follows, each of them at most once, and all of them if it comes to the end. Slots that it adds are
not visited. No slot is overwritten before the visit of its node has ended, and the slots that are
overwritten exist.
-/
theorem orderly_run (options : Options) (p : Program) (hvalid : p.Valid) :
    (∀ stop, (run options p).verdict = .error stop → ∃ error, stop = .fault error) ∧
    (∀ depth, p.slotCount ≤ depth → Pass.visitProgram options depth (.start p) =
      Pass.visitProgram options (depthLimit p) (.start p)) ∧
    (∀ node, node ∈ p.followed ↔ p.Reachable node) ∧
    (begun (trailOf options p)).Nodup ∧
    (∀ node ∈ begun (trailOf options p), node ∈ p.followed ∧ p.contains (.node node) = true) ∧
    (∀ boxes, (run options p).verdict = .ok boxes →
      (begun (trailOf options p)).Perm p.followed ∧
        (ended (trailOf options p)).Perm p.followed) ∧
    (∀ past stamp rest, trailOf options p = past ++ stamp :: rest → Orderly p past stamp) ∧
    boxed (trailOf options p) = (finalState options p).boxes.toList ∧
    ∀ node, p.contains (.node node) = true → node ∉ ended (trailOf options p) →
      SameAt p (run options p).program node := by
  rcases exists_schedule options.order hvalid with ⟨all, hall⟩
  rcases exists_sound hall hvalid with ⟨past, later, hsplit, hsound⟩
  have hvisits := visits_perm_followed hall hvalid
  have hbegun : (begun (trailOf options p)).Sublist (visits all) := by
    rw [hsound.visited, hsplit, visits_append]
    apply List.sublist_append_left
  refine ⟨fun stop => fault_of_error hall hvalid, ?_, fun node => mem_followed_iff hvalid,
    hbegun.nodup hall.nodup, ?_, ?_, hsound.orderly, hsound.applied, ?_⟩
  . intro depth hdepth
    rw [Pass.visitProgram_eq_play_of_le hall hvalid hdepth, Pass.visitProgram_eq_play hall hvalid]
  . intro node hnode
    have hfollowed := hvisits.mem_iff.mp (hbegun.subset hnode)
    exact ⟨hfollowed, (reachable_of_mem_followed hfollowed).contains hvalid⟩
  . intro boxes hok
    rcases play_of_run_ok hall hvalid hok with ⟨s, hplay, -, -⟩
    rw [← Pass.visitProgram_eq_play hall hvalid] at hplay
    rcases (covers_trailOf hall hvalid).ok s hplay with ⟨hsound, hperm⟩
    have hvisited := hsound.visited
    rw [List.nil_append, List.nil_append] at hvisited
    rw [hvisited]
    exact ⟨hvisits, hperm.trans hvisits⟩
  . intro node hcontains hnode
    apply sameAt_run
    apply hsound.kept node hcontains hnode

/-- The pass stops in the outer function, whose visit does not end. The one of the inner one does. -/
theorem orderly_run_halfway :
    halfway.Valid ∧ (∃ error, (run default halfway).verdict = .error (.fault error)) ∧
      (begun (trailOf default halfway)).Nodup ∧
      Node.expr ⟨0⟩ ∈ begun (trailOf default halfway) ∧
      Node.expr ⟨1⟩ ∈ ended (trailOf default halfway) ∧
      SameAt halfway (run default halfway).program (.expr ⟨0⟩) := by
  have hvalid : halfway.Valid := by decide +kernel
  have hverdict : (run default halfway).verdict.isOk = false := by decide +kernel
  have hbegun : Node.expr ⟨0⟩ ∈ begun (trailOf default halfway) := by decide +kernel
  have hended : Node.expr ⟨1⟩ ∈ ended (trailOf default halfway) := by decide +kernel
  have hopen : Node.expr ⟨0⟩ ∉ ended (trailOf default halfway) := by decide +kernel
  rcases orderly_run default halfway hvalid with ⟨hfault, -, -, hnodup, -, -, -, -, hkept⟩
  refine ⟨hvalid, ?_, hnodup, hbegun, hended, hkept _ (by decide) hopen⟩
  cases hrun : (run default halfway).verdict with
  | ok boxes =>
    rw [hrun] at hverdict
    cases hverdict
  | error stop =>
    rcases hfault stop hrun with ⟨error, rfl⟩
    exact ⟨error, rfl⟩

end Upvalue.Boxing

import Upvalue.Proofs.Boxing.Report
import Upvalue.Proofs.Boxing.Whole

/-!
This module contains the proof that functions are entered and left like brackets are opened and
closed, which can be seen in the log. Every part of the pass that does not stop leaves the functions
that it enters, so the depth of the scopes is the one from before. The module level is not left.
-/

namespace Upvalue

namespace Program

variable {p : Program} {node : Node} {id : ExprId}

/-- The function literal that a node is. -/
def function? (p : Program) (node : Node) : Option ExprId :=
  match node, p.content? node with
  | .expr id, some (.expr (.lambda _ _)) => some id
  | _, _ => none

theorem function?_eq_some_iff : p.function? node = some id ↔
    node = .expr id ∧ ∃ loc ty params body, p.expr? id = some ⟨loc, ty, .lambda params body⟩ := by
  constructor
  . intro h
    unfold function? at h
    split at h
    . next id' params body hcontent =>
      cases h
      rw [content?_expr, Option.map_eq_some_iff] at hcontent
      rcases hcontent with ⟨⟨loc, ty, kind⟩, hexpr, hkind⟩
      cases hkind
      exact ⟨rfl, loc, ty, params, body, hexpr⟩
    . cases h
  . rintro ⟨rfl, loc, ty, params, body, hexpr⟩
    unfold function?
    rw [content?_expr, hexpr]
    rfl

end Program

namespace Boxing

open Program

namespace Event

def isEntered : Event → Bool
  | .entered _ => true
  | _ => false

def isLeft : Event → Bool
  | .left _ => true
  | _ => false

end Event

/-- The functions that are entered and left, without the boxes that are written down. -/
def crossings (log : Array Event) : List Event :=
  log.toList.filter (·.box?.isNone)

/-- What is written down at a moment, apart from boxes. -/
def Moment.crossing? (m : Moment) : Option Event :=
  match m.action with
  | .enter => some (.entered (m.around.length + 1))
  | .leave => some (.left m.around.length)
  | _ => none

/--
Functions are entered and left, starting and ending at a depth. The boxes of a function are written
down right after it has been left.
-/
inductive Bracketed : Nat → List Event → Prop where
  | nil {depth : Nat} : Bracketed depth []
  | function {depth : Nat} {inside after : List Event} (boxes : List Box)
      (hinside : Bracketed (depth + 1) inside) (hafter : Bracketed depth after) :
      Bracketed depth
        (.entered (depth + 1) :: (inside ++ .left depth :: (boxes.map .boxed ++ after)))

theorem countP_map_boxed (boxes : List Box) {f : Event → Bool} (hf : ∀ b, f (.boxed b) = false) :
    (boxes.map Event.boxed).countP f = 0 := by
  rw [List.countP_map, List.countP_eq_zero]
  intro b _
  change ¬ f (.boxed b) = true
  rw [hf, Bool.not_eq_true]

namespace Bracketed

variable {depth : Nat} {events events' : List Event}

theorem append (h : Bracketed depth events) (h' : Bracketed depth events') :
    Bracketed depth (events ++ events') := by
  induction h with
  | nil => exact h'
  | function boxes hinside _ _ ih =>
    rw [List.cons_append, List.append_assoc, List.cons_append, List.append_assoc]
    exact .function boxes hinside (ih h')

theorem countP_left (h : Bracketed depth events) :
    events.countP Event.isLeft = events.countP Event.isEntered := by
  induction h with
  | nil => rfl
  | function boxes _ _ ihinside ihafter =>
    have hleft := countP_map_boxed boxes (f := Event.isLeft) fun _ => rfl
    have hentered := countP_map_boxed boxes (f := Event.isEntered) fun _ => rfl
    simp [List.countP_cons, ihinside, ihafter, hleft, hentered, Event.isLeft, Event.isEntered]
    omega

/-- No function is left that is around the first one. -/
theorem le_of_left_mem (h : Bracketed depth events) {k : Nat} (hk : .left k ∈ events) :
    depth ≤ k := by
  induction h with
  | nil => cases hk
  | function boxes _ _ ihinside ihafter =>
    simp only [List.mem_cons, List.mem_append, List.mem_map, reduceCtorEq, false_or,
      Event.left.injEq, and_false, exists_false] at hk
    rcases hk with hk | rfl | hk
    . have := ihinside hk
      omega
    . exact Nat.le_refl _
    . exact ihafter hk

end Bracketed

/--
A part of the pass leaves all functions that it enters and no others, and writes this down. If it
stops, it has come to some point on this way.
-/
structure Balanced (m : Pass Unit) : Prop where
  ok : ∀ s s', m s = .ok () s' → s'.scopes.depth = s.scopes.depth ∧
    ∃ events, s'.log.toList = s.log.toList ++ events ∧ Bracketed s.scopes.depth events
  error : ∀ s s' stop, m s = .error stop s' →
    ∃ events rest, s'.log.toList = s.log.toList ++ events ∧
      Bracketed s.scopes.depth (events ++ rest)

namespace Pass

theorem forM_singleton {α : Type} {f : α → Pass Unit} (a : α) (s : State) :
    [a].forM f s = f a s := by
  cases h : f a s with
  | ok _ s' =>
    rw [forM_cons_ok h]
    rfl
  | error stop s' => rw [forM_cons_error h]

/-- A function is entered, what is inside is done, and then it is left. -/
theorem forM_function {field : String} {visit : Node → Pass Unit} (actions : List Action)
    (s : State) :
    (.enter :: (actions ++ [.leave])).forM (perform field visit) s =
      match actions.forM (perform field visit) s.enter with
      | .ok _ s' => leave field s'
      | .error stop s' => .error stop s' := by
  have henter : perform field visit .enter s = .ok () s.enter := rfl
  rw [forM_cons_ok henter, forM_append]
  cases actions.forM (perform field visit) s.enter with
  | ok _ s' => exact forM_singleton Action.leave s'
  | error stop s' => rfl

end Pass

namespace Balanced

variable {options : Options} {field : String} {visit : Node → Pass Unit} {actions : List Action}
variable {s s' : State} {depth : Nat}

theorem forM {α : Type} {f : α → Pass Unit} {as : List α} (h : ∀ a ∈ as, Balanced (f a)) :
    Balanced (as.forM f) := by
  induction as with
  | nil =>
    constructor
    . intro s s' hs
      cases hs
      exact ⟨rfl, [], (List.append_nil _).symm, .nil⟩
    . intro s s' stop hs
      cases hs
  | cons a as ih =>
    rw [List.forall_mem_cons] at h
    have hlater := ih h.2
    constructor
    . intro s s' hs
      cases ha : f a s with
      | error stop s₁ =>
        rw [Pass.forM_cons_error ha] at hs
        cases hs
      | ok _ s₁ =>
        rw [Pass.forM_cons_ok ha] at hs
        rcases h.1.ok _ _ ha with ⟨hdepth, events, hlog, hevents⟩
        rcases hlater.ok _ _ hs with ⟨hdepth', events', hlog', hevents'⟩
        rw [hdepth] at hevents'
        refine ⟨hdepth'.trans hdepth, events ++ events', ?_, hevents.append hevents'⟩
        rw [hlog', hlog, List.append_assoc]
    . intro s s' stop hs
      cases ha : f a s with
      | error stop s₁ =>
        rw [Pass.forM_cons_error ha] at hs
        cases hs
        exact h.1.error _ _ _ ha
      | ok _ s₁ =>
        rw [Pass.forM_cons_ok ha] at hs
        rcases h.1.ok _ _ ha with ⟨hdepth, events, hlog, hevents⟩
        rcases hlater.error _ _ _ hs with ⟨events', rest, hlog', hevents'⟩
        rw [hdepth] at hevents'
        refine ⟨events ++ events', rest, ?_, ?_⟩
        . rw [hlog', hlog, List.append_assoc]
        . rw [List.append_assoc]
          exact hevents.append hevents'

theorem step {f : State → Except Stop State}
    (h : ∀ s s', f s = .ok s' → s'.scopes.depth = s.scopes.depth ∧ s'.log = s.log) :
    Balanced (Pass.step f) := by
  constructor
  . intro s s' hs
    rcases h s s' (Pass.step_ok hs) with ⟨hdepth, hlog⟩
    refine ⟨hdepth, [], ?_, .nil⟩
    rw [hlog, List.append_nil]
  . intro s s' stop hs
    unfold Pass.step at hs
    split at hs
    . cases hs
    . cases hs
      exact ⟨[], [], (List.append_nil _).symm, .nil⟩

theorem perform (hvisit : ∀ node, Balanced (visit node)) {action : Action}
    (henter : action ≠ .enter) (hleave : action ≠ .leave) :
    Balanced (Pass.perform field visit action) := by
  cases action with
  | visit node => exact hvisit node
  | register decl =>
    change Balanced (Pass.step fun s => .ok (s.register decl))
    apply step
    intro s s' h
    cases h
    exact ⟨rfl, rfl⟩
  | initializer decl value =>
    apply step
    intro s s' h
    rcases State.setInitializer_ok h with ⟨-, rfl⟩
    exact ⟨rfl, rfl⟩
  | assign target =>
    apply step
    intro s s' h
    rcases State.assign_ok h with ⟨-, rfl⟩ | ⟨decl, info, loc, -, -, -, -, -, rfl⟩
    . exact ⟨rfl, rfl⟩
    . simp
  | reference name =>
    apply step
    intro s s' h
    rcases State.reference_ok h with ⟨-, rfl⟩ | ⟨decl, info, -, -, ⟨-, -, rfl⟩ | ⟨-, rfl⟩⟩
    . exact ⟨rfl, rfl⟩
    . exact ⟨ScopeStack.depth_modify _ _ _, rfl⟩
    . exact ⟨rfl, rfl⟩
  | enter => exact absurd rfl henter
  | leave => exact absurd rfl hleave

/-- Boxes are written down one after the other, up to the one that cannot be made. -/
theorem after_forM_box (field : String) (decls : List DeclId) (s : State) :
    ∃ boxes : List Box,
      ((decls.forM (Pass.box field)).after s).log.toList = s.log.toList ++ boxes.map .boxed ∧
        ((decls.forM (Pass.box field)).after s).scopes = s.scopes := by
  induction decls generalizing s with
  | nil => exact ⟨[], (List.append_nil _).symm, rfl⟩
  | cons decl decls ih =>
    cases hbox : s.boxFor field decl with
    | error stop =>
      rw [Pass.after_error (Pass.forM_cons_error (Pass.box_of_error hbox))]
      exact ⟨[], (List.append_nil _).symm, rfl⟩
    | ok b =>
      have hafter : ((decl :: decls).forM (Pass.box field)).after s =
          (decls.forM (Pass.box field)).after (s.addBox b) := by
        unfold Pass.after
        rw [Pass.forM_cons_ok (Pass.box_of_ok hbox)]
      rcases ih (s.addBox b) with ⟨boxes, hlog, hscopes⟩
      refine ⟨b :: boxes, ?_, ?_⟩
      . rw [hafter, hlog]
        simp [State.addBox]
      . rw [hafter, hscopes]
        rfl

/-- A function that has been entered can be left, and its boxes follow. -/
theorem after_leave (field : String) (hdepth : s.scopes.depth = depth + 1) (hpos : 0 < depth) :
    ∃ boxes : List Box,
      ((Pass.leave field).after s).log.toList =
        s.log.toList ++ .left depth :: boxes.map .boxed ∧
      ((Pass.leave field).after s).scopes.depth = depth := by
  cases hexit : s.exit with
  | error stop =>
    unfold State.exit at hexit
    split at hexit
    . cases hexit
    . next hnone =>
      rw [ScopeStack.exit?_eq_none_iff] at hnone
      omega
  | ok result =>
    rcases result with ⟨scope, s₁⟩
    have hafter : (Pass.leave field).after s = (scope.boxable.forM (Pass.box field)).after s₁ := by
      unfold Pass.after Pass.leave
      rw [hexit]
    rcases State.exit_ok hexit with ⟨stack, hstack, rfl⟩
    have hstep := ScopeStack.depth_of_exit? hstack
    have hleft : stack.depth = depth := by omega
    rw [hafter]
    rcases after_forM_box field scope.boxable
      { s with scopes := stack, log := s.log.push (.left stack.depth) } with
        ⟨boxes, hlog, hscopes⟩
    refine ⟨boxes, ?_, ?_⟩
    . rw [hlog, hleft]
      simp
    . rw [hscopes]
      exact hleft

theorem function (h : Balanced (actions.forM (Pass.perform field visit))) :
    Balanced ((.enter :: (actions ++ [.leave])).forM (Pass.perform field visit)) := by
  have hlog (s : State) : s.enter.log.toList = s.log.toList ++ [.entered (s.scopes.depth + 1)] := by
    simp [State.enter]
  have hdepth (s : State) : s.enter.scopes.depth = s.scopes.depth + 1 :=
    ScopeStack.depth_enter s.scopes
  constructor
  . intro s s' hs
    rw [Pass.forM_function] at hs
    cases hinside : actions.forM (Pass.perform field visit) s.enter with
    | error stop s₁ =>
      rw [hinside] at hs
      cases hs
    | ok _ s₁ =>
      rw [hinside] at hs
      change Pass.leave field s₁ = .ok () s' at hs
      rcases h.ok _ _ hinside with ⟨hdepth₁, events, hlog₁, hevents⟩
      rw [hdepth] at hdepth₁ hevents
      rcases after_leave field hdepth₁ s.scopes.depth_pos with ⟨boxes, hlog', hdepth'⟩
      rw [Pass.after_ok hs] at hlog' hdepth'
      refine ⟨hdepth', _, ?_, .function boxes hevents .nil⟩
      rw [hlog', hlog₁, hlog]
      simp
  . intro s s' stop hs
    rw [Pass.forM_function] at hs
    cases hinside : actions.forM (Pass.perform field visit) s.enter with
    | error stop s₁ =>
      rw [hinside] at hs
      cases hs
      rcases h.error _ _ _ hinside with ⟨events, rest, hlog₁, hevents⟩
      rw [hdepth] at hevents
      -- The function has not been left, so that this is missing as well.
      refine ⟨.entered (s.scopes.depth + 1) :: events, rest ++ [.left s.scopes.depth], ?_, ?_⟩
      . rw [hlog₁, hlog]
        simp
      . have := Bracketed.function [] hevents .nil
        simpa using this
    | ok _ s₁ =>
      rw [hinside] at hs
      change Pass.leave field s₁ = .error stop s' at hs
      rcases h.ok _ _ hinside with ⟨hdepth₁, events, hlog₁, hevents⟩
      rw [hdepth] at hdepth₁ hevents
      rcases after_leave field hdepth₁ s.scopes.depth_pos with ⟨boxes, hlog', -⟩
      rw [Pass.after_error hs] at hlog'
      -- The function has been left, and only its last boxes are missing.
      refine ⟨.entered (s.scopes.depth + 1) :: (events ++ .left s.scopes.depth ::
        (boxes.map .boxed ++ [])), [], ?_, ?_⟩
      . rw [hlog', hlog₁, hlog]
        simp
      . rw [List.append_nil]
        exact .function boxes hevents .nil

end Balanced

theorem balanced_visit (options : Options) (depth : Nat) (node : Node) :
    Balanced (Pass.visit options depth node) := by
  induction depth generalizing node with
  | zero =>
    constructor
    . intro s s' hs
      cases hs
    . intro s s' stop hs
      cases hs
      exact ⟨[], [], (List.append_nil _).symm, .nil⟩
  | succ depth ih =>
    -- The plan is taken from the program of the state, which may have boxes by then.
    have hplan {p : Program} {actions : List Action}
        (hplan : plan? options.order p node = some actions) :
        Balanced (actions.forM (Pass.perform options.field (Pass.visit options depth))) := by
      rcases plan_cases hplan with ⟨id, params, body, -, -, rfl⟩ | ⟨-, henter, hleave⟩
      . apply Balanced.function
        apply Balanced.forM
        intro action haction
        -- Parameters are declared and the body is visited.
        apply Balanced.perform ih
        . rintro rfl
          simp [planBlock, Action.stat] at haction
        . rintro rfl
          simp [planBlock, Action.stat] at haction
      . apply Balanced.forM
        intro action haction
        apply Balanced.perform ih
        . rintro rfl
          exact henter haction
        . rintro rfl
          exact hleave haction
    constructor
    . intro s s' hs
      cases h : plan? options.order s.program node with
      | none =>
        rw [Pass.visit_succ_none h] at hs
        cases hs
      | some actions =>
        rw [Pass.visit_succ h] at hs
        exact (hplan h).ok s s' hs
    . intro s s' stop hs
      cases h : plan? options.order s.program node with
      | none =>
        rw [Pass.visit_succ_none h] at hs
        cases hs
        exact ⟨[], [], (List.append_nil _).symm, .nil⟩
      | some actions =>
        rw [Pass.visit_succ h] at hs
        exact (hplan h).error s s' stop hs

theorem balanced_visitProgram (options : Options) (depth : Nat) (p : Program) :
    Balanced ((planProgram p).forM (Pass.perform options.field (Pass.visit options depth))) := by
  apply Balanced.forM
  intro action haction
  apply Balanced.perform (balanced_visit options depth)
  . rintro rfl
    apply not_mem_planProgram _ _ haction <;> simp
  . rintro rfl
    apply not_mem_planProgram _ _ haction <;> simp

/-! ### How many functions are entered -/

section Count

variable {options : Options} {order : LoopOrder} {field : String} {p : Program}
variable {all moments : List Moment} {s s' : State}

theorem count_enter_plan {node : Node} {plan : List Action} (h : plan? order p node = some plan) :
    plan.count .enter = (p.function? node).toList.length := by
  rcases plan_cases h with ⟨id, params, body, rfl, hcontent, rfl⟩ | ⟨-, henter, -⟩
  . have hfunction : p.function? (.expr id) = some id := by
      unfold function?
      rw [hcontent]
    rw [hfunction, List.count_cons_self, List.count_eq_zero_of_not_mem]
    . rfl
    . simp [planBlock, Action.stat]
  . rw [List.count_eq_zero_of_not_mem henter]
    cases hfunction : p.function? node with
    | none => rfl
    | some id =>
      -- The plan of a function literal would enter it.
      rcases function?_eq_some_iff.mp hfunction with ⟨rfl, loc, ty, params, body, hexpr⟩
      change (p.expr? id).map (planExpr ·.kind) = some plan at h
      rw [hexpr] at h
      cases h
      exact absurd List.mem_cons_self henter

/-- Every function literal that is visited is entered once. -/
theorem Unfolds.countP_enter {around : List ExprId} {actions : List Action}
    (h : Unfolds order p around actions moments) :
    moments.countP (·.action = .enter) =
      actions.count .enter + ((visits moments).filterMap p.function?).length := by
  induction h with
  | nil => rfl
  | @visit around node plan actions below rest hplan _ _ ihbelow ihrest =>
    have hvisit : (Action.visit node == Action.enter) = false := rfl
    -- What is below the node begins with entering it if it is a function literal.
    rw [count_enter_plan hplan] at ihbelow
    rw [List.countP_cons_of_neg (by simp), List.countP_append, ihbelow, ihrest, List.count_cons,
      hvisit, visits_cons_visit, visits_append]
    cases hfunction : p.function? node with
    | none =>
      rw [List.filterMap_cons_none hfunction, List.filterMap_append, List.length_append]
      simp
      omega
    | some id =>
      rw [List.filterMap_cons_some hfunction, List.filterMap_append, List.length_cons,
        List.length_append]
      simp
      omega
  | @step around action actions rest hstep _ ih =>
    rw [visits_cons_step hstep, List.countP_cons, List.count_cons, ih]
    simp
    omega

theorem Tick.log_eq {action : Action} (h : Tick field action s s') (henter : action ≠ .enter)
    (hleave : action ≠ .leave) : s'.log = s.log := by
  cases h with
  | visit => rfl
  | register => rfl
  | initializer hs =>
    rcases State.setInitializer_ok hs with ⟨-, rfl⟩
    rfl
  | assign hs =>
    rcases State.assign_ok hs with ⟨-, rfl⟩ | ⟨_, _, _, -, -, -, -, -, rfl⟩
    . rfl
    . rw [State.log_noteAssignment]
  | reference hs =>
    rcases State.reference_ok hs with ⟨-, rfl⟩ | ⟨_, _, -, -, ⟨-, -, rfl⟩ | ⟨-, rfl⟩⟩ <;> rfl
  | enter => exact absurd rfl henter
  | leave => exact absurd rfl hleave

/-- The depth that is written down is the number of the functions that are open. -/
theorem Tick.crossings {m : Moment} {current final : List ExprId} (h : Tick field m.action s s')
    (hflow : Follows current [m] final) (hdepth : s.scopes.depth = current.length + 1) :
    crossings s'.log = crossings s.log ++ m.crossing?.toList := by
  cases hflow with
  | enter =>
    cases h
    simp [Boxing.crossings, State.enter, Event.box?, Moment.crossing?, hdepth]
  | @leave func current =>
    cases h with
    | leave hexit hboxes =>
      rcases State.exit_ok hexit with ⟨stack, hstack, rfl⟩
      have hstep := ScopeStack.depth_of_exit? hstack
      have hleft : stack.depth = (func :: current).length := by omega
      rcases Balanced.after_forM_box field _ _ with ⟨boxes, hlog, -⟩
      rw [Pass.after_ok hboxes, hleft] at hlog
      unfold Boxing.crossings
      rw [hlog]
      simp [Event.box?, Moment.crossing?]
  | @step action _ _ _ henter hleave =>
    have hnone : Moment.crossing? ⟨current, action⟩ = none := by
      cases action with
      | enter => exact absurd rfl henter
      | leave => exact absurd rfl hleave
      | _ => rfl
    rw [h.log_eq henter hleave, hnone]
    exact (List.append_nil _).symm

theorem crossings_of_play (hall : Schedule order p all)
    (h : Pass.play field all (.start p) = .ok () s) :
    crossings s.log = all.filterMap Moment.crossing? := by
  have hinvariant := invariant_of_play
    (P := fun past _ s => crossings s.log = past.filterMap Moment.crossing?) hall rfl
    (fun _ hflow _ hrecalls hs htick => by
      rw [htick.crossings hflow hrecalls.depth, hs, List.filterMap_append]
      congr 1)
    (List.append_nil all).symm hall.follows h
  exact hinvariant.2.2

theorem countP_entered_crossings (log : Array Event) :
    (crossings log).countP Event.isEntered = log.toList.countP Event.isEntered := by
  unfold crossings
  rw [List.countP_filter]
  congr 1
  funext event
  cases event <;> rfl

theorem countP_entered_filterMap (moments : List Moment) :
    (moments.filterMap Moment.crossing?).countP Event.isEntered =
      moments.countP (·.action = .enter) := by
  rw [List.countP_filterMap]
  congr 1
  funext ⟨around, action⟩
  cases action <;> rfl

/-- Every function literal that can be reached is entered once. -/
theorem countP_entered_of_schedule (hall : Schedule order p all) {log : Array Event}
    (h : crossings log = all.filterMap Moment.crossing?) :
    log.toList.countP Event.isEntered = Set.ncard {id | p.Reachable (.expr id) ∧
      ∃ loc ty params body, p.expr? id = some ⟨loc, ty, .lambda params body⟩} := by
  have hitems : Action.enter ∉ planProgram p := by
    apply not_mem_planProgram <;> simp
  have hnodup : ((visits all).filterMap p.function?).Nodup := by
    apply hall.nodup.filterMap
    intro node node' id hnode hnode'
    rw [(function?_eq_some_iff.mp hnode).1, (function?_eq_some_iff.mp hnode').1]
  rw [← countP_entered_crossings, h, countP_entered_filterMap, hall.unfolds.countP_enter,
    List.count_eq_zero_of_not_mem hitems, Nat.zero_add, ← List.toFinset_card_of_nodup hnodup,
    ← Set.ncard_coe_finset]
  congr 1
  ext id
  rw [Finset.mem_coe, List.mem_toFinset, List.mem_filterMap, Set.mem_ofPred_eq]
  constructor
  . rintro ⟨node, hnode, hfunction⟩
    rcases function?_eq_some_iff.mp hfunction with ⟨rfl, hlambda⟩
    exact ⟨hall.reachable_iff.mpr hnode, hlambda⟩
  . rintro ⟨hreachable, hlambda⟩
    exact ⟨.expr id, hall.reachable_iff.mp hreachable, function?_eq_some_iff.mpr ⟨rfl, hlambda⟩⟩

end Count

section Run

variable {options : Options} {p : Program}

theorem verdict_ne_underflow (hvalid : p.Valid) :
    (run options p).verdict ≠ .error (.fault .scopeUnderflow) := by
  rcases hrun : run options p with ⟨verdict, q, log⟩
  rintro rfl
  rcases exists_schedule options.order hvalid with ⟨all, hall⟩
  have hstop := (run_error hrun).1
  rw [Pass.visitProgram_eq_play hall hvalid] at hstop
  rcases exists_stop hall hvalid hstop with ⟨past, m, rest, s, error, -, -, herror, hfails, -⟩
  cases herror
  cases hfails

/-- The log of a run, and the depth of its scopes in the end. -/
theorem bracketed_log (options : Options) (p : Program) :
    (∃ rest, Bracketed 1 ((run options p).log.toList ++ rest)) ∧
      ∀ boxes, (run options p).verdict = .ok boxes →
        Bracketed 1 (run options p).log.toList ∧ (finalState options p).scopes.depth = 1 := by
  have hbalanced := balanced_visitProgram options (depthLimit p) p
  cases hpass : Pass.visitProgram options (depthLimit p) (.start p) with
  | ok _ s =>
    rcases hbalanced.ok _ _ hpass with ⟨hdepth, events, hlog, hevents⟩
    have hfinal : finalState options p = s := Pass.after_ok hpass
    rw [log_run, hfinal, hlog]
    exact ⟨⟨[], by simpa [State.start] using hevents⟩, fun _ _ => ⟨hevents, hdepth⟩⟩
  | error stop s =>
    rcases hbalanced.error _ _ _ hpass with ⟨events, rest, hlog, hevents⟩
    have hfinal : finalState options p = s := Pass.after_error hpass
    rw [log_run, hfinal, hlog]
    refine ⟨⟨rest, hevents⟩, ?_⟩
    intro boxes hok
    rw [(run_ok hok).1] at hpass
    cases hpass

end Run

/--
In the log of a run functions are entered and left like brackets are opened and closed, starting at
the module level, and the boxes of a function follow right after it has been left. If the run stops,
the rest of such a log is missing. If it succeeds, the log says that the function literals were
entered and left as they are visited, every one once, and the boxes in it are the ones that were
made. The module level is not left, and a visit that does not stop leaves the depth of the scopes as
it was.
-/
theorem bracketed_run (options : Options) (p : Program) (hvalid : p.Valid) :
    (∃ rest, Bracketed 1 ((run options p).log.toList ++ rest)) ∧
    (∀ boxes, (run options p).verdict = .ok boxes →
      Bracketed 1 (run options p).log.toList ∧
      (∃ all, Unfolds options.order p [] (planProgram p) all ∧
        crossings (run options p).log = all.filterMap Moment.crossing?) ∧
      (run options p).log.toList.countP Event.isEntered =
        Set.ncard {id | p.Reachable (.expr id) ∧
          ∃ loc ty params body, p.expr? id = some ⟨loc, ty, .lambda params body⟩} ∧
      (run options p).log.toList.countP Event.isLeft =
        (run options p).log.toList.countP Event.isEntered ∧
      logged (run options p).log = boxes.toList ∧ (finalState options p).scopes.depth = 1) ∧
    (∀ depth node s s', Pass.visit options depth node s = .ok () s' →
      s'.scopes.depth = s.scopes.depth) ∧
    (run options p).verdict ≠ .error (.fault .scopeUnderflow) ∧
    ∀ k, .left k ∈ (run options p).log → 1 ≤ k := by
  rcases bracketed_log options p with ⟨⟨rest, hprefix⟩, hok⟩
  rcases exists_schedule options.order hvalid with ⟨all, hall⟩
  refine ⟨⟨rest, hprefix⟩, ?_, ?_, verdict_ne_underflow hvalid, ?_⟩
  . intro boxes hverdict
    rcases hok boxes hverdict with ⟨hlog, hdepth⟩
    rcases run_ok hverdict with ⟨hpass, hboxes⟩
    have hcrossings : crossings (run options p).log = all.filterMap Moment.crossing? := by
      rw [log_run]
      apply crossings_of_play hall
      rw [← Pass.visitProgram_eq_play hall hvalid, hpass]
    refine ⟨hlog, ⟨all, hall.unfolds, hcrossings⟩, countP_entered_of_schedule hall hcrossings,
      hlog.countP_left, ?_, hdepth⟩
    rw [log_run, logged_finalState, hboxes]
  . intro depth node s s' hs
    exact ((balanced_visit options depth node).ok s s' hs).1
  . intro k hk
    apply hprefix.le_of_left_mem
    exact List.mem_append_left _ (Array.mem_toList_iff.mpr hk)

/-- Three functions inside of each other, two of which have a box. -/
theorem bracketed_run_layered :
    layered.Valid ∧ (run default layered).log.toList.map Event.text =
        ["entering function scope at depth 2", "entering function scope at depth 3",
          "entering function scope at depth 4", "left function scope, back at depth 3",
          "left function scope, back at depth 2", "boxed 'y' as $y_box1 (1 reference rewritten)",
          "left function scope, back at depth 1",
          "boxed 'x' as $x_box2 (1 reference rewritten)"] ∧
      Bracketed 1 (run default layered).log.toList ∧
      Set.ncard {id | layered.Reachable (.expr id) ∧
        ∃ loc ty params body, layered.expr? id = some ⟨loc, ty, .lambda params body⟩} = 3 := by
  have hvalid : layered.Valid := by decide +kernel
  have hcount : (run default layered).log.toList.countP Event.isEntered = 3 := by decide +kernel
  have hsome : (run default layered).verdict.isOk = true := by decide +kernel
  cases hok : (run default layered).verdict with
  | error stop =>
    rw [hok] at hsome
    cases hsome
  | ok boxes =>
    rcases (bracketed_run default layered hvalid).2.1 boxes hok with
      ⟨hlog, -, hfunctions, -⟩
    rw [hcount] at hfunctions
    exact ⟨hvalid, by decide +kernel, hlog, hfunctions.symm⟩

end Boxing

end Upvalue

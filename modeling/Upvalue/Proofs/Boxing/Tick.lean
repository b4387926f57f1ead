import Upvalue.Proofs.Boxing.Change
import Upvalue.Proofs.Boxing.Schedule

/-!
This module contains the pass as a loop over the moments of a program, in which visits have nothing
left to do, and what one round of this loop does.
-/

namespace Upvalue.Boxing

/-- What the pass does to the state at an action if it does not stop. Visits are moments only. -/
inductive Tick (field : String) : Action → State → State → Prop where
  | visit (s : State) (node : Node) : Tick field (.visit node) s s
  | register (s : State) (decl : DeclId) : Tick field (.register decl) s (s.register decl)
  | initializer {s s' : State} {decl : DeclId} {value : ExprId}
      (h : s.setInitializer decl value = .ok s') : Tick field (.initializer decl value) s s'
  | assign {s s' : State} {target : VarId} (h : s.assign target = .ok s') :
      Tick field (.assign target) s s'
  | reference {s s' : State} {name : VarId} (h : s.reference name = .ok s') :
      Tick field (.reference name) s s'
  | enter (s : State) : Tick field .enter s s.enter
  | leave {s s₁ s' : State} {scope : FunctionScope} (hexit : s.exit = .ok (scope, s₁))
      (hboxes : scope.boxable.forM (Pass.box field) s₁ = .ok () s') : Tick field .leave s s'

namespace Pass

/-- Perform the actions of moments. -/
def play (field : String) (moments : List Moment) : Pass Unit :=
  moments.forM fun m => perform field (fun _ => pure ()) m.action

variable {field : String} {s s' : State}

theorem step_ok {f : State → Except Stop State} (h : step f s = .ok () s') : f s = .ok s' := by
  unfold step at h
  split at h
  . next s₁ heq =>
    cases h
    exact heq
  . cases h

theorem tick_of_perform {action : Action}
    (h : perform field (fun _ => pure ()) action s = .ok () s') : Tick field action s s' := by
  cases action with
  | visit node =>
    cases h
    apply Tick.visit
  | register decl =>
    cases h
    apply Tick.register
  | initializer decl value =>
    change step (·.setInitializer decl value) s = .ok () s' at h
    exact .initializer (step_ok h)
  | assign target =>
    change step (·.assign target) s = .ok () s' at h
    exact .assign (step_ok h)
  | reference name =>
    change step (·.reference name) s = .ok () s' at h
    exact .reference (step_ok h)
  | enter =>
    cases h
    apply Tick.enter
  | leave =>
    change leave field s = .ok () s' at h
    unfold leave at h
    split at h
    . next scope s₁ hexit => exact .leave hexit h
    . cases h

theorem step_of_ok {f : State → Except Stop State} (h : f s = .ok s') : step f s = .ok () s' := by
  unfold step
  rw [h]

theorem perform_of_tick {action : Action} (h : Tick field action s s') :
    perform field (fun _ => pure ()) action s = .ok () s' := by
  cases h with
  | visit => rfl
  | register => rfl
  | @initializer _ _ decl value h =>
    change step (·.setInitializer decl value) s = .ok () s'
    exact step_of_ok h
  | @assign _ _ target h =>
    change step (·.assign target) s = .ok () s'
    exact step_of_ok h
  | @reference _ _ name h =>
    change step (·.reference name) s = .ok () s'
    exact step_of_ok h
  | enter => rfl
  | leave hexit hboxes =>
    change leave field s = .ok () s'
    unfold leave
    split
    . next heq =>
      rw [hexit] at heq
      cases heq
      exact hboxes
    . next heq =>
      rw [hexit] at heq
      cases heq

theorem changes_of_tick {action : Action} (h : Tick field action s s') : Changes field s s' := by
  have hchanges : Changes field s (after (perform field (fun _ => pure ()) action) s) := by
    apply changes_perform
    intro node s
    exact .refl
  rwa [after_ok (perform_of_tick h)] at hchanges

theorem play_cons_ok {m : Moment} {moments : List Moment}
    (h : perform field (fun _ => pure ()) m.action s = .ok () s') :
    play field (m :: moments) s = play field moments s' := by
  unfold play
  exact forM_cons_ok h

theorem play_cons_error {m : Moment} {moments : List Moment} {stop : Stop}
    (h : perform field (fun _ => pure ()) m.action s = .error stop s') :
    play field (m :: moments) s = .error stop s' := by
  unfold play
  exact forM_cons_error h

theorem play_append (moments moments' : List Moment) (s : State) :
    play field (moments ++ moments') s =
      match play field moments s with
      | .ok _ s' => play field moments' s'
      | .error stop s' => .error stop s' :=
  forM_append moments moments' s

/-- What every round keeps holds at the end of the loop. -/
theorem play_induct {P : List Moment → State → Prop} {past moments : List Moment}
    (hstart : P past s)
    (htick : ∀ before m after s s', moments = before ++ m :: after → P (past ++ before) s →
      Tick field m.action s s' → P (past ++ before ++ [m]) s')
    (h : play field moments s = .ok () s') : P (past ++ moments) s' := by
  induction moments generalizing past s with
  | nil =>
    cases h
    rwa [List.append_nil]
  | cons m moments ih =>
    cases hm : perform field (fun _ => pure ()) m.action s with
    | error stop s₁ =>
      rw [play_cons_error hm] at h
      cases h
    | ok _ s₁ =>
      rw [play_cons_ok hm] at h
      rw [← List.singleton_append, ← List.append_assoc]
      apply ih _ _ h
      . have := htick [] m moments s s₁ rfl
        rw [List.append_nil] at this
        exact this hstart (tick_of_perform hm)
      . intro before m' after s s' hsplit
        have := htick (m :: before) m' after s s' (by rw [hsplit, List.cons_append])
        rw [List.append_assoc past [m], List.singleton_append]
        exact this

theorem changes_play {moments : List Moment} (h : play field moments s = .ok () s') :
    Changes field s s' := by
  apply play_induct (P := fun _ s' => Changes field s s') .refl _ h
  . exact []
  . intro before m after s₁ s₂ _ hs hm
    exact hs.trans (changes_of_tick hm)

theorem box_of_ok {decl : DeclId} {b : Box} (h : s.boxFor field decl = .ok b) :
    box field decl s = .ok () (s.addBox b) := by
  unfold box step
  simp only [h]
  rfl

theorem box_of_error {decl : DeclId} {stop : Stop} (h : s.boxFor field decl = .error stop) :
    box field decl s = .error stop s := by
  unfold box step
  simp only [h]
  rfl

/-- Boxing variables in turn applies a box for each, with what is known about the variable. -/
theorem forM_box_ok {decls : List DeclId} (h : decls.forM (box field) s = .ok () s') :
    ∃ boxes : List Box, boxes.map Box.decl = decls ∧
      (∀ b ∈ boxes, b.field = field ∧ ∃ info, s.registry.info? b.decl = some info ∧
        info.initializer = some b.initializer ∧ info.references = b.references) ∧
      s'.boxes.toList = s.boxes.toList ++ boxes ∧
      s'.program = boxes.foldl (fun q b => b.apply q) s.program ∧
      s'.scopes = s.scopes ∧ s'.registry = s.registry ∧ s'.assignments = s.assignments := by
  induction decls generalizing s with
  | nil =>
    cases h
    refine ⟨[], rfl, ?_, ?_, rfl, rfl, rfl, rfl⟩
    . intro b hb
      cases hb
    . rw [List.append_nil]
  | cons decl decls ih =>
    cases hbox : s.boxFor field decl with
    | error stop =>
      rw [forM_cons_error (box_of_error hbox)] at h
      cases h
    | ok b =>
      rw [forM_cons_ok (box_of_ok hbox)] at h
      rcases ih h with
        ⟨boxes, hdecls, hinfo, hboxes, hprogram, hscopes, hregistry, hassignments⟩
      rcases State.boxFor_ok hbox with ⟨d, info, value, -, hb, hvalue, rfl⟩
      refine ⟨_ :: boxes, ?_, ?_, ?_, hprogram, hscopes, hregistry, hassignments⟩
      . rw [List.map_cons, hdecls]
      . rw [List.forall_mem_cons]
        exact ⟨⟨rfl, info, hb, hvalue, rfl⟩, hinfo⟩
      . rw [hboxes]
        unfold State.addBox
        rw [Array.toList_push, List.append_assoc]
        rfl

end Pass

/-- Boxes are added at the end of a function only. -/
theorem Tick.boxes_eq {field : String} {action : Action} {s s' : State}
    (h : Tick field action s s') (hleave : action ≠ .leave) : s'.boxes = s.boxes := by
  cases h with
  | visit => rfl
  | register => rfl
  | initializer hs =>
    rcases State.setInitializer_ok hs with ⟨-, rfl⟩
    rfl
  | assign hs =>
    rcases State.assign_ok hs with ⟨-, rfl⟩ | ⟨_, _, _, -, -, -, -, -, rfl⟩
    . rfl
    . rw [State.boxes_noteAssignment]
  | reference hs =>
    rcases State.reference_ok hs with ⟨-, rfl⟩ | ⟨_, _, -, -, ⟨-, -, rfl⟩ | ⟨-, rfl⟩⟩ <;> rfl
  | enter => rfl
  | leave => simp at hleave

end Upvalue.Boxing

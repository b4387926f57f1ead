import Upvalue.Proofs.Boxing.Play

/-!
This module contains what is wrong with a state in which a step of the pass fails, and at which
moment a run stops.
-/

namespace Upvalue.Boxing

open Program

namespace State

variable {s s' : State} {stop : Stop} {decl : DeclId}

theorem depthOf_error (h : s.depthOf decl = .error stop) :
    s.registry.info? decl = none ∧ stop = s.unregistered decl := by
  unfold depthOf at h
  split at h
  . cases h
  . next hinfo =>
    cases h
    simp [hinfo]

theorem setInitializer_error {value : ExprId} (h : s.setInitializer decl value = .error stop) :
    s.registry.info? decl = none := by
  cases hinfo : s.registry.info? decl with
  | none => simp
  | some info =>
    rw [setInitializer_of_info? value hinfo] at h
    cases h

theorem modifyOwner_error {f : FunctionScope → FunctionScope}
    (h : s.modifyOwner decl f = .error stop) :
    (s.registry.info? decl = none ∧ stop = s.unregistered decl) ∨
      ∃ info, s.registry.info? decl = some info ∧
        ((s.scopes.depth < info.depth ∧ stop = s.closed decl) ∨ info.depth = 0) := by
  unfold modifyOwner at h
  cases hdepth : s.depthOf decl with
  | error stop' =>
    left
    rw [hdepth] at h
    cases h
    apply depthOf_error hdepth
  | ok depth =>
    right
    rcases depthOf_ok hdepth with ⟨info, hinfo, rfl⟩
    refine ⟨info, hinfo, ?_⟩
    rw [hdepth] at h
    simp only [bind, Except.bind] at h
    split at h
    . next hlt =>
      cases h
      simp [hlt]
    . next hle =>
      right
      split at h
      . next hnone =>
        rw [Option.isNone_iff_eq_none] at hnone
        have hopen : (s.scopes.at? info.depth).isSome = true ↔ _ := ScopeStack.isSome_at?_iff
        simp only [hnone, Option.isSome_none, Bool.false_eq_true, false_iff] at hopen
        omega
      . cases h

theorem assign_error {target : VarId} {result : Option DeclId}
    (hboxable : s.boxable? target = .ok result) (h : s.assign target = .error stop) :
    ∃ decl, result = some decl ∧ s.modifyOwner decl (·.markMutated decl) = .error stop := by
  unfold assign at h
  simp only [hboxable, bind, Except.bind] at h
  cases result with
  | none => cases h
  | some decl =>
    refine ⟨decl, rfl, ?_⟩
    dsimp only at h
    cases howner : s.modifyOwner decl (·.markMutated decl) with
    | ok s' =>
      rw [howner] at h
      cases h
    | error stop' =>
      rw [howner] at h
      cases h
      simp

theorem assign_of_error {target : VarId} (hboxable : s.boxable? target = .ok (some decl))
    (h : s.modifyOwner decl (·.markMutated decl) = .error stop) :
    s.assign target = .error stop := by
  simp only [assign, hboxable, h, bind, Except.bind]

/-- A use that is not captured does not look for the scope of the variable. -/
theorem reference_error {name : VarId} {result : Option DeclId}
    (hboxable : s.boxable? name = .ok result) (h : s.reference name = .error stop) :
    ∃ decl, result = some decl ∧ s.registry.info? decl = none ∧ stop = s.unregistered decl := by
  cases result with
  | none =>
    rw [reference_of_none hboxable] at h
    cases h
  | some decl =>
    refine ⟨decl, rfl, ?_⟩
    cases hinfo : s.registry.info? decl with
    | none =>
      simp only [reference, hboxable, bind, Except.bind, depthOf, hinfo] at h
      cases h
      simp
    | some info =>
      by_cases hcaptured : info.depth < s.scopes.depth ∧ 1 < info.depth
      . rw [reference_of_captured hboxable hinfo hcaptured] at h
        cases h
      . rw [reference_of_not_captured hboxable hinfo hcaptured] at h
        cases h

theorem exit_error (h : s.exit = .error stop) : s.scopes.depth = 1 := by
  unfold exit at h
  split at h
  . cases h
  . next hnone => apply ScopeStack.exit?_eq_none_iff.mp hnone

theorem boxFor_error {field : String} {d : Decl} (hd : s.program.decl? decl = some d)
    (h : s.boxFor field decl = .error stop) :
    s.registry.info? decl = none ∨
      ∃ info, s.registry.info? decl = some info ∧ info.initializer = none ∧
        stop = .fault (.uninitializedCapture decl d.name d.loc
          ((s.assignments.lookup decl).getD Span.dummy)) := by
  unfold boxFor at h
  rw [hd] at h
  dsimp only at h
  cases hinfo : s.registry.info? decl with
  | none => simp
  | some info =>
    right
    rw [hinfo] at h
    dsimp only at h
    cases hvalue : info.initializer with
    | none =>
      rw [hvalue] at h
      cases h
      exact ⟨info, rfl, hvalue, rfl⟩
    | some value =>
      rw [hvalue] at h
      cases h

end State

namespace Pass

variable {field : String} {s s' : State} {stop : Stop}

theorem step_error {f : State → Except Stop State} (h : step f s = .error stop s') :
    f s = .error stop ∧ s' = s := by
  unfold step at h
  split at h
  . cases h
  . next heq =>
    cases h
    simp [heq]

theorem step_of_error {f : State → Except Stop State} (h : f s = .error stop) :
    step f s = .error stop s := by
  unfold step
  rw [h]

/-- An action that stops changes nothing, unless a node is visited or a function ends. -/
theorem perform_error {visit : Node → Pass Unit} {action : Action} (hstep : action.node? = none)
    (hleave : action ≠ .leave) (h : perform field visit action s = .error stop s') : s' = s := by
  cases action with
  | visit node => cases hstep
  | register decl => cases h
  | initializer decl value =>
    change step (·.setInitializer decl value) s = .error stop s' at h
    apply (step_error h).2
  | assign target =>
    change step (·.assign target) s = .error stop s' at h
    apply (step_error h).2
  | reference name =>
    change step (·.reference name) s = .error stop s' at h
    apply (step_error h).2
  | enter => cases h
  | leave => simp at hleave

/-- The variables before the one that cannot be boxed have been boxed. -/
theorem forM_box_error {decls : List DeclId}
    (h : decls.forM (box field) s = .error stop s') :
    ∃ done decl rest, decls = done ++ decl :: rest ∧ done.forM (box field) s = .ok () s' ∧
      s'.boxFor field decl = .error stop := by
  induction decls generalizing s with
  | nil => cases h
  | cons decl decls ih =>
    cases hbox : s.boxFor field decl with
    | ok b =>
      rw [forM_cons_ok (box_of_ok hbox)] at h
      rcases ih h with ⟨done, decl', rest, rfl, hdone, hstop⟩
      refine ⟨decl :: done, decl', rest, rfl, ?_, hstop⟩
      rw [forM_cons_ok (box_of_ok hbox), hdone]
    | error stop' =>
      rw [forM_cons_error (box_of_error hbox)] at h
      cases h
      exact ⟨[], decl, decls, rfl, rfl, hbox⟩

theorem leave_error (h : leave field s = .error stop s') :
    s.scopes.depth = 1 ∨
      ∃ scope s₁, s.exit = .ok (scope, s₁) ∧
        scope.boxable.forM (box field) s₁ = .error stop s' := by
  unfold leave at h
  split at h
  . next scope s₁ hexit => exact .inr ⟨scope, s₁, hexit, h⟩
  . next hexit => exact .inl (State.exit_error hexit)

/-- A run that stops has performed some moments, and stops at the next one. -/
theorem play_error {moments : List Moment} (h : play field moments s = .error stop s') :
    ∃ before m after s₁, moments = before ++ m :: after ∧ play field before s = .ok () s₁ ∧
      perform field (fun _ => pure ()) m.action s₁ = .error stop s' := by
  induction moments generalizing s with
  | nil => cases h
  | cons m moments ih =>
    cases hm : perform field (fun _ => pure ()) m.action s with
    | ok _ s₁ =>
      rw [play_cons_ok hm] at h
      rcases ih h with ⟨before, m', after, s₂, rfl, hbefore, hstop⟩
      refine ⟨m :: before, m', after, s₂, rfl, ?_, hstop⟩
      rw [play_cons_ok hm, hbefore]
    | error stop' s₁ =>
      rw [play_cons_error hm] at h
      cases h
      exact ⟨[], m, moments, s, rfl, rfl, hm⟩

theorem play_of_split {before after : List Moment} {m : Moment} {s₁ : State}
    (hbefore : play field before s = .ok () s₁)
    (hm : perform field (fun _ => pure ()) m.action s₁ = .error stop s') :
    play field (before ++ m :: after) s = .error stop s' := by
  rw [play_append, hbefore]
  apply play_cons_error hm

end Pass

end Upvalue.Boxing

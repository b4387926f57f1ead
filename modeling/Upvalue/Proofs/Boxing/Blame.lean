import Upvalue.Proofs.Boxing.Recall

/-!
This module contains the proof that the pass stops for a reason that the moments of the past show. A
program that has been checked is in range, and its nodes are not nested too deeply, so that a stop
is always about a variable.
-/

namespace Upvalue.Boxing

open Program

/-- What is wrong with a moment at which the pass stops. -/
inductive Fails (p : Program) (past : List Moment) (s : State) : Moment → BoxingError → Prop where
  /-- A variable is used that has not been registered. -/
  | early {around : List ExprId} {action : Action} {id : VarId} {decl : DeclId} {d : Decl}
      (haction : action = .assign id ∨ action = .reference id) (hid : p.candidate? id = some decl)
      (hd : p.decl? decl = some d) (hhome : home? past decl = none) :
      Fails p past s ⟨around, action⟩ (.unregisteredDecl decl d.name d.loc)
  /-- A variable is assigned that is deeper than the assignment. -/
  | closed {around home : List ExprId} {target : VarId} {decl : DeclId} {d : Decl}
      (hid : p.candidate? target = some decl) (hd : p.decl? decl = some d)
      (hhome : home? past decl = some home) (hlt : around.length < home.length) :
      Fails p past s ⟨around, .assign target⟩ (.closedScope decl d.name d.loc)
  /-- A variable is to be boxed that has no initializer. It is the first one of its function. -/
  | uninitialized {around : List ExprId} {decl : DeclId} {d : Decl} {done rest : List DeclId}
      {scope : FunctionScope} {stack : ScopeStack} (hexit : s.scopes.exit? = some (scope, stack))
      (hboxable : scope.boxable = done ++ decl :: rest) (hd : p.decl? decl = some d)
      (hdone : ∀ decl' ∈ done, ∃ gs value, ⟨gs, .initializer decl' value⟩ ∈ past)
      (hnone : ∀ gs value, ⟨gs, .initializer decl value⟩ ∉ past) :
      Fails p past s ⟨around, .leave⟩
        (.uninitializedCapture decl d.name d.loc ((assignedAt? p past decl).getD .dummy))

variable {order : LoopOrder} {field : String} {p : Program} {all past rest : List Moment}
variable {current final around : List ExprId} {m : Moment} {s s' : State} {stop : Stop}

namespace Recalls

theorem assign_fails (h : Recalls p past current s) (hall : Schedule order p all)
    (hvalid : p.Valid) (ht : Tracks field p past s) {target : VarId}
    (hsplit : all = past ++ ⟨current, .assign target⟩ :: rest)
    (hstop : s.assign target = .error stop) :
    ∃ error, stop = .fault error ∧ Fails p past s ⟨current, .assign target⟩ error := by
  have hboxable := ht.boxable?_of_assign hall hvalid.inRange hsplit
  rcases State.assign_error hboxable hstop with ⟨decl, hid, howner⟩
  rcases (candidate?_eq_some_iff.mp hid).2 with ⟨d, hd, -⟩
  cases State.modifyOwner_error howner with
  | inl hnone =>
    refine ⟨_, ?_, .early (.inl rfl) hid hd (h.info?_eq_none_iff.mp hnone.1)⟩
    rw [hnone.2, ht.unregistered_eq hd]
  | inr hsome =>
    rcases hsome with ⟨info, hinfo, hdeep⟩
    rcases h.exists_home hinfo with ⟨home, hhome, hdepth⟩
    rw [h.depth, hdepth] at hdeep
    cases hdeep with
    | inl hdeep =>
      refine ⟨_, ?_, .closed hid hd hhome (by omega)⟩
      rw [hdeep.2, ht.closed_eq hd]
    | inr hzero => omega

theorem reference_fails (h : Recalls p past current s) (hall : Schedule order p all)
    (hvalid : p.Valid) (ht : Tracks field p past s) {name : VarId}
    (hsplit : all = past ++ ⟨current, .reference name⟩ :: rest)
    (hstop : s.reference name = .error stop) :
    ∃ error, stop = .fault error ∧ Fails p past s ⟨current, .reference name⟩ error := by
  have hboxable := ht.boxable?_of_reference hall hvalid.inRange hsplit
  rcases State.reference_error hboxable hstop with ⟨decl, hid, hnone, hstop⟩
  rcases (candidate?_eq_some_iff.mp hid).2 with ⟨d, hd, -⟩
  refine ⟨_, ?_, .early (.inr rfl) hid hd (h.info?_eq_none_iff.mp hnone)⟩
  rw [hstop, ht.unregistered_eq hd]

/-- The variables that are boxed before the one that cannot be boxed have initializers. -/
theorem leave_fails (h : Recalls p past current s) (ht : Tracks field p past s)
    {func : ExprId} {outer : List ExprId} (hcurrent : current = func :: outer)
    (hstop : Pass.leave field s = .error stop s') :
    ∃ error, stop = .fault error ∧ Fails p past s ⟨current, .leave⟩ error := by
  cases Pass.leave_error hstop with
  | inl hdepth =>
    rw [h.depth, hcurrent] at hdepth
    simp at hdepth
  | inr hboxes =>
    rcases hboxes with ⟨scope, s₁, hexit, hboxes⟩
    rcases State.exit_ok hexit with ⟨stack, hstack, rfl⟩
    rcases Pass.forM_box_error hboxes with ⟨done, decl, rest, hboxable, hdone, hbox⟩
    rcases Pass.forM_box_ok hdone with
      ⟨boxes, hdecls, hinfo, -, hprogram, -, hregistry, hassignments⟩
    dsimp only at hinfo hprogram hregistry hassignments
    have hmem : decl ∈ scope.mutated := by
      have hmem : decl ∈ scope.boxable := by
        rw [hboxable]
        simp
      apply List.mem_of_mem_filter hmem
    have hmarked := h.marked _ scope decl (ScopeStack.at?_of_exit? hstack) hmem
    rcases hmarked.1 with ⟨d, hd, -⟩
    rcases ht.exists_decl? hd with ⟨ty, hd'⟩
    rcases Box.exists_decl?_foldl_apply boxes hd' with ⟨ty', hd''⟩
    rw [← hprogram] at hd''
    cases State.boxFor_error hd'' hbox with
    | inl hnone =>
      rw [hregistry, h.info?_eq_none_iff] at hnone
      simp [hnone] at hmarked
    | inr hsome =>
      rcases hsome with ⟨info, hinfo', hvalue, hstop⟩
      refine ⟨_, hstop, ?_⟩
      rw [hassignments, h.assigned]
      apply Fails.uninitialized hstack hboxable hd
      . intro decl' hdecl'
        rw [← hdecls, List.mem_map] at hdecl'
        rcases hdecl' with ⟨b, hb, rfl⟩
        rcases hinfo b hb with ⟨-, info, hinfo, hvalue, -⟩
        rcases ht.initializer b.decl info b.initializer hinfo hvalue with ⟨gs, hmem⟩
        exact ⟨gs, _, hmem⟩
      . intro gs value hmem
        rcases h.initialized gs decl value hmem with ⟨info', hinfo'', hsome⟩
        rw [hregistry, hinfo''] at hinfo'
        cases hinfo'
        simp [hvalue] at hsome

/-- If the pass stops at a moment, the moment and the past show why. -/
theorem fails (h : Recalls p past current s) (hall : Schedule order p all) (hvalid : p.Valid)
    (ht : Tracks field p past s) (hsplit : all = past ++ m :: rest)
    (hflow : Follows current [m] final)
    (hstop : Pass.perform field (fun _ => pure ()) m.action s = .error stop s') :
    ∃ error, stop = .fault error ∧ Fails p past s m error := by
  cases hflow with
  | enter => cases hstop
  | leave => apply h.leave_fails ht rfl hstop
  | @step action _ _ _ henter hleave =>
    cases action with
    | visit => cases hstop
    | register => cases hstop
    | initializer decl value =>
      -- The variable has been registered right before.
      change Pass.step (·.setInitializer decl value) s = .error stop s' at hstop
      have hnone := State.setInitializer_error (Pass.step_error hstop).1
      have hmem := (hall.before_initializer hsplit).2
      rw [h.info?_eq_none_iff, home?_eq_none_iff] at hnone
      exact absurd hmem (hnone current)
    | assign target =>
      change Pass.step (·.assign target) s = .error stop s' at hstop
      apply h.assign_fails hall hvalid ht hsplit (Pass.step_error hstop).1
    | reference name =>
      change Pass.step (·.reference name) s = .error stop s' at hstop
      apply h.reference_fails hall hvalid ht hsplit (Pass.step_error hstop).1
    | enter => simp at henter
    | leave => simp at hleave

/-- An assignment of a variable that is deeper than the assignment stops the pass. -/
theorem stop_of_closed (h : Recalls p past current s) (hall : Schedule order p all)
    (hvalid : p.Valid) (ht : Tracks field p past s) {target : VarId} {decl : DeclId} {d : Decl}
    {home : List ExprId} (hsplit : all = past ++ ⟨current, .assign target⟩ :: rest)
    (hid : p.candidate? target = some decl) (hd : p.decl? decl = some d)
    (hhome : home? past decl = some home) (hlt : current.length < home.length) :
    s.assign target = .error (.fault (.closedScope decl d.name d.loc)) := by
  have hboxable := ht.boxable?_of_assign hall hvalid.inRange hsplit
  rcases h.exists_info hhome with ⟨info, hinfo, hdepth⟩
  rw [hid] at hboxable
  rw [← ht.closed_eq hd]
  apply State.assign_of_error hboxable
  have hdeeper : s.scopes.depth < info.depth := by
    rw [h.depth, hdepth]
    omega
  simp only [State.modifyOwner, State.depthOf, hinfo, bind, Except.bind, if_pos hdeeper]
  rfl

end Recalls

/-- The function literals that are open at a moment that the pass comes to. -/
theorem Schedule.exists_current (hall : Schedule order p all) (hsplit : all = past ++ m :: rest) :
    ∃ current final, Follows [] past current ∧ Follows current [m] final := by
  have hflow := hall.follows
  rw [hsplit, ← List.singleton_append, ← List.append_assoc] at hflow
  rcases hflow.of_append with ⟨final, hflow, -⟩
  rcases hflow.of_append with ⟨current, hpast, hm⟩
  exact ⟨current, final, hpast, hm⟩

/-- A run that does not come to the end of the moments fails at one of them. -/
theorem fails_of_play (hall : Schedule order p all) (hvalid : p.Valid)
    (h : Pass.play field all (.start p) = .error stop s') :
    ∃ past m rest s error, all = past ++ m :: rest ∧
      Pass.play field past (.start p) = .ok () s ∧ stop = .fault error ∧
        Fails p past s m error := by
  rcases Pass.play_error h with ⟨past, m, rest, s, hsplit, hpast, hm⟩
  rcases hall.exists_current hsplit with ⟨current, final, hcurrent, hflow⟩
  rcases recalls_of_play hall hsplit hcurrent hpast with ⟨htracks, hrecalls⟩
  rcases hrecalls.fails hall hvalid htracks hsplit hflow hm with ⟨error, hstop, hfails⟩
  exact ⟨past, m, rest, s, error, hsplit, hpast, hstop, hfails⟩

/-- The way in which a run ends, as the way in which its moments end. -/
theorem verdict_eq_error_iff {options : Options} (hall : Schedule options.order p all)
    (hvalid : p.Valid) : (run options p).verdict = .error stop ↔
      ∃ s, Pass.play options.field all (.start p) = .error stop s := by
  unfold run
  rw [← Pass.visitProgram_eq_play hall hvalid]
  cases Pass.visitProgram options (depthLimit p) (.start p) with
  | ok _ s => simp
  | error stop' s => simp

/-- The verdict tells of a moment at which the pass stops. -/
theorem exists_fails {options : Options} (hall : Schedule options.order p all) (hvalid : p.Valid)
    (h : (run options p).verdict = .error stop) :
    ∃ past m rest s error, all = past ++ m :: rest ∧
      Pass.play options.field past (.start p) = .ok () s ∧ stop = .fault error ∧
        Fails p past s m error := by
  rw [verdict_eq_error_iff hall hvalid] at h
  rcases h with ⟨s, h⟩
  apply fails_of_play hall hvalid h

end Upvalue.Boxing

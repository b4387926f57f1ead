import Upvalue.Proofs.Boxing.Box
import Upvalue.Proofs.Boxing.Tick

/-!
This module contains what a state knows about the moments of the past: the names that have been
used, the values of the variables and the slots that the boxes have overwritten. These are never
slots of nodes that are still to be visited, so the pass sees the nodes of the program that it began
with.
-/

namespace Upvalue.Boxing

open Program

/-- The simple names of a declaration that are used, in this order. -/
def referencesIn (p : Program) (decl : DeclId) (moments : List Moment) : List VarId :=
  moments.filterMap fun m =>
    match m.action with
    | .reference id => if p.candidate? id = some decl then some id else none
    | _ => none

/-- The references that have been recorded for a declaration, none if it is not registered. -/
def State.recorded (s : State) (decl : DeclId) : List VarId :=
  ((s.registry.info? decl).map (·.references.toList)).getD []

/-- What a state knows about the past. -/
structure Tracks (field : String) (p : Program) (past : List Moment) (s : State) : Prop where
  program : s.program = s.boxes.toList.foldl (fun q b => b.apply q) p
  references : ∀ decl, s.recorded decl = referencesIn p decl past
  initializer : ∀ decl info value, s.registry.info? decl = some info →
    info.initializer = some value → ∃ around, ⟨around, .initializer decl value⟩ ∈ past
  boxed : ∀ b ∈ s.boxes.toList, b.field = field ∧
    (∃ around, ⟨around, .initializer b.decl b.initializer⟩ ∈ past) ∧
    ∀ id ∈ b.references, id ∈ referencesIn p b.decl past

section References

variable {p : Program} {decl : DeclId} {moments moments' : List Moment} {around : List ExprId}

@[simp]
theorem referencesIn_append : referencesIn p decl (moments ++ moments') =
    referencesIn p decl moments ++ referencesIn p decl moments' := by
  apply List.filterMap_append

theorem referencesIn_reference {id : VarId} : referencesIn p decl [⟨around, .reference id⟩] =
    if p.candidate? id = some decl then [id] else [] := by
  unfold referencesIn
  rw [List.filterMap_cons]
  dsimp only
  split
  . next h =>
    split at h
    . cases h
    . next hne =>
      rw [if_neg hne]
      rfl
  . next h =>
    split at h
    . next heq =>
      cases h
      rw [if_pos heq]
      rfl
    . cases h

theorem referencesIn_of_ne {m : Moment} (h : ∀ id, m.action ≠ .reference id) :
    referencesIn p decl [m] = [] := by
  unfold referencesIn
  rw [List.filterMap_cons]
  split
  . rfl
  . next heq =>
    split at heq
    . next id haction => exact absurd haction (h id)
    . cases heq

theorem mem_referencesIn {id : VarId} : id ∈ referencesIn p decl moments ↔
    (∃ around, ⟨around, .reference id⟩ ∈ moments) ∧ p.candidate? id = some decl := by
  unfold referencesIn
  rw [List.mem_filterMap]
  constructor
  . rintro ⟨⟨around, action⟩, hmem, h⟩
    cases action with
    | reference name =>
      dsimp only at h
      split at h
      . next heq =>
        injection h with h
        subst h
        exact ⟨⟨around, hmem⟩, heq⟩
      . cases h
    | _ => cases h
  . rintro ⟨⟨around, hmem⟩, h⟩
    refine ⟨_, hmem, ?_⟩
    simp [h]

end References

section Recorded

variable {s : State}

theorem recorded_of_info? {decl : DeclId} {info : DeclInfo}
    (h : s.registry.info? decl = some info) : s.recorded decl = info.references.toList := by
  unfold State.recorded
  rw [h]
  rfl

theorem recorded_register (decl decl' : DeclId) :
    (s.register decl).recorded decl' = s.recorded decl' := by
  unfold State.recorded State.register
  rw [Registry.info?_register]
  split
  . next heq =>
    rw [heq]
    cases s.registry.info? decl <;> rfl
  . rfl

theorem recorded_record {decl decl' : DeclId} {f : DeclInfo → DeclInfo}
    (hf : ∀ info, (f info).references = info.references) :
    (s.record decl f).recorded decl' = s.recorded decl' := by
  unfold State.recorded State.record
  rw [Registry.info?_modify]
  split
  . cases s.registry.info? decl' with
    | none => rfl
    | some info => simp [hf]
  . rfl

end Recorded

namespace Tracks

variable {order : LoopOrder} {field : String} {p : Program} {all past rest : List Moment}
variable {s : State}

section Reading

theorem start (field : String) (p : Program) : Tracks field p [] (.start p) := by
  constructor
  . rfl
  . intro decl
    rfl
  . intro decl info value hinfo
    cases hinfo
  . intro b hb
    cases hb

theorem var?_eq (h : Tracks field p past s) {id : VarId} {var : Var}
    (hunused : ∀ around, ⟨around, .reference id⟩ ∉ past) (hvar : p.var? id = some var) :
    s.program.var? id = some var := by
  rw [h.program]
  apply Box.var?_foldl_apply _ hvar
  intro b hb hmem
  have hreference := (h.boxed b hb).2.2 id hmem
  rw [mem_referencesIn] at hreference
  rcases hreference with ⟨⟨around, hmem⟩, -⟩
  exact hunused around hmem

theorem expr?_eq (h : Tracks field p past s) {id : ExprId} {expr : Expr}
    (hfresh : ∀ around decl, ⟨around, .initializer decl id⟩ ∉ past)
    (hexpr : p.expr? id = some expr) : s.program.expr? id = some expr := by
  rw [h.program]
  apply Box.expr?_foldl_apply _ hexpr
  rintro b hb rfl
  rcases (h.boxed b hb).2.1 with ⟨around, hmem⟩
  exact hfresh around b.decl hmem

theorem unexported_iff (h : Tracks field p past s) (decl : DeclId) :
    s.program.Unexported decl ↔ p.Unexported decl := by
  rw [h.program]
  apply Box.unexported_foldl_apply

theorem candidate?_eq (h : Tracks field p past s) {id : VarId} {var : Var}
    (hunused : ∀ around, ⟨around, .reference id⟩ ∉ past) (hvar : p.var? id = some var) :
    s.program.candidate? id = p.candidate? id := by
  apply candidate?_congr
  . rw [h.var?_eq hunused hvar, hvar]
  . exact h.unexported_iff

/-- A node holds what it held at the beginning when it is visited. -/
theorem plan?_eq (h : Tracks field p past s) (hall : Schedule order p all) {node : Node}
    {around : List ExprId} (hsplit : all = past ++ ⟨around, .visit node⟩ :: rest)
    {plan : List Action} (hplan : plan? order p node = some plan) :
    plan? order s.program node = some plan := by
  rw [← hplan]
  apply plan?_congr
  rw [Boxing.plan?_eq, Option.map_eq_some_iff] at hplan
  rcases hplan with ⟨content, hcontent, -⟩
  cases node with
  | stat id =>
    rw [content?_stat, content?_stat, h.program, Box.stat?_foldl_apply]
  | expr id =>
    rw [content?_expr, Option.map_eq_some_iff] at hcontent
    rcases hcontent with ⟨expr, hexpr, -⟩
    rw [content?_expr, content?_expr, hexpr, h.expr?_eq (hall.uninitialized_of_visit hsplit) hexpr]
  | var id =>
    rw [content?_var, Option.map_eq_some_iff] at hcontent
    rcases hcontent with ⟨var, hvar, -⟩
    rw [content?_var, content?_var, hvar, h.var?_eq (hall.unused_of_visit hsplit) hvar]

theorem candidate?_of_reference (h : Tracks field p past s) (hall : Schedule order p all)
    {id : VarId} {around : List ExprId}
    (hsplit : all = past ++ ⟨around, .reference id⟩ :: rest) :
    s.program.candidate? id = p.candidate? id := by
  rcases hall.exists_var?_of_reference hsplit with ⟨var, hvar⟩
  exact h.candidate?_eq (hall.unused_of_reference hsplit) hvar

theorem candidate?_of_assign (h : Tracks field p past s) (hall : Schedule order p all)
    {target : VarId} {around : List ExprId}
    (hsplit : all = past ++ ⟨around, .assign target⟩ :: rest) :
    s.program.candidate? target = p.candidate? target := by
  rcases hall.exists_var?_of_assign hsplit with ⟨var, hvar⟩
  exact h.candidate?_eq (hall.unused_of_assign hsplit) hvar

end Reading

section Preservation

variable {s' : State} {m : Moment}

theorem keep (h : Tracks field p past s) (hm : ∀ id, m.action ≠ .reference id)
    (hprogram : s'.program = s.program) (hboxes : s'.boxes = s.boxes)
    (hrecorded : ∀ decl, s'.recorded decl = s.recorded decl)
    (hinitializer : ∀ decl info value, s'.registry.info? decl = some info →
      info.initializer = some value → ∃ around, ⟨around, .initializer decl value⟩ ∈ past ++ [m]) :
    Tracks field p (past ++ [m]) s' := by
  constructor
  . rw [hprogram, hboxes]
    exact h.program
  . intro decl
    rw [hrecorded, h.references, referencesIn_append, referencesIn_of_ne hm, List.append_nil]
  . exact hinitializer
  . intro b hb
    rw [hboxes] at hb
    rcases h.boxed b hb with ⟨hfield, ⟨around, hmem⟩, hreferences⟩
    refine ⟨hfield, ⟨around, List.mem_append_left _ hmem⟩, ?_⟩
    intro id hid
    rw [referencesIn_append]
    exact List.mem_append_left _ (hreferences id hid)

theorem initializer_append (h : Tracks field p past s) (m : Moment) :
    ∀ decl info value, s.registry.info? decl = some info → info.initializer = some value →
      ∃ around, ⟨around, .initializer decl value⟩ ∈ past ++ [m] := by
  intro decl info value hinfo hvalue
  rcases h.initializer decl info value hinfo hvalue with ⟨around, hmem⟩
  exact ⟨around, List.mem_append_left _ hmem⟩

theorem register (h : Tracks field p past s) {around : List ExprId} (decl : DeclId) :
    Tracks field p (past ++ [⟨around, .register decl⟩]) (s.register decl) := by
  refine h.keep ?_ rfl rfl (recorded_register decl) ?_
  . intro id heq
    cases heq
  . intro decl' info value hinfo hvalue
    unfold State.register at hinfo
    rw [Registry.info?_register] at hinfo
    split at hinfo
    . injection hinfo with hinfo
      cases hold : s.registry.info? decl with
      | none =>
        rw [hold, Option.getD_none] at hinfo
        rw [← hinfo] at hvalue
        cases hvalue
      | some info' =>
        next heq =>
        rw [hold, Option.getD_some] at hinfo
        rw [← hinfo] at hvalue
        rw [heq]
        exact h.initializer_append _ decl info' value hold hvalue
    . exact h.initializer_append _ decl' info value hinfo hvalue

theorem setInitializer (h : Tracks field p past s) {around : List ExprId} {decl : DeclId}
    {value : ExprId} (hs : s.setInitializer decl value = .ok s') :
    Tracks field p (past ++ [⟨around, .initializer decl value⟩]) s' := by
  rcases State.setInitializer_ok hs with ⟨⟨info, hinfo⟩, rfl⟩
  refine h.keep ?_ rfl rfl ?_ ?_
  . intro id heq
    cases heq
  . intro decl'
    apply recorded_record
    intro info
    rfl
  . intro decl' info' value' hinfo' hvalue'
    unfold State.record at hinfo'
    rw [Registry.info?_modify] at hinfo'
    split at hinfo'
    . next heq =>
      rw [heq, hinfo, Option.map_some] at hinfo'
      injection hinfo' with hinfo'
      rw [← hinfo'] at hvalue'
      injection hvalue' with hvalue'
      refine ⟨around, ?_⟩
      rw [heq, hvalue']
      simp
    . exact h.initializer_append _ decl' info' value' hinfo' hvalue'

theorem assign (h : Tracks field p past s) {around : List ExprId} {target : VarId}
    (hs : s.assign target = .ok s') : Tracks field p (past ++ [⟨around, .assign target⟩]) s' := by
  have hm : ∀ id, (⟨around, .assign target⟩ : Moment).action ≠ .reference id := by
    intro id heq
    cases heq
  rcases State.assign_ok hs with ⟨-, rfl⟩ | ⟨decl, info, loc, -, -, -, -, -, rfl⟩
  . exact h.keep hm rfl rfl (fun _ => rfl) (h.initializer_append _)
  . apply h.keep hm
    . simp
    . simp
    . simp [State.recorded]
    . rw [State.registry_noteAssignment]
      exact h.initializer_append _

theorem reference (h : Tracks field p past s) (hall : Schedule order p all)
    {around : List ExprId} {name : VarId}
    (hsplit : all = past ++ ⟨around, .reference name⟩ :: rest)
    (hs : s.reference name = .ok s') :
    Tracks field p (past ++ [⟨around, .reference name⟩]) s' := by
  have hcandidate := h.candidate?_of_reference hall hsplit
  have hprogram := h.program
  have hboxed : ∀ b ∈ s.boxes.toList, b.field = field ∧
      (∃ around', ⟨around', .initializer b.decl b.initializer⟩ ∈
        past ++ [⟨around, .reference name⟩]) ∧
      ∀ id ∈ b.references, id ∈ referencesIn p b.decl (past ++ [⟨around, .reference name⟩]) := by
    intro b hb
    rcases h.boxed b hb with ⟨hfield, ⟨around', hmem⟩, hreferences⟩
    refine ⟨hfield, ⟨around', List.mem_append_left _ hmem⟩, ?_⟩
    intro id hid
    rw [referencesIn_append]
    exact List.mem_append_left _ (hreferences id hid)
  rcases State.reference_ok hs with ⟨hnone, rfl⟩ | ⟨decl, info, hsome, hinfo, hs'⟩
  . refine ⟨hprogram, ?_, h.initializer_append _, hboxed⟩
    intro decl
    rw [referencesIn_append, referencesIn_reference, ← hcandidate, hnone, h.references]
    simp
  . -- The use is recorded whether it is captured or not.
    have hregistry : s'.registry = (s.record decl fun info =>
        { info with references := info.references.push name }).registry := by
      rcases hs' with ⟨-, -, rfl⟩ | ⟨-, rfl⟩ <;> rfl
    have hkept : s'.program = s.program ∧ s'.boxes = s.boxes := by
      rcases hs' with ⟨-, -, rfl⟩ | ⟨-, rfl⟩ <;> exact ⟨rfl, rfl⟩
    constructor
    . rw [hkept.1, hkept.2]
      exact hprogram
    . intro decl'
      rw [referencesIn_append, referencesIn_reference, ← hcandidate, hsome, ← h.references]
      unfold State.recorded
      rw [hregistry]
      unfold State.record
      rw [Registry.info?_modify]
      by_cases heq : decl' = decl
      . subst heq
        simp [hinfo]
      . simp [heq, Ne.symm heq]
    . intro decl' info' value hinfo' hvalue
      rw [hregistry] at hinfo'
      unfold State.record at hinfo'
      rw [Registry.info?_modify] at hinfo'
      split at hinfo'
      . next heq =>
        rw [heq, hinfo, Option.map_some] at hinfo'
        injection hinfo' with hinfo'
        rw [← hinfo'] at hvalue
        rw [heq]
        exact h.initializer_append _ decl info value hinfo hvalue
      . exact h.initializer_append _ decl' info' value hinfo' hvalue
    . rw [hkept.2]
      exact hboxed

/-- The scopes and the log do not matter. -/
theorem congr (h : Tracks field p past s) (hprogram : s'.program = s.program)
    (hregistry : s'.registry = s.registry) (hboxes : s'.boxes = s.boxes) :
    Tracks field p past s' := by
  constructor
  . rw [hprogram, hboxes]
    exact h.program
  . intro decl
    unfold State.recorded
    rw [hregistry]
    apply h.references
  . rw [hregistry]
    exact h.initializer
  . rw [hboxes]
    exact h.boxed

/-- A box has what has been recorded for its variable. -/
theorem box (h : Tracks field p past s) {decl : DeclId} {b : Box}
    (hb : s.boxFor field decl = .ok b) :
    (∃ d, s.program.decl? b.decl = some d) ∧
      (∃ around, ⟨around, .initializer b.decl b.initializer⟩ ∈ past) ∧
      (∀ id ∈ b.references, id ∈ referencesIn p b.decl past) ∧
      Tracks field p past (s.addBox b) := by
  rcases State.boxFor_ok hb with ⟨d, info, value, hd, hinfo, hvalue, rfl⟩
  have hinitializer := h.initializer decl info value hinfo hvalue
  have hreferences : ∀ id ∈ info.references, id ∈ referencesIn p decl past := by
    intro id hid
    rw [← h.references, recorded_of_info? hinfo, Array.mem_toList_iff]
    exact hid
  refine ⟨⟨d, hd⟩, hinitializer, hreferences, ?_⟩
  constructor
  . unfold State.addBox
    rw [Array.toList_push, List.foldl_append, ← h.program]
    rfl
  . exact h.references
  . exact h.initializer
  . intro b hb
    unfold State.addBox at hb
    rw [Array.toList_push, List.mem_append, List.mem_singleton] at hb
    cases hb with
    | inl hb => apply h.boxed b hb
    | inr hb =>
      subst hb
      exact ⟨rfl, hinitializer, hreferences⟩

theorem boxes (h : Tracks field p past s) {decls : List DeclId}
    (hs : decls.forM (Pass.box field) s = .ok () s') : Tracks field p past s' := by
  induction decls generalizing s with
  | nil =>
    cases hs
    exact h
  | cons decl decls ih =>
    cases hbox : s.boxFor field decl with
    | ok b =>
      rw [Pass.forM_cons_ok (Pass.box_of_ok hbox)] at hs
      apply ih (h.box hbox).2.2.2 hs
    | error stop =>
      rw [Pass.forM_cons_error (Pass.box_of_error hbox)] at hs
      cases hs

theorem leave (h : Tracks field p past s) {around : List ExprId} {s₁ : State}
    {scope : FunctionScope} (hexit : s.exit = .ok (scope, s₁))
    (hboxes : scope.boxable.forM (Pass.box field) s₁ = .ok () s') :
    Tracks field p (past ++ [⟨around, .leave⟩]) s' := by
  rcases State.exit_ok hexit with ⟨stack, -, rfl⟩
  have hboxed : Tracks field p past s' := by
    apply boxes _ hboxes
    apply h.congr <;> rfl
  apply hboxed.keep _ rfl rfl (fun _ => rfl) (hboxed.initializer_append _)
  intro id heq
  cases heq

/-- Every round of the pass keeps track of the moments. -/
theorem tick (h : Tracks field p past s) (hall : Schedule order p all)
    (hsplit : all = past ++ m :: rest) (hs : Tick field m.action s s') :
    Tracks field p (past ++ [m]) s' := by
  rcases m with ⟨around, action⟩
  cases hs with
  | visit node =>
    refine h.keep ?_ rfl rfl (fun _ => rfl) (h.initializer_append _)
    intro id heq
    cases heq
  | register => apply h.register
  | initializer hs => exact h.setInitializer hs
  | assign hs => exact h.assign hs
  | reference hs => exact h.reference hall hsplit hs
  | enter =>
    refine h.keep ?_ rfl rfl (fun _ => rfl) (h.initializer_append _)
    intro id heq
    cases heq
  | leave hexit hboxes => exact h.leave hexit hboxes

theorem play (h : Tracks field p past s) (hall : Schedule order p all) {moments : List Moment}
    (hsplit : all = past ++ moments ++ rest) (hs : Pass.play field moments s = .ok () s') :
    Tracks field p (past ++ moments) s' := by
  apply Pass.play_induct h _ hs
  intro before m after s s' hmoments hbefore hm
  apply hbefore.tick hall _ hm
  . exact after ++ rest
  . rw [hsplit, hmoments]
    simp

end Preservation

end Tracks

end Upvalue.Boxing

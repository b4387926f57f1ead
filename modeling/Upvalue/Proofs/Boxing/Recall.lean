import Upvalue.Proofs.Boxing.Fault
import Upvalue.Proofs.Boxing.Stack

/-!
This module contains what the state remembers about the variables of a program, whether the names of
the program stay in their functions or not: how deep a variable was registered at first, where it
was assigned at first, and whether it has a value to begin with. So the moments of the past say why
the pass stops.
-/

namespace Upvalue.Boxing

open Program

/-- The function literals around the moment that registers a declaration at first. -/
def home? (past : List Moment) (decl : DeclId) : Option (List ExprId) :=
  (past.find? fun m => m.action = .register decl).map Moment.around

/-- The place of the name that an action assigns, if it refers to a variable. -/
def assignment? (p : Program) (decl : DeclId) : Action → Option Span
  | .assign target =>
    if p.candidate? target = some decl then
      some (((p.var? target).map Var.loc).getD Span.dummy)
    else none
  | _ => none

/-- The place of the first assignment of a variable. -/
def assignedAt? (p : Program) (past : List Moment) (decl : DeclId) : Option Span :=
  past.findSome? fun m => assignment? p decl m.action

/-- What an action changes in what is known about a declaration. -/
def recordAt (p : Program) (depth : Nat) (decl : DeclId) (info : Option DeclInfo) :
    Action → Option DeclInfo
  | .register decl' => if decl = decl' then some (info.getD ⟨depth, #[], none⟩) else info
  | .initializer decl' value =>
    if decl = decl' then info.map fun info => { info with initializer := some value } else info
  | .reference name =>
    if p.candidate? name = some decl then
      info.map fun info => { info with references := info.references.push name }
    else info
  | _ => info

/-- What the state remembers when the function literals of `current` are open. -/
structure Recalls (p : Program) (past : List Moment) (current : List ExprId) (s : State) :
    Prop where
  depth : s.scopes.depth = current.length + 1
  registered : ∀ decl, (s.registry.info? decl).map DeclInfo.depth =
    (home? past decl).map fun home => home.length + 1
  marked : ∀ depth scope decl, s.scopes.at? depth = some scope → decl ∈ scope.mutated →
    p.Unexported decl ∧ (home? past decl).isSome = true
  assigned : ∀ decl, s.assignments.lookup decl = assignedAt? p past decl
  initialized : ∀ around decl value, ⟨around, .initializer decl value⟩ ∈ past →
    ∃ info, s.registry.info? decl = some info ∧ info.initializer.isSome = true

section Home

variable {past : List Moment} {m : Moment} {decl : DeclId} {home : List ExprId}

theorem home?_append : home? (past ++ [m]) decl =
    (home? past decl).or (if m.action = .register decl then some m.around else none) := by
  unfold home?
  rw [List.find?_append, Option.map_or]
  by_cases h : m.action = .register decl <;> simp [h]

theorem home?_append_of_some (h : home? past decl = some home) :
    home? (past ++ [m]) decl = some home := by
  rw [home?_append, h, Option.some_or]

theorem isSome_home?_append (h : (home? past decl).isSome = true) :
    (home? (past ++ [m]) decl).isSome = true := by
  rw [home?_append, Option.isSome_or, h, Bool.true_or]

theorem home?_eq_none_iff : home? past decl = none ↔ ∀ around, ⟨around, .register decl⟩ ∉ past := by
  unfold home?
  rw [Option.map_eq_none_iff, List.find?_eq_none]
  constructor
  . intro h around hmem
    apply h _ hmem
    simp
  . rintro h ⟨around, action⟩ hmem haction
    rw [decide_eq_true_iff] at haction
    dsimp only at haction
    subst haction
    apply h around hmem

theorem mem_of_home? (h : home? past decl = some home) : ⟨home, .register decl⟩ ∈ past := by
  unfold home? at h
  rw [Option.map_eq_some_iff] at h
  rcases h with ⟨⟨around, action⟩, hfind, rfl⟩
  have haction := List.find?_some hfind
  rw [decide_eq_true_iff] at haction
  dsimp only at haction
  subst haction
  apply List.mem_of_find?_eq_some hfind

end Home

section Effects

variable {field : String} {action : Action} {s s' : State} {decl : DeclId}

theorem lookup_noteAssignment (loc : Span) (decl' : DeclId) :
    (s.noteAssignment decl loc).assignments.lookup decl' =
      (s.assignments.lookup decl').or (if decl' = decl then some loc else none) := by
  unfold State.noteAssignment
  by_cases heq : decl' = decl
  . subst heq
    cases hlookup : s.assignments.lookup decl' with
    | none => simp
    | some loc' => simp [hlookup]
  . have hbeq : (decl' == decl) = false := by simp [heq]
    split
    . simp
    . simp [List.lookup_cons, hbeq]

/-- What a round does to what is known about a declaration. -/
theorem Tick.info? (h : Tick field action s s') (decl : DeclId) :
    s'.registry.info? decl =
      recordAt s.program s.scopes.depth decl (s.registry.info? decl) action := by
  cases h with
  | visit => rfl
  | register =>
    simp only [recordAt, State.register, Registry.info?_register]
    split
    . next heq => rw [heq]
    . rfl
  | initializer hs =>
    rcases State.setInitializer_ok hs with ⟨-, rfl⟩
    simp only [recordAt, State.record, Registry.info?_modify]
  | assign hs =>
    rcases State.assign_ok hs with ⟨-, rfl⟩ | ⟨_, _, _, -, -, -, -, -, rfl⟩
    . rfl
    . rw [State.registry_noteAssignment]
      rfl
  | @reference _ _ name hs =>
    rcases State.reference_ok hs with ⟨hnone, rfl⟩ | ⟨decl', info, hsome, hinfo, hs'⟩
    . simp [recordAt, hnone]
    . have hregistry : s'.registry = s.registry.modify decl' fun info =>
          { info with references := info.references.push name } := by
        rcases hs' with ⟨-, -, rfl⟩ | ⟨-, rfl⟩ <;> rfl
      rw [hregistry, Registry.info?_modify]
      simp only [recordAt, hsome]
      by_cases heq : decl = decl'
      . simp [heq]
      . simp [heq, Ne.symm heq]
  | enter => rfl
  | leave hexit hboxes =>
    rcases State.exit_ok hexit with ⟨stack, -, rfl⟩
    rcases Pass.forM_box_ok hboxes with ⟨boxes, -, -, -, -, -, hregistry, -⟩
    rw [hregistry]
    rfl

/-- What a round does to the place of the first assignment of a variable. -/
theorem Tick.lookup (h : Tick field action s s') (decl : DeclId) :
    s'.assignments.lookup decl =
      (s.assignments.lookup decl).or (assignment? s.program decl action) := by
  cases h with
  | visit => simp [assignment?]
  | register => simp [assignment?, State.register]
  | initializer hs =>
    rcases State.setInitializer_ok hs with ⟨-, rfl⟩
    simp [assignment?, State.record]
  | assign hs =>
    rcases State.assign_ok hs with ⟨hnone, rfl⟩ | ⟨decl', info, loc, hsome, hloc, -, -, -, rfl⟩
    . simp [assignment?, hnone]
    . rw [lookup_noteAssignment]
      simp only [assignment?, hsome, hloc]
      by_cases heq : decl = decl'
      . simp [heq]
      . simp [heq, Ne.symm heq]
  | reference hs =>
    rcases State.reference_ok hs with ⟨-, rfl⟩ | ⟨_, _, -, -, ⟨-, -, rfl⟩ | ⟨-, rfl⟩⟩ <;>
      simp [assignment?, State.record]
  | enter => simp [assignment?, State.enter]
  | leave hexit hboxes =>
    rcases State.exit_ok hexit with ⟨stack, -, rfl⟩
    rcases Pass.forM_box_ok hboxes with ⟨boxes, -, -, -, -, -, -, hassignments⟩
    simp [assignment?, hassignments]

/-- A name is not used before its variable is registered. -/
theorem Tick.exists_info (h : Tick field action s s') {id : VarId}
    (haction : action = .assign id ∨ action = .reference id)
    (hid : s.program.candidate? id = some decl) : ∃ info, s.registry.info? decl = some info := by
  rcases haction with rfl | rfl
  . cases h with
    | assign hs =>
      rcases State.assign_ok hs with ⟨hnone, -⟩ | ⟨decl', info, loc, hsome, -, hinfo, -⟩
      . simp [hid] at hnone
      . rw [hid] at hsome
        cases hsome
        exact ⟨info, hinfo⟩
  . cases h with
    | reference hs =>
      rcases State.reference_ok hs with ⟨hnone, -⟩ | ⟨decl', info, hsome, hinfo, -⟩
      . simp [hid] at hnone
      . rw [hid] at hsome
        cases hsome
        exact ⟨info, hinfo⟩

/--
An open scope is new, or it is the one from before. Then it has at most one mark more: a variable
that is assigned is marked in the scope at its depth, and a variable of a function that is used is
marked as captured.
-/
theorem Tick.scope (h : Tick field action s s') {depth : Nat} {scope : FunctionScope}
    (hscope : s'.scopes.at? depth = some scope) :
    scope = .empty ∨ ∃ old, s.scopes.at? depth = some old ∧ (scope = old ∨
      (∃ target decl info, action = .assign target ∧ s.program.candidate? target = some decl ∧
        s.registry.info? decl = some info ∧ depth = info.depth ∧ scope = old.markMutated decl) ∨
      ∃ name decl info, action = .reference name ∧ s.registry.info? decl = some info ∧
        1 < info.depth ∧ scope = old.markCaptured decl) := by
  cases h with
  | visit => exact .inr ⟨scope, hscope, .inl rfl⟩
  | register => exact .inr ⟨scope, hscope, .inl rfl⟩
  | initializer hs =>
    rcases State.setInitializer_ok hs with ⟨-, rfl⟩
    exact .inr ⟨scope, hscope, .inl rfl⟩
  | @assign _ _ target hs =>
    right
    rcases State.assign_ok hs with ⟨-, rfl⟩ | ⟨decl, info, loc, hsome, -, hinfo, -, -, rfl⟩
    . exact ⟨scope, hscope, .inl rfl⟩
    . rw [State.scopes_noteAssignment, ScopeStack.at?_modify] at hscope
      split at hscope
      . next heq =>
        rw [Option.map_eq_some_iff] at hscope
        rcases hscope with ⟨old, hold, rfl⟩
        exact ⟨old, hold, .inr (.inl ⟨target, decl, info, rfl, hsome, hinfo, heq, rfl⟩)⟩
      . exact ⟨scope, hscope, .inl rfl⟩
  | @reference _ _ name hs =>
    right
    rcases State.reference_ok hs with
      ⟨-, rfl⟩ | ⟨decl, info, -, hinfo, ⟨-, hdepth, rfl⟩ | ⟨-, rfl⟩⟩
    . exact ⟨scope, hscope, .inl rfl⟩
    . change (s.scopes.modify _ _).at? depth = some scope at hscope
      rw [ScopeStack.at?_modify] at hscope
      split at hscope
      . rw [Option.map_eq_some_iff] at hscope
        rcases hscope with ⟨old, hold, rfl⟩
        exact ⟨old, hold, .inr (.inr ⟨name, decl, info, rfl, hinfo, hdepth, rfl⟩)⟩
      . exact ⟨scope, hscope, .inl rfl⟩
    . exact ⟨scope, hscope, .inl rfl⟩
  | enter =>
    change s.scopes.enter.at? depth = some scope at hscope
    rw [ScopeStack.at?_enter] at hscope
    split at hscope
    . cases hscope
      exact .inl rfl
    . exact .inr ⟨scope, hscope, .inl rfl⟩
  | leave hexit hboxes =>
    rcases State.exit_ok hexit with ⟨stack, hstack, rfl⟩
    rcases Pass.forM_box_ok hboxes with ⟨boxes, -, -, -, -, hscopes, -, -⟩
    rw [hscopes, ScopeStack.at?_exit? hstack] at hscope
    split at hscope
    . exact .inr ⟨scope, hscope, .inl rfl⟩
    . cases hscope

theorem Tick.mutated (h : Tick field action s s') {depth : Nat} {scope : FunctionScope}
    (hscope : s'.scopes.at? depth = some scope) :
    scope.mutated = [] ∨ ∃ old, s.scopes.at? depth = some old ∧
      (scope.mutated = old.mutated ∨ ∃ target decl info, action = .assign target ∧
        s.program.candidate? target = some decl ∧ s.registry.info? decl = some info ∧
          depth = info.depth ∧ scope.mutated = (old.markMutated decl).mutated) := by
  rcases h.scope hscope with
    rfl | ⟨old, hold, rfl | ⟨target, decl, info, htarget, hid, hinfo, hdepth, rfl⟩ |
      ⟨_, _, _, -, -, -, rfl⟩⟩
  . exact .inl rfl
  . exact .inr ⟨scope, hold, .inl rfl⟩
  . exact .inr ⟨old, hold, .inr ⟨target, decl, info, htarget, hid, hinfo, hdepth, rfl⟩⟩
  . exact .inr ⟨old, hold, .inl FunctionScope.mutated_markCaptured⟩

theorem Tick.captured (h : Tick field action s s') {depth : Nat} {scope : FunctionScope}
    (hscope : s'.scopes.at? depth = some scope) :
    scope.captured = [] ∨ ∃ old, s.scopes.at? depth = some old ∧
      (scope.captured = old.captured ∨ ∃ decl info, s.registry.info? decl = some info ∧
        1 < info.depth ∧ scope.captured = (old.markCaptured decl).captured) := by
  rcases h.scope hscope with
    rfl | ⟨old, hold, rfl | ⟨_, _, _, -, -, -, -, rfl⟩ | ⟨_, decl, info, -, hinfo, hdepth, rfl⟩⟩
  . exact .inl rfl
  . exact .inr ⟨scope, hold, .inl rfl⟩
  . exact .inr ⟨old, hold, .inl FunctionScope.captured_markMutated⟩
  . exact .inr ⟨old, hold, .inr ⟨decl, info, hinfo, hdepth, rfl⟩⟩

theorem Tick.depth {current final : List ExprId} {around : List ExprId}
    (h : Tick field action s s') (hflow : Follows current [⟨around, action⟩] final)
    (hdepth : s.scopes.depth = current.length + 1) : s'.scopes.depth = final.length + 1 := by
  cases hflow with
  | enter hnil =>
    cases hnil
    cases h
    change s.scopes.enter.depth = _
    rw [ScopeStack.depth_enter, hdepth, List.length_cons]
  | leave hnil =>
    cases hnil
    cases h with
    | leave hexit hboxes =>
      rcases State.exit_ok hexit with ⟨stack, hstack, rfl⟩
      rcases Pass.forM_box_ok hboxes with ⟨boxes, -, -, -, -, hscopes, -, -⟩
      have hstep := ScopeStack.depth_of_exit? hstack
      rw [hdepth, List.length_cons] at hstep
      rw [hscopes]
      dsimp only
      omega
  | step henter hleave hnil =>
    cases hnil
    cases h with
    | visit => exact hdepth
    | register => exact hdepth
    | initializer hs =>
      rcases State.setInitializer_ok hs with ⟨-, rfl⟩
      exact hdepth
    | assign hs =>
      rcases State.assign_ok hs with ⟨-, rfl⟩ | ⟨_, _, _, -, -, -, -, -, rfl⟩
      . exact hdepth
      . simp [hdepth]
    | reference hs =>
      rcases State.reference_ok hs with ⟨-, rfl⟩ | ⟨_, _, -, -, ⟨-, -, rfl⟩ | ⟨-, rfl⟩⟩
      . exact hdepth
      . simp [State.record, hdepth]
      . exact hdepth
    | enter => simp at henter
    | leave => simp at hleave

end Effects

section Record

variable {p : Program} {decl : DeclId} {info : Option DeclInfo} {action : Action} {depth : Nat}

theorem depth_recordAt : (recordAt p depth decl info action).map DeclInfo.depth =
    if action = .register decl then some ((info.map DeclInfo.depth).getD depth)
    else info.map DeclInfo.depth := by
  cases action with
  | register decl' =>
    simp only [recordAt, Action.register.injEq, eq_comm (a := decl')]
    split <;> cases info <;> rfl
  | initializer decl' value =>
    simp only [recordAt, reduceCtorEq, if_false]
    split <;> cases info <;> rfl
  | reference name =>
    simp only [recordAt, reduceCtorEq, if_false]
    split <;> cases info <;> rfl
  | _ => simp [recordAt]

/-- A variable that has a value to begin with keeps having one. -/
theorem initializer_recordAt {old : DeclInfo} (h : old.initializer.isSome = true) :
    ∃ new, recordAt p depth decl (some old) action = some new ∧ new.initializer.isSome = true := by
  cases action with
  | register decl' =>
    refine ⟨old, ?_, h⟩
    simp [recordAt]
  | initializer decl' value =>
    simp only [recordAt]
    split
    . exact ⟨_, rfl, rfl⟩
    . exact ⟨old, rfl, h⟩
  | reference name =>
    simp only [recordAt]
    split
    . exact ⟨_, rfl, h⟩
    . exact ⟨old, rfl, h⟩
  | _ => exact ⟨old, rfl, h⟩

end Record

namespace Tracks

variable {order : LoopOrder} {field : String} {p : Program} {all past rest : List Moment}
variable {around : List ExprId} {s : State}

theorem boxable?_eq (h : Tracks field p past s) (hrange : p.InRange) {id : VarId} {var : Var}
    (hunused : ∀ around, ⟨around, .reference id⟩ ∉ past) (hvar : p.var? id = some var) :
    s.boxable? id = .ok (p.candidate? id) := by
  rw [← h.candidate?_eq hunused hvar]
  apply State.boxable?_of_var? (h.var?_eq hunused hvar)
  intro decl hdecl
  rcases hrange.exists_decl? hvar hdecl with ⟨d, hd⟩
  rcases Box.exists_decl?_foldl_apply s.boxes.toList hd with ⟨ty, hd'⟩
  rw [h.program]
  exact ⟨_, hd'⟩

theorem boxable?_of_assign (h : Tracks field p past s) (hall : Schedule order p all)
    (hrange : p.InRange) {target : VarId}
    (hsplit : all = past ++ ⟨around, .assign target⟩ :: rest) :
    s.boxable? target = .ok (p.candidate? target) := by
  rcases hall.exists_var?_of_assign hsplit with ⟨var, hvar⟩
  apply h.boxable?_eq hrange (hall.unused_of_assign hsplit) hvar

theorem boxable?_of_reference (h : Tracks field p past s) (hall : Schedule order p all)
    (hrange : p.InRange) {name : VarId}
    (hsplit : all = past ++ ⟨around, .reference name⟩ :: rest) :
    s.boxable? name = .ok (p.candidate? name) := by
  rcases hall.exists_var?_of_reference hsplit with ⟨var, hvar⟩
  apply h.boxable?_eq hrange (hall.unused_of_reference hsplit) hvar

/-- The name and the place of a declaration can be read off the program at any time. -/
theorem exists_decl? (h : Tracks field p past s) {decl : DeclId} {d : Decl}
    (hd : p.decl? decl = some d) :
    ∃ ty, s.program.decl? decl = some { d with ty := ty } := by
  rw [h.program]
  apply Box.exists_decl?_foldl_apply _ hd

theorem unregistered_eq (h : Tracks field p past s) {decl : DeclId} {d : Decl}
    (hd : p.decl? decl = some d) :
    s.unregistered decl = .fault (.unregisteredDecl decl d.name d.loc) := by
  rcases h.exists_decl? hd with ⟨ty, hd'⟩
  unfold State.unregistered
  rw [hd']

theorem closed_eq (h : Tracks field p past s) {decl : DeclId} {d : Decl}
    (hd : p.decl? decl = some d) : s.closed decl = .fault (.closedScope decl d.name d.loc) := by
  rcases h.exists_decl? hd with ⟨ty, hd'⟩
  unfold State.closed
  rw [hd']

/-- The place of an assignment is read off the program that the pass began with. -/
theorem assignment?_eq (h : Tracks field p past s) (hall : Schedule order p all) {m : Moment}
    (hsplit : all = past ++ m :: rest) (decl : DeclId) :
    assignment? s.program decl m.action = assignment? p decl m.action := by
  rcases m with ⟨around, action⟩
  cases action with
  | assign target =>
    rcases hall.exists_var?_of_assign hsplit with ⟨var, hvar⟩
    have hunused := hall.unused_of_assign hsplit
    simp only [assignment?]
    rw [h.candidate?_eq hunused hvar, h.var?_eq hunused hvar, hvar]
  | _ => rfl

end Tracks

namespace Recalls

variable {order : LoopOrder} {field : String} {p : Program} {all past rest : List Moment}
variable {current final : List ExprId} {m : Moment} {s s' : State}

theorem start (p : Program) : Recalls p [] [] (.start p) := by
  constructor
  . rfl
  . intro decl
    rfl
  . intro depth scope decl hscope hmem
    change ScopeStack.new.at? depth = some scope at hscope
    rw [ScopeStack.at?_new] at hscope
    split at hscope
    . cases hscope
      cases hmem
    . cases hscope
  . intro decl
    rfl
  . intro around decl value hmem
    cases hmem

theorem isSome_home? (h : Recalls p past current s) {decl : DeclId} {info : DeclInfo}
    (hinfo : s.registry.info? decl = some info) : (home? past decl).isSome = true := by
  have hregistered := h.registered decl
  rw [hinfo] at hregistered
  cases hhome : home? past decl with
  | none =>
    rw [hhome] at hregistered
    cases hregistered
  | some home => rfl

theorem exists_home (h : Recalls p past current s) {decl : DeclId} {info : DeclInfo}
    (hinfo : s.registry.info? decl = some info) :
    ∃ home, home? past decl = some home ∧ info.depth = home.length + 1 := by
  have hregistered := h.registered decl
  rw [hinfo, Option.map_some, eq_comm, Option.map_eq_some_iff] at hregistered
  rcases hregistered with ⟨home, hhome, hdepth⟩
  exact ⟨home, hhome, hdepth.symm⟩

theorem exists_info (h : Recalls p past current s) {decl : DeclId} {home : List ExprId}
    (hhome : home? past decl = some home) :
    ∃ info, s.registry.info? decl = some info ∧ info.depth = home.length + 1 := by
  have hregistered := h.registered decl
  rw [hhome, Option.map_some, Option.map_eq_some_iff] at hregistered
  exact hregistered

theorem info?_eq_none_iff (h : Recalls p past current s) {decl : DeclId} :
    s.registry.info? decl = none ↔ home? past decl = none := by
  have hregistered := h.registered decl
  rw [← Option.map_eq_none_iff (f := DeclInfo.depth), hregistered, Option.map_eq_none_iff]

/-- A declaration is registered where the pass is. -/
theorem around_eq (hflow : Follows current [m] final) {decl : DeclId}
    (hm : m.action = .register decl) : m.around = current := by
  cases hflow with
  | enter => cases hm
  | leave => cases hm
  | step => rfl

theorem tick (h : Recalls p past current s) (hall : Schedule order p all)
    (ht : Tracks field p past s) (hsplit : all = past ++ m :: rest)
    (hflow : Follows current [m] final) (hs : Tick field m.action s s') :
    Recalls p (past ++ [m]) final s' := by
  constructor
  . apply hs.depth hflow h.depth
  . intro decl
    rw [hs.info?, depth_recordAt, h.registered, home?_append]
    split
    . next hm =>
      rw [around_eq hflow hm, h.depth]
      cases home? past decl <;> rfl
    . rw [Option.or_none]
  . intro depth scope decl hscope hmem
    rcases hs.mutated hscope with
      hnil | ⟨old, hold, heq | ⟨target, decl', info, hm, hid, hinfo, -, heq⟩⟩
    . rw [hnil] at hmem
      cases hmem
    . rw [heq] at hmem
      have hmarked := h.marked depth old decl hold hmem
      exact ⟨hmarked.1, isSome_home?_append hmarked.2⟩
    . rw [heq, FunctionScope.mem_markMutated] at hmem
      cases hmem with
      | inl hmem =>
        subst hmem
        rcases m with ⟨around, action⟩
        dsimp only at hm
        subst hm
        rw [ht.candidate?_of_assign hall hsplit, candidate?_eq_some_iff] at hid
        exact ⟨hid.2, isSome_home?_append (h.isSome_home? hinfo)⟩
      | inr hmem =>
        have hmarked := h.marked depth old decl hold hmem
        exact ⟨hmarked.1, isSome_home?_append hmarked.2⟩
  . intro decl
    rw [hs.lookup, h.assigned, ht.assignment?_eq hall hsplit]
    unfold assignedAt?
    rw [List.findSome?_append, List.findSome?_cons, List.findSome?_nil]
    cases assignment? p decl m.action <;> rfl
  . intro around decl value hmem
    rw [hs.info?]
    rw [List.mem_append, List.mem_singleton] at hmem
    cases hmem with
    | inl hmem =>
      rcases h.initialized around decl value hmem with ⟨info, hinfo, hvalue⟩
      rw [hinfo]
      apply initializer_recordAt hvalue
    | inr heq =>
      subst heq
      cases hs with
      | initializer hs =>
        rcases State.setInitializer_ok hs with ⟨⟨info, hinfo⟩, -⟩
        rw [hinfo]
        simp [recordAt]

end Recalls

section Run

variable {order : LoopOrder} {field : String} {p : Program} {all past rest : List Moment}
variable {current : List ExprId} {s : State}

/-- What every round preserves, given what the state knows, holds after a part of the run. -/
theorem invariant_of_play {P : List Moment → List ExprId → State → Prop}
    (hall : Schedule order p all) (hstart : P [] [] (.start p))
    (hP : ∀ {past m rest current final s s'}, all = past ++ m :: rest →
      Follows current [m] final → Tracks field p past s → Recalls p past current s →
        P past current s → Tick field m.action s s' → P (past ++ [m]) final s')
    (hsplit : all = past ++ rest) (hflow : Follows [] past current)
    (h : Pass.play field past (.start p) = .ok () s) :
    Tracks field p past s ∧ Recalls p past current s ∧ P past current s := by
  have hinvariant : Tracks field p ([] ++ past) s ∧ ∀ current, Follows [] ([] ++ past) current →
      Recalls p ([] ++ past) current s ∧ P ([] ++ past) current s := by
    apply Pass.play_induct (P := fun past s => Tracks field p past s ∧
      ∀ current, Follows [] past current → Recalls p past current s ∧ P past current s) _ _ h
    . refine ⟨.start field p, ?_⟩
      intro current hflow
      cases hflow
      exact ⟨.start p, hstart⟩
    . rintro before m after s s' hpast ⟨htracks, hbefore⟩ hs
      have hsplit' : all = [] ++ before ++ m :: (after ++ rest) := by
        rw [hsplit, hpast]
        simp
      refine ⟨htracks.tick hall hsplit' hs, ?_⟩
      intro final hflow
      rcases hflow.of_append with ⟨current, hcurrent, hfinal⟩
      rcases hbefore current hcurrent with ⟨hrecalls, hpred⟩
      exact ⟨hrecalls.tick hall htracks hsplit' hfinal hs,
        hP hsplit' hfinal htracks hrecalls hpred hs⟩
  exact ⟨hinvariant.1, hinvariant.2 current hflow⟩

/-- What the state knows after a part of the run, up to a moment that the pass comes to. -/
theorem recalls_of_play (hall : Schedule order p all) (hsplit : all = past ++ rest)
    (hflow : Follows [] past current) (h : Pass.play field past (.start p) = .ok () s) :
    Tracks field p past s ∧ Recalls p past current s := by
  have hinvariant := invariant_of_play (P := fun _ _ _ => True) hall trivial
    (fun _ _ _ _ _ _ => trivial) hsplit hflow h
  exact ⟨hinvariant.1, hinvariant.2.1⟩

end Run

end Upvalue.Boxing

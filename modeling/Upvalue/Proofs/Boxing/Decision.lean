import Upvalue.Proofs.Boxing.Home
import Upvalue.Proofs.Boxing.Play
import Upvalue.Proofs.Boxing.Stack

/-!
This module contains the proof that the pass boxes the right variables. Whenever a variable of a
program with scopes is used, the scope at the depth of the variable is the one of the very function
that declares it. So the marks in the open scopes are about the variables of the open functions.
-/

namespace Upvalue.Boxing

open Program

/-- A variable of a function has been assigned. -/
def AssignedIn (p : Program) (all past : List Moment) (around : List ExprId) (decl : DeclId) :
    Prop :=
  ⟨around, .register decl⟩ ∈ all ∧
    ∃ gs id, ⟨gs, .assign id⟩ ∈ past ∧ p.candidate? id = some decl

/-- A variable of a function has been used in a function inside. -/
def CapturedIn (p : Program) (all past : List Moment) (around : List ExprId) (decl : DeclId) :
    Prop :=
  ⟨around, .register decl⟩ ∈ all ∧ around ≠ [] ∧
    ∃ gs id, ⟨gs, .reference id⟩ ∈ past ∧ p.candidate? id = some decl ∧
      around.length < gs.length

/--
What the scopes, the registry and the boxes say about the moments of the past, when the function
literals of `current` are open.
-/
structure Decides (p : Program) (all past : List Moment) (current : List ExprId) (s : State) :
    Prop where
  depth : s.scopes.depth = current.length + 1
  registered : ∀ decl info, s.registry.info? decl = some info →
    ∃ around, ⟨around, .register decl⟩ ∈ all ∧ info.depth = around.length + 1
  mutated : ∀ around scope decl, around <:+ current →
    s.scopes.at? (around.length + 1) = some scope →
      (scope.isMutated decl = true ↔ AssignedIn p all past around decl)
  captured : ∀ around scope decl, around <:+ current →
    s.scopes.at? (around.length + 1) = some scope →
      (scope.isCaptured decl = true ↔ CapturedIn p all past around decl)
  boxed : ∀ decl, decl ∈ s.boxes.toList.map Box.decl ↔
    ∃ around, ¬ around <:+ current ∧ AssignedIn p all past around decl ∧
      CapturedIn p all past around decl
  unmarked : ∀ depth scope, s.scopes.at? depth = some scope → scope.mutated.Nodup
  once : (s.boxes.toList.map Box.decl).Nodup

section Past

variable {p : Program} {all past : List Moment} {around current : List ExprId} {decl : DeclId}

theorem assignedIn_append_of_ne {m : Moment} (h : ∀ id, m.action ≠ .assign id) :
    AssignedIn p all (past ++ [m]) around decl ↔ AssignedIn p all past around decl := by
  unfold AssignedIn
  simp only [List.mem_append, List.mem_singleton]
  constructor
  . rintro ⟨hhome, gs, id, hmem | rfl, hid⟩
    . exact ⟨hhome, gs, id, hmem, hid⟩
    . exact absurd rfl (h id)
  . rintro ⟨hhome, gs, id, hmem, hid⟩
    exact ⟨hhome, gs, id, .inl hmem, hid⟩

theorem assignedIn_append_assign {gs : List ExprId} {id : VarId} :
    AssignedIn p all (past ++ [⟨gs, .assign id⟩]) around decl ↔
      AssignedIn p all past around decl ∨
        (⟨around, .register decl⟩ ∈ all ∧ p.candidate? id = some decl) := by
  unfold AssignedIn
  simp only [List.mem_append, List.mem_singleton, Moment.mk.injEq, Action.assign.injEq]
  constructor
  . rintro ⟨hhome, gs', id', hmem | ⟨rfl, rfl⟩, hid⟩
    . exact .inl ⟨hhome, gs', id', hmem, hid⟩
    . exact .inr ⟨hhome, hid⟩
  . rintro (⟨hhome, gs', id', hmem, hid⟩ | ⟨hhome, hid⟩)
    . exact ⟨hhome, gs', id', .inl hmem, hid⟩
    . exact ⟨hhome, gs, id, .inr ⟨rfl, rfl⟩, hid⟩

theorem capturedIn_append_of_ne {m : Moment} (h : ∀ id, m.action ≠ .reference id) :
    CapturedIn p all (past ++ [m]) around decl ↔ CapturedIn p all past around decl := by
  unfold CapturedIn
  simp only [List.mem_append, List.mem_singleton]
  constructor
  . rintro ⟨hhome, hne, gs, id, hmem | rfl, hid⟩
    . exact ⟨hhome, hne, gs, id, hmem, hid⟩
    . exact absurd rfl (h id)
  . rintro ⟨hhome, hne, gs, id, hmem, hid⟩
    exact ⟨hhome, hne, gs, id, .inl hmem, hid⟩

theorem capturedIn_append_reference {gs : List ExprId} {id : VarId} :
    CapturedIn p all (past ++ [⟨gs, .reference id⟩]) around decl ↔
      CapturedIn p all past around decl ∨
        (⟨around, .register decl⟩ ∈ all ∧ around ≠ [] ∧ p.candidate? id = some decl ∧
          around.length < gs.length) := by
  unfold CapturedIn
  simp only [List.mem_append, List.mem_singleton, Moment.mk.injEq, Action.reference.injEq]
  constructor
  . rintro ⟨hhome, hne, gs', id', hmem | ⟨rfl, rfl⟩, hid, hlt⟩
    . exact .inl ⟨hhome, hne, gs', id', hmem, hid, hlt⟩
    . exact .inr ⟨hhome, hne, hid, hlt⟩
  . rintro (⟨hhome, hne, gs', id', hmem, hid, hlt⟩ | ⟨hhome, hne, hid, hlt⟩)
    . exact ⟨hhome, hne, gs', id', .inl hmem, hid, hlt⟩
    . exact ⟨hhome, hne, gs, id, .inr ⟨rfl, rfl⟩, hid, hlt⟩

theorem assignedIn_append_of_none {gs : List ExprId} {id : VarId} (h : p.candidate? id = none) :
    AssignedIn p all (past ++ [⟨gs, .assign id⟩]) around decl ↔
      AssignedIn p all past around decl := by
  rw [assignedIn_append_assign, h]
  simp

theorem capturedIn_append_of_none {gs : List ExprId} {id : VarId} (h : p.candidate? id = none) :
    CapturedIn p all (past ++ [⟨gs, .reference id⟩]) around decl ↔
      CapturedIn p all past around decl := by
  rw [capturedIn_append_reference, h]
  simp

theorem AssignedIn.unexported (h : AssignedIn p all past around decl) : p.Unexported decl := by
  rcases h with ⟨-, gs, id, -, hid⟩
  rw [candidate?_eq_some_iff] at hid
  exact hid.2

end Past

namespace Decides

variable {order : LoopOrder} {field : String} {p : Program} {all past rest : List Moment}
variable {current : List ExprId} {s s' : State}

theorem start (p : Program) (all : List Moment) : Decides p all [] [] (.start p) := by
  constructor
  . rfl
  . intro decl info hinfo
    cases hinfo
  . apply ScopeStack.Marks.new FunctionScope.isMutated_empty
    simp [AssignedIn]
  . apply ScopeStack.Marks.new FunctionScope.isCaptured_empty
    simp [CapturedIn]
  . intro decl
    simp [State.start, AssignedIn]
  . intro depth scope hscope
    change ScopeStack.new.at? depth = some scope at hscope
    rw [ScopeStack.at?_new] at hscope
    split at hscope
    . cases hscope
      exact List.nodup_nil
    . cases hscope
  . exact List.nodup_nil

section Open

variable {m : Moment}

/-- What happens to the variables of the open functions has nothing to do with the boxes so far. -/
theorem boxed_append (h : Decides p all past current s)
    (hassigned : ∀ around decl, ¬ around <:+ current →
      (AssignedIn p all (past ++ [m]) around decl ↔ AssignedIn p all past around decl))
    (hcaptured : ∀ around decl, ¬ around <:+ current →
      (CapturedIn p all (past ++ [m]) around decl ↔ CapturedIn p all past around decl)) :
    ∀ decl, decl ∈ s.boxes.toList.map Box.decl ↔ ∃ around, ¬ around <:+ current ∧
      AssignedIn p all (past ++ [m]) around decl ∧ CapturedIn p all (past ++ [m]) around decl := by
  intro decl
  rw [h.boxed]
  apply exists_congr
  intro around
  apply and_congr_right
  intro hclosed
  rw [hassigned around decl hclosed, hcaptured around decl hclosed]

theorem unmarked_modify (h : Decides p all past current s) {depth : Nat}
    {f : FunctionScope → FunctionScope}
    (hf : ∀ scope, scope.mutated.Nodup → (f scope).mutated.Nodup) :
    ∀ depth' scope, (s.scopes.modify depth f).at? depth' = some scope → scope.mutated.Nodup := by
  intro depth' scope hscope
  rw [ScopeStack.at?_modify] at hscope
  split at hscope
  . rw [Option.map_eq_some_iff] at hscope
    rcases hscope with ⟨old, hold, rfl⟩
    apply hf
    exact h.unmarked depth' old hold
  . exact h.unmarked depth' scope hscope

end Open

theorem keep (h : Decides p all past current s) {m : Moment}
    (hassigned : ∀ around decl,
      AssignedIn p all (past ++ [m]) around decl ↔ AssignedIn p all past around decl)
    (hcaptured : ∀ around decl,
      CapturedIn p all (past ++ [m]) around decl ↔ CapturedIn p all past around decl)
    (hscopes : s'.scopes = s.scopes) (hboxes : s'.boxes = s.boxes)
    (hregistered : ∀ decl info, s'.registry.info? decl = some info →
      ∃ around, ⟨around, .register decl⟩ ∈ all ∧ info.depth = around.length + 1) :
    Decides p all (past ++ [m]) current s' := by
  constructor
  . rw [hscopes]
    exact h.depth
  . exact hregistered
  . rw [hscopes]
    exact ScopeStack.Marks.congr h.mutated hassigned
  . rw [hscopes]
    exact ScopeStack.Marks.congr h.captured hcaptured
  . rw [hboxes]
    exact h.boxed_append (fun around decl _ => hassigned around decl)
      (fun around decl _ => hcaptured around decl)
  . rw [hscopes]
    exact h.unmarked
  . rw [hboxes]
    exact h.once

theorem register (h : Decides p all past current s) (decl : DeclId)
    (hmem : ⟨current, .register decl⟩ ∈ all) :
    Decides p all (past ++ [⟨current, .register decl⟩]) current (s.register decl) := by
  refine h.keep ?_ ?_ rfl rfl ?_
  . intro around decl'
    apply assignedIn_append_of_ne
    simp
  . intro around decl'
    apply capturedIn_append_of_ne
    simp
  . intro decl' info hinfo
    unfold State.register at hinfo
    rw [Registry.info?_register] at hinfo
    split at hinfo
    . next heq =>
      injection hinfo with hinfo
      cases hold : s.registry.info? decl with
      | none =>
        rw [hold, Option.getD_none] at hinfo
        rw [heq, ← hinfo]
        exact ⟨current, hmem, h.depth⟩
      | some info' =>
        rw [hold, Option.getD_some] at hinfo
        rw [heq, ← hinfo]
        exact h.registered decl info' hold
    . exact h.registered decl' info hinfo

theorem registered_modify (h : Decides p all past current s) {decl : DeclId}
    {f : DeclInfo → DeclInfo} (hf : ∀ info, (f info).depth = info.depth) :
    ∀ decl' info, (s.registry.modify decl f).info? decl' = some info →
      ∃ around, ⟨around, .register decl'⟩ ∈ all ∧ info.depth = around.length + 1 := by
  intro decl' info hinfo
  rw [Registry.info?_modify] at hinfo
  split at hinfo
  . rw [Option.map_eq_some_iff] at hinfo
    rcases hinfo with ⟨info', hinfo', rfl⟩
    rw [hf]
    exact h.registered decl' info' hinfo'
  . exact h.registered decl' info hinfo

/-- A name in the open functions belongs to one of them, and its scope is found by the depth. -/
theorem exists_home (h : Decides p all past current s) (hall : Schedule order p all)
    (hscoped : p.WellScoped) {id : VarId} {decl : DeclId} {info : DeclInfo}
    (hid : p.candidate? id = some decl) (hinfo : s.registry.info? decl = some info)
    (hwithin : p.Within current (.var id)) :
    ∃ home, ⟨home, .register decl⟩ ∈ all ∧ info.depth = home.length + 1 ∧ home <:+ current := by
  rcases h.registered decl info hinfo with ⟨home, hhome, hdepth⟩
  exact ⟨home, hhome, hdepth, hall.home_suffix hscoped hid hhome hwithin⟩

theorem assign (h : Decides p all past current s) (hall : Schedule order p all)
    (hscoped : p.WellScoped) (ht : Tracks field p past s) {target : VarId}
    (hsplit : all = past ++ ⟨current, .assign target⟩ :: rest)
    (hs : s.assign target = .ok s') :
    Decides p all (past ++ [⟨current, .assign target⟩]) current s' := by
  have hcandidate := ht.candidate?_of_assign hall hsplit
  have hcaptured (around : List ExprId) (decl : DeclId) :
      CapturedIn p all (past ++ [⟨current, .assign target⟩]) around decl ↔
        CapturedIn p all past around decl := by
    apply capturedIn_append_of_ne
    simp
  rcases State.assign_ok hs with ⟨hnone, rfl⟩ | ⟨decl, info, loc, hsome, -, hinfo, -, -, rfl⟩
  . rw [hcandidate] at hnone
    exact h.keep (fun _ _ => assignedIn_append_of_none hnone) hcaptured rfl rfl h.registered
  . rw [hcandidate] at hsome
    have hwithin : p.Within current (.var target) := by
      apply hall.within_of_assign
      rw [hsplit]
      simp
    rcases h.exists_home hall hscoped hsome hinfo hwithin with ⟨home, hhome, hdepth, hsuffix⟩
    have hassigned (around : List ExprId) (decl' : DeclId) :
        AssignedIn p all (past ++ [⟨current, .assign target⟩]) around decl' ↔
          AssignedIn p all past around decl' ∨ (around = home ∧ decl' = decl) := by
      rw [assignedIn_append_assign, hsome, hall.register_mem_and hscoped hsome hhome]
    constructor
    . simp [h.depth]
    . rw [State.registry_noteAssignment]
      exact h.registered
    . rw [State.scopes_noteAssignment, hdepth]
      apply ScopeStack.Marks.modify_mark h.mutated hsuffix _ hassigned
      intro scope decl'
      apply FunctionScope.isMutated_markMutated
    . rw [State.scopes_noteAssignment, hdepth]
      apply ScopeStack.Marks.modify _ hsuffix
      . intro scope decl'
        apply FunctionScope.isCaptured_markMutated
      . exact ScopeStack.Marks.congr h.captured hcaptured
    . rw [State.boxes_noteAssignment]
      apply h.boxed_append
      . intro around decl' hclosed
        rw [hassigned, or_iff_left]
        rintro ⟨rfl, -⟩
        exact hclosed hsuffix
      . intro around decl' _
        exact hcaptured around decl'
    . rw [State.scopes_noteAssignment]
      apply h.unmarked_modify
      intro scope
      apply FunctionScope.nodup_markMutated
    . rw [State.boxes_noteAssignment]
      exact h.once

theorem capture (h : Decides p all past current s) (hall : Schedule order p all)
    (hscoped : p.WellScoped) {name : VarId} {decl : DeclId} {home : List ExprId}
    {f : DeclInfo → DeclInfo} (hf : ∀ info, (f info).depth = info.depth)
    (hname : p.candidate? name = some decl) (hhome : ⟨home, .register decl⟩ ∈ all)
    (hsuffix : home <:+ current) (hne : home ≠ []) (hlt : home.length < current.length)
    (hregistry : s'.registry = (s.record decl f).registry) (hboxes : s'.boxes = s.boxes)
    (hscopes : s'.scopes = s.scopes.modify (home.length + 1) (·.markCaptured decl)) :
    Decides p all (past ++ [⟨current, .reference name⟩]) current s' := by
  have hassigned (around : List ExprId) (decl : DeclId) :
      AssignedIn p all (past ++ [⟨current, .reference name⟩]) around decl ↔
        AssignedIn p all past around decl := by
    apply assignedIn_append_of_ne
    simp
  have hcaptured (around : List ExprId) (decl' : DeclId) :
      CapturedIn p all (past ++ [⟨current, .reference name⟩]) around decl' ↔
        CapturedIn p all past around decl' ∨ (around = home ∧ decl' = decl) := by
    rw [capturedIn_append_reference, hname, ← hall.register_mem_and hscoped hname hhome]
    apply or_congr_right
    constructor
    . rintro ⟨hmem, -, heq, -⟩
      exact ⟨hmem, heq⟩
    . intro hmem
      have hsame := (hall.register_mem_and hscoped hname hhome).mp hmem
      rw [hsame.1]
      exact ⟨hsame.1 ▸ hmem.1, hne, hmem.2, hlt⟩
  constructor
  . rw [hscopes]
    simp [h.depth]
  . rw [hregistry]
    exact h.registered_modify hf
  . rw [hscopes]
    apply ScopeStack.Marks.modify _ hsuffix
    . intro scope decl'
      apply FunctionScope.isMutated_markCaptured
    . exact ScopeStack.Marks.congr h.mutated hassigned
  . rw [hscopes]
    apply ScopeStack.Marks.modify_mark h.captured hsuffix _ hcaptured
    intro scope decl'
    apply FunctionScope.isCaptured_markCaptured
  . rw [hboxes]
    apply h.boxed_append
    . intro around decl' _
      exact hassigned around decl'
    . intro around decl' hclosed
      rw [hcaptured, or_iff_left]
      rintro ⟨rfl, -⟩
      exact hclosed hsuffix
  . rw [hscopes]
    apply h.unmarked_modify
    intro scope
    rw [FunctionScope.mutated_markCaptured]
    exact id
  . rw [hboxes]
    exact h.once

theorem reference (h : Decides p all past current s) (hall : Schedule order p all)
    (hscoped : p.WellScoped) (ht : Tracks field p past s) {name : VarId}
    (hsplit : all = past ++ ⟨current, .reference name⟩ :: rest)
    (hs : s.reference name = .ok s') :
    Decides p all (past ++ [⟨current, .reference name⟩]) current s' := by
  have hcandidate := ht.candidate?_of_reference hall hsplit
  have hassigned (around : List ExprId) (decl : DeclId) :
      AssignedIn p all (past ++ [⟨current, .reference name⟩]) around decl ↔
        AssignedIn p all past around decl := by
    apply assignedIn_append_of_ne
    simp
  rcases State.reference_ok hs with ⟨hnone, rfl⟩ | ⟨decl, info, hsome, hinfo, hs'⟩
  . rw [hcandidate] at hnone
    exact h.keep hassigned (fun _ _ => capturedIn_append_of_none hnone) rfl rfl h.registered
  . rw [hcandidate] at hsome
    have hdecl := candidate?_eq_some_iff.mp hsome
    have hwithin : p.Within current (.var name) := by
      rw [← hall.reference_mem_iff hdecl.1, hsplit]
      simp
    rcases h.exists_home hall hscoped hsome hinfo hwithin with ⟨home, hhome, hdepth, hsuffix⟩
    rw [hdepth, h.depth] at hs'
    rcases hs' with ⟨hdeeper, hpos, rfl⟩ | ⟨hnot, rfl⟩
    . have hne : home ≠ [] := by
        rintro rfl
        simp at hpos
      refine h.capture hall hscoped ?_ hsome hhome hsuffix hne (by omega) rfl rfl rfl
      intro info
      rfl
    . -- The use is in the declaring function itself, or the variable is one of a file.
      refine h.keep hassigned ?_ rfl rfl ?_
      . intro around decl'
        rw [capturedIn_append_reference, hsome, or_iff_left_iff_imp]
        rintro ⟨hmem, hne, heq, hlt⟩
        cases heq
        rw [hall.home_unique hscoped hdecl.2 hmem hhome] at hne hlt
        have := List.length_pos_of_ne_nil hne
        omega
      . apply h.registered_modify
        intro info
        rfl

theorem not_assignedIn_of_enter (hall : Schedule order p all) (hscoped : p.WellScoped)
    {func : ExprId} {decl : DeclId} (hsplit : all = past ++ ⟨func :: current, .enter⟩ :: rest) :
    ¬ AssignedIn p all past (func :: current) decl := by
  rintro ⟨hhome, gs, id, hmem, hid⟩
  have hwithin : p.Within gs (.var id) := by
    apply hall.within_of_assign
    rw [hsplit]
    exact List.mem_append_left _ hmem
  have hsuffix := hall.home_suffix hscoped hid hhome hwithin
  exact hall.not_mem_around_of_enter hsplit _ hmem (hsuffix.subset List.mem_cons_self)

theorem not_capturedIn_of_enter (hall : Schedule order p all) (hscoped : p.WellScoped)
    {func : ExprId} {decl : DeclId} (hsplit : all = past ++ ⟨func :: current, .enter⟩ :: rest) :
    ¬ CapturedIn p all past (func :: current) decl := by
  rintro ⟨hhome, -, gs, id, hmem, hid, -⟩
  have hwithin : p.Within gs (.var id) := by
    rw [← hall.reference_mem_iff (candidate?_eq_some_iff.mp hid).1, hsplit]
    exact List.mem_append_left _ hmem
  have hsuffix := hall.home_suffix hscoped hid hhome hwithin
  exact hall.not_mem_around_of_enter hsplit _ hmem (hsuffix.subset List.mem_cons_self)

theorem enter (h : Decides p all past current s) (hall : Schedule order p all)
    (hscoped : p.WellScoped) {func : ExprId}
    (hsplit : all = past ++ ⟨func :: current, .enter⟩ :: rest) :
    Decides p all (past ++ [⟨func :: current, .enter⟩]) (func :: current) s.enter := by
  have hassigned (around : List ExprId) (decl : DeclId) :
      AssignedIn p all (past ++ [⟨func :: current, .enter⟩]) around decl ↔
        AssignedIn p all past around decl := by
    apply assignedIn_append_of_ne
    simp
  have hcaptured (around : List ExprId) (decl : DeclId) :
      CapturedIn p all (past ++ [⟨func :: current, .enter⟩]) around decl ↔
        CapturedIn p all past around decl := by
    apply capturedIn_append_of_ne
    simp
  constructor
  . have := ScopeStack.depth_enter s.scopes
    rw [h.depth] at this
    exact this
  . exact h.registered
  . apply ScopeStack.Marks.enter _ h.depth FunctionScope.isMutated_empty
    . intro decl
      rw [hassigned]
      exact not_assignedIn_of_enter hall hscoped hsplit
    . exact ScopeStack.Marks.congr h.mutated hassigned
  . apply ScopeStack.Marks.enter _ h.depth FunctionScope.isCaptured_empty
    . intro decl
      rw [hcaptured]
      exact not_capturedIn_of_enter hall hscoped hsplit
    . exact ScopeStack.Marks.congr h.captured hcaptured
  . intro decl
    refine (h.boxed decl).trans ?_
    simp only [hassigned, hcaptured]
    constructor
    . rintro ⟨around, hclosed, hassigned, hcaptured⟩
      refine ⟨around, ?_, hassigned, hcaptured⟩
      -- Nothing has been assigned in the function that begins, so it is not a closed one.
      rw [List.suffix_cons_iff, not_or]
      refine ⟨?_, hclosed⟩
      rintro rfl
      exact not_assignedIn_of_enter hall hscoped hsplit hassigned
    . rintro ⟨around, hclosed, hassigned, hcaptured⟩
      refine ⟨around, ?_, hassigned, hcaptured⟩
      intro haround
      exact hclosed (haround.trans (List.suffix_cons func current))
  . intro depth scope hscope
    change s.scopes.enter.at? depth = some scope at hscope
    rw [ScopeStack.at?_enter] at hscope
    split at hscope
    . cases hscope
      exact List.nodup_nil
    . exact h.unmarked depth scope hscope
  . exact h.once

theorem mem_boxable_iff {func : ExprId} (h : Decides p all past (func :: current) s)
    {scope : FunctionScope} {stack : ScopeStack} (hstack : s.scopes.exit? = some (scope, stack))
    (decl : DeclId) : decl ∈ scope.boxable ↔
      AssignedIn p all past (func :: current) decl ∧
        CapturedIn p all past (func :: current) decl := by
  have htop := ScopeStack.at?_of_exit? hstack
  rw [h.depth] at htop
  rw [FunctionScope.mem_boxable, h.mutated _ scope decl (List.suffix_refl _) htop,
    h.captured _ scope decl (List.suffix_refl _) htop]

theorem leave {func : ExprId} (h : Decides p all past (func :: current) s)
    (hall : Schedule order p all) (hscoped : p.WellScoped) {s₁ : State} {scope : FunctionScope}
    (hexit : s.exit = .ok (scope, s₁))
    (hboxes : scope.boxable.forM (Pass.box field) s₁ = .ok () s') :
    Decides p all (past ++ [⟨func :: current, .leave⟩]) current s' := by
  have hassigned (around : List ExprId) (decl : DeclId) :
      AssignedIn p all (past ++ [⟨func :: current, .leave⟩]) around decl ↔
        AssignedIn p all past around decl := by
    apply assignedIn_append_of_ne
    simp
  have hcaptured (around : List ExprId) (decl : DeclId) :
      CapturedIn p all (past ++ [⟨func :: current, .leave⟩]) around decl ↔
        CapturedIn p all past around decl := by
    apply capturedIn_append_of_ne
    simp
  rcases State.exit_ok hexit with ⟨stack, hstack, rfl⟩
  rcases Pass.forM_box_ok hboxes with ⟨boxes, hdecls, -, hlist, -, hscopes, hregistry, -⟩
  dsimp only at hlist hscopes hregistry
  have hdepth := ScopeStack.depth_of_exit? hstack
  have hboxable := h.mem_boxable_iff hstack
  rw [h.depth] at hdepth
  constructor
  . rw [hscopes]
    rw [List.length_cons] at hdepth
    omega
  . rw [hregistry]
    exact h.registered
  . rw [hscopes]
    exact ScopeStack.Marks.exit (ScopeStack.Marks.congr h.mutated hassigned) hstack
  . rw [hscopes]
    exact ScopeStack.Marks.exit (ScopeStack.Marks.congr h.captured hcaptured) hstack
  . intro decl
    rw [hlist, List.map_append, List.mem_append, h.boxed, hdecls, hboxable]
    simp only [hassigned, hcaptured]
    -- The functions that are closed now are the ones before, and the one that has been left.
    constructor
    . rintro (⟨around, hclosed, hboth⟩ | hboth)
      . refine ⟨around, ?_, hboth⟩
        intro haround
        exact hclosed (haround.trans (List.suffix_cons _ _))
      . refine ⟨func :: current, ?_, hboth⟩
        intro haround
        have := haround.length_le
        rw [List.length_cons] at this
        omega
    . rintro ⟨around, hclosed, hboth⟩
      by_cases hopen : around <:+ func :: current
      . rw [List.suffix_cons_iff] at hopen
        rcases hopen with rfl | hopen
        . exact .inr hboth
        . exact absurd hopen hclosed
      . exact .inl ⟨around, hopen, hboth⟩
  . intro depth inner hinner
    rw [hscopes, ScopeStack.at?_exit? hstack] at hinner
    split at hinner
    . exact h.unmarked depth inner hinner
    . cases hinner
  . rw [hlist, List.map_append, hdecls, List.nodup_append]
    have hunmarked := h.unmarked _ scope (ScopeStack.at?_of_exit? hstack)
    refine ⟨h.once, FunctionScope.nodup_boxable hunmarked, ?_⟩
    -- A variable that was boxed before belongs to another function.
    rintro decl hold decl' hnew rfl
    rw [h.boxed] at hold
    rw [hboxable] at hnew
    rcases hold with ⟨around, hclosed, hassigned, -⟩
    have hsame := hall.home_unique hscoped hassigned.unexported hassigned.1 hnew.1.1
    rw [hsame] at hclosed
    exact hclosed (List.suffix_refl _)

theorem tick {m : Moment} {final : List ExprId} (h : Decides p all past current s)
    (hall : Schedule order p all) (hscoped : p.WellScoped) (ht : Tracks field p past s)
    (hsplit : all = past ++ m :: rest) (hflow : Follows current [m] final)
    (hs : Tick field m.action s s') : Decides p all (past ++ [m]) final s' := by
  cases hflow with
  | enter hnil =>
    cases hnil
    cases hs
    exact h.enter hall hscoped hsplit
  | leave hnil =>
    cases hnil
    cases hs with
    | leave hexit hboxes => exact h.leave hall hscoped hexit hboxes
  | @step action _ _ _ henter hleave hnil =>
    cases hnil
    cases hs with
    | visit node =>
      refine h.keep ?_ ?_ rfl rfl h.registered
      . intro around decl
        apply assignedIn_append_of_ne
        simp
      . intro around decl
        apply capturedIn_append_of_ne
        simp
    | register decl =>
      apply h.register
      rw [hsplit]
      simp
    | initializer hs =>
      rcases State.setInitializer_ok hs with ⟨-, rfl⟩
      refine h.keep ?_ ?_ rfl rfl ?_
      . intro around decl
        apply assignedIn_append_of_ne
        simp
      . intro around decl
        apply capturedIn_append_of_ne
        simp
      . apply h.registered_modify
        intro info
        rfl
    | assign hs => exact h.assign hall hscoped ht hsplit hs
    | reference hs => exact h.reference hall hscoped ht hsplit hs
    | enter => exact absurd rfl henter
    | leave => exact absurd rfl hleave

/-- What every round preserves, given what the state knows about the past, holds after a run. -/
theorem play_induct (hall : Schedule order p all) (hscoped : p.WellScoped)
    {P : List Moment → State → Prop} (hstart : P [] (.start p))
    (hP : ∀ {past m rest current final s s'}, all = past ++ m :: rest →
      Follows current [m] final → Tracks field p past s → Decides p all past current s →
      P past s → Tick field m.action s s' → P (past ++ [m]) s')
    (h : Pass.play field all (.start p) = .ok () s) :
    Tracks field p all s ∧ Decides p all all [] s ∧ P all s := by
  have hinvariant : Tracks field p ([] ++ all) s ∧ P ([] ++ all) s ∧
      ∀ current, Follows [] ([] ++ all) current → Decides p all ([] ++ all) current s := by
    apply Pass.play_induct (P := fun past s => Tracks field p past s ∧ P past s ∧
      ∀ current, Follows [] past current → Decides p all past current s) _ _ h
    . refine ⟨.start field p, hstart, ?_⟩
      intro current hflow
      cases hflow
      exact .start p all
    . rintro before m after s s' hsplit ⟨htracks, hbefore, hdecides⟩ hs
      -- The moments of the whole run say which functions are open before and after the round.
      have hflow := hall.follows
      rw [hsplit, ← List.singleton_append, ← List.append_assoc] at hflow
      rcases hflow.of_append with ⟨_, hflow, -⟩
      rcases hflow.of_append with ⟨current, hcurrent, hm⟩
      refine ⟨htracks.tick hall hsplit hs, ?_, ?_⟩
      . exact hP hsplit hm htracks (hdecides current hcurrent) hbefore hs
      . intro final hflow
        rcases hflow.of_append with ⟨current, hcurrent, hfinal⟩
        exact (hdecides current hcurrent).tick hall hscoped htracks hsplit hfinal hs
  exact ⟨hinvariant.1, hinvariant.2.2 [] hall.follows, hinvariant.2.1⟩

end Decides

variable {order : LoopOrder} {p : Program} {all : List Moment}

/-- A use is captured if and only if it is inside of a function inside of the declaring one. -/
theorem capturedIn_iff (hall : Schedule order p all) (hscoped : p.WellScoped) {func : ExprId}
    {outer : List ExprId} {decl : DeclId} (hhome : ⟨func :: outer, .register decl⟩ ∈ all)
    (hdecl : p.Unexported decl) :
    CapturedIn p all all (func :: outer) decl ↔ p.CapturedFrom decl func := by
  constructor
  . rintro ⟨-, -, gs, id, hmem, hid, hlt⟩
    have hnamed := (candidate?_eq_some_iff.mp hid).1
    have hwithin := (hall.reference_mem_iff hnamed).mp hmem
    have hsuffix := hall.home_suffix hscoped hid hhome hwithin
    cases gs with
    | nil => simp at hlt
    | cons inner rest =>
      refine ⟨inner, rest, id, hwithin, ?_, hnamed⟩
      rw [List.suffix_cons_iff] at hsuffix
      rcases hsuffix with heq | hsuffix
      . rw [heq] at hlt
        omega
      . exact hsuffix.subset List.mem_cons_self
  . rintro ⟨inner, rest, id, hwithin, hfunc, hnamed⟩
    have hmem := (hall.reference_mem_iff hnamed).mpr hwithin
    refine ⟨hhome, by simp, _, id, hmem, candidate?_eq_some_iff.mpr ⟨hnamed, hdecl⟩, ?_⟩
    have hsuffix := hall.suffix_of_mem hhome (List.suffix_refl _) hmem (List.suffix_cons inner rest)
      hfunc
    have hle := hsuffix.length_le
    have hlength : (inner :: rest).length = rest.length + 1 := List.length_cons
    omega

/--
If the variables of a program with scopes can be boxed, exactly the shared ones are, each of them
once: the variables of functions that are assigned, and that are used in a function inside.
-/
theorem boxed_iff_shared (options : Options) (p : Program) (hvalid : p.Valid)
    (hscoped : p.WellScoped) (boxes : Array Box) (hok : (run options p).verdict = .ok boxes) :
    (∀ decl, decl ∈ boxes.toList.map Box.decl ↔ p.Shared decl) ∧
      (boxes.toList.map Box.decl).Nodup := by
  rcases exists_schedule options.order hvalid with ⟨all, hall⟩
  rcases play_of_run_ok hall hvalid hok with ⟨s, hplay, rfl, -⟩
  have hdecides : Decides p all all [] s :=
    (Decides.play_induct (P := fun _ _ => True) hall hscoped trivial (fun _ _ _ _ _ _ => trivial)
      hplay).2.1
  refine ⟨?_, hdecides.once⟩
  intro decl
  rw [hdecides.boxed]
  constructor
  . rintro ⟨around, -, hassigned, hcaptured⟩
    have hdecl := hassigned.unexported
    cases around with
    | nil => exact absurd rfl hcaptured.2.1
    | cons func outer =>
      have hbound := hall.register_mem_iff.mp hassigned.1
      rcases hbound with ⟨place, position, hbound⟩
      rw [capturedIn_iff hall hscoped hassigned.1 hdecl] at hcaptured
      refine ⟨hdecl, ?_, func, outer, place, position, hbound, hcaptured⟩
      rw [hall.assigned_iff]
      rcases hassigned with ⟨-, gs, id, hmem, hid⟩
      exact ⟨gs, id, hmem, (candidate?_eq_some_iff.mp hid).1⟩
  . rintro ⟨hdecl, hassigned, func, outer, place, position, hbound, hcaptured⟩
    have hhome := hall.register_mem_iff.mpr ⟨place, position, hbound⟩
    rw [hall.assigned_iff] at hassigned
    rcases hassigned with ⟨gs, id, hmem, hnamed⟩
    refine ⟨func :: outer, by simp, ?_, ?_⟩
    . exact ⟨hhome, gs, id, hmem, candidate?_eq_some_iff.mpr ⟨hnamed, hdecl⟩⟩
    . rw [capturedIn_iff hall hscoped hhome hdecl]
      exact hcaptured

/--
A function with a variable `x`, a function inside that assigns its parameter `y` to `x`, and another
one that returns `x`.
-/
def counter : Program :=
  { files := #[]
    items := #[.stats .dummy [⟨0⟩]]
    decls := #[⟨"f", none, .dummy, .any, false⟩, ⟨"x", none, .dummy, .integer, false⟩,
      ⟨"set", none, .dummy, .any, false⟩, ⟨"y", none, .dummy, .integer, false⟩]
    stats := #[.decl .dummy [⟨0⟩] [⟨0⟩], .decl .dummy [⟨1⟩] [⟨1⟩], .decl .dummy [⟨2⟩] [⟨2⟩],
      .assign .dummy [⟨0⟩] [⟨3⟩], .ret .dummy [⟨4⟩], .ret .dummy [⟨5⟩]]
    exprs := #[⟨.dummy, .any, .lambda [] ⟨[⟨1⟩, ⟨2⟩, ⟨4⟩]⟩⟩, ⟨.dummy, .integer, .integer 10⟩,
      ⟨.dummy, .any, .lambda [⟨3⟩] ⟨[⟨3⟩]⟩⟩, ⟨.dummy, .integer, .var ⟨1⟩⟩,
      ⟨.dummy, .any, .lambda [] ⟨[⟨5⟩]⟩⟩, ⟨.dummy, .integer, .var ⟨2⟩⟩]
    vars := #[⟨.dummy, .integer, .name "x" (.variable ⟨1⟩)⟩,
      ⟨.dummy, .integer, .name "y" (.variable ⟨3⟩)⟩,
      ⟨.dummy, .integer, .name "x" (.variable ⟨1⟩)⟩] }

/-- The nodes of the function, each with the function literals around it. -/
def counterNodes : List (List ExprId × Node) :=
  [([], .stat ⟨0⟩), ([], .expr ⟨0⟩), ([⟨0⟩], .stat ⟨1⟩), ([⟨0⟩], .expr ⟨1⟩), ([⟨0⟩], .stat ⟨2⟩),
    ([⟨0⟩], .expr ⟨2⟩), ([⟨2⟩, ⟨0⟩], .stat ⟨3⟩), ([⟨2⟩, ⟨0⟩], .var ⟨0⟩), ([⟨2⟩, ⟨0⟩], .expr ⟨3⟩),
    ([⟨2⟩, ⟨0⟩], .var ⟨1⟩), ([⟨0⟩], .stat ⟨4⟩), ([⟨0⟩], .expr ⟨4⟩), ([⟨4⟩, ⟨0⟩], .stat ⟨5⟩),
    ([⟨4⟩, ⟨0⟩], .expr ⟨5⟩), ([⟨4⟩, ⟨0⟩], .var ⟨2⟩)]

theorem wellScoped_counter : counter.WellScoped :=
  @wellScoped_of_nodes counter counterNodes (by decide) (by decide) (by decide) (by decide)

/-- Only `x` is boxed. -/
theorem boxed_iff_shared_counter :
    counter.Valid ∧ counter.WellScoped ∧ ∃ boxes, (run default counter).verdict = .ok boxes ∧
      boxes.toList.map Box.decl = [⟨1⟩] ∧ ∀ decl, decl = ⟨1⟩ ↔ counter.Shared decl := by
  have hvalid : counter.Valid := by decide +kernel
  have hboxes : (run default counter).verdict.toOption.map (·.toList.map Box.decl) =
      some [⟨1⟩] := by decide +kernel
  cases hok : (run default counter).verdict with
  | error stop =>
    rw [hok] at hboxes
    cases hboxes
  | ok boxes =>
    rw [hok] at hboxes
    injection hboxes with hdecls
    change boxes.toList.map Box.decl = [⟨1⟩] at hdecls
    have hiff := (boxed_iff_shared default counter hvalid wellScoped_counter boxes hok).1
    refine ⟨hvalid, wellScoped_counter, boxes, rfl, hdecls, ?_⟩
    intro decl
    rw [← hiff, hdecls, List.mem_singleton]

end Upvalue.Boxing

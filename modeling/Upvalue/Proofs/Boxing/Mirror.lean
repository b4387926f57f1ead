import Upvalue.Proofs.Boxing.Refine
import Upvalue.Proofs.Boxing.Stack
import Upvalue.Proofs.Boxing.Track

/-!
This module contains the simulation of a run by a run over the program that it leaves behind. Both
runs agree on the depths and on the captured variables. The second run marks a variable as assigned
only if the name that is assigned was not rewritten, so it never marks a variable that was boxed.
-/

namespace Upvalue.Boxing

open Program

/--
A scope of the second run has the same captured variables as the one of the first run. Its assigned
variables are assigned in the first run too, by names that the second program still has.
-/
structure Echoes (p q : Program) (past : List Moment) (scope scope' : FunctionScope) : Prop where
  captured : ∀ decl, scope'.isCaptured decl = scope.isCaptured decl
  mutated : ∀ decl, scope'.isMutated decl = true → scope.isMutated decl = true ∧
    ∃ around id, ⟨around, .assign id⟩ ∈ past ∧ p.candidate? id = some decl ∧
      q.named? id = some decl

/-- The state of the second run when the first run is in a state that it leads to the end. -/
structure Mirrors (p q : Program) (past : List Moment) (s t : State) : Prop where
  program : t.program = q
  boxes : t.boxes = #[]
  depth : t.scopes.depth = s.scopes.depth
  registry : ∀ decl, (t.registry.info? decl).map DeclInfo.depth =
    (s.registry.info? decl).map DeclInfo.depth
  scopes : ∀ depth scope', t.scopes.at? depth = some scope' →
    ∃ scope, s.scopes.at? depth = some scope ∧ Echoes p q past scope scope'

variable {order : LoopOrder} {field field' : String} {p q : Program}
variable {all past rest : List Moment} {moved : VarId → VarId}

namespace Echoes

variable {scope scope' : FunctionScope}

theorem empty : Echoes p q past .empty .empty := by
  constructor
  . intro decl
    rfl
  . intro decl hmutated
    cases hmutated

theorem extend (h : Echoes p q past scope scope') (m : Moment) :
    Echoes p q (past ++ [m]) scope scope' := by
  constructor
  . exact h.captured
  . intro decl hmutated
    rcases h.mutated decl hmutated with ⟨hfirst, around, id, hmem, hid⟩
    exact ⟨hfirst, around, id, List.mem_append_left _ hmem, hid⟩

theorem markCaptured (h : Echoes p q past scope scope') (decl : DeclId) :
    Echoes p q past (scope.markCaptured decl) (scope'.markCaptured decl) := by
  constructor
  . intro decl'
    rw [FunctionScope.isCaptured_markCaptured, FunctionScope.isCaptured_markCaptured, h.captured]
  . intro decl' hmutated
    rw [FunctionScope.isMutated_markCaptured] at hmutated ⊢
    exact h.mutated decl' hmutated

theorem markMutated_first (h : Echoes p q past scope scope') (decl : DeclId) :
    Echoes p q past (scope.markMutated decl) scope' := by
  constructor
  . intro decl'
    rw [FunctionScope.isCaptured_markMutated, h.captured]
  . intro decl' hmutated
    rcases h.mutated decl' hmutated with ⟨hfirst, hid⟩
    rw [FunctionScope.isMutated_markMutated, hfirst, Bool.or_true]
    exact ⟨rfl, hid⟩

theorem markMutated (h : Echoes p q past scope scope') {around : List ExprId} {id : VarId}
    {decl : DeclId} (hmem : ⟨around, .assign id⟩ ∈ past) (hid : p.candidate? id = some decl)
    (hnamed : q.named? id = some decl) :
    Echoes p q past (scope.markMutated decl) (scope'.markMutated decl) := by
  constructor
  . intro decl'
    rw [FunctionScope.isCaptured_markMutated, FunctionScope.isCaptured_markMutated, h.captured]
  . intro decl' hmutated
    rw [FunctionScope.isMutated_markMutated] at hmutated ⊢
    by_cases heq : decl' = decl
    . subst heq
      simp only [BEq.rfl, Bool.true_or, true_and]
      exact ⟨around, id, hmem, hid, hnamed⟩
    . have hbeq : (decl' == decl) = false := by simpa using heq
      rw [hbeq, Bool.false_or] at hmutated ⊢
      exact h.mutated decl' hmutated

/-- The second run has nothing to box: the names that were assigned have been rewritten. -/
theorem boxable_eq_nil {s : State} (h : Echoes p q past scope scope')
    (hall : Schedule order p all) (htracks : Tracks field p past s) {around : List ExprId}
    (hsplit : all = past ++ ⟨around, .leave⟩ :: rest) {boxes : List Box}
    (hdecls : boxes.map Box.decl = scope.boxable)
    (hboxes : ∀ b ∈ boxes, ∃ info, s.registry.info? b.decl = some info ∧
      info.references = b.references)
    (hrewritten : ∀ b ∈ boxes, ∀ id ∈ b.references, q.named? id = none) :
    scope'.boxable = [] := by
  rw [List.eq_nil_iff_forall_not_mem]
  intro decl hdecl
  rw [FunctionScope.mem_boxable, h.captured] at hdecl
  -- The variable would be marked in the first run, too, and be boxed with all of its names.
  rcases h.mutated decl hdecl.1 with ⟨hmutated, around', id, hmem, hid, hnamed⟩
  have hboxable := FunctionScope.mem_boxable.mpr ⟨hmutated, hdecl.2⟩
  rw [← hdecls, List.mem_map] at hboxable
  rcases hboxable with ⟨b, hb, rfl⟩
  rcases hboxes b hb with ⟨info, hinfo, hreferences⟩
  have hused := hall.used_of_assign (candidate?_eq_some_iff.mp hid).1 hsplit hmem
  have hrecorded : id ∈ s.recorded b.decl := by
    rw [htracks.references, mem_referencesIn]
    exact ⟨⟨around', hused⟩, hid⟩
  rw [recorded_of_info? hinfo, hreferences, Array.mem_toList_iff] at hrecorded
  rw [hrewritten b hb id hrecorded] at hnamed
  cases hnamed

end Echoes

namespace Mirrors

variable {s s' t t' : State}

theorem start (p q : Program) : Mirrors p q [] (.start p) (.start q) := by
  constructor
  . rfl
  . rfl
  . rfl
  . intro decl
    rfl
  . intro depth scope' hscope
    change ScopeStack.new.at? depth = some scope' at hscope
    refine ⟨scope', hscope, ?_⟩
    rw [ScopeStack.at?_new] at hscope
    split at hscope
    . cases hscope
      exact .empty
    . cases hscope

theorem exists_info (h : Mirrors p q past s t) {decl : DeclId} {info : DeclInfo}
    (hinfo : s.registry.info? decl = some info) :
    ∃ info', t.registry.info? decl = some info' ∧ info'.depth = info.depth := by
  have := h.registry decl
  rw [hinfo, Option.map_some, Option.map_eq_some_iff] at this
  exact this

theorem keep (h : Mirrors p q past s t) (m : Moment) (hprogram : t'.program = t.program)
    (hboxes : t'.boxes = t.boxes) (hscopes : s'.scopes = s.scopes) (hscopes' : t'.scopes = t.scopes)
    (hregistry : ∀ decl, (t'.registry.info? decl).map DeclInfo.depth =
      (s'.registry.info? decl).map DeclInfo.depth) : Mirrors p q (past ++ [m]) s' t' := by
  constructor
  . rw [hprogram, h.program]
  . rw [hboxes, h.boxes]
  . rw [hscopes, hscopes', h.depth]
  . exact hregistry
  . intro depth scope' hscope
    rw [hscopes'] at hscope
    rw [hscopes]
    rcases h.scopes depth scope' hscope with ⟨scope, hscope, hechoes⟩
    exact ⟨scope, hscope, hechoes.extend m⟩

theorem registry_modify (h : Mirrors p q past s t) {decl : DeclId} {f f' : DeclInfo → DeclInfo}
    (hf : ∀ info, (f info).depth = info.depth) (hf' : ∀ info, (f' info).depth = info.depth) :
    ∀ decl', ((t.registry.modify decl f').info? decl').map DeclInfo.depth =
      ((s.registry.modify decl f).info? decl').map DeclInfo.depth := by
  intro decl'
  rw [Registry.info?_modify, Registry.info?_modify]
  split
  . rw [Option.map_map, Option.map_map]
    have hcomp : DeclInfo.depth ∘ f = DeclInfo.depth := funext hf
    have hcomp' : DeclInfo.depth ∘ f' = DeclInfo.depth := funext hf'
    rw [hcomp, hcomp', h.registry]
  . exact h.registry decl'

theorem register (h : Mirrors p q past s t) (m : Moment) (decl : DeclId) :
    Mirrors p q (past ++ [m]) (s.register decl) (t.register decl) := by
  refine h.keep m rfl rfl rfl rfl ?_
  intro decl'
  unfold State.register
  rw [Registry.info?_register, Registry.info?_register]
  split
  . have hdepth := h.registry decl
    cases hs : s.registry.info? decl with
    | none =>
      rw [hs, Option.map_none, Option.map_eq_none_iff] at hdepth
      rw [hdepth]
      simp [h.depth]
    | some info =>
      rcases h.exists_info hs with ⟨info', ht, heq⟩
      rw [ht]
      simp [heq]
  . exact h.registry decl'

theorem setInitializer (h : Mirrors p q past s t) (m : Moment) {decl : DeclId} {value : ExprId}
    (hs : s.setInitializer decl value = .ok s') :
    ∃ t', t.setInitializer decl value = .ok t' ∧ Mirrors p q (past ++ [m]) s' t' := by
  rcases State.setInitializer_ok hs with ⟨⟨info, hinfo⟩, rfl⟩
  rcases h.exists_info hinfo with ⟨info', hinfo', -⟩
  refine ⟨_, State.setInitializer_of_info? value hinfo', ?_⟩
  refine h.keep m rfl rfl rfl rfl ?_
  apply h.registry_modify
  . intro info
    rfl
  . intro info
    rfl

theorem scopes_modify (h : Mirrors p q past s t) (m : Moment) (depth : Nat)
    {f f' : FunctionScope → FunctionScope}
    (hf : ∀ scope scope', Echoes p q (past ++ [m]) scope scope' →
      Echoes p q (past ++ [m]) (f scope) (f' scope')) :
    ∀ d scope', (t.scopes.modify depth f').at? d = some scope' →
      ∃ scope, (s.scopes.modify depth f).at? d = some scope ∧
        Echoes p q (past ++ [m]) scope scope' := by
  intro d scope' hscope
  rw [ScopeStack.at?_modify] at hscope ⊢
  split at hscope
  . rw [Option.map_eq_some_iff] at hscope
    rcases hscope with ⟨old', hold', rfl⟩
    rcases h.scopes d old' hold' with ⟨old, hold, hechoes⟩
    refine ⟨f old, ?_, hf old old' (hechoes.extend m)⟩
    rw [hold, Option.map_some]
    rw [if_pos (by assumption)]
  . next hne =>
    rcases h.scopes d scope' hscope with ⟨scope, hscope, hechoes⟩
    refine ⟨scope, ?_, hechoes.extend m⟩
    rw [if_neg hne, hscope]

theorem scopes_modify_first (h : Mirrors p q past s t) (m : Moment) (depth : Nat)
    {f : FunctionScope → FunctionScope}
    (hf : ∀ scope scope', Echoes p q (past ++ [m]) scope scope' →
      Echoes p q (past ++ [m]) (f scope) scope') :
    ∀ d scope', t.scopes.at? d = some scope' →
      ∃ scope, (s.scopes.modify depth f).at? d = some scope ∧
        Echoes p q (past ++ [m]) scope scope' := by
  intro d scope' hscope
  rcases h.scopes d scope' hscope with ⟨scope, hscope, hechoes⟩
  rw [ScopeStack.at?_modify, hscope]
  split
  . exact ⟨f scope, rfl, hf scope scope' (hechoes.extend m)⟩
  . exact ⟨scope, rfl, hechoes.extend m⟩

theorem scopes_exit (h : Mirrors p q past s t) (m : Moment) {scope scope' : FunctionScope}
    {stack stack' : ScopeStack} (hexit : s.scopes.exit? = some (scope, stack))
    (hexit' : t.scopes.exit? = some (scope', stack')) :
    ∀ d inner', stack'.at? d = some inner' →
      ∃ inner, stack.at? d = some inner ∧ Echoes p q (past ++ [m]) inner inner' := by
  intro d inner' hinner'
  rw [ScopeStack.at?_exit? hexit', h.depth] at hinner'
  rw [ScopeStack.at?_exit? hexit]
  split at hinner'
  . next hlt =>
    rw [if_pos hlt]
    rcases h.scopes d inner' hinner' with ⟨inner, hinner, hechoes⟩
    exact ⟨inner, hinner, hechoes.extend m⟩
  . cases hinner'

/-- The second run leaves a function when the first one does. -/
theorem exists_exit (h : Mirrors p q past s t) {scope : FunctionScope} {stack : ScopeStack}
    (hexit : s.scopes.exit? = some (scope, stack)) :
    ∃ scope' stack', t.scopes.exit? = some (scope', stack') ∧ stack'.depth = stack.depth ∧
      Echoes p q past scope scope' := by
  have hdepth := ScopeStack.depth_of_exit? hexit
  cases hexit' : t.scopes.exit? with
  | none =>
    have hpos := ScopeStack.depth_pos stack
    rw [ScopeStack.exit?_eq_none_iff, h.depth] at hexit'
    omega
  | some result =>
    rcases result with ⟨scope', stack'⟩
    have hdepth' := ScopeStack.depth_of_exit? hexit'
    rw [h.depth] at hdepth'
    rcases h.scopes _ scope' (ScopeStack.at?_of_exit? hexit') with ⟨top, htop, hechoes⟩
    rw [h.depth, ScopeStack.at?_of_exit? hexit] at htop
    injection htop with htop
    subst htop
    exact ⟨scope', stack', rfl, by omega, hechoes⟩

section Names

theorem boxable?_eq (h : Mirrors p q past s t) (hrange : q.InRange) {id : VarId} {var : Var}
    (hvar : q.var? id = some var) : t.boxable? id = .ok (q.candidate? id) := by
  have hprogram := h.program
  rw [← hprogram] at hvar hrange ⊢
  apply State.boxable?_of_var? hvar
  intro decl hdecl
  apply hrange.exists_decl? hvar hdecl

theorem candidate?_moved (hrefines : Refines order p q moved)
    (hexports : ∀ decl, q.Unexported decl ↔ p.Unexported decl) {id : VarId} {var : Var}
    (hvar : p.var? id = some var) : q.candidate? (moved id) = p.candidate? id := by
  apply Option.ext
  intro decl
  rw [candidate?_eq_some_iff, candidate?_eq_some_iff, hrefines.named?_moved hvar, hexports]

theorem candidate?_of_candidate? (hrefines : Refines order p q moved)
    (hexports : ∀ decl, q.Unexported decl ↔ p.Unexported decl) {id : VarId} {var : Var}
    {decl : DeclId} (hvar : p.var? id = some var) (hid : q.candidate? id = some decl) :
    p.candidate? id = some decl := by
  rw [candidate?_eq_some_iff] at hid ⊢
  exact ⟨hrefines.named?_of_named? hvar hid.1, (hexports decl).mp hid.2⟩

end Names

section Rounds

/-- The name was rewritten, so that only the first run marks its variable. -/
theorem markMutated_first (h : Mirrors p q past s t) (m : Moment) (decl : DeclId) (depth : Nat)
    (loc : Span) :
    Mirrors p q (past ++ [m])
      ({ s with scopes := s.scopes.modify depth (·.markMutated decl) }.noteAssignment decl loc)
      t := by
  refine ⟨h.program, h.boxes, ?_, ?_, ?_⟩
  . rw [State.scopes_noteAssignment, ScopeStack.depth_modify, h.depth]
  . rw [State.registry_noteAssignment]
    exact h.registry
  . rw [State.scopes_noteAssignment]
    apply h.scopes_modify_first
    intro scope scope' hechoes
    exact hechoes.markMutated_first decl

theorem markMutated (h : Mirrors p q past s t) {around : List ExprId} {target : VarId}
    {decl : DeclId} (depth : Nat) (loc loc' : Span) (hid : p.candidate? target = some decl)
    (hnamed : q.named? target = some decl) :
    Mirrors p q (past ++ [⟨around, .assign target⟩])
      ({ s with scopes := s.scopes.modify depth (·.markMutated decl) }.noteAssignment decl loc)
      ({ t with scopes := t.scopes.modify depth (·.markMutated decl) }.noteAssignment decl
        loc') := by
  refine ⟨?_, ?_, ?_, ?_, ?_⟩
  . rw [State.program_noteAssignment]
    exact h.program
  . rw [State.boxes_noteAssignment]
    exact h.boxes
  . rw [State.scopes_noteAssignment, State.scopes_noteAssignment, ScopeStack.depth_modify,
      ScopeStack.depth_modify, h.depth]
  . rw [State.registry_noteAssignment, State.registry_noteAssignment]
    exact h.registry
  . rw [State.scopes_noteAssignment, State.scopes_noteAssignment]
    apply h.scopes_modify
    intro scope scope' hechoes
    have hmem : (⟨around, .assign target⟩ : Moment) ∈ past ++ [⟨around, .assign target⟩] := by
      simp
    exact hechoes.markMutated hmem hid hnamed

theorem assign (h : Mirrors p q past s t) (hall : Schedule order p all)
    (htracks : Tracks field p past s) (hrefines : Refines order p q moved)
    (hexports : ∀ decl, q.Unexported decl ↔ p.Unexported decl) (hrange : q.InRange)
    {around : List ExprId} {target : VarId}
    (hsplit : all = past ++ ⟨around, .assign target⟩ :: rest)
    (hs : s.assign target = .ok s') :
    ∃ t', t.assign target = .ok t' ∧
      Mirrors p q (past ++ [⟨around, .assign target⟩]) s' t' := by
  have hcandidate := htracks.candidate?_of_assign hall hsplit
  rcases hall.exists_var?_of_assign hsplit with ⟨var, hvar⟩
  rcases hrefines.exists_var? hvar with ⟨var', hvar'⟩
  have hboxable := h.boxable?_eq hrange hvar'
  rcases State.assign_ok hs with ⟨hnone, rfl⟩ | ⟨decl, info, loc, hsome, -, hinfo, hpos, hle, rfl⟩
  . rw [hcandidate] at hnone
    -- The boxes do not make a name out of something else.
    have hnone' : q.candidate? target = none := by
      rw [Option.eq_none_iff_forall_ne_some]
      intro decl hid
      rw [candidate?_of_candidate? hrefines hexports hvar hid] at hnone
      cases hnone
    rw [hnone'] at hboxable
    exact ⟨t, State.assign_of_none hboxable, h.keep _ rfl rfl rfl rfl h.registry⟩
  . rw [hcandidate] at hsome
    cases hid : q.candidate? target with
    | none =>
      rw [hid] at hboxable
      exact ⟨t, State.assign_of_none hboxable, h.markMutated_first _ decl info.depth loc⟩
    | some decl' =>
      have hsame := candidate?_of_candidate? hrefines hexports hvar hid
      rw [hsome] at hsame
      cases hsame
      rw [hid] at hboxable
      rcases h.exists_info hinfo with ⟨info', hinfo', hdepth⟩
      rw [← hdepth] at hpos hle
      rw [← h.depth] at hle
      rcases State.assign_of_some hboxable hinfo' hpos hle with ⟨loc', ht⟩
      rw [hdepth] at ht
      have hnamed := (candidate?_eq_some_iff.mp hid).1
      exact ⟨_, ht, h.markMutated info.depth loc loc' hsome hnamed⟩

theorem reference (h : Mirrors p q past s t) (hall : Schedule order p all)
    (htracks : Tracks field p past s) (hrefines : Refines order p q moved)
    (hexports : ∀ decl, q.Unexported decl ↔ p.Unexported decl) (hrange : q.InRange)
    {around : List ExprId} {name : VarId}
    (hsplit : all = past ++ ⟨around, .reference name⟩ :: rest)
    (hs : s.reference name = .ok s') :
    ∃ t', t.reference (moved name) = .ok t' ∧
      Mirrors p q (past ++ [⟨around, .reference name⟩]) s' t' := by
  have hcandidate := htracks.candidate?_of_reference hall hsplit
  rcases hall.exists_var?_of_reference hsplit with ⟨var, hvar⟩
  rcases hrefines.exists_var?_moved hvar with ⟨var', hvar'⟩
  have hboxable := h.boxable?_eq hrange hvar'
  rw [candidate?_moved hrefines hexports hvar] at hboxable
  rcases State.reference_ok hs with ⟨hnone, rfl⟩ | ⟨decl, info, hsome, hinfo, hs'⟩
  . rw [hcandidate] at hnone
    rw [hnone] at hboxable
    exact ⟨t, State.reference_of_none hboxable, h.keep _ rfl rfl rfl rfl h.registry⟩
  . rw [hcandidate] at hsome
    rw [hsome] at hboxable
    rcases h.exists_info hinfo with ⟨info', hinfo', hdepth⟩
    rw [← hdepth, ← h.depth] at hs'
    rcases hs' with ⟨hdeeper, hpos, rfl⟩ | ⟨hnot, rfl⟩
    . refine ⟨_, State.reference_of_captured hboxable hinfo' ⟨hdeeper, hpos⟩, h.program, h.boxes,
        ?_, ?_, ?_⟩
      . simp [State.record, h.depth]
      . apply h.registry_modify
        . intro info
          rfl
        . intro info
          rfl
      . apply h.scopes_modify
        intro scope scope' hechoes
        exact hechoes.markCaptured decl
    . refine ⟨_, State.reference_of_not_captured hboxable hinfo' hnot, ?_⟩
      refine h.keep _ rfl rfl rfl rfl ?_
      apply h.registry_modify
      . intro info
        rfl
      . intro info
        rfl

theorem enter (h : Mirrors p q past s t) (m : Moment) :
    Mirrors p q (past ++ [m]) s.enter t.enter := by
  refine ⟨h.program, h.boxes, ?_, h.registry, ?_⟩
  . have hs := ScopeStack.depth_enter s.scopes
    have ht := ScopeStack.depth_enter t.scopes
    rw [h.depth] at ht
    exact ht.trans hs.symm
  . intro depth scope' hscope
    change t.scopes.enter.at? depth = some scope' at hscope
    change ∃ scope, s.scopes.enter.at? depth = some scope ∧ _
    rw [ScopeStack.at?_enter, h.depth] at hscope
    rw [ScopeStack.at?_enter]
    split at hscope
    . next heq =>
      cases hscope
      rw [if_pos heq]
      exact ⟨_, rfl, .empty⟩
    . next hne =>
      rw [if_neg hne]
      rcases h.scopes depth scope' hscope with ⟨scope, hscope, hechoes⟩
      exact ⟨scope, hscope, hechoes.extend m⟩

theorem leave (h : Mirrors p q past s t) (hall : Schedule order p all)
    (htracks : Tracks field p past s) {around : List ExprId}
    (hsplit : all = past ++ ⟨around, .leave⟩ :: rest) {s₁ : State} {scope : FunctionScope}
    (hexit : s.exit = .ok (scope, s₁))
    (hboxes : scope.boxable.forM (Pass.box field) s₁ = .ok () s')
    (hrewritten : ∀ b ∈ s'.boxes.toList, ∀ id ∈ b.references, q.named? id = none) :
    ∃ t', Tick field' .leave t t' ∧ Mirrors p q (past ++ [⟨around, .leave⟩]) s' t' := by
  rcases State.exit_ok hexit with ⟨stack, hstack, rfl⟩
  rcases Pass.forM_box_ok hboxes with
    ⟨boxes, hdecls, hinfo, hlist, -, hscopes, hregistry, -⟩
  dsimp only at hinfo hlist hscopes hregistry
  rcases h.exists_exit hstack with ⟨scope', stack', hstack', hdepth, hechoes⟩
  have hnil : scope'.boxable = [] := by
    apply hechoes.boxable_eq_nil hall htracks hsplit hdecls
    . intro b hb
      rcases hinfo b hb with ⟨-, info, hdecl, -, hreferences⟩
      exact ⟨info, hdecl, hreferences⟩
    . intro b hb
      apply hrewritten
      rw [hlist]
      exact List.mem_append_right _ hb
  have ht : t.exit = .ok (scope', { t with
      scopes := stack', log := t.log.push (.left stack'.depth) }) := by
    unfold State.exit
    rw [hstack']
  have htick : Tick field' .leave t { t with
      scopes := stack', log := t.log.push (.left stack'.depth) } := by
    apply Tick.leave ht
    rw [hnil]
    rfl
  refine ⟨_, htick, h.program, h.boxes, ?_, ?_, ?_⟩
  . rw [hscopes]
    exact hdepth
  . rw [hregistry]
    exact h.registry
  . rw [hscopes]
    exact h.scopes_exit _ hstack hstack'

/-- Every round of the first run is followed by the second run. -/
theorem tick {m : Moment} (h : Mirrors p q past s t) (hall : Schedule order p all)
    (htracks : Tracks field p past s) (hrefines : Refines order p q moved)
    (hexports : ∀ decl, q.Unexported decl ↔ p.Unexported decl) (hrange : q.InRange)
    (hsplit : all = past ++ m :: rest)
    (hrewritten : ∀ b ∈ s'.boxes.toList, ∀ id ∈ b.references, q.named? id = none)
    (hs : Tick field m.action s s') :
    ∃ t', Tick field' (rename moved m.action) t t' ∧ Mirrors p q (past ++ [m]) s' t' := by
  rcases m with ⟨around, action⟩
  cases hs with
  | visit => exact ⟨t, .visit t _, h.keep _ rfl rfl rfl rfl h.registry⟩
  | register => exact ⟨_, .register t _, h.register _ _⟩
  | initializer hs =>
    rcases h.setInitializer _ hs with ⟨t', ht, hmirrors⟩
    exact ⟨t', .initializer ht, hmirrors⟩
  | assign hs =>
    rcases h.assign hall htracks hrefines hexports hrange hsplit hs with ⟨t', ht, hmirrors⟩
    exact ⟨t', .assign ht, hmirrors⟩
  | reference hs =>
    rcases h.reference hall htracks hrefines hexports hrange hsplit hs with ⟨t', ht, hmirrors⟩
    exact ⟨t', .reference ht, hmirrors⟩
  | enter => exact ⟨_, .enter t, h.enter _⟩
  | leave hexit hboxes => exact h.leave hall htracks hsplit hexit hboxes hrewritten

end Rounds

end Mirrors

end Upvalue.Boxing

import Upvalue.Proofs.Boxing.Play
import Upvalue.Proofs.Boxing.Recall
import Upvalue.Proofs.Boxing.Renumber

/-!
This module contains two runs of the pass, over a program and over the same program with its slots
in another order. The runs make every step together. Their states are the same apart from the
handles, and so are the reasons why they stop.
-/

namespace Upvalue

open Program

def Box.renumber (ρ : Renumbering) (b : Box) : Box :=
  { b with
      decl := ρ.decl b.decl
      initializer := ρ.expr b.initializer
      references := b.references.map ρ.var }

namespace Boxing

section Definitions

variable (ρ : Renumbering)

def FunctionScope.renumber (scope : FunctionScope) : FunctionScope :=
  ⟨scope.mutated.map ρ.decl, scope.captured.map ρ.decl⟩

theorem size_renumber_pos (stack : ScopeStack) :
    0 < (stack.scopes.map (FunctionScope.renumber ρ)).size := by
  rw [Array.size_map]
  exact stack.size_pos

def ScopeStack.renumber (stack : ScopeStack) : ScopeStack :=
  ⟨stack.scopes.map (FunctionScope.renumber ρ), size_renumber_pos ρ stack⟩

def DeclInfo.renumber (info : DeclInfo) : DeclInfo :=
  ⟨info.depth, info.references.map ρ.var, info.initializer.map ρ.expr⟩

def Registry.renumber (registry : Registry) : Registry :=
  ⟨registry.entries.map fun (decl, info) => (ρ.decl decl, info.renumber ρ)⟩

def BoxingError.renumber : BoxingError → BoxingError
  | .uninitializedCapture decl name loc assignedAt =>
    .uninitializedCapture (ρ.decl decl) name loc assignedAt
  | .unregisteredDecl decl name loc => .unregisteredDecl (ρ.decl decl) name loc
  | .closedScope decl name loc => .closedScope (ρ.decl decl) name loc
  | .scopeUnderflow => .scopeUnderflow

def Stop.renumber : Stop → Stop
  | .fault error => .fault (error.renumber ρ)
  | .outOfRange ref => .outOfRange (ref.renumber ρ)
  | .tooDeep => .tooDeep

def Event.renumber : Event → Event
  | .entered depth => .entered depth
  | .left depth => .left depth
  | .boxed box => .boxed (box.renumber ρ)

end Definitions

variable {ρ : Renumbering}

/-! ### Parts of a state -/

theorem lookup_map {β γ : Type} {f : DeclId → DeclId} (hf : Function.Injective f) (g : β → γ)
    (entries : List (DeclId × β)) (decl : DeclId) :
    (entries.map fun (key, value) => (f key, g value)).lookup (f decl) =
      (entries.lookup decl).map g := by
  induction entries with
  | nil => rfl
  | cons entry entries ih =>
    rcases entry with ⟨key, value⟩
    have hbeq : (f decl == f key) = (decl == key) := by
      rw [Bool.eq_iff_iff, beq_iff_eq, beq_iff_eq, hf.eq_iff]
    rw [List.map_cons, List.lookup_cons, List.lookup_cons, hbeq]
    split
    . rfl
    . exact ih

theorem lookup_renumber (assignments : List (DeclId × Span)) (decl : DeclId) :
    (assignments.map fun (decl, loc) => (ρ.decl decl, loc)).lookup (ρ.decl decl) =
      assignments.lookup decl :=
  (lookup_map ρ.decl.injective id assignments decl).trans Option.map_id'

namespace FunctionScope

variable {scope : FunctionScope} {decl : DeclId}

@[simp]
theorem renumber_empty : empty.renumber ρ = empty := rfl

theorem markMutated_renumber :
    (scope.renumber ρ).markMutated (ρ.decl decl) = (scope.markMutated decl).renumber ρ := by
  unfold markMutated renumber
  simp only [List.mem_map_of_injective ρ.decl.injective]
  split
  . rfl
  . rw [List.map_append, List.map_singleton]

theorem markCaptured_renumber :
    (scope.renumber ρ).markCaptured (ρ.decl decl) = (scope.markCaptured decl).renumber ρ := by
  unfold markCaptured renumber
  simp only [List.mem_map_of_injective ρ.decl.injective]
  split
  . rfl
  . rw [List.map_cons]

theorem boxable_renumber : (scope.renumber ρ).boxable = scope.boxable.map ρ.decl := by
  unfold boxable isCaptured renumber
  rw [List.filter_map]
  simp only [Function.comp_def, List.mem_map_of_injective ρ.decl.injective]

end FunctionScope

namespace ScopeStack

variable {stack : ScopeStack}

@[simp]
theorem depth_renumber : (stack.renumber ρ).depth = stack.depth := by
  unfold depth renumber
  rw [Array.size_map]

theorem renumber_new : new.renumber ρ = new := by
  simp [new, renumber]

theorem enter_renumber : (stack.renumber ρ).enter = stack.enter.renumber ρ := by
  simp [enter, renumber]

theorem modify_renumber (depth : Nat) {f g : FunctionScope → FunctionScope}
    (hfg : ∀ scope, g (scope.renumber ρ) = (f scope).renumber ρ) :
    (stack.renumber ρ).modify depth g = (stack.modify depth f).renumber ρ := by
  unfold modify
  split
  . rfl
  . unfold renumber
    congr 1
    apply Array.ext
    . simp
    . intro i hi hi'
      simp only [Array.getElem_modify, Array.getElem_map]
      split
      . rw [hfg]
      . rfl

theorem at?_renumber (depth : Nat) :
    (stack.renumber ρ).at? depth = (stack.at? depth).map (FunctionScope.renumber ρ) := by
  unfold at? renumber
  split
  . rfl
  . rw [Array.getElem?_map]

theorem exit?_renumber : (stack.renumber ρ).exit? =
    stack.exit?.map fun (scope, stack) => (scope.renumber ρ, stack.renumber ρ) := by
  unfold exit? renumber
  simp only [Array.size_map]
  split
  . simp
  . rfl

theorem mem_of_exit? {scope : FunctionScope} {stack' : ScopeStack}
    (h : stack.exit? = some (scope, stack')) :
    scope ∈ stack.scopes ∧ ∀ inner ∈ stack'.scopes, inner ∈ stack.scopes := by
  simp only [exit?, Option.dite_none_right_eq_some, Option.some.injEq, Prod.mk.injEq] at h
  rcases h with ⟨hsize, rfl, rfl⟩
  refine ⟨Array.getElem_mem _, ?_⟩
  intro inner hinner
  rw [← Array.mem_toList_iff, Array.toList_pop] at hinner
  exact Array.mem_toList_iff.mp (List.dropLast_subset _ hinner)

theorem mem_modify {depth : Nat} {f : FunctionScope → FunctionScope} {scope : FunctionScope}
    (h : scope ∈ (stack.modify depth f).scopes) :
    scope ∈ stack.scopes ∨ ∃ old ∈ stack.scopes, scope = f old := by
  unfold modify at h
  split at h
  . exact .inl h
  . rcases Array.mem_iff_getElem.mp h with ⟨i, hi, rfl⟩
    rw [Array.getElem_modify]
    split
    . exact .inr ⟨_, Array.getElem_mem _, rfl⟩
    . exact .inl (Array.getElem_mem _)

end ScopeStack

namespace Registry

variable {registry : Registry} {decl : DeclId}

theorem info?_renumber :
    (registry.renumber ρ).info? (ρ.decl decl) = (registry.info? decl).map (DeclInfo.renumber ρ) :=
  lookup_map ρ.decl.injective _ registry.entries decl

theorem register_renumber (depth : Nat) :
    ((registry.renumber ρ).register (ρ.decl decl) depth).2 =
      (registry.register decl depth).2.renumber ρ := by
  unfold register
  rw [info?_renumber, Option.isSome_map]
  split
  . rfl
  . simp [renumber, DeclInfo.renumber]

theorem modify_renumber {f g : DeclInfo → DeclInfo}
    (hfg : ∀ info, g (info.renumber ρ) = (f info).renumber ρ) :
    (registry.renumber ρ).modify (ρ.decl decl) g = (registry.modify decl f).renumber ρ := by
  unfold modify renumber
  simp only [List.map_map, Registry.mk.injEq, List.map_inj_left, Function.comp_apply,
    ρ.decl.apply_eq_iff_eq, Prod.mk.injEq, true_and]
  intro entry _
  split
  . rw [hfg]
  . rfl

end Registry

theorem Event.level_renumber (event : Event) : (event.renumber ρ).level = event.level := by
  cases event <;> rfl

theorem Event.text_renumber (event : Event) : (event.renumber ρ).text = event.text := by
  cases event with
  | boxed box =>
    have hname : (box.renumber ρ).name = box.name := rfl
    have htypeName : (box.renumber ρ).typeName = box.typeName := rfl
    have hsize : (box.renumber ρ).references.size = box.references.size := Array.size_map
    unfold Event.text Event.renumber
    simp only [hname, htypeName, hsize]
  | _ => rfl

/-! ### Steps -/

theorem exists_decl?_of_candidate? {p : Program} {id : VarId} {decl : DeclId}
    (h : p.candidate? id = some decl) : ∃ d, p.decl? decl = some d := by
  rcases (candidate?_eq_some_iff.mp h).2 with ⟨d, hd, -⟩
  exact ⟨d, hd⟩

theorem Schedule.exists_decl?_of_initializer {order : LoopOrder} {p : Program}
    {all past rest : List Moment} (h : Schedule order p all) (hrange : p.InRange)
    {around : List ExprId} {decl : DeclId} {value : ExprId}
    (hsplit : all = past ++ ⟨around, .initializer decl value⟩ :: rest) :
    ∃ d, p.decl? decl = some d := by
  have hmem : ⟨around, .initializer decl value⟩ ∈ all := by
    rw [hsplit]
    simp
  rcases h.exists_plan_of_mem hmem with ⟨-, hitem⟩ | ⟨outer, node, plan, -, hplan, haction, -⟩
  . exact absurd hitem (not_mem_planProgram (by simp) (by simp))
  . rcases (initializer_mem_plan hplan).mp haction with
      ⟨id, loc, decls, exps, i, rfl, hstat, hdecl, -⟩
    have href : .decl decl ∈ (Stat.decl loc decls exps).refs :=
      List.mem_append_left _ (List.mem_map_of_mem (List.mem_of_getElem? hdecl))
    have hcontains := hrange _ (mem_refs_of_content? (content?_of_stat? hstat) href)
    exact ⟨_, Array.getElem?_eq_getElem (of_decide_eq_true hcontains)⟩

/-- Two steps give results that are related, or they fail for the same reason. -/
inductive Lockstep (ρ : Renumbering) {α β : Type} (R : α → β → Prop) :
    Except Stop α → Except Stop β → Prop where
  | ok {a : α} {b : β} (h : R a b) : Lockstep ρ R (.ok a) (.ok b)
  | error (stop : Stop) : Lockstep ρ R (.error stop) (.error (stop.renumber ρ))

theorem Lockstep.bind {α β γ δ : Type} {R : α → β → Prop} {S : γ → δ → Prop}
    {x : Except Stop α} {y : Except Stop β} {f : α → Except Stop γ} {g : β → Except Stop δ}
    (h : Lockstep ρ R x y) (hfg : ∀ a b, R a b → Lockstep ρ S (f a) (g b)) :
    Lockstep ρ S (x >>= f) (y >>= g) := by
  cases h with
  | ok h => exact hfg _ _ h
  | error stop => exact .error stop

/-- The states of two runs are the same apart from the handles. -/
structure Parallel (ρ : Renumbering) (p : Program) (s t : State) : Prop where
  decl : ∀ id d, p.decl? id = some d →
    ∃ d', s.program.decl? id = some d' ∧ t.program.decl? (ρ.decl id) = some d'
  scopes : t.scopes = s.scopes.renumber ρ
  registry : t.registry = s.registry.renumber ρ
  assignments : t.assignments = s.assignments.map fun (decl, loc) => (ρ.decl decl, loc)
  boxes : t.boxes = s.boxes.map (Box.renumber ρ)
  log : t.log = s.log.map (Event.renumber ρ)
  marked : ∀ scope ∈ s.scopes.scopes, ∀ decl ∈ scope.mutated, ∃ d, p.decl? decl = some d

namespace Parallel

variable {p q : Program} {s t : State} {decl : DeclId} {d : Decl}

theorem start (h : Renumbers ρ p q) : Parallel ρ p (.start p) (.start q) := by
  refine ⟨?_, ScopeStack.renumber_new.symm, rfl, rfl, Array.map_empty.symm, Array.map_empty.symm,
    ?_⟩
  . intro id d hd
    exact ⟨d, hd, h.decl id d hd⟩
  . intro scope hscope decl hdecl
    cases Array.mem_singleton.mp hscope
    cases hdecl

theorem unregistered (h : Parallel ρ p s t) (hd : p.decl? decl = some d) :
    t.unregistered (ρ.decl decl) = (s.unregistered decl).renumber ρ := by
  rcases h.decl decl d hd with ⟨d', hs, ht⟩
  unfold State.unregistered
  rw [hs, ht]
  rfl

theorem closed (h : Parallel ρ p s t) (hd : p.decl? decl = some d) :
    t.closed (ρ.decl decl) = (s.closed decl).renumber ρ := by
  rcases h.decl decl d hd with ⟨d', hs, ht⟩
  unfold State.closed
  rw [hs, ht]
  rfl

theorem info? (h : Parallel ρ p s t) (decl : DeclId) :
    t.registry.info? (ρ.decl decl) = (s.registry.info? decl).map (DeclInfo.renumber ρ) := by
  rw [h.registry, Registry.info?_renumber]

theorem register (h : Parallel ρ p s t) :
    Parallel ρ p (s.register decl) (t.register (ρ.decl decl)) := by
  refine ⟨h.decl, h.scopes, ?_, h.assignments, h.boxes, h.log, h.marked⟩
  unfold State.register
  rw [h.registry, h.scopes, ScopeStack.depth_renumber, Registry.register_renumber]

theorem record (h : Parallel ρ p s t) {f g : DeclInfo → DeclInfo}
    (hfg : ∀ info, g (info.renumber ρ) = (f info).renumber ρ) :
    Parallel ρ p (s.record decl f) (t.record (ρ.decl decl) g) := by
  refine ⟨h.decl, h.scopes, ?_, h.assignments, h.boxes, h.log, h.marked⟩
  unfold State.record
  rw [h.registry, Registry.modify_renumber hfg]

theorem noteAssignment (h : Parallel ρ p s t) (loc : Span) :
    Parallel ρ p (s.noteAssignment decl loc) (t.noteAssignment (ρ.decl decl) loc) := by
  unfold State.noteAssignment
  rw [h.assignments, lookup_renumber]
  split
  . exact h
  . exact ⟨h.decl, h.scopes, h.registry, rfl, h.boxes, h.log, h.marked⟩

theorem enter (h : Parallel ρ p s t) : Parallel ρ p s.enter t.enter := by
  refine ⟨h.decl, ?_, h.registry, h.assignments, h.boxes, ?_, ?_⟩
  . unfold State.enter
    rw [h.scopes, ScopeStack.enter_renumber]
  . unfold State.enter
    rw [h.scopes, ScopeStack.enter_renumber]
    dsimp only
    rw [ScopeStack.depth_renumber, h.log, Array.map_push]
    rfl
  . intro scope hscope
    cases Array.mem_push.mp hscope with
    | inl hold => exact h.marked scope hold
    | inr hnew =>
      subst hnew
      intro decl hdecl
      cases hdecl

theorem setInitializer (h : Parallel ρ p s t) (hd : p.decl? decl = some d) (value : ExprId) :
    Lockstep ρ (Parallel ρ p) (s.setInitializer decl value)
      (t.setInitializer (ρ.decl decl) (ρ.expr value)) := by
  have hinfo' := h.info? decl
  cases hinfo : s.registry.info? decl with
  | none =>
    rw [hinfo, Option.map_none] at hinfo'
    simp only [State.setInitializer, Registry.recordInitializer, Registry.info, hinfo, hinfo',
      Except.map]
    rw [h.unregistered hd]
    exact .error _
  | some info =>
    rw [hinfo, Option.map_some] at hinfo'
    rw [State.setInitializer_of_info? value hinfo, State.setInitializer_of_info? _ hinfo']
    exact .ok (h.record fun _ => rfl)

theorem depthOf (h : Parallel ρ p s t) (hd : p.decl? decl = some d) :
    Lockstep ρ (fun depth depth' => depth' = depth) (s.depthOf decl)
      (t.depthOf (ρ.decl decl)) := by
  unfold State.depthOf
  rw [h.info?]
  cases s.registry.info? decl with
  | none =>
    simp only [Option.map_none]
    rw [h.unregistered hd]
    exact .error _
  | some info => exact .ok rfl

theorem modify (h : Parallel ρ p s t) (depth : Nat) {f g : FunctionScope → FunctionScope}
    (hfg : ∀ scope, g (scope.renumber ρ) = (f scope).renumber ρ)
    (hmarked : ∀ scope, ∀ decl ∈ (f scope).mutated, decl ∈ scope.mutated ∨
      ∃ d, p.decl? decl = some d) :
    Parallel ρ p { s with scopes := s.scopes.modify depth f }
      { t with scopes := t.scopes.modify depth g } := by
  refine ⟨h.decl, ?_, h.registry, h.assignments, h.boxes, h.log, ?_⟩
  . dsimp only
    rw [h.scopes, ScopeStack.modify_renumber depth hfg]
  . intro scope hscope decl hdecl
    rcases ScopeStack.mem_modify hscope with hold | ⟨old, hold, rfl⟩
    . exact h.marked scope hold decl hdecl
    . cases hmarked old decl hdecl with
      | inl hmem => exact h.marked old hold decl hmem
      | inr hd => exact hd

theorem modifyOwner (h : Parallel ρ p s t) (hd : p.decl? decl = some d)
    {f g : FunctionScope → FunctionScope}
    (hfg : ∀ scope, g (scope.renumber ρ) = (f scope).renumber ρ)
    (hmarked : ∀ scope, ∀ decl ∈ (f scope).mutated, decl ∈ scope.mutated ∨
      ∃ d, p.decl? decl = some d) :
    Lockstep ρ (Parallel ρ p) (s.modifyOwner decl f) (t.modifyOwner (ρ.decl decl) g) := by
  unfold State.modifyOwner
  refine (h.depthOf hd).bind ?_
  rintro depth _ rfl
  rw [h.scopes, ScopeStack.depth_renumber, ScopeStack.at?_renumber, Option.isNone_map]
  split
  . rw [h.closed hd]
    exact .error _
  . split
    . exact .error (.fault .scopeUnderflow)
    . rw [← h.scopes]
      exact .ok (h.modify _ hfg hmarked)

theorem markMutated (h : Parallel ρ p s t) (hd : p.decl? decl = some d) :
    Lockstep ρ (Parallel ρ p) (s.modifyOwner decl (·.markMutated decl))
      (t.modifyOwner (ρ.decl decl) (·.markMutated (ρ.decl decl))) := by
  apply h.modifyOwner hd
  . intro scope
    apply FunctionScope.markMutated_renumber
  . intro scope decl' hdecl
    rw [FunctionScope.mem_markMutated] at hdecl
    rcases hdecl with rfl | hold
    . exact .inr ⟨d, hd⟩
    . exact .inl hold

theorem markCaptured (h : Parallel ρ p s t) (hd : p.decl? decl = some d) :
    Lockstep ρ (Parallel ρ p) (s.modifyOwner decl (·.markCaptured decl))
      (t.modifyOwner (ρ.decl decl) (·.markCaptured (ρ.decl decl))) := by
  apply h.modifyOwner hd
  . intro scope
    apply FunctionScope.markCaptured_renumber
  . intro scope decl' hdecl
    rw [FunctionScope.mutated_markCaptured] at hdecl
    exact .inl hdecl

theorem assign (h : Parallel ρ p s t) {target : VarId} {result : Option DeclId}
    (hs : s.boxable? target = .ok result)
    (ht : t.boxable? (ρ.var target) = .ok (result.map ρ.decl))
    (hresult : ∀ decl, result = some decl → ∃ d, p.decl? decl = some d)
    (hloc : (t.program.var? (ρ.var target)).map Var.loc = (s.program.var? target).map Var.loc) :
    Lockstep ρ (Parallel ρ p) (s.assign target) (t.assign (ρ.var target)) := by
  unfold State.assign
  rw [hs, ht, hloc]
  cases result with
  | none => exact .ok h
  | some decl =>
    rcases hresult decl rfl with ⟨d, hd⟩
    refine (h.markMutated hd).bind ?_
    intro s' t' h'
    exact .ok (h'.noteAssignment _)

theorem recordReference (h : Parallel ρ p s t) (hd : p.decl? decl = some d) (name : VarId) :
    Lockstep ρ (Parallel ρ p)
      (match s.registry.recordReference decl name with
        | .ok registry => .ok { s with registry := registry }
        | .error _ => .error (s.unregistered decl))
      (match t.registry.recordReference (ρ.decl decl) (ρ.var name) with
        | .ok registry => .ok { t with registry := registry }
        | .error _ => .error (t.unregistered (ρ.decl decl))) := by
  unfold Registry.recordReference Registry.info
  rw [h.info?, h.unregistered hd]
  cases s.registry.info? decl with
  | none => exact .error _
  | some info =>
    refine .ok (h.record ?_)
    intro info
    simp [DeclInfo.renumber]

theorem reference (h : Parallel ρ p s t) {name : VarId} {result : Option DeclId}
    (hs : s.boxable? name = .ok result) (ht : t.boxable? (ρ.var name) = .ok (result.map ρ.decl))
    (hresult : ∀ decl, result = some decl → ∃ d, p.decl? decl = some d) :
    Lockstep ρ (Parallel ρ p) (s.reference name) (t.reference (ρ.var name)) := by
  unfold State.reference
  rw [hs, ht]
  cases result with
  | none => exact .ok h
  | some decl =>
    rcases hresult decl rfl with ⟨d, hd⟩
    refine (h.depthOf hd).bind ?_
    rintro depth _ rfl
    rw [h.scopes, ScopeStack.depth_renumber]
    dsimp only
    split
    . refine (h.markCaptured hd).bind ?_
      intro s' t' h'
      exact h'.recordReference hd name
    . exact h.recordReference hd name

theorem exit (h : Parallel ρ p s t) :
    Lockstep ρ (fun (scope, s') (scope', t') => scope' = scope.renumber ρ ∧ Parallel ρ p s' t' ∧
      ∀ decl ∈ scope.mutated, ∃ d, p.decl? decl = some d) s.exit t.exit := by
  unfold State.exit
  rw [h.scopes, ScopeStack.exit?_renumber]
  cases hexit : s.scopes.exit? with
  | none => exact .error (.fault .scopeUnderflow)
  | some result =>
    rcases result with ⟨scope, stack⟩
    have hmem := ScopeStack.mem_of_exit? hexit
    refine .ok ⟨rfl, ⟨h.decl, rfl, h.registry, h.assignments, h.boxes, ?_, ?_⟩,
      h.marked scope hmem.1⟩
    . dsimp only
      rw [ScopeStack.depth_renumber, h.log, Array.map_push]
      rfl
    . intro inner hinner
      exact h.marked inner (hmem.2 inner hinner)

theorem boxFor (h : Parallel ρ p s t) (hd : p.decl? decl = some d) (field : String) :
    Lockstep ρ (fun b b' => b' = b.renumber ρ) (s.boxFor field decl)
      (t.boxFor field (ρ.decl decl)) := by
  rcases h.decl decl d hd with ⟨d', hs, ht⟩
  unfold State.boxFor
  rw [hs, ht, h.info?, h.unregistered hd, h.assignments, lookup_renumber, h.boxes, Array.size_map]
  cases s.registry.info? decl with
  | none => exact .error _
  | some info =>
    rcases info with ⟨depth, references, initializer⟩
    cases initializer with
    | none => exact .error (.fault (.uninitializedCapture ..))
    | some value => exact .ok rfl

theorem addBox (h : Parallel ρ p s t) (b : Box) :
    Parallel ρ p (s.addBox b) (t.addBox (b.renumber ρ)) := by
  refine ⟨?_, h.scopes, h.registry, h.assignments, ?_, ?_, h.marked⟩
  . intro id d hd
    rcases h.decl id d hd with ⟨d', hs, ht⟩
    have hid : ρ.decl id = (b.renumber ρ).decl ↔ id = b.decl := ρ.decl.apply_eq_iff_eq
    unfold State.addBox
    simp only [Box.decl?_apply, hs, ht, hid]
    split
    . exact ⟨_, rfl, rfl⟩
    . exact ⟨d', rfl, rfl⟩
  . unfold State.addBox
    rw [h.boxes, Array.map_push]
  . unfold State.addBox
    rw [h.log, Array.map_push]
    rfl

end Parallel

/-! ### Runs -/

namespace Pass

/-- Two parts of the pass leave parallel states behind, and they stop for the same reason. -/
inductive Meets (ρ : Renumbering) (p : Program) :
    EStateM.Result Stop State Unit → EStateM.Result Stop State Unit → Prop where
  | ok {s t : State} (h : Parallel ρ p s t) : Meets ρ p (.ok () s) (.ok () t)
  | error (stop : Stop) {s t : State} (h : Parallel ρ p s t) :
      Meets ρ p (.error stop s) (.error (stop.renumber ρ) t)

variable {p q : Program} {field : String} {s t : State}

theorem Meets.forM_cons {α β : Type} {f : α → Pass Unit} {g : β → Pass Unit} {a : α} {b : β}
    {as : List α} {bs : List β} (h : Meets ρ p (f a s) (g b t))
    (hrest : ∀ s' t', f a s = .ok () s' → g b t = .ok () t' → Parallel ρ p s' t' →
      Meets ρ p (as.forM f s') (bs.forM g t')) :
    Meets ρ p ((a :: as).forM f s) ((b :: bs).forM g t) := by
  generalize hs : f a s = x at h
  generalize ht : g b t = y at h
  cases h with
  | ok h =>
    rw [forM_cons_ok hs, forM_cons_ok ht]
    exact hrest _ _ hs ht h
  | error stop h =>
    rw [forM_cons_error hs, forM_cons_error ht]
    exact .error stop h

theorem meets_step (h : Parallel ρ p s t) {f g : State → Except Stop State}
    (hfg : Lockstep ρ (Parallel ρ p) (f s) (g t)) : Meets ρ p (step f s) (step g t) := by
  unfold step
  generalize f s = x at hfg
  generalize g t = y at hfg
  cases hfg with
  | ok h' => exact .ok h'
  | error stop => exact .error stop h

theorem meets_box (h : Parallel ρ p s t) {decl : DeclId} {d : Decl}
    (hd : p.decl? decl = some d) :
    Meets ρ p (box field decl s) (box field (ρ.decl decl) t) := by
  have hbox := h.boxFor hd field
  apply meets_step h
  generalize s.boxFor field decl = x at hbox
  generalize t.boxFor field (ρ.decl decl) = y at hbox
  cases hbox with
  | ok hb =>
    subst hb
    exact .ok (h.addBox _)
  | error stop => exact .error stop

theorem meets_boxes {decls : List DeclId} (h : Parallel ρ p s t)
    (hdecls : ∀ decl ∈ decls, ∃ d, p.decl? decl = some d) :
    Meets ρ p (decls.forM (box field) s) ((decls.map ρ.decl).forM (box field) t) := by
  induction decls generalizing s t with
  | nil => exact .ok h
  | cons decl decls ih =>
    rw [List.forall_mem_cons] at hdecls
    rcases hdecls with ⟨⟨d, hd⟩, hdecls⟩
    apply (meets_box h hd).forM_cons
    intro s' t' _ _ h'
    exact ih h' hdecls

theorem meets_leave (h : Parallel ρ p s t) : Meets ρ p (leave field s) (leave field t) := by
  have hexit := h.exit
  unfold leave
  generalize s.exit = x at hexit
  generalize t.exit = y at hexit
  cases hexit with
  | error stop => exact .error stop h
  | @ok left right h' =>
    rcases left with ⟨scope, s'⟩
    rcases right with ⟨scope', t'⟩
    rcases h' with ⟨rfl, h', hmarked⟩
    dsimp only
    rw [FunctionScope.boxable_renumber]
    apply meets_boxes h'
    intro decl hdecl
    exact hmarked decl (List.mem_of_mem_filter hdecl)

section Moments

variable {options : Options} {all past rest moments : List Moment} {m : Moment}

/-- Two runs that are parallel before an action are so after it, or they both stop. -/
theorem meets_perform {order : LoopOrder} (hrenumbers : Renumbers ρ p q) (hrange : p.InRange)
    (hall : Schedule order p all) (hsplit : all = past ++ m :: rest)
    (hs : Tracks field p past s) (ht : Tracks field q (past.map (Moment.renumber ρ)) t)
    (h : Parallel ρ p s t) :
    Meets ρ p (perform field (fun _ => pure ()) m.action s)
      (perform field (fun _ => pure ()) (m.action.renumber ρ) t) := by
  have hall' := hall.renumber hrenumbers
  have hsplit' : all.map (Moment.renumber ρ) =
      past.map (Moment.renumber ρ) ++ m.renumber ρ :: rest.map (Moment.renumber ρ) := by
    rw [hsplit, List.map_append, List.map_cons]
  rcases m with ⟨around, action⟩
  cases action with
  | visit node => exact .ok h
  | register decl => exact .ok h.register
  | initializer decl value =>
    rcases hall.exists_decl?_of_initializer hrange hsplit with ⟨d, hd⟩
    change Meets ρ p (step (·.setInitializer decl value) s)
      (step (·.setInitializer (ρ.decl decl) (ρ.expr value)) t)
    exact meets_step h (h.setInitializer hd value)
  | assign target =>
    rcases hall.exists_var?_of_assign hsplit with ⟨var, hvar⟩
    have hboxable := hs.boxable?_of_assign hall hrange hsplit
    have hboxable' := ht.boxable?_of_assign hall' hrenumbers.inRange hsplit'
    rw [hrenumbers.candidate?_eq hrange hvar] at hboxable'
    apply meets_step h
    apply h.assign hboxable hboxable'
    . intro decl hdecl
      exact exists_decl?_of_candidate? hdecl
    . rw [hs.var?_eq (hall.unused_of_assign hsplit) hvar,
        ht.var?_eq (hall'.unused_of_assign hsplit') (hrenumbers.var _ _ hvar)]
      rfl
  | reference name =>
    rcases hall.exists_var?_of_reference hsplit with ⟨var, hvar⟩
    have hboxable := hs.boxable?_of_reference hall hrange hsplit
    have hboxable' := ht.boxable?_of_reference hall' hrenumbers.inRange hsplit'
    rw [hrenumbers.candidate?_eq hrange hvar] at hboxable'
    apply meets_step h
    apply h.reference hboxable hboxable'
    intro decl hdecl
    exact exists_decl?_of_candidate? hdecl
  | enter => exact .ok h.enter
  | leave => exact meets_leave h

theorem meets_play {order : LoopOrder} (hrenumbers : Renumbers ρ p q) (hrange : p.InRange)
    (hall : Schedule order p all) (hsplit : all = past ++ moments)
    (hs : Tracks field p past s) (ht : Tracks field q (past.map (Moment.renumber ρ)) t)
    (h : Parallel ρ p s t) :
    Meets ρ p (play field moments s) (play field (moments.map (Moment.renumber ρ)) t) := by
  induction moments generalizing past s t with
  | nil => exact .ok h
  | cons m moments ih =>
    have hall' := hall.renumber hrenumbers
    have hsplit' : all.map (Moment.renumber ρ) =
        past.map (Moment.renumber ρ) ++ m.renumber ρ :: moments.map (Moment.renumber ρ) := by
      rw [hsplit, List.map_append, List.map_cons]
    unfold play at ih ⊢
    rw [List.map_cons]
    apply Meets.forM_cons
    . exact meets_perform hrenumbers hrange hall hsplit hs ht h
    intro s' t' hs' ht' h'
    apply ih _ (hs.tick hall hsplit (tick_of_perform hs')) _ h'
    . rw [hsplit, List.append_assoc]
      rfl
    . rw [List.map_append]
      exact ht.tick hall' hsplit' (tick_of_perform ht')

end Moments

end Pass

end Boxing

end Upvalue

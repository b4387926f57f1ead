import Upvalue.Boxing.Pass
import Upvalue.Proofs.Program.Content

/-!
This module contains what every step of the pass can do when it succeeds.
-/

namespace Upvalue.Boxing

namespace State

variable {s s' : State}

/-- The registry after something was recorded for a declaration. -/
def record (s : State) (decl : DeclId) (f : DeclInfo → DeclInfo) : State :=
  { s with registry := s.registry.modify decl f }

theorem depthOf_ok {decl : DeclId} {depth : Nat} (h : s.depthOf decl = .ok depth) :
    ∃ info, s.registry.info? decl = some info ∧ info.depth = depth := by
  unfold depthOf at h
  split at h
  . next info hinfo =>
    cases h
    exact ⟨info, hinfo, rfl⟩
  . cases h

theorem setInitializer_ok {decl : DeclId} {value : ExprId}
    (h : s.setInitializer decl value = .ok s') :
    (∃ info, s.registry.info? decl = some info) ∧
      s' = s.record decl fun info => { info with initializer := some value } := by
  unfold setInitializer Registry.recordInitializer Registry.info at h
  cases hinfo : s.registry.info? decl with
  | none =>
    rw [hinfo] at h
    cases h
  | some info =>
    rw [hinfo] at h
    cases h
    exact ⟨⟨info, rfl⟩, rfl⟩

theorem modifyOwner_ok {decl : DeclId} {f : FunctionScope → FunctionScope}
    (h : s.modifyOwner decl f = .ok s') :
    ∃ info, s.registry.info? decl = some info ∧ 0 < info.depth ∧ info.depth ≤ s.scopes.depth ∧
      s' = { s with scopes := s.scopes.modify info.depth f } := by
  unfold modifyOwner at h
  cases hdepth : s.depthOf decl with
  | error stop =>
    rw [hdepth] at h
    cases h
  | ok depth =>
    rcases depthOf_ok hdepth with ⟨info, hinfo, rfl⟩
    rw [hdepth] at h
    simp only [bind, Except.bind] at h
    split at h
    . cases h
    . next hle =>
      split at h
      . cases h
      . next hopen =>
        cases h
        have hsome : (s.scopes.at? info.depth).isSome = true := by
          rw [Option.isSome_iff_ne_none]
          intro hnone
          rw [hnone] at hopen
          exact hopen rfl
        rw [ScopeStack.isSome_at?_iff] at hsome
        exact ⟨info, hinfo, hsome.1, hsome.2, rfl⟩

theorem boxable?_ok {id : VarId} {result : Option DeclId} (h : s.boxable? id = .ok result) :
    result = s.program.candidate? id := by
  unfold boxable? at h
  unfold Program.candidate? Program.named?
  cases hvar : s.program.var? id with
  | none =>
    rw [hvar] at h
    cases h
  | some var =>
    simp only [hvar, Option.bind_some] at h ⊢
    cases hdecl : var.kind.decl? with
    | none =>
      simp only [hdecl] at h
      cases h
      rfl
    | some decl =>
      simp only [hdecl, Option.bind_some] at h ⊢
      cases hd : s.program.decl? decl with
      | none =>
        simp only [hd] at h
        cases h
      | some d =>
        simp only [hd] at h
        cases h
        rfl

section Note

variable (s : State) (decl : DeclId) (loc : Span)

@[simp]
theorem program_noteAssignment : (s.noteAssignment decl loc).program = s.program := by
  unfold noteAssignment
  split <;> rfl

@[simp]
theorem scopes_noteAssignment : (s.noteAssignment decl loc).scopes = s.scopes := by
  unfold noteAssignment
  split <;> rfl

@[simp]
theorem registry_noteAssignment : (s.noteAssignment decl loc).registry = s.registry := by
  unfold noteAssignment
  split <;> rfl

@[simp]
theorem boxes_noteAssignment : (s.noteAssignment decl loc).boxes = s.boxes := by
  unfold noteAssignment
  split <;> rfl

@[simp]
theorem log_noteAssignment : (s.noteAssignment decl loc).log = s.log := by
  unfold noteAssignment
  split <;> rfl

end Note

theorem assign_ok {target : VarId} (h : s.assign target = .ok s') :
    (s.program.candidate? target = none ∧ s' = s) ∨
      ∃ decl info loc, s.program.candidate? target = some decl ∧
        loc = ((s.program.var? target).map Var.loc).getD Span.dummy ∧
        s.registry.info? decl = some info ∧ 0 < info.depth ∧ info.depth ≤ s.scopes.depth ∧
        s' = { s with scopes := s.scopes.modify info.depth (·.markMutated decl) }.noteAssignment
          decl loc := by
  unfold assign at h
  cases hboxable : s.boxable? target with
  | error stop =>
    rw [hboxable] at h
    cases h
  | ok result =>
    have hresult := boxable?_ok hboxable
    rw [hboxable] at h
    simp only [bind, Except.bind] at h
    cases result with
    | none =>
      cases h
      exact .inl ⟨hresult.symm, rfl⟩
    | some decl =>
      dsimp only at h
      cases howner : s.modifyOwner decl (·.markMutated decl) with
      | error stop =>
        rw [howner] at h
        cases h
      | ok s₁ =>
        rcases modifyOwner_ok howner with ⟨info, hinfo, hpos, hle, rfl⟩
        rw [howner] at h
        cases h
        exact .inr ⟨decl, info, _, hresult.symm, rfl, hinfo, hpos, hle, rfl⟩

/-- A use of a variable is recorded, and marked in the scope of its function if it is captured. -/
theorem reference_ok {name : VarId} (h : s.reference name = .ok s') :
    (s.program.candidate? name = none ∧ s' = s) ∨
      ∃ decl info, s.program.candidate? name = some decl ∧ s.registry.info? decl = some info ∧
        ((info.depth < s.scopes.depth ∧ 1 < info.depth ∧
            s' = { s with
              scopes := s.scopes.modify info.depth (·.markCaptured decl) }.record decl
                fun info => { info with references := info.references.push name }) ∨
          (¬ (info.depth < s.scopes.depth ∧ 1 < info.depth) ∧
            s' = s.record decl fun info =>
              { info with references := info.references.push name })) := by
  unfold reference at h
  cases hboxable : s.boxable? name with
  | error stop =>
    rw [hboxable] at h
    cases h
  | ok result =>
    have hresult := boxable?_ok hboxable
    rw [hboxable] at h
    simp only [bind, Except.bind] at h
    cases result with
    | none =>
      cases h
      exact .inl ⟨hresult.symm, rfl⟩
    | some decl =>
      right
      dsimp only at h
      cases hdepth : s.depthOf decl with
      | error stop =>
        rw [hdepth] at h
        cases h
      | ok depth =>
        rcases depthOf_ok hdepth with ⟨info, hinfo, rfl⟩
        rw [hdepth] at h
        refine ⟨decl, info, hresult.symm, hinfo, ?_⟩
        dsimp only at h
        split at h
        . next hcaptured =>
          left
          cases howner : s.modifyOwner decl (·.markCaptured decl) with
          | error stop =>
            rw [howner] at h
            cases h
          | ok s₁ =>
            rcases modifyOwner_ok howner with ⟨info', hinfo', -, -, rfl⟩
            rw [howner] at h
            rw [hinfo] at hinfo'
            cases hinfo'
            simp only [Registry.recordReference, Registry.info, hinfo, Except.map] at h
            cases h
            exact ⟨hcaptured.1, hcaptured.2, rfl⟩
        . next hcaptured =>
          right
          simp only [pure, Except.pure, Registry.recordReference, Registry.info, hinfo,
            Except.map] at h
          cases h
          exact ⟨hcaptured, rfl⟩

theorem exit_ok {scope : FunctionScope} (h : s.exit = .ok (scope, s')) :
    ∃ stack, s.scopes.exit? = some (scope, stack) ∧
      s' = { s with scopes := stack, log := s.log.push (.left stack.depth) } := by
  unfold exit at h
  split at h
  . next scope' stack hexit =>
    cases h
    exact ⟨stack, hexit, rfl⟩
  . cases h

theorem boxFor_ok {field : String} {decl : DeclId} {b : Box} (h : s.boxFor field decl = .ok b) :
    ∃ d info value, s.program.decl? decl = some d ∧ s.registry.info? decl = some info ∧
      info.initializer = some value ∧
      b = ⟨decl, d.name, d.loc, s.boxes.size + 1, field, d.ty, value, info.references⟩ := by
  unfold boxFor at h
  cases hd : s.program.decl? decl with
  | none =>
    rw [hd] at h
    cases h
  | some d =>
    rw [hd] at h
    dsimp only at h
    cases hinfo : s.registry.info? decl with
    | none =>
      rw [hinfo] at h
      cases h
    | some info =>
      rw [hinfo] at h
      dsimp only at h
      cases hvalue : info.initializer with
      | none =>
        rw [hvalue] at h
        cases h
      | some value =>
        rw [hvalue] at h
        cases h
        exact ⟨d, info, value, rfl, rfl, hvalue, rfl⟩

section Success

variable {decl : DeclId} {info : DeclInfo}

theorem boxable?_of_var? {id : VarId} {var : Var} (hvar : s.program.var? id = some var)
    (hdecl : ∀ decl, var.kind.decl? = some decl → ∃ d, s.program.decl? decl = some d) :
    s.boxable? id = .ok (s.program.candidate? id) := by
  unfold boxable? Program.candidate? Program.named?
  simp only [hvar, Option.bind_some]
  cases hkind : var.kind.decl? with
  | none => rfl
  | some decl =>
    rcases hdecl decl hkind with ⟨d, hd⟩
    simp only [hd, Option.bind_some]

theorem setInitializer_of_info? (value : ExprId) (h : s.registry.info? decl = some info) :
    s.setInitializer decl value =
      .ok (s.record decl fun info => { info with initializer := some value }) := by
  simp [setInitializer, Registry.recordInitializer, Registry.info, h, Except.map, record]

theorem modifyOwner_of_info? {f : FunctionScope → FunctionScope}
    (h : s.registry.info? decl = some info) (hpos : 0 < info.depth)
    (hle : info.depth ≤ s.scopes.depth) :
    s.modifyOwner decl f = .ok { s with scopes := s.scopes.modify info.depth f } := by
  have hopen : (s.scopes.at? info.depth).isSome = true := by
    rw [ScopeStack.isSome_at?_iff]
    exact ⟨hpos, hle⟩
  have hnot : ¬ s.scopes.depth < info.depth := by omega
  have hsome : ¬ (s.scopes.at? info.depth).isNone = true := by
    rw [Option.isNone_iff_eq_none]
    intro hnone
    rw [hnone] at hopen
    cases hopen
  simp only [modifyOwner, depthOf, h, bind, Except.bind, if_neg hnot, if_neg hsome]
  rfl

theorem assign_of_none {target : VarId} (h : s.boxable? target = .ok none) :
    s.assign target = .ok s := by
  simp only [assign, h, bind, Except.bind]
  rfl

theorem assign_of_some {target : VarId} (hboxable : s.boxable? target = .ok (some decl))
    (h : s.registry.info? decl = some info) (hpos : 0 < info.depth)
    (hle : info.depth ≤ s.scopes.depth) :
    ∃ loc, s.assign target =
      .ok ({ s with scopes := s.scopes.modify info.depth (·.markMutated decl) }.noteAssignment
        decl loc) := by
  refine ⟨((s.program.var? target).map Var.loc).getD Span.dummy, ?_⟩
  simp only [assign, hboxable, bind, Except.bind, modifyOwner_of_info? h hpos hle]
  rfl

theorem reference_of_none {name : VarId} (h : s.boxable? name = .ok none) :
    s.reference name = .ok s := by
  simp only [reference, h, bind, Except.bind]
  rfl

theorem reference_of_captured {name : VarId} (hboxable : s.boxable? name = .ok (some decl))
    (h : s.registry.info? decl = some info)
    (hcaptured : info.depth < s.scopes.depth ∧ 1 < info.depth) :
    s.reference name = .ok ({ s with
      scopes := s.scopes.modify info.depth (·.markCaptured decl) }.record decl
        fun info => { info with references := info.references.push name }) := by
  have howner := modifyOwner_of_info? (f := (·.markCaptured decl)) h (by omega) (by omega)
  simp only [reference, hboxable, bind, Except.bind, depthOf, h, if_pos hcaptured, howner,
    Registry.recordReference, Registry.info, Except.map]
  rfl

theorem reference_of_not_captured {name : VarId} (hboxable : s.boxable? name = .ok (some decl))
    (h : s.registry.info? decl = some info)
    (hcaptured : ¬ (info.depth < s.scopes.depth ∧ 1 < info.depth)) :
    s.reference name = .ok (s.record decl
      fun info => { info with references := info.references.push name }) := by
  simp only [reference, hboxable, bind, Except.bind, depthOf, h, if_neg hcaptured, pure,
    Except.pure, Registry.recordReference, Registry.info, Except.map]
  rfl

end Success

end State

end Upvalue.Boxing

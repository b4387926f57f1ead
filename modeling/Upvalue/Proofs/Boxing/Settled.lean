import Upvalue.Proofs.Boxing.Blame
import Upvalue.Proofs.Boxing.Complete

/-!
This module contains what is settled when a function of a program with scopes ends. All uses of its
variables are in the past then, so that exactly its shared variables are to be boxed, in the order
of their first assignments.
-/

namespace Upvalue.Boxing

open Program

/-- A variable has been assigned at a moment, and another one has not been assigned before. -/
def Earlier (p : Program) (past : List Moment) (decl decl' : DeclId) : Prop :=
  ∃ before m after, past = before ++ m :: after ∧ (assignment? p decl m.action).isSome = true ∧
    assignedAt? p before decl' = none

/-- Two ways to split a list at an entry are the same, or one of the entries comes first. -/
theorem split_cases {α : Type} {before before' after after' : List α} {a a' : α}
    (h : before ++ a :: after = before' ++ a' :: after') :
    (before = before' ∧ a = a') ∨ (∃ between, before' = before ++ a :: between) ∨
      ∃ between, before = before' ++ a' :: between := by
  rcases List.append_eq_append_iff.mp h with ⟨w, hw, hafter⟩ | ⟨w, hw, hafter⟩
  . cases w with
    | nil =>
      cases hafter
      simp [hw]
    | cons head w =>
      cases hafter
      exact .inr (.inl ⟨w, hw⟩)
  . cases w with
    | nil =>
      cases hafter
      simp [hw]
    | cons head w =>
      cases hafter
      exact .inr (.inr ⟨w, hw⟩)

section Assignments

variable {p : Program} {past : List Moment} {m : Moment} {decl decl' : DeclId}

theorem isSome_assignment?_iff {action : Action} : (assignment? p decl action).isSome = true ↔
    ∃ target, action = .assign target ∧ p.candidate? target = some decl := by
  cases action with
  | assign target =>
    simp only [assignment?]
    split
    . next hid => simp [hid]
    . next hid => simp [hid]
  | _ => simp [assignment?]

theorem assignedAt?_eq_none_iff : assignedAt? p past decl = none ↔
    ∀ gs target, ⟨gs, .assign target⟩ ∈ past → p.candidate? target ≠ some decl := by
  unfold assignedAt?
  rw [List.findSome?_eq_none_iff]
  constructor
  . intro h gs target hmem hid
    have hnone := h _ hmem
    rw [← Option.not_isSome_iff_eq_none] at hnone
    apply hnone
    rw [isSome_assignment?_iff]
    exact ⟨target, rfl, hid⟩
  . rintro h ⟨gs, action⟩ hmem
    rw [← Option.not_isSome_iff_eq_none, isSome_assignment?_iff]
    rintro ⟨target, rfl, hid⟩
    exact h gs target hmem hid

/-- The first assignment of a variable. -/
theorem exists_first_assignment {loc : Span} (h : assignedAt? p past decl = some loc) :
    ∃ before gs target after, past = before ++ ⟨gs, .assign target⟩ :: after ∧
      p.candidate? target = some decl ∧ assignedAt? p before decl = none ∧
        loc = ((p.var? target).map Var.loc).getD Span.dummy := by
  unfold assignedAt? at h
  rw [List.findSome?_eq_some_iff] at h
  rcases h with ⟨before, ⟨gs, action⟩, after, hpast, hm, hbefore⟩
  have hsome : (assignment? p decl action).isSome = true := Option.isSome_of_eq_some hm
  rw [isSome_assignment?_iff] at hsome
  rcases hsome with ⟨target, rfl, hid⟩
  refine ⟨before, gs, target, after, hpast, hid, ?_, ?_⟩
  . unfold assignedAt?
    rw [List.findSome?_eq_none_iff]
    exact hbefore
  . simp only [assignment?, if_pos hid] at hm
    injection hm with hm
    exact hm.symm

theorem Earlier.append (h : Earlier p past decl decl') : Earlier p (past ++ [m]) decl decl' := by
  rcases h with ⟨before, m', after, rfl, hm', hbefore⟩
  refine ⟨before, m', after ++ [m], ?_, hm', hbefore⟩
  simp

theorem earlier_of_none (hdecl : assignedAt? p past decl ≠ none)
    (hdecl' : assignedAt? p past decl' = none) : Earlier p past decl decl' := by
  rcases Option.ne_none_iff_exists'.mp hdecl with ⟨loc, hloc⟩
  rcases exists_first_assignment hloc with ⟨before, gs, target, after, rfl, hid, -, -⟩
  refine ⟨before, _, after, rfl, isSome_assignment?_iff.mpr ⟨target, rfl, hid⟩, ?_⟩
  rw [assignedAt?_eq_none_iff] at hdecl' ⊢
  intro gs' target' hmem
  exact hdecl' gs' target' (List.mem_append_left _ hmem)

/-- A variable that is assigned later than another one has not been assigned before that one. -/
theorem Earlier.assignedAt?_eq_none (h : Earlier p past decl decl') {before after : List Moment}
    (hpast : past = before ++ m :: after) (hbefore : assignedAt? p before decl = none) :
    assignedAt? p before decl' = none := by
  rcases h with ⟨before', m', after', hpast', hm', hbefore'⟩
  rw [assignedAt?_eq_none_iff] at hbefore hbefore' ⊢
  rcases split_cases (hpast.symm.trans hpast') with ⟨rfl, -⟩ | ⟨between, rfl⟩ | ⟨between, rfl⟩
  . exact hbefore'
  . intro gs target hmem
    exact hbefore' gs target (List.mem_append_left _ hmem)
  . -- The first variable would be assigned at `m'`, which stands before `m`.
    rcases m' with ⟨gs, action⟩
    rcases isSome_assignment?_iff.mp hm' with ⟨target, rfl, hid⟩
    exact absurd hid (hbefore gs target (by simp))

end Assignments

section Order

variable {order : LoopOrder} {field : String} {p : Program} {all past rest : List Moment}
variable {current final : List ExprId} {m : Moment} {s s' : State}

/-- A variable that is marked in an open scope has been assigned, and the other way round. -/
theorem Decides.mem_mutated_iff (h : Decides p all past current s) {home : List ExprId}
    {scope : FunctionScope} {decl : DeclId} (hopen : home <:+ current)
    (hscope : s.scopes.at? (home.length + 1) = some scope) :
    decl ∈ scope.mutated ↔ ⟨home, .register decl⟩ ∈ all ∧ p.Unexported decl ∧
      assignedAt? p past decl ≠ none := by
  have hmutated := h.mutated home scope decl hopen hscope
  unfold FunctionScope.isMutated at hmutated
  rw [decide_eq_true_iff] at hmutated
  rw [hmutated, ne_eq, assignedAt?_eq_none_iff]
  constructor
  . rintro ⟨hmem, gs, target, hassign, hid⟩
    refine ⟨hmem, (candidate?_eq_some_iff.mp hid).2, ?_⟩
    intro hnone
    exact hnone gs target hassign hid
  . rintro ⟨hmem, -, hsome⟩
    simp only [not_forall, not_not] at hsome
    rcases hsome with ⟨gs, target, hassign, hid⟩
    exact ⟨hmem, gs, target, hassign, hid⟩

/-- The variables in a scope are in the order of their first assignments. -/
def Ordered (p : Program) (past : List Moment) (s : State) : Prop :=
  ∀ depth scope, s.scopes.at? depth = some scope → scope.mutated.Pairwise (Earlier p past)

theorem Ordered.start (p : Program) : Ordered p [] (.start p) := by
  intro depth scope hscope
  change ScopeStack.new.at? depth = some scope at hscope
  rw [ScopeStack.at?_new] at hscope
  split at hscope
  . cases hscope
    exact List.Pairwise.nil
  . cases hscope

theorem Ordered.tick (h : Ordered p past s) (hall : Schedule order p all)
    (hscoped : p.WellScoped) (ht : Tracks field p past s) (hdecides : Decides p all past current s)
    (hsplit : all = past ++ m :: rest) (hflow : Follows current [m] final)
    (hs : Tick field m.action s s') : Ordered p (past ++ [m]) s' := by
  intro depth scope hscope
  have hkept {old : FunctionScope} (hold : s.scopes.at? depth = some old) :
      old.mutated.Pairwise (Earlier p (past ++ [m])) :=
    (h depth old hold).imp Earlier.append
  rcases hs.mutated hscope with
    hnil | ⟨old, hold, heq | ⟨target, decl, info, hm, hid, hinfo, hdepth, heq⟩⟩
  . rw [hnil]
    exact List.Pairwise.nil
  . rw [heq]
    apply hkept hold
  . rw [heq]
    unfold FunctionScope.markMutated
    split
    . apply hkept hold
    . next hnew =>
      cases hflow with
      | enter => cases hm
      | leave => cases hm
      | step =>
        dsimp only at hm
        subst hm
        rw [ht.candidate?_of_assign hall hsplit] at hid
        have hwithin : p.Within current (.var target) := by
          apply hall.within_of_assign
          rw [hsplit]
          simp
        rcases hdecides.exists_home hall hscoped hid hinfo hwithin with
          ⟨home, hhome, hlength, hopen⟩
        rw [hdepth, hlength] at hold
        rw [List.pairwise_append]
        refine ⟨?_, List.pairwise_singleton _ _, ?_⟩
        . rw [hdepth, hlength] at hkept
          apply hkept hold
        . intro decl' hold' new hmem
          rw [List.mem_singleton] at hmem
          subst hmem
          rw [hdecides.mem_mutated_iff hopen hold] at hnew hold'
          apply Earlier.append
          apply earlier_of_none hold'.2.2
          by_contra hsome
          exact hnew ⟨hhome, (candidate?_eq_some_iff.mp hid).2, hsome⟩

/-- What the marks say about a part of the run, up to a moment that the pass comes to. -/
theorem decides_of_play (hall : Schedule order p all) (hscoped : p.WellScoped)
    (hsplit : all = past ++ rest) (hflow : Follows [] past current)
    (h : Pass.play field past (.start p) = .ok () s) :
    Decides p all past current s ∧ Ordered p past s := by
  have hinvariant := invariant_of_play
    (P := fun past current s => Decides p all past current s ∧ Ordered p past s) hall
    ⟨.start p all, .start p⟩
    (fun hsplit hflow htracks _ hboth hs =>
      ⟨hboth.1.tick hall hscoped htracks hsplit hflow hs,
        hboth.2.tick hall hscoped htracks hboth.1 hsplit hflow hs⟩)
    hsplit hflow h
  exact hinvariant.2.2

end Order

section Leave

variable {order : LoopOrder} {p : Program} {all past rest : List Moment}
variable {func : ExprId} {outer : List ExprId} {decl : DeclId} {s : State}

/-- All names of a variable of a function are in the past when the function ends. -/
theorem mem_past_of_candidate? (hall : Schedule order p all) (hscoped : p.WellScoped)
    (hsplit : all = past ++ ⟨func :: outer, .leave⟩ :: rest)
    (hhome : ⟨func :: outer, .register decl⟩ ∈ all) {id : VarId}
    (hid : p.candidate? id = some decl) {m : Moment} (hm : m ∈ all) (hne : m.action ≠ .leave)
    (hwithin : p.Within m.around (.var id)) : m ∈ past := by
  have hsuffix := hall.home_suffix hscoped hid hhome hwithin
  apply hall.mem_past_of_leave hsplit hm hne (hsuffix.subset List.mem_cons_self)

/-- The variables that are to be boxed are the ones of the function that are shared. -/
theorem Decides.mem_boxable_iff_shared (h : Decides p all past (func :: outer) s)
    (hall : Schedule order p all) (hscoped : p.WellScoped)
    (hsplit : all = past ++ ⟨func :: outer, .leave⟩ :: rest) {scope : FunctionScope}
    {stack : ScopeStack} (hstack : s.scopes.exit? = some (scope, stack)) :
    decl ∈ scope.boxable ↔
      p.Shared decl ∧ ∃ place position, p.BoundAt decl (func :: outer) place position := by
  have hpast : ∀ m ∈ past, m ∈ all := by
    intro m hm
    rw [hsplit]
    exact List.mem_append_left _ hm
  rw [h.mem_boxable_iff hstack]
  constructor
  . rintro ⟨hassigned, hcaptured⟩
    have hdecl := hassigned.unexported
    have hhome := hassigned.1
    rcases hall.register_mem_iff.mp hhome with ⟨place, position, hbound⟩
    refine ⟨⟨hdecl, ?_, func, outer, place, position, hbound, ?_⟩, place, position, hbound⟩
    . rw [hall.assigned_iff]
      rcases hassigned.2 with ⟨gs, id, hmem, hid⟩
      exact ⟨gs, id, hpast _ hmem, (candidate?_eq_some_iff.mp hid).1⟩
    . rw [← capturedIn_iff hall hscoped hhome hdecl]
      rcases hcaptured with ⟨-, hne, gs, id, hmem, hid⟩
      exact ⟨hhome, hne, gs, id, hpast _ hmem, hid⟩
  . rintro ⟨⟨hdecl, hassigned, func', outer', _, _, hbound', hcaptured⟩, place, position, hbound⟩
    have hhome := hall.register_mem_iff.mpr ⟨place, position, hbound⟩
    have hhome' := hall.register_mem_iff.mpr ⟨_, _, hbound'⟩
    cases hall.home_unique hscoped hdecl hhome hhome'
    rw [← capturedIn_iff hall hscoped hhome hdecl] at hcaptured
    constructor
    . rw [hall.assigned_iff] at hassigned
      rcases hassigned with ⟨gs, id, hmem, hnamed⟩
      have hid := candidate?_eq_some_iff.mpr ⟨hnamed, hdecl⟩
      refine ⟨hhome, gs, id, ?_, hid⟩
      apply mem_past_of_candidate? hall hscoped hsplit hhome hid hmem
      . simp
      . apply hall.within_of_assign hmem
    . rcases hcaptured with ⟨-, hne, gs, id, hmem, hid, hlt⟩
      refine ⟨hhome, hne, gs, id, ?_, hid, hlt⟩
      apply mem_past_of_candidate? hall hscoped hsplit hhome hid hmem
      . simp
      . rw [← hall.reference_mem_iff (candidate?_eq_some_iff.mp hid).1]
        exact hmem

/-- A variable of a function has been initialized when the function ends, or it never is. -/
theorem initializer_mem_past_iff (hall : Schedule order p all) (hscoped : p.WellScoped)
    (hsplit : all = past ++ ⟨func :: outer, .leave⟩ :: rest) (hdecl : p.Unexported decl)
    (hhome : ⟨func :: outer, .register decl⟩ ∈ all) {value : ExprId} :
    (∃ gs, ⟨gs, .initializer decl value⟩ ∈ past) ↔ p.Initializes decl value := by
  rw [← initializer_mem_iff hall]
  constructor
  . rintro ⟨gs, hmem⟩
    refine ⟨gs, ?_⟩
    rw [hsplit]
    exact List.mem_append_left _ hmem
  . rintro ⟨gs, hmem⟩
    refine ⟨gs, ?_⟩
    -- The variable is registered where it is initialized, so this is inside of the function.
    rcases List.append_of_mem hmem with ⟨before, after, hsplit'⟩
    have hregister : ⟨gs, .register decl⟩ ∈ all := by
      rw [hsplit']
      exact List.mem_append_left _ (hall.before_initializer hsplit').2
    apply hall.mem_past_of_leave hsplit hmem
    . simp
    . rw [hall.home_unique hscoped hdecl hregister hhome]
      exact List.mem_cons_self

end Leave

end Upvalue.Boxing

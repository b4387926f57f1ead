import Upvalue.Proofs.Boxing.Settled
import Upvalue.Proofs.Boxing.Validity

/-!
This module contains when the variables of a program with scopes can be boxed. A name must not come
before its variable, and a shared variable must have a value to begin with. The pass stops at the
first moment at which this does not hold.
-/

namespace Upvalue.Boxing

open Program

/-- Whenever a simple name of a variable is visited, the variable has been registered. -/
def Timely (p : Program) (all : List Moment) : Prop :=
  ∀ past around id rest decl, all = past ++ ⟨around, .visit (.var id)⟩ :: rest →
    p.candidate? id = some decl → ∃ home, ⟨home, .register decl⟩ ∈ past

/-- A variable that is bound inside of function literals is shared, and has no value at first. -/
structure Unboxable (p : Program) (around : List ExprId) (decl : DeclId) : Prop where
  shared : p.Shared decl
  bound : ∃ place position, p.BoundAt decl around place position
  uninitialized : ∀ value, ¬ p.Initializes decl value

/-- A variable is assigned that is shared and has no value at first. -/
def AssignsUnboxable (p : Program) (around : List ExprId) (m : Moment) : Prop :=
  ∃ id decl, m.action = .assign id ∧ p.candidate? id = some decl ∧ Unboxable p around decl

/-- What is wrong with a moment, given the moments before. -/
inductive Violation (p : Program) (past : List Moment) : Moment → BoxingError → Prop where
  /-- A name comes before its variable. -/
  | early {around : List ExprId} {action : Action} {id : VarId} {decl : DeclId} {d : Decl}
      (haction : action = .assign id ∨ action = .reference id) (hid : p.candidate? id = some decl)
      (hd : p.decl? decl = some d) (hnone : ∀ home, ⟨home, .register decl⟩ ∉ past) :
      Violation p past ⟨around, action⟩ (.unregisteredDecl decl d.name d.loc)
  /--
  A function ends that has shared variables without a value to begin with. This is the one of them
  that has been assigned first.
  -/
  | uninitialized {around gs : List ExprId} {before after : List Moment} {target : VarId}
      {decl : DeclId} {d : Decl} {var : Var}
      (hpast : past = before ++ ⟨gs, .assign target⟩ :: after)
      (hid : p.candidate? target = some decl) (hdecl : Unboxable p around decl)
      (hfirst : ∀ m ∈ before, ¬ AssignsUnboxable p around m) (hd : p.decl? decl = some d)
      (hvar : p.var? target = some var) :
      Violation p past ⟨around, .leave⟩ (.uninitializedCapture decl d.name d.loc var.loc)

variable {order : LoopOrder} {field : String} {p : Program} {all past rest : List Moment}
variable {current final around : List ExprId} {m : Moment} {s s' : State} {decl : DeclId}
variable {error error' : BoxingError}

section Unique

/-- A list is split in one way at the first entry with a property. -/
theorem split_unique {α : Type} {P : α → Prop} {before before' after after' : List α} {a a' : α}
    (h : before ++ a :: after = before' ++ a' :: after') (ha : P a) (ha' : P a')
    (hbefore : ∀ b ∈ before, ¬ P b) (hbefore' : ∀ b ∈ before', ¬ P b) :
    before = before' ∧ a = a' := by
  rcases split_cases h with hsame | ⟨between, rfl⟩ | ⟨between, rfl⟩
  . exact hsame
  . exact absurd ha (hbefore' a (by simp))
  . exact absurd ha' (hbefore a' (by simp))

/-- A moment is wrong in one way only. -/
theorem Violation.unique (h : Violation p past m error) (h' : Violation p past m error') :
    error = error' := by
  cases h with
  | @early _ action id decl d haction hid hd =>
    cases h' with
    | @early _ _ id' decl' d' haction' hid' hd' =>
      have hsame : id = id' := by
        rcases haction with rfl | rfl <;> simpa using haction'
      subst hsame
      rw [hid] at hid'
      cases hid'
      rw [hd] at hd'
      cases hd'
      rfl
    | uninitialized => simp at haction
  | @uninitialized around _ _ _ target decl d var hpast hid hdecl hfirst hd hvar =>
    cases h' with
    | early haction => simp at haction
    | @uninitialized _ _ _ _ target' decl' d' var' hpast' hid' hdecl' hfirst' hd' hvar' =>
      -- Both are about the first assignment of such a variable.
      have hsame := split_unique (hpast.symm.trans hpast') ⟨target, decl, rfl, hid, hdecl⟩
        ⟨target', decl', rfl, hid', hdecl'⟩ hfirst hfirst'
      cases hsame.2
      rw [hid] at hid'
      cases hid'
      rw [hd] at hd'
      cases hd'
      rw [hvar] at hvar'
      cases hvar'
      rfl

end Unique

section Stop

variable {func : ExprId} {outer : List ExprId} {scope : FunctionScope} {stack : ScopeStack}

theorem not_unboxable_of_initializer (hall : Schedule order p all) (hsplit : all = past ++ rest)
    {gs : List ExprId} {value : ExprId} (hmem : ⟨gs, .initializer decl value⟩ ∈ past) :
    ¬ Unboxable p around decl := by
  intro hdecl
  apply hdecl.uninitialized value
  rw [← initializer_mem_iff hall]
  refine ⟨gs, ?_⟩
  rw [hsplit]
  exact List.mem_append_left _ hmem

theorem unboxable_of_mem (hall : Schedule order p all) (hscoped : p.WellScoped)
    (hsplit : all = past ++ ⟨func :: outer, .leave⟩ :: rest)
    (hdecides : Decides p all past (func :: outer) s)
    (hexit : s.scopes.exit? = some (scope, stack)) (hmem : decl ∈ scope.boxable)
    (hnone : ∀ gs value, ⟨gs, .initializer decl value⟩ ∉ past) :
    Unboxable p (func :: outer) decl := by
  rcases (hdecides.mem_boxable_iff_shared hall hscoped hsplit hexit).mp hmem with
    ⟨hshared, hbound⟩
  refine ⟨hshared, hbound, ?_⟩
  intro value hvalue
  have hhome := hall.register_mem_iff.mpr hbound
  rw [← initializer_mem_past_iff hall hscoped hsplit hshared.1 hhome] at hvalue
  rcases hvalue with ⟨gs, hvalue⟩
  exact hnone gs value hvalue

/-- Of the variables without a value, the one that the pass comes to first is assigned first. -/
theorem assignedAt?_eq_none_of_unboxable (hall : Schedule order p all) (hscoped : p.WellScoped)
    (hsplit : all = past ++ ⟨func :: outer, .leave⟩ :: rest)
    (hdecides : Decides p all past (func :: outer) s) (hordered : Ordered p past s)
    (hexit : s.scopes.exit? = some (scope, stack)) {done later : List DeclId}
    (hboxable : scope.boxable = done ++ decl :: later)
    (hdone : ∀ decl' ∈ done, ∃ gs value, ⟨gs, .initializer decl' value⟩ ∈ past)
    {before after : List Moment} (hpast : past = before ++ m :: after)
    (hbefore : assignedAt? p before decl = none) {decl' : DeclId}
    (hdecl' : Unboxable p (func :: outer) decl') : assignedAt? p before decl' = none := by
  have hmem := (hdecides.mem_boxable_iff_shared hall hscoped hsplit hexit).mpr
    ⟨hdecl'.shared, hdecl'.bound⟩
  rw [hboxable, List.mem_append, List.mem_cons] at hmem
  rcases hmem with hmem | rfl | hmem
  . -- What has been boxed has a value.
    rcases hdone decl' hmem with ⟨gs, value, hvalue⟩
    exact absurd hdecl' (not_unboxable_of_initializer hall hsplit hvalue)
  . exact hbefore
  . have hpairwise : scope.boxable.Pairwise (Earlier p past) := by
      apply List.Pairwise.filter
      apply hordered _ scope (ScopeStack.at?_of_exit? hexit)
    rw [hboxable, List.pairwise_append, List.pairwise_cons] at hpairwise
    apply (hpairwise.2.1.1 decl' hmem).assignedAt?_eq_none hpast hbefore

theorem violation_of_uninitialized (hall : Schedule order p all) (hscoped : p.WellScoped)
    (hsplit : all = past ++ ⟨func :: outer, .leave⟩ :: rest)
    (hdecides : Decides p all past (func :: outer) s) (hordered : Ordered p past s)
    (hexit : s.scopes.exit? = some (scope, stack)) {done later : List DeclId}
    (hboxable : scope.boxable = done ++ decl :: later) {d : Decl} (hd : p.decl? decl = some d)
    (hdone : ∀ decl' ∈ done, ∃ gs value, ⟨gs, .initializer decl' value⟩ ∈ past)
    (hnone : ∀ gs value, ⟨gs, .initializer decl value⟩ ∉ past) :
    Violation p past ⟨func :: outer, .leave⟩
      (.uninitializedCapture decl d.name d.loc ((assignedAt? p past decl).getD .dummy)) := by
  have hmem : decl ∈ scope.boxable := by
    rw [hboxable]
    simp
  have hassigned : assignedAt? p past decl ≠ none := by
    have htop := ScopeStack.at?_of_exit? hexit
    rw [hdecides.depth] at htop
    have hmutated : decl ∈ scope.mutated ↔ _ :=
      hdecides.mem_mutated_iff (List.suffix_refl _) htop
    exact (hmutated.mp (List.mem_of_mem_filter hmem)).2.2
  rcases Option.ne_none_iff_exists'.mp hassigned with ⟨loc, hloc⟩
  rcases exists_first_assignment hloc with ⟨before, gs, target, after, hpast, hid, hbefore, heq⟩
  have hsplit' : all = before ++ ⟨gs, .assign target⟩ ::
      (after ++ ⟨func :: outer, .leave⟩ :: rest) := by
    rw [hsplit, hpast, List.append_assoc, List.cons_append]
  rcases hall.exists_var?_of_assign hsplit' with ⟨var, hvar⟩
  rw [hvar] at heq
  rw [hloc, heq]
  apply Violation.uninitialized hpast hid _ _ hd hvar
  . apply unboxable_of_mem hall hscoped hsplit hdecides hexit hmem hnone
  . rintro ⟨gs', _⟩ hm ⟨id', decl', rfl, hid', hdecl'⟩
    have hnot := assignedAt?_eq_none_of_unboxable hall hscoped hsplit hdecides hordered hexit
      hboxable hdone hpast hbefore hdecl'
    rw [assignedAt?_eq_none_iff] at hnot
    exact hnot gs' id' hm hid'

/-- If the pass stops, the moment violates what a program has to observe. -/
theorem violation_of_fails (hall : Schedule order p all) (hscoped : p.WellScoped)
    (hsplit : all = past ++ m :: rest) (hflow : Follows current [m] final)
    (hdecides : Decides p all past current s) (hordered : Ordered p past s)
    (h : Fails p past s m error) : Violation p past m error := by
  cases h with
  | early haction hid hd hhome => exact .early haction hid hd (home?_eq_none_iff.mp hhome)
  | @closed around home target decl d hid hd hhome hlt =>
    -- The function that declares the variable is around the name, so that it is not deeper.
    exfalso
    have hmem : ⟨home, .register decl⟩ ∈ all := by
      rw [hsplit]
      exact List.mem_append_left _ (mem_of_home? hhome)
    have hwithin : p.Within around (.var target) := by
      apply hall.within_of_assign
      rw [hsplit]
      simp
    have := (hall.home_suffix hscoped hid hmem hwithin).length_le
    omega
  | uninitialized hexit hboxable hd hdone hnone =>
    cases hflow with
    | leave =>
      apply violation_of_uninitialized hall hscoped hsplit hdecides hordered hexit hboxable hd hdone
        hnone
    | step _ hne => simp at hne

/-- The pass does not get past a violation. -/
theorem not_violation_of_tick (hall : Schedule order p all) (hscoped : p.WellScoped)
    (hsplit : all = past ++ m :: rest) (hflow : Follows current [m] final)
    (htracks : Tracks field p past s) (hrecalls : Recalls p past current s)
    (hdecides : Decides p all past current s) (hs : Tick field m.action s s') :
    ¬ Violation p past m error := by
  intro h
  cases h with
  | @early _ action id decl d haction hid hd hnone =>
    have hsame : s.program.candidate? id = p.candidate? id := by
      rcases haction with rfl | rfl
      . apply htracks.candidate?_of_assign hall hsplit
      . apply htracks.candidate?_of_reference hall hsplit
    rcases hs.exists_info haction (hsame.trans hid) with ⟨info, hinfo⟩
    rcases hrecalls.exists_home hinfo with ⟨home, hhome, -⟩
    exact hnone home (mem_of_home? hhome)
  | uninitialized hpast hid hdecl hfirst hd hvar =>
    cases hflow with
    | step _ hne => simp at hne
    | leave =>
      cases hs with
      | leave hexit hboxes =>
        rcases State.exit_ok hexit with ⟨stack, hstack, rfl⟩
        rcases Pass.forM_box_ok hboxes with ⟨boxes, hdecls, hinfo, -⟩
        have hmem := (hdecides.mem_boxable_iff_shared hall hscoped hsplit hstack).mpr
          ⟨hdecl.shared, hdecl.bound⟩
        rw [← hdecls, List.mem_map] at hmem
        rcases hmem with ⟨b, hb, rfl⟩
        rcases hinfo b hb with ⟨-, info, hinfo, hvalue, -⟩
        rcases htracks.initializer b.decl info b.initializer hinfo hvalue with ⟨gs, hmem⟩
        exact not_unboxable_of_initializer hall hsplit hmem hdecl

end Stop

section Observed

/-- A node is visited at one position. -/
theorem eq_of_visit (hall : Schedule order p all) {node : Node} {past' rest' : List Moment}
    {around' : List ExprId} (hsplit : all = past ++ ⟨around, .visit node⟩ :: rest)
    (hsplit' : all = past' ++ ⟨around', .visit node⟩ :: rest') : past = past' := by
  have hnone {past rest : List Moment} {around : List ExprId}
      (hsplit : all = past ++ ⟨around, .visit node⟩ :: rest) :
      ∀ m ∈ past, m.action ≠ .visit node := by
    rintro ⟨gs, _⟩ hm rfl
    apply hall.not_mem_visits hsplit (Schedule.mem_visits hm)
    rw [visits_cons_visit]
    exact List.mem_cons_self
  have hsame := split_unique (P := fun m => m.action = .visit node) (hsplit.symm.trans hsplit') rfl
    rfl (hnone hsplit) (hnone hsplit')
  exact hsame.1

theorem timely_of_observed (hall : Schedule order p all)
    (hobserved : ∀ past m rest error, all = past ++ m :: rest → ¬ Violation p past m error) :
    Timely p all := by
  intro past around id rest decl hsplit hid
  have hnamed := (candidate?_eq_some_iff.mp hid).1
  have hvisit : ⟨around, .visit (.var id)⟩ ∈ all := by
    rw [hsplit]
    simp
  -- The name is used right after its visit.
  have hreference := hall.reference_mem_iff hnamed |>.mpr (hall.within_of_mem hvisit)
  rcases List.append_of_mem hreference with ⟨past', rest', hsplit'⟩
  rcases hall.before_reference hsplit' with ⟨earlier, rfl⟩
  have heq : past = earlier := by
    apply eq_of_visit hall hsplit
    . rw [hsplit', List.append_assoc, List.singleton_append]
  subst heq
  rcases (candidate?_eq_some_iff.mp hid).2 with ⟨d, hd, -⟩
  by_contra hnone
  apply hobserved _ _ _ _ hsplit' (.early (.inr rfl) hid hd _)
  intro home hmem
  apply hnone
  refine ⟨home, ?_⟩
  simpa using hmem

/-- A function ends if something happens inside of it. -/
theorem exists_leave (hall : Schedule order p all) {func : ExprId} {outer : List ExprId}
    (hmem : ⟨func :: outer, .register decl⟩ ∈ all) :
    ∃ past rest, all = past ++ ⟨func :: outer, .leave⟩ :: rest := by
  rcases List.append_of_mem hmem with ⟨past, rest, hsplit⟩
  have hflow := hall.follows
  rw [hsplit] at hflow
  rcases hflow.of_append with ⟨current, -, hflow⟩
  cases hflow with
  | step _ _ hflow =>
    apply List.append_of_mem
    rw [hsplit]
    apply List.mem_append_right
    apply List.mem_cons_of_mem
    apply hflow.mem_leave (List.suffix_refl _)
    simp

theorem initialized_of_observed (hall : Schedule order p all) (hscoped : p.WellScoped)
    (hobserved : ∀ past m rest error, all = past ++ m :: rest → ¬ Violation p past m error)
    (hshared : p.Shared decl) : ∃ value, p.Initializes decl value := by
  by_contra hnone
  rw [not_exists] at hnone
  rcases hshared with ⟨hdecl, hassigned, func, outer, place, position, hbound, hcaptured⟩
  have hunboxable : Unboxable p (func :: outer) decl :=
    ⟨⟨hdecl, hassigned, func, outer, place, position, hbound, hcaptured⟩, ⟨_, _, hbound⟩, hnone⟩
  have hhome := hall.register_mem_iff.mpr ⟨place, position, hbound⟩
  rcases exists_leave hall hhome with ⟨past, rest, hsplit⟩
  rw [hall.assigned_iff] at hassigned
  rcases hassigned with ⟨gs, id, hmem, hnamed⟩
  have hid := candidate?_eq_some_iff.mpr ⟨hnamed, hdecl⟩
  have hpast : ⟨gs, .assign id⟩ ∈ past := by
    apply mem_past_of_candidate? hall hscoped hsplit hhome hid hmem
    . simp
    . apply hall.within_of_assign hmem
  -- The first of these assignments shows which variable is reported.
  classical
  rcases List.exists_of_eraseP (p := fun m => decide (AssignsUnboxable p (func :: outer) m)) hpast
    (decide_eq_true ⟨id, decl, rfl, hid, hunboxable⟩) with
    ⟨⟨gs', _⟩, before, after, hfirst, hassigns, rfl, -⟩
  simp only [decide_eq_true_iff] at hfirst hassigns
  rcases hassigns with ⟨id', decl', rfl, hid', hdecl'⟩
  rcases (candidate?_eq_some_iff.mp hid').2 with ⟨d', hd', -⟩
  have hsplit' : all = before ++ ⟨gs', .assign id'⟩ ::
      (after ++ ⟨func :: outer, .leave⟩ :: rest) := by
    rw [hsplit, List.append_assoc, List.cons_append]
  rcases hall.exists_var?_of_assign hsplit' with ⟨var, hvar⟩
  exact hobserved _ _ _ _ hsplit (.uninitialized rfl hid' hdecl' hfirst hd' hvar)

theorem observed_iff (hall : Schedule order p all) (hscoped : p.WellScoped) :
    (∀ past m rest error, all = past ++ m :: rest → ¬ Violation p past m error) ↔
      Timely p all ∧ ∀ decl, p.Shared decl → ∃ value, p.Initializes decl value := by
  constructor
  . intro hobserved
    exact ⟨timely_of_observed hall hobserved,
      fun _ hshared => initialized_of_observed hall hscoped hobserved hshared⟩
  . rintro ⟨htimely, hinitialized⟩ past m rest error hsplit hviolation
    cases hviolation with
    | uninitialized hpast hid hdecl =>
      rcases hinitialized _ hdecl.shared with ⟨value, hvalue⟩
      exact hdecl.uninitialized value hvalue
    | @early around action id decl d haction hid hd hnone =>
      have hnamed := (candidate?_eq_some_iff.mp hid).1
      cases haction with
      | inl haction =>
        -- The target is visited next.
        subst haction
        rcases hall.after_assign_of_named? hnamed hsplit with ⟨later, rfl⟩
        rw [← List.singleton_append, ← List.append_assoc] at hsplit
        rcases htimely _ _ _ _ _ hsplit hid with ⟨home, hmem⟩
        apply hnone home
        simpa using hmem
      | inr haction =>
        subst haction
        rcases hall.before_reference hsplit with ⟨earlier, rfl⟩
        rw [List.append_assoc, List.singleton_append] at hsplit
        rcases htimely _ _ _ _ _ hsplit hid with ⟨home, hmem⟩
        apply hnone home
        exact List.mem_append_left _ hmem

end Observed

section Verdict

variable {options : Options} {stop : Stop}

/-- There is no violation in a part of the run that the pass gets past. -/
theorem not_violation_of_play (hall : Schedule order p all) (hscoped : p.WellScoped)
    (hsplit : all = past ++ rest) (h : Pass.play field past (.start p) = .ok () s)
    {before after : List Moment} (hpast : past = before ++ m :: after) :
    ¬ Violation p before m error := by
  have hsplit' : all = before ++ m :: (after ++ rest) := by
    rw [hsplit, hpast, List.append_assoc, List.cons_append]
  rw [hpast, Pass.play_append] at h
  cases hbefore : Pass.play field before (.start p) with
  | error stop s₁ =>
    rw [hbefore] at h
    cases h
  | ok _ s₁ =>
    rw [hbefore] at h
    rcases hall.exists_current hsplit' with ⟨current, final, hcurrent, hflow⟩
    rcases recalls_of_play hall hsplit' hcurrent hbefore with ⟨htracks, hrecalls⟩
    have hdecides := (decides_of_play hall hscoped hsplit' hcurrent hbefore).1
    cases hm : Pass.perform field (fun _ => pure ()) m.action s₁ with
    | error stop s₂ =>
      dsimp only at h
      rw [Pass.play_cons_error hm] at h
      cases h
    | ok _ s₂ =>
      apply not_violation_of_tick hall hscoped hsplit' hflow htracks hrecalls hdecides
      apply Pass.tick_of_perform hm

/-- If a run fails, it fails at the first violation. -/
theorem violation_of_error (hall : Schedule options.order p all) (hvalid : p.Valid)
    (hscoped : p.WellScoped) (h : (run options p).verdict = .error stop) :
    ∃ error past m rest, stop = .fault error ∧ all = past ++ m :: rest ∧ Violation p past m error ∧
      ∀ before m' after error', past = before ++ m' :: after → ¬ Violation p before m' error' := by
  rcases exists_fails hall hvalid h with ⟨past, m, rest, s, error, hsplit, hplay, hstop, hfails⟩
  rcases hall.exists_current hsplit with ⟨current, final, hcurrent, hflow⟩
  rcases decides_of_play hall hscoped hsplit hcurrent hplay with ⟨hdecides, hordered⟩
  refine ⟨error, past, m, rest, hstop, hsplit, ?_, ?_⟩
  . apply violation_of_fails hall hscoped hsplit hflow hdecides hordered hfails
  . intro before m' after error' hpast
    apply not_violation_of_play hall hscoped hsplit hplay hpast

theorem observed_of_ok (hall : Schedule options.order p all) (hvalid : p.Valid)
    (hscoped : p.WellScoped) {boxes : Array Box} (hok : (run options p).verdict = .ok boxes)
    (hsplit : all = past ++ m :: rest) : ¬ Violation p past m error := by
  rcases play_of_run_ok hall hvalid hok with ⟨s, hplay, -, -⟩
  have hall' : all = all ++ [] := (List.append_nil all).symm
  apply not_violation_of_play hall hscoped hall' hplay hsplit

/-- A run fails at the first violation. -/
theorem error_of_violation (hall : Schedule options.order p all) (hvalid : p.Valid)
    (hscoped : p.WellScoped) (hsplit : all = past ++ m :: rest) (h : Violation p past m error)
    (hfirst : ∀ before m' after error', past = before ++ m' :: after →
      ¬ Violation p before m' error') :
    (run options p).verdict = .error (.fault error) := by
  cases hverdict : (run options p).verdict with
  | ok boxes => exact absurd h (observed_of_ok hall hvalid hscoped hverdict hsplit)
  | error stop =>
    rcases violation_of_error hall hvalid hscoped hverdict with
      ⟨error', past', m', rest', rfl, hsplit', h', hfirst'⟩
    -- Neither of the two violations comes before the other one.
    rcases split_cases (hsplit.symm.trans hsplit') with
      ⟨rfl, rfl⟩ | ⟨between, hpast⟩ | ⟨between, hpast⟩
    . rw [h.unique h']
    . exact absurd h (hfirst' past _ between error hpast)
    . exact absurd h' (hfirst past' _ between error' hpast)

/--
The variables of a program with scopes can be boxed if and only if every simple name is visited
after its variable has been registered and every shared variable has a value to begin with. If not,
the error is about the first violation in the order of the visits.
-/
theorem scoped_run (options : Options) (p : Program) (hvalid : p.Valid)
    (hscoped : p.WellScoped) :
    ∃ all, Unfolds options.order p [] (planProgram p) all ∧
      Pass.visitProgram options (depthLimit p) (.start p) = Pass.play options.field all (.start p) ∧
      (∀ node, p.Reachable node ↔ node ∈ visits all) ∧
      ((∃ boxes, (run options p).verdict = .ok boxes) ↔
        Timely p all ∧ ∀ decl, p.Shared decl → ∃ value, p.Initializes decl value) ∧
      ∀ stop, (run options p).verdict = .error stop ↔
        ∃ error past m rest, stop = .fault error ∧ all = past ++ m :: rest ∧
          Violation p past m error ∧ ∀ before m' after error', past = before ++ m' :: after →
            ¬ Violation p before m' error' := by
  rcases exists_schedule options.order hvalid with ⟨all, hall⟩
  refine ⟨all, hall.unfolds, Pass.visitProgram_eq_play hall hvalid, fun _ => hall.reachable_iff,
    ?_, ?_⟩
  . rw [← observed_iff hall hscoped]
    constructor
    . rintro ⟨boxes, hok⟩ past m rest error hsplit
      apply observed_of_ok hall hvalid hscoped hok hsplit
    . intro hobserved
      cases hverdict : (run options p).verdict with
      | ok boxes => exact ⟨boxes, rfl⟩
      | error stop =>
        rcases violation_of_error hall hvalid hscoped hverdict with
          ⟨error, past, m, rest, -, hsplit, h, -⟩
        exact absurd h (hobserved past m rest error hsplit)
  . intro stop
    constructor
    . intro h
      apply violation_of_error hall hvalid hscoped h
    . rintro ⟨error, past, m, rest, rfl, hsplit, h, hfirst⟩
      apply error_of_violation hall hvalid hscoped hsplit h hfirst

/-- The nodes of the two functions, each with the function literals around it. -/
def halfwayNodes : List (List ExprId × Node) :=
  [([], .stat ⟨0⟩), ([], .expr ⟨0⟩), ([⟨0⟩], .stat ⟨1⟩), ([⟨0⟩], .expr ⟨1⟩),
    ([⟨1⟩, ⟨0⟩], .stat ⟨2⟩), ([⟨1⟩, ⟨0⟩], .expr ⟨2⟩), ([⟨1⟩, ⟨0⟩], .stat ⟨3⟩),
    ([⟨1⟩, ⟨0⟩], .expr ⟨3⟩), ([⟨3⟩, ⟨1⟩, ⟨0⟩], .stat ⟨4⟩), ([⟨3⟩, ⟨1⟩, ⟨0⟩], .var ⟨0⟩),
    ([⟨3⟩, ⟨1⟩, ⟨0⟩], .expr ⟨4⟩), ([⟨0⟩], .stat ⟨5⟩), ([⟨0⟩], .stat ⟨6⟩), ([⟨0⟩], .expr ⟨5⟩),
    ([⟨5⟩, ⟨0⟩], .stat ⟨7⟩), ([⟨5⟩, ⟨0⟩], .var ⟨1⟩), ([⟨5⟩, ⟨0⟩], .expr ⟨6⟩)]

theorem wellScoped_halfway : halfway.WellScoped :=
  @wellScoped_of_nodes halfway halfwayNodes (by decide) (by decide) (by decide) (by decide)

/-- The variable `z` has no value to begin with, and the outer function ends with a violation. -/
theorem scoped_run_halfway :
    halfway.Valid ∧ halfway.WellScoped ∧
      (run default halfway).verdict =
        .error (.fault (.uninitializedCapture ⟨2⟩ "z" .dummy .dummy)) ∧
      ∃ past m, Violation halfway past m (.uninitializedCapture ⟨2⟩ "z" .dummy .dummy) := by
  have hvalid : halfway.Valid := by decide +kernel
  have hstop : (match (run default halfway).verdict with
      | .ok _ => none
      | .error stop => some stop) =
        some (.fault (.uninitializedCapture ⟨2⟩ "z" .dummy .dummy)) := by decide +kernel
  rcases scoped_run default halfway hvalid wellScoped_halfway with ⟨all, -, -, -, -, herror⟩
  cases hverdict : (run default halfway).verdict with
  | ok boxes =>
    rw [hverdict] at hstop
    cases hstop
  | error stop =>
    rw [hverdict] at hstop
    cases hstop
    rcases (herror _).mp hverdict with ⟨error, past, m, rest, heq, -, hviolation, -⟩
    cases heq
    exact ⟨hvalid, wellScoped_halfway, rfl, past, m, hviolation⟩

end Verdict

end Upvalue.Boxing

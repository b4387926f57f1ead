import Upvalue.Proofs.Boxing.Schedule

/-!
This module contains what the scoping of a program says about its moments: where declarations are
registered, and which function literals are around the names that refer to them.
-/

namespace Upvalue.Boxing

open Program

namespace Schedule

variable {order : LoopOrder} {p : Program} {all : List Moment} {around around' : List ExprId}
variable {decl : DeclId} {id : VarId}

theorem register_mem_iff (h : Schedule order p all) :
    ⟨around, .register decl⟩ ∈ all ↔ ∃ place position, p.BoundAt decl around place position := by
  constructor
  . intro hmem
    rcases h.exists_plan_of_mem hmem with
      ⟨rfl, haction⟩ | ⟨outer, node, plan, hnode, hplan, haction, rfl⟩
    . rw [register_mem_planProgram] at haction
      rcases haction with ⟨index, hbound⟩
      rcases List.getElem?_of_mem hbound with ⟨position, hposition⟩
      exact ⟨.item index, position, .item index, hposition⟩
    . rw [register_mem_plan hplan] at haction
      rcases List.getElem?_of_mem haction with ⟨position, hposition⟩
      exact ⟨.node node, position, .node hnode, hposition⟩
  . rintro ⟨place, position, hplace, hbound⟩
    have hmem := List.mem_of_getElem? hbound
    cases hplace with
    | item index =>
      apply h.unfolds.mem_of_mem
      rw [register_mem_planProgram]
      exact ⟨index, hmem⟩
    | @node outer node hnode =>
      rcases h.unfolds.mem_of_visit (h.mem_of_within hnode) with ⟨plan, hplan, hactions⟩
      apply hactions
      rw [register_mem_plan hplan]
      exact hmem

theorem reference_mem_iff (h : Schedule order p all) (hnamed : p.named? id = some decl) :
    ⟨around, .reference id⟩ ∈ all ↔ p.Within around (.var id) := by
  constructor
  . intro hmem
    rcases List.append_of_mem hmem with ⟨past, rest, hsplit⟩
    rcases h.before_reference hsplit with ⟨earlier, rfl⟩
    apply h.within_of_mem
    rw [hsplit]
    simp
  . intro hwithin
    have hmem := h.mem_of_plan hwithin (plan?_of_named? hnamed) List.mem_cons_self
    exact hmem

theorem within_of_assign (h : Schedule order p all) (hmem : ⟨around, .assign id⟩ ∈ all) :
    p.Within around (.var id) := by
  rcases List.append_of_mem hmem with ⟨past, rest, hsplit⟩
  rcases h.after_assign hsplit with ⟨plan, below, later, -, -, rfl⟩
  apply h.within_of_mem
  rw [hsplit]
  simp

theorem assigned_iff (h : Schedule order p all) :
    p.Assigned decl ↔
      ∃ around id, ⟨around, .assign id⟩ ∈ all ∧ p.named? id = some decl := by
  constructor
  . rintro ⟨stat, loc, vars, exps, id, ⟨outer, hstat⟩, hassign, hid, hnamed⟩
    rcases h.unfolds.mem_of_visit (h.mem_of_within hstat) with ⟨plan, hplan, hactions⟩
    refine ⟨_, id, hactions _ ?_, hnamed⟩
    rw [assign_mem_plan hplan]
    exact ⟨stat, loc, vars, exps, rfl, hassign, hid⟩
  . rintro ⟨around, id, hmem, hnamed⟩
    rcases h.exists_plan_of_mem hmem with
      ⟨-, haction⟩ | ⟨outer, node, plan, hnode, hplan, haction, -⟩
    . exact absurd haction (not_mem_planProgram (by simp) (by simp))
    . rw [assign_mem_plan hplan] at haction
      rcases haction with ⟨stat, loc, vars, exps, rfl, hassign, hid⟩
      exact ⟨stat, loc, vars, exps, id, ⟨outer, hnode⟩, hassign, hid, hnamed⟩

/-- A variable of a program with scopes is declared in one function. -/
theorem home_unique (h : Schedule order p all) (hscoped : p.WellScoped)
    (hdecl : p.Unexported decl) (hmem : ⟨around, .register decl⟩ ∈ all)
    (hmem' : ⟨around', .register decl⟩ ∈ all) : around = around' := by
  rw [h.register_mem_iff] at hmem hmem'
  rcases hmem with ⟨place, position, hplace⟩
  rcases hmem' with ⟨place', position', hplace'⟩
  have hsame := (hscoped.once _ _ _ _ _ _ _ hdecl hplace hplace').1
  subst hsame
  cases hplace.around with
  | item index =>
    cases hplace'.around with
    | item => rfl
  | node hnode =>
    cases hplace'.around with
    | node hnode' => rw [h.around_unique (h.mem_of_within hnode) (h.mem_of_within hnode')]

/-- The function that declares a variable is around all names that refer to the variable. -/
theorem home_suffix (h : Schedule order p all) (hscoped : p.WellScoped)
    (hid : p.candidate? id = some decl) (hmem : ⟨around, .register decl⟩ ∈ all)
    (hwithin : p.Within around' (.var id)) : around <:+ around' := by
  rw [candidate?_eq_some_iff] at hid
  cases around with
  | nil => apply List.nil_suffix
  | cons func outer =>
    have hbound := h.register_mem_iff.mp hmem
    rcases hbound with ⟨place, position, hbound⟩
    have hfunc := hscoped.inside _ _ _ _ _ _ _ hid.2 hbound hwithin hid.1
    apply h.suffix_of_mem hmem (List.suffix_refl _) (h.mem_of_within hwithin) (List.suffix_refl _)
    exact hfunc

theorem register_mem_and (h : Schedule order p all) (hscoped : p.WellScoped)
    (hid : p.candidate? id = some decl) (hmem : ⟨around, .register decl⟩ ∈ all)
    {home : List ExprId} {decl' : DeclId} :
    (⟨home, .register decl'⟩ ∈ all ∧ some decl = some decl') ↔ home = around ∧ decl' = decl := by
  constructor
  . rintro ⟨hmem', heq⟩
    injection heq with heq
    subst heq
    exact ⟨h.home_unique hscoped (candidate?_eq_some_iff.mp hid).2 hmem' hmem, rfl⟩
  . rintro ⟨rfl, rfl⟩
    exact ⟨hmem, rfl⟩

end Schedule

end Upvalue.Boxing

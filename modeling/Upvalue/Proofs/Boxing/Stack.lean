import Upvalue.Boxing.Scope

/-!
This module contains which scopes are at which depth after a function is entered or left and after
a scope is changed, and what the marks in the scopes of the open functions say then.
-/

namespace Upvalue.Boxing

namespace ScopeStack

variable {stack stack' : ScopeStack} {scope : FunctionScope}

theorem at?_new (depth : Nat) : new.at? depth = if depth = 1 then some .empty else none := by
  unfold at? new
  dsimp only
  split
  . next hzero =>
    rw [if_neg]
    omega
  . next hpos =>
    split
    . next hone =>
      rw [hone]
      rfl
    . apply Array.getElem?_eq_none
      simp
      omega

theorem at?_modify (stack : ScopeStack) (depth depth' : Nat) (f : FunctionScope → FunctionScope) :
    (stack.modify depth f).at? depth' =
      if depth' = depth then (stack.at? depth').map f else stack.at? depth' := by
  unfold modify at?
  by_cases hpos' : depth' = 0
  . simp [hpos']
  . by_cases hpos : depth = 0
    . simp [hpos, hpos']
    . rw [if_neg hpos', if_neg hpos', if_neg hpos]
      dsimp only
      rw [Array.getElem?_modify]
      by_cases heq : depth' = depth
      . rw [if_pos (by omega), if_pos heq]
      . rw [if_neg (by omega), if_neg heq]

theorem at?_enter (stack : ScopeStack) (depth : Nat) :
    stack.enter.at? depth = if depth = stack.depth + 1 then some .empty else stack.at? depth := by
  unfold at? enter ScopeStack.depth
  dsimp only
  rw [Array.getElem?_push]
  split
  . next hzero =>
    rw [if_neg]
    omega
  . split
    . rw [if_pos]
      omega
    . rw [if_neg]
      omega

theorem at?_of_exit? (h : stack.exit? = some (scope, stack')) :
    stack.at? stack.depth = some scope := by
  have := stack.size_pos
  simp only [exit?, Option.dite_none_right_eq_some, Option.some.injEq, Prod.mk.injEq] at h
  rcases h with ⟨hsize, rfl, -⟩
  unfold at? ScopeStack.depth
  rw [if_neg (by omega), Array.getElem?_eq_getElem]

theorem at?_exit? (h : stack.exit? = some (scope, stack')) (depth : Nat) :
    stack'.at? depth = if depth < stack.depth then stack.at? depth else none := by
  simp only [exit?, Option.dite_none_right_eq_some, Option.some.injEq, Prod.mk.injEq] at h
  rcases h with ⟨hsize, -, rfl⟩
  unfold at? ScopeStack.depth
  dsimp only
  rw [Array.getElem?_pop]
  by_cases hzero : depth = 0
  . simp [hzero]
  . rw [if_neg hzero, if_neg hzero]
    by_cases hlt : depth < stack.scopes.size
    . rw [if_pos (by omega), if_pos hlt]
    . rw [if_neg (by omega), if_neg hlt]

end ScopeStack

namespace FunctionScope

variable {scope : FunctionScope} {decl decl' : DeclId}

theorem mem_markMutated :
    decl' ∈ (scope.markMutated decl).mutated ↔ decl' = decl ∨ decl' ∈ scope.mutated := by
  unfold markMutated
  split
  . next hmem =>
    constructor
    . exact .inr
    . rintro (rfl | hmem')
      . exact hmem
      . exact hmem'
  . simp [or_comm]

theorem nodup_markMutated (h : scope.mutated.Nodup) : (scope.markMutated decl).mutated.Nodup := by
  unfold markMutated
  split
  . exact h
  . next hmem =>
    rw [List.nodup_append]
    refine ⟨h, by simp, ?_⟩
    intro d hd d' hd'
    rw [List.mem_singleton] at hd'
    rintro rfl
    rw [hd'] at hd
    exact hmem hd

theorem mutated_markCaptured : (scope.markCaptured decl).mutated = scope.mutated := by
  unfold markCaptured
  split <;> rfl

theorem captured_markMutated : (scope.markMutated decl).captured = scope.captured := by
  unfold markMutated
  split <;> rfl

theorem mem_markCaptured :
    decl' ∈ (scope.markCaptured decl).captured ↔ decl' = decl ∨ decl' ∈ scope.captured := by
  unfold markCaptured
  split
  . next hmem =>
    constructor
    . exact .inr
    . rintro (rfl | hmem')
      . exact hmem
      . exact hmem'
  . exact List.mem_cons

theorem nodup_boxable (h : scope.mutated.Nodup) : scope.boxable.Nodup := by
  apply h.filter

end FunctionScope

namespace ScopeStack

/--
The marks in the scopes say what `P` says about the open functions, which are the function literals
of `current` and of all the lists that it ends with.
-/
def Marks (mark : FunctionScope → DeclId → Bool) (P : List ExprId → DeclId → Prop)
    (current : List ExprId) (stack : ScopeStack) : Prop :=
  ∀ around scope decl, around <:+ current → stack.at? (around.length + 1) = some scope →
    (mark scope decl = true ↔ P around decl)

namespace Marks

variable {mark : FunctionScope → DeclId → Bool} {P P' : List ExprId → DeclId → Prop}
variable {current around home : List ExprId} {func : ExprId} {decl : DeclId}
variable {stack stack' : ScopeStack} {scope : FunctionScope} {f : FunctionScope → FunctionScope}

theorem new (hmark : ∀ decl, mark .empty decl = false) (hP : ∀ decl, ¬ P [] decl) :
    Marks mark P [] .new := by
  intro around scope decl haround hscope
  rw [List.suffix_nil] at haround
  subst haround
  rw [List.length_nil, ScopeStack.at?_new, if_pos rfl] at hscope
  injection hscope with hscope
  rw [← hscope, hmark]
  simp [hP]

theorem congr (h : Marks mark P current stack)
    (hP : ∀ around decl, P' around decl ↔ P around decl) : Marks mark P' current stack := by
  intro around scope decl haround hscope
  rw [hP]
  exact h around scope decl haround hscope

/-- A change of the scope of one open function is seen at this function only. -/
theorem at?_modify_cases (hhome : home <:+ current) (haround : around <:+ current)
    (h : (stack.modify (home.length + 1) f).at? (around.length + 1) = some scope) :
    (around = home ∧ ∃ old, stack.at? (around.length + 1) = some old ∧ f old = scope) ∨
      (around ≠ home ∧ stack.at? (around.length + 1) = some scope) := by
  rw [ScopeStack.at?_modify] at h
  split at h
  . next heq =>
    left
    rw [Option.map_eq_some_iff] at h
    refine ⟨?_, h⟩
    apply List.IsSuffix.eq_of_length
    . apply List.suffix_of_suffix_length_le haround hhome
      omega
    . omega
  . next hne =>
    right
    refine ⟨?_, h⟩
    rintro rfl
    exact hne rfl

theorem modify (h : Marks mark P current stack) (hhome : home <:+ current)
    (hf : ∀ scope decl, mark (f scope) decl = mark scope decl) :
    Marks mark P current (stack.modify (home.length + 1) f) := by
  intro around scope decl haround hscope
  rcases at?_modify_cases hhome haround hscope with ⟨rfl, old, hold, rfl⟩ | ⟨-, hold⟩
  . rw [hf]
    exact h around old decl haround hold
  . exact h around scope decl haround hold

theorem modify_mark (h : Marks mark P current stack) (hhome : home <:+ current)
    (hf : ∀ scope decl', mark (f scope) decl' = (decl' == decl || mark scope decl'))
    (hP : ∀ around decl', P' around decl' ↔ P around decl' ∨ (around = home ∧ decl' = decl)) :
    Marks mark P' current (stack.modify (home.length + 1) f) := by
  intro around scope decl' haround hscope
  rw [hP]
  rcases at?_modify_cases hhome haround hscope with ⟨rfl, old, hold, rfl⟩ | ⟨hne, hold⟩
  . rw [hf, Bool.or_eq_true, beq_iff_eq, h around old decl' haround hold]
    simp [or_comm]
  . rw [h around scope decl' haround hold]
    simp [hne]

theorem enter (h : Marks mark P current stack) (hdepth : stack.depth = current.length + 1)
    (hmark : ∀ decl, mark .empty decl = false) (hP : ∀ decl, ¬ P (func :: current) decl) :
    Marks mark P (func :: current) stack.enter := by
  intro around scope decl haround hscope
  rw [at?_enter, hdepth] at hscope
  rw [List.suffix_cons_iff] at haround
  rcases haround with rfl | haround
  . rw [List.length_cons, if_pos rfl] at hscope
    injection hscope with hscope
    rw [← hscope, hmark]
    simp [hP]
  . have := haround.length_le
    rw [if_neg (by omega)] at hscope
    exact h around scope decl haround hscope

theorem exit (h : Marks mark P (func :: current) stack)
    (hexit : stack.exit? = some (scope, stack')) : Marks mark P current stack' := by
  intro around inner decl haround hinner
  rw [at?_exit? hexit] at hinner
  split at hinner
  . exact h around inner decl (haround.trans (List.suffix_cons func current)) hinner
  . cases hinner

end Marks

end ScopeStack

end Upvalue.Boxing

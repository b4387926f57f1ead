import Upvalue.Program.Basic

/-!
This module contains the stack of function scopes: one scope for every function literal that is
being visited, and one for the module level, which is never left. The depth of a declaration is the
height of the stack where it is met first, so that the module level has depth `1`.
-/

namespace Upvalue.Boxing

/-- What one function does to the variables it owns. -/
structure FunctionScope where
  /-- The variables that are assigned, in the order of their first assignments. -/
  mutated : List DeclId
  /-- The variables that are used from a function inside of this one. -/
  captured : List DeclId
deriving DecidableEq, Repr, Inhabited

namespace FunctionScope

/-- The scope of a function that has not done anything yet. -/
def empty : FunctionScope := ⟨[], []⟩

/-- Mark a variable as assigned. Only the first mark of a variable counts. -/
def markMutated (scope : FunctionScope) (decl : DeclId) : FunctionScope :=
  if decl ∈ scope.mutated then scope else { scope with mutated := scope.mutated ++ [decl] }

/-- Mark a variable as used from a function inside. -/
def markCaptured (scope : FunctionScope) (decl : DeclId) : FunctionScope :=
  if decl ∈ scope.captured then scope else { scope with captured := decl :: scope.captured }

def isMutated (scope : FunctionScope) (decl : DeclId) : Bool :=
  decl ∈ scope.mutated

def isCaptured (scope : FunctionScope) (decl : DeclId) : Bool :=
  decl ∈ scope.captured

/-- The variables that are both assigned and captured, in the order of their first assignments. -/
def boxable (scope : FunctionScope) : List DeclId :=
  scope.mutated.filter scope.isCaptured

@[simp]
theorem isMutated_empty (decl : DeclId) : empty.isMutated decl = false := rfl

@[simp]
theorem isCaptured_empty (decl : DeclId) : empty.isCaptured decl = false := rfl

@[simp]
theorem isMutated_markMutated (scope : FunctionScope) (decl decl' : DeclId) :
    (scope.markMutated decl).isMutated decl' = (decl' == decl || scope.isMutated decl') := by
  unfold markMutated isMutated
  by_cases h : decl' = decl <;> split <;> simp_all

@[simp]
theorem isCaptured_markMutated (scope : FunctionScope) (decl decl' : DeclId) :
    (scope.markMutated decl).isCaptured decl' = scope.isCaptured decl' := by
  unfold markMutated isCaptured
  split <;> rfl

@[simp]
theorem isMutated_markCaptured (scope : FunctionScope) (decl decl' : DeclId) :
    (scope.markCaptured decl).isMutated decl' = scope.isMutated decl' := by
  unfold markCaptured isMutated
  split <;> rfl

@[simp]
theorem isCaptured_markCaptured (scope : FunctionScope) (decl decl' : DeclId) :
    (scope.markCaptured decl).isCaptured decl' = (decl' == decl || scope.isCaptured decl') := by
  unfold markCaptured isCaptured
  by_cases h : decl' = decl <;> split <;> simp_all

theorem mem_boxable {scope : FunctionScope} {decl : DeclId} :
    decl ∈ scope.boxable ↔ scope.isMutated decl = true ∧ scope.isCaptured decl = true := by
  simp [boxable, isMutated]

end FunctionScope

/-- The scopes of the functions that are open, from the module level inwards. -/
structure ScopeStack where
  scopes : Array FunctionScope
  size_pos : 0 < scopes.size

namespace ScopeStack

/-- The stack of the module level. -/
def new : ScopeStack := ⟨#[.empty], by decide⟩

instance : Inhabited ScopeStack := ⟨new⟩

def depth (stack : ScopeStack) : Nat :=
  stack.scopes.size

theorem size_pop_pos {scopes : Array FunctionScope} (h : 1 < scopes.size) :
    0 < scopes.pop.size := by
  rw [Array.size_pop]
  omega

theorem size_modify_pos {scopes : Array FunctionScope} (h : 0 < scopes.size) (i : Nat)
    (f : FunctionScope → FunctionScope) : 0 < (scopes.modify i f).size := by
  rw [Array.size_modify]
  exact h

def enter (stack : ScopeStack) : ScopeStack :=
  ⟨stack.scopes.push .empty, by simp⟩

/-- Leave the innermost function. Returns its scope, `none` at the module level. -/
def exit? (stack : ScopeStack) : Option (FunctionScope × ScopeStack) :=
  if h : 1 < stack.scopes.size then
    some (stack.scopes[stack.scopes.size - 1], ⟨stack.scopes.pop, size_pop_pos h⟩)
  else none

/-- The scope at a depth, if it is open. -/
def at? (stack : ScopeStack) (depth : Nat) : Option FunctionScope :=
  if depth = 0 then none else stack.scopes[depth - 1]?

/-- Change the scope at a depth. Nothing happens if it is not open. -/
def modify (stack : ScopeStack) (depth : Nat) (f : FunctionScope → FunctionScope) : ScopeStack :=
  if depth = 0 then stack
  else ⟨stack.scopes.modify (depth - 1) f, size_modify_pos stack.size_pos (depth - 1) f⟩

@[simp]
theorem depth_new : new.depth = 1 := rfl

@[simp]
theorem depth_enter (stack : ScopeStack) : stack.enter.depth = stack.depth + 1 := by
  simp [enter, depth]

@[simp]
theorem depth_modify (stack : ScopeStack) (depth : Nat) (f : FunctionScope → FunctionScope) :
    (stack.modify depth f).depth = stack.depth := by
  unfold modify ScopeStack.depth
  split <;> simp

theorem depth_pos (stack : ScopeStack) : 0 < stack.depth :=
  stack.size_pos

theorem depth_of_exit? {stack : ScopeStack} {scope : FunctionScope} {stack' : ScopeStack}
    (h : stack.exit? = some (scope, stack')) : stack'.depth + 1 = stack.depth := by
  simp only [exit?, Option.dite_none_right_eq_some, Option.some.injEq, Prod.mk.injEq] at h
  obtain ⟨hsize, -, rfl⟩ := h
  simp only [depth, Array.size_pop]
  omega

theorem exit?_eq_none_iff {stack : ScopeStack} : stack.exit? = none ↔ stack.depth = 1 := by
  have := stack.size_pos
  unfold exit? ScopeStack.depth
  split
  · simp only [reduceCtorEq, false_iff]
    omega
  · simp only [true_iff]
    omega

theorem isSome_at?_iff {stack : ScopeStack} {depth : Nat} :
    (stack.at? depth).isSome = true ↔ 0 < depth ∧ depth ≤ stack.depth := by
  unfold at? ScopeStack.depth
  split
  · simp
    omega
  · rw [Option.isSome_iff_exists]
    constructor
    · rintro ⟨scope, hscope⟩
      obtain ⟨hlt, -⟩ := Array.getElem?_eq_some_iff.mp hscope
      omega
    · intro h
      exact ⟨_, Array.getElem?_eq_getElem (by omega)⟩

end ScopeStack

end Upvalue.Boxing

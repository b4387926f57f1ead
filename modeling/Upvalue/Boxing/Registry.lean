import Upvalue.Program.Basic

/-!
This module contains the registry of declarations: the depth a declaration is met at first, every
simple name that refers to it, and the expression it is initialized with last.
-/

namespace Upvalue.Boxing

/-- A declaration is used that is not registered. -/
structure Unregistered where
  decl : DeclId
deriving DecidableEq, Repr

/-- What is known about a declaration. -/
structure DeclInfo where
  depth : Nat
  references : Array VarId
  initializer : Option ExprId
deriving DecidableEq, Repr

/-- What is known about the declarations that have been registered. -/
structure Registry where
  entries : List (DeclId × DeclInfo)
deriving DecidableEq, Repr, Inhabited

namespace Registry

def empty : Registry := ⟨[]⟩

def info? (registry : Registry) (decl : DeclId) : Option DeclInfo :=
  registry.entries.lookup decl

/-- What is known about a declaration, which has to be registered. -/
def info (registry : Registry) (decl : DeclId) : Except Unregistered DeclInfo :=
  match registry.info? decl with
  | some info => .ok info
  | none => .error ⟨decl⟩

/-- Change what is known about a declaration. Nothing happens if it is not registered. -/
def modify (registry : Registry) (decl : DeclId) (f : DeclInfo → DeclInfo) : Registry :=
  ⟨registry.entries.map fun (key, info) => (key, if key = decl then f info else info)⟩

/--
Register a declaration at a depth. Returns whether it is new, a declaration that is registered
already does not change.
-/
def register (registry : Registry) (decl : DeclId) (depth : Nat) : Bool × Registry :=
  if (registry.info? decl).isSome then (false, registry)
  else (true, ⟨(decl, ⟨depth, #[], none⟩) :: registry.entries⟩)

def depth (registry : Registry) (decl : DeclId) : Except Unregistered Nat :=
  (registry.info decl).map DeclInfo.depth

/-- The simple names that refer to a declaration, in the order they were recorded in. -/
def references (registry : Registry) (decl : DeclId) : Except Unregistered (Array VarId) :=
  (registry.info decl).map DeclInfo.references

def initializer (registry : Registry) (decl : DeclId) : Except Unregistered (Option ExprId) :=
  (registry.info decl).map DeclInfo.initializer

/-- Record a simple name that refers to a declaration. -/
def recordReference (registry : Registry) (decl : DeclId) (var : VarId) :
    Except Unregistered Registry :=
  (registry.info decl).map fun _ =>
    registry.modify decl fun info => { info with references := info.references.push var }

/-- Record the expression that a declaration is initialized with. -/
def recordInitializer (registry : Registry) (decl : DeclId) (exp : ExprId) :
    Except Unregistered Registry :=
  (registry.info decl).map fun _ =>
    registry.modify decl fun info => { info with initializer := some exp }

@[simp]
theorem info?_empty (decl : DeclId) : empty.info? decl = none := rfl

theorem info?_modify (registry : Registry) (decl decl' : DeclId) (f : DeclInfo → DeclInfo) :
    (registry.modify decl f).info? decl' =
      if decl' = decl then (registry.info? decl').map f else registry.info? decl' := by
  obtain ⟨entries⟩ := registry
  simp only [modify, info?]
  induction entries with
  | nil => split <;> rfl
  | cons entry entries ih =>
    obtain ⟨key, info⟩ := entry
    simp only [List.map_cons, List.lookup_cons, ih]
    by_cases hkey : decl' = key
    · subst hkey
      by_cases hdecl : decl' = decl <;> simp [hdecl]
    · have hbeq : (decl' == key) = false := by simpa using hkey
      simp only [hbeq]

theorem info?_register (registry : Registry) (decl decl' : DeclId) (depth : Nat) :
    (registry.register decl depth).2.info? decl' =
      if decl' = decl then some ((registry.info? decl).getD ⟨depth, #[], none⟩)
      else registry.info? decl' := by
  unfold register
  split
  · rename_i h
    obtain ⟨info, hinfo⟩ := Option.isSome_iff_exists.mp h
    by_cases hdecl : decl' = decl <;> simp [hdecl, hinfo]
  · rename_i h
    have hinfo : registry.info? decl = none := by simpa using h
    by_cases hdecl : decl' = decl
    · subst hdecl
      rw [hinfo]
      simp [info?]
    · have hbeq : (decl' == decl) = false := by simpa using hdecl
      simp only [info?, List.lookup_cons, hbeq, hdecl, if_false]

@[simp]
theorem register_fst (registry : Registry) (decl : DeclId) (depth : Nat) :
    (registry.register decl depth).1 = (registry.info? decl).isNone := by
  unfold register
  split <;> simp_all

end Registry

end Upvalue.Boxing

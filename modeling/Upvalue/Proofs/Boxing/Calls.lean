import Upvalue.Boxing.Registry
import Mathlib.Data.List.Induction

/-!
This module contains what a registry knows after any number of calls. It knows a declaration since
the first call that registers it, at the depth of this call. It keeps all names and the last
expression that are recorded from then on, and calls for other declarations make no difference.
-/

namespace Upvalue.Boxing.Registry

/-- A call that can change a registry. -/
inductive Call where
  | register (decl : DeclId) (depth : Nat)
  | reference (decl : DeclId) (var : VarId)
  | initializer (decl : DeclId) (exp : ExprId)
deriving DecidableEq, Repr

/-- What a call returns. -/
inductive Answer where
  | registered (isNew : Bool)
  | recorded
  | failed (error : Unregistered)
deriving DecidableEq, Repr

def Call.decl : Call → DeclId
  | .register decl _ | .reference decl _ | .initializer decl _ => decl

/-- A registry in which something is recorded, or which is left as it is if this fails. -/
def settle (registry : Registry) : Except Unregistered Registry → Answer × Registry
  | .ok registry' => (.recorded, registry')
  | .error error => (.failed error, registry)

def call (registry : Registry) : Call → Answer × Registry
  | .register decl depth =>
    let (isNew, registry') := registry.register decl depth
    (.registered isNew, registry')
  | .reference decl var => registry.settle (registry.recordReference decl var)
  | .initializer decl exp => registry.settle (registry.recordInitializer decl exp)

/-- The registry after some calls. It is empty before the first one. -/
def after (calls : List Call) : Registry :=
  calls.foldl (fun registry c => (registry.call c).2) .empty

/-- Some calls with what each of them returns, the first one for a given registry. -/
def logFrom (registry : Registry) : List Call → List (Call × Answer)
  | [] => []
  | c :: calls => (c, (registry.call c).1) :: logFrom (registry.call c).2 calls

def log (calls : List Call) : List (Call × Answer) :=
  logFrom .empty calls

/-- The calls that have recorded something. -/
def recorded (calls : List Call) : List Call :=
  ((log calls).filter fun entry => entry.2 = .recorded).map Prod.fst

/-- The number of calls that were told that a declaration is new. -/
def newCount (decl : DeclId) (calls : List Call) : Nat :=
  (log calls).countP fun entry => entry.1.decl = decl ∧ entry.2 = .registered true

/-- The depth that a call registers a declaration at. -/
def Call.depth? (decl : DeclId) : Call → Option Nat
  | .register decl' depth => if decl' = decl then some depth else none
  | _ => none

/-- The name that a call records for a declaration. -/
def Call.reference? (decl : DeclId) : Call → Option VarId
  | .reference decl' var => if decl' = decl then some var else none
  | _ => none

/-- The expression that a call records for a declaration. -/
def Call.initializer? (decl : DeclId) : Call → Option ExprId
  | .initializer decl' exp => if decl' = decl then some exp else none
  | _ => none

section Calls

variable {registry : Registry} {calls : List Call} {c : Call} {decl : DeclId}

theorem after_append : after (calls ++ [c]) = ((after calls).call c).2 := by
  unfold after
  rw [List.foldl_append]
  rfl

theorem logFrom_append : logFrom registry (calls ++ [c]) = logFrom registry calls ++
    [(c, ((calls.foldl (fun registry c => (registry.call c).2) registry).call c).1)] := by
  induction calls generalizing registry with
  | nil => rfl
  | cons c' calls ih =>
    rw [List.cons_append, logFrom, ih]
    rfl

theorem log_append : log (calls ++ [c]) = log calls ++ [(c, ((after calls).call c).1)] :=
  logFrom_append

theorem recorded_append : recorded (calls ++ [c]) =
    recorded calls ++ if ((after calls).call c).1 = .recorded then [c] else [] := by
  unfold recorded
  rw [log_append, List.filter_append, List.map_append]
  split <;> simp [*]

theorem newCount_append : newCount decl (calls ++ [c]) = newCount decl calls +
    if c.decl = decl ∧ ((after calls).call c).1 = .registered true then 1 else 0 := by
  unfold newCount
  rw [log_append, List.countP_append, List.countP_singleton]
  simp

theorem info_of_none (h : registry.info? decl = none) : registry.info decl = .error ⟨decl⟩ := by
  rw [info, h]

theorem info_of_some {i : DeclInfo} (h : registry.info? decl = some i) :
    registry.info decl = .ok i := by
  rw [info, h]

theorem settle_modify (registry : Registry) (decl : DeclId) (f : DeclInfo → DeclInfo) :
    registry.settle ((registry.info decl).map fun _ => registry.modify decl f) =
      if (registry.info? decl).isSome then (.recorded, registry.modify decl f)
      else (.failed ⟨decl⟩, registry) := by
  unfold info
  cases registry.info? decl <;> rfl

/-! ### Calls for other declarations -/

theorem Call.depth?_of_ne (h : c.decl ≠ decl) : c.depth? decl = none := by
  cases c with
  | register decl' depth => exact if_neg h
  | _ => rfl

theorem Call.reference?_of_ne (h : c.decl ≠ decl) : c.reference? decl = none := by
  cases c with
  | reference decl' var => exact if_neg h
  | _ => rfl

theorem Call.initializer?_of_ne (h : c.decl ≠ decl) : c.initializer? decl = none := by
  cases c with
  | initializer decl' exp => exact if_neg h
  | _ => rfl

theorem info?_call_of_ne (registry : Registry) (h : c.decl ≠ decl) :
    (registry.call c).2.info? decl = registry.info? decl := by
  have hne : decl ≠ c.decl := Ne.symm h
  cases c with
  | register decl' depth =>
    change (registry.register decl' depth).2.info? decl = _
    rw [info?_register]
    exact if_neg hne
  | reference decl' var | initializer decl' exp =>
    simp only [call, recordReference, recordInitializer, settle_modify]
    split
    . rw [info?_modify]
      exact if_neg hne
    . rfl

end Calls

/-! ### What a registry knows -/

/-- What is known about a declaration after some calls is what the calls and their answers say. -/
structure Tells (decl : DeclId) (calls : List Call) : Prop where
  depth : ((after calls).info? decl).map DeclInfo.depth = calls.findSome? (Call.depth? decl)
  references : ((after calls).info? decl).elim [] (·.references.toList) =
    (recorded calls).filterMap (Call.reference? decl)
  initializer : ((after calls).info? decl).bind DeclInfo.initializer =
    ((recorded calls).filterMap (Call.initializer? decl)).getLast?
  newCount : newCount decl calls = if ((after calls).info? decl).isSome then 1 else 0

namespace Tells

variable {calls : List Call} {c : Call} {decl : DeclId}

theorem nil : Tells decl [] := ⟨rfl, rfl, rfl, rfl⟩

theorem other (h : Tells decl calls) (hc : c.decl ≠ decl) : Tells decl (calls ++ [c]) := by
  have hinfo := info?_call_of_ne (after calls) hc
  constructor
  . rw [after_append, hinfo, h.depth, List.findSome?_append, List.findSome?_singleton,
      Call.depth?_of_ne hc, Option.or_none]
  . rw [after_append, hinfo, h.references, recorded_append, List.filterMap_append]
    split <;> simp [Call.reference?_of_ne hc]
  . rw [after_append, hinfo, h.initializer, recorded_append, List.filterMap_append]
    split <;> simp [Call.initializer?_of_ne hc]
  . rw [after_append, hinfo, newCount_append, h.newCount]
    simp [hc]

theorem failed (h : Tells decl calls) {error : Unregistered} (hc : c.depth? decl = none)
    (hcall : (after calls).call c = (.failed error, after calls)) : Tells decl (calls ++ [c]) := by
  constructor
  . rw [after_append, hcall, h.depth, List.findSome?_append, List.findSome?_singleton, hc,
      Option.or_none]
  . rw [after_append, hcall, h.references, recorded_append, hcall]
    simp
  . rw [after_append, hcall, h.initializer, recorded_append, hcall]
    simp
  . rw [after_append, hcall, newCount_append, h.newCount, hcall]
    simp

theorem register (h : Tells decl calls) (depth : Nat) :
    Tells decl (calls ++ [.register decl depth]) := by
  have hafter : (after (calls ++ [.register decl depth])).info? decl =
      some (((after calls).info? decl).getD ⟨depth, #[], none⟩) := by
    rw [after_append]
    change ((after calls).register decl depth).2.info? decl = _
    rw [info?_register, if_pos rfl]
  have hanswer : ((after calls).call (.register decl depth)).1 =
      .registered ((after calls).info? decl).isNone := by
    change Answer.registered ((after calls).register decl depth).1 = _
    rw [register_fst]
  have hrecorded : recorded (calls ++ [.register decl depth]) = recorded calls := by
    rw [recorded_append, hanswer]
    simp
  rcases h with ⟨hdepth, hreferences, hinitializer, hnew⟩
  constructor
  . rw [hafter, List.findSome?_append, ← hdepth]
    cases (after calls).info? decl <;> simp [Call.depth?]
  . rw [hafter, hrecorded, ← hreferences]
    cases (after calls).info? decl <;> rfl
  . rw [hafter, hrecorded, ← hinitializer]
    cases (after calls).info? decl <;> rfl
  . rw [hafter, newCount_append, hanswer, hnew]
    cases (after calls).info? decl <;> simp [Call.decl]

/-- The step of a call that changes what is known about a declaration, if it is registered. -/
theorem change (h : Tells decl calls) (f : DeclInfo → DeclInfo) (hc : c.depth? decl = none)
    (hcall : (after calls).call c = (after calls).settle
      (((after calls).info decl).map fun _ => (after calls).modify decl f))
    (hdepth : ∀ info, (f info).depth = info.depth)
    (hreferences : ∀ info, (f info).references.toList =
      info.references.toList ++ (c.reference? decl).toList)
    (hinitializer : ∀ info, (f info).initializer = (c.initializer? decl).or info.initializer) :
    Tells decl (calls ++ [c]) := by
  rw [settle_modify] at hcall
  cases hinfo : (after calls).info? decl with
  | none =>
    rw [hinfo] at hcall
    exact h.failed hc hcall
  | some info =>
    rw [hinfo, Option.isSome_some, if_pos rfl] at hcall
    have hafter : (after (calls ++ [c])).info? decl = some (f info) := by
      rw [after_append, hcall, info?_modify, if_pos rfl, hinfo]
      rfl
    have hrecorded : recorded (calls ++ [c]) = recorded calls ++ [c] := by
      rw [recorded_append, hcall, if_pos rfl]
    rcases h with ⟨hdepth', hreferences', hinitializer', hnew⟩
    rw [hinfo] at hdepth' hreferences' hinitializer' hnew
    constructor
    . rw [hafter, List.findSome?_append, ← hdepth', List.findSome?_singleton, hc, Option.or_none,
        Option.map_some, hdepth]
      rfl
    . rw [hafter, hrecorded, List.filterMap_append, ← hreferences', List.filterMap_cons]
      cases hreference : c.reference? decl <;> simp [hreferences, hreference]
    . rw [hafter, hrecorded, List.filterMap_append, List.getLast?_append, ← hinitializer',
        List.filterMap_cons]
      cases hvalue : c.initializer? decl <;> simp [hinitializer, hvalue]
    . rw [hafter, newCount_append, hnew, hcall]
      simp

theorem step (h : Tells decl calls) (c : Call) : Tells decl (calls ++ [c]) := by
  by_cases hc : c.decl = decl
  . subst hc
    cases c with
    | register decl depth => exact h.register depth
    | reference decl var =>
      apply h.change (fun info => { info with references := info.references.push var }) rfl rfl
      . exact fun _ => rfl
      . simp [Call.reference?, Call.decl]
      . exact fun _ => rfl
    | initializer decl exp =>
      apply h.change (fun info => { info with initializer := some exp }) rfl rfl
      . exact fun _ => rfl
      . simp [Call.reference?]
      . simp [Call.initializer?, Call.decl]
  . exact h.other hc

end Tells

theorem tells (calls : List Call) (decl : DeclId) : Tells decl calls := by
  induction calls using List.reverseRecOn with
  | nil => exact .nil
  | append_singleton calls c ih => exact ih.step c

section History

variable (calls : List Call) (decl : DeclId)

/-- What the history of a registry says about a declaration. -/
structure Recounts : Prop where
  /-- Before a declaration is registered nothing can be asked or recorded, and nothing changes. -/
  unknown (h : ∀ depth, .register decl depth ∉ calls) :
    (after calls).depth decl = .error ⟨decl⟩ ∧
      (after calls).references decl = .error ⟨decl⟩ ∧
      (after calls).initializer decl = .error ⟨decl⟩ ∧
      (∀ var, (after calls).call (.reference decl var) = (.failed ⟨decl⟩, after calls)) ∧
      (∀ exp, (after calls).call (.initializer decl exp) = (.failed ⟨decl⟩, after calls)) ∧
      ∀ depth, ((after calls).call (.register decl depth)).1 = .registered true
  /--
  The first call that registers a declaration says its depth. From then on everything is answered:
  with all names that have been recorded, in the order of the calls, and with the last expression.
  -/
  known {before rest : List Call} {depth : Nat} (h : calls = before ++ .register decl depth :: rest)
    (hfirst : ∀ depth, .register decl depth ∉ before) :
    (after calls).depth decl = .ok depth ∧
      (after calls).references decl =
        .ok ((recorded calls).filterMap (Call.reference? decl)).toArray ∧
      (after calls).initializer decl =
        .ok ((recorded calls).filterMap (Call.initializer? decl)).getLast? ∧
      (∀ var, ((after calls).call (.reference decl var)).1 = .recorded) ∧
      (∀ exp, ((after calls).call (.initializer decl exp)).1 = .recorded) ∧
      ∀ depth, (after calls).call (.register decl depth) = (.registered false, after calls)
  /-- Exactly one of the calls that register a declaration is told that it is new. -/
  once {depth : Nat} (h : .register decl depth ∈ calls) : newCount decl calls = 1
  /-- A call for another declaration makes no difference. -/
  other {c : Call} (h : c.decl ≠ decl) :
    ((after calls).call c).2.depth decl = (after calls).depth decl ∧
      ((after calls).call c).2.references decl = (after calls).references decl ∧
      ((after calls).call c).2.initializer decl = (after calls).initializer decl

variable {calls decl}

theorem findSome?_depth?_eq_none_iff :
    calls.findSome? (Call.depth? decl) = none ↔ ∀ depth, .register decl depth ∉ calls := by
  rw [List.findSome?_eq_none_iff]
  constructor
  . intro h depth hmem
    have hnone := h _ hmem
    simp [Call.depth?] at hnone
  . intro h c hmem
    cases c with
    | register decl' depth =>
      apply Call.depth?_of_ne
      rintro rfl
      exact h depth hmem
    | _ => rfl

theorem info?_eq_none_iff :
    (after calls).info? decl = none ↔ ∀ depth, .register decl depth ∉ calls := by
  rw [← findSome?_depth?_eq_none_iff, ← (tells calls decl).depth, Option.map_eq_none_iff]

theorem info?_of_register {before rest : List Call} {depth : Nat}
    (h : calls = before ++ .register decl depth :: rest)
    (hfirst : ∀ depth, .register decl depth ∉ before) :
    (after calls).info? decl = some
      ⟨depth, ((recorded calls).filterMap (Call.reference? decl)).toArray,
        ((recorded calls).filterMap (Call.initializer? decl)).getLast?⟩ := by
  have hdepth : calls.findSome? (Call.depth? decl) = some depth := by
    rw [h, List.findSome?_append, findSome?_depth?_eq_none_iff.mpr hfirst, Option.none_or,
      List.findSome?_cons]
    simp [Call.depth?]
  rcases tells calls decl with ⟨hdepth', hreferences, hinitializer, -⟩
  cases hinfo : (after calls).info? decl with
  | none =>
    rw [hinfo, hdepth] at hdepth'
    cases hdepth'
  | some info =>
    rw [hinfo] at hdepth' hreferences hinitializer
    rw [hdepth] at hdepth'
    rw [← hreferences, ← hinitializer, ← Option.some.inj hdepth']
    rfl

/-- Every history recounts what its registry knows about a declaration. -/
theorem recounts_decl (calls : List Call) (decl : DeclId) : Recounts calls decl where
  unknown h := by
    have hinfo? := info?_eq_none_iff.mpr h
    have hinfo := info_of_none hinfo?
    refine ⟨congrArg (·.map DeclInfo.depth) hinfo, congrArg (·.map DeclInfo.references) hinfo,
      congrArg (·.map DeclInfo.initializer) hinfo, ?_, ?_, ?_⟩
    . intro var
      rw [call, recordReference, hinfo]
      rfl
    . intro exp
      rw [call, recordInitializer, hinfo]
      rfl
    . intro depth
      rw [call, register, hinfo?]
      rfl
  known h hfirst := by
    have hinfo? := info?_of_register h hfirst
    have hinfo := info_of_some hinfo?
    refine ⟨congrArg (·.map DeclInfo.depth) hinfo, congrArg (·.map DeclInfo.references) hinfo,
      congrArg (·.map DeclInfo.initializer) hinfo, ?_, ?_, ?_⟩
    . intro var
      rw [call, recordReference, hinfo]
      rfl
    . intro exp
      rw [call, recordInitializer, hinfo]
      rfl
    . intro depth
      rw [call, register, hinfo?]
      rfl
  once {depth} h := by
    rw [(tells calls decl).newCount, if_pos]
    rw [← Option.ne_none_iff_isSome, Ne, info?_eq_none_iff]
    intro hnone
    exact hnone depth h
  other h := by
    have hinfo := info?_call_of_ne (after calls) h
    simp only [Registry.depth, Registry.references, Registry.initializer, info, hinfo, and_self]

end History

end Upvalue.Boxing.Registry

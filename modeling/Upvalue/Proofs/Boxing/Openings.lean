import Upvalue.Boxing.Error
import Upvalue.Proofs.Boxing.Stack
import Mathlib.Data.List.Basic
import Mathlib.Data.List.Induction

/-!
This module contains what a stack of scopes recalls after any number of calls. It has a scope for
the module level and one for every function that has been entered and not been left since, and a
scope recalls the marks that were made at its depth from then on.
-/

namespace Upvalue.Boxing

namespace ScopeStack

/-- A call that can change a stack of scopes. -/
inductive Call where
  | enter
  | exit
  | mutate (depth : Nat) (decl : DeclId)
  | capture (depth : Nat) (decl : DeclId)
deriving DecidableEq, Repr

/-- What a call returns. -/
inductive Answer where
  | entered
  | left (scope : FunctionScope)
  | failed (error : BoxingError)
  | marked
  /-- There is no scope at the depth. -/
  | closed
deriving DecidableEq, Repr

/-- The depth that a call marks something at. -/
def Call.depth? : Call → Option Nat
  | .mutate depth _ | .capture depth _ => some depth
  | _ => none

/-- Mark something in the scope at a depth, if there is one. -/
def mark (stack : ScopeStack) (depth : Nat) (f : FunctionScope → FunctionScope) :
    Answer × ScopeStack :=
  match stack.at? depth with
  | some _ => (.marked, stack.modify depth f)
  | none => (.closed, stack)

def call (stack : ScopeStack) : Call → Answer × ScopeStack
  | .enter => (.entered, stack.enter)
  | .exit =>
    match stack.exit? with
    | some (scope, stack') => (.left scope, stack')
    | none => (.failed .scopeUnderflow, stack)
  | .mutate depth decl => stack.mark depth (·.markMutated decl)
  | .capture depth decl => stack.mark depth (·.markCaptured decl)

/-- The stack after some calls. It has the module level only before the first one. -/
def after (calls : List Call) : ScopeStack :=
  calls.foldl (fun stack c => (stack.call c).2) .new

/--
The number of functions that are open inside of a function after a call, if there are `inner` of
them before. `none` if the function itself is left.
-/
def level? (inner : Nat) : Call → Option Nat
  | .enter => some (inner + 1)
  | .exit => if inner = 0 then none else some (inner - 1)
  | .mutate .. | .capture .. => some inner

/-- The number of functions that are open inside of a function after some calls. -/
def inside? (inner : Nat) (calls : List Call) : Option Nat :=
  calls.foldlM level? inner

/--
The functions that are still open after some calls, from the outermost one inwards. Each is given by
the calls since it was entered.
-/
def openings : List Call → List (List Call)
  | [] => []
  | .enter :: calls =>
    if (inside? 0 calls).isSome then calls :: openings calls else openings calls
  | _ :: calls => openings calls

section Openings

variable {calls rest since : List Call} {c : Call} {inner count : Nat}

theorem after_append : after (calls ++ [c]) = ((after calls).call c).2 := by
  unfold after
  rw [List.foldl_append]
  rfl

theorem inside?_cons :
    inside? inner (c :: calls) = (level? inner c).bind fun inner => inside? inner calls := by
  unfold inside?
  rw [List.foldlM_cons]
  rfl

theorem inside?_append :
    inside? inner (calls ++ [c]) = (inside? inner calls).bind fun inner => level? inner c := by
  unfold inside?
  rw [List.foldlM_append]
  cases calls.foldlM level? inner with
  | none => rfl
  | some inner => exact inside?_cons.trans (Option.bind_fun_some _)

theorem inside?_succ (h : inside? inner calls = some count) :
    inside? (inner + 1) calls = some (count + 1) := by
  induction calls generalizing inner with
  | nil =>
    cases h
    rfl
  | cons c calls ih =>
    rw [inside?_cons] at h ⊢
    cases c with
    | enter => exact ih h
    | exit =>
      cases inner with
      | zero => cases h
      | succ inner => exact ih h
    | mutate depth decl | capture depth decl => exact ih h

theorem inside?_add (h : inside? 0 calls = some count) (inner : Nat) :
    inside? inner calls = some (count + inner) := by
  induction inner with
  | zero => exact h
  | succ inner ih => exact inside?_succ ih

/--
Let `inner` be the least number of functions such that the calls never leave more than there are.
Then all of these are left, and the functions that are open in the end were entered by the calls.
-/
theorem length_openings (h : inside? inner calls = some count)
    (hleft : ∀ outer, inner = outer + 1 → inside? outer calls = none) :
    (openings calls).length = count := by
  induction calls generalizing inner count with
  | nil =>
    change some inner = some count at h
    cases inner with
    | zero => exact Option.some.inj h
    | succ outer => cases hleft outer rfl
  | cons c calls ih =>
    rw [inside?_cons] at h
    simp only [inside?_cons] at hleft
    cases c with
    | enter =>
      cases inner with
      | zero =>
        unfold openings
        cases hopen : inside? 0 calls with
        | none =>
          apply ih h
          rintro outer heq
          cases heq
          exact hopen
        | some count' =>
          have hcount := inside?_succ hopen
          change inside? 1 calls = some count at h
          rw [hcount] at h
          cases h
          rw [Option.isSome_some, if_pos rfl, List.length_cons, ih hopen nofun]
      | succ outer =>
        have hnone : inside? (outer + 1) calls = none := hleft outer rfl
        have hopen : inside? 0 calls = none := by
          cases hopen : inside? 0 calls with
          | none => rfl
          | some count' =>
            rw [inside?_add hopen] at hnone
            cases hnone
        rw [openings, hopen]
        apply ih h
        rintro outer' heq
        cases heq
        exact hnone
    | exit =>
      cases inner with
      | zero => cases h
      | succ inner =>
        apply ih h
        rintro outer rfl
        exact hleft _ rfl
    | mutate depth decl | capture depth decl =>
      apply ih h
      rintro outer rfl
      exact hleft _ rfl

/-- A function that is not left has all functions inside of it that are open. -/
theorem inside?_eq (h : (inside? 0 calls).isSome = true) :
    inside? 0 calls = some (openings calls).length := by
  rcases Option.isSome_iff_exists.mp h with ⟨count, hcount⟩
  rw [hcount, length_openings hcount nofun]

theorem isSome_inside?_append (hc : c ≠ .exit) :
    (inside? inner (calls ++ [c])).isSome = (inside? inner calls).isSome := by
  rw [inside?_append]
  cases inside? inner calls with
  | none => rfl
  | some inner =>
    cases c with
    | exit => exact absurd rfl hc
    | _ => rfl

/-! ### One more call -/

theorem openings_enter :
    openings (calls ++ [.enter]) = (openings calls).map (· ++ [.enter]) ++ [[]] := by
  induction calls with
  | nil => rfl
  | cons c calls ih =>
    cases c with
    | enter =>
      rw [List.cons_append, openings, openings, isSome_inside?_append (by simp), ih]
      split <;> rfl
    | _ => exact ih

theorem openings_mark {depth : Nat} (hc : c.depth? = some depth) :
    openings (calls ++ [c]) = (openings calls).map (· ++ [c]) := by
  have hexit : c ≠ .exit := by
    rintro rfl
    cases hc
  induction calls with
  | nil => cases c <;> first | rfl | cases hc
  | cons c' calls ih =>
    cases c' with
    | enter =>
      rw [List.cons_append, openings, openings, isSome_inside?_append hexit, ih]
      split <;> rfl
    | _ => exact ih

theorem openings_exit :
    openings (calls ++ [.exit]) = (openings calls).dropLast.map (· ++ [.exit]) := by
  induction calls with
  | nil => rfl
  | cons c calls ih =>
    cases c with
    | enter =>
      rw [List.cons_append, openings, openings, inside?_append]
      by_cases hopen : (inside? 0 calls).isSome = true
      . rw [if_pos hopen, inside?_eq hopen, Option.bind_some, level?, ih]
        cases hrest : openings calls with
        | nil => rfl
        | cons since rest => rfl
      . rw [if_neg hopen, Option.not_isSome_iff_eq_none.mp hopen]
        exact ih
    | _ => exact ih

/-! ### Open functions -/

/-- A function is left by the first call before which no function that was entered later is open. -/
theorem isSome_inside?_iff : (inside? inner calls).isSome = true ↔
    ∀ start, start <+: calls → start.count .exit ≤ inner + start.count .enter := by
  induction calls generalizing inner with
  | nil => simp [inside?]
  | cons c calls ih =>
    have hsplit : (∀ start, start <+: c :: calls → start.count .exit ≤ inner + start.count .enter) ↔
        ∀ start, start <+: calls →
          (c :: start).count .exit ≤ inner + (c :: start).count .enter := by
      constructor
      . intro h start hstart
        exact h (c :: start) (List.cons_prefix_cons.mpr ⟨rfl, hstart⟩)
      . intro h start hstart
        cases start with
        | nil => exact Nat.zero_le _
        | cons c' start =>
          rcases List.cons_prefix_cons.mp hstart with ⟨rfl, hstart'⟩
          exact h start hstart'
    rw [hsplit, inside?_cons]
    cases c with
    | enter =>
      change (inside? (inner + 1) calls).isSome = true ↔ _
      rw [ih]
      apply forall₂_congr
      intro start _
      rw [List.count_cons_self, List.count_cons_of_ne (by decide)]
      omega
    | exit =>
      cases inner with
      | zero =>
        constructor
        . nofun
        . intro h
          have hnil := h [] List.nil_prefix
          contradiction
      | succ inner =>
        change (inside? inner calls).isSome = true ↔ _
        rw [ih]
        apply forall₂_congr
        intro start _
        rw [List.count_cons_self, List.count_cons_of_ne (by decide)]
        omega
    | mutate depth decl | capture depth decl =>
      change (inside? inner calls).isSome = true ↔ _
      rw [ih]
      simp

theorem mem_openings_iff :
    since ∈ openings calls ↔ .enter :: since <:+ calls ∧ (inside? 0 since).isSome = true := by
  induction calls with
  | nil => simp [openings]
  | cons c calls ih =>
    rw [List.suffix_cons_iff, or_and_right, ← ih, List.cons.injEq]
    cases c with
    | enter =>
      rw [openings]
      split
      . next hopen =>
        rw [List.mem_cons]
        apply or_congr_left
        constructor
        . rintro rfl
          exact ⟨⟨rfl, rfl⟩, hopen⟩
        . rintro ⟨⟨-, rfl⟩, -⟩
          rfl
      . next hopen =>
        rw [or_iff_right]
        rintro ⟨⟨-, rfl⟩, hopen'⟩
        exact hopen hopen'
    | _ => simp [openings]

/-- Every function is inside of the one in front of it. -/
theorem pairwise_openings :
    (openings calls).Pairwise fun since inner => .enter :: inner <:+ since := by
  induction calls with
  | nil => exact .nil
  | cons c calls ih =>
    cases c with
    | enter =>
      rw [openings]
      split
      . rw [List.pairwise_cons]
        refine ⟨?_, ih⟩
        intro inner hinner
        exact (mem_openings_iff.mp hinner).1
      . exact ih
    | _ => exact ih

end Openings

end ScopeStack

namespace FunctionScope

open ScopeStack

/-- A scope at a depth recalls the marks among the calls since it was opened. -/
structure Recalls (scope : FunctionScope) (depth : Nat) (since : List Call) : Prop where
  mutated : ∀ decl, decl ∈ scope.mutated ↔ .mutate depth decl ∈ since
  captured : ∀ decl, decl ∈ scope.captured ↔ .capture depth decl ∈ since
  ordered : scope.mutated.Pairwise fun decl decl' =>
    since.idxOf (.mutate depth decl) < since.idxOf (.mutate depth decl')

namespace Recalls

variable {scope : FunctionScope} {depth : Nat} {since : List Call} {c : Call} {decl : DeclId}

theorem empty (depth : Nat) : FunctionScope.empty.Recalls depth [] where
  mutated := by simp [FunctionScope.empty]
  captured := by simp [FunctionScope.empty]
  ordered := .nil

/-- Further calls do not change the order of what is marked already. -/
theorem ordered_append (h : scope.Recalls depth since) (c : Call) :
    scope.mutated.Pairwise fun decl decl' =>
      (since ++ [c]).idxOf (.mutate depth decl) < (since ++ [c]).idxOf (.mutate depth decl') := by
  apply h.ordered.imp_of_mem
  intro decl decl' hdecl hdecl' hlt
  rw [h.mutated] at hdecl hdecl'
  rw [List.idxOf_append_of_mem hdecl, List.idxOf_append_of_mem hdecl']
  exact hlt

theorem other (h : scope.Recalls depth since) (hc : c.depth? ≠ some depth) :
    scope.Recalls depth (since ++ [c]) where
  mutated decl := by
    have hne : .mutate depth decl ≠ c := by
      rintro rfl
      exact hc rfl
    rw [List.mem_append, List.mem_singleton, h.mutated]
    simp [hne]
  captured decl := by
    have hne : .capture depth decl ≠ c := by
      rintro rfl
      exact hc rfl
    rw [List.mem_append, List.mem_singleton, h.captured]
    simp [hne]
  ordered := h.ordered_append c

theorem mutate (h : scope.Recalls depth since) (decl : DeclId) :
    (scope.markMutated decl).Recalls depth (since ++ [.mutate depth decl]) where
  mutated decl' := by
    rw [mem_markMutated, h.mutated]
    simp [or_comm]
  captured decl' := by
    rw [captured_markMutated, h.captured]
    simp
  ordered := by
    unfold markMutated
    split
    . exact h.ordered_append _
    . next hnew =>
      rw [List.pairwise_append]
      refine ⟨h.ordered_append _, List.pairwise_singleton _ _, ?_⟩
      intro decl' hdecl' new hnew'
      rw [List.mem_singleton.mp hnew']
      rw [h.mutated] at hnew hdecl'
      rw [List.idxOf_append_of_mem hdecl', List.idxOf_append_of_notMem hnew]
      have := List.idxOf_lt_length_of_mem hdecl'
      omega

theorem capture (h : scope.Recalls depth since) (decl : DeclId) :
    (scope.markCaptured decl).Recalls depth (since ++ [.capture depth decl]) where
  mutated decl' := by
    rw [mutated_markCaptured, h.mutated]
    simp
  captured decl' := by
    rw [mem_markCaptured, h.captured]
    simp [or_comm]
  ordered := by
    rw [mutated_markCaptured]
    exact h.ordered_append _

end Recalls

/-- What is marked in a scope at a depth, and what is boxed if it is left. -/
structure Boxes (scope : FunctionScope) (depth : Nat) (since : List Call) : Prop where
  isMutated_iff : ∀ decl, scope.isMutated decl = true ↔ .mutate depth decl ∈ since
  isCaptured_iff : ∀ decl, scope.isCaptured decl = true ↔ .capture depth decl ∈ since
  mem_iff : ∀ decl,
    decl ∈ scope.boxable ↔ .mutate depth decl ∈ since ∧ .capture depth decl ∈ since
  nodup : scope.boxable.Nodup
  /-- The variables are in the order in which they were first marked as assigned. -/
  ordered : scope.boxable.Pairwise fun decl decl' =>
    since.idxOf (.mutate depth decl) < since.idxOf (.mutate depth decl')

theorem Recalls.boxes {scope : FunctionScope} {depth : Nat} {since : List Call}
    (h : scope.Recalls depth since) : scope.Boxes depth since where
  isMutated_iff decl := by
    rw [isMutated, decide_eq_true_iff, h.mutated]
  isCaptured_iff decl := by
    rw [isCaptured, decide_eq_true_iff, h.captured]
  mem_iff decl := by
    rw [mem_boxable, isMutated, isCaptured, decide_eq_true_iff, decide_eq_true_iff, h.mutated,
      h.captured]
  nodup := by
    apply nodup_boxable
    apply h.ordered.imp
    rintro decl decl' hlt rfl
    exact Nat.lt_irrefl _ hlt
  ordered := h.ordered.filter _

end FunctionScope

namespace ScopeStack

/-- The calls since each scope was opened, that of the module level before all of them. -/
def lives (calls : List Call) : List (List Call) :=
  calls :: openings calls

/-- The scopes of a stack are those of the functions that are open, and recall their calls. -/
structure Tells (calls : List Call) : Prop where
  depth : (after calls).depth = (lives calls).length
  recalls : ∀ depth since scope, (lives calls)[depth]? = some since →
    (after calls).at? (depth + 1) = some scope → scope.Recalls (depth + 1) since

namespace Tells

variable {calls : List Call} {c : Call} {depth : Nat} {decl : DeclId}

theorem nil : Tells [] where
  depth := rfl
  recalls depth since scope hsince hscope := by
    have hzero : depth = 0 := by
      have := (List.getElem?_eq_some_iff.mp hsince).1
      change depth < 1 at this
      omega
    subst hzero
    cases hsince
    cases hscope
    exact .empty 1

theorem enter (h : Tells calls) : Tells (calls ++ [.enter]) := by
  have hlives : lives (calls ++ [.enter]) = (lives calls).map (· ++ [.enter]) ++ [[]] := by
    rw [lives, openings_enter]
    rfl
  have hafter : after (calls ++ [.enter]) = (after calls).enter := after_append
  constructor
  . rw [hafter, hlives, depth_enter, h.depth]
    simp
  . intro depth since scope hsince hscope
    rw [hafter, at?_enter, h.depth] at hscope
    rw [hlives, List.getElem?_append, List.length_map] at hsince
    split at hsince
    . next hlt =>
      rw [if_neg (by omega)] at hscope
      rw [List.getElem?_map, Option.map_eq_some_iff] at hsince
      rcases hsince with ⟨since, hsince, rfl⟩
      exact (h.recalls depth since scope hsince hscope).other (by simp [Call.depth?])
    . next hge =>
      have hlast := (List.getElem?_eq_some_iff.mp hsince).1
      rw [List.length_singleton] at hlast
      have heq : depth = (lives calls).length := by omega
      rw [heq, Nat.sub_self] at hsince
      rw [if_pos (by omega)] at hscope
      cases hsince
      cases hscope
      exact .empty _

theorem exit (h : Tells calls) : Tells (calls ++ [.exit]) := by
  have hlives : lives (calls ++ [.exit]) =
      (calls :: (openings calls).dropLast).map (· ++ [.exit]) := by
    rw [lives, openings_exit]
    rfl
  have hprefix : calls :: (openings calls).dropLast <+: lives calls :=
    List.cons_prefix_cons.mpr ⟨rfl, List.dropLast_prefix _⟩
  have hafter : after (calls ++ [.exit]) = ((after calls).call .exit).2 := after_append
  have hdepth := h.depth
  rw [lives, List.length_cons] at hdepth
  constructor
  . rw [hafter, hlives, List.length_map, List.length_cons, List.length_dropLast, call]
    cases hexit : (after calls).exit? with
    | none =>
      have := exit?_eq_none_iff.mp hexit
      dsimp only
      omega
    | some result =>
      have := depth_of_exit? hexit
      have := result.2.depth_pos
      dsimp only
      omega
  . intro depth since scope hsince hscope
    have hscope : (after calls).at? (depth + 1) = some scope := by
      rw [hafter, call] at hscope
      cases hexit : (after calls).exit? with
      | none =>
        rw [hexit] at hscope
        exact hscope
      | some result =>
        rw [hexit] at hscope
        dsimp only at hscope
        rw [at?_exit? hexit] at hscope
        split at hscope
        . exact hscope
        . cases hscope
    rw [hlives, List.getElem?_map, Option.map_eq_some_iff] at hsince
    rcases hsince with ⟨since, hsince, rfl⟩
    rcases List.getElem?_eq_some_iff.mp hsince with ⟨hlt, rfl⟩
    have hsince := List.prefix_iff_getElem?.mp hprefix depth hlt
    exact (h.recalls depth _ scope hsince hscope).other (by simp [Call.depth?])

theorem mark (h : Tells calls) {f : FunctionScope → FunctionScope} (hc : c.depth? = some depth)
    (hcall : (after calls).call c = (after calls).mark depth f)
    (hf : ∀ scope since, scope.Recalls depth since → (f scope).Recalls depth (since ++ [c])) :
    Tells (calls ++ [c]) := by
  have hlives : lives (calls ++ [c]) = (lives calls).map (· ++ [c]) := by
    rw [lives, openings_mark hc]
    rfl
  have hafter : after (calls ++ [c]) = ((after calls).mark depth f).2 := by
    rw [after_append, hcall]
  constructor
  . rw [hafter, hlives, List.length_map, ← h.depth, ScopeStack.mark]
    split
    . exact depth_modify _ _ _
    . rfl
  . intro depth' since scope hsince hscope
    rw [hlives, List.getElem?_map, Option.map_eq_some_iff] at hsince
    rcases hsince with ⟨since, hsince, rfl⟩
    have hother (scope : FunctionScope) (hne : depth ≠ depth' + 1)
        (hscope : (after calls).at? (depth' + 1) = some scope) :
        scope.Recalls (depth' + 1) (since ++ [c]) := by
      apply (h.recalls depth' since scope hsince hscope).other
      rw [hc]
      simpa using hne
    rw [hafter, ScopeStack.mark] at hscope
    cases hat : (after calls).at? depth with
    | none =>
      rw [hat] at hscope
      apply hother scope _ hscope
      rintro rfl
      rw [hat] at hscope
      cases hscope
    | some old =>
      rw [hat] at hscope
      dsimp only at hscope
      rw [at?_modify] at hscope
      split at hscope
      . next heq =>
        subst heq
        rw [hat] at hscope
        cases hscope
        exact hf old since (h.recalls depth' since old hsince hat)
      . next hne => exact hother scope (Ne.symm hne) hscope

theorem step (h : Tells calls) (c : Call) : Tells (calls ++ [c]) := by
  cases c with
  | enter => exact h.enter
  | exit => exact h.exit
  | mutate depth decl => exact h.mark rfl rfl fun scope since h => h.mutate decl
  | capture depth decl => exact h.mark rfl rfl fun scope since h => h.capture decl

end Tells

theorem tells (calls : List Call) : Tells calls := by
  induction calls using List.reverseRecOn with
  | nil => exact .nil
  | append_singleton calls c ih => exact ih.step c

section History

variable (calls : List Call)

/-- What the history of a stack of scopes says about it. -/
structure Recounts : Prop where
  /-- A function is open if it was entered and never more functions were left than entered since. -/
  opened (since : List Call) : since ∈ openings calls ↔ .enter :: since <:+ calls ∧
    ∀ start, start <+: since → start.count .exit ≤ start.count .enter
  /-- The functions that are open are in the order in which they were entered. -/
  inwards : (openings calls).Pairwise fun since inner => .enter :: inner <:+ since
  /-- There is the module level, and a scope for every function that is open. -/
  depth : (after calls).depth = 1 + (openings calls).length
  /-- A scope has the marks that were made at its depth since it was opened. -/
  boxes {depth : Nat} {since : List Call} (h : (calls :: openings calls)[depth]? = some since) :
    ∃ scope, (after calls).at? (depth + 1) = some scope ∧ scope.Boxes (depth + 1) since
  /-- The module level cannot be left. -/
  underflow (h : (after calls).depth = 1) :
    (after calls).call .exit = (.failed .scopeUnderflow, after calls)
  /-- Otherwise the innermost function is left, with the marks made since it was entered. -/
  left (h : (after calls).depth ≠ 1) : ∃ scope since,
    ((after calls).call .exit).1 = .left scope ∧ (openings calls).getLast? = some since ∧
      scope.Boxes (after calls).depth since ∧
      ∀ depth < (after calls).depth,
        ((after calls).call .exit).2.at? depth = (after calls).at? depth
  /-- Nothing can be marked where no scope is open. -/
  closed {c : Call} {depth : Nat} (h : c.depth? = some depth)
    (hdepth : depth = 0 ∨ (after calls).depth < depth) :
    (after calls).call c = (.closed, after calls)
  /-- A mark changes the scope at its depth only. -/
  marked {c : Call} {depth : Nat} (h : c.depth? = some depth)
    (hdepth : ¬ (depth = 0 ∨ (after calls).depth < depth)) :
    ((after calls).call c).1 = .marked ∧
      ((after calls).call c).2.depth = (after calls).depth ∧
      ∀ depth' ≠ depth, ((after calls).call c).2.at? depth' = (after calls).at? depth'

variable {calls} {c : Call} {depth : Nat} {since : List Call}

theorem exists_at? (h : (lives calls)[depth]? = some since) :
    ∃ scope, (after calls).at? (depth + 1) = some scope ∧ scope.Boxes (depth + 1) since := by
  have hlt := (List.getElem?_eq_some_iff.mp h).1
  rw [← (tells calls).depth] at hlt
  have hsome : ((after calls).at? (depth + 1)).isSome = true := by
    rw [isSome_at?_iff]
    omega
  rcases Option.isSome_iff_exists.mp hsome with ⟨scope, hscope⟩
  exact ⟨scope, hscope, ((tells calls).recalls depth since scope h hscope).boxes⟩

theorem exists_call_eq_mark (h : c.depth? = some depth) :
    ∃ f, ∀ stack : ScopeStack, stack.call c = stack.mark depth f := by
  cases c with
  | mutate depth' decl =>
    cases h
    exact ⟨_, fun _ => rfl⟩
  | capture depth' decl =>
    cases h
    exact ⟨_, fun _ => rfl⟩
  | _ => cases h

theorem exists_innermost (h : (after calls).depth ≠ 1) : ∃ since depth,
    (openings calls).getLast? = some since ∧ (after calls).depth = depth + 1 ∧
      (lives calls)[depth]? = some since := by
  have hdepth := (tells calls).depth
  cases hlast : (openings calls).getLast? with
  | none =>
    rw [lives, List.getLast?_eq_none_iff.mp hlast] at hdepth
    exact absurd hdepth h
  | some since =>
    refine ⟨since, (openings calls).length, rfl, hdepth, ?_⟩
    rw [← hlast, List.getLast?_eq_getElem?, lives]
    cases hopen : openings calls with
    | nil =>
      rw [hopen] at hlast
      cases hlast
    | cons outer rest => rfl

/-- Every history recounts what its stack of scopes has. -/
theorem recounts_scopes (calls : List Call) : Recounts calls where
  opened since := by
    rw [mem_openings_iff, isSome_inside?_iff]
    simp only [Nat.zero_add]
  inwards := pairwise_openings
  depth := by
    rw [(tells calls).depth, lives, List.length_cons, Nat.add_comm]
  boxes h := exists_at? h
  underflow h := by
    rw [call, exit?_eq_none_iff.mpr h]
  left h := by
    rcases exists_innermost h with ⟨since, depth, hlast, hdepth, hsince⟩
    rcases exists_at? hsince with ⟨scope, hscope, hboxes⟩
    cases hexit : (after calls).exit? with
    | none => exact absurd (exit?_eq_none_iff.mp hexit) h
    | some result =>
      have hleft := at?_of_exit? hexit
      rw [hdepth, hscope] at hleft
      refine ⟨scope, since, ?_, hlast, ?_, ?_⟩
      . rw [call, hexit, Option.some.inj hleft]
      . rw [hdepth]
        exact hboxes
      . intro depth' hlt
        rw [call, hexit]
        dsimp only
        rw [at?_exit? hexit, if_pos hlt]
  closed {c depth} h hdepth := by
    rcases exists_call_eq_mark h with ⟨f, hf⟩
    have hnone : (after calls).at? depth = none := by
      rw [← Option.not_isSome_iff_eq_none, isSome_at?_iff]
      omega
    rw [hf, mark, hnone]
  marked {c depth} h hdepth := by
    rcases exists_call_eq_mark h with ⟨f, hf⟩
    have hsome : ((after calls).at? depth).isSome = true := by
      rw [isSome_at?_iff]
      omega
    rcases Option.isSome_iff_exists.mp hsome with ⟨scope, hscope⟩
    rw [hf, mark, hscope]
    refine ⟨rfl, depth_modify _ _ _, ?_⟩
    intro depth' hne
    rw [at?_modify, if_neg hne]

end History

end ScopeStack

end Upvalue.Boxing

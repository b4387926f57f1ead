import Upvalue.Proofs.Boxing.Step
import Mathlib.Logic.Relation

/-!
This module contains the elementary changes of a state. Whatever the pass does, to its end or until
it stops, is a chain of such changes, so that what every change keeps is kept by the pass.
-/

namespace Upvalue.Boxing

/-- One elementary change of a state. Only the last kind changes the program. -/
inductive Change (field : String) : State → State → Prop where
  | register (s : State) (decl : DeclId) : Change field s (s.register decl)
  | initializer {s s' : State} {decl : DeclId} {value : ExprId}
      (h : s.setInitializer decl value = .ok s') : Change field s s'
  | assign {s s' : State} {target : VarId} (h : s.assign target = .ok s') : Change field s s'
  | reference {s s' : State} {name : VarId} (h : s.reference name = .ok s') : Change field s s'
  | enter (s : State) : Change field s s.enter
  | exit {s s' : State} {scope : FunctionScope} (h : s.exit = .ok (scope, s')) : Change field s s'
  | box {s : State} {decl : DeclId} {b : Box} (h : s.boxFor field decl = .ok b) :
      Change field s (s.addBox b)

/-- A state comes from another one by elementary changes. -/
abbrev Changes (field : String) : State → State → Prop :=
  Relation.ReflTransGen (Change field)

namespace Pass

/-- The state that a part of the pass leaves behind, also if it stops. -/
def after (m : Pass Unit) (s : State) : State :=
  match m s with
  | .ok _ s' => s'
  | .error _ s' => s'

theorem after_ok {m : Pass Unit} {s s' : State} (h : m s = .ok () s') : after m s = s' := by
  unfold after
  rw [h]

theorem after_error {m : Pass Unit} {s s' : State} {stop : Stop} (h : m s = .error stop s') :
    after m s = s' := by
  unfold after
  rw [h]

theorem forM_cons_ok {α : Type} {f : α → Pass Unit} {a : α} {as : List α} {s s' : State}
    (h : f a s = .ok () s') : (a :: as).forM f s = as.forM f s' := by
  rw [List.forM_eq_forM, List.forM_cons]
  change EStateM.bind (f a) (fun _ => forM as f) s = _
  unfold EStateM.bind
  rw [h]

theorem forM_cons_error {α : Type} {f : α → Pass Unit} {a : α} {as : List α} {s s' : State}
    {stop : Stop} (h : f a s = .error stop s') : (a :: as).forM f s = .error stop s' := by
  rw [List.forM_eq_forM, List.forM_cons]
  change EStateM.bind (f a) (fun _ => forM as f) s = _
  unfold EStateM.bind
  rw [h]

theorem forM_append {α : Type} {f : α → Pass Unit} (as bs : List α) (s : State) :
    (as ++ bs).forM f s =
      match as.forM f s with
      | .ok _ s' => bs.forM f s'
      | .error stop s' => .error stop s' := by
  induction as generalizing s with
  | nil => rfl
  | cons a as ih =>
    rw [List.cons_append]
    cases h : f a s with
    | ok _ s' => rw [forM_cons_ok h, forM_cons_ok h, ih]
    | error stop s' => rw [forM_cons_error h, forM_cons_error h]

variable {field : String}

theorem changes_forM {α : Type} {f : α → Pass Unit}
    (hf : ∀ a s, Changes field s (after (f a) s)) (as : List α) (s : State) :
    Changes field s (after (as.forM f) s) := by
  induction as generalizing s with
  | nil => exact .refl
  | cons a as ih =>
    have ha := hf a s
    cases h : f a s with
    | ok _ s' =>
      rw [after_ok h] at ha
      unfold after
      rw [forM_cons_ok h]
      exact ha.trans (ih s')
    | error stop s' =>
      rw [after_error h] at ha
      rw [after_error (forM_cons_error h)]
      exact ha

theorem changes_step {f : State → Except Stop State}
    (hf : ∀ s s', f s = .ok s' → Change field s s') (s : State) :
    Changes field s (after (step f) s) := by
  unfold after step
  cases h : f s with
  | ok s' => exact .single (hf s s' h)
  | error stop => exact .refl

theorem changes_box (decl : DeclId) (s : State) : Changes field s (after (box field decl) s) := by
  apply changes_step
  intro s s' h
  cases hbox : s.boxFor field decl with
  | error stop =>
    rw [hbox] at h
    cases h
  | ok b =>
    rw [hbox] at h
    cases h
    exact .box hbox

theorem changes_leave (s : State) : Changes field s (after (leave field) s) := by
  cases h : s.exit with
  | error stop =>
    unfold after leave
    rw [h]
  | ok result =>
    rcases result with ⟨scope, s'⟩
    have hboxes : Changes field s' (after (scope.boxable.forM (box field)) s') := by
      apply changes_forM
      apply changes_box
    have hleave : after (leave field) s = after (scope.boxable.forM (box field)) s' := by
      unfold after leave
      rw [h]
    rw [hleave]
    exact .head (.exit h) hboxes

theorem changes_perform {visit : Node → Pass Unit}
    (hvisit : ∀ node s, Changes field s (after (visit node) s)) (action : Action) (s : State) :
    Changes field s (after (perform field visit action) s) := by
  cases action with
  | visit node => exact hvisit node s
  | register decl => exact .single (.register s decl)
  | initializer decl value =>
    apply changes_step
    intro s s' h
    exact .initializer h
  | assign target =>
    apply changes_step
    intro s s' h
    exact .assign h
  | reference name =>
    apply changes_step
    intro s s' h
    exact .reference h
  | enter => exact .single (.enter s)
  | leave => exact changes_leave s

theorem visit_succ {options : Options} {depth : Nat} {node : Node} {s : State}
    {actions : List Action} (h : plan? options.order s.program node = some actions) :
    visit options (depth + 1) node s =
      actions.forM (perform options.field (visit options depth)) s := by
  rw [visit]
  simp only [h]

theorem visit_succ_none {options : Options} {depth : Nat} {node : Node} {s : State}
    (h : plan? options.order s.program node = none) :
    visit options (depth + 1) node s = .error (.outOfRange (.node node)) s := by
  rw [visit]
  simp only [h]

theorem changes_visit (options : Options) (depth : Nat) (node : Node) (s : State) :
    Changes options.field s (after (visit options depth node) s) := by
  induction depth generalizing node s with
  | zero => exact .refl
  | succ depth ih =>
    cases hplan : plan? options.order s.program node with
    | none =>
      rw [after_error (visit_succ_none hplan)]
    | some actions =>
      have := changes_forM (changes_perform ih) actions s
      unfold after at this ⊢
      rwa [visit_succ hplan]

/-- The pass is a chain of elementary changes, up to its end or to the step that stops it. -/
theorem changes_visitProgram (options : Options) (depth : Nat) (s : State) :
    Changes options.field s (after (visitProgram options depth) s) := by
  have := changes_forM (changes_perform (changes_visit options depth)) (planProgram s.program) s
  exact this

end Pass

section Program

variable {field : String} {s s' : State}

theorem Change.program (h : Change field s s') :
    (s'.program = s.program ∧ s'.boxes = s.boxes) ∨
      ∃ b : Box, s'.program = b.apply s.program ∧ s'.boxes = s.boxes.push b ∧
        b.number = s.boxes.size + 1 ∧ ∃ d, s.program.decl? b.decl = some d ∧
          b.name = d.name ∧ b.loc = d.loc ∧ b.valueTy = d.ty := by
  cases h with
  | register decl => exact .inl ⟨rfl, rfl⟩
  | initializer h =>
    rcases State.setInitializer_ok h with ⟨-, rfl⟩
    exact .inl ⟨rfl, rfl⟩
  | assign h =>
    left
    rcases State.assign_ok h with ⟨-, rfl⟩ | ⟨decl, info, loc, -, -, -, -, -, rfl⟩
    . exact ⟨rfl, rfl⟩
    . simp
  | reference h =>
    left
    rcases State.reference_ok h with ⟨-, rfl⟩ | ⟨decl, info, -, -, ⟨-, -, rfl⟩ | ⟨-, rfl⟩⟩
    . exact ⟨rfl, rfl⟩
    . exact ⟨rfl, rfl⟩
    . exact ⟨rfl, rfl⟩
  | enter => exact .inl ⟨rfl, rfl⟩
  | exit h =>
    rcases State.exit_ok h with ⟨stack, -, rfl⟩
    exact .inl ⟨rfl, rfl⟩
  | @box _ b h =>
    rcases State.boxFor_ok h with ⟨d, info, value, hd, -, -, rfl⟩
    exact .inr ⟨_, rfl, rfl, rfl, d, hd, rfl, rfl, rfl⟩

theorem Changes.program {p : Program} (h : Changes field s s')
    (hs : s.program = s.boxes.toList.foldl (fun q b => b.apply q) p) :
    s'.program = s'.boxes.toList.foldl (fun q b => b.apply q) p := by
  induction h with
  | refl => exact hs
  | tail _ hchange ih =>
    rcases hchange.program with ⟨hprogram, hboxes⟩ | ⟨b, hprogram, hboxes, -⟩
    . rw [hprogram, hboxes, ih]
    . rw [hprogram, hboxes, Array.toList_push, List.foldl_append, ih]
      rfl

theorem Changes.boxes_subset (h : Changes field s s') : s.boxes.toList ⊆ s'.boxes.toList := by
  induction h with
  | refl => exact List.Subset.refl _
  | tail _ hchange ih =>
    rcases hchange.program with ⟨-, hboxes⟩ | ⟨b, -, hboxes, -⟩
    . rw [hboxes]
      exact ih
    . rw [hboxes, Array.toList_push]
      exact List.Subset.trans ih (List.subset_append_left _ _)

/-- The state in which the pass over a program ends. -/
def finalState (options : Options) (p : Program) : State :=
  (Pass.visitProgram options (depthLimit p)).after (.start p)

theorem run_ok {options : Options} {p : Program} {boxes : Array Box}
    (h : (run options p).verdict = .ok boxes) :
    Pass.visitProgram options (depthLimit p) (.start p) = .ok () (finalState options p) ∧
      (finalState options p).boxes = boxes := by
  unfold run at h
  unfold finalState
  cases hpass : Pass.visitProgram options (depthLimit p) (.start p) with
  | error stop s =>
    rw [hpass] at h
    cases h
  | ok _ s =>
    rw [hpass] at h
    rw [Pass.after_ok hpass]
    cases h
    exact ⟨rfl, rfl⟩

theorem log_run (options : Options) (p : Program) :
    (run options p).log = (finalState options p).log := by
  unfold run finalState Pass.after
  cases Pass.visitProgram options (depthLimit p) (.start p) <;> rfl

theorem program_finalState (options : Options) (p : Program) :
    (finalState options p).program =
      (finalState options p).boxes.toList.foldl (fun q b => b.apply q) p :=
  (Pass.changes_visitProgram options (depthLimit p) (.start p)).program rfl

/-- Beyond what the boxes do, a run appends the items of the boxes, or nothing if it stops. -/
theorem run_program_eq (options : Options) (p : Program) :
    ∃ items : Array Toplevel, (∀ item ∈ items, item.refs = []) ∧
      (run options p).program =
        { (finalState options p).program with
          items := (finalState options p).program.items ++ items } := by
  unfold run finalState Pass.after
  cases Pass.visitProgram options (depthLimit p) (.start p) with
  | ok result s =>
    refine ⟨s.boxes.map Box.item, ?_, rfl⟩
    intro item hitem
    rcases Array.mem_map.mp hitem with ⟨b, -, rfl⟩
    rfl
  | error stop s =>
    refine ⟨#[], ?_, ?_⟩
    . intro item hitem
      cases Array.not_mem_empty item hitem
    . dsimp only
      rw [Array.append_empty]

end Program

end Upvalue.Boxing

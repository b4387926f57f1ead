import Upvalue.Proofs.Boxing.Cover
import Upvalue.Proofs.Boxing.Noted
import Upvalue.Proofs.Boxing.Unbox

/-!
This module contains what a run leaves behind that stops before the end of the program: whole boxes.
The boxes that have been written down are applied, each of them to the declaration, to the value and
to all names that were known of the variable, and nothing else has changed.
-/

namespace Upvalue

namespace Box

/-- The second program is the first one with a variable moved into its box, in all of its parts. -/
structure Moves (b : Box) (p q : Program) : Prop where
  decl : ∃ d, p.decl? b.decl = some d ∧ b.valueTy = d.ty ∧
    q.decl? b.decl = some { d with ty := b.ty }
  value : ∃ value moved, p.expr? b.initializer = some value ∧
    q.expr? b.initializer = some ⟨value.loc, b.ty, .initList [⟨some b.field, moved⟩]⟩
  names : ∀ id ∈ b.references, ∃ var base, p.var? id = some var ∧
    q.var? id = some ⟨var.loc, b.valueTy, .dot base b.field⟩

variable {p : Program} {b : Box} {boxes : List Box} {id : VarId} {ids : List VarId}

section Parts

theorem sizeOf_valueTy_lt : sizeOf b.valueTy < sizeOf b.ty := by
  unfold Box.ty Ty.box
  simp only [Ty.record.sizeOf_spec, List.cons.sizeOf_spec, Prod.mk.sizeOf_spec]
  omega

theorem size_decls_apply : (b.apply p).decls.size = p.decls.size := by
  rw [decls_apply, size_decls_retype]

theorem expr?_wrap_initializer {value : Expr} (h : p.expr? b.initializer = some value) :
    (b.wrap p).expr? b.initializer =
      some ⟨value.loc, b.ty, .initList [⟨some b.field, p.nextExpr⟩]⟩ := by
  have hlt : b.initializer.index.toNat < (p.addExpr value).exprs.size := by
    unfold Program.expr? at h
    rw [Array.getElem?_eq_some_iff] at h
    rcases h with ⟨hlt, -⟩
    unfold Program.addExpr
    rw [Array.size_push]
    omega
  unfold wrap
  rw [h]
  unfold Program.setExpr Program.expr?
  rw [Array.getElem?_setIfInBounds_self_of_lt hlt]

theorem var?_access_self {var : Var} (h : p.var? id = some var) :
    (b.access p id).var? id = some ⟨var.loc, b.valueTy, .dot p.nextExpr b.field⟩ := by
  have hlt : id.index.toNat < (p.addVar ⟨var.loc, b.ty, var.kind⟩).vars.size := by
    unfold Program.var? at h
    rw [Array.getElem?_eq_some_iff] at h
    rcases h with ⟨hlt, -⟩
    unfold Program.addVar
    rw [Array.size_push]
    omega
  unfold access
  rw [h]
  unfold Program.setVar Program.var? Program.addExpr
  rw [Array.getElem?_setIfInBounds_self_of_lt hlt]

theorem var?_foldl_access_of_mem (hnodup : ids.Nodup) (hid : id ∈ ids) {var : Var}
    (h : p.var? id = some var) : ∃ base, (ids.foldl b.access p).var? id =
      some ⟨var.loc, b.valueTy, .dot base b.field⟩ := by
  induction ids generalizing p with
  | nil => cases hid
  | cons id' ids ih =>
    rw [List.nodup_cons] at hnodup
    rw [List.mem_cons] at hid
    rw [List.foldl_cons]
    cases hid with
    | inl heq =>
      subst heq
      exact ⟨_, b.var?_foldl_access hnodup.1 (var?_access_self h)⟩
    | inr hid =>
      apply ih hnodup.2 hid
      apply b.var?_access_of_ne _ h
      rintro rfl
      exact hnodup.1 hid

/-- Applying a box does all of its parts, if they are there. -/
theorem moves_apply (hdecl : ∃ d, p.decl? b.decl = some d ∧ b.valueTy = d.ty)
    (hvalue : ∃ value, p.expr? b.initializer = some value)
    (hnames : ∀ id ∈ b.references, ∃ var, p.var? id = some var)
    (hnodup : b.references.toList.Nodup) : b.Moves p (b.apply p) := by
  constructor
  . rcases hdecl with ⟨d, hd, hty⟩
    refine ⟨d, hd, hty, ?_⟩
    rw [decl?_apply, if_pos rfl, hd, Option.map_some]
  . rcases hvalue with ⟨value, hvalue⟩
    refine ⟨value, (b.retype p).nextExpr, hvalue, ?_⟩
    rw [apply_eq]
    apply b.expr?_foldl_access
    apply expr?_wrap_initializer
    rw [expr?_retype, hvalue]
  . intro id hid
    rcases hnames id hid with ⟨var, hvar⟩
    rw [apply_eq]
    have hvar' : (b.wrap (b.retype p)).var? id = some var := by
      rw [var?_wrap, var?_retype, hvar]
    rcases var?_foldl_access_of_mem hnodup (Array.mem_toList_iff.mpr hid) hvar' with
      ⟨base, haccess⟩
    exact ⟨var, base, hvar, haccess⟩

theorem constructs_apply {id : ExprId} (h : p.Constructs b.field id) :
    (b.apply p).Constructs b.field id := by
  rcases h with ⟨loc, ty, value, hexpr⟩
  by_cases heq : id = b.initializer
  . subst heq
    have hwrapped := hexpr
    rw [← b.expr?_retype] at hwrapped
    rw [apply_eq]
    exact ⟨_, _, _, b.expr?_foldl_access (expr?_wrap_initializer hwrapped)⟩
  . exact ⟨loc, ty, value, b.expr?_apply_of_ne heq hexpr⟩

theorem constructs_foldl_apply {field : String} (hfield : ∀ b ∈ boxes, b.field = field)
    {id : ExprId} (h : p.Constructs field id) :
    (boxes.foldl (fun q b => b.apply q) p).Constructs field id := by
  induction boxes generalizing p with
  | nil => exact h
  | cons b boxes ih =>
    rw [List.forall_mem_cons] at hfield
    apply ih hfield.2
    rw [← hfield.1] at h ⊢
    exact constructs_apply h

end Parts

section Types

theorem exists_decl?_of_typed_append {before after : List Box}
    (h : Box.Typed p (before ++ b :: after)) :
    ∃ d, (before.foldl (fun q b => b.apply q) p).decl? b.decl = some d ∧ b.valueTy = d.ty := by
  induction before generalizing p with
  | nil => exact h.1
  | cons b' before ih => exact ih h.2

theorem exists_larger_foldl_apply (htyped : Box.Typed p boxes) {id : DeclId} {d : Decl}
    (hd : p.decl? id = some d) : ∃ ty,
      (boxes.foldl (fun q b => b.apply q) p).decl? id = some { d with ty := ty } ∧
        sizeOf d.ty ≤ sizeOf ty ∧ ((∃ b ∈ boxes, b.decl = id) → sizeOf d.ty < sizeOf ty) := by
  induction boxes generalizing p d with
  | nil =>
    refine ⟨d.ty, hd, Nat.le_refl _, ?_⟩
    rintro ⟨b, hb, -⟩
    cases hb
  | cons b boxes ih =>
    by_cases heq : id = b.decl
    . subst heq
      rcases htyped with ⟨⟨d', hd', hty⟩, htyped⟩
      rw [hd] at hd'
      cases hd'
      have hboxed : (b.apply p).decl? b.decl = some { d with ty := b.ty } := by
        rw [decl?_apply, if_pos rfl, hd, Option.map_some]
      rcases ih htyped hboxed with ⟨ty, hty', hle, -⟩
      have hlt := sizeOf_valueTy_lt (b := b)
      rw [hty] at hlt
      dsimp only at hle
      exact ⟨ty, hty', by omega, fun _ => by omega⟩
    . have hkept : (b.apply p).decl? id = some d := by
        rw [decl?_apply, if_neg heq, hd]
      rcases ih htyped.2 hkept with ⟨ty, hty, hle, hlt⟩
      refine ⟨ty, hty, hle, ?_⟩
      rintro ⟨b', hb', rfl⟩
      rw [List.mem_cons] at hb'
      rcases hb' with rfl | hb'
      . exact absurd rfl heq
      . exact hlt ⟨b', hb', rfl⟩

/-- A declaration gets another type if and only if one of the boxes is about it. -/
theorem exists_retyped_foldl_apply (htyped : Box.Typed p boxes) {id : DeclId} {d : Decl}
    (hd : p.decl? id = some d) : ∃ ty,
      (boxes.foldl (fun q b => b.apply q) p).decl? id = some { d with ty := ty } ∧
        (ty ≠ d.ty ↔ ∃ b ∈ boxes, b.decl = id) := by
  rcases exists_larger_foldl_apply htyped hd with ⟨ty, hty, -, hlt⟩
  refine ⟨ty, hty, ?_, ?_⟩
  . intro hne
    by_contra hnone
    apply hne
    rw [decl?_foldl_apply_of_ne, hd] at hty
    . injection hty with hty
      rw [hty]
    . rintro b hb rfl
      exact hnone ⟨b, hb, rfl⟩
  . rintro hbox rfl
    have := hlt hbox
    omega

end Types

end Box

namespace Boxing

open Program

variable {options : Options} {field : String} {p q : Program} {all past rest : List Moment}
variable {order : LoopOrder} {m : Moment} {s s' : State} {stop : Stop} {log : Array Event}

theorem run_error (h : run options p = ⟨.error stop, q, log⟩) :
    Pass.visitProgram options (depthLimit p) (.start p) = .error stop (finalState options p) ∧
      q = (finalState options p).program ∧ log = (finalState options p).log := by
  unfold run at h
  unfold finalState
  cases hpass : Pass.visitProgram options (depthLimit p) (.start p) with
  | ok _ s =>
    rw [hpass] at h
    cases h
  | error stop' s =>
    rw [hpass] at h
    rw [Pass.after_error hpass]
    cases h
    exact ⟨rfl, rfl, rfl⟩

/-- Where a run stops, why it does, and what the boxes are made of that it leaves behind. -/
theorem exists_stop (hall : Schedule options.order p all) (hvalid : p.Valid)
    (h : Pass.play options.field all (.start p) = .error stop s') :
    ∃ past m rest s error, all = past ++ m :: rest ∧
      Pass.play options.field past (.start p) = .ok () s ∧ stop = .fault error ∧
        Fails p past s m error ∧
          ∀ b ∈ s'.boxes.toList, b.field = options.field ∧ NotedIn p (past ++ [m]) b := by
  rcases Pass.play_error h with ⟨past, m, rest, s, hsplit, hpast, hm⟩
  rcases hall.exists_current hsplit with ⟨current, final, hcurrent, hflow⟩
  rcases notes_of_play hall hsplit hcurrent hpast with ⟨htracks, hrecalls, hnotes⟩
  rcases hrecalls.fails hall hvalid htracks hsplit hflow hm with ⟨error, hstop, hfails⟩
  exact ⟨past, m, rest, s, error, hsplit, hpast, hstop, hfails,
    hnotes.boxed_of_error htracks hm⟩

section Parts

variable (hall : Schedule order p all) (hvalid : p.Valid) (hsplit : all = past ++ rest)
include hall hvalid hsplit

/-- All parts of a box are there, in whichever state the box is applied. -/
theorem NotedIn.moves {boxes before after : List Box} {b : Box} (h : NotedIn p past b)
    (htyped : Box.Typed p boxes) (hboxes : boxes = before ++ b :: after) :
    b.Moves (before.foldl (fun q b => b.apply q) p)
      ((before ++ [b]).foldl (fun q b => b.apply q) p) := by
  rw [List.foldl_append]
  apply Box.moves_apply
  . rw [hboxes] at htyped
    apply Box.exists_decl?_of_typed_append htyped
  . rcases h.initializer with ⟨around, hmem⟩
    apply exists_expr?_of_contains
    apply Box.contains_foldl_apply
    apply Sound.contains_of_initializer hall hvalid hsplit hmem
  . intro id hid
    apply exists_var?_of_contains
    apply Box.contains_foldl_apply
    rcases (h.reference hid).1 with ⟨around, hmem⟩
    apply Sound.contains_of_reference hall hsplit hmem
  . rcases h with ⟨earlier, around, later, rfl, hnoted⟩
    rw [hnoted.references]
    rw [List.append_assoc] at hsplit
    apply nodup_referencesIn hall hsplit

/-- The value of a box stays a constructor, whatever is boxed later on. -/
theorem NotedIn.constructs {boxes : List Box} {b : Box} (h : NotedIn p past b)
    (htyped : Box.Typed p boxes) (hfield : ∀ b ∈ boxes, b.field = field) (hb : b ∈ boxes) :
    (boxes.foldl (fun q b => b.apply q) p).Constructs field b.initializer := by
  rcases List.append_of_mem hb with ⟨before, after, hboxes⟩
  have hmoves := h.moves hall hvalid hsplit htyped hboxes
  rw [hboxes, ← List.singleton_append, ← List.append_assoc, List.foldl_append]
  apply Box.constructs_foldl_apply
  . intro b' hb'
    apply hfield
    rw [hboxes]
    exact List.mem_append_right _ (List.mem_cons_of_mem _ hb')
  . rcases hmoves.value with ⟨value, moved, -, hwrapper⟩
    rw [hfield b hb] at hwrapper
    exact ⟨_, _, _, hwrapper⟩

end Parts

/-- A variable without a box is as it was, together with its names. -/
theorem kept_of_not_boxed {boxes : List Box} {decl : DeclId}
    (hnoted : ∀ b ∈ boxes, NotedIn p past b) (hne : ∀ b ∈ boxes, decl ≠ b.decl) :
    (boxes.foldl (fun q b => b.apply q) p).decl? decl = p.decl? decl ∧
      ∀ id, p.named? id = some decl →
        (boxes.foldl (fun q b => b.apply q) p).var? id = p.var? id := by
  refine ⟨Box.decl?_foldl_apply_of_ne hne, ?_⟩
  intro id hnamed
  rcases exists_var?_of_named? hnamed with ⟨loc, ty, text, hvar⟩
  rw [hvar]
  apply Box.var?_foldl_apply _ hvar
  intro b hb hid
  have hname := (candidate?_eq_some_iff.mp ((hnoted b hb).candidate? hid)).1
  rw [hnamed] at hname
  injection hname with hname
  exact hne b hb hname

/--
A run that stops, for the sake of a variable, leaves whole boxes behind. The program is the one
before with the boxes applied that have been written down, in this order. The items, the files, the
statements and everything but the types of the declarations are the same, and a type is another one
if and only if a box of its variable has been written down. Every box is made of the last value and
all names that were known of its variable when the function ended, and all of its parts are there. A
variable that is reported to have no value is as it was, together with its names.
-/
theorem whole_run (options : Options) (p q : Program) (hvalid : p.Valid) (stop : Stop)
    (log : Array Event) (h : run options p = ⟨.error stop, q, log⟩) :
    (∃ error, stop = .fault error) ∧
    q = (logged log).foldl (fun r b => b.apply r) p ∧
    q.items = p.items ∧ q.files = p.files ∧ q.stats = p.stats ∧ q.decls.size = p.decls.size ∧
    (∀ id d, p.decl? id = some d → ∃ ty, q.decl? id = some { d with ty := ty } ∧
      (ty ≠ d.ty ↔ ∃ b, .boxed b ∈ log ∧ b.decl = id)) ∧
    (∃ all past m rest s, Unfolds options.order p [] (planProgram p) all ∧
      all = past ++ m :: rest ∧ Pass.play options.field past (.start p) = .ok () s ∧
        ∀ b, .boxed b ∈ log → NotedIn p (past ++ [m]) b) ∧
    (∀ before b after, logged log = before ++ b :: after →
      b.Moves (before.foldl (fun r b => b.apply r) p)
        ((before ++ [b]).foldl (fun r b => b.apply r) p)) ∧
    (∀ b, .boxed b ∈ log → b.field = options.field ∧
      q.Constructs options.field b.initializer ∧ ∀ id ∈ b.references, q.named? id = none) ∧
    ∀ decl name loc assignedAt, stop = .fault (.uninitializedCapture decl name loc assignedAt) →
      q.decl? decl = p.decl? decl ∧ ∀ id, p.named? id = some decl → q.var? id = p.var? id := by
  rcases run_error h with ⟨hpass, rfl, rfl⟩
  rcases exists_schedule options.order hvalid with ⟨all, hall⟩
  rw [Pass.visitProgram_eq_play hall hvalid] at hpass
  rcases exists_stop hall hvalid hpass with
    ⟨past, m, rest, s, error, hsplit, hplay, rfl, hfails, hboxed⟩
  have hsplit' : all = (past ++ [m]) ++ rest := by
    rw [hsplit]
    simp
  have hlogged := logged_finalState options p
  have hprogram := program_finalState options p
  have htyped : Box.Typed p (finalState options p).boxes.toList :=
    Changes.typed (Pass.changes_visitProgram options (depthLimit p) (.start p)) trivial rfl
  have hmem {b : Box} : .boxed b ∈ (finalState options p).log ↔
      b ∈ (finalState options p).boxes.toList := by
    rw [← mem_logged, hlogged]
  simp only [hmem]
  rw [hlogged, hprogram]
  refine ⟨⟨error, rfl⟩, rfl, ?_, ?_, ?_, ?_, ?_, ?_, ?_, ?_, ?_⟩
  . apply Box.items_foldl_apply
  . apply Box.files_foldl_apply
  . exact Box.kept_foldl_apply (f := Program.stats) (fun b p => b.stats_apply) p
  . exact Box.kept_foldl_apply (f := fun p => p.decls.size) (fun _ _ => Box.size_decls_apply) p
  . intro id d hd
    apply Box.exists_retyped_foldl_apply htyped hd
  . refine ⟨all, past, m, rest, s, hall.unfolds, hsplit, hplay, ?_⟩
    intro b hb
    exact (hboxed b hb).2
  . intro before b after hboxes
    have hb : b ∈ (finalState options p).boxes.toList := by
      rw [hboxes]
      simp
    exact (hboxed b hb).2.moves hall hvalid hsplit' htyped hboxes
  . intro b hb
    rcases hboxed b hb with ⟨hfield, hnoted⟩
    refine ⟨hfield, ?_, ?_⟩
    . exact hnoted.constructs hall hvalid hsplit' htyped (fun b hb => (hboxed b hb).1) hb
    . intro id hid
      rcases exists_var?_of_named? (candidate?_eq_some_iff.mp (hnoted.candidate? hid)).1 with
        ⟨loc, ty, text, hvar⟩
      exact (Box.rewritten_foldl_apply hb hid hvar).named?
  . intro decl name loc assignedAt heq
    cases heq
    apply kept_of_not_boxed fun b hb => (hboxed b hb).2
    rintro b hb rfl
    -- A boxed variable has been declared with a value, the one in the error has not.
    cases hfails with
    | uninitialized _ _ _ _ hnone =>
      rcases (hboxed b hb).2.initializer with ⟨around, hmem⟩
      rw [List.mem_append, List.mem_singleton] at hmem
      cases hmem with
      | inl hmem => exact hnone _ _ hmem
      | inr heq => cases heq

/-- The variable `x` has been boxed when the run stops at `z`, which is as it was. -/
theorem whole_run_halfway :
    halfway.Valid ∧ (∃ error, (run default halfway).verdict = .error (.fault error)) ∧
      (logged (run default halfway).log).map Box.decl = [⟨1⟩] ∧
      (run default halfway).program =
        (logged (run default halfway).log).foldl (fun r b => b.apply r) halfway ∧
      ∃ ty, (run default halfway).program.decl? ⟨1⟩ = some ⟨"x", none, .dummy, ty, false⟩ ∧
        ty ≠ .integer := by
  have hvalid : halfway.Valid := by decide +kernel
  have hdecls : (logged (run default halfway).log).map Box.decl = [⟨1⟩] := by decide +kernel
  have hverdict : (run default halfway).verdict.isOk = false := by decide +kernel
  cases hrun : run default halfway with
  | mk verdict q log =>
    rw [hrun] at hdecls hverdict
    cases verdict with
    | ok boxes => cases hverdict
    | error stop =>
      rcases whole_run default halfway q hvalid stop log hrun with
        ⟨⟨error, rfl⟩, hprogram, -, -, -, -, hretyped, -⟩
      rcases hretyped ⟨1⟩ ⟨"x", none, .dummy, .integer, false⟩ rfl with ⟨ty, hd, hne⟩
      refine ⟨hvalid, ⟨error, rfl⟩, hdecls, hprogram, ty, hd, ?_⟩
      rw [hne]
      have hmem : (⟨1⟩ : DeclId) ∈ (logged log).map Box.decl := by
        rw [hdecls]
        exact List.mem_singleton_self _
      rcases List.mem_map.mp hmem with ⟨b, hb, hdecl⟩
      exact ⟨b, mem_logged.mp hb, hdecl⟩

end Boxing

end Upvalue

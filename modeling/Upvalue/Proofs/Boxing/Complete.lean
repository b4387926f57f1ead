import Upvalue.Proofs.Boxing.Decision
import Upvalue.Proofs.Boxing.Slots
import Mathlib.Data.List.Induction

/-!
This module contains what a run leaves of a program with scopes, slot by slot. When a variable is
boxed, its function has been left, so that all of its names have been used: no name of a boxed
variable is missed, and no slot is overwritten twice.
-/

namespace Upvalue

/-- Every box holds the type that its variable has when the boxes before it have been applied. -/
def Box.Typed (p : Program) : List Box → Prop
  | [] => True
  | b :: boxes => (∃ d, p.decl? b.decl = some d ∧ b.valueTy = d.ty) ∧ Typed (b.apply p) boxes

namespace Boxing

open Program

/-- The names of every box are all uses of its variable so far. -/
def Complete (p : Program) (past : List Moment) (s : State) : Prop :=
  ∀ b ∈ s.boxes.toList, b.references.toList = referencesIn p b.decl past

/-- What the boxes of a run say about a program with scopes. -/
structure Accurate (field : String) (p : Program) (boxes : List Box) : Prop where
  field : ∀ b ∈ boxes, b.field = field
  unexported : ∀ b ∈ boxes, p.Unexported b.decl
  initializer : ∀ b ∈ boxes, p.Initializes b.decl b.initializer
  references : ∀ b ∈ boxes, ∀ id, id ∈ b.references ↔
    p.Reachable (.var id) ∧ p.named? id = some b.decl
  once : (boxes.map Box.decl).Nodup
  nodup : ∀ b ∈ boxes, b.references.toList.Nodup
  typed : Box.Typed p boxes

/--
The second program is the first one with variables in boxes. The boxed variables are initialized
with constructors, their names are accesses to the field, and everything else is in its slot.
-/
structure InBoxes (field : String) (boxed : List DeclId) (p q : Program) : Prop where
  roots : q.roots = p.roots
  stat : ∀ id, q.stat? id = p.stat? id
  expr : ∀ id expr, p.expr? id = some expr → (∀ decl ∈ boxed, ¬ p.Initializes decl id) →
    q.expr? id = some expr
  value : ∀ decl ∈ boxed, ∀ id, p.Initializes decl id → ∃ expr ty moved,
    p.expr? id = some expr ∧ q.expr? id = some ⟨expr.loc, ty, .initList [⟨some field, moved⟩]⟩ ∧
      q.expr? moved = some expr
  var : ∀ id var, p.var? id = some var → (∀ decl ∈ boxed, p.named? id ≠ some decl) →
    q.var? id = some var
  name : ∀ decl ∈ boxed, ∀ id, p.Reachable (.var id) → p.named? id = some decl →
    ∃ var d ty base moved, p.var? id = some var ∧ p.decl? decl = some d ∧
      q.var? id = some ⟨var.loc, d.ty, .dot base field⟩ ∧
      q.expr? base = some ⟨var.loc, ty, .var moved⟩ ∧ q.var? moved = some ⟨var.loc, ty, var.kind⟩
  initialized : ∀ decl ∈ boxed, ∃ id, p.Initializes decl id

variable {order : LoopOrder} {field : String} {p : Program} {all past rest : List Moment}
variable {current final : List ExprId} {s s' : State}

section Uses

theorem nodup_referencesIn (hall : Schedule order p all) (hsplit : all = past ++ rest)
    (decl : DeclId) : (referencesIn p decl past).Nodup := by
  induction past using List.reverseRecOn generalizing rest with
  | nil => exact List.nodup_nil
  | append_singleton past m ih =>
    rw [List.append_assoc, List.singleton_append] at hsplit
    rw [referencesIn_append, List.nodup_append]
    refine ⟨ih hsplit, ?_, ?_⟩
    . rcases m with ⟨around, action⟩
      cases action with
      | reference id =>
        rw [referencesIn_reference]
        split <;> simp
      | _ => exact List.nodup_nil
    . rintro id hpast id' hm rfl
      rw [mem_referencesIn] at hpast hm
      rcases hpast.1 with ⟨around, hmem⟩
      rcases hm.1 with ⟨around', hmem'⟩
      rw [List.mem_singleton] at hmem'
      subst hmem'
      exact hall.unused_of_reference hsplit around hmem

theorem candidate?_ne_of_boxed (hall : Schedule order p all) (hscoped : p.WellScoped)
    (hdecides : Decides p all past current s) {m : Moment} (hsplit : all = past ++ m :: rest)
    (hflow : Follows current [m] final) {b : Box} (hb : b ∈ s.boxes.toList) {name : VarId}
    (hm : m.action = .reference name) : p.candidate? name ≠ some b.decl := by
  intro hname
  have hboxed := (hdecides.boxed b.decl).mp (List.mem_map_of_mem hb)
  rcases hboxed with ⟨home, hclosed, hassigned, -⟩
  cases hflow with
  | enter => cases hm
  | leave => cases hm
  | step =>
    cases hm
    apply hclosed
    apply hall.home_suffix hscoped hname hassigned.1
    rw [← hall.reference_mem_iff (candidate?_eq_some_iff.mp hname).1, hsplit]
    simp

theorem Complete.leave (h : Complete p past s) (htracks : Tracks field p past s)
    {around : List ExprId} {s₁ : State} {scope : FunctionScope}
    (hexit : s.exit = .ok (scope, s₁))
    (hboxes : scope.boxable.forM (Pass.box field) s₁ = .ok () s') :
    Complete p (past ++ [⟨around, .leave⟩]) s' := by
  rcases State.exit_ok hexit with ⟨stack, -, rfl⟩
  rcases Pass.forM_box_ok hboxes with ⟨boxes, -, hinfo, hlist, -⟩
  dsimp only at hinfo hlist
  intro b hb
  have hnone : referencesIn p b.decl [⟨around, .leave⟩] = [] := rfl
  rw [referencesIn_append, hnone, List.append_nil]
  rw [hlist, List.mem_append] at hb
  rcases hb with hb | hb
  . exact h b hb
  . rcases hinfo b hb with ⟨-, info, hdecl, -, hreferences⟩
    have hrecorded : s.recorded b.decl = info.references.toList := recorded_of_info? hdecl
    rw [← htracks.references, hrecorded, hreferences]

/-- The names of the boxes stay complete if no name of a boxed variable is used. -/
theorem Complete.tick {m : Moment} (h : Complete p past s) (htracks : Tracks field p past s)
    (hs : Tick field m.action s s') (hunused : ∀ b ∈ s.boxes.toList, ∀ id,
      m.action = .reference id → p.candidate? id ≠ some b.decl) :
    Complete p (past ++ [m]) s' := by
  rcases m with ⟨around, action⟩
  by_cases hleave : action = .leave
  . subst hleave
    cases hs with
    | leave hexit hboxes => apply h.leave htracks hexit hboxes
  . intro b hb
    rw [hs.boxes_eq hleave] at hb
    rw [h b hb, referencesIn_append]
    cases action with
    | reference id => rw [referencesIn_reference, if_neg (hunused b hb id rfl), List.append_nil]
    | _ =>
      rw [referencesIn_of_ne, List.append_nil]
      simp

end Uses

section Types

theorem typed_append {boxes : List Box} {b : Box} (h : Box.Typed p boxes)
    (hb : ∃ d, (boxes.foldl (fun q b => b.apply q) p).decl? b.decl = some d ∧ b.valueTy = d.ty) :
    Box.Typed p (boxes ++ [b]) := by
  induction boxes generalizing p with
  | nil => exact ⟨hb, trivial⟩
  | cons b' boxes ih => exact ⟨h.1, ih h.2 hb⟩

theorem Changes.typed (h : Changes field s s') (hs : Box.Typed p s.boxes.toList)
    (hprogram : s.program = s.boxes.toList.foldl (fun q b => b.apply q) p) :
    Box.Typed p s'.boxes.toList := by
  induction h with
  | refl => exact hs
  | tail hchanges hchange ih =>
    rcases hchange.program with ⟨-, hboxes⟩ | ⟨b, -, hboxes, -, d, hd, -, -, hty⟩
    . rw [hboxes]
      exact ih
    . rw [hboxes, Array.toList_push]
      apply typed_append ih
      rw [Changes.program hchanges hprogram] at hd
      exact ⟨d, hd, hty⟩

theorem exists_decl?_of_typed {boxes : List Box} (h : Box.Typed p boxes)
    (honce : (boxes.map Box.decl).Nodup) :
    ∀ b ∈ boxes, ∃ d, p.decl? b.decl = some d ∧ b.valueTy = d.ty := by
  induction boxes generalizing p with
  | nil =>
    intro b hb
    cases hb
  | cons b' boxes ih =>
    rw [List.map_cons, List.nodup_cons] at honce
    rw [List.forall_mem_cons]
    refine ⟨h.1, ?_⟩
    intro b hb
    have hne : b.decl ≠ b'.decl := by
      intro heq
      apply honce.1
      rw [← heq]
      exact List.mem_map_of_mem hb
    rcases ih h.2 honce.2 b hb with ⟨d, hd, hty⟩
    rw [b'.decl?_apply, if_neg hne] at hd
    exact ⟨d, hd, hty⟩

end Types

section Initializers

variable {decl : DeclId} {value : ExprId}

theorem initializer_mem_iff (hall : Schedule order p all) :
    (∃ around, ⟨around, .initializer decl value⟩ ∈ all) ↔ p.Initializes decl value := by
  constructor
  . rintro ⟨around, hmem⟩
    rcases hall.exists_plan_of_mem hmem with
      ⟨-, haction⟩ | ⟨outer, node, plan, hnode, hplan, haction, -⟩
    . exact absurd haction (not_mem_planProgram (by simp) (by simp))
    . rw [initializer_mem_plan hplan] at haction
      rcases haction with ⟨stat, loc, decls, exps, i, rfl, hstat, hdecl, hvalue⟩
      exact ⟨stat, loc, decls, exps, i, ⟨outer, hnode⟩, hstat, hdecl, hvalue⟩
  . rintro ⟨stat, loc, decls, exps, i, ⟨outer, hnode⟩, hstat, hdecl, hvalue⟩
    rcases hall.unfolds.mem_of_visit (hall.mem_of_within hnode) with ⟨plan, hplan, hactions⟩
    refine ⟨_, hactions _ ?_⟩
    rw [initializer_mem_plan hplan]
    exact ⟨stat, loc, decls, exps, i, rfl, hstat, hdecl, hvalue⟩

end Initializers

theorem accurate_of_play (hall : Schedule order p all) (hscoped : p.WellScoped)
    (h : Pass.play field all (.start p) = .ok () s) : Accurate field p s.boxes.toList := by
  have hstart : Complete p [] (.start p) := by
    intro b hb
    cases hb
  rcases Decides.play_induct hall hscoped hstart
    (fun hsplit hflow htracks hdecides hcomplete hs => hcomplete.tick htracks hs fun _ hb _ hm =>
      candidate?_ne_of_boxed hall hscoped hdecides hsplit hflow hb hm) h
    with ⟨htracks, hdecides, hcomplete⟩
  have hunexported : ∀ b ∈ s.boxes.toList, p.Unexported b.decl := by
    intro b hb
    rcases (hdecides.boxed b.decl).mp (List.mem_map_of_mem hb) with ⟨_, -, hassigned, -⟩
    exact hassigned.unexported
  constructor
  . intro b hb
    exact (htracks.boxed b hb).1
  . exact hunexported
  . intro b hb
    rw [← initializer_mem_iff hall]
    exact (htracks.boxed b hb).2.1
  . intro b hb id
    rw [← Array.mem_toList_iff, hcomplete b hb, mem_referencesIn, candidate?_eq_some_iff]
    constructor
    . rintro ⟨⟨around, hmem⟩, hnamed, -⟩
      exact ⟨⟨around, (hall.reference_mem_iff hnamed).mp hmem⟩, hnamed⟩
    . rintro ⟨⟨around, hwithin⟩, hnamed⟩
      exact ⟨⟨around, (hall.reference_mem_iff hnamed).mpr hwithin⟩, hnamed, hunexported b hb⟩
  . exact hdecides.once
  . intro b hb
    rw [hcomplete b hb]
    exact nodup_referencesIn hall (List.append_nil all).symm b.decl
  . exact Changes.typed (Pass.changes_play h) trivial rfl

namespace Accurate

variable {boxes : List Box}

theorem eq_of_decl (h : Accurate field p boxes) {b b' : Box} (hb : b ∈ boxes) (hb' : b' ∈ boxes)
    (heq : b.decl = b'.decl) : b = b' :=
  List.inj_on_of_nodup_map h.once hb hb' heq

theorem fits (h : Accurate field p boxes) (hvalid : p.Valid) : ∀ b ∈ boxes, b.Fits p := by
  intro b hb
  apply Box.fits_of_contains
  . exact (h.initializer b hb).reachable.contains hvalid
  . intro id hid
    exact ((h.references b hb id).mp hid).1.contains hvalid

theorem nodup_initializers (h : Accurate field p boxes) (hvalid : p.Valid) :
    (boxes.map Box.initializer).Nodup := by
  apply (List.Nodup.of_map Box.decl h.once).map_on
  intro b hb b' hb' heq
  have hinitializer := h.initializer b hb
  rw [heq] at hinitializer
  exact h.eq_of_decl hb hb' (hinitializer.decl_unique hvalid (h.initializer b' hb'))

theorem nodup_references (h : Accurate field p boxes) :
    (boxes.flatMap fun b => b.references.toList).Nodup := by
  rw [List.nodup_flatMap]
  refine ⟨h.nodup, ?_⟩
  apply (List.Nodup.of_map Box.decl h.once).pairwise_of_forall_ne
  intro b hb b' hb' hne id hid hid'
  -- A name refers to one variable.
  have hnamed := ((h.references b hb id).mp (Array.mem_toList_iff.mp hid)).2
  rw [((h.references b' hb' id).mp (Array.mem_toList_iff.mp hid')).2] at hnamed
  injection hnamed with hnamed
  exact hne (h.eq_of_decl hb hb' hnamed.symm)

/-- Applying the boxes of a run puts their variables in boxes. -/
theorem inBoxes (h : Accurate field p boxes) (hvalid : p.Valid) (hscoped : p.WellScoped)
    (hfit : (boxes.foldl (fun q b => b.apply q) p).Addressable) :
    InBoxes field (boxes.map Box.decl) p (boxes.foldl (fun q b => b.apply q) p) := by
  have hfits := h.fits hvalid
  constructor
  . unfold roots
    rw [Box.items_foldl_apply]
  . apply Box.stat?_foldl_apply
  . intro id expr hexpr hnot
    apply Box.expr?_foldl_apply _ hexpr
    rintro b hb rfl
    exact hnot b.decl (List.mem_map_of_mem hb) (h.initializer b hb)
  . intro decl hdecl id hvalue
    rw [List.mem_map] at hdecl
    rcases hdecl with ⟨b, hb, rfl⟩
    have heq := hvalue.value_unique hscoped (h.unexported b hb) (h.initializer b hb)
    subst heq
    rcases exists_expr?_of_contains (hvalue.reachable.contains hvalid) with ⟨expr, hexpr⟩
    rcases Box.wrapped_foldl_apply hfit (Nat.le_refl _) hfits (h.nodup_initializers hvalid) hb hexpr
      with ⟨moved, -, hwrapper, hmoved⟩
    rw [h.field b hb] at hwrapper
    exact ⟨expr, b.ty, moved, hexpr, hwrapper, hmoved⟩
  . intro id var hvar hnot
    apply Box.var?_foldl_apply _ hvar
    intro b hb hid
    exact hnot b.decl (List.mem_map_of_mem hb) ((h.references b hb id).mp hid).2
  . intro decl hdecl id hreachable hnamed
    rw [List.mem_map] at hdecl
    rcases hdecl with ⟨b, hb, rfl⟩
    rcases exists_var?_of_named? hnamed with ⟨loc, ty, text, hvar⟩
    have hid := (h.references b hb id).mpr ⟨hreachable, hnamed⟩
    rcases Box.accessed_foldl_apply hfit (Nat.le_refl _) (Nat.le_refl _) hfits h.nodup_references hb
      hid hvar with ⟨base, name, -, -, haccess, hbase, hname⟩
    rcases exists_decl?_of_typed h.typed h.once b hb with ⟨d, hd, hty⟩
    rw [h.field b hb, hty] at haccess
    exact ⟨_, d, b.ty, base, name, hvar, hd, haccess, hbase, hname⟩
  . intro decl hdecl
    rw [List.mem_map] at hdecl
    rcases hdecl with ⟨b, hb, rfl⟩
    exact ⟨b.initializer, h.initializer b hb⟩

end Accurate

end Boxing

end Upvalue

import Upvalue.Proofs.Boxing.Whole

/-!
This module contains where the boxes of variables are made. A declaration may be bound at several
places, and only the value that was met last when its function ended becomes a box. So a boxed
variable has a place that makes the box, and it is the only place of the variable if nothing else
binds the declaration.
-/

namespace Upvalue

namespace Box

variable {p : Program} {boxes : List Box} {decl : DeclId}

theorem exists_last (h : ∃ b ∈ boxes, b.decl = decl) : ∃ before b after,
    boxes = before ++ b :: after ∧ b.decl = decl ∧ ∀ b' ∈ after, b.decl ≠ b'.decl := by
  induction boxes with
  | nil =>
    rcases h with ⟨b, hb, -⟩
    cases hb
  | cons b boxes ih =>
    by_cases hlater : ∃ b' ∈ boxes, b'.decl = decl
    . rcases ih hlater with ⟨before, b', after, rfl, hdecl, hlast⟩
      exact ⟨b :: before, b', after, rfl, hdecl, hlast⟩
    . rcases h with ⟨b', hb', hdecl⟩
      rw [List.mem_cons] at hb'
      cases hb' with
      | inl heq =>
        subst heq
        refine ⟨[], b', boxes, rfl, hdecl, ?_⟩
        intro b'' hb'' heq
        exact hlater ⟨b'', hb'', heq ▸ hdecl⟩
      | inr hb' => exact absurd ⟨b', hb', hdecl⟩ hlater

end Box

namespace Program

/--
A place makes the box of a variable. It declares the variable with a value, and this value becomes a
constructor that has the field of the box only and the type of the variable.
-/
def MakesBox (field : String) (p q : Program) (decl : DeclId) (place : Place) (position : Nat) :
    Prop :=
  ∃ stat loc decls exps value d loc' moved, place = .node (.stat stat) ∧
    p.stat? stat = some (.decl loc decls exps) ∧ decls[position]? = some decl ∧
      exps[position]? = some value ∧ q.decl? decl = some d ∧
        q.expr? value = some ⟨loc', d.ty, .initList [⟨some field, moved⟩]⟩

end Program

namespace Boxing

open Program

variable {order : LoopOrder} {field : String} {p : Program} {all rest : List Moment}
variable {boxes before after : List Box} {b : Box}

/-- The value of the last box of a variable has the type of the variable in the end. -/
theorem exists_constructor_of_last (hall : Schedule order p all) (hvalid : p.Valid)
    (hnoted : ∀ b ∈ boxes, NotedIn p all b) (htyped : Box.Typed p boxes)
    (hboxes : boxes = before ++ b :: after) (hlast : ∀ b' ∈ after, b.decl ≠ b'.decl) :
    ∃ d loc moved, (boxes.foldl (fun q b => b.apply q) p).decl? b.decl = some d ∧
      (boxes.foldl (fun q b => b.apply q) p).expr? b.initializer =
        some ⟨loc, d.ty, .initList [⟨some b.field, moved⟩]⟩ := by
  have hinitializes : ∀ b ∈ boxes, p.Initializes b.decl b.initializer := by
    intro b hb
    rw [← initializer_mem_iff hall]
    exact (hnoted b hb).initializer
  have hsplit : all = all ++ [] := (List.append_nil all).symm
  have hb : b ∈ boxes := by
    rw [hboxes]
    simp
  rcases (hnoted b hb).moves hall hvalid hsplit htyped hboxes with
    ⟨⟨d, -, -, hd⟩, ⟨value, moved, -, hmoved⟩, -⟩
  rw [hboxes, ← List.singleton_append, ← List.append_assoc, List.foldl_append]
  refine ⟨{ d with ty := b.ty }, value.loc, moved, ?_, ?_⟩
  . rw [Box.decl?_foldl_apply_of_ne hlast, hd]
  . apply Box.expr?_foldl_apply _ hmoved
    -- Another variable has another value.
    intro b' hb' heq
    have hother := hinitializes b' (by
      rw [hboxes]
      simp [hb'])
    rw [← heq] at hother
    exact hlast b' hb' ((hinitializes b hb).decl_unique hvalid hother)

/--
A run that succeeds makes the box of every boxed variable at a place that binds the variable. If no
other place does, all places of the variable make its box. The value that is put in the box is the
last one that was met when the function of the variable ended, and values that are put in no box
stay as they were.
-/
theorem makesBox_run (options : Options) (p : Program) (hvalid : p.Valid) (boxes : Array Box)
    (hok : (run options p).verdict = .ok boxes) :
    (∃ all, Unfolds options.order p [] (planProgram p) all ∧ ∀ b ∈ boxes, NotedIn p all b) ∧
    (∀ id expr, p.expr? id = some expr → (∀ b ∈ boxes, id ≠ b.initializer) →
      (run options p).program.expr? id = some expr) ∧
    ∀ decl ∈ boxes.toList.map Box.decl,
      (∃ around place position, p.BoundAt decl around place position ∧
        MakesBox options.field p (run options p).program decl place position) ∧
      ((∀ around place position around' place' position', p.BoundAt decl around place position →
          p.BoundAt decl around' place' position' → place = place' ∧ position = position') →
        ∀ around place position, p.BoundAt decl around place position →
          MakesBox options.field p (run options p).program decl place position) := by
  rcases exists_schedule options.order hvalid with ⟨all, hall⟩
  rcases play_of_run_ok hall hvalid hok with ⟨s, hplay, rfl, hprogram⟩
  have hsplit : all = all ++ [] := (List.append_nil all).symm
  rcases notes_of_play hall hsplit hall.follows hplay with ⟨htracks, -, hnotes⟩
  have htyped : Box.Typed p s.boxes.toList :=
    Changes.typed (Pass.changes_play hplay) trivial rfl
  have hnoted : ∀ b ∈ s.boxes.toList, NotedIn p all b := fun b hb => (hnotes.boxed b hb).2
  have hmakes : ∀ decl ∈ s.boxes.toList.map Box.decl, ∃ around place position,
      p.BoundAt decl around place position ∧
        MakesBox options.field p (run options p).program decl place position := by
    intro decl hdecl
    rcases Box.exists_last (List.mem_map.mp hdecl) with ⟨before, b, after, hboxes, rfl, hlast⟩
    have hb : b ∈ s.boxes.toList := by
      rw [hboxes]
      simp
    rcases exists_constructor_of_last hall hvalid hnoted htyped hboxes hlast with
      ⟨d, loc', moved, hd, hconstructor⟩
    rcases (initializer_mem_iff hall).mp (hnoted b hb).initializer with
      ⟨stat, loc, decls, exps, i, ⟨around, hstat⟩, hdecls, hbound, hvalue⟩
    refine ⟨_, _, i, boundAt_of_decl hstat hdecls hbound, stat, loc, decls, exps, b.initializer,
      d, loc', moved, rfl, hdecls, hbound, hvalue, ?_, ?_⟩
    . rw [hprogram]
      change s.program.decl? b.decl = some d
      rw [htracks.program, hd]
    . rw [hprogram, ← (hnotes.boxed b hb).1]
      change s.program.expr? b.initializer = some _
      rw [htracks.program, hconstructor]
  refine ⟨⟨all, hall.unfolds, fun b hb => hnoted b (Array.mem_toList_iff.mpr hb)⟩, ?_, ?_⟩
  . intro id expr hexpr hne
    rw [hprogram]
    change s.program.expr? id = some expr
    rw [htracks.program]
    apply Box.expr?_foldl_apply _ hexpr
    intro b hb
    exact hne b (Array.mem_toList_iff.mp hb)
  . intro decl hdecl
    rcases hmakes decl hdecl with ⟨around, place, position, hbound, hmakes⟩
    refine ⟨⟨around, place, position, hbound, hmakes⟩, ?_⟩
    intro honce around' place' position' hbound'
    rcases honce _ _ _ _ _ _ hbound hbound' with ⟨rfl, rfl⟩
    exact hmakes

/-- The declaration of `x` makes the box of `x`. -/
theorem makesBox_run_counter :
    counter.Valid ∧ ∃ boxes, (run default counter).verdict = .ok boxes ∧
      boxes.toList.map Box.decl = [⟨1⟩] ∧ ∀ around place position,
        counter.BoundAt ⟨1⟩ around place position →
          MakesBox defaultField counter (run default counter).program ⟨1⟩ place position := by
  have hvalid : counter.Valid := by decide +kernel
  have hboxes : (run default counter).verdict.toOption.map (·.toList.map Box.decl) =
      some [⟨1⟩] := by decide +kernel
  cases hok : (run default counter).verdict with
  | error stop =>
    rw [hok] at hboxes
    cases hboxes
  | ok boxes =>
    rw [hok] at hboxes
    injection hboxes with hdecls
    change boxes.toList.map Box.decl = [⟨1⟩] at hdecls
    have hmem : (⟨1⟩ : DeclId) ∈ boxes.toList.map Box.decl := by
      rw [hdecls]
      exact List.mem_singleton_self _
    have hmakes := (makesBox_run default counter hvalid boxes hok).2.2 ⟨1⟩ hmem
    refine ⟨hvalid, boxes, rfl, hdecls, hmakes.2 ?_⟩
    intro around place position around' place' position'
    exact wellScoped_counter.once _ _ _ _ _ _ _ ⟨_, rfl, rfl⟩

/--
A function with a parameter `x` that is declared again with a value, and a function inside that
assigns it.
-/
def rebound : Program :=
  { files := #[]
    items := #[.stats .dummy [⟨0⟩]]
    decls := #[⟨"f", none, .dummy, .any, false⟩, ⟨"x", none, .dummy, .integer, false⟩]
    stats := #[.decl .dummy [⟨0⟩] [⟨0⟩], .decl .dummy [⟨1⟩] [⟨1⟩], .ret .dummy [⟨2⟩],
      .assign .dummy [⟨0⟩] [⟨3⟩]]
    exprs := #[⟨.dummy, .any, .lambda [⟨1⟩] ⟨[⟨1⟩, ⟨2⟩]⟩⟩, ⟨.dummy, .integer, .integer 10⟩,
      ⟨.dummy, .any, .lambda [] ⟨[⟨3⟩]⟩⟩, ⟨.dummy, .integer, .integer 1⟩]
    vars := #[⟨.dummy, .integer, .name "x" (.variable ⟨1⟩)⟩] }

/-- The parameter is boxed because of the other declaration, and nothing makes a box for it. -/
theorem makesBox_run_rebound :
    rebound.Valid ∧ ∃ boxes, (run default rebound).verdict = .ok boxes ∧
      boxes.toList.map Box.decl = [⟨1⟩] ∧ rebound.BoundAt ⟨1⟩ [⟨0⟩] (.node (.expr ⟨0⟩)) 0 ∧
        ¬ MakesBox defaultField rebound (run default rebound).program ⟨1⟩ (.node (.expr ⟨0⟩))
          0 := by
  have hboxes : (run default rebound).verdict.toOption.map (·.toList.map Box.decl) =
      some [⟨1⟩] := by decide +kernel
  refine ⟨by decide +kernel, ?_⟩
  cases hok : (run default rebound).verdict with
  | error stop =>
    rw [hok] at hboxes
    cases hboxes
  | ok boxes =>
    rw [hok] at hboxes
    injection hboxes with hdecls
    have hstat : rebound.Within [] (.stat ⟨0⟩) := .root (by decide)
    have hexpr : rebound.Within [] (.expr ⟨0⟩) := .child hstat (by decide)
    refine ⟨boxes, rfl, hdecls, boundAt_of_lambda hexpr rfl rfl, ?_⟩
    rintro ⟨stat, loc, decls, exps, value, d, loc', moved, hplace, -⟩
    cases hplace

end Boxing

end Upvalue

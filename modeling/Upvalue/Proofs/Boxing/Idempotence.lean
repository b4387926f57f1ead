import Upvalue.Proofs.Boxing.Decision
import Upvalue.Proofs.Boxing.Mirror
import Upvalue.Proofs.Boxing.Play
import Upvalue.Proofs.Boxing.Validity

/-!
This module contains the proof that a program whose variables have been boxed has no variables left
that can be boxed: the pass succeeds again and does not change anything.
-/

namespace Upvalue.Boxing

open Program

/-- A moment with its names in the slots that they were moved to. -/
def Moment.relocate (moved : VarId → VarId) (m : Moment) : Moment :=
  ⟨m.around, rename moved m.action⟩

variable {field field' : String} {p q : Program} {moved : VarId → VarId} {s s' t : State}

section Steps

theorem steps_map_relocate (moments : List Moment) :
    steps (moments.map (Moment.relocate moved)) = (steps moments).map (rename moved) := by
  induction moments with
  | nil => rfl
  | cons m moments ih =>
    rcases m with ⟨around, action⟩
    rw [List.map_cons]
    unfold Moment.relocate
    cases haction : action.node? with
    | some node =>
      cases action <;> cases haction
      exact ih
    | none =>
      have hrename : (rename moved action).node? = none := by
        rw [node?_rename, haction]
      rw [steps_cons_step haction, steps_cons_step hrename, List.map_cons]
      congr 1

namespace Pass

theorem play_eq_forM_steps (moments : List Moment) (s : State) :
    play field moments s = (steps moments).forM (perform field fun _ => pure ()) s := by
  induction moments generalizing s with
  | nil => rfl
  | cons m moments ih =>
    rcases m with ⟨around, action⟩
    cases haction : action.node? with
    | some node =>
      cases action <;> cases haction
      rw [steps_cons_visit, ← ih]
      exact play_cons_ok rfl
    | none =>
      rw [steps_cons_step haction]
      cases h : perform field (fun _ => pure ()) action s with
      | ok _ s' => rw [play_cons_ok h, forM_cons_ok h, ih]
      | error stop s' => rw [play_cons_error h, forM_cons_error h]

theorem play_congr {moments moments' : List Moment} (h : steps moments = steps moments')
    (s : State) : play field moments s = play field moments' s := by
  rw [play_eq_forM_steps, play_eq_forM_steps, h]

end Pass

end Steps

/-- The second run follows the first run to its end. -/
theorem Mirrors.play {order : LoopOrder} {all : List Moment} (hall : Schedule order p all)
    (hrefines : Refines order p q moved)
    (hexports : ∀ decl, q.Unexported decl ↔ p.Unexported decl) (hrange : q.InRange)
    (hplay : Pass.play field all (.start p) = .ok () s)
    (hrewritten : ∀ b ∈ s.boxes.toList, ∀ id ∈ b.references, q.named? id = none) :
    ∃ t, Pass.play field' (all.map (Moment.relocate moved)) (.start q) = .ok () t ∧
      Mirrors p q all s t := by
  have hinvariant : Tracks field p ([] ++ all) s ∧
      ((∀ b ∈ s.boxes.toList, ∀ id ∈ b.references, q.named? id = none) →
        ∃ t, Pass.play field' (([] ++ all).map (Moment.relocate moved)) (.start q) = .ok () t ∧
          Mirrors p q ([] ++ all) s t) := by
    apply Pass.play_induct (P := fun past s => Tracks field p past s ∧
      ((∀ b ∈ s.boxes.toList, ∀ id ∈ b.references, q.named? id = none) →
        ∃ t, Pass.play field' (past.map (Moment.relocate moved)) (.start q) = .ok () t ∧
          Mirrors p q past s t)) _ _ hplay
    . refine ⟨.start field p, ?_⟩
      intro _
      exact ⟨_, rfl, .start p q⟩
    . rintro before m after s s' hsplit ⟨htracks, ih⟩ hs
      refine ⟨htracks.tick hall hsplit hs, ?_⟩
      intro hrewritten
      -- The boxes of the round before are among the boxes of this one.
      have hbefore : ∀ b ∈ s.boxes.toList, ∀ id ∈ b.references, q.named? id = none := by
        intro b hb
        exact hrewritten b ((Pass.changes_of_tick hs).boxes_subset hb)
      rcases ih hbefore with ⟨t, hplay, hmirrors⟩
      rcases hmirrors.tick hall htracks hrefines hexports hrange hsplit hrewritten hs
        with ⟨t', ht, hmirrors'⟩
      refine ⟨t', ?_, hmirrors'⟩
      rw [List.map_append, Pass.play_append, hplay]
      exact Pass.play_cons_ok (Pass.perform_of_tick ht)
  exact hinvariant.2 hrewritten

/--
If the variables of a program can be boxed, a run over the program that is left behind, whatever
the boxes are called in it, succeeds, boxes nothing and leaves every part of this program as it is.
The handles, which have 32 bits, have to reach all slots of this program.
-/
theorem run_idempotent (options : Options) (field : String) (p : Program) (hvalid : p.Valid)
    (boxes : Array Box) (hok : (run options p).verdict = .ok boxes)
    (hfit : (run options p).program.Addressable) :
    (run { options with field } (run options p).program).verdict = .ok #[] ∧
      (run { options with field } (run options p).program).program = (run options p).program := by
  have hvalid' := valid_program_run hvalid hfit
  rcases exists_schedule options.order hvalid with ⟨all, hall⟩
  rcases exists_schedule options.order hvalid' with ⟨all', hall'⟩
  rcases play_of_run_ok hall hvalid hok with ⟨s, hplay, rfl, hprogram⟩
  have hsplit : all = [] ++ all ++ [] := by simp
  have htracks : Tracks options.field p all s :=
    (Tracks.start options.field p).play hall hsplit hplay
  have hexports (decl : DeclId) : (run options p).program.Unexported decl ↔ p.Unexported decl := by
    rw [hprogram]
    exact htracks.unexported_iff decl
  rw [htracks.program] at hprogram
  -- The program that is left behind holds the nodes of the first one.
  have hrefines : ∃ moved, Refines options.order p (run options p).program moved := by
    rw [hprogram] at hfit ⊢
    rcases Refines.foldl_apply options.order hfit with ⟨moved, hrefines⟩
    refine ⟨moved, hrefines.append_items ?_⟩
    intro item hitem
    rcases Array.mem_map.mp hitem with ⟨b, -, rfl⟩
    rfl
  rcases hrefines with ⟨moved, hrefines⟩
  -- So both runs perform the same steps.
  have hsteps : steps all' = steps (all.map (Moment.relocate moved)) := by
    rcases hrefines.unfolds hall.unfolds [] with ⟨moments, hunfolds, hsteps⟩
    rw [map_rename_planProgram, ← hrefines.plan] at hunfolds
    rw [hall'.unfolds.unique hunfolds, hsteps, steps_map_relocate]
  -- The slots of the names hold accesses, so the second run does not mark their variables.
  have hrewritten : ∀ b ∈ s.boxes.toList, ∀ id ∈ b.references,
      (run options p).program.named? id = none := by
    intro b hb id hid
    have hused := (htracks.boxed b hb).2.2 id hid
    rw [mem_referencesIn] at hused
    rcases hused.1 with ⟨around, hmem⟩
    rcases List.append_of_mem hmem with ⟨past, rest, hsplit⟩
    rcases hall.exists_var?_of_reference hsplit with ⟨var, hvar⟩
    rw [hprogram]
    exact (Box.rewritten_foldl_apply hb hid hvar).named?
  have hsecond : ∃ t, Pass.play field (all.map (Moment.relocate moved))
      (.start (run options p).program) = .ok () t ∧ Mirrors p (run options p).program all s t :=
    Mirrors.play hall hrefines hexports hvalid'.inRange hplay hrewritten
  rcases hsecond with ⟨t, hplay', hmirrors⟩
  rw [Pass.play_congr hsteps.symm] at hplay'
  -- The order of the loops is the one of the first run, only the name of the field is new.
  have hrun : (run { options with field } (run options p).program).verdict = .ok t.boxes ∧
      (run { options with field } (run options p).program).program =
        { t.program with items := t.program.items ++ t.boxes.map Box.item } :=
    @run_of_play_ok { options with field } _ _ hall' hvalid' t hplay'
  rw [hmirrors.boxes, hmirrors.program] at hrun
  refine ⟨hrun.1, ?_⟩
  rw [hrun.2]
  simp

/-- The variable `x` is in its box after the first run. -/
theorem run_idempotent_counter :
    counter.Valid ∧ (run default counter).program.Addressable ∧
      ∃ boxes, (run default counter).verdict = .ok boxes ∧ boxes.size = 1 ∧
        (run (.ofField "cell") (run default counter).program).verdict = .ok #[] ∧
        (run (.ofField "cell") (run default counter).program).program =
          (run default counter).program := by
  have hvalid : counter.Valid := by decide +kernel
  have hfit : (run default counter).program.Addressable := by decide +kernel
  have hsize : (run default counter).verdict.toOption.map Array.size = some 1 := by
    decide +kernel
  cases hok : (run default counter).verdict with
  | error stop =>
    rw [hok] at hsize
    cases hsize
  | ok boxes =>
    rw [hok] at hsize
    injection hsize with hsize
    exact ⟨hvalid, hfit, boxes, rfl, hsize,
      run_idempotent default "cell" counter hvalid boxes hok hfit⟩

end Upvalue.Boxing

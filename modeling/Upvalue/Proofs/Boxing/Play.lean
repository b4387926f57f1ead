import Upvalue.Proofs.Boxing.Track

/-!
This module contains the proof that the pass performs the moments of a program, whose nodes form a
tree, one after the other. The limit of the depth is never reached, and no overwritten slot is
visited.
-/

namespace Upvalue.Boxing

open Program

variable {options : Options} {p : Program} {all past later moments : List Moment}
variable {around : List ExprId} {actions : List Action}

namespace Pass

theorem perform_of_node?_eq_none {field : String} {visit visit' : Node → Pass Unit}
    {action : Action} (h : action.node? = none) :
    perform field visit action = perform field visit' action := by
  cases action with
  | visit node => cases h
  | _ => rfl

theorem forM_perform_eq_play (hall : Schedule options.order p all)
    (hunfolds : Unfolds options.order p around actions moments) {depth : Nat}
    (hdepth : (visits moments).length ≤ depth) (hsplit : all = past ++ moments ++ later)
    {s : State} (hs : Tracks options.field p past s) :
    actions.forM (perform options.field (visit options depth)) s =
      play options.field moments s := by
  -- The slots that the boxes have overwritten are not visited again, so that `s` still has the
  -- plan of every node that is visited, and every visit takes one from the depth that is left.
  induction hunfolds generalizing depth past later s with
  | nil => rfl
  | @visit around node plan actions below rest hplan _ _ ihbelow ihrest =>
    rw [visits_cons_visit, List.length_cons, visits_append, List.length_append] at hdepth
    cases depth with
    | zero => omega
    | succ depth =>
      have hsplit' : all = past ++ [⟨around, .visit node⟩] ++ below ++ (rest ++ later) := by
        rw [hsplit]
        simp
      have hnode : all = past ++ ⟨around, .visit node⟩ :: (below ++ (rest ++ later)) := by
        rw [hsplit]
        simp
      have hplan' := hs.plan?_eq hall hnode hplan
      have hvisited : Tracks options.field p (past ++ [⟨around, .visit node⟩]) s :=
        hs.tick hall hnode (.visit s node)
      have hbelow : plan.forM (perform options.field (visit options depth)) s =
          play options.field below s := by
        apply ihbelow _ hsplit' hvisited
        omega
      have hstart : play options.field (⟨around, .visit node⟩ :: (below ++ rest)) s =
          play options.field (below ++ rest) s := play_cons_ok rfl
      have hvisit : perform options.field (visit options (depth + 1)) (.visit node) s =
          play options.field below s := by
        change visit options (depth + 1) node s = _
        rw [visit_succ hplan', hbelow]
      -- If the moments below the node stop the pass, so does the visit.
      rw [hstart, play_append]
      cases hplay : play options.field below s with
      | error stop s' =>
        rw [hplay] at hvisit
        exact forM_cons_error hvisit
      | ok _ s' =>
        rw [hplay] at hvisit
        rw [forM_cons_ok hvisit]
        apply ihrest (by omega)
        . rw [hsplit', ← List.append_assoc]
        . exact hvisited.play hall hsplit' hplay
  | @step around action actions rest hstep _ ih =>
    rw [visits_cons_step hstep] at hdepth
    have hperform : perform options.field (visit options depth) action =
        perform options.field (fun _ => pure ()) action := perform_of_node?_eq_none hstep
    cases h : perform options.field (fun _ => pure ()) action s with
    | error stop s' =>
      rw [play_cons_error h]
      rw [← hperform] at h
      exact forM_cons_error h
    | ok _ s' =>
      rw [play_cons_ok h]
      have hnode : all = past ++ ⟨around, action⟩ :: (rest ++ later) := by
        rw [hsplit]
        simp
      have hs' := hs.tick hall hnode (tick_of_perform h)
      rw [← hperform] at h
      rw [forM_cons_ok h]
      apply ih hdepth _ hs'
      . exact later
      . rw [hsplit]
        simp

theorem length_visits_le (hall : Schedule options.order p all) (hvalid : p.Valid) :
    (visits all).length ≤ p.slotCount := by
  apply length_le_slotCount hall.nodup
  intro node hnode
  unfold visits at hnode
  rw [List.mem_filterMap] at hnode
  rcases hnode with ⟨⟨around, action⟩, hmem, hnode⟩
  cases action with
  | visit n =>
    injection hnode with hnode
    rw [← hnode]
    exact Reachable.contains hvalid ⟨around, hall.within_of_mem hmem⟩
  | _ => cases hnode

theorem slotCount_le_depthLimit : p.slotCount ≤ depthLimit p := by
  unfold depthLimit
  calc
    p.slotCount ≤ p.slotCount + 1 := by omega
    _ ≤ (p.slotCount + 1) * (p.slotCount + 1) := Nat.le_mul_of_pos_left _ (by omega)

/-- The limit of the depth does not matter if it is not below the number of slots. -/
theorem visitProgram_eq_play_of_le (hall : Schedule options.order p all) (hvalid : p.Valid)
    {depth : Nat} (hdepth : p.slotCount ≤ depth) :
    visitProgram options depth (.start p) = play options.field all (.start p) := by
  have hlength := length_visits_le hall hvalid
  have hsplit : all = [] ++ all ++ [] := by simp
  apply forM_perform_eq_play hall hall.unfolds _ hsplit
  . exact Tracks.start options.field p
  . omega

theorem visitProgram_eq_play (hall : Schedule options.order p all) (hvalid : p.Valid) :
    visitProgram options (depthLimit p) (.start p) = play options.field all (.start p) := by
  apply visitProgram_eq_play_of_le hall hvalid slotCount_le_depthLimit

end Pass

/-- A run that reaches the end performs all moments of the program. -/
theorem play_of_run_ok (hall : Schedule options.order p all) (hvalid : p.Valid)
    {boxes : Array Box} (h : (run options p).verdict = .ok boxes) :
    ∃ s, Pass.play options.field all (.start p) = .ok () s ∧ s.boxes = boxes ∧
      (run options p).program =
        { s.program with items := s.program.items ++ boxes.map Box.item } := by
  rcases run_ok h with ⟨hpass, hboxes⟩
  refine ⟨finalState options p, ?_, hboxes, ?_⟩
  . rw [← Pass.visitProgram_eq_play hall hvalid, hpass]
  . unfold run
    rw [hpass]
    dsimp only
    rw [hboxes]

theorem run_of_play_ok (hall : Schedule options.order p all) (hvalid : p.Valid) {s : State}
    (h : Pass.play options.field all (.start p) = .ok () s) :
    (run options p).verdict = .ok s.boxes ∧
      (run options p).program =
        { s.program with items := s.program.items ++ s.boxes.map Box.item } := by
  rw [← Pass.visitProgram_eq_play hall hvalid] at h
  unfold run
  rw [h]
  exact ⟨rfl, rfl⟩

/-- The program that a run leaves behind, by its boxes. -/
theorem program_of_run_ok {boxes : Array Box} (hok : (run options p).verdict = .ok boxes) :
    (run options p).program =
      { boxes.toList.foldl (fun q b => b.apply q) p with
        items := p.items ++ boxes.map Box.item } := by
  rcases run_ok hok with ⟨hpass, hboxes⟩
  have hprogram := program_finalState options p
  unfold run
  rw [hpass]
  dsimp only
  rw [hprogram, hboxes, Box.items_foldl_apply]

end Upvalue.Boxing

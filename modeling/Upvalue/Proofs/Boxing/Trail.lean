import Upvalue.Proofs.Boxing.Fault
import Upvalue.Proofs.Boxing.Graft
import Upvalue.Proofs.Boxing.Slots

/-!
This module contains the trail that the pass leaves behind: the visits that it begins and ends and
the boxes that it applies, each with the program that the pass finds. The trail is read off the pass
itself, so it shows which nodes are visited, and when their slots are overwritten.
-/

namespace Upvalue

theorem Box.contains_foldl_apply {p : Program} {boxes : List Box} {ref : Ref}
    (h : p.contains ref = true) :
    (boxes.foldl (fun q b => b.apply q) p).contains ref = true := by
  induction boxes generalizing p with
  | nil => exact h
  | cons b boxes ih =>
    apply ih
    apply Program.contains_mono _ _ _ _ h
    . simp [decls_apply]
    . simp
    . apply size_exprs_apply_le
    . apply size_vars_apply_le

namespace Boxing

open Program

/-- What happens during the pass. -/
inductive Stage where
  | begun (node : Node)
  | ended (node : Node)
  | boxed (box : Box)

/-- What happens, and the program right before it. -/
structure Stamp where
  stage : Stage
  program : Program

namespace Pass

/-- The stamps of the members of a list. There are none after a member that stops the pass. -/
def stampsOfAll {α : Type} (f : α → Pass Unit) (stamps : α → State → List Stamp) :
    List α → State → List Stamp
  | [], _ => []
  | a :: as, s =>
    stamps a s ++
      match f a s with
      | .ok _ s' => stampsOfAll f stamps as s'
      | .error _ _ => []

def stampsOfBox (field : String) (decl : DeclId) (s : State) : List Stamp :=
  match s.boxFor field decl with
  | .ok b => [⟨.boxed b, s.program⟩]
  | .error _ => []

/-- The stamps of an action, where `stamps` has the stamps of a visit. -/
def stampsOfAction (field : String) (stamps : Node → State → List Stamp) (action : Action)
    (s : State) : List Stamp :=
  match action with
  | .visit node => stamps node s
  | .leave =>
    match s.exit with
    | .ok (scope, s') => stampsOfAll (box field) (stampsOfBox field) scope.boxable s'
    | .error _ => []
  | _ => []

/-- The stamps of a visit. The visit of a node ends when its plan has been carried out. -/
def stampsOfVisit (options : Options) (depth : Nat) (node : Node) (s : State) : List Stamp :=
  match depth with
  | 0 => [⟨.begun node, s.program⟩]
  | depth + 1 =>
    match plan? options.order s.program node with
    | none => [⟨.begun node, s.program⟩]
    | some actions =>
      ⟨.begun node, s.program⟩ ::
        (stampsOfAll (perform options.field (visit options depth))
            (stampsOfAction options.field (stampsOfVisit options depth)) actions s ++
          match visit options (depth + 1) node s with
          | .ok _ s' => [⟨.ended node, s'.program⟩]
          | .error _ _ => [])

end Pass

/-- The stamps of the pass over a program. -/
def trailOf (options : Options) (p : Program) : List Stamp :=
  Pass.stampsOfAll (Pass.perform options.field (Pass.visit options (depthLimit p)))
    (Pass.stampsOfAction options.field (Pass.stampsOfVisit options (depthLimit p)))
    (planProgram p) (.start p)

/-- The nodes whose visits have begun. -/
def begun (trail : List Stamp) : List Node :=
  trail.filterMap fun stamp =>
    match stamp.stage with
    | .begun node => some node
    | _ => none

/-- The nodes whose visits have ended. -/
def ended (trail : List Stamp) : List Node :=
  trail.filterMap fun stamp =>
    match stamp.stage with
    | .ended node => some node
    | _ => none

/-- The boxes that have been applied. -/
def boxed (trail : List Stamp) : List Box :=
  trail.filterMap fun stamp =>
    match stamp.stage with
    | .boxed b => some b
    | _ => none

/-- A slot holds the same in two programs. -/
def SameAt (p q : Program) : Node → Prop
  | .stat id => q.stat? id = p.stat? id
  | .expr id => q.expr? id = p.expr? id
  | .var id => q.var? id = p.var? id

/--
A stamp comes at the right time. The slots of the nodes whose visits have not ended are untouched, a
visit ends after the visits of all children, and a box overwrites slots that exist and whose nodes
have been visited.
-/
structure Orderly (p : Program) (past : List Stamp) (stamp : Stamp) : Prop where
  kept : ∀ node, p.contains (.node node) = true → node ∉ ended past →
    SameAt p stamp.program node
  finished : ∀ node, stamp.stage = .ended node → node ∈ begun past ∧ node ∉ ended past ∧
    ∀ child ∈ p.children node, child ∈ ended past
  rewritten : ∀ b, stamp.stage = .boxed b → stamp.program.contains (.decl b.decl) = true ∧
    stamp.program.contains (.expr b.initializer) = true ∧ .expr b.initializer ∈ ended past ∧
    ∀ id ∈ b.references, stamp.program.contains (.var id) = true ∧ .var id ∈ ended past

section Stages

variable {trail trail' : List Stamp} {q : Program} {node : Node} {b : Box}

@[simp]
theorem begun_append : begun (trail ++ trail') = begun trail ++ begun trail' := by
  apply List.filterMap_append

@[simp]
theorem ended_append : ended (trail ++ trail') = ended trail ++ ended trail' := by
  apply List.filterMap_append

@[simp]
theorem boxed_append : boxed (trail ++ trail') = boxed trail ++ boxed trail' := by
  apply List.filterMap_append

@[simp]
theorem begun_begun : begun [⟨.begun node, q⟩] = [node] := rfl

@[simp]
theorem begun_ended : begun [⟨.ended node, q⟩] = [] := rfl

@[simp]
theorem begun_boxed : begun [⟨.boxed b, q⟩] = [] := rfl

@[simp]
theorem ended_begun : ended [⟨.begun node, q⟩] = [] := rfl

@[simp]
theorem ended_ended : ended [⟨.ended node, q⟩] = [node] := rfl

@[simp]
theorem ended_boxed : ended [⟨.boxed b, q⟩] = [] := rfl

@[simp]
theorem boxed_begun : boxed [⟨.begun node, q⟩] = [] := rfl

@[simp]
theorem boxed_ended : boxed [⟨.ended node, q⟩] = [] := rfl

@[simp]
theorem boxed_boxed : boxed [⟨.boxed b, q⟩] = [b] := rfl

end Stages

namespace Pass

section Loop

variable {α : Type} {f : α → Pass Unit} {stamps : α → State → List Stamp} {a : α} {as : List α}
variable {s s' : State} {stop : Stop}

theorem stampsOfAll_cons_ok (h : f a s = .ok () s') :
    stampsOfAll f stamps (a :: as) s = stamps a s ++ stampsOfAll f stamps as s' := by
  rw [stampsOfAll, h]

theorem stampsOfAll_cons_error (h : f a s = .error stop s') :
    stampsOfAll f stamps (a :: as) s = stamps a s := by
  rw [stampsOfAll, h, List.append_nil]

theorem after_cons_ok (h : f a s = .ok () s') :
    after ((a :: as).forM f) s = after (as.forM f) s' := by
  unfold after
  rw [forM_cons_ok h]

theorem after_cons_error (h : f a s = .error stop s') : after ((a :: as).forM f) s = s' := by
  apply after_error
  apply forM_cons_error h

end Loop

variable {options : Options} {depth : Nat} {node : Node} {s s' : State} {plan : List Action}

theorem stampsOfVisit_ok (hplan : plan? options.order s.program node = some plan)
    (h : visit options (depth + 1) node s = .ok () s') :
    stampsOfVisit options (depth + 1) node s =
      [⟨.begun node, s.program⟩] ++
        (stampsOfAll (perform options.field (visit options depth))
          (stampsOfAction options.field (stampsOfVisit options depth)) plan s ++
            [⟨.ended node, s'.program⟩]) := by
  rw [stampsOfVisit]
  simp only [hplan, h]
  rfl

theorem stampsOfVisit_error {stop : Stop}
    (hplan : plan? options.order s.program node = some plan)
    (h : visit options (depth + 1) node s = .error stop s') :
    stampsOfVisit options (depth + 1) node s =
      [⟨.begun node, s.program⟩] ++
        stampsOfAll (perform options.field (visit options depth))
          (stampsOfAction options.field (stampsOfVisit options depth)) plan s := by
  rw [stampsOfVisit]
  simp only [hplan, h, List.append_nil]
  rfl

end Pass

/-- What the trail says about the moments of the past. -/
structure Sound (field : String) (p : Program) (past : List Moment) (trail : List Stamp)
    (s : State) : Prop where
  tracks : Tracks field p past s
  visited : begun trail = visits past
  applied : boxed trail = s.boxes.toList
  initialized : ∀ around decl value, ⟨around, .initializer decl value⟩ ∈ past →
    .expr value ∈ ended trail
  used : ∀ around id, ⟨around, .reference id⟩ ∈ past → .var id ∈ ended trail
  orderly : ∀ before stamp after, trail = before ++ stamp :: after → Orderly p before stamp

variable {order : LoopOrder} {field : String} {p : Program} {all past rest : List Moment}
variable {around : List ExprId} {trail : List Stamp} {s s' : State} {node : Node} {m : Moment}

namespace Sound

theorem start (field : String) (p : Program) : Sound field p [] [] (.start p) := by
  constructor
  . apply Tracks.start
  . rfl
  . rfl
  . intro around decl value hmem
    cases hmem
  . intro around id hmem
    cases hmem
  . intro before stamp after hsplit
    simp at hsplit

theorem kept (h : Sound field p past trail s) (node : Node)
    (hcontains : p.contains (.node node) = true) (hnode : node ∉ ended trail) :
    SameAt p s.program node := by
  rw [contains_iff_isSome, Option.isSome_iff_exists] at hcontains
  rcases hcontains with ⟨content, hcontent⟩
  cases node with
  | stat id =>
    change s.program.stat? id = p.stat? id
    rw [h.tracks.program, Box.stat?_foldl_apply]
  | expr id =>
    rw [content?_expr, Option.map_eq_some_iff] at hcontent
    rcases hcontent with ⟨expr, hexpr, -⟩
    change s.program.expr? id = p.expr? id
    rw [hexpr]
    apply h.tracks.expr?_eq _ hexpr
    intro around decl hmem
    apply hnode (h.initialized around decl id hmem)
  | var id =>
    rw [content?_var, Option.map_eq_some_iff] at hcontent
    rcases hcontent with ⟨var, hvar, -⟩
    change s.program.var? id = p.var? id
    rw [hvar]
    apply h.tracks.var?_eq _ hvar
    intro around hmem
    apply hnode (h.used around id hmem)

theorem orderly_append (h : Sound field p past trail s) {stamp : Stamp}
    (hstamp : Orderly p trail stamp) :
    ∀ before stamp' after, trail ++ [stamp] = before ++ stamp' :: after →
      Orderly p before stamp' := by
  intro before stamp' after hsplit
  cases List.eq_nil_or_concat after with
  | inl hnil =>
    subst hnil
    rcases List.append_inj' hsplit rfl with ⟨rfl, hlast⟩
    cases hlast
    exact hstamp
  | inr hconcat =>
    rcases hconcat with ⟨after', last, rfl⟩
    rw [List.concat_eq_append, ← List.cons_append, ← List.append_assoc] at hsplit
    rcases List.append_inj' hsplit rfl with ⟨hsplit, -⟩
    apply h.orderly before stamp' after' hsplit

theorem begin (h : Sound field p past trail s) (hall : Schedule order p all)
    (hsplit : all = past ++ ⟨around, .visit node⟩ :: rest) :
    Sound field p (past ++ [⟨around, .visit node⟩]) (trail ++ [⟨.begun node, s.program⟩]) s := by
  constructor
  . apply h.tracks.tick hall hsplit (.visit s node)
  . rw [begun_append, h.visited, visits_append]
    rfl
  . simp [h.applied]
  . intro gs decl value hmem
    simp only [List.mem_append, List.mem_singleton, Moment.mk.injEq, reduceCtorEq, and_false,
      or_false] at hmem
    simp [h.initialized gs decl value hmem]
  . intro gs id hmem
    simp only [List.mem_append, List.mem_singleton, Moment.mk.injEq, reduceCtorEq, and_false,
      or_false] at hmem
    simp [h.used gs id hmem]
  . apply h.orderly_append
    constructor
    . exact h.kept
    . simp
    . simp

theorem finish (h : Sound field p past trail s) (hbegun : node ∈ begun trail)
    (hended : node ∉ ended trail) (hchildren : ∀ child ∈ p.children node, child ∈ ended trail) :
    Sound field p past (trail ++ [⟨.ended node, s.program⟩]) s := by
  constructor
  . exact h.tracks
  . simp [h.visited]
  . simp [h.applied]
  . intro gs decl value hmem
    simp [h.initialized gs decl value hmem]
  . intro gs id hmem
    simp [h.used gs id hmem]
  . apply h.orderly_append
    constructor
    . exact h.kept
    . intro node' heq
      cases heq
      exact ⟨hbegun, hended, hchildren⟩
    . simp

theorem congr (h : Sound field p past trail s) (hprogram : s'.program = s.program)
    (hregistry : s'.registry = s.registry) (hboxes : s'.boxes = s.boxes) :
    Sound field p past trail s' := by
  constructor
  . apply h.tracks.congr hprogram hregistry hboxes
  . exact h.visited
  . rw [h.applied, hboxes]
  . exact h.initialized
  . exact h.used
  . exact h.orderly

/-- A round that does not leave a stamp, or whose stamps are in the trail already. -/
theorem advance (h : Sound field p past trail s) (ht : Tracks field p (past ++ [m]) s')
    (hboxes : s'.boxes = s.boxes) (hvisit : m.action.node? = none)
    (hinitializer : ∀ decl value, m.action = .initializer decl value → .expr value ∈ ended trail)
    (hreference : ∀ id, m.action = .reference id → .var id ∈ ended trail) :
    Sound field p (past ++ [m]) trail s' := by
  constructor
  . exact ht
  . rw [h.visited, visits_append, visits_cons_step hvisit]
    simp [visits]
  . rw [h.applied, hboxes]
  . intro gs decl value hmem
    rw [List.mem_append, List.mem_singleton] at hmem
    cases hmem with
    | inl hmem => apply h.initialized gs decl value hmem
    | inr heq =>
      apply hinitializer decl value
      rw [← heq]
  . intro gs id hmem
    rw [List.mem_append, List.mem_singleton] at hmem
    cases hmem with
    | inl hmem => apply h.used gs id hmem
    | inr heq =>
      apply hreference id
      rw [← heq]
  . exact h.orderly

section Boxes

variable (hall : Schedule order p all) (hvalid : p.Valid) (hsplit : all = past ++ rest)
include hall hvalid hsplit

theorem contains_of_initializer {decl : DeclId} {value : ExprId}
    (hmem : ⟨around, .initializer decl value⟩ ∈ past) : p.contains (.expr value) = true := by
  rcases List.append_of_mem hmem with ⟨before, after, rfl⟩
  rw [List.append_assoc, List.cons_append] at hsplit
  have hvisit := (hall.before_initializer hsplit).1
  have hmem : ⟨around, .visit (.expr value)⟩ ∈ all := by
    rw [hsplit]
    apply List.mem_append_left _ hvisit
  apply Reachable.contains hvalid ⟨around, hall.within_of_mem hmem⟩

omit hvalid in
theorem contains_of_reference {id : VarId} (hmem : ⟨around, .reference id⟩ ∈ past) :
    p.contains (.var id) = true := by
  rcases List.append_of_mem hmem with ⟨before, after, rfl⟩
  rw [List.append_assoc, List.cons_append] at hsplit
  rcases hall.exists_var?_of_reference hsplit with ⟨var, hvar⟩
  change p.contains (.node (.var id)) = true
  rw [contains_iff_isSome, content?_of_var? hvar, Option.isSome_some]

theorem box (h : Sound field p past trail s) {decl : DeclId} {b : Box}
    (hb : s.boxFor field decl = .ok b) :
    Sound field p past (trail ++ [⟨.boxed b, s.program⟩]) (s.addBox b) := by
  rcases h.tracks.box hb with ⟨⟨d, hd⟩, ⟨gs, hvalue⟩, hreferences, htracks⟩
  have hcontains {ref : Ref} (href : p.contains ref = true) : s.program.contains ref = true := by
    rw [h.tracks.program]
    apply Box.contains_foldl_apply href
  constructor
  . exact htracks
  . simp [h.visited]
  . simp [h.applied, State.addBox]
  . intro around decl value hmem
    simp [h.initialized around decl value hmem]
  . intro around id hmem
    simp [h.used around id hmem]
  . apply h.orderly_append
    constructor
    . exact h.kept
    . simp
    . intro b' heq
      cases heq
      refine ⟨?_, ?_, h.initialized gs b.decl b.initializer hvalue, ?_⟩
      . unfold Program.contains
        rw [decide_eq_true_iff]
        exact (Array.getElem?_eq_some_iff.mp hd).1
      . apply hcontains
        apply contains_of_initializer hall hvalid hsplit hvalue
      . intro id hid
        rcases mem_referencesIn.mp (hreferences id hid) with ⟨⟨around, hmem⟩, -⟩
        refine ⟨?_, h.used around id hmem⟩
        apply hcontains
        apply contains_of_reference hall hsplit hmem

/-- Boxing variables leaves a stamp for each box, also if one of them cannot be boxed. -/
theorem boxes (decls : List DeclId) (h : Sound field p past trail s) :
    Sound field p past
      (trail ++ Pass.stampsOfAll (Pass.box field) (Pass.stampsOfBox field) decls s)
      (Pass.after (decls.forM (Pass.box field)) s) := by
  induction decls generalizing trail s with
  | nil =>
    unfold Pass.stampsOfAll
    rw [List.append_nil]
    exact h
  | cons decl decls ih =>
    cases hbox : s.boxFor field decl with
    | ok b =>
      have hok := Pass.box_of_ok hbox
      have hstamps : Pass.stampsOfBox field decl s = [⟨.boxed b, s.program⟩] := by
        unfold Pass.stampsOfBox
        rw [hbox]
      rw [Pass.stampsOfAll_cons_ok hok, Pass.after_cons_ok hok, hstamps, ← List.append_assoc]
      apply ih
      apply h.box hall hvalid hsplit hbox
    | error stop =>
      have hstop := Pass.box_of_error hbox
      have hstamps : Pass.stampsOfBox field decl s = [] := by
        unfold Pass.stampsOfBox
        rw [hbox]
      rw [Pass.stampsOfAll_cons_error hstop, Pass.after_cons_error hstop, hstamps, List.append_nil]
      exact h

end Boxes

theorem ended_subset (h : Sound field p past trail s) (hnode : node ∈ ended trail) :
    node ∈ visits past := by
  rw [← h.visited]
  have hmem := hnode
  unfold ended at hmem
  rw [List.mem_filterMap] at hmem
  rcases hmem with ⟨stamp, hstamp, hstage⟩
  rcases List.append_of_mem hstamp with ⟨before, after, rfl⟩
  have hfinished := (h.orderly before stamp after rfl).finished node
  rw [begun_append, List.mem_append]
  left
  cases hended : stamp.stage with
  | ended node' =>
    rw [hended] at hstage
    cases hstage
    apply (hfinished hended).1
  | begun node' =>
    rw [hended] at hstage
    cases hstage
  | boxed b =>
    rw [hended] at hstage
    cases hstage

end Sound

end Boxing

end Upvalue

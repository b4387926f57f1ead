import Upvalue.Proofs.Boxing.Blame
import Upvalue.Proofs.Boxing.Complete

/-!
This module contains what a box is made of: when a function ends, the last value that its variable
has been declared with and all names that have been used so far, no matter what is declared or used
later on. A run also writes down which boxes it applies, whether it reaches the end or not.
-/

namespace Upvalue

namespace Boxing

/-- The value that an action gives to a variable. -/
def valueAt? (decl : DeclId) : Action → Option ExprId
  | .initializer decl' value => if decl = decl' then some value else none
  | _ => none

/-- The last value that a variable has been declared with. -/
def lastValue? (decl : DeclId) (past : List Moment) : Option ExprId :=
  past.reverse.findSome? fun m => valueAt? decl m.action

/-- A box for which the moments of the past give the value and the names. -/
structure Noted (p : Program) (past : List Moment) (b : Box) : Prop where
  value : lastValue? b.decl past = some b.initializer
  references : b.references.toList = referencesIn p b.decl past

/-- A box that is made at the end of a function. -/
def NotedIn (p : Program) (moments : List Moment) (b : Box) : Prop :=
  ∃ before around after, moments = before ++ ⟨around, .leave⟩ :: after ∧ Noted p before b

namespace Event

def box? : Event → Option Box
  | .boxed b => some b
  | _ => none

end Event

/-- The boxes that have been written down. -/
def logged (log : Array Event) : List Box :=
  log.toList.filterMap Event.box?

theorem mem_logged {log : Array Event} {b : Box} : b ∈ logged log ↔ .boxed b ∈ log := by
  unfold logged
  rw [List.mem_filterMap]
  constructor
  . rintro ⟨event, hevent, hbox⟩
    cases event with
    | boxed b' =>
      injection hbox with hbox
      subst hbox
      exact Array.mem_toList_iff.mp hevent
    | _ => cases hbox
  . intro h
    exact ⟨.boxed b, Array.mem_toList_iff.mpr h, rfl⟩

section Values

variable {past rest moments : List Moment} {m : Moment} {decl : DeclId} {value : ExprId}

theorem lastValue?_append : lastValue? decl (past ++ [m]) =
    (valueAt? decl m.action).or (lastValue? decl past) := by
  unfold lastValue?
  rw [List.reverse_append, List.reverse_singleton, List.singleton_append, List.findSome?_cons]
  cases valueAt? decl m.action <;> rfl

theorem mem_of_lastValue? (h : lastValue? decl past = some value) :
    ∃ around, ⟨around, .initializer decl value⟩ ∈ past := by
  rcases List.exists_of_findSome?_eq_some h with ⟨⟨around, action⟩, hmem, hvalue⟩
  rw [List.mem_reverse] at hmem
  cases action with
  | initializer decl' value' =>
    dsimp only [valueAt?] at hvalue
    split at hvalue
    . next heq =>
      injection hvalue with hvalue
      subst heq hvalue
      exact ⟨around, hmem⟩
    . cases hvalue
  | _ => cases hvalue

theorem NotedIn.append {p : Program} {b : Box} (h : NotedIn p past b) (rest : List Moment) :
    NotedIn p (past ++ rest) b := by
  rcases h with ⟨before, around, after, rfl, hnoted⟩
  refine ⟨before, around, after ++ rest, ?_, hnoted⟩
  rw [List.append_assoc, List.cons_append]

theorem NotedIn.initializer {p : Program} {b : Box} (h : NotedIn p past b) :
    ∃ around, ⟨around, .initializer b.decl b.initializer⟩ ∈ past := by
  rcases h with ⟨before, around, after, rfl, hnoted⟩
  rcases mem_of_lastValue? hnoted.value with ⟨around', hmem⟩
  exact ⟨around', List.mem_append_left _ hmem⟩

theorem NotedIn.reference {p : Program} {b : Box} (h : NotedIn p past b) {id : VarId}
    (hid : id ∈ b.references) :
    (∃ around, ⟨around, .reference id⟩ ∈ past) ∧ p.candidate? id = some b.decl := by
  rcases h with ⟨before, around, after, rfl, hnoted⟩
  rw [← Array.mem_toList_iff, hnoted.references, mem_referencesIn] at hid
  rcases hid with ⟨⟨around', hmem⟩, hcandidate⟩
  exact ⟨⟨around', List.mem_append_left _ hmem⟩, hcandidate⟩

theorem NotedIn.candidate? {p : Program} {b : Box} (h : NotedIn p past b) {id : VarId}
    (hid : id ∈ b.references) : p.candidate? id = some b.decl :=
  (h.reference hid).2

end Values

section Notes

variable {order : LoopOrder} {field : String} {p : Program} {all past rest : List Moment}
variable {current : List ExprId} {action : Action} {m : Moment} {s s' : State} {stop : Stop}

/-- The value that is known of a declaration. -/
def State.value? (s : State) (decl : DeclId) : Option ExprId :=
  (s.registry.info? decl).bind DeclInfo.initializer

/-- What the state and its boxes know of the moments of the past. -/
structure Notes (field : String) (p : Program) (past : List Moment) (s : State) : Prop where
  value : ∀ decl, s.value? decl = lastValue? decl past
  boxed : ∀ b ∈ s.boxes.toList, b.field = field ∧ NotedIn p past b

theorem initializer_recordAt_eq {depth : Nat} {decl : DeclId} {info : Option DeclInfo}
    (h : ∀ value, action = .initializer decl value → info.isSome = true) :
    (recordAt p depth decl info action).bind DeclInfo.initializer =
      (valueAt? decl action).or (info.bind DeclInfo.initializer) := by
  cases action with
  | register decl' =>
    simp only [recordAt, valueAt?, Option.none_or]
    split
    . cases info <;> rfl
    . rfl
  | initializer decl' value =>
    simp only [recordAt, valueAt?]
    split
    . next heq =>
      subst heq
      rcases Option.isSome_iff_exists.mp (h value rfl) with ⟨info, rfl⟩
      rfl
    . rfl
  | reference name =>
    simp only [recordAt, valueAt?, Option.none_or]
    split
    . cases info <;> rfl
    . rfl
  | _ => rfl

theorem Tick.value? (h : Tick field action s s') (decl : DeclId) :
    s'.value? decl = (valueAt? decl action).or (s.value? decl) := by
  unfold State.value?
  rw [h.info?]
  apply initializer_recordAt_eq
  rintro value rfl
  cases h with
  | initializer hs =>
    rcases State.setInitializer_ok hs with ⟨⟨info, hinfo⟩, -⟩
    rw [hinfo]
    rfl

namespace Notes

theorem start (field : String) (p : Program) : Notes field p [] (.start p) := by
  constructor
  . intro decl
    rfl
  . intro b hb
    cases hb

/-- When a function ends, its boxes are made of what has been noted. -/
theorem leave (h : Notes field p past s) (ht : Tracks field p past s) {s₁ : State}
    {scope : FunctionScope} (hexit : s.exit = .ok (scope, s₁)) {decls : List DeclId}
    (hboxes : decls.forM (Pass.box field) s₁ = .ok () s') (around : List ExprId) :
    ∀ b ∈ s'.boxes.toList, b.field = field ∧ NotedIn p (past ++ [⟨around, .leave⟩]) b := by
  rcases State.exit_ok hexit with ⟨stack, -, rfl⟩
  rcases Pass.forM_box_ok hboxes with ⟨boxes, -, hinfo, hlist, -⟩
  dsimp only at hinfo hlist
  intro b hb
  rw [hlist, List.mem_append] at hb
  cases hb with
  | inl hb => exact ⟨(h.boxed b hb).1, (h.boxed b hb).2.append _⟩
  | inr hb =>
    rcases hinfo b hb with ⟨hfield, info, hdecl, hvalue, hreferences⟩
    refine ⟨hfield, past, around, [], rfl, ?_, ?_⟩
    . rw [← h.value]
      unfold State.value?
      rw [hdecl, Option.bind_some, hvalue]
    . have hrecorded : s.recorded b.decl = info.references.toList := recorded_of_info? hdecl
      rw [← hreferences, ← hrecorded, ht.references]

theorem tick (h : Notes field p past s) (ht : Tracks field p past s)
    (hs : Tick field m.action s s') : Notes field p (past ++ [m]) s' := by
  constructor
  . intro decl
    rw [hs.value?, lastValue?_append, h.value]
  . rcases m with ⟨around, action⟩
    by_cases hleave : action = .leave
    . subst hleave
      cases hs with
      | leave hexit hboxes => exact h.leave ht hexit hboxes around
    . intro b hb
      rw [hs.boxes_eq hleave] at hb
      exact ⟨(h.boxed b hb).1, (h.boxed b hb).2.append _⟩

end Notes

theorem notes_of_play (hall : Schedule order p all) (hsplit : all = past ++ rest)
    (hflow : Follows [] past current) (h : Pass.play field past (.start p) = .ok () s) :
    Tracks field p past s ∧ Recalls p past current s ∧ Notes field p past s :=
  invariant_of_play (P := fun past _ s => Notes field p past s) hall (.start field p)
    (fun _ _ htracks _ hnotes hs => hnotes.tick htracks hs) hsplit hflow h

/-- The variables of a function that are boxed before the pass stops are boxed as always. -/
theorem Notes.boxed_of_error (h : Notes field p past s) (ht : Tracks field p past s)
    (hstop : Pass.perform field (fun _ => pure ()) m.action s = .error stop s') :
    ∀ b ∈ s'.boxes.toList, b.field = field ∧ NotedIn p (past ++ [m]) b := by
  rcases m with ⟨around, action⟩
  by_cases hleave : action = .leave
  . subst hleave
    change Pass.leave field s = .error stop s' at hstop
    unfold Pass.leave at hstop
    split at hstop
    . next scope s₁ hexit =>
      rcases Pass.forM_box_error hstop with ⟨done, _, _, -, hdone, -⟩
      exact h.leave ht hexit hdone around
    . cases hstop
      intro b hb
      exact ⟨(h.boxed b hb).1, (h.boxed b hb).2.append _⟩
  . have hstep : action.node? = none := by
      cases action with
      | visit node => cases hstop
      | _ => rfl
    have hkept := Pass.perform_error hstep hleave hstop
    subst hkept
    intro b hb
    exact ⟨(h.boxed b hb).1, (h.boxed b hb).2.append _⟩

end Notes

section Log

variable {field : String} {s s' : State}

theorem logged_push {log : Array Event} {event : Event} :
    logged (log.push event) = logged log ++ event.box?.toList := by
  unfold logged
  rw [Array.toList_push, List.filterMap_append]
  cases event <;> rfl

theorem Change.logged (h : Change field s s') (hs : logged s.log = s.boxes.toList) :
    logged s'.log = s'.boxes.toList := by
  cases h with
  | register decl => exact hs
  | initializer h =>
    rcases State.setInitializer_ok h with ⟨-, rfl⟩
    exact hs
  | assign h =>
    rcases State.assign_ok h with ⟨-, rfl⟩ | ⟨decl, info, loc, -, -, -, -, -, rfl⟩
    . exact hs
    . unfold State.noteAssignment
      split <;> exact hs
  | reference h =>
    rcases State.reference_ok h with ⟨-, rfl⟩ | ⟨decl, info, -, -, ⟨-, -, rfl⟩ | ⟨-, rfl⟩⟩ <;>
      exact hs
  | enter =>
    change Boxing.logged (s.log.push _) = s.boxes.toList
    rw [logged_push, hs]
    apply List.append_nil
  | exit h =>
    rcases State.exit_ok h with ⟨stack, -, rfl⟩
    rw [logged_push, hs]
    apply List.append_nil
  | @box _ b h =>
    change Boxing.logged (s.log.push (.boxed b)) = (s.boxes.push b).toList
    rw [logged_push, hs, Array.toList_push]
    rfl

/-- The boxes that are written down are the ones that are applied. -/
theorem Changes.logged (h : Changes field s s') (hs : logged s.log = s.boxes.toList) :
    logged s'.log = s'.boxes.toList := by
  induction h with
  | refl => exact hs
  | tail _ hchange ih => exact hchange.logged ih

theorem logged_finalState (options : Options) (p : Program) :
    logged (finalState options p).log = (finalState options p).boxes.toList :=
  (Pass.changes_visitProgram options (depthLimit p) (.start p)).logged rfl

end Log

end Boxing

end Upvalue

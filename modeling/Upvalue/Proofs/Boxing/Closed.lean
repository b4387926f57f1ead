import Upvalue.Proofs.Boxing.Blame
import Upvalue.Proofs.Boxing.Complete

/-!
This module contains what happens to the names of a variable whose function has been left. The pass
compares depths, and it does so for assignments only. An assignment that is less deep than the
variable stops the pass, any other name of such a variable goes unnoticed. If there are no such
names, no variable is boxed twice and no name of a boxed variable is left.
-/

namespace Upvalue.Boxing

open Program

/--
A name is used at a moment although the function has been left in which its variable was registered
at first: the function literals around the registration are not the ones that are still open.
-/
def Strays (p : Program) (past : List Moment) (m : Moment) (decl : DeclId) : Prop :=
  ∃ id home, (m.action = .assign id ∨ m.action = .reference id) ∧ p.candidate? id = some decl ∧
    home? past decl = some home ∧ ¬ home <:+ m.around

/-- A variable is assigned at a moment that is less deep than the registration of the variable. -/
def Above (p : Program) (past : List Moment) (m : Moment) (decl : DeclId) : Prop :=
  ∃ target home, m.action = .assign target ∧ p.candidate? target = some decl ∧
    home? past decl = some home ∧ m.around.length < home.length

/--
What the open scopes and the boxes say if no name strays: a variable is marked in the scope of the
function that it was registered in, and it is boxed when this function has been left.
-/
structure Housed (p : Program) (past : List Moment) (current : List ExprId) (s : State) :
    Prop where
  marked : ∀ around scope decl, around <:+ current → s.scopes.at? (around.length + 1) = some scope →
    decl ∈ scope.mutated → home? past decl = some around
  unmarked : ∀ depth scope, s.scopes.at? depth = some scope → scope.mutated.Nodup
  boxed : ∀ b ∈ s.boxes.toList, p.Unexported b.decl ∧
    ∃ home, home? past b.decl = some home ∧ ¬ home <:+ current
  once : (s.boxes.toList.map Box.decl).Nodup
  complete : Complete p past s

variable {order : LoopOrder} {field : String} {p : Program} {all past rest : List Moment}
variable {current final : List ExprId} {m : Moment} {decl : DeclId} {d : Decl} {s s' : State}

theorem Above.strays (h : Above p past m decl) : Strays p past m decl := by
  rcases h with ⟨target, home, hm, hid, hhome, hlt⟩
  refine ⟨target, home, .inl hm, hid, hhome, ?_⟩
  intro hsuffix
  have := hsuffix.length_le
  omega

namespace Housed

theorem start (p : Program) : Housed p [] [] (.start p) := by
  have hempty (depth : Nat) (scope : FunctionScope)
      (hscope : (State.start p).scopes.at? depth = some scope) : scope.mutated = [] := by
    change ScopeStack.new.at? depth = some scope at hscope
    rw [ScopeStack.at?_new] at hscope
    split at hscope
    . cases hscope
      rfl
    . cases hscope
  constructor
  . intro around scope decl _ hscope hmem
    rw [hempty _ scope hscope] at hmem
    cases hmem
  . intro depth scope hscope
    rw [hempty depth scope hscope]
    exact List.nodup_nil
  . intro b hb
    cases hb
  . exact List.nodup_nil
  . intro b hb
    cases hb

/-- A scope that is open at a function after a round has been open at this function before. -/
theorem suffix_of_at? (hrecalls : Recalls p past current s) (hflow : Follows current [m] final)
    {around : List ExprId} {scope : FunctionScope} (haround : around <:+ final)
    (hscope : s.scopes.at? (around.length + 1) = some scope) : around <:+ current := by
  cases hflow with
  | enter hnil =>
    cases hnil
    rw [List.suffix_cons_iff] at haround
    cases haround with
    | inl heq =>
      -- The scope of the function that begins has not been there.
      have hopen := ScopeStack.isSome_at?_iff.mp (Option.isSome_of_eq_some hscope)
      rw [hrecalls.depth, heq, List.length_cons] at hopen
      omega
    | inr haround => exact haround
  | leave hnil =>
    cases hnil
    apply haround.trans (List.suffix_cons _ _)
  | step _ _ hnil =>
    cases hnil
    exact haround

theorem marked_tick (h : Housed p past current s) (hall : Schedule order p all)
    (hstay : ∀ decl, ¬ Strays p past m decl) (ht : Tracks field p past s)
    (hrecalls : Recalls p past current s) (hsplit : all = past ++ m :: rest)
    (hflow : Follows current [m] final) (hs : Tick field m.action s s') (around : List ExprId)
    (scope : FunctionScope) (decl : DeclId) (haround : around <:+ final)
    (hscope : s'.scopes.at? (around.length + 1) = some scope) (hmem : decl ∈ scope.mutated) :
    home? (past ++ [m]) decl = some around := by
  rcases hs.mutated hscope with
    hnil | ⟨old, hold, heq | ⟨target, decl', info, hm, hid, hinfo, hdepth, heq⟩⟩
  . rw [hnil] at hmem
    cases hmem
  . rw [heq] at hmem
    have hsuffix := suffix_of_at? hrecalls hflow haround hold
    apply home?_append_of_some
    apply h.marked around old decl hsuffix hold hmem
  . have hsuffix := suffix_of_at? hrecalls hflow haround hold
    apply home?_append_of_some
    rw [heq, FunctionScope.mem_markMutated] at hmem
    cases hmem with
    | inl hmem =>
      subst hmem
      rcases hrecalls.exists_home hinfo with ⟨home, hhome, hlength⟩
      cases hflow with
      | enter => cases hm
      | leave => cases hm
      | step _ _ hnil =>
        cases hnil
        dsimp only at hm
        subst hm
        rw [ht.candidate?_of_assign hall hsplit] at hid
        -- The name does not stray, so that the depth tells the function.
        have hopen : home <:+ current := by
          by_contra hclosed
          exact hstay decl ⟨target, home, .inl rfl, hid, hhome, hclosed⟩
        rw [hhome, (List.suffix_of_suffix_length_le haround hopen _).eq_of_length]
        . omega
        . omega
    | inr hmem => apply h.marked around old decl hsuffix hold hmem

theorem unmarked_tick (h : Housed p past current s) (hs : Tick field m.action s s') (depth : Nat)
    (scope : FunctionScope) (hscope : s'.scopes.at? depth = some scope) : scope.mutated.Nodup := by
  rcases hs.mutated hscope with hnil | ⟨old, hold, heq | ⟨_, _, _, -, -, -, -, heq⟩⟩
  . rw [hnil]
    exact List.nodup_nil
  . rw [heq]
    apply h.unmarked depth old hold
  . rw [heq]
    apply FunctionScope.nodup_markMutated
    apply h.unmarked depth old hold

/-- The function of a boxed variable stays closed, because no function literal is entered twice. -/
theorem closed_tick (hall : Schedule order p all) (hsplit : all = past ++ m :: rest)
    (hflow : Follows current [m] final) {home : List ExprId} (hhome : home? past decl = some home)
    (hclosed : ¬ home <:+ current) : ¬ home <:+ final := by
  cases hflow with
  | enter hnil =>
    cases hnil
    rw [List.suffix_cons_iff, not_or]
    refine ⟨?_, hclosed⟩
    rintro rfl
    exact hall.not_mem_around_of_enter hsplit _ (mem_of_home? hhome) List.mem_cons_self
  | leave hnil =>
    cases hnil
    intro hopen
    apply hclosed
    apply hopen.trans (List.suffix_cons _ _)
  | step _ _ hnil =>
    cases hnil
    exact hclosed

theorem leave {func : ExprId} (h : Housed p past (func :: current) s)
    (hrecalls : Recalls p past (func :: current) s) {s₁ : State} {scope : FunctionScope}
    (hexit : s.exit = .ok (scope, s₁))
    (hboxes : scope.boxable.forM (Pass.box field) s₁ = .ok () s') :
    (∀ b ∈ s'.boxes.toList, p.Unexported b.decl ∧
      ∃ home, home? past b.decl = some home ∧ ¬ home <:+ current) ∧
        (s'.boxes.toList.map Box.decl).Nodup := by
  rcases State.exit_ok hexit with ⟨stack, hstack, rfl⟩
  rcases Pass.forM_box_ok hboxes with ⟨boxes, hdecls, -, hlist, -⟩
  dsimp only at hlist
  have htop := ScopeStack.at?_of_exit? hstack
  rw [hrecalls.depth] at htop
  have hhome : ∀ decl ∈ scope.boxable, p.Unexported decl ∧
      home? past decl = some (func :: current) := by
    intro decl hdecl
    have hmem : decl ∈ scope.mutated := List.mem_of_mem_filter hdecl
    exact ⟨(hrecalls.marked _ scope decl htop hmem).1,
      h.marked _ scope decl (List.suffix_refl _) htop hmem⟩
  rw [hlist]
  constructor
  . intro b hb
    rw [List.mem_append] at hb
    cases hb with
    | inl hb =>
      rcases h.boxed b hb with ⟨hdecl, home, hb, hclosed⟩
      refine ⟨hdecl, home, hb, ?_⟩
      intro hopen
      apply hclosed
      apply hopen.trans (List.suffix_cons _ _)
    | inr hb =>
      have hdecl : b.decl ∈ scope.boxable := by
        rw [← hdecls]
        apply List.mem_map_of_mem hb
      refine ⟨(hhome b.decl hdecl).1, _, (hhome b.decl hdecl).2, ?_⟩
      intro hopen
      have := hopen.length_le
      rw [List.length_cons] at this
      omega
  . rw [List.map_append, hdecls, List.nodup_append]
    refine ⟨h.once, FunctionScope.nodup_boxable (h.unmarked _ scope htop), ?_⟩
    -- A variable that was boxed before belongs to a function that was left before.
    rintro decl hold decl' hnew rfl
    rw [List.mem_map] at hold
    rcases hold with ⟨b, hb, rfl⟩
    rcases h.boxed b hb with ⟨-, home, hb, hclosed⟩
    rw [(hhome _ hnew).2] at hb
    injection hb with hb
    subst hb
    exact hclosed (List.suffix_refl _)

theorem tick (h : Housed p past current s) (hall : Schedule order p all)
    (hstay : ∀ decl, ¬ Strays p past m decl) (ht : Tracks field p past s)
    (hrecalls : Recalls p past current s) (hsplit : all = past ++ m :: rest)
    (hflow : Follows current [m] final) (hs : Tick field m.action s s') :
    Housed p (past ++ [m]) final s' := by
  have hboxed : (∀ b ∈ s'.boxes.toList, p.Unexported b.decl ∧
      ∃ home, home? past b.decl = some home ∧ ¬ home <:+ final) ∧
        (s'.boxes.toList.map Box.decl).Nodup := by
    by_cases hleave : m.action = .leave
    . cases hflow with
      | enter => cases hleave
      | leave hnil =>
        cases hnil
        cases hs with
        | leave hexit hboxes => apply h.leave hrecalls hexit hboxes
      | step _ hne => exact absurd hleave hne
    . rw [hs.boxes_eq hleave]
      refine ⟨?_, h.once⟩
      intro b hb
      rcases h.boxed b hb with ⟨hdecl, home, hhome, hclosed⟩
      exact ⟨hdecl, home, hhome, closed_tick hall hsplit hflow hhome hclosed⟩
  constructor
  . apply h.marked_tick hall hstay ht hrecalls hsplit hflow hs
  . apply h.unmarked_tick hs
  . intro b hb
    rcases hboxed.1 b hb with ⟨hdecl, home, hhome, hclosed⟩
    exact ⟨hdecl, home, home?_append_of_some hhome, hclosed⟩
  . exact hboxed.2
  . apply h.complete.tick ht hs
    intro b hb id hm hid
    rcases h.boxed b hb with ⟨-, home, hhome, hclosed⟩
    apply hstay b.decl
    refine ⟨id, home, .inr hm, hid, hhome, ?_⟩
    cases hflow with
    | enter => cases hm
    | leave => cases hm
    | step => exact hclosed

end Housed

section Detection

variable {options : Options}

theorem above_of_closedScope (hall : Schedule options.order p all) (hvalid : p.Valid)
    {name : String} {loc : Span}
    (h : (run options p).verdict = .error (.fault (.closedScope decl name loc))) :
    ∃ past m rest s d, all = past ++ m :: rest ∧
      Pass.play options.field past (.start p) = .ok () s ∧ Above p past m decl ∧
        p.decl? decl = some d ∧ d.name = name ∧ d.loc = loc := by
  rcases exists_fails hall hvalid h with ⟨past, m, rest, s, error, hsplit, hplay, hstop, hfails⟩
  cases hstop
  cases hfails with
  | @closed around home target _ d hid hd hhome hlt =>
    exact ⟨past, _, rest, s, d, hsplit, hplay, ⟨target, home, rfl, hid, hhome, hlt⟩, hd, rfl, rfl⟩

theorem closedScope_of_above (hall : Schedule options.order p all) (hvalid : p.Valid)
    (hsplit : all = past ++ m :: rest) (hplay : Pass.play options.field past (.start p) = .ok () s)
    (h : Above p past m decl) (hd : p.decl? decl = some d) :
    (run options p).verdict = .error (.fault (.closedScope decl d.name d.loc)) := by
  rcases h with ⟨target, home, hm, hid, hhome, hlt⟩
  rcases hall.exists_current hsplit with ⟨current, final, hcurrent, hflow⟩
  rcases recalls_of_play hall hsplit hcurrent hplay with ⟨htracks, hrecalls⟩
  rw [verdict_eq_error_iff hall hvalid, hsplit]
  cases hflow with
  | enter => cases hm
  | leave => cases hm
  | step =>
    dsimp only at hm hlt
    subst hm
    refine ⟨s, Pass.play_of_split hplay ?_⟩
    change Pass.step (·.assign target) s = _
    apply Pass.step_of_error
    apply hrecalls.stop_of_closed hall hvalid htracks hsplit hid hd hhome hlt

/-- A run that comes to such an assignment stops there, unless it has stopped before. -/
theorem stop_of_above (hall : Schedule options.order p all) (hvalid : p.Valid)
    (hsplit : all = past ++ m :: rest) (h : Above p past m decl) :
    (∃ d, p.decl? decl = some d ∧
      (run options p).verdict = .error (.fault (.closedScope decl d.name d.loc))) ∨
      ∃ error s, Pass.play options.field past (.start p) = .error (.fault error) s ∧
        (run options p).verdict = .error (.fault error) := by
  cases hplay : Pass.play options.field past (.start p) with
  | ok _ s =>
    left
    rcases h with ⟨target, home, hm, hid, hhome, hlt⟩
    rcases (candidate?_eq_some_iff.mp hid).2 with ⟨d, hd, -⟩
    refine ⟨d, hd, ?_⟩
    apply closedScope_of_above hall hvalid hsplit hplay ⟨target, home, hm, hid, hhome, hlt⟩ hd
  | error stop s =>
    right
    have hverdict : (run options p).verdict = .error stop := by
      rw [verdict_eq_error_iff hall hvalid, hsplit, Pass.play_append, hplay]
      exact ⟨s, rfl⟩
    rcases exists_fails hall hvalid hverdict with ⟨_, _, _, _, error, -, -, rfl, -⟩
    exact ⟨error, s, rfl, hverdict⟩

/-- If no name strays, a run that succeeds boxes no variable twice and leaves no name of one. -/
theorem boxes_of_stay (hall : Schedule options.order p all) (hvalid : p.Valid)
    (hstay : ∀ past m rest decl, all = past ++ m :: rest → ¬ Strays p past m decl)
    {boxes : Array Box} (hok : (run options p).verdict = .ok boxes) :
    (boxes.toList.map Box.decl).Nodup ∧ ∀ b ∈ boxes, ∀ id, p.Reachable (.var id) →
      p.named? id = some b.decl → (run options p).program.named? id = none := by
  rcases play_of_run_ok hall hvalid hok with ⟨s, hplay, rfl, hprogram⟩
  have hsplit : all = all ++ [] := (List.append_nil all).symm
  rcases invariant_of_play (P := Housed p) hall (.start p)
    (fun hsplit hflow htracks hrecalls hhoused hs =>
      hhoused.tick hall (hstay _ _ _ · hsplit) htracks hrecalls hsplit hflow hs)
    hsplit hall.follows hplay with ⟨htracks, hrecalls, hhoused⟩
  refine ⟨hhoused.once, ?_⟩
  rintro b hb id ⟨around, hwithin⟩ hnamed
  rw [← Array.mem_toList_iff] at hb
  have hdecl := (hhoused.boxed b hb).1
  have hid : id ∈ b.references := by
    rw [← Array.mem_toList_iff, hhoused.complete b hb, mem_referencesIn, candidate?_eq_some_iff]
    exact ⟨⟨around, (hall.reference_mem_iff hnamed).mpr hwithin⟩, hnamed, hdecl⟩
  rcases exists_var?_of_named? hnamed with ⟨loc, ty, text, hvar⟩
  have hrewritten := Box.rewritten_foldl_apply hb hid hvar
  rw [hprogram]
  change s.program.named? id = none
  rw [htracks.program]
  apply hrewritten.named?

end Detection

/--
The pass reports a variable of a function that has been left if and only if it comes to an
assignment that is less deep than the variable. If all names that stray are such assignments, a run
that comes to one of them stops there or has stopped before, and a run that succeeds boxes no
variable twice and leaves no simple name of a boxed variable.
-/
theorem closed_run (options : Options) (p : Program) (hvalid : p.Valid) :
    ∃ all, Unfolds options.order p [] (planProgram p) all ∧
      Pass.visitProgram options (depthLimit p) (.start p) = Pass.play options.field all (.start p) ∧
      (∀ decl name loc,
        (run options p).verdict = .error (.fault (.closedScope decl name loc)) ↔
          ∃ past m rest s d, all = past ++ m :: rest ∧
            Pass.play options.field past (.start p) = .ok () s ∧ Strays p past m decl ∧
              Above p past m decl ∧ p.decl? decl = some d ∧ d.name = name ∧ d.loc = loc) ∧
      ((∀ past m rest decl, all = past ++ m :: rest → Strays p past m decl → Above p past m decl) →
        (∀ past m rest decl, all = past ++ m :: rest → Strays p past m decl →
          (∃ d, p.decl? decl = some d ∧
            (run options p).verdict = .error (.fault (.closedScope decl d.name d.loc))) ∨
          ∃ error s, Pass.play options.field past (.start p) = .error (.fault error) s ∧
            (run options p).verdict = .error (.fault error)) ∧
        ∀ boxes, (run options p).verdict = .ok boxes →
          (boxes.toList.map Box.decl).Nodup ∧ ∀ b ∈ boxes, ∀ id, p.Reachable (.var id) →
            p.named? id = some b.decl → (run options p).program.named? id = none) := by
  rcases exists_schedule options.order hvalid with ⟨all, hall⟩
  refine ⟨all, hall.unfolds, Pass.visitProgram_eq_play hall hvalid, ?_, ?_⟩
  . intro decl name loc
    constructor
    . intro h
      rcases above_of_closedScope hall hvalid h with
        ⟨past, m, rest, s, d, hsplit, hplay, habove, hd⟩
      exact ⟨past, m, rest, s, d, hsplit, hplay, habove.strays, habove, hd⟩
    . rintro ⟨past, m, rest, s, d, hsplit, hplay, -, habove, hd, rfl, rfl⟩
      apply closedScope_of_above hall hvalid hsplit hplay habove hd
  . intro habove
    have hstop {past m rest decl} (hsplit : all = past ++ m :: rest)
        (hstrays : Strays p past m decl) :=
      stop_of_above hall hvalid hsplit (habove past m rest decl hsplit hstrays)
    refine ⟨fun _ _ _ _ => hstop, ?_⟩
    intro boxes hok
    apply boxes_of_stay hall hvalid _ hok
    intro past m rest decl hsplit hstrays
    rcases hstop hsplit hstrays with ⟨d, -, hverdict⟩ | ⟨error, s, -, hverdict⟩ <;>
      simp [hok] at hverdict

/-- A function with a variable `x` that is assigned on the module level. -/
def escaped : Program :=
  { files := #[]
    items := #[.stats .dummy [⟨0⟩, ⟨1⟩]]
    decls := #[⟨"f", none, .dummy, .any, false⟩, ⟨"x", none, .dummy, .integer, false⟩]
    stats := #[.decl .dummy [⟨0⟩] [⟨0⟩], .assign .dummy [⟨0⟩] [⟨2⟩], .decl .dummy [⟨1⟩] [⟨1⟩]]
    exprs := #[⟨.dummy, .any, .lambda [] ⟨[⟨2⟩]⟩⟩, ⟨.dummy, .integer, .integer 10⟩,
      ⟨.dummy, .integer, .integer 1⟩]
    vars := #[⟨.dummy, .integer, .name "x" (.variable ⟨1⟩)⟩] }

/-- The pass reports the assignment. -/
theorem closed_run_escaped :
    escaped.Valid ∧
      (run default escaped).verdict = .error (.fault (.closedScope ⟨1⟩ "x" .dummy)) ∧
      ∃ past m, Strays escaped past m ⟨1⟩ ∧ Above escaped past m ⟨1⟩ := by
  have hvalid : escaped.Valid := by decide +kernel
  have hverdict : (run default escaped).verdict =
      .error (.fault (.closedScope ⟨1⟩ "x" .dummy)) := by rfl
  rcases closed_run default escaped hvalid with ⟨all, -, -, hiff, -⟩
  rcases (hiff _ _ _).mp hverdict with ⟨past, m, -, -, -, -, -, hstrays, habove, -⟩
  exact ⟨hvalid, hverdict, past, m, hstrays, habove⟩

/--
A function with a variable `x`, and a function inside that assigns it. It is read on the module
level.
-/
def stray : Program :=
  { files := #[]
    items := #[.stats .dummy [⟨0⟩, ⟨1⟩]]
    decls := #[⟨"f", none, .dummy, .any, false⟩, ⟨"x", none, .dummy, .integer, false⟩]
    stats := #[.decl .dummy [⟨0⟩] [⟨0⟩], .ret .dummy [⟨4⟩], .decl .dummy [⟨1⟩] [⟨1⟩],
      .ret .dummy [⟨2⟩], .assign .dummy [⟨0⟩] [⟨3⟩]]
    exprs := #[⟨.dummy, .any, .lambda [] ⟨[⟨2⟩, ⟨3⟩]⟩⟩, ⟨.dummy, .integer, .integer 10⟩,
      ⟨.dummy, .any, .lambda [] ⟨[⟨4⟩]⟩⟩, ⟨.dummy, .integer, .integer 1⟩,
      ⟨.dummy, .integer, .var ⟨1⟩⟩]
    vars := #[⟨.dummy, .integer, .name "x" (.variable ⟨1⟩)⟩,
      ⟨.dummy, .integer, .name "x" (.variable ⟨1⟩)⟩] }

/-- The moments of the program before `x` is read. -/
def strayPast : List Moment :=
  [⟨[], .visit (.stat ⟨0⟩)⟩, ⟨[], .visit (.expr ⟨0⟩)⟩, ⟨[⟨0⟩], .enter⟩,
    ⟨[⟨0⟩], .visit (.stat ⟨2⟩)⟩, ⟨[⟨0⟩], .visit (.expr ⟨1⟩)⟩, ⟨[⟨0⟩], .register ⟨1⟩⟩,
    ⟨[⟨0⟩], .initializer ⟨1⟩ ⟨1⟩⟩, ⟨[⟨0⟩], .visit (.stat ⟨3⟩)⟩, ⟨[⟨0⟩], .visit (.expr ⟨2⟩)⟩,
    ⟨[⟨2⟩, ⟨0⟩], .enter⟩, ⟨[⟨2⟩, ⟨0⟩], .visit (.stat ⟨4⟩)⟩, ⟨[⟨2⟩, ⟨0⟩], .assign ⟨0⟩⟩,
    ⟨[⟨2⟩, ⟨0⟩], .visit (.var ⟨0⟩)⟩, ⟨[⟨2⟩, ⟨0⟩], .reference ⟨0⟩⟩,
    ⟨[⟨2⟩, ⟨0⟩], .visit (.expr ⟨3⟩)⟩, ⟨[⟨2⟩, ⟨0⟩], .leave⟩, ⟨[⟨0⟩], .leave⟩,
    ⟨[], .register ⟨0⟩⟩, ⟨[], .initializer ⟨0⟩ ⟨0⟩⟩, ⟨[], .visit (.stat ⟨1⟩)⟩,
    ⟨[], .visit (.expr ⟨4⟩)⟩, ⟨[], .visit (.var ⟨1⟩)⟩]

theorem unfolds_stray : Unfolds .bodyFirst stray [] (planProgram stray)
    (strayPast ++ [⟨[], .reference ⟨1⟩⟩]) := by
  have hassign : Unfolds .bodyFirst stray [⟨2⟩, ⟨0⟩] [.visit (.stat ⟨4⟩)] _ :=
    .visit rfl (.step rfl (.visit rfl (.step rfl .nil) (.visit rfl .nil .nil))) .nil
  have hinner : Unfolds .bodyFirst stray [⟨0⟩] [.visit (.stat ⟨3⟩)] _ :=
    .visit rfl (.visit rfl (.step rfl (hassign.append (.step rfl .nil))) .nil) .nil
  have hx : Unfolds .bodyFirst stray [⟨0⟩] [.visit (.stat ⟨2⟩)] _ :=
    .visit rfl (.visit rfl .nil (.step rfl (.step rfl .nil))) .nil
  have houter : Unfolds .bodyFirst stray [] [.visit (.expr ⟨0⟩)] _ :=
    .visit rfl (.step rfl (hx.append (hinner.append (.step rfl .nil)))) .nil
  have hf : Unfolds .bodyFirst stray [] [.visit (.stat ⟨0⟩)] _ :=
    .visit rfl (houter.append (.step rfl (.step rfl .nil))) .nil
  have hread : Unfolds .bodyFirst stray [] [.visit (.stat ⟨1⟩)] _ :=
    .visit rfl (.visit rfl (.visit rfl (.step rfl .nil) .nil) .nil) .nil
  exact hf.append hread

/-- The function of `x` has been left when `x` is read. The name stays although `x` is boxed. -/
theorem closed_run_stray :
    stray.Valid ∧ Unfolds (default : Options).order stray [] (planProgram stray)
        (strayPast ++ [⟨[], .reference ⟨1⟩⟩]) ∧
      Strays stray strayPast ⟨[], .reference ⟨1⟩⟩ ⟨1⟩ ∧ stray.Reachable (.var ⟨1⟩) ∧
      ∃ boxes, (run default stray).verdict = .ok boxes ∧ boxes.toList.map Box.decl = [⟨1⟩] ∧
        (run default stray).program.named? ⟨1⟩ = some ⟨1⟩ := by
  have hboxes : (run default stray).verdict.toOption.map (·.toList.map Box.decl) =
      some [⟨1⟩] := by decide +kernel
  have hnamed : (run default stray).program.named? ⟨1⟩ = some ⟨1⟩ := by decide +kernel
  have hstat : stray.Within [] (.stat ⟨1⟩) := .root (by decide)
  have hexpr : stray.Within [] (.expr ⟨4⟩) := .child hstat (by decide)
  refine ⟨by decide +kernel, unfolds_stray, ⟨⟨1⟩, [⟨0⟩], .inr rfl, rfl, rfl, by decide⟩,
    ⟨[], .child hexpr (by decide)⟩, ?_⟩
  cases hok : (run default stray).verdict with
  | error stop =>
    rw [hok] at hboxes
    cases hboxes
  | ok boxes =>
    rw [hok] at hboxes
    injection hboxes with hdecls
    exact ⟨boxes, rfl, hdecls, hnamed⟩

end Upvalue.Boxing

import Upvalue.Proofs.Boxing.Unfold

/-!
This module contains where a moment can stand among the moments of a program: which function
literals are open at it, and what comes right before it and right after it.
-/

namespace Upvalue.Boxing

open Program

/-- The moments of a whole program, in which no node is visited twice. -/
structure Schedule (order : LoopOrder) (p : Program) (moments : List Moment) : Prop where
  unfolds : Unfolds order p [] (planProgram p) moments
  nodup : (visits moments).Nodup

/-- A moment stands at its action in a list of actions, between the other moments of the list. -/
def Placed (order : LoopOrder) (p : Program) (around : List ExprId) (actions : List Action)
    (past : List Moment) (m : Moment) (rest : List Moment) : Prop :=
  ∃ before after, actions = before ++ m.action :: after ∧ m.around = around ∧
    Unfolds order p around before past ∧ Unfolds order p around (m.action :: after) (m :: rest)

/-- A moment stands in the plan of a node, and the visit of the node is in the past. -/
def PlacedBelow (order : LoopOrder) (p : Program) (past : List Moment) (m : Moment)
    (rest : List Moment) : Prop :=
  ∃ around node plan earlier below below' later, plan? order p node = some plan ∧
    past = earlier ++ ⟨around, .visit node⟩ :: below ∧ rest = below' ++ later ∧
    Placed order p (p.inside node around) plan below m below'

variable {order : LoopOrder} {p : Program}

section Place

variable {around : List ExprId} {actions : List Action} {past rest : List Moment} {m : Moment}

theorem Placed.cons_visit {node : Node} {plan : List Action} {below : List Moment}
    (hplan : plan? order p node = some plan)
    (hbelow : Unfolds order p (p.inside node around) plan below)
    (h : Placed order p around actions past m rest) :
    Placed order p around (.visit node :: actions) (⟨around, .visit node⟩ :: (below ++ past))
      m rest := by
  rcases h with ⟨before, after, rfl, hm, hbefore, hafter⟩
  exact ⟨.visit node :: before, after, rfl, hm, .visit hplan hbelow hbefore, hafter⟩

theorem Placed.cons_step {action : Action} (hstep : action.node? = none)
    (h : Placed order p around actions past m rest) :
    Placed order p around (action :: actions) (⟨around, action⟩ :: past) m rest := by
  rcases h with ⟨before, after, rfl, hm, hbefore, hafter⟩
  exact ⟨action :: before, after, rfl, hm, .step hstep hbefore, hafter⟩

theorem PlacedBelow.extend (h : PlacedBelow order p past m rest) (earlier later : List Moment) :
    PlacedBelow order p (earlier ++ past) m (rest ++ later) := by
  rcases h with ⟨gs, node, plan, before, below, below', after, hplan, rfl, rfl, hplaced⟩
  refine ⟨gs, node, plan, earlier ++ before, below, below', after ++ later, hplan, ?_, ?_, hplaced⟩
  . rw [List.append_assoc]
  . rw [List.append_assoc]

/-- A moment stands in the list of actions itself, or in the plan of a node that it visits. -/
theorem Unfolds.placed {moments : List Moment} (h : Unfolds order p around actions moments)
    (hsplit : moments = past ++ m :: rest) :
    Placed order p around actions past m rest ∨ PlacedBelow order p past m rest := by
  induction h generalizing past rest with
  | nil =>
    have := congrArg List.length hsplit
    simp at this
  | @visit around node plan actions below moments hplan hbelow hrest ihbelow ihrest =>
    cases past with
    | nil =>
      rw [List.nil_append, List.cons.injEq] at hsplit
      rcases hsplit with ⟨rfl, rfl⟩
      exact .inl ⟨[], actions, rfl, rfl, .nil, .visit hplan hbelow hrest⟩
    | cons head past =>
      rw [List.cons_append, List.cons.injEq] at hsplit
      rcases hsplit with ⟨rfl, hsplit⟩
      -- The moment stands after the ones below the node, or among them.
      rcases List.append_eq_append_iff.mp hsplit with ⟨past', rfl, hrest'⟩ | ⟨w, hbelow', hw⟩
      . cases ihrest hrest' with
        | inl hplaced => exact .inl (hplaced.cons_visit hplan hbelow)
        | inr hplaced =>
          right
          have := hplaced.extend (⟨around, .visit node⟩ :: below) []
          rwa [List.append_nil] at this
      . cases w with
        | nil =>
          -- It is the first moment after the ones below the node.
          rw [List.append_nil] at hbelow'
          subst hbelow'
          have hrest' : moments = [] ++ m :: rest := hw.symm
          cases ihrest hrest' with
          | inl hplaced =>
            left
            have := hplaced.cons_visit hplan hbelow
            rwa [List.append_nil] at this
          | inr hplaced =>
            right
            have := hplaced.extend (⟨around, .visit node⟩ :: below) []
            rwa [List.append_nil, List.append_nil] at this
        | cons head w =>
          rw [List.cons_append, List.cons.injEq] at hw
          rcases hw with ⟨rfl, rfl⟩
          right
          cases ihbelow hbelow' with
          | inl hplaced =>
            exact ⟨around, node, plan, [], past, w, moments, hplan, rfl, rfl, hplaced⟩
          | inr hplaced => exact hplaced.extend [⟨around, .visit node⟩] moments
  | @step around action actions moments hstep hrest ih =>
    cases past with
    | nil =>
      rw [List.nil_append, List.cons.injEq] at hsplit
      rcases hsplit with ⟨rfl, rfl⟩
      exact .inl ⟨[], actions, rfl, rfl, .nil, .step hstep hrest⟩
    | cons head past =>
      rw [List.cons_append, List.cons.injEq] at hsplit
      rcases hsplit with ⟨rfl, hsplit⟩
      cases ih hsplit with
      | inl hplaced => exact .inl (hplaced.cons_step hstep)
      | inr hplaced =>
        right
        have := hplaced.extend [⟨around, action⟩] []
        rwa [List.append_nil] at this

theorem Unfolds.mem_of_mem {moments : List Moment} (h : Unfolds order p around actions moments)
    {action : Action} (haction : action ∈ actions) : ⟨around, action⟩ ∈ moments := by
  induction h with
  | nil => cases haction
  | visit _ _ _ _ ih =>
    rw [List.mem_cons] at haction
    rw [List.mem_cons, List.mem_append]
    rcases haction with rfl | haction
    . exact .inl rfl
    . exact .inr (.inr (ih haction))
  | step _ _ ih =>
    rw [List.mem_cons] at haction ⊢
    rcases haction with rfl | haction
    . exact .inl rfl
    . exact .inr (ih haction)

theorem Unfolds.mem_of_visit {moments : List Moment}
    (h : Unfolds order p around actions moments) {gs : List ExprId} {node : Node}
    (hvisit : ⟨gs, .visit node⟩ ∈ moments) :
    ∃ plan, plan? order p node = some plan ∧
      ∀ action ∈ plan, ⟨p.inside node gs, action⟩ ∈ moments := by
  induction h with
  | nil => cases hvisit
  | visit hplan hbelow _ ihbelow ihrest =>
    rw [List.mem_cons, List.mem_append] at hvisit
    rcases hvisit with heq | hvisit | hvisit
    . cases heq
      refine ⟨_, hplan, ?_⟩
      intro action haction
      rw [List.mem_cons, List.mem_append]
      exact .inr (.inl (hbelow.mem_of_mem haction))
    . rcases ihbelow hvisit with ⟨plan, hplan', hmem⟩
      refine ⟨plan, hplan', ?_⟩
      intro action haction
      rw [List.mem_cons, List.mem_append]
      exact .inr (.inl (hmem action haction))
    . rcases ihrest hvisit with ⟨plan, hplan', hmem⟩
      refine ⟨plan, hplan', ?_⟩
      intro action haction
      rw [List.mem_cons, List.mem_append]
      exact .inr (.inr (hmem action haction))
  | step hstep _ ih =>
    rw [List.mem_cons] at hvisit
    rcases hvisit with heq | hvisit
    . cases heq
      cases hstep
    . rcases ih hvisit with ⟨plan, hplan, hmem⟩
      refine ⟨plan, hplan, ?_⟩
      intro action haction
      exact List.mem_cons_of_mem _ (hmem action haction)

end Place

section Open

/--
The function literals that are open at the beginning become the ones that are open at the end. Every
moment has the function literals around it that are open.
-/
inductive Follows : List ExprId → List Moment → List ExprId → Prop where
  | nil {current : List ExprId} : Follows current [] current
  | enter {func : ExprId} {current final : List ExprId} {moments : List Moment}
      (h : Follows (func :: current) moments final) :
      Follows current (⟨func :: current, .enter⟩ :: moments) final
  | leave {func : ExprId} {current final : List ExprId} {moments : List Moment}
      (h : Follows current moments final) :
      Follows (func :: current) (⟨func :: current, .leave⟩ :: moments) final
  | step {action : Action} {current final : List ExprId} {moments : List Moment}
      (henter : action ≠ .enter) (hleave : action ≠ .leave) (h : Follows current moments final) :
      Follows current (⟨current, action⟩ :: moments) final

variable {current middle final around : List ExprId} {moments moments' : List Moment}

theorem Follows.append (h : Follows current moments middle) (h' : Follows middle moments' final) :
    Follows current (moments ++ moments') final := by
  induction h with
  | nil => exact h'
  | enter _ ih => exact .enter (ih h')
  | leave _ ih => exact .leave (ih h')
  | step henter hleave _ ih => exact .step henter hleave (ih h')

theorem Follows.of_append (h : Follows current (moments ++ moments') final) :
    ∃ middle, Follows current moments middle ∧ Follows middle moments' final := by
  induction moments generalizing current with
  | nil => exact ⟨current, .nil, h⟩
  | cons m moments ih =>
    cases h with
    | enter h =>
      rcases ih h with ⟨middle, hmiddle, hfinal⟩
      exact ⟨middle, .enter hmiddle, hfinal⟩
    | leave h =>
      rcases ih h with ⟨middle, hmiddle, hfinal⟩
      exact ⟨middle, .leave hmiddle, hfinal⟩
    | step henter hleave h =>
      rcases ih h with ⟨middle, hmiddle, hfinal⟩
      exact ⟨middle, .step henter hleave hmiddle, hfinal⟩

/-- A function literal that is open at the beginning only is left. -/
theorem Follows.mem_leave {func : ExprId} {outer : List ExprId} (h : Follows current moments final)
    (hopen : func :: outer <:+ current) (hclosed : ¬ func :: outer <:+ final) :
    ⟨func :: outer, .leave⟩ ∈ moments := by
  induction h with
  | nil => exact absurd hopen hclosed
  | enter _ ih =>
    apply List.mem_cons_of_mem
    apply ih (hopen.trans (List.suffix_cons _ _)) hclosed
  | leave _ ih =>
    rw [List.suffix_cons_iff] at hopen
    cases hopen with
    | inl heq =>
      rw [heq]
      exact List.mem_cons_self
    | inr hopen =>
      apply List.mem_cons_of_mem
      apply ih hopen hclosed
  | step _ _ _ ih =>
    apply List.mem_cons_of_mem
    apply ih hopen hclosed

/-- A function literal that is not open at the beginning is around nothing before it is entered. -/
theorem Follows.not_mem_around {func : ExprId} (h : Follows current moments final)
    (hcurrent : func ∉ current) (henter : ∀ outer, ⟨func :: outer, .enter⟩ ∉ moments) :
    ∀ m ∈ moments, func ∉ m.around := by
  induction h with
  | nil =>
    intro m hm
    cases hm
  | @enter func' current _ _ _ ih =>
    have hinside : func ∉ func' :: current := by
      rw [List.mem_cons, not_or]
      refine ⟨?_, hcurrent⟩
      rintro rfl
      exact henter current List.mem_cons_self
    rw [List.forall_mem_cons]
    refine ⟨hinside, ih hinside ?_⟩
    intro outer hmem
    exact henter outer (List.mem_cons_of_mem _ hmem)
  | leave _ ih =>
    rw [List.forall_mem_cons]
    refine ⟨hcurrent, ih ?_ ?_⟩
    . intro hmem
      exact hcurrent (List.mem_cons_of_mem _ hmem)
    . intro outer hmem
      exact henter outer (List.mem_cons_of_mem _ hmem)
  | step _ _ _ ih =>
    rw [List.forall_mem_cons]
    refine ⟨hcurrent, ih hcurrent ?_⟩
    intro outer hmem
    exact henter outer (List.mem_cons_of_mem _ hmem)

theorem follows_level {actions : List Action} (henter : .enter ∉ actions)
    (hleave : .leave ∉ actions) : Follows around (actions.map (Moment.mk around)) around := by
  induction actions with
  | nil => exact .nil
  | cons action actions ih =>
    rw [List.mem_cons, not_or] at henter hleave
    exact .step (Ne.symm henter.1) (Ne.symm hleave.1) (ih henter.2 hleave.2)

theorem follows_plan {node : Node} {plan : List Action} (h : plan? order p node = some plan)
    (around : List ExprId) :
    Follows around (plan.map (Moment.mk (p.inside node around))) around := by
  rcases plan_cases h with ⟨id, params, body, rfl, hcontent, rfl⟩ | ⟨hinside, henter, hleave⟩
  . rw [inside_lambda hcontent, List.map_cons, List.map_append]
    apply Follows.enter
    have hbody : Follows (id :: around)
        ((params.map Action.register ++ planBlock body).map (Moment.mk (id :: around)))
        (id :: around) := by
      apply follows_level
      . simp [planBlock, Action.stat]
      . simp [planBlock, Action.stat]
    exact hbody.append (.leave .nil)
  . rw [hinside]
    exact follows_level henter hleave

theorem Unfolds.follows {actions : List Action} (h : Unfolds order p around actions moments)
    (hactions : Follows current (actions.map (Moment.mk around)) final) :
    Follows current moments final := by
  induction h generalizing current final with
  | nil => exact hactions
  | @visit around node plan actions below moments hplan _ _ ihbelow ihrest =>
    cases hactions with
    | step henter hleave hactions =>
      apply Follows.step henter hleave
      exact (ihbelow (follows_plan hplan around)).append (ihrest hactions)
  | step _ _ ih =>
    cases hactions with
    | enter hactions => exact .enter (ih hactions)
    | leave hactions => exact .leave (ih hactions)
    | step henter hleave hactions => exact .step henter hleave (ih hactions)

end Open

namespace Schedule

variable {all past rest : List Moment} {around : List ExprId} {m : Moment}

theorem follows (h : Schedule order p all) : Follows [] all [] := by
  apply h.unfolds.follows
  apply follows_level
  . apply not_mem_planProgram <;> simp
  . apply not_mem_planProgram <;> simp

section Reach

/-- A moment belongs to an item, or to the plan of a node that has been visited before. -/
theorem parent (h : Schedule order p all) (hsplit : all = past ++ m :: rest) :
    (m.around = [] ∧ m.action ∈ planProgram p) ∨
      ∃ outer node plan earlier below, plan? order p node = some plan ∧ m.action ∈ plan ∧
        m.around = p.inside node outer ∧ past = earlier ++ ⟨outer, .visit node⟩ :: below := by
  cases h.unfolds.placed hsplit with
  | inl hplaced =>
    rcases hplaced with ⟨before, after, hactions, haround, -, -⟩
    left
    rw [hactions]
    exact ⟨haround, by simp⟩
  | inr hplaced =>
    rcases hplaced with ⟨outer, node, plan, earlier, below, below', later, hplan, hpast, -,
      before, after, hactions, haround, -, -⟩
    right
    refine ⟨outer, node, plan, earlier, below, hplan, ?_, haround, hpast⟩
    rw [hactions]
    simp

theorem placedBelow (h : Schedule order p all) (hsplit : all = past ++ m :: rest)
    (hvisit : ∀ node, m.action ≠ .visit node) (hregister : ∀ decl, m.action ≠ .register decl) :
    PlacedBelow order p past m rest := by
  cases h.unfolds.placed hsplit with
  | inl hplaced =>
    rcases hplaced with ⟨before, after, hactions, -, -, -⟩
    exfalso
    apply not_mem_planProgram (p := p) hvisit hregister
    rw [hactions]
    simp
  | inr hplaced => exact hplaced

theorem induct (h : Schedule order p all) {P : List Moment → Moment → Prop}
    (hitem : ∀ past m, m.around = [] → m.action ∈ planProgram p → P past m)
    (hplan : ∀ earlier below m outer node plan, plan? order p node = some plan →
      m.action ∈ plan → m.around = p.inside node outer → P earlier ⟨outer, .visit node⟩ →
        P (earlier ++ ⟨outer, .visit node⟩ :: below) m)
    (hsplit : all = past ++ m :: rest) : P past m := by
  induction hsize : past.length using Nat.strongRecOn generalizing past m rest with
  | _ size ih =>
    rcases h.parent hsplit with
      ⟨haround, haction⟩ | ⟨outer, node, plan, earlier, below, hp, haction, haround, rfl⟩
    . exact hitem past m haround haction
    . apply hplan earlier below m outer node plan hp haction haround
      rw [List.append_assoc, List.cons_append] at hsplit
      apply ih earlier.length _ hsplit rfl
      rw [← hsize, List.length_append, List.length_cons]
      omega

theorem within_of_mem (h : Schedule order p all) {node : Node}
    (hmem : ⟨around, .visit node⟩ ∈ all) : p.Within around node := by
  rcases List.append_of_mem hmem with ⟨past, rest, hsplit⟩
  have hwithin : ∀ n, Action.visit node = .visit n → p.Within around n := by
    apply h.induct (P := fun _ m => ∀ n, m.action = .visit n → p.Within m.around n) _ _ hsplit
    . intro past m haround haction n hn
      rw [hn, ← mem_nodes, nodes_planProgram] at haction
      rw [haround]
      exact .root haction
    . intro earlier below m outer parent plan hplan haction haround ih n hn
      rw [hn, ← mem_nodes, (nodes_plan_perm hplan).mem_iff] at haction
      rw [haround]
      exact .child (ih parent rfl) haction
  exact hwithin node rfl

theorem mem_of_within (h : Schedule order p all) {node : Node} (hnode : p.Within around node) :
    ⟨around, .visit node⟩ ∈ all := by
  induction hnode with
  | root hroot =>
    apply h.unfolds.mem_of_mem
    rw [← mem_nodes, nodes_planProgram]
    exact hroot
  | child _ hchild ih =>
    rcases h.unfolds.mem_of_visit ih with ⟨plan, hplan, hmem⟩
    apply hmem
    rw [← mem_nodes, (nodes_plan_perm hplan).mem_iff]
    exact hchild

theorem mem_of_plan (h : Schedule order p all) {node : Node} (hnode : p.Within around node)
    {plan : List Action} (hplan : plan? order p node = some plan) {action : Action}
    (haction : action ∈ plan) : ⟨p.inside node around, action⟩ ∈ all := by
  rcases h.unfolds.mem_of_visit (h.mem_of_within hnode) with ⟨plan', hplan', hmem⟩
  rw [hplan] at hplan'
  cases hplan'
  exact hmem action haction

theorem exists_plan_of_mem (h : Schedule order p all) {action : Action}
    (hmem : ⟨around, action⟩ ∈ all) :
    (around = [] ∧ action ∈ planProgram p) ∨
      ∃ outer node plan, p.Within outer node ∧ plan? order p node = some plan ∧ action ∈ plan ∧
        around = p.inside node outer := by
  rcases List.append_of_mem hmem with ⟨past, rest, hsplit⟩
  rcases h.parent hsplit with
    hitem | ⟨outer, node, plan, earlier, below, hplan, haction, haround, rfl⟩
  . exact .inl hitem
  . right
    refine ⟨outer, node, plan, ?_, hplan, haction, haround⟩
    apply h.within_of_mem
    rw [hsplit]
    simp

theorem visited_of_suffix (h : Schedule order p all) (hsplit : all = past ++ m :: rest)
    {func : ExprId} {outer : List ExprId} (hsuffix : func :: outer <:+ m.around) :
    ⟨outer, .visit (.expr func)⟩ ∈ past := by
  -- The induction goes over the moments, so that the function literal has to vary with them.
  have hvisited : ∀ func outer, func :: outer <:+ m.around →
      ⟨outer, .visit (.expr func)⟩ ∈ past := by
    apply h.induct (P := fun past m => ∀ func outer, func :: outer <:+ m.around →
      ⟨outer, .visit (.expr func)⟩ ∈ past) _ _ hsplit
    . intro past m haround haction func outer hsuffix
      rw [haround, List.suffix_nil] at hsuffix
      cases hsuffix
    . intro earlier below m gs parent plan hplan haction haround ih func outer hsuffix
      rw [haround] at hsuffix
      rw [List.mem_append, List.mem_cons]
      rcases inside_eq (p := p) parent gs with heq | ⟨id, params, body, rfl, hcontent, heq⟩
      . rw [heq] at hsuffix
        exact .inl (ih func outer hsuffix)
      . rw [heq, List.suffix_cons_iff] at hsuffix
        rcases hsuffix with hhead | hsuffix
        . cases hhead
          exact .inr (.inl rfl)
        . exact .inl (ih func outer hsuffix)
  exact hvisited func outer hsuffix

end Reach

section Unique

theorem not_mem_visits (h : Schedule order p all) (hsplit : all = past ++ rest) {node : Node}
    (hpast : node ∈ visits past) : node ∉ visits rest := by
  have hnodup := h.nodup
  rw [hsplit, visits_append] at hnodup
  exact fun hrest => (List.nodup_append.mp hnodup).2.2 node hpast node hrest rfl

theorem mem_visits {moments : List Moment} {node : Node} (h : ⟨around, .visit node⟩ ∈ moments) :
    node ∈ visits moments := by
  unfold visits
  rw [List.mem_filterMap]
  exact ⟨_, h, rfl⟩

theorem reachable_iff (h : Schedule order p all) {node : Node} :
    p.Reachable node ↔ node ∈ visits all := by
  constructor
  . rintro ⟨around, hwithin⟩
    apply mem_visits (h.mem_of_within hwithin)
  . intro hmem
    unfold visits at hmem
    rw [List.mem_filterMap] at hmem
    rcases hmem with ⟨⟨around, action⟩, hmem, hnode⟩
    cases action with
    | visit node' =>
      cases hnode
      exact ⟨around, h.within_of_mem hmem⟩
    | _ => cases hnode

/-- A node that can be reached is inside of one list of function literals only. -/
theorem around_unique (h : Schedule order p all) {node : Node} {around' : List ExprId}
    (hmem : ⟨around, .visit node⟩ ∈ all) (hmem' : ⟨around', .visit node⟩ ∈ all) :
    around = around' := by
  rcases List.append_of_mem hmem with ⟨past, rest, hsplit⟩
  rw [hsplit, List.mem_append, List.mem_cons] at hmem'
  rcases hmem' with hpast | heq | hrest
  . exfalso
    apply h.not_mem_visits hsplit (mem_visits hpast)
    rw [visits_cons_visit]
    exact List.mem_cons_self
  . cases heq
    rfl
  . exfalso
    have hsplit' : all = (past ++ [⟨around, .visit node⟩]) ++ rest := by
      rw [hsplit, List.append_assoc, List.singleton_append]
    apply h.not_mem_visits hsplit' _ (mem_visits hrest)
    rw [visits_append]
    exact List.mem_append_right _ List.mem_cons_self

/-- A function literal has the same function literals around it wherever it is around something. -/
theorem suffix_of_mem (h : Schedule order p all) {action action' : Action} {func : ExprId}
    {outer around' inner : List ExprId} (hmem : ⟨around, action⟩ ∈ all)
    (hsuffix : func :: outer <:+ around) (hmem' : ⟨around', action'⟩ ∈ all)
    (hinner : inner <:+ around') (hfunc : func ∈ inner) : func :: outer <:+ inner := by
  rcases List.append_of_mem hmem with ⟨past, rest, hsplit⟩
  rcases List.append_of_mem hmem' with ⟨past', rest', hsplit'⟩
  rcases List.append_of_mem hfunc with ⟨between, outer', rfl⟩
  -- The function literal has been visited with both lists around it, and it is visited once.
  have hsuffix' := (List.suffix_append between (func :: outer')).trans hinner
  have hvisit := h.visited_of_suffix hsplit hsuffix
  have hvisit' := h.visited_of_suffix hsplit' hsuffix'
  have hall : ⟨outer, .visit (.expr func)⟩ ∈ all := by
    rw [hsplit]
    exact List.mem_append_left _ hvisit
  have hall' : ⟨outer', .visit (.expr func)⟩ ∈ all := by
    rw [hsplit']
    exact List.mem_append_left _ hvisit'
  rw [h.around_unique hall hall']
  apply List.suffix_append

end Unique

section Neighbours

theorem before_reference (h : Schedule order p all) {id : VarId}
    (hsplit : all = past ++ ⟨around, .reference id⟩ :: rest) :
    ∃ earlier, past = earlier ++ [⟨around, .visit (.var id)⟩] := by
  rcases h.placedBelow hsplit (by simp) (by simp) with
    ⟨outer, node, plan, earlier, below, below', later, hplan, rfl, -, before, after, hactions,
      haround, hbefore, -⟩
  have hmem : .reference id ∈ plan := by
    rw [hactions]
    simp
  rcases reference_mem_plan hplan hmem with ⟨rfl, hplan'⟩
  rw [hplan'] at hactions
  cases before with
  | nil =>
    cases hbefore
    refine ⟨earlier, ?_⟩
    dsimp only at haround
    rw [haround]
    rfl
  | cons head before =>
    injection hactions with _ hactions
    have := congrArg List.length hactions
    simp at this

theorem before_enter (h : Schedule order p all)
    (hsplit : all = past ++ ⟨around, .enter⟩ :: rest) :
    ∃ func outer earlier, around = func :: outer ∧
      past = earlier ++ [⟨outer, .visit (.expr func)⟩] := by
  rcases h.placedBelow hsplit (by simp) (by simp) with
    ⟨outer, node, plan, earlier, below, below', later, hplan, rfl, -, before, after, hactions,
      haround, hbefore, -⟩
  rcases plan_cases hplan with ⟨func, params, body, rfl, hcontent, rfl⟩ | ⟨-, henter, -⟩
  . dsimp only at haround
    rw [inside_lambda hcontent] at haround
    cases before with
    | nil =>
      cases hbefore
      exact ⟨func, outer, earlier, haround, rfl⟩
    | cons head before =>
      injection hactions with _ hactions
      have hmem : .enter ∈ params.map Action.register ++ planBlock body ++ [.leave] := by
        rw [hactions]
        simp
      simp [planBlock, Action.stat] at hmem
  . exfalso
    apply henter
    rw [hactions]
    simp

theorem before_initializer (h : Schedule order p all) {decl : DeclId} {value : ExprId}
    (hsplit : all = past ++ ⟨around, .initializer decl value⟩ :: rest) :
    ⟨around, .visit (.expr value)⟩ ∈ past ∧ ⟨around, .register decl⟩ ∈ past := by
  rcases h.placedBelow hsplit (by simp) (by simp) with
    ⟨outer, node, plan, earlier, below, below', later, hplan, rfl, -, before, after, hactions,
      haround, hbefore, -⟩
  subst hactions
  have hvisit := hbefore.mem_of_mem (initializer_split hplan)
  have hregister := hbefore.mem_of_mem (register_split hplan)
  dsimp only at haround
  rw [haround]
  constructor
  . exact List.mem_append_right _ (List.mem_cons_of_mem _ hvisit)
  . exact List.mem_append_right _ (List.mem_cons_of_mem _ hregister)

/-- A target is visited right after it is assigned. -/
theorem after_assign (h : Schedule order p all) {target : VarId}
    (hsplit : all = past ++ ⟨around, .assign target⟩ :: rest) :
    ∃ plan below later, plan? order p (.var target) = some plan ∧
      Unfolds order p around plan below ∧
        rest = ⟨around, .visit (.var target)⟩ :: (below ++ later) := by
  rcases h.placedBelow hsplit (by simp) (by simp) with
    ⟨outer, node, plan, earlier, below, below', later, hplan, rfl, rfl, before, after, hactions,
      haround, -, hafter⟩
  subst hactions
  rcases assign_split hplan with ⟨after', rfl⟩
  dsimp only at haround hafter
  rw [← haround] at hafter
  cases hafter with
  | step _ hafter =>
    cases hafter with
    | @visit _ _ plan _ below rest hplan' hbelow hrest =>
      refine ⟨plan, below, rest ++ later, hplan', hbelow, ?_⟩
      rw [List.cons_append, List.append_assoc]
    | step hstep _ => cases hstep

theorem after_assign_of_named? (h : Schedule order p all) {target : VarId} {decl : DeclId}
    (hnamed : p.named? target = some decl)
    (hsplit : all = past ++ ⟨around, .assign target⟩ :: rest) :
    ∃ later, rest = ⟨around, .visit (.var target)⟩ :: ⟨around, .reference target⟩ :: later := by
  rcases h.after_assign hsplit with ⟨plan, below, later, hplan, hbelow, rfl⟩
  rw [plan?_of_named? hnamed] at hplan
  cases hplan
  cases hbelow with
  | step _ hnil =>
    cases hnil
    exact ⟨later, rfl⟩

theorem exists_var?_of_plan? {id : VarId} {plan : List Action}
    (h : plan? order p (.var id) = some plan) : ∃ var, p.var? id = some var := by
  rw [plan?_eq, content?_var, Option.map_map, Option.map_eq_some_iff] at h
  rcases h with ⟨var, hvar, -⟩
  exact ⟨var, hvar⟩

theorem exists_var?_of_reference (h : Schedule order p all) {id : VarId}
    (hsplit : all = past ++ ⟨around, .reference id⟩ :: rest) : ∃ var, p.var? id = some var := by
  rcases h.before_reference hsplit with ⟨earlier, rfl⟩
  have hvisit : ⟨around, .visit (.var id)⟩ ∈ all := by
    rw [hsplit]
    simp
  rcases h.unfolds.mem_of_visit hvisit with ⟨plan, hplan, -⟩
  exact exists_var?_of_plan? hplan

theorem exists_var?_of_assign (h : Schedule order p all) {target : VarId}
    (hsplit : all = past ++ ⟨around, .assign target⟩ :: rest) :
    ∃ var, p.var? target = some var := by
  rcases h.after_assign hsplit with ⟨plan, below, later, hplan, -, -⟩
  exact exists_var?_of_plan? hplan

end Neighbours

section Order

theorem mem_visits_of_reference (h : Schedule order p all) (hsplit : all = past ++ rest)
    {id : VarId} (hmem : ⟨around, .reference id⟩ ∈ past) : .var id ∈ visits past := by
  rcases List.append_of_mem hmem with ⟨before, after, rfl⟩
  rw [List.append_assoc, List.cons_append] at hsplit
  rcases h.before_reference hsplit with ⟨earlier, rfl⟩
  have hvisit : (⟨around, .visit (.var id)⟩ : Moment) ∈
      earlier ++ [⟨around, .visit (.var id)⟩] ++ ⟨around, .reference id⟩ :: after := by
    simp
  exact mem_visits hvisit

theorem mem_visits_of_initializer (h : Schedule order p all) (hsplit : all = past ++ rest)
    {decl : DeclId} {value : ExprId} (hmem : ⟨around, .initializer decl value⟩ ∈ past) :
    .expr value ∈ visits past := by
  rcases List.append_of_mem hmem with ⟨before, after, rfl⟩
  rw [List.append_assoc, List.cons_append] at hsplit
  have hvisit := (h.before_initializer hsplit).1
  exact mem_visits (List.mem_append_left _ hvisit)

theorem unused_of_visit (h : Schedule order p all) {id : VarId}
    (hsplit : all = past ++ ⟨around, .visit (.var id)⟩ :: rest) (around' : List ExprId) :
    ⟨around', .reference id⟩ ∉ past := by
  intro hmem
  apply h.not_mem_visits hsplit (h.mem_visits_of_reference hsplit hmem)
  rw [visits_cons_visit]
  exact List.mem_cons_self

theorem uninitialized_of_visit (h : Schedule order p all) {value : ExprId}
    (hsplit : all = past ++ ⟨around, .visit (.expr value)⟩ :: rest) (around' : List ExprId)
    (decl : DeclId) : ⟨around', .initializer decl value⟩ ∉ past := by
  intro hmem
  apply h.not_mem_visits hsplit (h.mem_visits_of_initializer hsplit hmem)
  rw [visits_cons_visit]
  exact List.mem_cons_self

theorem unused_of_reference (h : Schedule order p all) {id : VarId}
    (hsplit : all = past ++ ⟨around, .reference id⟩ :: rest) (around' : List ExprId) :
    ⟨around', .reference id⟩ ∉ past := by
  rcases h.before_reference hsplit with ⟨earlier, rfl⟩
  rw [List.append_assoc, List.singleton_append] at hsplit
  intro hmem
  rw [List.mem_append, List.mem_singleton] at hmem
  cases hmem with
  | inl hmem => exact h.unused_of_visit hsplit around' hmem
  | inr heq => cases heq

theorem unused_of_assign (h : Schedule order p all) {target : VarId}
    (hsplit : all = past ++ ⟨around, .assign target⟩ :: rest) (around' : List ExprId) :
    ⟨around', .reference target⟩ ∉ past := by
  rcases h.after_assign hsplit with ⟨plan, below, later, -, -, rfl⟩
  rw [← List.singleton_append, ← List.append_assoc] at hsplit
  intro hmem
  exact h.unused_of_visit hsplit around' (List.mem_append_left _ hmem)

theorem not_mem_around_of_enter (h : Schedule order p all) {func : ExprId} {outer : List ExprId}
    (hsplit : all = past ++ ⟨func :: outer, .enter⟩ :: rest) : ∀ m ∈ past, func ∉ m.around := by
  intro m hm hfunc
  rcases h.before_enter hsplit with ⟨func', outer', earlier, heq, rfl⟩
  cases heq
  rcases List.append_of_mem hm with ⟨before, after, hpast⟩
  rcases List.append_of_mem hfunc with ⟨inner, outer', haround⟩
  have hvisit : ⟨outer', .visit (.expr func)⟩ ∈ before := by
    rw [hpast, List.append_assoc, List.cons_append] at hsplit
    apply h.visited_of_suffix hsplit
    rw [haround]
    apply List.suffix_append
  -- The visit that the function begins with is the last moment, so this one lies before it.
  have hearlier : ⟨outer', .visit (.expr func)⟩ ∈ earlier := by
    rcases List.append_eq_append_iff.mp hpast with ⟨w, rfl, hw⟩ | ⟨w, rfl, -⟩
    . cases w with
      | nil => rwa [List.append_nil] at hvisit
      | cons head w =>
        have := congrArg List.length hw
        simp at this
    . exact List.mem_append_left _ hvisit
  rw [List.append_assoc, List.singleton_append] at hsplit
  apply h.not_mem_visits hsplit (mem_visits hearlier)
  rw [visits_cons_visit]
  exact List.mem_cons_self

/-- Nothing happens inside of a function after it has been left. -/
theorem not_mem_around_of_leave (h : Schedule order p all) {func : ExprId} {outer : List ExprId}
    (hsplit : all = past ++ ⟨func :: outer, .leave⟩ :: rest) : ∀ m ∈ rest, func ∉ m.around := by
  have hleave : ⟨func :: outer, .leave⟩ ∈ all := by
    rw [hsplit]
    simp
  have hflow := h.follows
  rw [hsplit] at hflow
  rcases hflow.of_append with ⟨current, -, hflow⟩
  cases hflow with
  | step _ hne _ => simp at hne
  | leave hflow =>
    apply hflow.not_mem_around
    . -- A function literal is not inside of itself.
      intro houter
      have hsuffix := h.suffix_of_mem hleave (List.suffix_refl _) hleave
        (List.suffix_cons func outer) houter
      have := hsuffix.length_le
      rw [List.length_cons] at this
      omega
    . -- It is not entered again.
      intro outer' henter
      rcases List.append_of_mem henter with ⟨before, after, rfl⟩
      rw [← List.cons_append, ← List.append_assoc] at hsplit
      apply h.not_mem_around_of_enter hsplit ⟨func :: outer, .leave⟩
      . simp
      . simp

/-- Everything inside of a function has happened when the function ends. -/
theorem mem_past_of_leave (h : Schedule order p all) {func : ExprId} {outer : List ExprId}
    (hsplit : all = past ++ ⟨func :: outer, .leave⟩ :: rest) (hm : m ∈ all)
    (hne : m.action ≠ .leave) (hfunc : func ∈ m.around) : m ∈ past := by
  rw [hsplit, List.mem_append, List.mem_cons] at hm
  rcases hm with hpast | rfl | hrest
  . exact hpast
  . simp at hne
  . exact absurd hfunc (h.not_mem_around_of_leave hsplit m hrest)

/-- The simple names that are assigned have been used whenever a function ends. -/
theorem used_of_assign (h : Schedule order p all) {target : VarId} {decl : DeclId}
    (hnamed : p.named? target = some decl) {around' : List ExprId}
    (hsplit : all = past ++ ⟨around, .leave⟩ :: rest) (hmem : ⟨around', .assign target⟩ ∈ past) :
    ⟨around', .reference target⟩ ∈ past := by
  rcases List.append_of_mem hmem with ⟨before, after, rfl⟩
  rw [List.append_assoc, List.cons_append] at hsplit
  rcases h.after_assign_of_named? hnamed hsplit with ⟨later, hlater⟩
  cases after with
  | nil => cases hlater
  | cons head after =>
    cases after with
    | nil => cases hlater
    | cons head after =>
      cases hlater
      simp

end Order

end Schedule

theorem exists_schedule (order : LoopOrder) (h : p.Valid) :
    ∃ moments, Schedule order p moments := by
  rcases exists_unfolds order h with ⟨moments, hunfolds, hnodup⟩
  exact ⟨moments, hunfolds, hnodup⟩

end Upvalue.Boxing

import Upvalue.Program.Valid
import Upvalue.Proofs.Program.Content
import Mathlib.Data.List.Nodup
import Mathlib.Data.List.Perm.Subperm

/-!
This module contains walks. A walk follows nodes and everything that they own. The check of a
program is passed if and only if all handles are in range and the walk from the items meets no node
twice.
-/

namespace Upvalue

namespace Program

/--
Following the nodes of a list in turn, each with everything that it owns, meets the nodes of the
second list in this order.
-/
inductive Walk (p : Program) : List Node → List Node → Prop where
  | nil : Walk p [] []
  | cons {node : Node} {nodes below met : List Node} (hbelow : Walk p (p.children node) below)
      (hmet : Walk p nodes met) : Walk p (node :: nodes) (node :: (below ++ met))

/-- All handles that are stored in a program, in reachable slots or not, are in range. -/
def InRange (p : Program) : Prop :=
  ∀ ref ∈ p.refs, p.contains ref = true

variable {p : Program}

theorem Walk.append {nodes nodes' met met' : List Node} (h : p.Walk nodes met)
    (h' : p.Walk nodes' met') : p.Walk (nodes ++ nodes') (met ++ met') := by
  induction h with
  | nil => exact h'
  | cons hbelow _ _ ih =>
    rw [List.cons_append, List.cons_append, List.append_assoc]
    apply Walk.cons hbelow
    exact ih

theorem Walk.of_append {nodes nodes' met : List Node} (h : p.Walk (nodes ++ nodes') met) :
    ∃ m m', met = m ++ m' ∧ p.Walk nodes m ∧ p.Walk nodes' m' := by
  induction nodes generalizing met with
  | nil => exact ⟨[], met, rfl, .nil, h⟩
  | cons node nodes ih =>
    cases h with
    | cons hbelow hmet =>
      obtain ⟨m, m', rfl, hm, hm'⟩ := ih hmet
      refine ⟨_, m', ?_, .cons hbelow hm, hm'⟩
      rw [List.cons_append, List.append_assoc]

theorem Walk.unique {nodes met met' : List Node} (h : p.Walk nodes met)
    (h' : p.Walk nodes met') : met = met' := by
  induction h generalizing met' with
  | nil =>
    cases h'
    rfl
  | cons _ _ ihbelow ihmet =>
    cases h' with
    | cons hbelow' hmet' => rw [ihbelow hbelow', ihmet hmet']

theorem Walk.perm {nodes nodes' : List Node} (hperm : nodes.Perm nodes') :
    ∀ {met}, p.Walk nodes met → ∃ met', met.Perm met' ∧ p.Walk nodes' met' := by
  induction hperm with
  | nil =>
    intro met h
    exact ⟨met, .refl met, h⟩
  | cons node _ ih =>
    intro met h
    cases h with
    | @cons _ _ below _ hbelow hmet =>
      obtain ⟨met', hperm', hmet'⟩ := ih hmet
      exact ⟨_, (hperm'.append_left below).cons node, .cons hbelow hmet'⟩
  | swap node node' nodes =>
    intro met h
    cases h with
    | @cons _ _ below' _ hbelow' h =>
      cases h with
      | @cons _ _ below rest hbelow hrest =>
        refine ⟨_, ?_, .cons hbelow (.cons hbelow' hrest)⟩
        have hmid : (node' :: (below' ++ node :: (below ++ rest))).Perm
            (node :: (below ++ node' :: (below' ++ rest))) := by
          rw [← List.cons_append, ← List.cons_append, ← List.cons_append, ← List.cons_append,
            ← List.append_assoc, ← List.append_assoc]
          exact List.perm_append_comm.append_right rest
        exact hmid
  | trans _ _ ih ih' =>
    intro met h
    obtain ⟨met', hperm', h'⟩ := ih h
    obtain ⟨met'', hperm'', h''⟩ := ih' h'
    exact ⟨met'', hperm'.trans hperm'', h''⟩

theorem Walk.subset {nodes met : List Node} (h : p.Walk nodes met) : nodes ⊆ met := by
  induction h with
  | nil => exact List.Subset.refl []
  | cons _ _ _ ih =>
    apply List.cons_subset_cons
    exact List.subset_append_of_subset_right _ ih

theorem Walk.children_subset {nodes met : List Node} (h : p.Walk nodes met) :
    ∀ node ∈ met, p.children node ⊆ met := by
  induction h with
  | nil =>
    intro node hnode
    cases hnode
  | cons hbelow _ ihbelow ihmet =>
    intro node hnode
    rw [List.mem_cons, List.mem_append] at hnode
    apply List.subset_cons_of_subset
    rcases hnode with rfl | hnode | hnode
    . exact List.subset_append_of_subset_left _ hbelow.subset
    . exact List.subset_append_of_subset_left _ (ihbelow node hnode)
    . exact List.subset_append_of_subset_right _ (ihmet node hnode)

/-- The handles that are followed are exactly the nodes that are met. -/
theorem Walk.edges_perm {nodes met : List Node} (h : p.Walk nodes met) :
    (nodes ++ met.flatMap p.children).Perm met := by
  induction h with
  | nil => exact .refl []
  | @cons node nodes below met _ _ ihbelow ihmet =>
    rw [List.flatMap_cons, List.flatMap_append, List.cons_append]
    apply List.Perm.cons
    have hmove : (nodes ++ (p.children node ++ below.flatMap p.children)).Perm
        ((p.children node ++ below.flatMap p.children) ++ nodes) := List.perm_append_comm
    have hedges := hmove.append_right (met.flatMap p.children)
    rw [List.append_assoc _ nodes] at hedges
    have hboth := hedges.trans (ihbelow.append ihmet)
    rw [List.append_assoc, List.append_assoc] at hboth
    exact hboth

theorem mem_refs_of_content? {node : Node} {content : Content} {ref : Ref}
    (h : p.content? node = some content) (href : ref ∈ content.refs) : ref ∈ p.refs := by
  unfold refs
  rw [List.mem_append, List.mem_append, List.mem_append, List.mem_flatMap, List.mem_flatMap,
    List.mem_flatMap, List.mem_flatMap]
  cases node with
  | stat id =>
    obtain ⟨stat, hstat, rfl⟩ := Option.map_eq_some_iff.mp h
    exact .inl (.inl (.inr ⟨stat, Array.mem_toList_iff.mpr (Array.mem_of_getElem? hstat), href⟩))
  | expr id =>
    obtain ⟨expr, hexpr, rfl⟩ := Option.map_eq_some_iff.mp h
    exact .inl (.inr ⟨expr, Array.mem_toList_iff.mpr (Array.mem_of_getElem? hexpr), href⟩)
  | var id =>
    obtain ⟨var, hvar, rfl⟩ := Option.map_eq_some_iff.mp h
    exact .inr ⟨var, Array.mem_toList_iff.mpr (Array.mem_of_getElem? hvar), href⟩

theorem InRange.exists_decl? (hrange : p.InRange) {id : VarId} {var : Var} {decl : DeclId}
    (hvar : p.var? id = some var) (hdecl : var.kind.decl? = some decl) :
    ∃ d, p.decl? decl = some d := by
  have hcontent := content?_of_var? hvar
  have hlt := hrange _ (mem_refs_of_content? hcontent (VarKind.mem_refs_of_decl? hdecl))
  unfold Program.contains at hlt
  rw [decide_eq_true_iff] at hlt
  exact ⟨_, Array.getElem?_eq_getElem hlt⟩

theorem mem_filterMap_node? {refs : List Ref} {node : Node} :
    node ∈ refs.filterMap Ref.node? ↔ .node node ∈ refs := by
  rw [List.mem_filterMap]
  constructor
  . rintro ⟨ref, href, hnode⟩
    cases ref with
    | decl id => cases hnode
    | node target => rwa [← Option.some.inj hnode]
  . intro h
    exact ⟨.node node, h, rfl⟩

theorem contains_child (hrange : p.InRange) {node child : Node} (h : child ∈ p.children node) :
    p.contains (.node child) = true := by
  cases hcontent : p.content? node with
  | none =>
    rw [children_eq_nil hcontent] at h
    cases h
  | some content =>
    rw [children_eq_of_content? hcontent, mem_filterMap_node?] at h
    exact hrange _ (mem_refs_of_content? hcontent h)

theorem contains_root (hrange : p.InRange) {node : Node} (h : node ∈ p.roots) :
    p.contains (.node node) = true := by
  unfold roots at h
  rw [mem_filterMap_node?] at h
  apply hrange
  unfold refs
  rw [List.mem_append, List.mem_append, List.mem_append]
  exact .inl (.inl (.inl h))

theorem Walk.contains (hrange : p.InRange) {nodes met : List Node} (h : p.Walk nodes met)
    (hnodes : ∀ node ∈ nodes, p.contains (.node node) = true) :
    ∀ node ∈ met, p.contains (.node node) = true := by
  induction h with
  | nil => exact hnodes
  | cons _ _ ihbelow ihmet =>
    intro node hnode
    rw [List.mem_cons, List.mem_append] at hnode
    rcases hnode with rfl | hnode | hnode
    . exact hnodes _ List.mem_cons_self
    . exact ihbelow (fun child hchild => contains_child hrange hchild) node hnode
    . exact ihmet (fun other hother => hnodes other (List.mem_cons_of_mem _ hother)) node hnode

theorem slot_lt {node : Node} (h : p.contains (.node node) = true) :
    p.slot node < p.slotCount := by
  unfold Program.contains at h
  rw [decide_eq_true_iff] at h
  unfold slotCount slot
  cases node <;> simp only [sizeFor, Ref.index] at h ⊢ <;> omega

theorem slot_inj {node node' : Node} (h : p.contains (.node node) = true)
    (h' : p.contains (.node node') = true) (heq : p.slot node = p.slot node') : node = node' := by
  unfold Program.contains at h h'
  rw [decide_eq_true_iff] at h h'
  cases node <;> cases node' <;> simp only [slot, sizeFor, Ref.index] at h h' heq
  case stat.stat id id' =>
    have := UInt32.toNat_inj.mp heq
    rw [show id = id' from congrArg StatId.mk this]
  case expr.expr id id' =>
    have : id.index = id'.index := UInt32.toNat_inj.mp (by omega)
    rw [show id = id' from congrArg ExprId.mk this]
  case var.var id id' =>
    have : id.index = id'.index := UInt32.toNat_inj.mp (by omega)
    rw [show id = id' from congrArg VarId.mk this]
  all_goals omega

theorem length_le_slotCount {nodes : List Node} (hnodup : nodes.Nodup)
    (h : ∀ node ∈ nodes, p.contains (.node node) = true) : nodes.length ≤ p.slotCount := by
  -- The slots of different nodes are different numbers below the number of slots.
  have hslots : (nodes.map p.slot).Nodup := by
    apply hnodup.map_on
    intro node hnode node' hnode' heq
    exact slot_inj (h node hnode) (h node' hnode') heq
  have hsubset : nodes.map p.slot ⊆ List.range p.slotCount := by
    intro i hi
    obtain ⟨node, hnode, rfl⟩ := List.mem_map.mp hi
    exact List.mem_range.mpr (slot_lt (h node hnode))
  have := (hslots.subperm hsubset).length_le
  rwa [List.length_map, List.length_range] at this

theorem mem_contains_pending (hrange : p.InRange) {node : Node} {pending : List Node}
    (h : ∀ n ∈ node :: pending, p.contains (.node n) = true) :
    ∀ n ∈ (p.children node).reverse ++ pending, p.contains (.node n) = true := by
  intro n hn
  rw [List.mem_append, List.mem_reverse] at hn
  cases hn with
  | inl hn => exact contains_child hrange hn
  | inr hn => exact h n (List.mem_cons_of_mem _ hn)

theorem unmet_of_ne {marks : Array Bool} {node n : Node}
    (hnode : p.contains (.node node) = true) (hn : p.contains (.node n) = true) (hne : n ≠ node) :
    (marks.setIfInBounds (p.slot node) true)[p.slot n]? = marks[p.slot n]? := by
  apply Array.getElem?_setIfInBounds_ne
  intro heq
  exact hne (slot_inj hnode hn heq).symm

/-- What is left of a walk when the mark of its first node is set. -/
theorem exists_met_pending (hrange : p.InRange) {marks : Array Bool} {node : Node}
    {pending met : List Node} (h : ∀ n ∈ node :: pending, p.contains (.node n) = true)
    (hwalk : p.Walk (node :: pending) met) (hnodup : met.Nodup)
    (hunmet : ∀ n ∈ met, marks[p.slot n]? = some false) :
    ∃ met', p.Walk ((p.children node).reverse ++ pending) met' ∧ met'.Nodup ∧
      ∀ n ∈ met', (marks.setIfInBounds (p.slot node) true)[p.slot n]? = some false := by
  have hcontains := hwalk.contains hrange h
  cases hwalk with
  | @cons _ _ below met hbelow hmet =>
    obtain ⟨below', hperm, hbelow'⟩ := Walk.perm (List.reverse_perm _).symm hbelow
    have hperm' := hperm.append_right met
    rw [List.nodup_cons] at hnodup
    refine ⟨_, hbelow'.append hmet, hperm'.nodup_iff.mp hnodup.2, ?_⟩
    intro n hn
    rw [← hperm'.mem_iff] at hn
    have hne : n ≠ node := by
      rintro rfl
      exact hnodup.1 hn
    rw [unmet_of_ne (h node List.mem_cons_self) (hcontains n (List.mem_cons_of_mem _ hn)) hne]
    exact hunmet n (List.mem_cons_of_mem _ hn)

/-- A walk that avoids the mark of a node can begin with this node. -/
theorem exists_met_cons (hrange : p.InRange) {marks : Array Bool} {node : Node}
    {pending met : List Node} (h : ∀ n ∈ node :: pending, p.contains (.node n) = true)
    (hmark : marks[p.slot node]? = some false)
    (hwalk : p.Walk ((p.children node).reverse ++ pending) met) (hnodup : met.Nodup)
    (hunmet : ∀ n ∈ met, (marks.setIfInBounds (p.slot node) true)[p.slot n]? = some false) :
    ∃ met', p.Walk (node :: pending) met' ∧ met'.Nodup ∧
      ∀ n ∈ met', marks[p.slot n]? = some false := by
  obtain ⟨below, met, rfl, hbelow, hmet⟩ := hwalk.of_append
  obtain ⟨below', hperm, hbelow'⟩ := Walk.perm (List.reverse_perm _) hbelow
  have hperm' := hperm.append_right met
  have hfresh : node ∉ below ++ met := by
    intro hmem
    have := hunmet node hmem
    obtain ⟨hlt, -⟩ := Array.getElem?_eq_some_iff.mp hmark
    rw [Array.getElem?_setIfInBounds_self_of_lt hlt] at this
    cases this
  refine ⟨_, .cons hbelow' hmet, ?_, ?_⟩
  . rw [List.nodup_cons, ← hperm'.nodup_iff, ← hperm'.mem_iff]
    exact ⟨hfresh, hnodup⟩
  . intro n hn
    rw [List.mem_cons, ← hperm'.mem_iff] at hn
    rcases hn with rfl | hn
    . exact hmark
    . have hne : n ≠ node := by
        rintro rfl
        exact hfresh hn
      have hcontains := hwalk.contains hrange (mem_contains_pending hrange h) n hn
      rw [← unmet_of_ne (h node List.mem_cons_self) hcontains hne]
      exact hunmet n hn

/--
The nodes that are followed from `pending` are met once if and only if a walk meets no node twice
and none that has a mark.
-/
theorem sharedFrom?_eq_none_iff (hrange : p.InRange) (marks : Array Bool) (pending : List Node)
    (h : ∀ node ∈ pending, p.contains (.node node) = true) :
    p.sharedFrom? marks pending = none ↔
      ∃ met, p.Walk pending met ∧ met.Nodup ∧ ∀ node ∈ met, marks[p.slot node]? = some false := by
  induction marks, pending using sharedFrom?.induct p with
  | case1 marks =>
    rw [sharedFrom?]
    simp only [true_iff]
    refine ⟨[], .nil, List.nodup_nil, ?_⟩
    intro node hnode
    cases hnode
  | case2 marks node pending hmark _ ih =>
    rw [sharedFrom?, dif_pos hmark, ih (mem_contains_pending hrange h)]
    constructor
    . rintro ⟨met, hwalk, hnodup, hunmet⟩
      exact exists_met_cons hrange h hmark hwalk hnodup hunmet
    . rintro ⟨met, hwalk, hnodup, hunmet⟩
      exact exists_met_pending hrange h hwalk hnodup hunmet
  | case3 marks node pending hmark =>
    rw [sharedFrom?, dif_neg hmark]
    simp only [reduceCtorEq, false_iff]
    rintro ⟨met, hwalk, -, hunmet⟩
    apply hmark
    exact hunmet node (hwalk.subset List.mem_cons_self)

theorem shared?_eq_none_iff (hrange : p.InRange) :
    p.shared? = none ↔ ∃ met, p.Walk p.roots met ∧ met.Nodup := by
  have hroots : ∀ node ∈ p.roots.reverse, p.contains (.node node) = true := by
    intro node hnode
    exact contains_root hrange (List.mem_reverse.mp hnode)
  unfold shared?
  rw [sharedFrom?_eq_none_iff hrange _ _ hroots]
  constructor
  . rintro ⟨met, hwalk, hnodup, -⟩
    obtain ⟨met', hperm, hwalk'⟩ := Walk.perm (List.reverse_perm _) hwalk
    exact ⟨met', hwalk', hperm.nodup_iff.mp hnodup⟩
  . rintro ⟨met, hwalk, hnodup⟩
    obtain ⟨met', hperm, hwalk'⟩ := Walk.perm (List.reverse_perm _).symm hwalk
    refine ⟨met', hwalk', hperm.nodup_iff.mp hnodup, ?_⟩
    intro node hnode
    have := slot_lt (hwalk'.contains hrange hroots node hnode)
    rw [Array.getElem?_replicate, if_pos this]

theorem dangling?_eq_none_iff : p.dangling? = none ↔ p.InRange := by
  unfold dangling? InRange
  rw [List.find?_eq_none]
  simp only [Bool.not_eq_true', Bool.not_eq_false]

theorem Walk.congr {q : Program} (hkept : ∀ node, q.children node = p.children node)
    {nodes met : List Node} (h : p.Walk nodes met) : q.Walk nodes met := by
  induction h with
  | nil => exact .nil
  | cons _ _ ihbelow ihmet =>
    apply Walk.cons _ ihmet
    rw [hkept]
    exact ihbelow

/-- A program passes the check if and only if the walk from its items meets no node twice. -/
theorem valid_iff : p.Valid ↔ p.InRange ∧ ∃ met, p.Walk p.roots met ∧ met.Nodup := by
  unfold Valid validate
  cases hdangling : p.dangling? with
  | some ref =>
    have hrange : ¬ p.InRange := by
      rw [← dangling?_eq_none_iff, hdangling]
      simp
    simp [hrange]
  | none =>
    have hrange := dangling?_eq_none_iff.mp hdangling
    rw [← shared?_eq_none_iff hrange]
    cases p.shared? with
    | some node => simp
    | none => simp [hrange]

theorem Valid.congr {q : Program} (h : p.Valid) (hrange : q.InRange) (hroots : q.roots = p.roots)
    (hkept : ∀ node, q.content? node = p.content? node) : q.Valid := by
  rw [valid_iff] at h ⊢
  rcases h with ⟨-, met, hwalk, hnodup⟩
  refine ⟨hrange, met, ?_, hnodup⟩
  rw [hroots]
  apply hwalk.congr
  intro node
  exact children_congr (hkept node)

end Program

end Upvalue

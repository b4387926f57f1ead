import Mathlib.Data.List.Flatten
import Upvalue.Proofs.Program.Within

/-!
This module contains the nodes that the check of a program follows. A node that is followed brings
the nodes that it owns with it, each of them once. So a node that is met twice has two owners, and
the check is passed if and only if every node that can be reached has exactly one.
-/

namespace Upvalue

namespace Program

/-- The nodes that `sharedFrom?` marks, in this order. -/
def followedFrom (p : Program) (met : Array Bool) (pending : List Node) : List Node :=
  match pending with
  | [] => []
  | node :: pending =>
    if h : met[p.slot node]? = some false then
      have := count_false_setIfInBounds_lt h
      node :: followedFrom p (met.setIfInBounds (p.slot node) true)
        ((p.children node).reverse ++ pending)
    else []
termination_by met.count false

/-- The nodes that are followed from the items of a program. -/
def followed (p : Program) : List Node :=
  p.followedFrom (Array.replicate p.slotCount false) p.roots.reverse

/--
At least two edges lead to a node: its handle occurs twice among the handles of the items and of
nodes that can be reached.
-/
def OwnedTwice (p : Program) (node : Node) : Prop :=
  ∃ nodes : List Node, nodes.Nodup ∧ (∀ n ∈ nodes, p.Reachable n) ∧
    2 ≤ (p.roots ++ nodes.flatMap p.children).count node

variable {p : Program}

section Loop

theorem length_followedFrom_le (marks : Array Bool) (pending : List Node) :
    (p.followedFrom marks pending).length ≤ marks.count false := by
  induction marks, pending using followedFrom.induct p with
  | case1 marks => simp [followedFrom]
  | case2 marks node pending hmark hlt ih =>
    rw [followedFrom, dif_pos hmark, List.length_cons]
    omega
  | case3 marks node pending hmark => simp [followedFrom, hmark]

theorem unmet_of_setIfInBounds {marks : Array Bool} {i j : Nat} (hlt : marks[i]? = some false)
    (h : (marks.setIfInBounds i true)[j]? = some false) : j ≠ i ∧ marks[j]? = some false := by
  rcases Array.getElem?_eq_some_iff.mp hlt with ⟨hsize, -⟩
  have hne : j ≠ i := by
    rintro rfl
    rw [Array.getElem?_setIfInBounds_self_of_lt hsize] at h
    cases h
  rw [Array.getElem?_setIfInBounds_ne hne.symm] at h
  exact ⟨hne, h⟩

theorem unmet_of_mem_followedFrom (marks : Array Bool) (pending : List Node) :
    ∀ n ∈ p.followedFrom marks pending, marks[p.slot n]? = some false := by
  induction marks, pending using followedFrom.induct p with
  | case1 marks => simp [followedFrom]
  | case2 marks node pending hmark _ ih =>
    rw [followedFrom, dif_pos hmark, List.forall_mem_cons]
    refine ⟨hmark, ?_⟩
    intro n hn
    apply (unmet_of_setIfInBounds hmark (ih n hn)).2
  | case3 marks node pending hmark => simp [followedFrom, hmark]

theorem nodup_followedFrom (marks : Array Bool) (pending : List Node) :
    (p.followedFrom marks pending).Nodup := by
  induction marks, pending using followedFrom.induct p with
  | case1 marks => simp [followedFrom]
  | case2 marks node pending hmark _ ih =>
    rw [followedFrom, dif_pos hmark, List.nodup_cons]
    refine ⟨?_, ih⟩
    intro hmem
    have hunmet := unmet_of_mem_followedFrom _ _ node hmem
    apply (unmet_of_setIfInBounds hmark hunmet).1
    rfl
  | case3 marks node pending hmark => simp [followedFrom, hmark]

theorem reachable_of_mem_followedFrom (marks : Array Bool) (pending : List Node)
    (h : ∀ n ∈ pending, p.Reachable n) : ∀ n ∈ p.followedFrom marks pending, p.Reachable n := by
  induction marks, pending using followedFrom.induct p with
  | case1 marks => simp [followedFrom]
  | case2 marks node pending hmark _ ih =>
    rw [List.forall_mem_cons] at h
    rw [followedFrom, dif_pos hmark, List.forall_mem_cons]
    refine ⟨h.1, ih ?_⟩
    intro n hn
    rw [List.mem_append, List.mem_reverse] at hn
    cases hn with
    | inl hn => exact reachable_child h.1 hn
    | inr hn => exact h.2 n hn
  | case3 marks node pending hmark => simp [followedFrom, hmark]

/--
The edges that are taken lead to the nodes that are followed, and to the one that is met again. Some
edges may be left then, none if no node is met again.
-/
theorem edges_followedFrom_perm (marks : Array Bool) (pending : List Node) :
    ∃ rest, (pending ++ (p.followedFrom marks pending).flatMap p.children).Perm
        (p.followedFrom marks pending ++ ((p.sharedFrom? marks pending).toList ++ rest)) ∧
      (p.sharedFrom? marks pending = none → rest = []) := by
  induction marks, pending using followedFrom.induct p with
  | case1 marks =>
    refine ⟨[], ?_, fun _ => rfl⟩
    simp [followedFrom, sharedFrom?]
  | case2 marks node pending hmark _ ih =>
    rw [followedFrom, sharedFrom?, dif_pos hmark, dif_pos hmark]
    rcases ih with ⟨rest, hperm, hrest⟩
    refine ⟨rest, ?_, hrest⟩
    rw [List.flatMap_cons, List.cons_append, List.cons_append]
    apply List.Perm.cons
    apply List.Perm.trans _ hperm
    -- The children of the node are taken first, and in the other order.
    rw [← List.append_assoc]
    apply List.Perm.append_right
    apply List.perm_append_comm.trans
    apply List.Perm.append_right
    apply (List.reverse_perm _).symm
  | case3 marks node pending hmark =>
    refine ⟨pending, ?_, ?_⟩
    . simp [followedFrom, sharedFrom?, hmark]
    . simp [sharedFrom?, hmark]

theorem mem_followedFrom_of_shared (hrange : p.InRange) (marks : Array Bool) (pending : List Node)
    (h : ∀ n ∈ pending, p.contains (.node n) = true) {node : Node}
    (hcontains : p.contains (.node node) = true) (hunmet : marks[p.slot node]? = some false)
    (hshared : p.sharedFrom? marks pending = some node) : node ∈ p.followedFrom marks pending := by
  induction marks, pending using followedFrom.induct p with
  | case1 marks =>
    rw [sharedFrom?] at hshared
    cases hshared
  | case2 marks first pending hmark _ ih =>
    rw [sharedFrom?, dif_pos hmark] at hshared
    rw [followedFrom, dif_pos hmark, List.mem_cons]
    by_cases hfirst : node = first
    . exact .inl hfirst
    . right
      apply ih (mem_contains_pending hrange h) _ hshared
      rw [unmet_of_ne (h first List.mem_cons_self) hcontains hfirst]
      exact hunmet
  | case3 marks first pending hmark =>
    rw [sharedFrom?, dif_neg hmark] at hshared
    cases hshared
    exact absurd hunmet hmark

end Loop

section Check

theorem length_followed_le (p : Program) : p.followed.length ≤ p.slotCount := by
  have hle := length_followedFrom_le (p := p) (Array.replicate p.slotCount false) p.roots.reverse
  rw [Array.count_replicate_self] at hle
  exact hle

theorem nodup_followed (p : Program) : p.followed.Nodup := by
  apply nodup_followedFrom

theorem reachable_of_mem_followed {node : Node} (h : node ∈ p.followed) : p.Reachable node := by
  apply reachable_of_mem_followedFrom _ _ _ node h
  intro root hroot
  exact ⟨[], .root (List.mem_reverse.mp hroot)⟩

theorem edges_followed_perm (p : Program) :
    ∃ rest, (p.roots ++ p.followed.flatMap p.children).Perm
        (p.followed ++ (p.shared?.toList ++ rest)) ∧
      (p.shared? = none → rest = []) := by
  rcases edges_followedFrom_perm (Array.replicate p.slotCount false) p.roots.reverse
    with ⟨rest, hperm, hrest⟩
  refine ⟨rest, ?_, hrest⟩
  apply List.Perm.trans _ hperm
  apply List.Perm.append_right
  apply (List.reverse_perm _).symm

theorem ownedTwice_of_shared? (hrange : p.InRange) {node : Node} (h : p.shared? = some node) :
    p.OwnedTwice node := by
  rcases edges_followed_perm p with ⟨rest, hperm, -⟩
  refine ⟨p.followed, nodup_followed p, fun n hn => reachable_of_mem_followed hn, ?_⟩
  have hroots : ∀ n ∈ p.roots.reverse, p.contains (.node n) = true := by
    intro n hn
    exact contains_root hrange (List.mem_reverse.mp hn)
  have hcontains : p.contains (.node node) = true := by
    have hmem : node ∈ p.roots ++ p.followed.flatMap p.children := by
      rw [hperm.mem_iff, h]
      simp
    rw [List.mem_append, List.mem_flatMap] at hmem
    rcases hmem with hmem | ⟨owner, -, hmem⟩
    . exact contains_root hrange hmem
    . exact contains_child hrange hmem
  have hfollowed : node ∈ p.followed := by
    apply mem_followedFrom_of_shared hrange _ _ hroots hcontains _ h
    rw [Array.getElem?_replicate, if_pos (slot_lt hcontains)]
  -- The node has been followed already when it is met again.
  have hcount := List.count_pos_iff.mpr hfollowed
  rw [hperm.count_eq, h, List.count_append, List.count_append, Option.toList_some,
    List.count_singleton_self]
  omega

theorem OwnedTwice.reachable {node : Node} (h : p.OwnedTwice node) : p.Reachable node := by
  rcases h with ⟨nodes, -, hnodes, hcount⟩
  have hmem : node ∈ p.roots ++ nodes.flatMap p.children := by
    apply List.count_pos_iff.mp
    omega
  rw [List.mem_append, List.mem_flatMap] at hmem
  rcases hmem with hmem | ⟨owner, howner, hmem⟩
  . exact ⟨[], .root hmem⟩
  . exact reachable_child (hnodes owner howner) hmem

theorem OwnedOnce.not_ownedTwice (h : p.OwnedOnce) (node : Node) : ¬ p.OwnedTwice node := by
  intro htwice
  have hreachable := htwice.reachable
  rcases h with ⟨all, -, hall, honce⟩
  rcases htwice with ⟨nodes, hnodup, hnodes, hcount⟩
  have hsub : List.Subperm nodes all := by
    apply hnodup.subperm
    intro n hn
    rw [hall]
    exact hnodes n hn
  -- Fewer owners do not have more edges.
  rcases hsub with ⟨kept, hperm, hsublist⟩
  have hedges : (nodes.flatMap p.children).count node ≤ (all.flatMap p.children).count node := by
    rw [← (hperm.flatMap_right p.children).count_eq]
    apply List.Sublist.count_le
    apply hsublist.flatMap
  have hone := honce node ((hall node).mpr hreachable)
  rw [List.count_append] at hcount hone
  omega

theorem mem_followed_iff (h : p.Valid) {node : Node} : node ∈ p.followed ↔ p.Reachable node := by
  have hshared : p.shared? = none := by
    rw [shared?_eq_none_iff h.inRange]
    exact (valid_iff.mp h).2
  rcases edges_followed_perm p with ⟨rest, hperm, hrest⟩
  rw [hshared, hrest hshared, Option.toList_none, List.append_nil, List.append_nil] at hperm
  constructor
  . exact reachable_of_mem_followed
  . rintro ⟨around, hnode⟩
    induction hnode with
    | root hroot =>
      rw [← hperm.mem_iff, List.mem_append]
      exact .inl hroot
    | child _ hchild ih =>
      rw [← hperm.mem_iff, List.mem_append, List.mem_flatMap]
      exact .inr ⟨_, ih, hchild⟩

/--
The check of a program comes to an end after it has followed at most as many nodes as there are
slots. It is passed if and only if every stored handle is in range and every node that can be
reached is owned once. A handle that it reports is stored and out of range, a node that it reports
is owned twice.
-/
theorem validate_iff_ownedOnce (p : Program) :
    p.followed.length ≤ p.slotCount ∧
    (p.validate = .ok () ↔ p.InRange ∧ p.OwnedOnce) ∧
    (∀ ref size, p.validate = .error (.danglingHandle ref size) →
      ref ∈ p.refs ∧ size = p.sizeFor ref ∧ size ≤ ref.index.toNat) ∧
    ∀ node, p.validate = .error (.sharedNode node) → p.InRange ∧ p.OwnedTwice node := by
  have hdangling : ∀ ref size, p.validate = .error (.danglingHandle ref size) →
      ref ∈ p.refs ∧ size = p.sizeFor ref ∧ size ≤ ref.index.toNat := by
    intro ref size h
    unfold validate at h
    split at h
    . next ref' hfind =>
      cases h
      unfold dangling? at hfind
      have hout := List.find?_some hfind
      simp only [Program.contains, Bool.not_eq_true', decide_eq_false_iff_not] at hout
      refine ⟨List.mem_of_find?_eq_some hfind, rfl, ?_⟩
      omega
    . split at h <;> cases h
  have hshared : ∀ node, p.validate = .error (.sharedNode node) →
      p.InRange ∧ p.OwnedTwice node := by
    intro node h
    unfold validate at h
    split at h
    . cases h
    . next hnone =>
      rw [dangling?_eq_none_iff] at hnone
      split at h
      . next node' hfind =>
        cases h
        exact ⟨hnone, ownedTwice_of_shared? hnone hfind⟩
      . cases h
  refine ⟨length_followed_le p, ⟨?_, ?_⟩, hdangling, hshared⟩
  . intro hvalid
    exact ⟨Valid.inRange hvalid, Valid.ownedOnce hvalid⟩
  . rintro ⟨hrange, honce⟩
    cases h : p.validate with
    | ok => rfl
    | error error =>
      cases error with
      | danglingHandle ref size =>
        rcases hdangling ref size h with ⟨hmem, hsize, hle⟩
        have hcontains := hrange ref hmem
        unfold Program.contains at hcontains
        rw [decide_eq_true_iff] at hcontains
        omega
      | sharedNode node =>
        exact absurd (hshared node h).2 (honce.not_ownedTwice node)

/-- An expression that is inside of itself. -/
def looped : Program :=
  { files := #[]
    items := #[.stats .dummy [⟨0⟩]]
    decls := #[]
    stats := #[.call .dummy ⟨0⟩]
    exprs := #[⟨.dummy, .any, .paren ⟨0⟩⟩]
    vars := #[] }

/-- The same expression, where it is behind the last slot. -/
def ragged : Program :=
  { looped with exprs := #[] }

theorem validate_iff_ownedOnce_looped :
    looped.InRange ∧ looped.OwnedTwice (.expr ⟨0⟩) ∧ ¬ looped.OwnedOnce ∧ ¬ ragged.InRange := by
  have htwice := (validate_iff_ownedOnce looped).2.2.2 (.expr ⟨0⟩) (by decide +kernel)
  refine ⟨htwice.1, htwice.2, ?_, ?_⟩
  . intro honce
    have hvalid := (validate_iff_ownedOnce looped).2.1.mpr ⟨htwice.1, honce⟩
    exact absurd hvalid (by decide +kernel)
  . intro hrange
    have hout := (validate_iff_ownedOnce ragged).2.2.1 (.expr ⟨0⟩) 0 (by decide +kernel)
    have hcontains := hrange _ hout.1
    exact absurd hcontains (by decide)

end Check

end Program

end Upvalue

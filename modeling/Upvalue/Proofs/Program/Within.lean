import Upvalue.Proofs.Program.Walk
import Mathlib.Data.List.Pairwise

/-!
This module contains the nodes that can be reached from the items of a program, each with the
function literals around it.
-/

namespace Upvalue

namespace Program

/-- The function literals around what a node owns, if those of `around` are around the node. -/
def inside (p : Program) (node : Node) (around : List ExprId) : List ExprId :=
  match node, p.content? node with
  | .expr id, some (.expr (.lambda _ _)) => id :: around
  | _, _ => around

/--
A node can be reached from the items of a program. The list contains the function literals around
it, the innermost one first.
-/
inductive Within (p : Program) : List ExprId → Node → Prop where
  | root {node : Node} (hroot : node ∈ p.roots) : Within p [] node
  | child {around : List ExprId} {node child : Node} (hparent : Within p around node)
      (hchild : child ∈ p.children node) : Within p (p.inside node around) child

/-- A node can be reached from the items of a program. -/
def Reachable (p : Program) (node : Node) : Prop :=
  ∃ around, p.Within around node

/--
Every node that can be reached has exactly one owner: its handle occurs once among the handles of
the items and of the nodes that can be reached.
-/
def OwnedOnce (p : Program) : Prop :=
  ∃ nodes : List Node, nodes.Nodup ∧ (∀ node, node ∈ nodes ↔ p.Reachable node) ∧
    ∀ node ∈ nodes, (p.roots ++ nodes.flatMap p.children).count node = 1

variable {p : Program}

theorem inside_eq (node : Node) (around : List ExprId) :
    p.inside node around = around ∨
      ∃ id params body, node = .expr id ∧ p.content? node = some (.expr (.lambda params body)) ∧
        p.inside node around = id :: around := by
  unfold inside
  split
  . next id params body h => exact .inr ⟨id, params, body, rfl, h, rfl⟩
  . exact .inl rfl

theorem inside_lambda {id : ExprId} {params : List DeclId} {body : Block}
    (h : p.content? (.expr id) = some (.expr (.lambda params body))) (around : List ExprId) :
    p.inside (.expr id) around = id :: around := by
  unfold inside
  rw [h]

theorem reachable_child {node child : Node} (h : p.Reachable node)
    (hchild : child ∈ p.children node) : p.Reachable child := by
  obtain ⟨around, h⟩ := h
  exact ⟨_, .child h hchild⟩

theorem Walk.reachable {nodes met : List Node} (h : p.Walk nodes met)
    (hnodes : ∀ node ∈ nodes, p.Reachable node) : ∀ node ∈ met, p.Reachable node := by
  induction h with
  | nil => exact hnodes
  | @cons node _ _ _ _ _ ihbelow ihmet =>
    have hnode := hnodes node List.mem_cons_self
    intro n hn
    rw [List.mem_cons, List.mem_append] at hn
    rcases hn with rfl | hn | hn
    . exact hnode
    . exact ihbelow (fun child hchild => reachable_child hnode hchild) n hn
    . exact ihmet (fun other hother => hnodes other (List.mem_cons_of_mem _ hother)) n hn

/-- The walk from the items meets exactly the nodes that can be reached. -/
theorem Walk.mem_iff_reachable {met : List Node} (h : p.Walk p.roots met) {node : Node} :
    node ∈ met ↔ p.Reachable node := by
  constructor
  . apply h.reachable
    intro root hroot
    exact ⟨[], .root hroot⟩
  . rintro ⟨around, hnode⟩
    induction hnode with
    | root hroot => exact h.subset hroot
    | child _ hchild ih => exact h.children_subset _ ih hchild

theorem Valid.inRange (h : p.Valid) : p.InRange :=
  (valid_iff.mp h).1

theorem Valid.ownedOnce (h : p.Valid) : p.OwnedOnce := by
  obtain ⟨-, met, hwalk, hnodup⟩ := valid_iff.mp h
  refine ⟨met, hnodup, fun node => hwalk.mem_iff_reachable, ?_⟩
  intro node hnode
  rw [hwalk.edges_perm.count_eq]
  exact List.count_eq_one_of_mem hnodup hnode

theorem Valid.nodup_edges (h : p.Valid) :
    ∃ nodes : List Node, (∀ node, node ∈ nodes ↔ p.Reachable node) ∧
      (p.roots ++ nodes.flatMap p.children).Nodup := by
  rcases valid_iff.mp h with ⟨-, met, hwalk, hnodup⟩
  refine ⟨met, fun node => hwalk.mem_iff_reachable, ?_⟩
  rw [hwalk.edges_perm.nodup_iff]
  exact hnodup

theorem Valid.owner_unique (h : p.Valid) {node node' child : Node} (hnode : p.Reachable node)
    (hnode' : p.Reachable node') {i i' : Nat} (hi : (p.children node)[i]? = some child)
    (hi' : (p.children node')[i']? = some child) : node = node' ∧ i = i' := by
  rcases h.nodup_edges with ⟨nodes, hnodes, hnodup⟩
  rw [List.nodup_append, List.nodup_flatMap] at hnodup
  rcases hnodup.2.1 with ⟨hchildren, hdisjoint⟩
  have hsame : node = node' := by
    by_contra hne
    have hsymm : Std.Symm (Function.onFun List.Disjoint p.children) :=
      ⟨fun _ _ h _ hmem hmem' => h hmem' hmem⟩
    have hapart := hdisjoint.forall ((hnodes node).mpr hnode) ((hnodes node').mpr hnode') hne
    exact hapart (List.mem_of_getElem? hi) (List.mem_of_getElem? hi')
  subst hsame
  refine ⟨rfl, ?_⟩
  rcases List.getElem?_eq_some_iff.mp hi with ⟨hlt, hchild⟩
  rcases List.getElem?_eq_some_iff.mp hi' with ⟨hlt', hchild'⟩
  have hdistinct := hchildren node ((hnodes node).mpr hnode)
  apply hdistinct.getElem_inj_iff.mp
  rw [hchild, hchild']

theorem Valid.not_mem_roots (h : p.Valid) {node child : Node} (hnode : p.Reachable node)
    (hchild : child ∈ p.children node) : child ∉ p.roots := by
  intro hroot
  rcases h.nodup_edges with ⟨nodes, hnodes, hnodup⟩
  rw [List.nodup_append] at hnodup
  apply hnodup.2.2 child hroot child _ rfl
  rw [List.mem_flatMap]
  exact ⟨node, (hnodes node).mpr hnode, hchild⟩

theorem Reachable.contains (h : p.Valid) {node : Node} (hnode : p.Reachable node) :
    p.contains (.node node) = true := by
  obtain ⟨hrange, met, hwalk, -⟩ := valid_iff.mp h
  apply hwalk.contains hrange
  . intro root hroot
    exact contains_root hrange hroot
  . exact hwalk.mem_iff_reachable.mpr hnode

end Program

end Upvalue

import Upvalue.Proofs.Boxing.Box
import Upvalue.Proofs.Program.Within

/-!
This module contains grafts. A step of a box puts a chain of new nodes between a node and what the
node owned. Walks go along the chain and meet everything else as before, so that the nodes of a
program stay a tree, wherever the graft is made.
-/

namespace Upvalue

namespace Program

/-- A chain of nodes hangs below a node, and what `below` lists hangs below the last one. -/
def Linked (q : Program) (below : List Node) : Node → List Node → Prop
  | node, [] => q.children node = below
  | node, next :: chain => q.children node = [next] ∧ q.Linked below next chain

/-- A chain of new nodes stands between a node and what it owned, all else is as before. -/
structure Grafted (p q : Program) (node : Node) (chain : List Node) : Prop where
  roots : q.roots = p.roots
  fresh : ∀ n ∈ chain, p.content? n = none
  nodup : chain.Nodup
  kept : ∀ n, n ≠ node → n ∉ chain → q.children n = p.children n
  linked : q.Linked (p.children node) node chain

/-- What is met instead of a node after a graft. -/
def graft (node : Node) (chain : List Node) (n : Node) : List Node :=
  if n = node then n :: chain else [n]

theorem graft_self (node : Node) (chain : List Node) : graft node chain node = node :: chain :=
  if_pos rfl

theorem graft_of_ne {node n : Node} (h : n ≠ node) (chain : List Node) :
    graft node chain n = [n] :=
  if_neg h

theorem mem_graft {node n x : Node} {chain : List Node} :
    x ∈ graft node chain n ↔ x = n ∨ n = node ∧ x ∈ chain := by
  by_cases h : n = node
  . subst h
    simp [graft_self]
  . simp [graft_of_ne h, h]

variable {p q : Program} {node : Node} {chain : List Node}

theorem Linked.walk {below met : List Node} (h : q.Linked below node chain)
    (hbelow : q.Walk below met) : q.Walk (q.children node) (chain ++ met) := by
  induction chain generalizing node with
  | nil =>
    unfold Linked at h
    rwa [h]
  | cons next chain ih =>
    rw [h.1]
    have := Walk.cons (ih h.2) .nil
    rwa [List.append_nil] at this

/-- A walk meets the chain right after the node that it was grafted below. -/
theorem Grafted.walk (h : p.Grafted q node chain) {nodes met : List Node}
    (hwalk : p.Walk nodes met) (hold : ∀ n ∈ met, n ∉ chain) :
    q.Walk nodes (met.flatMap (graft node chain)) := by
  induction hwalk with
  | nil => exact .nil
  | @cons n nodes below met _ _ ihbelow ihmet =>
    rw [List.forall_mem_cons, List.forall_mem_append] at hold
    have hbelow := ihbelow hold.2.1
    have hmet := ihmet hold.2.2
    rw [List.flatMap_cons, List.flatMap_append]
    by_cases heq : n = node
    . -- The chain leads from the node to what was below it.
      subst heq
      rw [graft_self]
      have := Walk.cons (h.linked.walk hbelow) hmet
      rwa [List.append_assoc] at this
    . rw [graft_of_ne heq]
      apply Walk.cons _ hmet
      rw [h.kept n heq hold.1]
      exact hbelow

theorem nodup_flatMap_graft {met : List Node} (hchain : chain.Nodup) (hmet : met.Nodup)
    (hold : ∀ n ∈ met, n ∉ chain) : (met.flatMap (graft node chain)).Nodup := by
  rw [List.nodup_flatMap]
  constructor
  . intro n hn
    unfold graft
    split
    . exact List.nodup_cons.mpr ⟨hold n hn, hchain⟩
    . exact List.nodup_singleton n
  . -- Only one of the two nodes brings the chain with it.
    apply hmet.pairwise_of_forall_ne
    intro n hn m hm hne x hxn hxm
    rw [mem_graft] at hxn hxm
    rcases hxn with rfl | ⟨rfl, hxn⟩
    . rcases hxm with rfl | ⟨-, hxm⟩
      . exact hne rfl
      . exact hold x hn hxm
    . rcases hxm with rfl | ⟨rfl, -⟩
      . exact hold x hm hxn
      . exact hne rfl

/-- A graft keeps the nodes of a program a tree. -/
theorem Grafted.valid (h : p.Grafted q node chain) (hvalid : p.Valid) (hrange : q.InRange) :
    q.Valid := by
  rw [valid_iff] at hvalid ⊢
  rcases hvalid with ⟨hprange, met, hwalk, hnodup⟩
  have hold : ∀ n ∈ met, n ∉ chain := by
    intro n hn hchain
    have hcontains := hwalk.contains hprange (fun _ hroot => contains_root hprange hroot) n hn
    rw [contains_iff_isSome, h.fresh n hchain] at hcontains
    cases hcontains
  refine ⟨hrange, met.flatMap (graft node chain), ?_, nodup_flatMap_graft h.nodup hnodup hold⟩
  rw [h.roots]
  exact h.walk hwalk hold

section Range

theorem inRange_iff : p.InRange ↔
    (∀ item ∈ p.items, ∀ ref ∈ item.refs, p.contains ref = true)
      ∧ (∀ stat ∈ p.stats, ∀ ref ∈ stat.refs, p.contains ref = true)
      ∧ (∀ expr ∈ p.exprs, ∀ ref ∈ expr.kind.refs, p.contains ref = true)
      ∧ (∀ var ∈ p.vars, ∀ ref ∈ var.kind.refs, p.contains ref = true) := by
  unfold InRange refs
  simp only [List.mem_append, List.mem_flatMap, Array.mem_toList_iff, or_imp, forall_and,
    forall_exists_index, and_imp, and_assoc]
  constructor
  . rintro ⟨hitems, hstats, hexprs, hvars⟩
    exact ⟨fun x hx ref => hitems ref x hx, fun x hx ref => hstats ref x hx,
      fun x hx ref => hexprs ref x hx, fun x hx ref => hvars ref x hx⟩
  . rintro ⟨hitems, hstats, hexprs, hvars⟩
    exact ⟨fun ref x hx => hitems x hx ref, fun ref x hx => hstats x hx ref,
      fun ref x hx => hexprs x hx ref, fun ref x hx => hvars x hx ref⟩

theorem contains_mono (hdecls : p.decls.size ≤ q.decls.size) (hstats : p.stats.size ≤ q.stats.size)
    (hexprs : p.exprs.size ≤ q.exprs.size) (hvars : p.vars.size ≤ q.vars.size) {ref : Ref}
    (h : p.contains ref = true) : q.contains ref = true := by
  unfold contains at h ⊢
  rw [decide_eq_true_iff] at h ⊢
  have : p.sizeFor ref ≤ q.sizeFor ref := by
    unfold sizeFor
    split <;> assumption
  omega

theorem InRange.extend (h : p.InRange)
    (hkept : ∀ {ref : Ref}, p.contains ref = true → q.contains ref = true)
    (hitems : q.items = p.items) (hstats : q.stats = p.stats)
    (hexprs : ∀ expr ∈ q.exprs,
      expr ∈ p.exprs ∨ ∀ ref ∈ expr.kind.refs, q.contains ref = true)
    (hvars : ∀ var ∈ q.vars,
      (∃ old ∈ p.vars, var.kind = old.kind) ∨ ∀ ref ∈ var.kind.refs, q.contains ref = true) :
    q.InRange := by
  rw [inRange_iff] at h ⊢
  rw [hitems, hstats]
  rcases h with ⟨holditems, holdstats, holdexprs, holdvars⟩
  refine ⟨?_, ?_, ?_, ?_⟩
  . intro item hitem ref href
    exact hkept (holditems item hitem ref href)
  . intro stat hstat ref href
    exact hkept (holdstats stat hstat ref href)
  . intro expr hexpr ref href
    cases hexprs expr hexpr with
    | inl hold => exact hkept (holdexprs expr hold ref href)
    | inr hnew => exact hnew ref href
  . intro var hvar ref href
    rcases hvars var hvar with ⟨old, hold, hkind⟩ | hnew
    . rw [hkind] at href
      exact hkept (holdvars old hold ref href)
    . exact hnew ref href

end Range

end Program

end Upvalue

import Upvalue.Proofs.Boxing.Change
import Upvalue.Proofs.Boxing.Graft

/-!
This module contains the proof that the pass keeps the nodes of a program a tree, also if it stops
in the middle: every step of a box is a graft, and nothing else changes a program.
-/

namespace Upvalue

namespace Box

open Program

variable (b : Box) {p : Program} {id : VarId}

section Range

theorem contains_retype {ref : Ref} (h : p.contains ref = true) :
    (b.retype p).contains ref = true := by
  apply contains_mono _ _ _ _ h
  . simp
  . simp
  . simp
  . simp

theorem contains_wrap {ref : Ref} (h : p.contains ref = true) :
    (b.wrap p).contains ref = true := by
  apply contains_mono _ _ _ _ h
  . simp
  . simp
  . apply size_exprs_wrap_le
  . simp

theorem contains_access {ref : Ref} (h : p.contains ref = true) :
    (b.access p id).contains ref = true := by
  apply contains_mono _ _ _ _ h
  . simp
  . simp
  . apply size_exprs_access_le
  . apply size_vars_access_le

theorem inRange_retype (h : p.InRange) : (b.retype p).InRange := by
  apply h.extend b.contains_retype
  . simp
  . simp
  . intro expr hexpr
    rw [exprs_retype] at hexpr
    exact .inl hexpr
  . intro var hvar
    rw [vars_retype] at hvar
    exact .inl ⟨var, hvar, rfl⟩

theorem contains_nextExpr {q : Program} (hlt : p.exprs.size < UInt32.size)
    (hsize : q.exprs.size = p.exprs.size + 1) : q.contains (.expr p.nextExpr) = true := by
  unfold contains
  rw [decide_eq_true_iff]
  change p.nextExpr.index.toNat < q.exprs.size
  rw [toNat_nextExpr p hlt, hsize]
  omega

theorem contains_nextVar {q : Program} (hlt : p.vars.size < UInt32.size)
    (hsize : q.vars.size = p.vars.size + 1) : q.contains (.var p.nextVar) = true := by
  unfold contains
  rw [decide_eq_true_iff]
  change p.nextVar.index.toNat < q.vars.size
  rw [toNat_nextVar p hlt, hsize]
  omega

theorem inRange_wrap {value : Expr} (hfit : (b.wrap p).Addressable)
    (hvalue : p.expr? b.initializer = some value) (h : p.InRange) : (b.wrap p).InRange := by
  apply h.extend b.contains_wrap
  . simp
  . simp
  . intro expr hexpr
    have hnext := contains_nextExpr (b.size_exprs_lt_of_wrap hfit hvalue) (b.size_exprs_wrap hvalue)
    simp only [wrap, hvalue, setExpr, addExpr] at hexpr
    cases Array.mem_or_eq_of_mem_setIfInBounds hexpr with
    | inl hold =>
      rw [Array.mem_push] at hold
      rcases hold with hold | rfl
      . exact .inl hold
      . exact .inl (Array.mem_of_getElem? hvalue)
    | inr hnew =>
      subst hnew
      right
      intro ref href
      simp only [ExprKind.refs, List.map_cons, List.map_nil, List.mem_singleton] at href
      subst href
      exact hnext
  . intro var hvar
    rw [vars_wrap] at hvar
    exact .inl ⟨var, hvar, rfl⟩

theorem inRange_access {var : Var} (hfit : (b.access p id).Addressable)
    (hvar : p.var? id = some var) (h : p.InRange) : (b.access p id).InRange := by
  apply h.extend b.contains_access
  . simp
  . simp
  . intro expr hexpr
    have hnext := contains_nextVar (b.size_vars_lt_of_access hfit hvar) (b.size_vars_access hvar)
    simp only [access, hvar, setVar, addExpr, addVar, Array.mem_push] at hexpr
    rcases hexpr with hold | rfl
    . exact .inl hold
    . right
      intro ref href
      simp only [ExprKind.refs, List.mem_singleton] at href
      subst href
      exact hnext
  . intro var' hvar'
    have hnext := contains_nextExpr (b.size_exprs_lt_of_access hfit hvar)
      (b.size_exprs_access hvar)
    simp only [access, hvar, setVar, addExpr, addVar] at hvar'
    cases Array.mem_or_eq_of_mem_setIfInBounds hvar' with
    | inl hold =>
      rw [Array.mem_push] at hold
      rcases hold with hold | rfl
      . exact .inl ⟨var', hold, rfl⟩
      . exact .inl ⟨var, Array.mem_of_getElem? hvar, rfl⟩
    | inr hnew =>
      subst hnew
      right
      intro ref href
      simp only [VarKind.refs, List.mem_singleton] at href
      subst href
      exact hnext

end Range

section Tree

theorem grafted_wrap {value : Expr} (hfit : (b.wrap p).Addressable)
    (hvalue : p.expr? b.initializer = some value) :
    p.Grafted (b.wrap p) (.expr b.initializer) [.expr p.nextExpr] := by
  have hlt := b.size_exprs_lt_of_wrap hfit hvalue
  constructor
  . unfold roots
    rw [items_wrap]
  . intro n hn
    rw [List.mem_singleton] at hn
    subst hn
    rw [content?_expr, expr?_nextExpr p hlt]
    rfl
  . apply List.nodup_singleton
  . intro n hne hn
    rw [List.mem_singleton] at hn
    apply children_congr
    exact (b.sameSlot_wrap hlt hvalue hne hn).content?
  . constructor
    . rw [children_eq_of_content? (b.content?_wrap_initializer hlt hvalue)]
      rfl
    . exact children_congr (b.content?_wrap_value hlt hvalue)

theorem grafted_access {var : Var} (hfit : (b.access p id).Addressable)
    (hvar : p.var? id = some var) :
    p.Grafted (b.access p id) (.var id) [.expr p.nextExpr, .var p.nextVar] := by
  have hlt := b.size_exprs_lt_of_access hfit hvar
  have hlt' := b.size_vars_lt_of_access hfit hvar
  constructor
  . unfold roots
    rw [items_access]
  . rw [List.forall_mem_cons, List.forall_mem_singleton]
    constructor
    . rw [content?_expr, expr?_nextExpr p hlt]
      rfl
    . rw [content?_var, var?_nextVar p hlt']
      rfl
  . simp
  . intro n hne hn
    simp only [List.mem_cons, List.not_mem_nil, or_false, not_or] at hn
    apply children_congr
    exact (b.sameSlot_access hlt hlt' hvar hne hn.1 hn.2).content?
  . refine ⟨?_, ?_, ?_⟩
    . rw [children_eq_of_content? (b.content?_access_name hlt' hvar)]
      rfl
    . rw [children_eq_of_content? (b.content?_access_base hlt hvar)]
      rfl
    . exact children_congr (b.content?_access_moved hlt' hvar)

theorem valid_retype (h : p.Valid) : (b.retype p).Valid := by
  apply h.congr (b.inRange_retype h.inRange)
  . unfold roots
    rw [items_retype]
  . intro node
    exact (b.sameSlot_retype node).content?

theorem valid_wrap (hfit : (b.wrap p).Addressable) (h : p.Valid) : (b.wrap p).Valid := by
  cases hvalue : p.expr? b.initializer with
  | none =>
    unfold wrap
    rwa [hvalue]
  | some value => exact (b.grafted_wrap hfit hvalue).valid h (b.inRange_wrap hfit hvalue h.inRange)

theorem valid_access (hfit : (b.access p id).Addressable) (h : p.Valid) :
    (b.access p id).Valid := by
  cases hvar : p.var? id with
  | none =>
    unfold access
    rwa [hvar]
  | some var => exact (b.grafted_access hfit hvar).valid h (b.inRange_access hfit hvar h.inRange)

theorem valid_foldl_access {ids : List VarId} (hfit : (ids.foldl b.access p).Addressable)
    (h : p.Valid) : (ids.foldl b.access p).Valid := by
  induction ids generalizing p with
  | nil => exact h
  | cons id ids ih =>
    apply ih hfit
    apply b.valid_access _ h
    exact b.addressable_of_foldl_access hfit

/-- A box keeps the nodes of a program a tree. -/
theorem valid_apply (hfit : (b.apply p).Addressable) (h : p.Valid) : (b.apply p).Valid := by
  rw [apply_eq] at hfit ⊢
  apply b.valid_foldl_access hfit
  apply b.valid_wrap
  . exact b.addressable_of_foldl_access hfit
  . exact b.valid_retype h

end Tree

theorem valid_foldl_apply {boxes : List Box}
    (hfit : (boxes.foldl (fun q b => b.apply q) p).Addressable) (h : p.Valid) :
    (boxes.foldl (fun q b => b.apply q) p).Valid := by
  induction boxes generalizing p with
  | nil => exact h
  | cons b boxes ih =>
    apply ih hfit
    apply b.valid_apply _ h
    exact addressable_of_foldl_apply hfit

end Box

namespace Program

variable {p : Program}

theorem flatMap_refs_append {items : Array Toplevel} (hitems : ∀ item ∈ items, item.refs = []) :
    (p.items ++ items).toList.flatMap Toplevel.refs = p.items.toList.flatMap Toplevel.refs := by
  rw [Array.toList_append, List.flatMap_append, List.append_right_eq_self, List.flatMap_eq_nil_iff]
  intro item hitem
  exact hitems item (Array.mem_toList_iff.mp hitem)

theorem roots_append_items {items : Array Toplevel} (hitems : ∀ item ∈ items, item.refs = []) :
    roots { p with items := p.items ++ items } = p.roots := by
  unfold roots
  dsimp only
  rw [flatMap_refs_append hitems]

theorem Valid.append_items {items : Array Toplevel} (hitems : ∀ item ∈ items, item.refs = [])
    (h : p.Valid) : { p with items := p.items ++ items }.Valid := by
  apply h.congr
  . have hrange := h.inRange
    unfold InRange refs at hrange ⊢
    dsimp only
    rw [flatMap_refs_append hitems]
    exact hrange
  . exact roots_append_items hitems
  . intro node
    rfl

end Program

namespace Boxing

theorem valid_program_run {options : Options} {p : Program} (hvalid : p.Valid)
    (hfit : (run options p).program.Addressable) : (run options p).program.Valid := by
  rcases run_program_eq options p with ⟨items, hitems, hrun⟩
  rw [hrun] at hfit ⊢
  apply Program.Valid.append_items hitems
  rw [program_finalState]
  apply Box.valid_foldl_apply _ hvalid
  rw [← program_finalState]
  exact hfit

/--
Whether the pass reaches the end of a program or stops, the nodes it leaves behind form a tree
again: every handle in every slot is in range, and every node that can be reached has exactly one
owner.
-/
theorem valid_run (options : Options) (p : Program) (hvalid : p.Valid)
    (hfit : (run options p).program.Addressable) :
    (run options p).program.Valid ∧ (run options p).program.InRange ∧
      (run options p).program.OwnedOnce := by
  have h := valid_program_run hvalid hfit
  exact ⟨h, h.inRange, h.ownedOnce⟩

/--
A function with a function inside. The variable `x` of the inner one can be boxed, the variable `z`
of the outer one has no initializer.
-/
def halfway : Program :=
  { files := #[]
    items := #[.stats .dummy [⟨0⟩]]
    decls := #[⟨"g", none, .dummy, .any, false⟩, ⟨"x", none, .dummy, .integer, false⟩,
      ⟨"z", none, .dummy, .integer, false⟩]
    stats := #[.ret .dummy [⟨0⟩], .decl .dummy [⟨0⟩] [⟨1⟩], .decl .dummy [⟨1⟩] [⟨2⟩],
      .ret .dummy [⟨3⟩], .assign .dummy [⟨0⟩] [⟨4⟩], .decl .dummy [⟨2⟩] [], .ret .dummy [⟨5⟩],
      .assign .dummy [⟨1⟩] [⟨6⟩]]
    exprs := #[⟨.dummy, .any, .lambda [] ⟨[⟨1⟩, ⟨5⟩, ⟨6⟩]⟩⟩, ⟨.dummy, .any, .lambda [] ⟨[⟨2⟩, ⟨3⟩]⟩⟩,
      ⟨.dummy, .integer, .integer 10⟩, ⟨.dummy, .any, .lambda [] ⟨[⟨4⟩]⟩⟩,
      ⟨.dummy, .integer, .integer 1⟩, ⟨.dummy, .any, .lambda [] ⟨[⟨7⟩]⟩⟩,
      ⟨.dummy, .integer, .integer 2⟩]
    vars := #[⟨.dummy, .integer, .name "x" (.variable ⟨1⟩)⟩,
      ⟨.dummy, .integer, .name "z" (.variable ⟨2⟩)⟩] }

/-- The pass stops at `z` when `x` has been boxed, and the program is a tree nevertheless. -/
theorem valid_run_halfway :
    (run default halfway).verdict.isOk = false ∧ (finalState default halfway).boxes.size = 1 ∧
      (run default halfway).program.Valid ∧ (run default halfway).program.InRange ∧
        (run default halfway).program.OwnedOnce :=
  ⟨by decide +kernel, by decide +kernel,
    valid_run default halfway (by decide +kernel) (by decide +kernel)⟩

end Boxing

end Upvalue

import Upvalue.Proofs.Boxing.Lockstep
import Upvalue.Proofs.Boxing.Report
import Upvalue.Proofs.Boxing.Validity
import Upvalue.Proofs.Program.Correspond
import Mathlib.Logic.Equiv.Basic
import Mathlib.Tactic.IntervalCases

/-!
This module contains the proof that the outcome of the pass does not depend on the slots that the
nodes and the declarations of a program are in: not what is reported, not what is written down and
not the tree of the program that is left behind.
-/

namespace Upvalue

open Program

variable {ρ : Renumbering} {p q p' q' : Program} {R : Node → Node → Prop}

namespace Program

/-! ### Grafts -/

section Grafts

variable {node node' : Node} {chain chain' : List Node}

theorem zip_unique (h : chain.Nodup) (h' : chain'.Nodup) {a a' b b' : Node}
    (ha : (a, a') ∈ chain.zip chain') (hb : (b, b') ∈ chain.zip chain') : a = b ↔ a' = b' := by
  induction chain generalizing chain' with
  | nil => cases ha
  | cons x chain ih =>
    cases chain' with
    | nil => cases ha
    | cons x' chain' =>
      rw [List.nodup_cons] at h h'
      rw [List.zip_cons_cons, List.mem_cons, Prod.mk.injEq] at ha hb
      rcases ha with ⟨rfl, rfl⟩ | ha
      . rcases hb with ⟨rfl, rfl⟩ | hb
        . simp
        . constructor
          . rintro rfl
            exact absurd (List.of_mem_zip hb).1 h.1
          . rintro rfl
            exact absurd (List.of_mem_zip hb).2 h'.1
      . rcases hb with ⟨rfl, rfl⟩ | hb
        . constructor
          . rintro rfl
            exact absurd (List.of_mem_zip ha).1 h.1
          . rintro rfl
            exact absurd (List.of_mem_zip ha).2 h'.1
        . exact ih h.2 h'.2 ha hb

/-- The nodes of two chains own corresponding nodes if what hangs below the chains corresponds. -/
theorem Linked.forall₂ {below below' : List Node} (h : p.Linked below node chain)
    (h' : q.Linked below' node' chain') (hlength : chain.length = chain'.length)
    (hbelow : List.Forall₂ R below below') (hchain : ∀ n n', (n, n') ∈ chain.zip chain' → R n n') :
    ∀ n n', (n, n') ∈ (node :: chain).zip (node' :: chain') →
      List.Forall₂ R (p.children n) (q.children n') := by
  induction chain generalizing node node' chain' with
  | nil =>
    cases chain' with
    | cons next' chain' => cases hlength
    | nil =>
      intro n n' hmem
      cases List.mem_singleton.mp hmem
      unfold Linked at h h'
      rwa [h, h']
  | cons next chain ih =>
    cases chain' with
    | nil => cases hlength
    | cons next' chain' =>
      rw [List.length_cons, List.length_cons, Nat.add_right_cancel_iff] at hlength
      intro n n' hmem
      rw [List.zip_cons_cons, List.mem_cons] at hmem
      rcases hmem with heq | hmem
      . cases heq
        rw [h.1, h'.1]
        exact .cons (hchain next next' List.mem_cons_self) .nil
      . apply ih h.2 h'.2 hlength _ n n' hmem
        intro m m' hmem'
        exact hchain m m' (List.mem_cons_of_mem _ hmem')

theorem not_mem_of_outline? (hfresh : ∀ n ∈ chain, p.content? n = none) {n : Node}
    {outline : Outline} (h : p.outline? n = some outline) : n ∉ chain := by
  intro hmem
  rw [outline?_eq_none (hfresh n hmem)] at h
  cases h

/-- Chains with the same outlines may be grafted below nodes that correspond. -/
theorem Corresponds.graft (h : Corresponds ρ p q R) (hnode : R node node')
    (hp : p.Grafted p' node chain) (hq : q.Grafted q' node' chain')
    (hchain : List.Forall₂ (SameOutline ρ p' q') (node :: chain) (node' :: chain'))
    (hkept : ∀ n, n ≠ node → n ∉ chain → p'.outline? n = p.outline? n)
    (hkept' : ∀ n, n ≠ node' → n ∉ chain' → q'.outline? n = q.outline? n) :
    Corresponds ρ p' q' fun n n' => R n n' ∨ (n, n') ∈ chain.zip chain' := by
  have hfresh : ∀ n n', R n n' → n ∉ chain ∧ n' ∉ chain' := by
    intro n n' hn
    rcases h.outline n n' hn with ⟨outline, hleft, hright⟩
    exact ⟨not_mem_of_outline? hp.fresh hleft, not_mem_of_outline? hq.fresh hright⟩
  have hbelow : List.Forall₂ (fun n n' => R n n' ∨ (n, n') ∈ chain.zip chain')
      (p.children node) (q.children node') := (h.children node node' hnode).imp fun _ _ => .inl
  have hlinked := hp.linked.forall₂ hq.linked (Nat.add_right_cancel hchain.length_eq) hbelow
    fun _ _ => .inr
  have houtline : ∀ n n', (n, n') ∈ (node :: chain).zip (node' :: chain') →
      SameOutline ρ p' q' n n' := by
    intro n n' hmem
    exact (List.forall₂_iff_zip.mp hchain).2 hmem
  constructor
  . rintro n n' (hn | hmem)
    . by_cases heq : n = node
      . have heq' := (h.unique n n' node node' hn hnode).mp heq
        subst heq heq'
        exact houtline n n' List.mem_cons_self
      . have hne' := (h.unique n n' node node' hn hnode).not.mp heq
        rcases h.outline n n' hn with ⟨outline, hleft, hright⟩
        refine ⟨outline, ?_, ?_⟩
        . rw [hkept n heq (hfresh n n' hn).1, hleft]
        . rw [hkept' n' hne' (hfresh n n' hn).2, hright]
    . exact houtline n n' (List.mem_cons_of_mem _ hmem)
  . rintro n n' (hn | hmem)
    . by_cases heq : n = node
      . have heq' := (h.unique n n' node node' hn hnode).mp heq
        subst heq heq'
        exact hlinked n n' List.mem_cons_self
      . have hne' := (h.unique n n' node node' hn hnode).not.mp heq
        rw [hp.kept n heq (hfresh n n' hn).1, hq.kept n' hne' (hfresh n n' hn).2]
        exact (h.children n n' hn).imp fun _ _ => .inl
    . exact hlinked n n' (List.mem_cons_of_mem _ hmem)
  . rintro n n' m m' (hn | hn) (hm | hm)
    . exact h.unique n n' m m' hn hm
    . constructor
      . rintro rfl
        exact absurd (List.of_mem_zip hm).1 (hfresh n n' hn).1
      . rintro rfl
        exact absurd (List.of_mem_zip hm).2 (hfresh n n' hn).2
    . constructor
      . rintro rfl
        exact absurd (List.of_mem_zip hn).1 (hfresh n m' hm).1
      . rintro rfl
        exact absurd (List.of_mem_zip hn).2 (hfresh m n' hm).2
    . exact zip_unique hp.nodup hq.nodup hn hm

/-- The items do not matter for what the nodes own. -/
theorem Corresponds.items (h : Corresponds ρ p q R) (items items' : Array Toplevel) :
    Corresponds ρ { p with items := items } { q with items := items' } R :=
  ⟨h.outline, h.children, h.unique⟩

end Grafts

end Program

/-! ### Boxes -/

namespace Box

variable (b : Box)

section Outlines

variable {id : VarId}

/-- The outlines of the constructor and of the value that has moved. -/
theorem outlines_wrap {value : Expr} (hlt : p.exprs.size < UInt32.size)
    (hvalue : p.expr? b.initializer = some value) :
    (b.wrap p).outline? (.expr b.initializer) =
        some (.expr value.loc b.ty (.initList [⟨some b.field, ⟨0⟩⟩])) ∧
      (b.wrap p).outline? (.expr p.nextExpr) =
        some (.expr value.loc value.ty value.kind.shape) := by
  have hne : p.nextExpr ≠ b.initializer := by
    intro heq
    rw [← heq, expr?_nextExpr p hlt] at hvalue
    cases hvalue
  rw [outline?_expr, outline?_expr, b.expr?_wrap hlt hvalue, b.expr?_wrap hlt hvalue, if_pos rfl,
    if_neg hne, if_pos rfl]
  exact ⟨rfl, rfl⟩

/-- The outlines of the access, of what it accesses and of the name that has moved. -/
theorem outlines_access {var : Var} (hlt : p.exprs.size < UInt32.size)
    (hlt' : p.vars.size < UInt32.size) (hvar : p.var? id = some var) :
    (b.access p id).outline? (.var id) = some (.var var.loc b.valueTy (.dot ⟨0⟩ b.field)) ∧
      (b.access p id).outline? (.expr p.nextExpr) = some (.expr var.loc b.ty (.var ⟨0⟩)) ∧
      (b.access p id).outline? (.var p.nextVar) =
        some (.var var.loc b.ty var.kind.shape) := by
  have hne : p.nextVar ≠ id := by
    intro heq
    rw [← heq, var?_nextVar p hlt'] at hvar
    cases hvar
  rw [outline?_expr, outline?_var, outline?_var, b.expr?_access_eq hlt hvar,
    b.var?_access_eq hlt' hvar, b.var?_access_eq hlt' hvar, if_pos rfl, if_pos rfl, if_neg hne,
    if_pos rfl]
  exact ⟨rfl, rfl, rfl⟩

end Outlines

/-- Two programs have corresponding nodes, those of `R` among them. -/
def Carries (ρ : Renumbering) (R : Node → Node → Prop) (p q : Program) : Prop :=
  ∃ S, Corresponds ρ p q S ∧ ∀ n n', R n n' → S n n'

theorem Carries.trans {S : Node → Node → Prop} (h : ∀ n n', R n n' → S n n')
    (h' : Carries ρ S p q) : Carries ρ R p q := by
  rcases h' with ⟨T, hT, hsub⟩
  exact ⟨T, hT, fun n n' hn => hsub n n' (h n n' hn)⟩

section Steps

variable {b}

theorem corresponds_retype (h : Corresponds ρ p q R) :
    Corresponds ρ (b.retype p) ((b.renumber ρ).retype q) R := by
  constructor
  . intro n n' hn
    unfold SameOutline
    rw [(b.sameSlot_retype n).outline?, ((b.renumber ρ).sameSlot_retype n').outline?]
    exact h.outline n n' hn
  . intro n n' hn
    rw [children_congr (b.sameSlot_retype n).content?,
      children_congr ((b.renumber ρ).sameSlot_retype n').content?]
    exact h.children n n' hn
  . exact h.unique

theorem carries_wrap (hfit : (b.wrap p).Addressable) (hfit' : ((b.renumber ρ).wrap q).Addressable)
    (h : Corresponds ρ p q R) (hb : R (.expr b.initializer) (.expr (ρ.expr b.initializer))) :
    Carries ρ R (b.wrap p) ((b.renumber ρ).wrap q) := by
  rcases h.outline _ _ hb with ⟨outline, hleft, hright⟩
  rcases Option.map_eq_some_iff.mp hleft with ⟨value, hvalue, rfl⟩
  rcases Option.map_eq_some_iff.mp hright with ⟨value', hvalue', heq⟩
  simp only [Outline.renumber, Outline.expr.injEq] at heq
  rcases heq with ⟨hloc, hty, hkind⟩
  have hlt := b.size_exprs_lt_of_wrap hfit hvalue
  have hlt' := (b.renumber ρ).size_exprs_lt_of_wrap hfit' hvalue'
  rcases b.outlines_wrap hlt hvalue with ⟨hwrapper, hmoved⟩
  rcases (b.renumber ρ).outlines_wrap hlt' hvalue' with ⟨hwrapper', hmoved'⟩
  rw [hloc] at hwrapper' hmoved'
  rw [hty, hkind] at hmoved'
  refine ⟨_, h.graft hb (b.grafted_wrap hfit hvalue) ((b.renumber ρ).grafted_wrap hfit' hvalue') ?_
    ?_ ?_, fun _ _ => .inl⟩
  . exact .cons ⟨_, hwrapper, hwrapper'⟩ (.cons ⟨_, hmoved, hmoved'⟩ .nil)
  . intro n hne hnext
    rw [List.mem_singleton] at hnext
    exact (b.sameSlot_wrap hlt hvalue hne hnext).outline?
  . intro n hne hnext
    rw [List.mem_singleton] at hnext
    exact ((b.renumber ρ).sameSlot_wrap hlt' hvalue' hne hnext).outline?

theorem carries_access {id : VarId} (hfit : (b.access p id).Addressable)
    (hfit' : ((b.renumber ρ).access q (ρ.var id)).Addressable) (h : Corresponds ρ p q R)
    (hid : R (.var id) (.var (ρ.var id))) :
    Carries ρ R (b.access p id) ((b.renumber ρ).access q (ρ.var id)) := by
  rcases h.outline _ _ hid with ⟨outline, hleft, hright⟩
  rcases Option.map_eq_some_iff.mp hleft with ⟨var, hvar, rfl⟩
  rcases Option.map_eq_some_iff.mp hright with ⟨var', hvar', heq⟩
  simp only [Outline.renumber, Outline.var.injEq] at heq
  rcases heq with ⟨hloc, -, hkind⟩
  have hexprs := b.size_exprs_lt_of_access hfit hvar
  have hvars := b.size_vars_lt_of_access hfit hvar
  have hexprs' := (b.renumber ρ).size_exprs_lt_of_access hfit' hvar'
  have hvars' := (b.renumber ρ).size_vars_lt_of_access hfit' hvar'
  rcases b.outlines_access hexprs hvars hvar with ⟨haccess, hbase, hmoved⟩
  rcases (b.renumber ρ).outlines_access hexprs' hvars' hvar' with ⟨haccess', hbase', hmoved'⟩
  rw [hloc] at haccess' hbase' hmoved'
  rw [hkind] at hmoved'
  refine ⟨_, h.graft hid (b.grafted_access hfit hvar) ((b.renumber ρ).grafted_access hfit' hvar')
    ?_ ?_ ?_, fun _ _ => .inl⟩
  . exact .cons ⟨_, haccess, haccess'⟩
      (.cons ⟨_, hbase, hbase'⟩ (.cons ⟨_, hmoved, hmoved'⟩ .nil))
  . intro n hne hnew
    simp only [List.mem_cons, List.not_mem_nil, or_false, not_or] at hnew
    exact (b.sameSlot_access hexprs hvars hvar hne hnew.1 hnew.2).outline?
  . intro n hne hnew
    simp only [List.mem_cons, List.not_mem_nil, or_false, not_or] at hnew
    exact ((b.renumber ρ).sameSlot_access hexprs' hvars' hvar' hne hnew.1 hnew.2).outline?

theorem carries_foldl_access {ids : List VarId} (hfit : (ids.foldl b.access p).Addressable)
    (hfit' : ((ids.map ρ.var).foldl (b.renumber ρ).access q).Addressable)
    (h : Corresponds ρ p q R) (hids : ∀ id ∈ ids, R (.var id) (.var (ρ.var id))) :
    Carries ρ R (ids.foldl b.access p) ((ids.map ρ.var).foldl (b.renumber ρ).access q) := by
  induction ids generalizing p q R with
  | nil => exact ⟨R, h, fun _ _ => id⟩
  | cons id ids ih =>
    rw [List.forall_mem_cons] at hids
    rw [List.map_cons, List.foldl_cons] at hfit'
    rw [List.map_cons, List.foldl_cons, List.foldl_cons]
    rcases carries_access (b.addressable_of_foldl_access hfit)
      ((b.renumber ρ).addressable_of_foldl_access hfit') h hids.1 with ⟨S, hS, hsub⟩
    exact .trans hsub (ih hfit hfit' hS fun i hi => hsub _ _ (hids.2 i hi))

/-- The slots that a box overwrites correspond. -/
def Matched (ρ : Renumbering) (R : Node → Node → Prop) (b : Box) : Prop :=
  R (.expr b.initializer) (.expr (ρ.expr b.initializer)) ∧
    ∀ id ∈ b.references, R (.var id) (.var (ρ.var id))

theorem carries_apply (hfit : (b.apply p).Addressable)
    (hfit' : ((b.renumber ρ).apply q).Addressable) (h : Corresponds ρ p q R)
    (hb : Matched ρ R b) : Carries ρ R (b.apply p) ((b.renumber ρ).apply q) := by
  have hreferences : (b.renumber ρ).references.toList = b.references.toList.map ρ.var :=
    Array.toList_map
  rw [apply_eq] at hfit hfit' ⊢
  rw [apply_eq, hreferences]
  rw [hreferences] at hfit'
  rcases carries_wrap (b.addressable_of_foldl_access hfit)
    ((b.renumber ρ).addressable_of_foldl_access hfit') (corresponds_retype h) hb.1
    with ⟨S, hS, hsub⟩
  have hids : ∀ id ∈ b.references.toList, S (.var id) (.var (ρ.var id)) := by
    intro id hid
    exact hsub _ _ (hb.2 id (Array.mem_toList_iff.mp hid))
  exact .trans hsub (carries_foldl_access hfit hfit' hS hids)

/-- Corresponding nodes still correspond after the same boxes. -/
theorem carries_foldl_apply {boxes : List Box}
    (hfit : (boxes.foldl (fun q b => b.apply q) p).Addressable)
    (hfit' : ((boxes.map (Box.renumber ρ)).foldl (fun q b => b.apply q) q).Addressable)
    (h : Corresponds ρ p q R) (hboxes : ∀ b ∈ boxes, Matched ρ R b) :
    Carries ρ R (boxes.foldl (fun q b => b.apply q) p)
      ((boxes.map (Box.renumber ρ)).foldl (fun q b => b.apply q) q) := by
  induction boxes generalizing p q R with
  | nil => exact ⟨R, h, fun _ _ => id⟩
  | cons b boxes ih =>
    rw [List.forall_mem_cons] at hboxes
    rw [List.map_cons, List.foldl_cons] at hfit'
    rw [List.map_cons, List.foldl_cons, List.foldl_cons]
    rcases carries_apply (addressable_of_foldl_apply hfit) (addressable_of_foldl_apply hfit') h
      hboxes.1 with ⟨S, hS, hsub⟩
    apply Carries.trans hsub
    apply ih hfit hfit' hS
    intro b' hb'
    exact ⟨hsub _ _ (hboxes.2 b' hb').1, fun id hid => hsub _ _ ((hboxes.2 b' hb').2 id hid)⟩

end Steps

theorem decl?_foldl_renumber (boxes : List Box)
    (h : ∀ id d, p.decl? id = some d → q.decl? (ρ.decl id) = some d) (id : DeclId) (d : Decl)
    (hd : (boxes.foldl (fun q b => b.apply q) p).decl? id = some d) :
    ((boxes.map (Box.renumber ρ)).foldl (fun q b => b.apply q) q).decl? (ρ.decl id) = some d := by
  induction boxes generalizing p q with
  | nil => exact h id d hd
  | cons b boxes ih =>
    refine ih ?_ hd
    intro id d hd
    have hid : ρ.decl id = (b.renumber ρ).decl ↔ id = b.decl := ρ.decl.apply_eq_iff_eq
    rw [decl?_apply] at hd ⊢
    simp only [hid]
    split at hd
    . rcases Option.map_eq_some_iff.mp hd with ⟨old, hold, rfl⟩
      rw [if_pos (by assumption), h id old hold]
      rfl
    . rw [if_neg (by assumption), h id d hd]

end Box

def Entry.renumber (ρ : Renumbering) (entry : Entry) : Entry :=
  { entry with decl := ρ.decl entry.decl }

theorem Box.entry_renumber (b : Box) : (b.renumber ρ).entry = b.entry.renumber ρ := by
  have hsize : (b.renumber ρ).references.size = b.references.size := Array.size_map
  unfold Box.entry Entry.renumber
  rw [hsize]
  rfl

/-- Two programs stand for the same tree, apart from the handles of declarations. -/
structure SameTree (ρ : Renumbering) (p q : Program) : Prop where
  files : q.files = p.files
  items : q.items.map Toplevel.shape = (p.items.map Toplevel.shape).map (Toplevel.renumber ρ.decls)
  decl : ∀ id d, p.decl? id = some d → q.decl? (ρ.decl id) = some d
  nodes : ∃ trees, p.Expands p.roots trees ∧
    q.Expands q.roots (trees.map (Outline.renumber ρ.decls))

namespace Boxing

/-- What is reported about the boxes, or why there is no report. -/
def Outcome.report (outcome : Outcome) : Except Stop (Array Entry) :=
  outcome.verdict.map (Array.map Box.entry)

/-- The lines that are written down. -/
def Outcome.lines (outcome : Outcome) : Array (String × String) :=
  outcome.log.map fun event => (event.level, event.text)

variable {options : Options} {all : List Moment} {s t : State}

theorem meets_visitProgram (options : Options) (h : Renumbers ρ p q) (hvalid : p.Valid) :
    Pass.Meets ρ p (Pass.visitProgram options (depthLimit p) (.start p))
      (Pass.visitProgram options (depthLimit q) (.start q)) := by
  rcases exists_schedule options.order hvalid with ⟨all, hall⟩
  rw [Pass.visitProgram_eq_play hall hvalid,
    Pass.visitProgram_eq_play (hall.renumber h) (h.valid hvalid)]
  exact Pass.meets_play h hvalid.inRange hall (List.nil_append all).symm (.start options.field p)
    (.start options.field q) (.start h)

theorem verdict_renumber (options : Options) (h : Renumbers ρ p q) (hvalid : p.Valid) :
    (run options q).verdict =
      ((run options p).verdict.mapError (Stop.renumber ρ)).map (Array.map (Box.renumber ρ)) := by
  have hmeets := meets_visitProgram options h hvalid
  unfold run
  generalize Pass.visitProgram options (depthLimit p) (.start p) = x at hmeets
  generalize Pass.visitProgram options (depthLimit q) (.start q) = y at hmeets
  cases hmeets with
  | ok h => exact congrArg Except.ok h.boxes
  | error stop h => rfl

theorem lines_renumber (options : Options) (h : Renumbers ρ p q) (hvalid : p.Valid) :
    (run options q).lines = (run options p).lines := by
  have hmeets := meets_visitProgram options h hvalid
  unfold run Outcome.lines
  generalize Pass.visitProgram options (depthLimit p) (.start p) = x at hmeets
  generalize Pass.visitProgram options (depthLimit q) (.start q) = y at hmeets
  have hlog {s t : State} (h : Parallel ρ p s t) :
      t.log.map (fun event => (event.level, event.text)) =
        s.log.map fun event => (event.level, event.text) := by
    rw [h.log, Array.map_map]
    congr 1
    funext event
    exact Prod.ext event.level_renumber event.text_renumber
  cases hmeets with
  | ok h => exact hlog h
  | error stop h => exact hlog h

theorem report_renumber (options : Options) (h : Renumbers ρ p q) (hvalid : p.Valid) :
    (run options q).report =
      ((run options p).report.mapError (Stop.renumber ρ)).map (Array.map (Entry.renumber ρ)) := by
  unfold Outcome.report
  rw [verdict_renumber options h hvalid]
  cases (run options p).verdict with
  | error stop => rfl
  | ok boxes =>
    simp only [Except.map, Except.mapError, Array.map_map]
    congr 2
    funext b
    exact b.entry_renumber

/-- The boxes overwrite slots of the program, which correspond to those with the new handles. -/
theorem Tracks.matched {field : String} {order : LoopOrder} (h : Tracks field p all s)
    (hall : Schedule order p all) (hvalid : p.Valid) :
    ∀ b ∈ s.boxes.toList, Box.Matched ρ
      (fun n n' => p.contains (.node n) = true ∧ n' = n.renumber ρ) b := by
  have hcontains : ∀ n ∈ visits all, p.contains (.node n) = true := by
    intro n hn
    exact Reachable.contains hvalid (hall.reachable_iff.mpr hn)
  intro b hb
  rcases h.boxed b hb with ⟨-, ⟨around, hinitializer⟩, hreferences⟩
  have hsplit : all = all ++ [] := (List.append_nil all).symm
  refine ⟨⟨hcontains _ (hall.mem_visits_of_initializer hsplit hinitializer), rfl⟩, ?_⟩
  intro id hid
  rcases (mem_referencesIn.mp (hreferences id hid)).1 with ⟨around', hreference⟩
  exact ⟨hcontains _ (hall.mem_visits_of_reference hsplit hreference), rfl⟩

theorem shape_append_renumber (items : Array Toplevel) (boxes : Array Box) :
    (items.map (Toplevel.renumber ρ) ++ (boxes.map (Box.renumber ρ)).map Box.item).map
        Toplevel.shape =
      ((items ++ boxes.map Box.item).map Toplevel.shape).map (Toplevel.renumber ρ.decls) := by
  rw [Array.map_append, Array.map_append, Array.map_append]
  congr 1
  . rw [Array.map_map, Array.map_map]
    congr 1
    funext item
    exact item.shape_renumber
  . rw [Array.map_map, Array.map_map, Array.map_map, Array.map_map]
    rfl

theorem roots_of_run_ok {boxes : Array Box} (hok : (run options p).verdict = .ok boxes) :
    (run options p).program.roots = p.roots := by
  rw [program_of_run_ok hok]
  exact roots_append_items fun _ => Box.refs_of_mem_items

/-- The nodes of the programs that are left behind are expanded to the same trees. -/
theorem expands_run (h : Renumbers ρ p q) (hvalid : p.Valid) {boxes : Array Box}
    (hok : (run options p).verdict = .ok boxes)
    (hok' : (run options q).verdict = .ok (boxes.map (Box.renumber ρ)))
    (hfit : (run options p).program.Addressable) (hfit' : (run options q).program.Addressable) :
    ∃ trees, (run options p).program.Expands (run options p).program.roots trees ∧
      (run options q).program.Expands (run options q).program.roots
        (trees.map (Outline.renumber ρ.decls)) := by
  have hexpands := (valid_program_run hvalid hfit).expands
  refine ⟨_, hexpands, ?_⟩
  rcases exists_schedule options.order hvalid with ⟨all, hall⟩
  rcases play_of_run_ok hall hvalid hok with ⟨s, hplay, rfl, -⟩
  have hsplit : all = [] ++ all ++ [] := by simp
  have hs : Tracks options.field p all s :=
    (Tracks.start options.field p).play hall hsplit hplay
  have hroots : (run options q).program.roots = p.roots.map (Node.renumber ρ) := by
    rw [roots_of_run_ok hok', h.roots_eq]
  have hroots' := roots_of_run_ok hok
  rw [hroots'] at hexpands
  rw [hroots]
  rw [program_of_run_ok hok] at hexpands hfit ⊢
  rw [program_of_run_ok hok', Array.toList_map] at hfit' ⊢
  rcases Box.carries_foldl_apply hfit hfit' (h.corresponds hvalid.inRange)
    (hs.matched hall hvalid) with ⟨S, hS, hsub⟩
  refine (hS.items _ _).expands ?_ hexpands
  rw [List.forall₂_map_right_iff, List.forall₂_same]
  intro node hnode
  exact hsub _ _ ⟨contains_root hvalid.inRange hnode, rfl⟩

/-- The programs that are left behind stand for the same tree if every slot has a handle. -/
theorem sameTree_run (h : Renumbers ρ p q) (hvalid : p.Valid) {boxes : Array Box}
    (hok : (run options p).verdict = .ok boxes) (hfit : (run options p).program.Addressable)
    (hfit' : (run options q).program.Addressable) :
    SameTree ρ (run options p).program (run options q).program := by
  have hok' : (run options q).verdict = .ok (boxes.map (Box.renumber ρ)) := by
    rw [verdict_renumber options h hvalid, hok]
    rfl
  have hnodes := expands_run h hvalid hok hok' hfit hfit'
  rw [program_of_run_ok hok, program_of_run_ok hok', Array.toList_map] at hnodes ⊢
  refine ⟨?_, ?_, ?_, hnodes⟩
  . dsimp only
    rw [Box.files_foldl_apply, Box.files_foldl_apply, h.files]
  . dsimp only
    rw [h.items]
    exact shape_append_renumber p.items boxes
  . exact Box.decl?_foldl_renumber boxes.toList h.decl

/--
The outcome of the pass does not depend on the slots of a program, nor on slots that cannot be
reached: there is the same report, or the pass stops for the same reason, the same lines are written
down, and the programs that are left behind stand for the same tree, up to the handles of
declarations. The handles, which have 32 bits, have to reach all slots of these programs.
-/
theorem run_renumber (options : Options) (ρ : Renumbering) (p q : Program) (hvalid : p.Valid)
    (h : Renumbers ρ p q) :
    (run options q).report =
        ((run options p).report.mapError (Stop.renumber ρ)).map (Array.map (Entry.renumber ρ)) ∧
      (run options q).lines = (run options p).lines ∧
      ((run options p).verdict.isOk = true → (run options p).program.Addressable →
        (run options q).program.Addressable →
          SameTree ρ (run options p).program (run options q).program) := by
  refine ⟨report_renumber options h hvalid, lines_renumber options h hvalid, ?_⟩
  intro hok hfit hfit'
  cases hverdict : (run options p).verdict with
  | error stop =>
    rw [hverdict] at hok
    cases hok
  | ok boxes => exact sameTree_run h hvalid hverdict hfit hfit'

/-- Other handles for some slots of `counter`. -/
def shuffling : Renumbering :=
  ⟨.swap ⟨1⟩ ⟨3⟩, .swap ⟨0⟩ ⟨5⟩, .swap ⟨0⟩ ⟨5⟩, .swap ⟨1⟩ ⟨2⟩⟩

/-- The function of `counter` in other slots. The last declaration and the last name are unused. -/
def shuffled : Program :=
  { files := #[]
    items := #[.stats .dummy [⟨5⟩]]
    decls := #[⟨"f", none, .dummy, .any, false⟩, ⟨"y", none, .dummy, .integer, false⟩,
      ⟨"set", none, .dummy, .any, false⟩, ⟨"x", none, .dummy, .integer, false⟩,
      ⟨"unused", none, .dummy, .any, false⟩]
    stats := #[.ret .dummy [⟨0⟩], .decl .dummy [⟨3⟩] [⟨1⟩], .decl .dummy [⟨2⟩] [⟨2⟩],
      .assign .dummy [⟨0⟩] [⟨3⟩], .ret .dummy [⟨4⟩], .decl .dummy [⟨0⟩] [⟨5⟩]]
    exprs := #[⟨.dummy, .integer, .var ⟨1⟩⟩, ⟨.dummy, .integer, .integer 10⟩,
      ⟨.dummy, .any, .lambda [⟨1⟩] ⟨[⟨3⟩]⟩⟩, ⟨.dummy, .integer, .var ⟨2⟩⟩,
      ⟨.dummy, .any, .lambda [] ⟨[⟨0⟩]⟩⟩, ⟨.dummy, .any, .lambda [] ⟨[⟨1⟩, ⟨2⟩, ⟨4⟩]⟩⟩]
    vars := #[⟨.dummy, .integer, .name "x" (.variable ⟨3⟩)⟩,
      ⟨.dummy, .integer, .name "x" (.variable ⟨3⟩)⟩, ⟨.dummy, .integer, .name "y" (.variable ⟨1⟩)⟩,
      ⟨.dummy, .any, .name "unused" (.variable ⟨4⟩)⟩] }

theorem renumbers_shuffled : Renumbers shuffling counter shuffled := by
  refine .of_slots rfl ?_ ?_ ?_ ?_ ?_ (Valid.inRange (by decide +kernel))
  . apply Array.ext'
    rw [Array.toList_map]
    rfl
  . intro i (hi : i < 4)
    interval_cases i <;> rfl
  . intro i (hi : i < 6)
    interval_cases i <;> rfl
  . intro i (hi : i < 6)
    interval_cases i <;> rfl
  . intro i (hi : i < 3)
    interval_cases i <;> rfl

theorem run_renumber_shuffled :
    counter.Valid ∧ Renumbers shuffling counter shuffled ∧
      (run default shuffled).report =
        ((run default counter).report.mapError (Stop.renumber shuffling)).map
          (Array.map (Entry.renumber shuffling)) ∧
      (run default shuffled).lines = (run default counter).lines ∧
      (run default counter).verdict.isOk = true ∧
      SameTree shuffling (run default counter).program (run default shuffled).program := by
  have hvalid : counter.Valid := by decide +kernel
  have hok : (run default counter).verdict.isOk = true := by decide +kernel
  rcases run_renumber default shuffling counter shuffled hvalid renumbers_shuffled with
    ⟨hreport, hlines, htree⟩
  exact ⟨hvalid, renumbers_shuffled, hreport, hlines, hok,
    htree hok (by decide +kernel) (by decide +kernel)⟩

end Boxing

end Upvalue

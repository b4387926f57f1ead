import Upvalue.Proofs.Program.Walk

/-!
This module contains how programs grow. A new slot or a new item may store handles of the slots that
are there, so that the nodes that nothing owns yet form a forest beside the tree of the items. Every
node that has not been stored is a root of this forest.
-/

namespace Upvalue

namespace Program

/-! ### Types -/

/-- A simple name has the type of its declaration. -/
def VarTyped (p : Program) (var : Var) : Prop :=
  ∀ decl, var.kind.decl? = some decl → ∃ d, p.decl? decl = some d ∧ var.ty = d.ty

/--
A variable form and an expression in parentheses have the same type on their own, and the type of a
function literal has the types of its parameters.
-/
def ExprTyped (p : Program) (expr : Expr) : Prop :=
  match expr.kind with
  | .var id => ∃ var, p.var? id = some var ∧ expr.ty = var.ty
  | .paren id => ∃ inner, p.expr? id = some inner ∧ expr.ty = inner.ty
  | .lambda params _ => ∃ tys returns, expr.ty = .function tys returns ∧
      List.Forall₂ (fun ty param => ∃ d, p.decl? param = some d ∧ ty = d.ty) tys params
  | _ => True

/-- The types of all slots agree, whether they can be reached or not. -/
structure Typed (p : Program) : Prop where
  var : ∀ var ∈ p.vars, p.VarTyped var
  expr : ∀ expr ∈ p.exprs, p.ExprTyped expr

/-! ### Growth -/

/-- Who owns the nodes of some handles that are stored: the items, or a node if it is a new one. -/
inductive Owner (p q : Program) (given returned : List Ref) : Prop where
  | items (hroots : q.roots = p.roots ++ given.filterMap Ref.node?)
      (hnone : ∀ node, .node node ∉ returned)
  | node {node : Node} (hroots : q.roots = p.roots) (hreturned : returned = [.node node])
      (hnew : p.contains (.node node) = false → q.children node = given.filterMap Ref.node?)

/--
A program grows by one slot or one item, which stores the handles `given`. The handles `returned`
are in range afterwards, they may be old ones if there are more slots than handles.
-/
structure Grows (p q : Program) (given returned : List Ref) : Prop where
  inRange : ∀ ref ∈ given, p.contains ref = true
  contains : ∀ ref, q.contains ref = true ↔ p.contains ref = true ∨ ref ∈ returned
  refs : ∀ ref ∈ q.refs, ref ∈ p.refs ∨ ref ∈ given
  owner : Owner p q given returned
  decl : ∀ id d, p.decl? id = some d → ∃ d', q.decl? id = some d' ∧ d'.ty = d.ty
  stat : ∀ id stat, p.stat? id = some stat → q.stat? id = some stat
  expr : ∀ id expr, p.expr? id = some expr → q.expr? id = some expr
  var : ∀ id var, p.var? id = some var → q.var? id = some var
  vars : ∀ var ∈ q.vars, var ∈ p.vars ∨ p.VarTyped var
  exprs : ∀ expr ∈ q.exprs, expr ∈ p.exprs ∨ p.ExprTyped expr

section Slots

variable {p : Program} {ref : Ref}

theorem mem_refs_iff : ref ∈ p.refs ↔
    (∃ item ∈ p.items, ref ∈ item.refs) ∨ (∃ stat ∈ p.stats, ref ∈ stat.refs) ∨
      (∃ expr ∈ p.exprs, ref ∈ expr.kind.refs) ∨ ∃ var ∈ p.vars, ref ∈ var.kind.refs := by
  unfold refs
  simp only [List.mem_append, List.mem_flatMap, Array.mem_toList_iff, or_assoc]

theorem toNat_ofNat_le {n : Nat} : (UInt32.ofNat n).toNat ≤ n := by
  rw [UInt32.toNat_ofNat']
  apply Nat.mod_le

theorem lt_succ_iff_eq_ofNat {i : UInt32} {n : Nat} :
    i.toNat < n + 1 ↔ i.toNat < n ∨ i = UInt32.ofNat n := by
  constructor
  . intro hlt
    rcases Nat.lt_or_eq_of_le (Nat.le_of_lt_succ hlt) with hlt | heq
    . exact .inl hlt
    . right
      rw [← heq, UInt32.ofNat_toNat]
  . rintro (hlt | rfl)
    . exact Nat.lt_succ_of_lt hlt
    . exact Nat.lt_succ_of_le toNat_ofNat_le

/-- The handle of a new slot refers to it, unless it is an old handle. -/
theorem getElem?_push_ofNat {α : Type} {slots : Array α} {new : α}
    (h : ¬ (UInt32.ofNat slots.size).toNat < slots.size) :
    (slots.push new)[(UInt32.ofNat slots.size).toNat]? = some new := by
  rw [Nat.le_antisymm toNat_ofNat_le (Nat.not_lt.mp h)]
  exact Array.getElem?_push_size

theorem contains_addDecl {d : Decl} : (p.addDecl d).contains ref = true ↔
    p.contains ref = true ∨ ref ∈ [.decl p.nextDecl] := by
  unfold Program.contains
  rw [decide_eq_true_iff, decide_eq_true_iff, List.mem_singleton]
  cases ref with
  | decl id =>
    rcases id with ⟨i⟩
    change i.toNat < (p.decls.push d).size ↔ i.toNat < p.decls.size ∨ _
    rw [Array.size_push, lt_succ_iff_eq_ofNat]
    simp [nextDecl]
  | node node => cases node <;> simp [sizeFor, addDecl]

theorem contains_addStat {stat : Stat} : (p.addStat stat).contains ref = true ↔
    p.contains ref = true ∨ ref ∈ [.stat p.nextStat] := by
  unfold Program.contains
  rw [decide_eq_true_iff, decide_eq_true_iff, List.mem_singleton]
  cases ref with
  | decl id => simp [sizeFor, addStat, Ref.stat]
  | node node =>
    cases node with
    | stat id =>
      rcases id with ⟨i⟩
      change i.toNat < (p.stats.push stat).size ↔ i.toNat < p.stats.size ∨ _
      rw [Array.size_push, lt_succ_iff_eq_ofNat]
      simp [nextStat, Ref.stat]
    | _ => simp [sizeFor, addStat, Ref.stat]

theorem contains_addExpr {expr : Expr} : (p.addExpr expr).contains ref = true ↔
    p.contains ref = true ∨ ref ∈ [.expr p.nextExpr] := by
  unfold Program.contains
  rw [decide_eq_true_iff, decide_eq_true_iff, List.mem_singleton]
  cases ref with
  | decl id => simp [sizeFor, addExpr, Ref.expr]
  | node node =>
    cases node with
    | expr id =>
      rcases id with ⟨i⟩
      change i.toNat < (p.exprs.push expr).size ↔ i.toNat < p.exprs.size ∨ _
      rw [Array.size_push, lt_succ_iff_eq_ofNat]
      simp [nextExpr, Ref.expr]
    | _ => simp [sizeFor, addExpr, Ref.expr]

theorem contains_addVar {var : Var} : (p.addVar var).contains ref = true ↔
    p.contains ref = true ∨ ref ∈ [.var p.nextVar] := by
  unfold Program.contains
  rw [decide_eq_true_iff, decide_eq_true_iff, List.mem_singleton]
  cases ref with
  | decl id => simp [sizeFor, addVar, Ref.var]
  | node node =>
    cases node with
    | var id =>
      rcases id with ⟨i⟩
      change i.toNat < (p.vars.push var).size ↔ i.toNat < p.vars.size ∨ _
      rw [Array.size_push, lt_succ_iff_eq_ofNat]
      simp [nextVar, Ref.var]
    | _ => simp [sizeFor, addVar, Ref.var]

end Slots

namespace Grows

variable {p : Program}

/-- A program that stays as it is, apart from the paths of its source texts. -/
theorem keep (files : Array String) : Grows p { p with files := files } [] [] where
  inRange := by simp
  contains ref := by
    rw [or_iff_left List.not_mem_nil]
    rcases ref with _ | (_ | _ | _) <;> rfl
  refs _ href := .inl href
  owner := .items (by simp [roots]) (by simp)
  decl _ d hd := ⟨d, hd, rfl⟩
  stat _ _ h := h
  expr _ _ h := h
  var _ _ h := h
  vars _ h := .inl h
  exprs _ h := .inl h

theorem addDecl (d : Decl) : Grows p (p.addDecl d) [] [.decl p.nextDecl] where
  inRange := by simp
  contains _ := contains_addDecl
  refs _ href := .inl href
  owner := .items (by simp [roots, Program.addDecl]) (by simp)
  decl _ d hd := ⟨d, getElem?_push_of_some hd, rfl⟩
  stat _ _ h := h
  expr _ _ h := h
  var _ _ h := h
  vars _ h := .inl h
  exprs _ h := .inl h

/-- A declaration changes, but not its type. -/
theorem setDecl {id : DeclId} {d d' : Decl} (hd : p.decl? id = some d) (hty : d'.ty = d.ty) :
    Grows p (p.setDecl id d') [] [.decl id] where
  inRange := by simp
  contains ref := by
    have hlt := (Array.getElem?_eq_some_iff.mp hd).1
    simp only [Program.contains, decide_eq_true_iff, List.mem_singleton]
    cases ref with
    | decl id' =>
      change id'.index.toNat < (p.decls.setIfInBounds _ _).size ↔ id'.index.toNat < p.decls.size ∨ _
      rw [Array.size_setIfInBounds, Ref.decl.injEq]
      constructor
      . exact .inl
      . rintro (hlt' | rfl)
        . exact hlt'
        . exact hlt
    | node node => cases node <;> simp [sizeFor, Program.setDecl]
  refs _ href := .inl href
  owner := .items (by simp [roots, Program.setDecl]) (by simp)
  decl id' d₁ hd₁ := by
    rw [decl?_setDecl]
    split
    . next heq =>
      subst heq
      rw [hd] at hd₁ ⊢
      cases hd₁
      exact ⟨d', rfl, hty⟩
    . exact ⟨d₁, hd₁, rfl⟩
  stat _ _ h := h
  expr _ _ h := h
  var _ _ h := h
  vars _ h := .inl h
  exprs _ h := .inl h

theorem addStat {stat : Stat} (h : ∀ ref ∈ stat.refs, p.contains ref = true) :
    Grows p (p.addStat stat) stat.refs [.stat p.nextStat] where
  inRange := h
  contains _ := contains_addStat
  refs ref href := by
    rw [mem_refs_iff] at href ⊢
    simp only [Program.addStat, Array.mem_push, or_and_right, exists_or, exists_eq_left] at href
    grind
  owner := by
    refine @Owner.node _ _ _ _ (.stat p.nextStat) rfl rfl ?_
    intro hnew
    have hstat : (p.addStat stat).stat? p.nextStat = some stat :=
      getElem?_push_ofNat (of_decide_eq_false hnew)
    exact children_eq_of_content? (content?_of_stat? hstat)
  decl _ d hd := ⟨d, hd, rfl⟩
  stat _ _ h := getElem?_push_of_some h
  expr _ _ h := h
  var _ _ h := h
  vars _ h := .inl h
  exprs _ h := .inl h

theorem addExpr {expr : Expr} (h : ∀ ref ∈ expr.kind.refs, p.contains ref = true)
    (htyped : p.ExprTyped expr) :
    Grows p (p.addExpr expr) expr.kind.refs [.expr p.nextExpr] where
  inRange := h
  contains _ := contains_addExpr
  refs ref href := by
    rw [mem_refs_iff] at href ⊢
    simp only [Program.addExpr, Array.mem_push, or_and_right, exists_or, exists_eq_left] at href
    grind
  owner := by
    refine @Owner.node _ _ _ _ (.expr p.nextExpr) rfl rfl ?_
    intro hnew
    have hexpr : (p.addExpr expr).expr? p.nextExpr = some expr :=
      getElem?_push_ofNat (of_decide_eq_false hnew)
    exact children_eq_of_content? (content?_of_expr? hexpr)
  decl _ d hd := ⟨d, hd, rfl⟩
  stat _ _ h := h
  expr _ _ h := getElem?_push_of_some h
  var _ _ h := h
  vars _ h := .inl h
  exprs e he := by
    rcases Array.mem_push.mp he with hold | rfl
    . exact .inl hold
    . exact .inr htyped

theorem addVar {var : Var} (h : ∀ ref ∈ var.kind.refs, p.contains ref = true)
    (htyped : p.VarTyped var) : Grows p (p.addVar var) var.kind.refs [.var p.nextVar] where
  inRange := h
  contains _ := contains_addVar
  refs ref href := by
    rw [mem_refs_iff] at href ⊢
    simp only [Program.addVar, Array.mem_push, or_and_right, exists_or, exists_eq_left] at href
    grind
  owner := by
    refine @Owner.node _ _ _ _ (.var p.nextVar) rfl rfl ?_
    intro hnew
    have hvar : (p.addVar var).var? p.nextVar = some var :=
      getElem?_push_ofNat (of_decide_eq_false hnew)
    exact children_eq_of_content? (content?_of_var? hvar)
  decl _ d hd := ⟨d, hd, rfl⟩
  stat _ _ h := h
  expr _ _ h := h
  var _ _ h := getElem?_push_of_some h
  vars v hv := by
    rcases Array.mem_push.mp hv with hold | rfl
    . exact .inl hold
    . exact .inr htyped
  exprs _ h := .inl h

theorem addItem {item : Toplevel} (h : ∀ ref ∈ item.refs, p.contains ref = true) :
    Grows p (p.addItem item) item.refs [] where
  inRange := h
  contains ref := by
    rw [or_iff_left List.not_mem_nil]
    rcases ref with _ | (_ | _ | _) <;> rfl
  refs ref href := by
    rw [mem_refs_iff] at href ⊢
    simp only [Program.addItem, Array.mem_push, or_and_right, exists_or, exists_eq_left] at href
    grind
  owner := .items (by simp [roots, Program.addItem]) (by simp)
  decl _ d hd := ⟨d, hd, rfl⟩
  stat _ _ h := h
  expr _ _ h := h
  var _ _ h := h
  vars _ h := .inl h
  exprs _ h := .inl h

end Grows

/-! ### What growing keeps -/

/-- Some nodes are roots of trees beside the tree of the items. -/
structure Beside (p : Program) (free : List Node) : Prop where
  contains : ∀ node ∈ free, p.contains (.node node) = true
  walk : ∃ met, p.Walk (p.roots ++ free) met ∧ met.Nodup

/--
The handles of a program are in range, its types agree, and the nodes that have not been passed are
roots of trees beside the tree of the items.
-/
structure Sound (p : Program) (passed : List Node) : Prop where
  inRange : p.InRange
  typed : p.Typed
  beside : ∃ free, p.Beside free ∧
    ∀ node, p.contains (.node node) = true → node ∉ passed → node ∈ free

section Growth

variable {p q : Program} {given returned : List Ref} {passed : List Node}

theorem Grows.children (h : Grows p q given returned) {node : Node}
    (hnode : p.contains (.node node) = true) : q.children node = p.children node := by
  apply children_congr
  rw [contains_iff_isSome, Option.isSome_iff_exists] at hnode
  rcases hnode with ⟨content, hcontent⟩
  rw [hcontent]
  cases node with
  | stat id =>
    rcases Option.map_eq_some_iff.mp hcontent with ⟨stat, hstat, rfl⟩
    exact content?_of_stat? (h.stat id stat hstat)
  | expr id =>
    rcases Option.map_eq_some_iff.mp hcontent with ⟨expr, hexpr, rfl⟩
    exact content?_of_expr? (h.expr id expr hexpr)
  | var id =>
    rcases Option.map_eq_some_iff.mp hcontent with ⟨var, hvar, rfl⟩
    exact content?_of_var? (h.var id var hvar)

theorem Grows.inRange_refs (h : Grows p q given returned) (hrange : p.InRange) : q.InRange := by
  intro ref href
  rw [h.contains]
  left
  rcases h.refs ref href with hold | hgiven
  . exact hrange ref hold
  . exact h.inRange ref hgiven

theorem Grows.varTyped (h : Grows p q given returned) {var : Var} (hvar : p.VarTyped var) :
    q.VarTyped var := by
  intro decl hdecl
  rcases hvar decl hdecl with ⟨d, hd, hty⟩
  rcases h.decl decl d hd with ⟨d', hd', hty'⟩
  rw [← hty'] at hty
  exact ⟨d', hd', hty⟩

theorem Grows.exprTyped (h : Grows p q given returned) {expr : Expr} (hexpr : p.ExprTyped expr) :
    q.ExprTyped expr := by
  unfold ExprTyped at hexpr ⊢
  split
  . next id hkind =>
    rw [hkind] at hexpr
    rcases hexpr with ⟨var, hvar, hty⟩
    exact ⟨var, h.var id var hvar, hty⟩
  . next id hkind =>
    rw [hkind] at hexpr
    rcases hexpr with ⟨inner, hinner, hty⟩
    exact ⟨inner, h.expr id inner hinner, hty⟩
  . next params body hkind =>
    rw [hkind] at hexpr
    rcases hexpr with ⟨tys, returns, hty, hparams⟩
    refine ⟨tys, returns, hty, hparams.imp ?_⟩
    rintro ty param ⟨d, hd, hty⟩
    rcases h.decl param d hd with ⟨d', hd', hty'⟩
    rw [← hty'] at hty
    exact ⟨d', hd', hty⟩
  . trivial

theorem Grows.typed (h : Grows p q given returned) (htyped : p.Typed) : q.Typed := by
  constructor
  . intro var hvar
    apply h.varTyped
    rcases h.vars var hvar with hold | hnew
    . exact htyped.var var hold
    . exact hnew
  . intro expr hexpr
    apply h.exprTyped
    rcases h.exprs expr hexpr with hold | hnew
    . exact htyped.expr expr hold
    . exact hnew

/-- A walk over old nodes is still one. -/
theorem Grows.walk (h : Grows p q given returned) {nodes met : List Node} (hwalk : p.Walk nodes met)
    (hcontains : ∀ node ∈ met, p.contains (.node node) = true) : q.Walk nodes met := by
  induction hwalk with
  | nil => exact .nil
  | cons _ _ ihbelow ihmet =>
    rw [List.forall_mem_cons, List.forall_mem_append] at hcontains
    apply Walk.cons _ (ihmet hcontains.2.2)
    rw [h.children hcontains.1]
    exact ihbelow hcontains.2.1

section Beside

variable {free free' : List Node}

theorem Beside.perm (h : p.Beside free) (hperm : free.Perm free') : p.Beside free' := by
  rcases h.walk with ⟨met, hwalk, hnodup⟩
  rcases hwalk.perm (hperm.append_left p.roots) with ⟨met', hperm', hwalk'⟩
  refine ⟨?_, met', hwalk', hperm'.nodup_iff.mp hnodup⟩
  intro node hnode
  exact h.contains node (hperm.mem_iff.mpr hnode)

/-- What the walk from the items and the nodes beside them meets is there. -/
theorem Beside.contains_met (h : p.Beside free) (hrange : p.InRange) {met : List Node}
    (hwalk : p.Walk (p.roots ++ free) met) : ∀ node ∈ met, p.contains (.node node) = true := by
  apply hwalk.contains hrange
  intro node hnode
  rcases List.mem_append.mp hnode with hroot | hnode
  . exact contains_root hrange hroot
  . exact h.contains node hnode

theorem Grows.contains_right (h : Grows p q given returned)
    (hp : p.Beside (given.filterMap Ref.node? ++ free)) :
    ∀ node ∈ free, q.contains (.node node) = true := by
  intro node hnode
  rw [h.contains]
  exact .inl (hp.contains node (List.mem_append_right _ hnode))

theorem Grows.beside_items (h : Grows p q given returned) (hrange : p.InRange)
    (hp : p.Beside (given.filterMap Ref.node? ++ free))
    (hroots : q.roots = p.roots ++ given.filterMap Ref.node?) : q.Beside free := by
  rcases hp.walk with ⟨met, hwalk, hnodup⟩
  refine ⟨h.contains_right hp, met, ?_, hnodup⟩
  rw [hroots, List.append_assoc]
  exact h.walk hwalk (hp.contains_met hrange hwalk)

/-- A node in a slot that has no handle can be left out, with all that it owns. -/
theorem Grows.beside_old (h : Grows p q given returned) (hrange : p.InRange)
    (hp : p.Beside (given.filterMap Ref.node? ++ free)) (hroots : q.roots = p.roots) :
    q.Beside free := by
  rcases hp.walk with ⟨met, hwalk, hnodup⟩
  rcases (h.walk hwalk (hp.contains_met hrange hwalk)).of_append with ⟨above, m, rfl, habove, hm⟩
  rcases hm.of_append with ⟨below, beside, rfl, -, hbeside⟩
  refine ⟨h.contains_right hp, above ++ beside, ?_, ?_⟩
  . rw [hroots]
    exact habove.append hbeside
  . exact hnodup.sublist ((List.sublist_append_right below beside).append_left above)

/-- A new node takes the place of the nodes that it owns. -/
theorem Grows.beside_new (h : Grows p q given returned) (hrange : p.InRange)
    (hp : p.Beside (given.filterMap Ref.node? ++ free)) (hroots : q.roots = p.roots)
    {new : Node} (hreturned : .node new ∈ returned) (hnew : p.contains (.node new) = false)
    (hchildren : q.children new = given.filterMap Ref.node?) : q.Beside (new :: free) := by
  rcases hp.walk with ⟨met, hwalk, hnodup⟩
  have hcontains := hp.contains_met hrange hwalk
  rcases (h.walk hwalk hcontains).of_append with ⟨above, m, rfl, habove, hm⟩
  rcases hm.of_append with ⟨below, beside, rfl, hbelow, hbeside⟩
  constructor
  . rw [List.forall_mem_cons]
    refine ⟨?_, h.contains_right hp⟩
    rw [h.contains]
    exact .inr hreturned
  . refine ⟨above ++ new :: (below ++ beside), ?_, ?_⟩
    . rw [hroots]
      apply habove.append
      apply Walk.cons _ hbeside
      rw [hchildren]
      exact hbelow
    . rw [List.perm_middle.nodup_iff, List.nodup_cons]
      refine ⟨?_, hnodup⟩
      intro hmem
      have hold := hcontains new hmem
      rw [hnew] at hold
      cases hold

end Beside

/-- The nodes that are given are taken from the free ones. -/
theorem exists_free (hgiven : ∀ ref ∈ given, p.contains ref = true) {free : List Node}
    (hfree : ∀ node, p.contains (.node node) = true → node ∉ passed → node ∈ free)
    (hnodup : (passed ++ given.filterMap Ref.node?).Nodup) :
    ∃ free', free.Perm (given.filterMap Ref.node? ++ free') := by
  rw [List.nodup_append] at hnodup
  have hsubset : given.filterMap Ref.node? ⊆ free := by
    intro node hnode
    apply hfree
    . exact hgiven _ (mem_filterMap_node?.mp hnode)
    . intro hpassed
      exact hnodup.2.2 node hpassed node hnode rfl
  rcases List.subperm_iff.mp (hnodup.2.1.subperm hsubset) with ⟨free'', hperm, hsublist⟩
  rcases hsublist.exists_perm_append with ⟨free', hperm'⟩
  exact ⟨free', hperm.symm.trans hperm'⟩

/-- A program stays sound if the nodes that are stored have not been passed before. -/
theorem Sound.grow (h : Sound p passed) (hgrows : Grows p q given returned)
    (hnodup : (passed ++ given.filterMap Ref.node?).Nodup) :
    Sound q (passed ++ given.filterMap Ref.node?) := by
  refine ⟨hgrows.inRange_refs h.inRange, hgrows.typed h.typed, ?_⟩
  rcases h.beside with ⟨free, hbeside, hfree⟩
  rcases exists_free hgrows.inRange hfree hnodup with ⟨free', hperm⟩
  have hbeside' := hbeside.perm hperm
  have hold : ∀ node, p.contains (.node node) = true →
      node ∉ passed ++ given.filterMap Ref.node? → node ∈ free' := by
    intro node hnode hnot
    rw [List.mem_append, not_or] at hnot
    have hmem := hfree node hnode hnot.1
    rw [hperm.mem_iff, List.mem_append] at hmem
    exact hmem.resolve_left hnot.2
  cases hgrows.owner with
  | items hroots hnone =>
    refine ⟨free', hgrows.beside_items h.inRange hbeside' hroots, ?_⟩
    intro node hnode
    rw [hgrows.contains, or_iff_left (hnone node)] at hnode
    exact hold node hnode
  | @node new hroots hreturned hchildren =>
    subst hreturned
    cases hnew : p.contains (.node new) with
    | true =>
      refine ⟨free', hgrows.beside_old h.inRange hbeside' hroots, ?_⟩
      intro node hnode
      rw [hgrows.contains, List.mem_singleton, Ref.node.injEq] at hnode
      rcases hnode with hnode | rfl
      . exact hold node hnode
      . exact hold node hnew
    | false =>
      refine ⟨new :: free', hgrows.beside_new h.inRange hbeside' hroots (List.mem_singleton_self _)
        hnew (hchildren hnew), ?_⟩
      intro node hnode hnot
      rw [hgrows.contains, List.mem_singleton, Ref.node.injEq] at hnode
      rcases hnode with hnode | rfl
      . exact List.mem_cons_of_mem new (hold node hnode hnot)
      . exact List.mem_cons_self

theorem sound_empty : Sound empty [] := by
  constructor
  . intro ref href
    cases href
  . constructor
    . intro var hvar
      cases Array.not_mem_empty var hvar
    . intro expr hexpr
      cases Array.not_mem_empty expr hexpr
  . refine ⟨[], ⟨nofun, [], .nil, List.nodup_nil⟩, ?_⟩
    intro node hnode
    cases node <;> cases hnode

/-- The nodes of the items form a tree. -/
theorem Sound.valid (h : Sound p passed) : p.Valid := by
  rw [valid_iff]
  refine ⟨h.inRange, ?_⟩
  rcases h.beside with ⟨free, ⟨-, met, hwalk, hnodup⟩, -⟩
  rcases hwalk.of_append with ⟨above, beside, rfl, habove, -⟩
  exact ⟨above, habove, hnodup.of_append_left⟩

end Growth

end Program

end Upvalue

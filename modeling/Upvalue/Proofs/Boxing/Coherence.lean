import Upvalue.Proofs.Boxing.Unbox
import Upvalue.Proofs.Ty.Same

/-!
This module contains the proof that boxing keeps the types of the nodes in order. The variables of a
program change their types while the expressions around their names keep theirs. This goes well
because every name of a boxed variable is the base of an access that has the old type, and because
parameters are never boxed, so that the types of function literals do not become outdated.
-/

namespace Upvalue

namespace Program

/--
The types of the nodes that can be reached agree, up to what counts as the same type: those of names
with those of the declarations, those of variables and expressions in parentheses with those around
them, and those of parameters with those in the types of function literals.
-/
structure Coherent (same : Ty → Ty → Prop) (p : Program) : Prop where
  name : ∀ id var decl d, p.Reachable (.var id) → p.var? id = some var →
    var.kind.decl? = some decl → p.decl? decl = some d → same var.ty d.ty
  var : ∀ id loc ty name var, p.Reachable (.expr id) →
    p.expr? id = some ⟨loc, ty, .var name⟩ → p.var? name = some var → same ty var.ty
  paren : ∀ id loc ty inner expr, p.Reachable (.expr id) →
    p.expr? id = some ⟨loc, ty, .paren inner⟩ → p.expr? inner = some expr → same ty expr.ty
  lambda : ∀ id loc ty params body, p.Reachable (.expr id) →
    p.expr? id = some ⟨loc, ty, .lambda params body⟩ → ∃ tys returns,
      ty = .function tys returns ∧
        List.Forall₂ (fun ty param => ∃ d, p.decl? param = some d ∧ same ty d.ty) tys params

end Program

namespace Boxing

open Program

variable {field : String} {boxed : List DeclId} {p q : Program}

section Origins

/-- A node that the first program does not have holds a value of it, or it belongs to a name. -/
theorem InBoxes.kind_cases (h : InBoxes field boxed p q) {id : ExprId} {expr : Expr}
    (hexpr : p.expr? id = some expr) : q.expr? id = some expr ∨
      ∃ decl ∈ boxed, p.Initializes decl id ∧ ∃ loc ty moved,
        q.expr? id = some ⟨loc, ty, .initList [⟨some field, moved⟩]⟩ := by
  by_cases hvalue : ∃ decl ∈ boxed, p.Initializes decl id
  . rcases hvalue with ⟨decl, hdecl, hvalue⟩
    rcases h.value decl hdecl id hvalue with ⟨expr', ty, moved, -, hwrapper, -⟩
    exact .inr ⟨decl, hdecl, hvalue, _, ty, moved, hwrapper⟩
  . left
    apply h.expr id expr hexpr
    intro decl hdecl hvalue'
    exact hvalue ⟨decl, hdecl, hvalue'⟩

theorem exists_expr?_of_reachable (hvalid : p.Valid) {id : ExprId}
    (hid : p.Reachable (.expr id)) : ∃ expr, p.expr? id = some expr :=
  exists_expr?_of_contains (hid.contains hvalid)

theorem exists_var?_of_reachable (hvalid : p.Valid) {id : VarId}
    (hid : p.Reachable (.var id)) : ∃ var, p.var? id = some var :=
  exists_var?_of_contains (hid.contains hvalid)

/--
An expression that can be reached is a constructor of a box, a base of an access, or one that could
be reached before. The last one may have a new slot.
-/
theorem InBoxes.expr_origin (h : InBoxes field boxed p q) (hvalid : p.Valid) {id : ExprId}
    (hid : q.Reachable (.expr id)) {expr : Expr} (hexpr : q.expr? id = some expr) :
    (∃ value, expr.kind = .initList [⟨some field, value⟩]) ∨
      (∃ name var, expr.kind = .var name ∧ q.var? name = some var ∧ expr.ty = var.ty) ∨
      ∃ old, p.Reachable (.expr old) ∧ p.expr? old = some expr := by
  rcases hid with ⟨around, hid⟩
  cases h.origin hvalid hid with
  | old hold =>
    rcases exists_expr?_of_reachable hvalid hold with ⟨expr', hexpr'⟩
    cases h.kind_cases hexpr' with
    | inl hkept =>
      rw [hexpr] at hkept
      cases hkept
      exact .inr (.inr ⟨id, hold, hexpr'⟩)
    | inr hwrapped =>
      rcases hwrapped with ⟨_, -, -, loc, ty, moved, hwrapper⟩
      rw [hexpr] at hwrapper
      cases hwrapper
      exact .inl ⟨moved, rfl⟩
  | value hold hexpr' hmoved =>
    rw [hexpr] at hmoved
    cases hmoved
    exact .inr (.inr ⟨_, hold, hexpr'⟩)
  | base _ _ hbase hname =>
    rw [hexpr] at hbase
    cases hbase
    exact .inr (.inl ⟨_, _, rfl, hname, rfl⟩)

/-- A variable form that can be reached could be reached before, or it is the base of an access. -/
theorem InBoxes.var_origin (h : InBoxes field boxed p q) (hvalid : p.Valid) {id : VarId}
    (hid : q.Reachable (.var id)) : p.Reachable (.var id) ∨
      ∃ decl ∈ boxed, ∃ access, p.Reachable (.var access) ∧ p.named? access = some decl ∧
        q.Accesses field access id := by
  rcases hid with ⟨around, hid⟩
  cases h.origin hvalid hid with
  | old hold => exact .inl hold
  | name haccess haccesses _ =>
    rcases haccess with ⟨around', haccess⟩
    have haccesses' := haccesses
    rcases haccesses with ⟨loc, ty, base, loc', ty', hdot, hbase⟩
    cases h.origin hvalid haccess with
    | name _ _ hname =>
      rw [hdot] at hname
      cases hname
    | old hold =>
      cases h.slot hvalid hold with
      | kept _ hchildren =>
        -- The access has been there before, with its base and the name.
        left
        apply h.reachable_name hvalid _ hbase
        apply reachable_child hold
        rw [← hchildren, children_access hdot]
        exact List.mem_singleton_self _
      | name hdecl _ hvar =>
        right
        refine ⟨_, hdecl, _, hold, ?_, haccesses'⟩
        rw [named?_of_var? hvar]
        rfl

end Origins

section Parameters

variable {order : LoopOrder} {boxes : List Box}

/-- A boxed variable is bound by the declaration that gives it its value. -/
theorem Accurate.not_param (h : Accurate field p boxes) (hscoped : p.WellScoped) {id : ExprId}
    (hid : p.Reachable (.expr id)) {loc : Span} {ty : Ty} {params : List DeclId} {body : Block}
    (hexpr : p.expr? id = some ⟨loc, ty, .lambda params body⟩) {param : DeclId}
    (hparam : param ∈ params) : ∀ b ∈ boxes, param ≠ b.decl := by
  rintro b hb rfl
  rcases hid with ⟨around, hid⟩
  rcases List.getElem?_of_mem hparam with ⟨i, hi⟩
  rcases h.initializer b hb with
    ⟨stat, loc', decls, exps, j, ⟨around', hstat⟩, hdecls, hdecl, -⟩
  have hplace := (hscoped.once _ _ _ _ _ _ _ (h.unexported b hb)
    (boundAt_of_lambda hid hexpr hi) (boundAt_of_decl hstat hdecls hdecl)).1
  cases hplace

end Parameters

section Types

variable {order : LoopOrder} {boxes : List Box}

/-- What a name of a boxed variable becomes, and the type that its variable gets. -/
structure Retyped (p q : Program) (b : Box) (id : VarId) : Prop where
  access : ∃ var base moved, p.var? id = some var ∧
    q.var? id = some ⟨var.loc, b.valueTy, .dot base b.field⟩ ∧
    q.expr? base = some ⟨var.loc, b.ty, .var moved⟩ ∧ q.var? moved = some ⟨var.loc, b.ty, var.kind⟩
  decl : ∃ d, p.decl? b.decl = some d ∧ b.valueTy = d.ty ∧
    q.decl? b.decl = some { d with ty := b.ty }

/-- The second program is the first one with variables in boxes, which have the types of boxes. -/
structure Boxed (field : String) (boxes : List Box) (p q : Program) : Prop where
  inBoxes : InBoxes field (boxes.map Box.decl) p q
  field : ∀ b ∈ boxes, b.field = field
  name : ∀ b ∈ boxes, ∀ id, p.Reachable (.var id) → p.named? id = some b.decl → Retyped p q b id
  decl : ∀ decl, (∀ b ∈ boxes, decl ≠ b.decl) → q.decl? decl = p.decl? decl
  param : ∀ id, p.Reachable (.expr id) → ∀ loc ty params body,
    p.expr? id = some ⟨loc, ty, .lambda params body⟩ → ∀ param ∈ params, ∀ b ∈ boxes,
      param ≠ b.decl

theorem Accurate.exists_decl? (h : Accurate field p boxes) {b : Box} (hb : b ∈ boxes) :
    ∃ d, p.decl? b.decl = some d ∧ b.valueTy = d.ty ∧
      (boxes.foldl (fun q b => b.apply q) p).decl? b.decl = some { d with ty := b.ty } := by
  rcases exists_decl?_of_typed h.typed h.once b hb with ⟨d, hd, hty⟩
  refine ⟨d, hd, hty, ?_⟩
  have honce := h.once
  rcases List.append_of_mem hb with ⟨before, after, rfl⟩
  apply Box.decl?_foldl_apply_of_last _ hd
  intro b' hb' heq
  rw [List.map_append, List.map_cons, List.nodup_append, List.nodup_cons] at honce
  apply honce.2.1.1
  rw [heq]
  exact List.mem_map_of_mem hb'

theorem Accurate.retyped (h : Accurate field p boxes) (hvalid : p.Valid)
    (hfit : (boxes.foldl (fun q b => b.apply q) p).Addressable) {b : Box} (hb : b ∈ boxes)
    {id : VarId} (hid : p.Reachable (.var id)) (hnamed : p.named? id = some b.decl) :
    Retyped p (boxes.foldl (fun q b => b.apply q) p) b id := by
  constructor
  . rcases exists_var?_of_reachable hvalid hid with ⟨var, hvar⟩
    rcases Box.accessed_foldl_apply hfit (Nat.le_refl _) (Nat.le_refl _) (h.fits hvalid)
      h.nodup_references hb ((h.references b hb id).mpr ⟨hid, hnamed⟩) hvar with
      ⟨base, moved, -, -, haccess, hbase, hmoved⟩
    exact ⟨var, base, moved, hvar, haccess, hbase, hmoved⟩
  . exact h.exists_decl? hb

/-- What a run leaves behind, with the types. -/
theorem boxed_run (options : Options) (hvalid : p.Valid) (hscoped : p.WellScoped)
    {boxes : Array Box} (hok : (run options p).verdict = .ok boxes)
    (hfit : (run options p).program.Addressable) :
    Boxed options.field boxes.toList p (run options p).program := by
  have hboxes := (inBoxes_run options p hvalid hscoped boxes hok hfit).1
  rcases exists_schedule options.order hvalid with ⟨all, hall⟩
  rcases play_of_run_ok hall hvalid hok with ⟨s, hplay, rfl, hprogram⟩
  have haccurate := accurate_of_play hall hscoped hplay
  have hfold : s.program = s.boxes.toList.foldl (fun q b => b.apply q) p :=
    Changes.program (Pass.changes_play hplay) rfl
  rw [hfold] at hprogram
  constructor
  . exact hboxes
  . exact haccurate.field
  . intro b hb id hid hnamed
    rw [hprogram] at hfit ⊢
    rcases haccurate.retyped hvalid hfit hb hid hnamed with ⟨haccess, hdecl⟩
    exact ⟨haccess, hdecl⟩
  . intro decl hne
    rw [hprogram]
    exact Box.decl?_foldl_apply_of_ne hne
  . intro id hid loc ty params body hexpr param hparam
    exact haccurate.not_param hscoped hid hexpr hparam

variable {same : Ty → Ty → Prop}

namespace Boxed

/-- A name that can be reached has been there before, or its variable has the type of a box. -/
theorem name_cases (h : Boxed field boxes p q) (hvalid : p.Valid) {id : VarId}
    (hid : q.Reachable (.var id)) {var : Var} (hvar : q.var? id = some var) {decl : DeclId}
    (hdecl : var.kind.decl? = some decl) :
    (p.Reachable (.var id) ∧ p.var? id = some var ∧ ∀ b ∈ boxes, decl ≠ b.decl) ∨
      ∃ b ∈ boxes, b.decl = decl ∧ var.ty = b.ty ∧ ∃ d, q.decl? decl = some d ∧ d.ty = b.ty := by
  have hnamed : q.named? id = some decl := by rw [named?_of_var? hvar, hdecl]
  cases h.inBoxes.var_origin hvalid hid with
  | inl hold =>
    left
    have hne : ∀ b ∈ boxes, decl ≠ b.decl := by
      rintro b hb rfl
      exact h.inBoxes.named?_ne hvalid hold (List.mem_map_of_mem hb) hnamed
    rcases exists_var?_of_reachable hvalid hold with ⟨old, hvar'⟩
    have hkept : q.var? id = some old := by
      apply h.inBoxes.var id old hvar'
      intro decl' hdecl' hnamed'
      rw [List.mem_map] at hdecl'
      rcases hdecl' with ⟨b, hb, rfl⟩
      rcases (h.name b hb id hold hnamed').access with ⟨_, base, _, -, haccess, -⟩
      rw [hvar] at haccess
      cases haccess
      cases hdecl
    rw [hvar] at hkept
    cases hkept
    exact ⟨hold, hvar', hne⟩
  | inr hmoved =>
    right
    rcases hmoved with ⟨decl', hdecl', access, haccess, hnamed', _, _, base, _, _, hdot, hbase⟩
    rw [List.mem_map] at hdecl'
    rcases hdecl' with ⟨b, hb, rfl⟩
    rcases h.name b hb access haccess hnamed' with
      ⟨⟨old, base', moved, hvar', haccess', hbase', hmoved⟩, d, -, -, hd⟩
    rw [hdot] at haccess'
    cases haccess'
    rw [hbase] at hbase'
    cases hbase'
    rw [hvar] at hmoved
    cases hmoved
    rw [named?_of_var? hvar', hdecl] at hnamed'
    cases hnamed'
    exact ⟨b, hb, rfl, rfl, _, hd, rfl⟩

/-- An access that has not been there before belongs to a box. -/
theorem introduced (h : Boxed field boxes p q) (hvalid : p.Valid) {id : VarId}
    (hid : q.Reachable (.var id)) {loc : Span} {ty : Ty} {base : ExprId} {name : String}
    (haccess : q.var? id = some ⟨loc, ty, .dot base name⟩)
    (hnew : p.var? id ≠ some ⟨loc, ty, .dot base name⟩) :
    name = field ∧ ∃ expr, q.expr? base = some expr ∧ expr.ty.isBox = true ∧
      expr.ty.fieldType? field = some ty := by
  cases h.inBoxes.var_origin hvalid hid with
  | inl hold =>
    rcases exists_var?_of_reachable hvalid hold with ⟨old, hvar⟩
    by_cases hname : ∃ b ∈ boxes, p.named? id = some b.decl
    . rcases hname with ⟨b, hb, hnamed⟩
      rcases (h.name b hb id hold hnamed).access with ⟨_, base', _, -, haccess', hbase, -⟩
      rw [haccess] at haccess'
      cases haccess'
      rw [← h.field b hb]
      exact ⟨rfl, _, hbase, Ty.isBox_box _ _ _, Ty.fieldType?_box _ _ _⟩
    . exfalso
      apply hnew
      rw [hvar, ← haccess]
      symm
      apply h.inBoxes.var id old hvar
      intro decl hdecl hnamed
      rw [List.mem_map] at hdecl
      rcases hdecl with ⟨b, hb, rfl⟩
      exact hname ⟨b, hb, hnamed⟩
  | inr hmoved =>
    rcases hmoved with ⟨decl, hdecl, access, haccess', hnamed, _, _, base', _, _, hdot, hbase⟩
    rw [List.mem_map] at hdecl
    rcases hdecl with ⟨b, hb, rfl⟩
    rcases (h.name b hb access haccess' hnamed).access with
      ⟨var, base'', moved, hvar, haccess'', hbase', hmoved⟩
    rw [hdot] at haccess''
    cases haccess''
    rw [hbase] at hbase'
    cases hbase'
    rw [haccess] at hmoved
    injection hmoved with hmoved
    rw [named?_of_var? hvar] at hnamed
    cases var
    cases hmoved
    cases hnamed

theorem coherent_name (h : Boxed field boxes p q) (hvalid : p.Valid) (hsame : Equivalence same)
    (hcoherent : p.Coherent same) {id : VarId} (hid : q.Reachable (.var id)) {var : Var}
    (hvar : q.var? id = some var) {decl : DeclId} (hdecl : var.kind.decl? = some decl) {d : Decl}
    (hd : q.decl? decl = some d) : same var.ty d.ty := by
  cases h.name_cases hvalid hid hvar hdecl with
  | inl hold =>
    rcases hold with ⟨hold, hvar', hne⟩
    rw [h.decl decl hne] at hd
    exact hcoherent.name id var decl d hold hvar' hdecl hd
  | inr hbox =>
    rcases hbox with ⟨b, -, -, hty, d', hd', hty'⟩
    rw [hd] at hd'
    cases hd'
    rw [hty, hty']
    exact hsame.refl _

theorem coherent_var (h : Boxed field boxes p q) (hvalid : p.Valid) (hsame : Equivalence same)
    (hcoherent : p.Coherent same) {id : ExprId} (hid : q.Reachable (.expr id)) {loc : Span}
    {ty : Ty} {name : VarId} (hexpr : q.expr? id = some ⟨loc, ty, .var name⟩) {var : Var}
    (hvar : q.var? name = some var) : same ty var.ty := by
  rcases h.inBoxes.expr_origin hvalid hid hexpr with
    ⟨_, hkind⟩ | ⟨name', var', hkind, hvar', hty⟩ | ⟨old, hold, hexpr'⟩
  . cases hkind
  . cases hkind
    rw [hvar] at hvar'
    cases hvar'
    rw [← hty]
    exact hsame.refl _
  . have hname : p.Reachable (.var name) := by
      apply reachable_child hold
      rw [children_base hexpr']
      exact List.mem_singleton_self _
    rcases exists_var?_of_reachable hvalid hname with ⟨var', hvar'⟩
    have hsame' := hcoherent.var old loc ty name var' hold hexpr' hvar'
    by_cases hnamed : ∃ b ∈ boxes, p.named? name = some b.decl
    . -- The access has the type of the declaration, which is the one of the name.
      rcases hnamed with ⟨b, hb, hnamed⟩
      rcases h.name b hb name hname hnamed with ⟨⟨_, _, _, -, haccess, -⟩, d, hd, hty, -⟩
      rw [hvar] at haccess
      cases haccess
      rw [named?_of_var? hvar'] at hnamed
      rw [hty]
      exact hsame.trans hsame' (hcoherent.name name var' b.decl d hname hvar' hnamed hd)
    . have hkept : q.var? name = some var' := by
        apply h.inBoxes.var name var' hvar'
        intro decl hdecl hnamed'
        rw [List.mem_map] at hdecl
        rcases hdecl with ⟨b, hb, rfl⟩
        exact hnamed ⟨b, hb, hnamed'⟩
      rw [hvar] at hkept
      cases hkept
      exact hsame'

theorem coherent_paren (h : Boxed field boxes p q) (hvalid : p.Valid)
    (hcoherent : p.Coherent same) {id : ExprId} (hid : q.Reachable (.expr id)) {loc : Span}
    {ty : Ty} {inner : ExprId} (hexpr : q.expr? id = some ⟨loc, ty, .paren inner⟩) {expr : Expr}
    (hinner : q.expr? inner = some expr) : same ty expr.ty := by
  rcases h.inBoxes.expr_origin hvalid hid hexpr with
    ⟨_, hkind⟩ | ⟨_, _, hkind, -⟩ | ⟨old, hold, hexpr'⟩
  . cases hkind
  . cases hkind
  . have hchild : (p.children (.expr old))[0]? = some (.expr inner) := by
      rw [children_of_expr? hexpr']
      rfl
    have hreachable := reachable_child hold (List.mem_of_getElem? hchild)
    rcases exists_expr?_of_reachable hvalid hreachable with ⟨expr', hexpr''⟩
    cases h.inBoxes.kind_cases hexpr'' with
    | inl hkept =>
      rw [hinner] at hkept
      cases hkept
      exact hcoherent.paren old loc ty inner expr hold hexpr' hexpr''
    | inr hwrapped =>
      -- An initializer stands in a declaration and not in parentheses.
      rcases hwrapped with ⟨decl, -, ⟨stat, _, decls, exps, i, hstat, hdecls, -, hvalue⟩, -⟩
      have hchild' : (p.children (.stat stat))[i]? = some (.expr inner) := by
        rw [children_decl hdecls, List.getElem?_map, hvalue, Option.map_some]
      cases (hvalid.owner_unique hold hstat hchild hchild').1

theorem coherent_lambda (h : Boxed field boxes p q) (hvalid : p.Valid)
    (hcoherent : p.Coherent same) {id : ExprId} (hid : q.Reachable (.expr id)) {loc : Span}
    {ty : Ty} {params : List DeclId} {body : Block}
    (hexpr : q.expr? id = some ⟨loc, ty, .lambda params body⟩) : ∃ tys returns,
      ty = .function tys returns ∧
        List.Forall₂ (fun ty param => ∃ d, q.decl? param = some d ∧ same ty d.ty) tys params := by
  rcases h.inBoxes.expr_origin hvalid hid hexpr with
    ⟨_, hkind⟩ | ⟨_, _, hkind, -⟩ | ⟨old, hold, hexpr'⟩
  . cases hkind
  . cases hkind
  . rcases hcoherent.lambda old loc ty params body hold hexpr' with ⟨tys, returns, hty, hparams⟩
    refine ⟨tys, returns, hty, ?_⟩
    have hkept : ∀ param ∈ params, q.decl? param = p.decl? param := by
      intro param hparam
      exact h.decl param (h.param old hold loc ty params body hexpr' param hparam)
    clear hexpr hexpr' hty
    induction hparams with
    | nil => exact .nil
    | cons hparam _ ih =>
      rw [List.forall_mem_cons] at hkept
      rw [← hkept.1] at hparam
      exact .cons hparam (ih hkept.2)

end Boxed

/--
Boxing keeps the types in order. If the types of the nodes of a program with scopes agree, they
agree when its variables are boxed. Every access that is new has a base whose type is a box with the
field of the access, and this field has the type of the access. All expressions but the values that
are put in boxes keep their types.
-/
theorem coherent_run (options : Options) (p : Program) (hvalid : p.Valid)
    (hscoped : p.WellScoped) (boxes : Array Box) (hok : (run options p).verdict = .ok boxes)
    (hfit : (run options p).program.Addressable) (same : Ty → Ty → Prop)
    (hsame : Equivalence same) (hcoherent : p.Coherent same) :
    (run options p).program.Coherent same ∧
    (∀ id loc ty base name, (run options p).program.Reachable (.var id) →
      (run options p).program.var? id = some ⟨loc, ty, .dot base name⟩ →
        p.var? id ≠ some ⟨loc, ty, .dot base name⟩ →
          name = options.field ∧ ∃ expr, (run options p).program.expr? base = some expr ∧
            expr.ty.isBox = true ∧ expr.ty.fieldType? options.field = some ty) ∧
    ∀ id expr, p.Reachable (.expr id) → p.expr? id = some expr →
      (∀ b ∈ boxes, id ≠ b.initializer) →
        ∃ expr', (run options p).program.expr? id = some expr' ∧ expr'.ty = expr.ty := by
  have hboxed := boxed_run options hvalid hscoped hok hfit
  refine ⟨⟨?_, ?_, ?_, ?_⟩, ?_, ?_⟩
  . intro id var decl d hid hvar hdecl hd
    exact hboxed.coherent_name hvalid hsame hcoherent hid hvar hdecl hd
  . intro id loc ty name var hid hexpr hvar
    exact hboxed.coherent_var hvalid hsame hcoherent hid hexpr hvar
  . intro id loc ty inner expr hid hexpr hinner
    exact hboxed.coherent_paren hvalid hcoherent hid hexpr hinner
  . intro id loc ty params body hid hexpr
    exact hboxed.coherent_lambda hvalid hcoherent hid hexpr
  . intro id loc ty base name hid haccess hnew
    exact hboxed.introduced hvalid hid haccess hnew
  . intro id expr _ hexpr hne
    refine ⟨expr, ?_, rfl⟩
    rcases exists_schedule options.order hvalid with ⟨all, hall⟩
    rcases play_of_run_ok hall hvalid hok with ⟨s, hplay, rfl, hprogram⟩
    have hfold : s.program = s.boxes.toList.foldl (fun q b => b.apply q) p :=
      Changes.program (Pass.changes_play hplay) rfl
    rw [hprogram]
    change s.program.expr? id = some expr
    rw [hfold]
    apply Box.expr?_foldl_apply _ hexpr
    intro b hb
    exact hne b (Array.mem_toList_iff.mp hb)

/-- The function `counter` with the types that its function literals have. -/
def typedCounter : Program :=
  { counter with
    exprs := #[⟨.dummy, .function [] [.any], .lambda [] ⟨[⟨1⟩, ⟨2⟩, ⟨4⟩]⟩⟩,
      ⟨.dummy, .integer, .integer 10⟩,
      ⟨.dummy, .function [.integer] [], .lambda [⟨3⟩] ⟨[⟨3⟩]⟩⟩, ⟨.dummy, .integer, .var ⟨1⟩⟩,
      ⟨.dummy, .function [] [.integer], .lambda [] ⟨[⟨5⟩]⟩⟩, ⟨.dummy, .integer, .var ⟨2⟩⟩] }

theorem wellScoped_typedCounter : typedCounter.WellScoped :=
  @wellScoped_of_nodes typedCounter counterNodes (by decide) (by decide) (by decide) (by decide)

theorem coherent_typedCounter :
    typedCounter.Coherent fun ty ty' => ty.same ty' = true := by
  have hexprs {id : ExprId} (hid : typedCounter.Reachable (.expr id)) :
      id = ⟨0⟩ ∨ id = ⟨1⟩ ∨ id = ⟨2⟩ ∨ id = ⟨3⟩ ∨ id = ⟨4⟩ ∨ id = ⟨5⟩ := by
    rcases hid with ⟨around, hid⟩
    have hmem : (around, Node.expr id) ∈ counterNodes :=
      hid.mem_of_closed (by decide) (by decide)
    simp [counterNodes] at hmem
    tauto
  have hvars {id : VarId} (hid : typedCounter.Reachable (.var id)) :
      id = ⟨0⟩ ∨ id = ⟨1⟩ ∨ id = ⟨2⟩ := by
    rcases hid with ⟨around, hid⟩
    have hmem : (around, Node.var id) ∈ counterNodes :=
      hid.mem_of_closed (by decide) (by decide)
    simp [counterNodes] at hmem
    tauto
  constructor
  . intro id var decl d hid hvar hdecl hd
    rcases hvars hid with rfl | rfl | rfl <;> cases hvar <;> cases hdecl <;> cases hd <;> rfl
  . intro id loc ty name var hid hexpr hvar
    rcases hexprs hid with rfl | rfl | rfl | rfl | rfl | rfl <;> cases hexpr <;> cases hvar <;> rfl
  . intro id loc ty inner expr hid hexpr
    rcases hexprs hid with rfl | rfl | rfl | rfl | rfl | rfl <;> cases hexpr
  . intro id loc ty params body hid hexpr
    rcases hexprs hid with rfl | rfl | rfl | rfl | rfl | rfl <;> cases hexpr
    . exact ⟨[], _, rfl, .nil⟩
    . exact ⟨[.integer], _, rfl, .cons ⟨_, rfl, rfl⟩ .nil⟩
    . exact ⟨[], _, rfl, .nil⟩

/-- When `x` is boxed, its names have the type of its box and the types are still in order. -/
theorem coherent_run_typedCounter :
    typedCounter.Valid ∧ typedCounter.WellScoped ∧
      (run default typedCounter).program.Addressable ∧
      ∃ boxes, (run default typedCounter).verdict = .ok boxes ∧
        boxes.toList.map Box.decl = [⟨1⟩] ∧
        (run default typedCounter).program.Coherent fun ty ty' => ty.same ty' = true := by
  have hvalid : typedCounter.Valid := by decide +kernel
  have hfit : (run default typedCounter).program.Addressable := by decide +kernel
  have hboxes : (run default typedCounter).verdict.toOption.map (·.toList.map Box.decl) =
      some [⟨1⟩] := by decide +kernel
  cases hok : (run default typedCounter).verdict with
  | error stop =>
    rw [hok] at hboxes
    cases hboxes
  | ok boxes =>
    rw [hok] at hboxes
    injection hboxes with hdecls
    refine ⟨hvalid, wellScoped_typedCounter, hfit, boxes, rfl, hdecls, ?_⟩
    exact (coherent_run default typedCounter hvalid wellScoped_typedCounter boxes hok hfit _
      Ty.equivalence_same coherent_typedCounter).1

end Types

end Boxing

end Upvalue

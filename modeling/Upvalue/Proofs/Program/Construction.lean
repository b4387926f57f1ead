import Upvalue.Program.Builder
import Upvalue.Proofs.Program.Growth

/-!
This module contains constructions of programs, call by call. If every call is given handles that
earlier calls have returned, and no node is passed twice, then no call fails, the nodes of the
program form a tree and its types agree.
-/

namespace Upvalue

namespace Builder

open Program

/-- A call of a construction with its arguments. -/
inductive Call where
  | file (path : String)
  | setLoc (loc : Span)
  | decl (name : String) (ty : Ty)
  | annotatedDecl (name : String) (written : TypeExpr) (ty : Ty)
  | exportedDecl (name : String) (ty : Ty)
  | nameVar (id : DeclId)
  | builtinVar (name : String) (ty : Ty)
  | dotVar (exp : ExprId) (field : String) (ty : Ty)
  | bracketVar (table key : ExprId) (ty : Ty)
  | nil
  | boolean (value : Bool)
  | integer (value : Int64)
  | float (value : Binary64)
  | string (value : String)
  | varExpr (id : VarId)
  | name (id : DeclId)
  | initList (fields : List InitField) (ty : Ty)
  | lambda (params : List DeclId) (body : List StatId) (returns : List Ty)
  | call (callee : ExprId) (args : List ExprId) (ty : Ty)
  | methodCall (receiver : ExprId) (method : String) (args : List ExprId) (ty : Ty)
  | unop (op : UnaryOp) (exp : ExprId) (ty : Ty)
  | binop (lhs : ExprId) (op : BinaryOp) (rhs : ExprId) (ty : Ty)
  | cast (exp : ExprId) (target : Option TypeExpr) (ty : Ty)
  | toFloat (exp : ExprId)
  | paren (exp : ExprId)
  | declare (decls : List DeclId) (exps : List ExprId)
  | assign (vars : List VarId) (exps : List ExprId)
  | functions (funcs : List (DeclId × ExprId))
  | ret (exps : List ExprId)
  | block (stats : List StatId)
  | whileLoop (condition : ExprId) (body : List StatId)
  | repeatLoop (body : List StatId) (condition : ExprId)
  | branch (condition : ExprId) (thenBody : List StatId) (elseBody : Option (List StatId))
  | forNum (decl : DeclId) (start limit : ExprId) (step : Option ExprId) (body : List StatId)
  | forIn (decls : List DeclId) (exps : List ExprId) (body : List StatId)
  | callStat (call : ExprId)
  | breakLoop
  | statsItem (stats : List StatId)
  | functionsItem (funcs : List (DeclId × ExprId))
  | record (name : String) (fields : List (String × Ty))
  | typealias (name : String) (written : TypeExpr) (ty : Ty)

namespace Call

/-- Make a call. Returns the handle that it returns, if it returns one. -/
def perform : Call → Build (List Ref)
  | .file path => do
    let _ ← Builder.file path
    return []
  | .setLoc loc => do
    Builder.setLoc loc
    return []
  | .decl text ty => return [.decl (← Builder.decl text ty)]
  | .annotatedDecl text written ty => return [.decl (← Builder.annotatedDecl text written ty)]
  | .exportedDecl text ty => return [.decl (← Builder.exportedDecl text ty)]
  | .nameVar id => return [.var (← Builder.nameVar id)]
  | .builtinVar text ty => return [.var (← Builder.builtinVar text ty)]
  | .dotVar exp field ty => return [.var (← Builder.dotVar exp field ty)]
  | .bracketVar table key ty => return [.var (← Builder.bracketVar table key ty)]
  | .nil => return [.expr (← Builder.nil)]
  | .boolean value => return [.expr (← Builder.boolean value)]
  | .integer value => return [.expr (← Builder.integer value)]
  | .float value => return [.expr (← Builder.float value)]
  | .string value => return [.expr (← Builder.string value)]
  | .varExpr id => return [.expr (← Builder.varExpr id)]
  | .name id => return [.expr (← Builder.name id)]
  | .initList fields ty => return [.expr (← Builder.initList fields ty)]
  | .lambda params body returns => return [.expr (← Builder.lambda params body returns)]
  | .call callee args ty => return [.expr (← Builder.call callee args ty)]
  | .methodCall receiver method args ty =>
    return [.expr (← Builder.methodCall receiver method args ty)]
  | .unop op exp ty => return [.expr (← Builder.unop op exp ty)]
  | .binop lhs op rhs ty => return [.expr (← Builder.binop lhs op rhs ty)]
  | .cast exp target ty => return [.expr (← Builder.cast exp target ty)]
  | .toFloat exp => return [.expr (← Builder.toFloat exp)]
  | .paren exp => return [.expr (← Builder.paren exp)]
  | .declare decls exps => return [.stat (← Builder.declare decls exps)]
  | .assign vars exps => return [.stat (← Builder.assign vars exps)]
  | .functions funcs => return [.stat (← Builder.functions funcs)]
  | .ret exps => return [.stat (← Builder.ret exps)]
  | .block stats => return [.stat (← Builder.block stats)]
  | .whileLoop condition body => return [.stat (← Builder.whileLoop condition body)]
  | .repeatLoop body condition => return [.stat (← Builder.repeatLoop body condition)]
  | .branch condition thenBody elseBody =>
    return [.stat (← Builder.branch condition thenBody elseBody)]
  | .forNum id start limit step body =>
    return [.stat (← Builder.forNum id start limit step body)]
  | .forIn decls exps body => return [.stat (← Builder.forIn decls exps body)]
  | .callStat exp => return [.stat (← Builder.callStat exp)]
  | .breakLoop => return [.stat (← Builder.breakLoop)]
  | .statsItem stats => do
    Builder.statsItem stats
    return []
  | .functionsItem funcs => do
    Builder.functionsItem funcs
    return []
  | .record text fields => do
    let _ ← Builder.record text fields
    return []
  | .typealias text written ty => do
    Builder.typealias text written ty
    return []

/-- The handles of the names and the values of some functions. -/
def funcRefs (funcs : List (DeclId × ExprId)) : List Ref :=
  funcs.flatMap fun (id, value) => [.decl id, .expr value]

/-- The handles among the arguments of a call. -/
def given : Call → List Ref
  | .nameVar id | .name id => [.decl id]
  | .dotVar exp _ _ => [.expr exp]
  | .bracketVar table key _ => [.expr table, .expr key]
  | .varExpr id => [.var id]
  | .initList fields _ => fields.map fun field => .expr field.exp
  | .lambda params body _ => params.map .decl ++ body.map .stat
  | .call callee args _ => .expr callee :: args.map .expr
  | .methodCall receiver _ args _ => .expr receiver :: args.map .expr
  | .unop _ exp _ | .cast exp _ _ | .toFloat exp | .paren exp => [.expr exp]
  | .binop lhs _ rhs _ => [.expr lhs, .expr rhs]
  | .declare decls exps => decls.map .decl ++ exps.map .expr
  | .assign vars exps => vars.map .var ++ exps.map .expr
  | .functions funcs | .functionsItem funcs => funcRefs funcs
  | .ret exps => exps.map .expr
  | .block stats | .statsItem stats => stats.map .stat
  | .whileLoop condition body | .repeatLoop body condition => .expr condition :: body.map .stat
  | .branch condition thenBody elseBody =>
    .expr condition :: (thenBody.map .stat ++ elseBody.toList.flatMap fun body => body.map .stat)
  | .forNum id start limit step body =>
    .decl id :: .expr start :: .expr limit :: (step.toList.map .expr ++ body.map .stat)
  | .forIn decls exps body => decls.map .decl ++ exps.map .expr ++ body.map .stat
  | .callStat exp => [.expr exp]
  | _ => []

/--
The handles that a call makes other nodes store. The name that `name` makes belongs to the
expression that it returns.
-/
def stored (b : Builder) : Call → List Ref
  | .name id => [.decl id] ++ [.var b.program.nextVar]
  | c => c.given

/-- The nodes that a call passes on. -/
def passed (b : Builder) (c : Call) : List Node :=
  (c.stored b).filterMap Ref.node?

end Call

/-- The handles that calls have returned, and the nodes that they have passed on. -/
structure Ledger where
  returned : List Ref
  passed : List Node
deriving DecidableEq, Repr

namespace Ledger

def empty : Ledger := ⟨[], []⟩

/-- Make a call and write down its handles. -/
def call (ledger : Ledger) (c : Call) : Build Ledger := fun b =>
  match c.perform b with
  | .ok refs b' => .ok ⟨ledger.returned ++ refs, ledger.passed ++ c.passed b⟩ b'
  | .error ref b' => .error ref b'

/-- Make calls, one after the other. -/
def calls : Ledger → List Call → Build Ledger
  | ledger, [] => fun b => .ok ledger b
  | ledger, c :: cs => fun b =>
    match ledger.call c b with
    | .ok ledger' b' => ledger'.calls cs b'
    | .error ref b' => .error ref b'

/-- Every call is given handles that have been returned, and passes no node for a second time. -/
def Disciplined : Ledger → Builder → List Call → Prop
  | _, _, [] => True
  | ledger, b, c :: cs =>
    (∀ ref ∈ c.given, ref ∈ ledger.returned) ∧ (ledger.passed ++ c.passed b).Nodup ∧
      match ledger.call c b with
      | .ok ledger' b' => ledger'.Disciplined b' cs
      | .error _ _ => True

def decidableDisciplined : (ledger : Ledger) → (b : Builder) → (cs : List Call) →
    Decidable (ledger.Disciplined b cs)
  | _, _, [] => .isTrue trivial
  | ledger, b, c :: cs =>
    have : Decidable (match ledger.call c b with
        | .ok ledger' b' => ledger'.Disciplined b' cs
        | .error _ _ => True) :=
      match ledger.call c b with
      | .ok ledger' b' => ledger'.decidableDisciplined b' cs
      | .error _ _ => .isTrue trivial
    inferInstanceAs (Decidable (_ ∧ _ ∧ _))

instance (ledger : Ledger) (b : Builder) (cs : List Call) :
    Decidable (ledger.Disciplined b cs) :=
  ledger.decidableDisciplined b cs

end Ledger

/-! ### What a call does -/

/-- A program grows once, or twice where the second part may store what the first one returns. -/
inductive Advance (p : Program) : List Ref → List Ref → Program → Prop where
  | once {q : Program} {given returned : List Ref} (h : Grows p q given returned) :
      Advance p given returned q
  | twice {q r : Program} {given given' returned returned' : List Ref}
      (h : Grows p q given returned) (h' : Grows q r given' returned') :
      Advance p (given ++ given') returned' r

section Calls

variable {b : Builder}

theorem bind_of_ok {α β : Type} {m : Build α} {f : α → Build β} {b' : Builder} {a : α}
    (h : m b = .ok a b') : (m >>= f) b = f a b' := by
  change EStateM.bind m f b = _
  unfold EStateM.bind
  rw [h]

theorem getDecl_of_some {id : DeclId} {d : Decl} (h : b.program.decl? id = some d) :
    getDecl id b = .ok d b := by
  unfold getDecl
  rw [h]

theorem exists_decl?_of_contains {id : DeclId} (h : b.program.contains (.decl id) = true) :
    ∃ d, b.program.decl? id = some d :=
  ⟨_, Array.getElem?_eq_getElem (of_decide_eq_true h)⟩

theorem exists_mapM_getDecl {ids : List DeclId}
    (h : ∀ id ∈ ids, b.program.contains (.decl id) = true) :
    ∃ ds, ids.mapM getDecl b = .ok ds b ∧
      List.Forall₂ (fun d id => b.program.decl? id = some d) ds ids := by
  induction ids with
  | nil => exact ⟨[], rfl, .nil⟩
  | cons id ids ih =>
    rw [List.forall_mem_cons] at h
    rcases exists_decl?_of_contains h.1 with ⟨d, hd⟩
    rcases ih h.2 with ⟨ds, hds, hall⟩
    refine ⟨d :: ds, ?_, .cons hd hall⟩
    rw [List.mapM_cons, bind_of_ok (getDecl_of_some hd), bind_of_ok hds]
    rfl

theorem nameVar_of_some {id : DeclId} {d : Decl} (h : b.program.decl? id = some d) :
    nameVar id b = addVar (.name d.name (.variable id)) d.ty b :=
  bind_of_ok (getDecl_of_some h)

theorem varExpr_of_some {id : VarId} {var : Var} (h : b.program.var? id = some var) :
    varExpr id b = addExpr (.var id) var.ty b := by
  unfold varExpr
  rw [h]

theorem paren_of_some {id : ExprId} {expr : Expr} (h : b.program.expr? id = some expr) :
    paren id b = addExpr (.paren id) expr.ty b := by
  unfold paren
  rw [h]

theorem flatMap_refs_funcDefs (loc : Span) (funcs : List (DeclId × ExprId)) :
    (funcDefs loc funcs).flatMap FuncDef.refs = Call.funcRefs funcs :=
  List.flatMap_map ..

theorem contains_funcDefs {funcs : List (DeclId × ExprId)}
    (h : ∀ ref ∈ Call.funcRefs funcs, b.program.contains ref = true) (loc : Span) :
    ∀ ref ∈ (funcDefs loc funcs).flatMap FuncDef.refs, b.program.contains ref = true := by
  rwa [flatMap_refs_funcDefs]

/-- The variable that a name is made for has the type of the name. -/
theorem varTyped_name {p : Program} {id : DeclId} {d : Decl} (h : p.decl? id = some d)
    (loc : Span) (text : String) : p.VarTyped ⟨loc, d.ty, .name text (.variable id)⟩ := by
  intro decl hdecl
  cases hdecl
  exact ⟨d, h, rfl⟩

theorem exprTyped_lambda {p : Program} {params : List DeclId} {ds : List Decl}
    (h : List.Forall₂ (fun d id => p.decl? id = some d) ds params) (loc : Span) (body : Block)
    (returns : List Ty) :
    p.ExprTyped ⟨loc, .function (ds.map Decl.ty) returns, .lambda params body⟩ := by
  refine ⟨ds.map Decl.ty, returns, rfl, ?_⟩
  rw [List.forall₂_map_left_iff]
  apply h.imp
  intro d id hd
  exact ⟨d, hd, rfl⟩

/-- A declaration that has just been made is found. -/
theorem exists_made (text : String) (ty : Ty) (b : Builder) :
    ∃ made, (b.program.addDecl ⟨text, none, b.loc, ty, false⟩).decl? b.program.nextDecl =
      some made := by
  apply @exists_decl?_of_contains ⟨b.program.addDecl ⟨text, none, b.loc, ty, false⟩, b.loc⟩
  rw [contains_addDecl]
  exact .inr (List.mem_singleton_self _)

theorem Call.exists_advance (c : Call) (h : ∀ ref ∈ c.given, b.program.contains ref = true) :
    ∃ refs b', c.perform b = .ok refs b' ∧
      Advance b.program (c.stored b) refs b'.program := by
  cases c with
  | file path => exact ⟨_, _, rfl, .once (.keep _)⟩
  | setLoc loc => exact ⟨_, _, rfl, .once (.keep _)⟩
  | decl name ty => exact ⟨_, _, rfl, .once (.addDecl _)⟩
  | annotatedDecl text written ty =>
    rcases exists_made text ty b with ⟨made, hmade⟩
    refine ⟨_, _, bind_of_ok (bind_of_ok (getDecl_of_some hmade)), ?_⟩
    exact .twice (.addDecl _) (.setDecl hmade rfl)
  | exportedDecl text ty =>
    rcases exists_made text ty b with ⟨made, hmade⟩
    refine ⟨_, _, bind_of_ok (bind_of_ok (getDecl_of_some hmade)), ?_⟩
    exact .twice (.addDecl _) (.setDecl hmade rfl)
  | nameVar id =>
    rcases exists_decl?_of_contains (h _ List.mem_cons_self) with ⟨d, hd⟩
    refine ⟨_, _, bind_of_ok (nameVar_of_some hd), .once (.addVar h ?_)⟩
    exact varTyped_name hd _ _
  | builtinVar name ty => exact ⟨_, _, rfl, .once (.addVar h nofun)⟩
  | dotVar exp field ty => exact ⟨_, _, rfl, .once (.addVar h nofun)⟩
  | bracketVar table key ty => exact ⟨_, _, rfl, .once (.addVar h nofun)⟩
  | nil => exact ⟨_, _, rfl, .once (.addExpr h trivial)⟩
  | boolean value => exact ⟨_, _, rfl, .once (.addExpr h trivial)⟩
  | integer value => exact ⟨_, _, rfl, .once (.addExpr h trivial)⟩
  | float value => exact ⟨_, _, rfl, .once (.addExpr h trivial)⟩
  | string value => exact ⟨_, _, rfl, .once (.addExpr h trivial)⟩
  | varExpr id =>
    rcases exists_var?_of_contains (h _ List.mem_cons_self) with ⟨var, hvar⟩
    exact ⟨_, _, bind_of_ok (varExpr_of_some hvar), .once (.addExpr h ⟨var, hvar, rfl⟩)⟩
  | name id =>
    rcases exists_decl?_of_contains (h _ List.mem_cons_self) with ⟨d, hd⟩
    let var : Var := ⟨b.loc, d.ty, .name d.name (.variable id)⟩
    have hnext : (b.program.addVar var).contains (.var b.program.nextVar) = true := by
      rw [contains_addVar]
      exact .inr (List.mem_singleton_self _)
    rcases exists_var?_of_contains hnext with ⟨named, hnamed⟩
    have hname : Builder.name id b = addExpr (.var b.program.nextVar) named.ty
        ⟨b.program.addVar var, b.loc⟩ :=
      (bind_of_ok (nameVar_of_some hd)).trans (varExpr_of_some hnamed)
    have hvar : ∀ ref ∈ (ExprKind.var b.program.nextVar).refs,
        (b.program.addVar var).contains ref = true := by
      simpa [ExprKind.refs] using hnext
    have hgrows : Grows b.program (b.program.addVar var) [.decl id] [.var b.program.nextVar] :=
      .addVar h (varTyped_name hd _ _)
    exact ⟨_, _, bind_of_ok hname, .twice hgrows (.addExpr hvar ⟨named, hnamed, rfl⟩)⟩
  | initList fields ty => exact ⟨_, _, rfl, .once (.addExpr h trivial)⟩
  | lambda params body returns =>
    have hparams : ∀ id ∈ params, b.program.contains (.decl id) = true := by
      intro id hid
      apply h
      exact List.mem_append_left _ (List.mem_map_of_mem hid)
    rcases exists_mapM_getDecl hparams with ⟨ds, hds, hall⟩
    refine ⟨_, _, bind_of_ok (bind_of_ok hds), .once (.addExpr h ?_)⟩
    exact exprTyped_lambda hall _ _ _
  | call callee args ty => exact ⟨_, _, rfl, .once (.addExpr h trivial)⟩
  | methodCall receiver method args ty => exact ⟨_, _, rfl, .once (.addExpr h trivial)⟩
  | unop op exp ty => exact ⟨_, _, rfl, .once (.addExpr h trivial)⟩
  | binop lhs op rhs ty => exact ⟨_, _, rfl, .once (.addExpr h trivial)⟩
  | cast exp target ty => exact ⟨_, _, rfl, .once (.addExpr h trivial)⟩
  | toFloat exp => exact ⟨_, _, rfl, .once (.addExpr h trivial)⟩
  | paren exp =>
    rcases exists_expr?_of_contains (h _ List.mem_cons_self) with ⟨expr, hexpr⟩
    exact ⟨_, _, bind_of_ok (paren_of_some hexpr), .once (.addExpr h ⟨expr, hexpr, rfl⟩)⟩
  | declare decls exps => exact ⟨_, _, rfl, .once (.addStat h)⟩
  | assign vars exps => exact ⟨_, _, rfl, .once (.addStat h)⟩
  | functions funcs =>
    refine ⟨_, _, rfl, .once ?_⟩
    change Grows _ _ (Call.funcRefs funcs) _
    rw [← flatMap_refs_funcDefs b.loc]
    exact .addStat (contains_funcDefs h b.loc)
  | ret exps => exact ⟨_, _, rfl, .once (.addStat h)⟩
  | block stats => exact ⟨_, _, rfl, .once (.addStat h)⟩
  | whileLoop condition body => exact ⟨_, _, rfl, .once (.addStat h)⟩
  | repeatLoop body condition => exact ⟨_, _, rfl, .once (.addStat h)⟩
  | branch condition thenBody elseBody =>
    cases elseBody with
    | none => exact ⟨_, _, rfl, .once (.addStat h)⟩
    | some body => exact ⟨_, _, rfl, .once (.addStat h)⟩
  | forNum decl start limit step body => exact ⟨_, _, rfl, .once (.addStat h)⟩
  | forIn decls exps body => exact ⟨_, _, rfl, .once (.addStat h)⟩
  | callStat call => exact ⟨_, _, rfl, .once (.addStat h)⟩
  | breakLoop => exact ⟨_, _, rfl, .once (.addStat h)⟩
  | statsItem stats => exact ⟨_, _, rfl, .once (.addItem h)⟩
  | functionsItem funcs =>
    refine ⟨_, _, rfl, .once ?_⟩
    change Grows _ _ (Call.funcRefs funcs) _
    rw [← flatMap_refs_funcDefs b.loc]
    exact .addItem (contains_funcDefs h b.loc)
  | record name fields => exact ⟨_, _, rfl, .once (.addItem h)⟩
  | typealias name written ty => exact ⟨_, _, rfl, .once (.addItem h)⟩

end Calls

/-! ### What calls keep -/

section Advance

variable {p q : Program} {given returned : List Ref} {passed : List Node}

theorem Advance.contains (h : Advance p given returned q) {ref : Ref}
    (href : p.contains ref = true ∨ ref ∈ returned) : q.contains ref = true := by
  cases h with
  | once h =>
    rw [h.contains]
    exact href
  | twice h h' =>
    rw [h'.contains, h.contains]
    exact href.imp_left .inl

/-- What a call stores is there afterwards, the nodes that it makes itself as well. -/
theorem Advance.contains_given (h : Advance p given returned q) :
    ∀ ref ∈ given, q.contains ref = true := by
  intro ref href
  cases h with
  | once h =>
    rw [h.contains]
    exact .inl (h.inRange ref href)
  | twice h h' =>
    rw [h'.contains]
    left
    rcases List.mem_append.mp href with hgiven | hgiven
    . rw [h.contains]
      exact .inl (h.inRange ref hgiven)
    . exact h'.inRange ref hgiven

theorem Advance.sound (h : Advance p given returned q) (hsound : p.Sound passed)
    (hnodup : (passed ++ given.filterMap Ref.node?).Nodup) :
    q.Sound (passed ++ given.filterMap Ref.node?) := by
  cases h with
  | once h => exact hsound.grow h hnodup
  | twice h h' =>
    rw [List.filterMap_append, ← List.append_assoc] at hnodup ⊢
    exact (hsound.grow h hnodup.of_append_left).grow h' hnodup

end Advance

/-- What a ledger knows of the program under construction. -/
structure Ledger.Records (ledger : Ledger) (b : Builder) : Prop where
  sound : b.program.Sound ledger.passed
  returned : ∀ ref ∈ ledger.returned, b.program.contains ref = true
  passed : ∀ node ∈ ledger.passed, b.program.contains (.node node) = true
  nodup : ledger.passed.Nodup

theorem Ledger.records_empty : Ledger.empty.Records .empty :=
  ⟨sound_empty, nofun, nofun, .nil⟩

section Records

variable {ledger : Ledger} {b : Builder}

/--
A construction that has a handle for every slot has not passed on the name that the next call makes
for itself.
-/
theorem Ledger.Records.nodup_passed_name (h : ledger.Records b)
    (hsize : b.program.vars.size < UInt32.size) (id : DeclId) :
    (ledger.passed ++ (Call.name id).passed b).Nodup := by
  apply List.Nodup.append h.nodup (List.nodup_singleton (Node.var b.program.nextVar))
  rw [List.disjoint_singleton]
  intro hmem
  have hlt := of_decide_eq_true (h.passed _ hmem)
  change (UInt32.ofNat b.program.vars.size).toNat < b.program.vars.size at hlt
  rw [UInt32.toNat_ofNat_of_lt' hsize] at hlt
  exact Nat.lt_irrefl _ hlt

theorem Ledger.Records.call (h : ledger.Records b) {c : Call}
    (hgiven : ∀ ref ∈ c.given, ref ∈ ledger.returned)
    (hnodup : (ledger.passed ++ c.passed b).Nodup) :
    ∃ ledger' b', ledger.call c b = .ok ledger' b' ∧ ledger'.Records b' := by
  have hcontains : ∀ ref ∈ c.given, b.program.contains ref = true := by
    intro ref href
    exact h.returned ref (hgiven ref href)
  rcases c.exists_advance hcontains with ⟨refs, b', hperform, hadvance⟩
  refine ⟨⟨ledger.returned ++ refs, ledger.passed ++ c.passed b⟩, b', ?_, ?_, ?_, ?_, hnodup⟩
  . unfold Ledger.call
    rw [hperform]
  . exact hadvance.sound h.sound hnodup
  . intro ref href
    exact hadvance.contains ((List.mem_append.mp href).imp_left (h.returned ref))
  . intro node hnode
    rcases List.mem_append.mp hnode with hpassed | hpassed
    . exact hadvance.contains (.inl (h.passed node hpassed))
    . exact hadvance.contains_given _ (mem_filterMap_node?.mp hpassed)

theorem Ledger.Records.calls {cs : List Call} (h : ledger.Records b)
    (hdisciplined : ledger.Disciplined b cs) :
    ∃ ledger' b', ledger.calls cs b = .ok ledger' b' ∧ ledger'.Records b' := by
  induction cs generalizing ledger b with
  | nil => exact ⟨ledger, b, rfl, h⟩
  | cons c cs ih =>
    rcases hdisciplined with ⟨hgiven, hnodup, hrest⟩
    rcases h.call hgiven hnodup with ⟨ledger', b', hcall, hrecords⟩
    unfold Ledger.calls
    rw [hcall] at hrest ⊢
    exact ih hrecords hrest

end Records

/-- Disciplined calls do not fail, and build a valid program whose types agree. -/
theorem built_valid (cs : List Call) (h : Ledger.empty.Disciplined .empty cs) :
    ∃ ledger b, Ledger.empty.calls cs .empty = .ok ledger b ∧ b.finish.Valid ∧ b.finish.Typed := by
  rcases Ledger.records_empty.calls h with ⟨ledger, b, hcalls, hrecords⟩
  exact ⟨ledger, b, hcalls, hrecords.sound.valid, hrecords.sound.typed⟩

/-- The calls for a function that returns its parameter, and a variable form that nothing owns. -/
def counterCalls : List Call :=
  [.decl "counter" (.function [.integer] [.integer]), .decl "start" .integer, .name ⟨1⟩,
    .paren ⟨0⟩, .ret [⟨1⟩], .nameVar ⟨0⟩, .lambda [⟨1⟩] [⟨0⟩] [.integer],
    .functionsItem [(⟨0⟩, ⟨2⟩)]]

theorem built_valid_counterCalls :
    Ledger.empty.Disciplined .empty counterCalls ∧
    ∃ ledger b, Ledger.empty.calls counterCalls .empty = .ok ledger b ∧ b.finish.Valid ∧
      b.finish.Typed := by
  have h : Ledger.empty.Disciplined .empty counterCalls := by decide +kernel
  exact ⟨h, built_valid counterCalls h⟩

end Builder

end Upvalue

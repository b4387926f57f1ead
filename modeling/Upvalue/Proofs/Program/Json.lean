import Upvalue.Program.Json
import Upvalue.Proofs.Ty.Json

/-!
This module contains the proof that programs are read back, and how deep they nest. Only types and
written types nest as deep as the program says, everything else around them has a fixed depth.
-/

namespace Upvalue

open Json Json.Codec

/-! ### What is written is read -/

theorem DeclId.lossless (id : DeclId) : codec.Lossless id :=
  (exact_uint32 id.index).via rfl

theorem StatId.lossless (id : StatId) : codec.Lossless id :=
  (exact_uint32 id.index).via rfl

theorem ExprId.lossless (id : ExprId) : codec.Lossless id :=
  (exact_uint32 id.index).via rfl

theorem VarId.lossless (id : VarId) : codec.Lossless id :=
  (exact_uint32 id.index).via rfl

theorem DeclId.lossless_list (ids : List DeclId) : codec.list.Lossless ids :=
  exact_list fun id _ => id.lossless

theorem StatId.lossless_list (ids : List StatId) : codec.list.Lossless ids :=
  exact_list fun id _ => id.lossless

theorem ExprId.lossless_list (ids : List ExprId) : codec.list.Lossless ids :=
  exact_list fun id _ => id.lossless

theorem VarId.lossless_list (ids : List VarId) : codec.list.Lossless ids :=
  exact_list fun id _ => id.lossless

theorem Span.lossless (span : Span) : codec.Lossless span :=
  exact_struct ⟨exact_uint32 span.file, exact_uint32 span.start, exact_uint32 span.stop, trivial⟩
    (by decide) rfl

theorem TypeExpr.lossless_option (written : Option TypeExpr) : codec.option.Lossless written :=
  exact_option (fun expr _ => expr.exact_codec) encode_ne_null

theorem Decl.lossless (decl : Decl) : codec.Lossless decl :=
  exact_struct ⟨exact_string decl.name, TypeExpr.lossless_option decl.written, decl.loc.lossless,
    decl.ty.exact_codec, exact_bool decl.exported, trivial⟩ (by decide) rfl

theorem FuncDef.lossless (func : FuncDef) : codec.Lossless func :=
  exact_struct ⟨func.loc.lossless, func.decl.lossless, func.value.lossless, trivial⟩ (by decide) rfl

theorem FuncDef.lossless_list (funcs : List FuncDef) : codec.list.Lossless funcs :=
  exact_list fun func _ => func.lossless

theorem RecordField.lossless (field : RecordField) : codec.Lossless field :=
  exact_struct ⟨exact_string field.name, TypeExpr.lossless_option field.written,
    field.ty.exact_codec, trivial⟩ (by decide) rfl

theorem Block.lossless (block : Block) : codec.Lossless block :=
  exact_struct ⟨StatId.lossless_list block.stats, trivial⟩ (by decide) rfl

theorem Toplevel.lossless (item : Toplevel) : codec.Lossless item := by
  have h : codec.Exact (nestingLimit + 2) item := by
    cases item with
    | stats loc ids =>
      exact exact_fields rfl rfl rfl rfl (by decide)
        ⟨loc.lossless, StatId.lossless_list ids, trivial⟩
    | functions loc funcs =>
      exact exact_fields rfl rfl rfl rfl (by decide)
        ⟨loc.lossless, FuncDef.lossless_list funcs, trivial⟩
    | record loc name fields ty =>
      exact exact_fields rfl rfl rfl rfl (by decide)
        ⟨loc.lossless, exact_string name, exact_list fun field _ => field.lossless,
          ty.exact_codec, trivial⟩
    | typealias loc name written ty =>
      exact exact_fields rfl rfl rfl rfl (by decide)
        ⟨loc.lossless, exact_string name, written.exact_codec, ty.exact_codec, trivial⟩
  exact h.mono (Nat.le_succ _)

theorem Stat.lossless (stat : Stat) : codec.Lossless stat := by
  have h : codec.Exact (nestingLimit + 2) stat := by
    cases stat with
    | decl loc decls exps =>
      exact exact_fields rfl rfl rfl rfl (by decide)
        ⟨loc.lossless, DeclId.lossless_list decls, ExprId.lossless_list exps, trivial⟩
    | assign loc vars exps =>
      exact exact_fields rfl rfl rfl rfl (by decide)
        ⟨loc.lossless, VarId.lossless_list vars, ExprId.lossless_list exps, trivial⟩
    | functions loc funcs =>
      exact exact_fields rfl rfl rfl rfl (by decide)
        ⟨loc.lossless, FuncDef.lossless_list funcs, trivial⟩
    | ret loc exps =>
      exact exact_fields rfl rfl rfl rfl (by decide)
        ⟨loc.lossless, ExprId.lossless_list exps, trivial⟩
    | block loc body =>
      exact exact_fields rfl rfl rfl rfl (by decide) ⟨loc.lossless, body.lossless, trivial⟩
    | whileLoop loc condition body =>
      exact exact_fields rfl rfl rfl rfl (by decide)
        ⟨loc.lossless, condition.lossless, body.lossless, trivial⟩
    | repeatLoop loc body condition =>
      exact exact_fields rfl rfl rfl rfl (by decide)
        ⟨loc.lossless, body.lossless, condition.lossless, trivial⟩
    | branch loc condition thenBlock elseBlock =>
      exact exact_fields rfl rfl rfl rfl (by decide)
        ⟨loc.lossless, condition.lossless, thenBlock.lossless,
          exact_option (fun block _ => block.lossless) fun _ => nofun, trivial⟩
    | forNum loc id start stop step body =>
      exact exact_fields rfl rfl rfl rfl (by decide)
        ⟨loc.lossless, id.lossless, start.lossless, stop.lossless,
          exact_option (fun exp _ => exp.lossless) fun _ => nofun, body.lossless, trivial⟩
    | forIn loc decls exps body =>
      exact exact_fields rfl rfl rfl rfl (by decide)
        ⟨loc.lossless, DeclId.lossless_list decls, ExprId.lossless_list exps, body.lossless,
          trivial⟩
    | call loc exp =>
      exact exact_fields rfl rfl rfl rfl (by decide) ⟨loc.lossless, exp.lossless, trivial⟩
    | breakLoop loc =>
      exact exact_fields rfl rfl rfl rfl (by decide) ⟨loc.lossless, trivial⟩
  exact h.mono (Nat.le_succ _)

theorem UnaryOp.lossless (op : UnaryOp) : codec.Lossless op := by
  cases op <;> exact exact_unit rfl rfl rfl

theorem BinaryOp.lossless (op : BinaryOp) : codec.Lossless op := by
  cases op <;> exact exact_unit rfl rfl rfl

theorem InitField.lossless (field : InitField) : codec.Lossless field :=
  exact_struct ⟨exact_option (fun name _ => exact_string name) fun _ => nofun, field.exp.lossless,
    trivial⟩ (by decide) rfl

/-- The number of an expression, if it is one, is read as itself. -/
def ExprKind.ReadsBack : ExprKind → Prop
  | .float value => value.ReadsBack
  | _ => True

theorem ExprKind.lossless {kind : ExprKind} (hfloat : kind.ReadsBack) : codec.Lossless kind := by
  have h : codec.Exact (nestingLimit + 2) kind := by
    cases kind with
    | nil => exact exact_unit rfl rfl rfl
    | bool value => exact (exact_bool value).tagged rfl rfl rfl rfl
    | integer value => exact (exact_int64 value).tagged rfl rfl rfl rfl
    | float value => exact (exact_float hfloat).tagged rfl rfl rfl rfl
    | string value => exact (exact_string value).tagged rfl rfl rfl rfl
    | initList fields =>
      exact exact_fields rfl rfl rfl rfl (by decide)
        ⟨exact_list fun field _ => field.lossless, trivial⟩
    | lambda params body =>
      exact exact_fields rfl rfl rfl rfl (by decide)
        ⟨DeclId.lossless_list params, body.lossless, trivial⟩
    | call callee args =>
      exact exact_fields rfl rfl rfl rfl (by decide)
        ⟨callee.lossless, ExprId.lossless_list args, trivial⟩
    | methodCall receiver method args =>
      exact exact_fields rfl rfl rfl rfl (by decide)
        ⟨receiver.lossless, exact_string method, ExprId.lossless_list args, trivial⟩
    | var id => exact id.lossless.tagged rfl rfl rfl rfl
    | unop op exp =>
      exact exact_fields rfl rfl rfl rfl (by decide) ⟨op.lossless, exp.lossless, trivial⟩
    | binop lhs op rhs =>
      exact exact_fields rfl rfl rfl rfl (by decide)
        ⟨lhs.lossless, op.lossless, rhs.lossless, trivial⟩
    | cast exp target =>
      exact exact_fields rfl rfl rfl rfl (by decide)
        ⟨exp.lossless, TypeExpr.lossless_option target, trivial⟩
    | toFloat exp => exact exact_fields rfl rfl rfl rfl (by decide) ⟨exp.lossless, trivial⟩
    | paren exp => exact exact_fields rfl rfl rfl rfl (by decide) ⟨exp.lossless, trivial⟩
  exact h.mono (Nat.le_succ _)

theorem Expr.lossless {expr : Expr} (hfloat : expr.kind.ReadsBack) : codec.Lossless expr :=
  exact_struct ⟨expr.loc.lossless, expr.ty.exact_codec, ExprKind.lossless hfloat, trivial⟩
    (by decide) rfl

theorem Def.lossless (target : Def) : codec.Lossless target := by
  have h : codec.Exact (nestingLimit + 2) target := by
    cases target with
    | «variable» id => exact id.lossless.tagged rfl rfl rfl rfl
    | builtin name => exact (exact_string name).tagged rfl rfl rfl rfl
    | unresolved => exact exact_unit rfl rfl rfl
  exact h.mono (Nat.le_succ _)

theorem VarKind.lossless (kind : VarKind) : codec.Lossless kind := by
  have h : codec.Exact (nestingLimit + 2) kind := by
    cases kind with
    | name text target =>
      exact exact_fields rfl rfl rfl rfl (by decide) ⟨exact_string text, target.lossless, trivial⟩
    | dot exp field =>
      exact exact_fields rfl rfl rfl rfl (by decide) ⟨exp.lossless, exact_string field, trivial⟩
    | bracket table key =>
      exact exact_fields rfl rfl rfl rfl (by decide) ⟨table.lossless, key.lossless, trivial⟩
  exact h.mono (Nat.le_succ _)

theorem Var.lossless (var : Var) : codec.Lossless var :=
  exact_struct ⟨var.loc.lossless, var.ty.exact_codec, var.kind.lossless, trivial⟩ (by decide) rfl

namespace Program

variable {p : Program}

/-- The numbers of a program are read as themselves. -/
def FloatsReadBack (p : Program) : Prop :=
  ∀ expr ∈ p.exprs, expr.kind.ReadsBack

theorem lossless (h : p.FloatsReadBack) : codec.Lossless p :=
  exact_struct ⟨exact_array fun file _ => exact_string file,
    exact_array fun item _ => item.lossless, exact_array fun decl _ => decl.lossless,
    exact_array fun stat _ => stat.lossless,
    exact_array fun expr hexpr => Expr.lossless (h expr hexpr),
    exact_array fun var _ => var.lossless, trivial⟩ (by decide) rfl

end Program

end Upvalue

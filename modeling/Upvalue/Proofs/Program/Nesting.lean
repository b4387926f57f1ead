import Upvalue.Program.Load
import Upvalue.Proofs.Program.Json

/-!
This module contains how deep the JSON forms of programs nest. Only types and written types nest as
deep as the program says, everything around them has a fixed depth. A program that is read nests no
deeper than a decoder may go.
-/

namespace Upvalue

open Json Json.Codec

/-! ### Parts without types -/

section Parts

theorem Span.depth_le (span : Span) : codec.depth span ≤ 3 := by
  change 1 ≤ 3
  decide

theorem DeclId.depth_list_le (ids : List DeclId) : codec.list.depth ids ≤ 3 :=
  Codec.depth_list_le fun _ => Nat.zero_le 2

theorem StatId.depth_list_le (ids : List StatId) : codec.list.depth ids ≤ 3 :=
  Codec.depth_list_le fun _ => Nat.zero_le 2

theorem ExprId.depth_list_le (ids : List ExprId) : codec.list.depth ids ≤ 3 :=
  Codec.depth_list_le fun _ => Nat.zero_le 2

theorem VarId.depth_list_le (ids : List VarId) : codec.list.depth ids ≤ 3 :=
  Codec.depth_list_le fun _ => Nat.zero_le 2

theorem FuncDef.depth_list_le (funcs : List FuncDef) : codec.list.depth funcs ≤ 3 :=
  Codec.depth_list_le fun _ => Nat.le_refl 2

theorem Block.depth_le (block : Block) : codec.depth block ≤ 3 := by
  have hstats : StatId.codec.list.depth block.stats ≤ 2 :=
    Codec.depth_list_le fun _ => Nat.zero_le 1
  unfold codec
  rw [depth_struct]
  exact Nat.succ_le_succ (Record.depth_le_iff.mpr ⟨hstats, trivial⟩)

theorem Block.depth_option_le (block : Option Block) : codec.option.depth block ≤ 3 := by
  cases block with
  | none => exact Nat.zero_le 3
  | some block => exact block.depth_le

theorem ExprId.depth_option_le (id : Option ExprId) : codec.option.depth id ≤ 3 := by
  cases id <;> exact Nat.zero_le 3

theorem Stat.depth_le (stat : Stat) : codec.depth stat ≤ 5 := by
  cases stat with
  | decl loc decls exps =>
    exact depth_fields_le rfl
      ⟨loc.depth_le, DeclId.depth_list_le decls, ExprId.depth_list_le exps, trivial⟩
  | assign loc vars exps =>
    exact depth_fields_le rfl
      ⟨loc.depth_le, VarId.depth_list_le vars, ExprId.depth_list_le exps, trivial⟩
  | functions loc funcs =>
    exact depth_fields_le rfl ⟨loc.depth_le, FuncDef.depth_list_le funcs, trivial⟩
  | ret loc exps => exact depth_fields_le rfl ⟨loc.depth_le, ExprId.depth_list_le exps, trivial⟩
  | block loc body => exact depth_fields_le rfl ⟨loc.depth_le, body.depth_le, trivial⟩
  | whileLoop loc condition body =>
    exact depth_fields_le rfl ⟨loc.depth_le, Nat.zero_le 3, body.depth_le, trivial⟩
  | repeatLoop loc body condition =>
    exact depth_fields_le rfl ⟨loc.depth_le, body.depth_le, Nat.zero_le 3, trivial⟩
  | branch loc condition thenBlock elseBlock =>
    exact depth_fields_le rfl ⟨loc.depth_le, Nat.zero_le 3, thenBlock.depth_le,
      Block.depth_option_le elseBlock, trivial⟩
  | forNum loc id start stop step body =>
    exact depth_fields_le rfl ⟨loc.depth_le, Nat.zero_le 3, Nat.zero_le 3, Nat.zero_le 3,
      ExprId.depth_option_le step, body.depth_le, trivial⟩
  | forIn loc decls exps body =>
    exact depth_fields_le rfl ⟨loc.depth_le, DeclId.depth_list_le decls,
      ExprId.depth_list_le exps, body.depth_le, trivial⟩
  | call loc exp => exact depth_fields_le rfl ⟨loc.depth_le, Nat.zero_le 3, trivial⟩
  | breakLoop loc => exact depth_fields_le rfl ⟨loc.depth_le, trivial⟩

theorem InitField.depth_list_le (fields : List InitField) : codec.list.depth fields ≤ 3 := by
  apply Codec.depth_list_le
  rintro ⟨name, exp⟩
  cases name <;> exact Nat.succ_le_succ (Nat.zero_le 1)

/-- The type expression of a cast, if there is one. -/
def ExprKind.target : ExprKind → Option TypeExpr
  | .cast _ target => target
  | _ => none

theorem ExprKind.depth_le {kind : ExprKind} {n : Nat} (hn : 3 ≤ n)
    (htarget : TypeExpr.codec.option.depth kind.target ≤ n) : codec.depth kind ≤ n + 2 := by
  have hlist {ids : List ExprId} : ExprId.codec.list.depth ids ≤ n :=
    Nat.le_trans (ExprId.depth_list_le ids) hn
  cases kind with
  | nil => exact Nat.zero_le _
  | bool value => exact depth_value_le rfl (Nat.zero_le _)
  | integer value => exact depth_value_le rfl (Nat.zero_le _)
  | float value =>
    apply depth_value_le rfl
    rw [depth_float]
    exact Nat.zero_le _
  | string value => exact depth_value_le rfl (Nat.zero_le _)
  | var id => exact depth_value_le rfl (Nat.zero_le _)
  | initList fields =>
    exact depth_fields_le rfl ⟨Nat.le_trans (InitField.depth_list_le fields) hn, trivial⟩
  | lambda params body =>
    exact depth_fields_le rfl ⟨Nat.le_trans (DeclId.depth_list_le params) hn,
      Nat.le_trans body.depth_le hn, trivial⟩
  | call callee args => exact depth_fields_le rfl ⟨Nat.zero_le n, hlist, trivial⟩
  | methodCall receiver method args =>
    exact depth_fields_le rfl ⟨Nat.zero_le n, Nat.zero_le n, hlist, trivial⟩
  | unop op exp => exact depth_fields_le rfl ⟨Nat.zero_le n, Nat.zero_le n, trivial⟩
  | binop lhs op rhs =>
    exact depth_fields_le rfl ⟨Nat.zero_le n, Nat.zero_le n, Nat.zero_le n, trivial⟩
  | cast exp target => exact depth_fields_le rfl ⟨Nat.zero_le n, htarget, trivial⟩
  | toFloat exp => exact depth_fields_le rfl ⟨Nat.zero_le n, trivial⟩
  | paren exp => exact depth_fields_le rfl ⟨Nat.zero_le n, trivial⟩

theorem ExprKind.depth_le_of_target {kind : ExprKind} (h : kind.target = none) :
    codec.depth kind ≤ 5 := by
  apply depth_le (Nat.le_refl 3)
  rw [h]
  exact Nat.zero_le 3

theorem VarKind.depth_le (kind : VarKind) : codec.depth kind ≤ 5 := by
  cases kind with
  | name text target =>
    have htarget : Def.codec.depth target ≤ 3 := by
      cases target with
      | «variable» id => exact depth_value_le rfl (Nat.zero_le 2)
      | builtin name => exact depth_value_le rfl (Nat.zero_le 2)
      | unresolved => exact Nat.zero_le 3
    exact depth_fields_le rfl ⟨Nat.zero_le 3, htarget, trivial⟩
  | dot exp field => exact depth_fields_le rfl ⟨Nat.zero_le 3, Nat.zero_le 3, trivial⟩
  | bracket table key => exact depth_fields_le rfl ⟨Nat.zero_le 3, Nat.zero_le 3, trivial⟩

end Parts

/-! ### Parts with types -/

theorem RecordField.bounded : codec.Bounded 0 :=
  bounded_struct ⟨Member.bounded_required (bounded_of_depth_le fun _ => Nat.le_refl 0),
    Member.bounded_withDefault TypeExpr.bounded_codec.option (Nat.le_refl 0),
    Member.bounded_required Ty.bounded_codec, trivial⟩ fun _ => rfl

theorem Span.bounded : codec.Bounded 3 :=
  bounded_of_depth_le Span.depth_le

theorem Decl.bounded : codec.Bounded 4 :=
  bounded_struct ⟨Member.bounded_required (bounded_of_depth_le fun _ => Nat.zero_le 3),
    Member.bounded_withDefault (TypeExpr.bounded_codec.mono (Nat.zero_le 3)).option (Nat.zero_le 3),
    Member.bounded_withDefault Span.bounded (Span.depth_le _),
    Member.bounded_required (Ty.bounded_codec.mono (Nat.zero_le 3)),
    Member.bounded_withDefault (bounded_of_depth_le fun _ => Nat.zero_le 3) (Nat.zero_le 3),
    trivial⟩ fun _ => rfl

theorem Toplevel.bounded : codec.Bounded 5 := by
  have hname : Codec.string.Bounded 3 := bounded_of_depth_le fun _ => Nat.zero_le 3
  have hty : Ty.codec.Bounded 3 := Ty.bounded_codec.mono (Nat.zero_le 3)
  have hwritten : TypeExpr.codec.Bounded 3 := TypeExpr.bounded_codec.mono (Nat.zero_le 3)
  have hfields : RecordField.codec.list.Bounded 3 :=
    Bounded.list (RecordField.bounded.mono (Nat.zero_le 2))
  apply Variant.bounded rfl
  unfold variants
  simp only [List.forall_mem_cons]
  refine ⟨Variant.bounded_fields ⟨?_, ?_, trivial⟩ fun _ => rfl,
    Variant.bounded_fields ⟨?_, ?_, trivial⟩ fun _ => rfl,
    Variant.bounded_fields ⟨?_, ?_, ?_, ?_, trivial⟩ fun _ => rfl,
    Variant.bounded_fields ⟨?_, ?_, ?_, ?_, trivial⟩ fun _ => rfl, nofun⟩
  . exact Member.bounded_required Span.bounded
  . exact Member.bounded_required (bounded_of_depth_le StatId.depth_list_le)
  . exact Member.bounded_required Span.bounded
  . exact Member.bounded_required (bounded_of_depth_le FuncDef.depth_list_le)
  . exact Member.bounded_required Span.bounded
  . exact Member.bounded_required hname
  . exact Member.bounded_required hfields
  . exact Member.bounded_required hty
  . exact Member.bounded_required Span.bounded
  . exact Member.bounded_required hname
  . exact Member.bounded_required hwritten
  . exact Member.bounded_required hty

/-- What the parts of an expression are like that has been read: its number and its target. -/
structure ExprKind.Read (room : Nat) (kind : ExprKind) : Prop where
  isFinite : ∀ x, kind = .float x → x.isFinite = true
  target : ∀ expr, kind.target = some expr → ∃ r, room = r + 2 ∧ TypeExpr.codec.Yields r expr

theorem ExprKind.read_of_yields {room : Nat} {kind : ExprKind} (h : codec.Yields room kind) :
    kind.Read room := by
  apply Variant.ensures_of_yields rfl _ h
  unfold variants
  simp only [List.forall_mem_cons]
  have hfloat (room : Nat) (x : Binary64) (hx : Codec.float.Yields room x) :
      (ExprKind.float x).Read (room + 1) := by
    constructor
    . intro y heq
      cases heq
      exact hx.float
    . exact nofun
  have hcast (room : Nat) (value : ExprId × Option TypeExpr × Unit)
      (h : castRecord.Origin room value) : (ExprKind.cast value.1 value.2.1).Read (room + 2) := by
    constructor
    . exact nofun
    . rcases value with ⟨exp, target, ⟨⟩⟩
      rintro expr rfl
      rcases h with ⟨-, hexpr | hexpr | hexpr, -⟩
      . exact ⟨room, rfl, Yields.option hexpr⟩
      . cases hexpr
      . cases hexpr
  -- The other expressions have neither a number nor a target.
  refine ⟨Variant.ensures_unit ?_, Variant.ensures_value ?_, Variant.ensures_value ?_,
    Variant.ensures_value hfloat, Variant.ensures_value ?_, Variant.ensures_fields ?_,
    Variant.ensures_fields ?_, Variant.ensures_fields ?_, Variant.ensures_fields ?_,
    Variant.ensures_value ?_, Variant.ensures_fields ?_, Variant.ensures_fields ?_,
    Variant.ensures_fields hcast, Variant.ensures_fields ?_, Variant.ensures_fields ?_, nofun⟩
  all_goals
    intros
    exact ⟨nofun, nofun⟩

theorem ExprKind.bounded : codec.Bounded 5 := by
  intro room kind hroom h
  cases htarget : kind.target with
  | none => exact Nat.le_trans (depth_le_of_target htarget) hroom
  | some expr =>
    rcases (read_of_yields h).target expr htarget with ⟨r, rfl, hexpr⟩
    apply depth_le (by omega)
    rw [htarget, depth_some]
    exact TypeExpr.bounded_codec r expr (Nat.zero_le r) hexpr

theorem Expr.bounded : codec.Bounded 6 :=
  bounded_struct ⟨Member.bounded_withDefault (Span.bounded.mono (by decide)) (by decide),
    Member.bounded_required (Ty.bounded_codec.mono (Nat.zero_le 5)),
    Member.bounded_required ExprKind.bounded, trivial⟩ fun _ => rfl

theorem Var.bounded : codec.Bounded 6 :=
  bounded_struct ⟨Member.bounded_withDefault (Span.bounded.mono (by decide)) (by decide),
    Member.bounded_required (Ty.bounded_codec.mono (Nat.zero_le 5)),
    Member.bounded_required (bounded_of_depth_le VarKind.depth_le), trivial⟩ fun _ => rfl

namespace Program

variable {p : Program}

theorem bounded : codec.Bounded 8 := by
  have hfile : Codec.string.Bounded 6 := bounded_of_depth_le fun _ => Nat.zero_le 6
  have hstat : Stat.codec.Bounded 6 :=
    bounded_of_depth_le fun stat => Nat.le_trans stat.depth_le (by decide)
  have hempty {α : Type} {codec : Codec α} : codec.array.depth #[] ≤ 7 :=
    depth_array_le_iff.mpr fun _ h => absurd h (Array.not_mem_empty _)
  apply bounded_struct _ fun _ => rfl
  exact ⟨Member.bounded_withDefault hfile.array hempty,
    Member.bounded_required (Toplevel.bounded.mono (by decide)).array,
    Member.bounded_withDefault (Decl.bounded.mono (by decide)).array hempty,
    Member.bounded_withDefault hstat.array hempty,
    Member.bounded_withDefault Expr.bounded.array hempty,
    Member.bounded_withDefault Var.bounded.array hempty, trivial⟩

/-- No slot of a program nests deeper than `n`. -/
structure Fits (p : Program) (n : Nat) : Prop where
  items : ∀ item ∈ p.items, Toplevel.codec.depth item ≤ n
  decls : ∀ decl ∈ p.decls, Decl.codec.depth decl ≤ n
  exprs : ∀ expr ∈ p.exprs, Expr.codec.depth expr ≤ n
  vars : ∀ var ∈ p.vars, Var.codec.depth var ≤ n

/-- Statements nest at most five levels deep, two more lead to the slots. -/
theorem depth_toJson_le_iff {n : Nat} (hn : 5 ≤ n) : p.toJson.depth ≤ n + 2 ↔ p.Fits n := by
  have hfiles : Codec.string.array.depth p.files ≤ n + 1 :=
    depth_array_le_iff.mpr fun _ _ => Nat.zero_le n
  have hstats : Stat.codec.array.depth p.stats ≤ n + 1 :=
    depth_array_le_iff.mpr fun stat _ => Nat.le_trans stat.depth_le hn
  change codec.depth p ≤ n + 1 + 1 ↔ _
  unfold codec
  rw [depth_struct_le_iff]
  constructor
  . rintro ⟨-, hitems, hdecls, -, hexprs, hvars, -⟩
    exact ⟨depth_array_le_iff.mp hitems, depth_array_le_iff.mp hdecls,
      depth_array_le_iff.mp hexprs, depth_array_le_iff.mp hvars⟩
  . intro h
    exact ⟨hfiles, depth_array_le_iff.mpr h.items, depth_array_le_iff.mpr h.decls, hstats,
      depth_array_le_iff.mpr h.exprs, depth_array_le_iff.mpr h.vars, trivial⟩

end Program

end Upvalue

import Upvalue.Proofs.Boxing.Decision
import Upvalue.Proofs.Boxing.Validity
import Upvalue.Proofs.Program.Load

/-!
This module contains the proof that the program that a run leaves behind can be written and loaded
again, as long as the types in the boxes are not too deep. The item of a box nests eight levels
deeper than the type of its value, no other part of the program becomes as deep.
-/

namespace Upvalue

open Json Json.Codec

namespace Box

variable {b : Box} {p : Program} {n : Nat}

section Slots

theorem forall_decls_apply {P : Decl → Prop} (h : ∀ d ∈ p.decls, P d)
    (hty : ∀ d, P d → P { d with ty := b.ty }) : ∀ d ∈ (b.apply p).decls, P d := by
  rw [decls_apply]
  unfold retype
  split
  . next decl hdecl =>
    intro d hd
    rcases Array.mem_or_eq_of_mem_setIfInBounds hd with hd | rfl
    . exact h d hd
    . exact hty decl (h decl (Array.mem_of_getElem? hdecl))
  . exact h

theorem forall_exprs_wrap {P : Expr → Prop} (h : ∀ e ∈ p.exprs, P e)
    (hmake : ∀ loc value, P ⟨loc, b.ty, .initList [⟨some b.field, value⟩]⟩) :
    ∀ e ∈ (b.wrap p).exprs, P e := by
  unfold wrap
  split
  . next value hvalue =>
    intro e he
    rcases Array.mem_or_eq_of_mem_setIfInBounds he with he | rfl
    . rcases Array.mem_push.mp he with he | rfl
      . exact h e he
      . exact h e (Array.mem_of_getElem? hvalue)
    . apply hmake
  . exact h

theorem forall_exprs_access {P : Expr → Prop} (h : ∀ e ∈ p.exprs, P e)
    (hname : ∀ loc id, P ⟨loc, b.ty, .var id⟩) (id : VarId) :
    ∀ e ∈ (b.access p id).exprs, P e := by
  unfold access
  split
  . intro e he
    rcases Array.mem_push.mp he with he | rfl
    . exact h e he
    . apply hname
  . exact h

theorem forall_vars_access {P : Var → Prop} (h : ∀ v ∈ p.vars, P v)
    (hname : ∀ v, P v → P { v with ty := b.ty })
    (haccess : ∀ loc base, P ⟨loc, b.valueTy, .dot base b.field⟩) (id : VarId) :
    ∀ v ∈ (b.access p id).vars, P v := by
  unfold access
  split
  . next var hvar =>
    intro v hv
    rcases Array.mem_or_eq_of_mem_setIfInBounds hv with hv | rfl
    . rcases Array.mem_push.mp hv with hv | rfl
      . exact h v hv
      . exact hname var (h var (Array.mem_of_getElem? hvar))
    . apply haccess
  . exact h

theorem forall_exprs_apply {P : Expr → Prop} (h : ∀ e ∈ p.exprs, P e)
    (hmake : ∀ loc value, P ⟨loc, b.ty, .initList [⟨some b.field, value⟩]⟩)
    (hname : ∀ loc id, P ⟨loc, b.ty, .var id⟩) : ∀ e ∈ (b.apply p).exprs, P e := by
  rw [apply_eq]
  have hwrap : ∀ e ∈ (b.wrap (b.retype p)).exprs, P e := by
    apply forall_exprs_wrap _ hmake
    rwa [exprs_retype]
  generalize b.wrap (b.retype p) = q at hwrap
  induction b.references.toList generalizing q with
  | nil => exact hwrap
  | cons id ids ih => exact ih _ (forall_exprs_access hwrap hname id)

theorem forall_vars_apply {P : Var → Prop} (h : ∀ v ∈ p.vars, P v)
    (hname : ∀ v, P v → P { v with ty := b.ty })
    (haccess : ∀ loc base, P ⟨loc, b.valueTy, .dot base b.field⟩) :
    ∀ v ∈ (b.apply p).vars, P v := by
  rw [apply_eq]
  have hwrap : ∀ v ∈ (b.wrap (b.retype p)).vars, P v := by
    rwa [vars_wrap, vars_retype]
  generalize b.wrap (b.retype p) = q at hwrap
  induction b.references.toList generalizing q with
  | nil => exact hwrap
  | cons id ids ih => exact ih _ (forall_vars_access hwrap hname haccess id)

end Slots

/-! ### Depths -/

/-- How deep the type of the value of a box nests. -/
def depth (b : Box) : Nat :=
  Ty.codec.depth b.valueTy

theorem depth_ty (b : Box) : Ty.codec.depth b.ty = b.depth + 4 :=
  Ty.depth_box b.typeName b.field b.valueTy

theorem depth_item (b : Box) : Toplevel.codec.depth b.item = b.depth + 6 := by
  have hfield : RecordField.codec.list.depth [⟨b.field, none, b.valueTy⟩] = b.depth + 2 := by
    change max (max 0 (max 0 (max b.depth 0)) + 1) 0 + 1 = _
    omega
  have hdepth : Toplevel.codec.depth b.item =
      max 1 (max 0 (max (RecordField.codec.list.depth [⟨b.field, none, b.valueTy⟩])
        (max (Ty.codec.depth b.ty) 0))) + 2 := by
    change (Variant.tagged _ _).depth = _
    rw [Variant.depth_tagged, Record.depth_encode]
    rfl
  rw [hdepth, hfield, depth_ty]
  omega

theorem fits_apply (hn : 5 ≤ n) (h : p.Fits (n + 1)) (hb : b.depth + 4 ≤ n) :
    (b.apply p).Fits (n + 1) := by
  have hty : Ty.codec.depth b.ty ≤ n := by
    rwa [depth_ty]
  have hvalueTy : Ty.codec.depth b.valueTy ≤ n := Nat.le_trans (Nat.le_add_right _ 4) hb
  have hloc (loc : Span) : Span.codec.depth loc ≤ n := Nat.le_trans loc.depth_le (by omega)
  have hkind {kind : ExprKind} (htarget : kind.target = none) : ExprKind.codec.depth kind ≤ n :=
    Nat.le_trans (ExprKind.depth_le_of_target htarget) hn
  constructor
  . rw [items_apply]
    exact h.items
  . apply forall_decls_apply h.decls
    intro d hd
    rcases depth_struct_le_iff.mp hd with ⟨hname, hwritten, hloc, -, hexported, -⟩
    exact depth_struct_le_iff.mpr ⟨hname, hwritten, hloc, hty, hexported, trivial⟩
  . apply forall_exprs_apply h.exprs
    . intro loc value
      exact depth_struct_le_iff.mpr ⟨hloc loc, hty, hkind rfl, trivial⟩
    . intro loc id
      exact depth_struct_le_iff.mpr ⟨hloc loc, hty, hkind rfl, trivial⟩
  . apply forall_vars_apply h.vars
    . intro v hv
      rcases depth_struct_le_iff.mp hv with ⟨hloc, -, hkind, -⟩
      exact depth_struct_le_iff.mpr ⟨hloc, hty, hkind, trivial⟩
    . intro loc base
      have hdot := (VarKind.dot base b.field).depth_le
      exact depth_struct_le_iff.mpr ⟨hloc loc, hvalueTy, Nat.le_trans hdot hn, trivial⟩

theorem fits_foldl_apply {boxes : List Box} (hn : 5 ≤ n) (h : p.Fits (n + 1))
    (hboxes : ∀ b ∈ boxes, b.depth + 4 ≤ n) :
    (boxes.foldl (fun q b => b.apply q) p).Fits (n + 1) := by
  induction boxes generalizing p with
  | nil => exact h
  | cons b boxes ih =>
    rw [List.forall_mem_cons] at hboxes
    exact ih (fits_apply hn h hboxes.1) hboxes.2

/-! ### Numbers -/

theorem floatsReadBack_apply (h : p.FloatsReadBack) : (b.apply p).FloatsReadBack :=
  forall_exprs_apply h (fun _ _ => trivial) fun _ _ => trivial

theorem floatsReadBack_foldl_apply {boxes : List Box} (h : p.FloatsReadBack) :
    (boxes.foldl (fun q b => b.apply q) p).FloatsReadBack := by
  induction boxes generalizing p with
  | nil => exact h
  | cons b boxes ih => exact ih (floatsReadBack_apply h)

end Box

namespace Boxing

open Command.Convert

variable {options : Options} {p : Program} {boxes : Array Box}

theorem floatsReadBack_run (hok : (run options p).verdict = .ok boxes) (h : p.FloatsReadBack) :
    (run options p).program.FloatsReadBack := by
  rw [program_of_run_ok hok]
  exact Box.floatsReadBack_foldl_apply h

/-- The items of the boxes nest deepest of what is new in a program. -/
theorem depth_run_le_iff (hok : (run options p).verdict = .ok boxes)
    (hp : p.toJson.depth ≤ nestingLimit) :
    (run options p).program.toJson.depth ≤ nestingLimit ↔
      ∀ b ∈ boxes, b.depth + 8 ≤ nestingLimit := by
  rw [program_of_run_ok hok]
  change _ ≤ 125 + 2 ↔ _
  have hfits : p.Fits 125 := (Program.depth_toJson_le_iff (by decide)).mp hp
  rw [Program.depth_toJson_le_iff (by decide)]
  constructor
  . intro h b hb
    have hitem := h.items b.item (Array.mem_append_right _ (Array.mem_map_of_mem hb))
    rw [Box.depth_item] at hitem
    change _ ≤ 127
    omega
  . intro h
    change ∀ b ∈ boxes, _ ≤ 127 at h
    have hfold : (boxes.toList.foldl (fun q b => b.apply q) p).Fits (124 + 1) := by
      apply Box.fits_foldl_apply (by decide) hfits
      intro b hb
      have hle := h b (Array.mem_toList_iff.mp hb)
      omega
    refine ⟨?_, hfold.decls, hfold.exprs, hfold.vars⟩
    intro item hitem
    rcases Array.mem_append.mp hitem with hitem | hitem
    . exact hfits.items item hitem
    . rcases Array.mem_map.mp hitem with ⟨b, hb, rfl⟩
      have hle := h b hb
      rw [Box.depth_item]
      omega

/--
A program that was loaded can be written and loaded again after a run if and only if no box holds a
value whose type nests deeper than 119 levels, and then it is the program that the run left behind.
Otherwise what is written is refused, although the program that was loaded may nest deeper.
-/
theorem load_run (options : Options) (text : String) (p : Program)
    (hload : Program.load text = .ok p)
    (hfloats : ∀ expr ∈ p.exprs, ∀ x, expr.kind = .float x → x.isFinite = true → x.ReadsBack)
    (boxes : Array Box) (hok : (run options p).verdict = .ok boxes)
    (hfit : (run options p).program.Addressable) (pretty : Bool) :
    ((∀ b ∈ boxes, b.depth + 8 ≤ nestingLimit) →
      Program.load (programText pretty (run options p).program) = .ok (run options p).program) ∧
    ((∃ b ∈ boxes, nestingLimit < b.depth + 8) →
      Program.load (programText pretty (run options p).program) = .error (.decode .nesting)) := by
  have hdepth := depth_run_le_iff hok (Program.depth_toJson_of_load hload)
  have hread : p.FloatsReadBack := by
    apply Program.floatsReadBack_of_forall
    intro expr hexpr x hkind
    exact hfloats expr hexpr x hkind (Program.isFinite_of_load hload hexpr hkind)
  have hvalid := valid_program_run (Program.valid_of_load hload) hfit
  rw [Program.load_programText pretty (floatsReadBack_run hok hread) hvalid]
  constructor
  . intro h
    exact if_pos (hdepth.mpr h)
  . rintro ⟨b, hb, hlt⟩
    apply if_neg
    intro hle
    have := hdepth.mp hle b hb
    omega

/-- The function `counter` with a variable `x` of another type and with another value. -/
def holding (ty : Ty) (value : ExprKind) : Program :=
  { counter with
    decls := #[⟨"f", none, .dummy, .any, false⟩, ⟨"x", none, .dummy, ty, false⟩,
      ⟨"set", none, .dummy, .any, false⟩, ⟨"y", none, .dummy, ty, false⟩]
    exprs := #[⟨.dummy, .any, .lambda [] ⟨[⟨1⟩, ⟨2⟩, ⟨4⟩]⟩⟩, ⟨.dummy, ty, value⟩,
      ⟨.dummy, .any, .lambda [⟨3⟩] ⟨[⟨3⟩]⟩⟩, ⟨.dummy, ty, .var ⟨1⟩⟩,
      ⟨.dummy, .any, .lambda [] ⟨[⟨5⟩]⟩⟩, ⟨.dummy, ty, .var ⟨2⟩⟩]
    vars := #[⟨.dummy, ty, .name "x" (.variable ⟨1⟩)⟩, ⟨.dummy, ty, .name "y" (.variable ⟨3⟩)⟩,
      ⟨.dummy, ty, .name "x" (.variable ⟨1⟩)⟩] }

theorem floatsReadBack_holding {ty : Ty} {value : ExprKind} (h : value.ReadsBack) :
    (holding ty value).FloatsReadBack := by
  intro expr hexpr
  simp [holding] at hexpr
  rcases hexpr with rfl | rfl | rfl | rfl | rfl | rfl
  . trivial
  . exact h
  all_goals trivial

/-- A variable with the number `2.5`. -/
def fractional : Program := holding .float (.float ⟨0x4004000000000000⟩)

/-- The boxed number is written and read again with the program. -/
theorem load_run_fractional :
    Program.load (programText true fractional) = .ok fractional ∧
      ∃ boxes, (run default fractional).verdict = .ok boxes ∧
        boxes.toList.map Box.depth = [0] ∧
        Program.load (programText true (run default fractional).program) =
          .ok (run default fractional).program := by
  have hfloats : fractional.FloatsReadBack :=
    floatsReadBack_holding ⟨⟨false, ['2'], ['5'], none⟩, by decide +kernel, by decide +kernel⟩
  have hload : Program.load (programText true fractional) = .ok fractional := by
    rw [Program.load_programText true hfloats (by decide +kernel)]
    exact if_pos (by decide +kernel)
  have hdepths : (run default fractional).verdict.toOption.map (·.toList.map Box.depth) =
      some [0] := by decide +kernel
  cases hok : (run default fractional).verdict with
  | error stop =>
    rw [hok] at hdepths
    cases hdepths
  | ok boxes =>
    rw [hok] at hdepths
    injection hdepths with hdepths
    dsimp only at hdepths
    refine ⟨hload, boxes, rfl, hdepths, ?_⟩
    apply (load_run default _ fractional hload _ boxes hok (by decide +kernel) true).1
    . intro b hb
      have hmem : b.depth ∈ boxes.toList.map Box.depth :=
        List.mem_map_of_mem (Array.mem_toList_iff.mpr hb)
      rw [hdepths, List.mem_singleton] at hmem
      rw [hmem]
      decide
    . intro expr hexpr x hkind _
      have hreads := hfloats expr hexpr
      rwa [hkind] at hreads

/-- Arrays of arrays. -/
def nested : Nat → Ty
  | 0 => .any
  | n + 1 => .array (nested n)

/-- A variable with a type that is 120 levels deep. -/
def deep : Program := holding (nested 120) .nil

/-- The program is loaded and boxed, but what is written then is not loaded. -/
theorem load_run_deep :
    Program.load (programText false deep) = .ok deep ∧
      (∃ boxes, (run default deep).verdict = .ok boxes) ∧ ∀ pretty,
        Program.load (programText pretty (run default deep).program) =
          .error (.decode .nesting) := by
  have hfloats : deep.FloatsReadBack := floatsReadBack_holding trivial
  have hvalid : deep.Valid := by decide +kernel
  have hsome : (run default deep).verdict.isOk = true := by decide +kernel
  cases hok : (run default deep).verdict with
  | error stop =>
    rw [hok] at hsome
    cases hsome
  | ok boxes =>
    have hvalid' : (run default deep).program.Valid :=
      valid_program_run hvalid (by decide +kernel)
    refine ⟨?_, ⟨boxes, rfl⟩, ?_⟩
    . rw [Program.load_programText false hfloats hvalid]
      exact if_pos (by decide +kernel)
    . intro pretty
      rw [Program.load_programText pretty (floatsReadBack_run hok hfloats) hvalid']
      exact if_neg (by decide +kernel)

end Boxing

end Upvalue

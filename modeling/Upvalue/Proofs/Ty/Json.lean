import Upvalue.Proofs.Json.Origin
import Upvalue.Ty.Json

/-!
This module contains the proof that types and type expressions are read back. A decoder for types
that are at most so deep reads all of them that nest at most this deep.
-/

namespace Upvalue

open Json

namespace Json.Codec

variable {codec : Codec α} {limit least : Nat}

theorem exact_named {fields : List (String × α)}
    (h : ∀ field ∈ fields, codec.Exact limit field.2) : codec.named.Exact limit fields := by
  apply exact_list
  rintro ⟨name, a⟩ hfield
  exact (exact_string name).pair (h (name, a) hfield)

theorem Bounded.named (h : codec.Bounded (least - 2)) : codec.named.Bounded least := by
  apply Bounded.list
  apply Bounded.pair
  . exact bounded_of_depth_le fun _ => Nat.zero_le _
  . exact h

end Json.Codec

namespace Ty

/-- The codec of types that are at most so deep. -/
def upTo (depth : Nat) : Codec Ty := ⟨encode, decode depth⟩

theorem encodeList_eq (tys : List Ty) : encodeList tys = tys.map encode := by
  induction tys with
  | nil => rfl
  | cons ty tys ih => simp [encodeList, ih]

theorem encodeFields_eq (fields : List (String × Ty)) :
    encodeFields fields = fields.map fun (name, ty) => .array [.str name, encode ty] := by
  induction fields with
  | nil => rfl
  | cons field fields ih => simp [encodeFields, ih]

section Forms

variable (depth : Nat)

theorem encode_function (params returns : List Ty) :
    encode (.function params returns) =
      Variant.tagged "Function" ((functionRecord (upTo depth)).encode (params, returns, ())) := by
  rw [encode, encodeList_eq, encodeList_eq]
  rfl

theorem encode_table (fields : List (String × Ty)) :
    encode (.table fields) = Variant.tagged "Table" ((upTo depth).named.encode fields) := by
  rw [encode, encodeFields_eq]
  rfl

theorem encode_record (name : String) (fields : List (String × Ty)) (isBox : Bool) :
    encode (.record name fields isBox) =
      Variant.tagged "Record" ((recordRecord (upTo depth)).encode (name, fields, isBox, ())) := by
  rw [encode, encodeFields_eq]
  rfl

end Forms

/-- It is enough to look at decoders that can read something. -/
theorem exact_of_succ {ty : Ty} (h : ∀ depth, (upTo (depth + 1)).Exact (depth + 1) ty)
    (depth : Nat) : (upTo depth).Exact depth ty := by
  cases depth with
  | zero => exact Codec.exact_zero (h 0).legal
  | succ depth => exact h depth

mutual

/-- A type that is read is the type that was written. -/
theorem exact_upTo : ∀ (ty : Ty) (depth : Nat), (upTo depth).Exact depth ty
  | .any => exact_of_succ fun _ => Codec.exact_unit rfl rfl rfl
  | .nil => exact_of_succ fun _ => Codec.exact_unit rfl rfl rfl
  | .boolean => exact_of_succ fun _ => Codec.exact_unit rfl rfl rfl
  | .integer => exact_of_succ fun _ => Codec.exact_unit rfl rfl rfl
  | .float => exact_of_succ fun _ => Codec.exact_unit rfl rfl rfl
  | .string => exact_of_succ fun _ => Codec.exact_unit rfl rfl rfl
  | .function params returns => exact_of_succ fun depth => by
    have hrecord : (functionRecord (upTo depth)).Exact depth (params, returns, ()) :=
      ⟨Codec.exact_list (exact_upTo_list params depth),
        Codec.exact_list (exact_upTo_list returns depth), trivial⟩
    have hnames : ["params", "returns"].Nodup := by decide
    have hcontents := Record.exact hrecord hnames (.struct "FunctionType" 2)
    exact hcontents.tagged rfl (encode_function depth params returns) rfl rfl
  | .array element => exact_of_succ fun depth => (exact_upTo element depth).tagged rfl rfl rfl rfl
  | .table fields => exact_of_succ fun depth => by
    have hcontents := Codec.exact_named (exact_upTo_fields fields depth)
    exact hcontents.tagged rfl (encode_table depth fields) rfl rfl
  | .record name fields isBox => exact_of_succ fun depth => by
    have hrecord : (recordRecord (upTo depth)).Exact depth (name, fields, isBox, ()) :=
      ⟨Codec.exact_string name, Codec.exact_named (exact_upTo_fields fields depth),
        Codec.exact_bool isBox, trivial⟩
    have hnames : ["name", "fields", "is_upvalue_box"].Nodup := by decide
    have hcontents := Record.exact hrecord hnames (.struct "RecordType" 3)
    exact hcontents.tagged rfl (encode_record depth name fields isBox) rfl rfl

theorem exact_upTo_list : ∀ (tys : List Ty) (depth : Nat), ∀ ty ∈ tys, (upTo depth).Exact depth ty
  | [], _, _, h => nomatch h
  | ty :: tys, depth, _, h => by
    cases h with
    | head => exact exact_upTo ty depth
    | tail _ h => exact exact_upTo_list tys depth _ h

theorem exact_upTo_fields : ∀ (fields : List (String × Ty)) (depth : Nat),
    ∀ field ∈ fields, (upTo depth).Exact depth field.2
  | [], _, _, h => nomatch h
  | (name, ty) :: fields, depth, _, h => by
    cases h with
    | head => exact exact_upTo ty depth
    | tail _ h => exact exact_upTo_fields fields depth _ h

end

/-- A type that is read nests no deeper than the decoder could go. -/
theorem bounded_upTo : ∀ depth, (upTo depth).Bounded 0
  | 0 => by
    rintro room ty - ⟨json, h⟩
    cases h
  | depth + 1 => by
    have hty := bounded_upTo depth
    have hfunction : (functionRecord (upTo depth)).Bounded 0 :=
      ⟨Member.bounded_required hty.list, Member.bounded_required hty.list, trivial⟩
    have hrecord : (recordRecord (upTo depth)).Bounded 0 :=
      ⟨Member.bounded_required (Codec.bounded_of_depth_le fun _ => Nat.le_refl 0),
        Member.bounded_required hty.named,
        Member.bounded_withDefault (Codec.bounded_of_depth_le fun _ => Nat.le_refl 0)
          (Nat.le_refl 0), trivial⟩
    apply Variant.bounded (rfl : (upTo (depth + 1)).decode = Variant.decode (variants (upTo depth)))
    unfold variants
    simp only [List.forall_mem_cons]
    refine ⟨Variant.bounded_unit rfl, Variant.bounded_unit rfl, Variant.bounded_unit rfl,
      Variant.bounded_unit rfl, Variant.bounded_unit rfl, Variant.bounded_unit rfl, ?_, ?_, ?_, ?_,
      nofun⟩
    . refine Variant.bounded_value (Record.bounded hfunction (.struct "FunctionType" 2)) ?_
      rintro ⟨params, returns, ⟨⟩⟩
      exact encode_function depth params returns
    . have h : (Variant.value "Array" ((upTo depth).decode.map array)).Bounded
          (upTo (depth + 1)) 0 :=
        Variant.bounded_value hty fun _ => rfl
      exact h
    . refine Variant.bounded_value hty.named ?_
      exact encode_table depth
    . refine Variant.bounded_value (Record.bounded hrecord (.struct "RecordType" 3)) ?_
      rintro ⟨name, fields, isBox, ⟨⟩⟩
      exact encode_record depth name fields isBox

theorem exact_codec (ty : Ty) : codec.Exact (nestingLimit + 1) ty :=
  exact_upTo ty (nestingLimit + 1)

theorem bounded_codec : codec.Bounded 0 :=
  bounded_upTo (nestingLimit + 1)

/-- The type of a box nests four levels deeper than the type of its value. -/
theorem depth_box (name field : String) (ty : Ty) :
    codec.depth (box name field ty) = codec.depth ty + 4 := by
  unfold Codec.depth
  change (encode (.record name [(field, ty)] true)).depth = _
  rw [encode_record (nestingLimit + 1), Variant.depth_tagged, Record.depth_encode]
  change max 0 (max (max (max 0 (max (encode ty).depth 0) + 1) 0 + 1) (max 0 0)) + 1 + 1 = _
  simp only [Nat.max_zero, Nat.zero_max]
  rfl

end Ty

namespace TypeExpr

/-- The codec of type expressions that are at most so deep. -/
def upTo (depth : Nat) : Codec TypeExpr := ⟨encode, decode depth⟩

theorem encodeList_eq (exprs : List TypeExpr) : encodeList exprs = exprs.map encode := by
  induction exprs with
  | nil => rfl
  | cons expr exprs ih => simp [encodeList, ih]

theorem encodeFields_eq (fields : List (String × TypeExpr)) :
    encodeFields fields = fields.map fun (name, expr) => .array [.str name, encode expr] := by
  induction fields with
  | nil => rfl
  | cons field fields ih => simp [encodeFields, ih]

section Forms

variable (depth : Nat)

theorem encode_table (fields : List (String × TypeExpr)) :
    encode (.table fields) = Variant.tagged "Table" ((upTo depth).named.encode fields) := by
  rw [encode, encodeFields_eq]
  rfl

theorem encode_function (params returns : List TypeExpr) :
    encode (.function params returns) =
      Variant.tagged "Function" ((functionRecord (upTo depth)).encode (params, returns, ())) := by
  rw [encode, encodeList_eq, encodeList_eq]
  rfl

end Forms

theorem encode_ne_null (expr : TypeExpr) : encode expr ≠ .null := by
  cases expr <;> exact nofun

theorem exact_of_succ {expr : TypeExpr} (h : ∀ depth, (upTo (depth + 1)).Exact (depth + 1) expr)
    (depth : Nat) : (upTo depth).Exact depth expr := by
  cases depth with
  | zero => exact Codec.exact_zero (h 0).legal
  | succ depth => exact h depth

mutual

/-- A type expression that is read is the one that was written. -/
theorem exact_upTo : ∀ (expr : TypeExpr) (depth : Nat), (upTo depth).Exact depth expr
  | .nil => exact_of_succ fun _ => Codec.exact_unit rfl rfl rfl
  | .named name => exact_of_succ fun _ => (Codec.exact_string name).tagged rfl rfl rfl rfl
  | .array element => exact_of_succ fun depth => (exact_upTo element depth).tagged rfl rfl rfl rfl
  | .table fields => exact_of_succ fun depth => by
    have hcontents := Codec.exact_named (exact_upTo_fields fields depth)
    exact hcontents.tagged rfl (encode_table depth fields) rfl rfl
  | .function params returns => exact_of_succ fun depth => by
    have hrecord : (functionRecord (upTo depth)).Exact depth (params, returns, ()) :=
      ⟨Codec.exact_list (exact_upTo_list params depth),
        Codec.exact_list (exact_upTo_list returns depth), trivial⟩
    have hnames : ["params", "returns"].Nodup := by decide
    exact Codec.exact_fields rfl (encode_function depth params returns) rfl rfl hnames hrecord

theorem exact_upTo_list : ∀ (exprs : List TypeExpr) (depth : Nat),
    ∀ expr ∈ exprs, (upTo depth).Exact depth expr
  | [], _, _, h => nomatch h
  | expr :: exprs, depth, _, h => by
    cases h with
    | head => exact exact_upTo expr depth
    | tail _ h => exact exact_upTo_list exprs depth _ h

theorem exact_upTo_fields : ∀ (fields : List (String × TypeExpr)) (depth : Nat),
    ∀ field ∈ fields, (upTo depth).Exact depth field.2
  | [], _, _, h => nomatch h
  | (name, expr) :: fields, depth, _, h => by
    cases h with
    | head => exact exact_upTo expr depth
    | tail _ h => exact exact_upTo_fields fields depth _ h

end

/-- A type expression that is read nests no deeper than the decoder could go. -/
theorem bounded_upTo : ∀ depth, (upTo depth).Bounded 0
  | 0 => by
    rintro room expr - ⟨json, h⟩
    cases h
  | depth + 1 => by
    have hexpr := bounded_upTo depth
    have hfunction : (functionRecord (upTo depth)).Bounded 0 :=
      ⟨Member.bounded_required hexpr.list, Member.bounded_required hexpr.list, trivial⟩
    have hname : Codec.string.Bounded 0 := Codec.bounded_of_depth_le fun _ => Nat.le_refl 0
    have hnamed : (Variant.value "Name" (Codec.string.decode.map named)).Bounded
        (upTo (depth + 1)) 0 :=
      Variant.bounded_value hname fun _ => rfl
    have harray : (Variant.value "Array" ((upTo depth).decode.map array)).Bounded
        (upTo (depth + 1)) 0 :=
      Variant.bounded_value hexpr fun _ => rfl
    apply Variant.bounded (rfl : (upTo (depth + 1)).decode = Variant.decode (variants (upTo depth)))
    unfold variants
    simp only [List.forall_mem_cons]
    refine ⟨Variant.bounded_unit rfl, hnamed, harray, ?_, ?_, nofun⟩
    . refine Variant.bounded_value hexpr.named ?_
      exact encode_table depth
    . refine Variant.bounded_fields hfunction ?_
      rintro ⟨params, returns, ⟨⟩⟩
      exact encode_function depth params returns

theorem exact_codec (expr : TypeExpr) : codec.Exact (nestingLimit + 1) expr :=
  exact_upTo expr (nestingLimit + 1)

theorem bounded_codec : codec.Bounded 0 :=
  bounded_upTo (nestingLimit + 1)

end TypeExpr

end Upvalue

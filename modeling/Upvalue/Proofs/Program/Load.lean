import Upvalue.Command.Convert
import Upvalue.Proofs.Program.Nesting

/-!
This module contains what happens to programs on their way through texts. What is loaded is a
program whose nodes form a tree, which nests no deeper than a decoder may go and whose numbers are
finite. What is written is loaded if these things hold.
-/

namespace Upvalue.Program

open Json Command.Convert

variable {p : Program} {text : String}

/-! ### Loaded programs -/

/-- The program that a text describes, whether its nodes form a tree or not. -/
def decoded (text : String) : Except LoadError Program :=
  match read? text with
  | none => .error .notJson
  | some json => (codec.decode.run json).mapError .decode

theorem load_eq (text : String) :
    load text = decoded text >>= fun p =>
      p.validate.mapError LoadError.invalid >>= fun _ => pure p := by
  unfold load decoded
  cases read? text <;> rfl

theorem exists_json_of_load (h : load text = .ok p) :
    ∃ json, codec.decode nestingLimit json = .ok p ∧ p.Valid := by
  rw [load_eq] at h
  rcases exists_of_bind_eq_ok h with ⟨q, hdecoded, h⟩
  rcases exists_of_bind_eq_ok h with ⟨⟨⟩, hvalid, h⟩
  cases h
  unfold decoded at hdecoded
  split at hdecoded
  . cases hdecoded
  . next json _ => exact ⟨json, eq_ok_of_mapError hdecoded, eq_ok_of_mapError hvalid⟩

theorem valid_of_load (h : load text = .ok p) : p.Valid := by
  rcases exists_json_of_load h with ⟨json, -, hvalid⟩
  exact hvalid

theorem depth_toJson_of_load (h : load text = .ok p) : p.toJson.depth ≤ nestingLimit := by
  rcases exists_json_of_load h with ⟨json, hdecode, -⟩
  exact bounded nestingLimit p (by decide) ⟨json, hdecode⟩

theorem isFinite_of_load (h : load text = .ok p) {expr : Expr} (hexpr : expr ∈ p.exprs)
    {x : Binary64} (hkind : expr.kind = .float x) : x.isFinite = true := by
  rcases exists_json_of_load h with ⟨json, hdecode, -⟩
  rcases Codec.Yields.struct ⟨json, hdecode⟩ with ⟨r, value, -, horigin, rfl⟩
  rcases value with ⟨files, items, decls, stats, exprs, vars, ⟨⟩⟩
  rcases horigin with ⟨-, -, -, -, hexprs | hexprs | hexprs, -⟩
  . rcases hexprs.array with ⟨r, -, hall⟩
    rcases (hall expr hexpr).struct with ⟨r, ⟨loc, ty, kind, ⟨⟩⟩, -, horigin, rfl⟩
    rcases horigin with ⟨-, -, hread | hread | hread, -⟩
    . exact (ExprKind.read_of_yields hread).isFinite x hkind
    . cases hread
    . cases hread
  . cases hexprs
    exact absurd hexpr (Array.not_mem_empty expr)
  . cases hexprs
    exact absurd hexpr (Array.not_mem_empty expr)

/-! ### Written programs -/

theorem decoded_of_read? (hread : read? text = some p.toJson) (hfloats : p.FloatsReadBack) :
    decoded text = if p.toJson.depth ≤ nestingLimit then .ok p else .error (.decode .nesting) := by
  have hdecode : codec.decode.run p.toJson = _ :=
    (lossless hfloats).decode nestingLimit (Nat.lt_succ_self _)
  unfold decoded
  rw [hread]
  change (codec.decode.run p.toJson).mapError _ = _
  rw [hdecode]
  unfold within
  change (if p.toJson.depth ≤ nestingLimit then _ else _ : Except _ _).mapError _ = _
  split <;> rfl

theorem decoded_programText (pretty : Bool) (hfloats : p.FloatsReadBack) :
    decoded (programText pretty p) =
      if p.toJson.depth ≤ nestingLimit then .ok p else .error (.decode .nesting) := by
  apply decoded_of_read? _ hfloats
  have hlegal := (lossless hfloats).legal
  cases pretty with
  | true => exact read?_pretty hlegal (by decide)
  | false => exact read?_compact hlegal (by decide)

/-- What is written is loaded, unless it nests too deep. -/
theorem load_programText (pretty : Bool) (hfloats : p.FloatsReadBack) (hvalid : p.Valid) :
    load (programText pretty p) =
      if p.toJson.depth ≤ nestingLimit then .ok p else .error (.decode .nesting) := by
  rw [load_eq, decoded_programText pretty hfloats]
  split
  . change (p.validate.mapError LoadError.invalid >>= fun _ => pure p) = _
    rw [hvalid]
    rfl
  . rfl

theorem floatsReadBack_of_forall
    (h : ∀ expr ∈ p.exprs, ∀ x, expr.kind = .float x → x.ReadsBack) : p.FloatsReadBack := by
  intro expr hexpr
  cases hkind : expr.kind with
  | float x => exact h expr hexpr x hkind
  | _ => trivial

/--
Every program is read back from the texts that it is written to, whether its nodes form a tree or
not, as long as its numbers are finite and are read as themselves and it nests no deeper than a
decoder may go.
-/
theorem decoded_written (p : Program)
    (hfinite : ∀ expr ∈ p.exprs, ∀ x, expr.kind = .float x → x.isFinite = true)
    (hfloats : ∀ expr ∈ p.exprs, ∀ x, expr.kind = .float x → x.isFinite = true → x.ReadsBack) :
    ∀ text ∈ [p.toJson.compact, p.toJson.pretty, programText false p, programText true p],
      (p.toJson.depth ≤ nestingLimit → decoded text = .ok p) ∧
      (nestingLimit < p.toJson.depth → decoded text = .error (.decode .nesting)) := by
  have hread : p.FloatsReadBack := floatsReadBack_of_forall fun expr hexpr x hkind =>
    hfloats expr hexpr x hkind (hfinite expr hexpr x hkind)
  have hlegal := (lossless hread).legal
  intro text htext
  have hdecoded : decoded text =
      if p.toJson.depth ≤ nestingLimit then .ok p else .error (.decode .nesting) := by
    simp only [List.mem_cons, List.not_mem_nil, or_false] at htext
    rcases htext with rfl | rfl | rfl | rfl
    . have htext := read?_compact hlegal (by decide : "".toList.all _ = true)
      rw [String.append_empty] at htext
      exact decoded_of_read? htext hread
    . have htext := read?_pretty hlegal (by decide : "".toList.all _ = true)
      rw [String.append_empty] at htext
      exact decoded_of_read? htext hread
    . exact decoded_programText false hread
    . exact decoded_programText true hread
  rw [hdecoded]
  constructor
  . intro hle
    exact if_pos hle
  . intro hlt
    exact if_neg (Nat.not_le.mpr hlt)

/-- A program whose nodes form no tree: there is no statement, but there are handles of some. -/
def stray : Program where
  files := #["\"\\\n€"]
  items := #[.stats ⟨4294967295, 0, 4294967295⟩ [⟨0⟩, ⟨4294967295⟩],
    .typealias .dummy "pair" (.function [.array (.named "x"), .nil] [.table [("λ", .nil)]])
      (.record "pair" [("λ", .record "pair" [] false)] true)]
  decls := #[]
  stats := #[]
  exprs := #[⟨.dummy, .float, .float ⟨0x4004000000000000⟩⟩,
    ⟨.dummy, .integer, .integer (-9223372036854775808)⟩]
  vars := #[⟨.dummy, .any, .dot ⟨4294967295⟩ ""⟩]

theorem decoded_written_stray :
    stray.toJson.depth = 11 ∧ ¬stray.Valid ∧ decoded stray.toJson.pretty = .ok stray := by
  refine ⟨by decide +kernel, by decide +kernel, ?_⟩
  apply (decoded_written stray _ _ _ _).1
  . decide +kernel
  . intro expr hexpr x hkind
    simp [stray] at hexpr
    rcases hexpr with rfl | rfl
    . cases hkind
      decide +kernel
    . cases hkind
  . intro expr hexpr x hkind _
    simp [stray] at hexpr
    rcases hexpr with rfl | rfl
    . cases hkind
      exact ⟨⟨false, ['2'], ['5'], none⟩, by decide +kernel, by decide +kernel⟩
    . cases hkind
  . simp

end Upvalue.Program

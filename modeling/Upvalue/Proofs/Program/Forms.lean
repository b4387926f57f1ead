import Upvalue.Proofs.Json.Forms
import Upvalue.Proofs.Program.Load

/-!
This module contains the proof that a program does not depend on the form in which it is written. A
text is decoded as the same program whichever order, defaults, sequences and blanks it has.
-/

namespace Upvalue.Program

open Json Json.Codec Command.Convert

variable {p q : Program} {text : String}

/-- A text is a way to write a program if it spells a JSON value that is one. -/
def WrittenAs (p : Program) (text : String) : Prop :=
  ∃ json, codec.Writes nestingLimit p json ∧ Token.Spells json.tokens text.toList

theorem decoded_of_writtenAs (h : p.WrittenAs text) : decoded text = .ok p := by
  rcases h with ⟨json, hwrites, hspells⟩
  have hdecode : codec.decode.run json = .ok p := hwrites.decode nestingLimit (Nat.le_refl _)
  unfold decoded
  rw [read?_of_spells hspells]
  dsimp only
  rw [hdecode]
  rfl

/-- No text is a way to write two programs. -/
theorem eq_of_writtenAs (hp : p.WrittenAs text) (hq : q.WrittenAs text) : p = q := by
  have hdecoded := decoded_of_writtenAs hp
  rw [decoded_of_writtenAs hq] at hdecoded
  cases hdecoded
  rfl

/-- A program is written in one of the ways to write it. -/
theorem writtenAs_of_spells (hfloats : p.FloatsReadBack) (hdepth : p.toJson.depth ≤ nestingLimit)
    (h : Token.Spells p.toJson.tokens text.toList) : p.WrittenAs text :=
  ⟨p.toJson, (lossless hfloats).writes nestingLimit (Nat.lt_succ_self _) hdepth, h⟩

/--
The texts that a program is written to are ways to write it, and whichever way it is written in, it
is read back, as long as its numbers are finite and are read as themselves.
-/
theorem decoded_any_form (p : Program)
    (hfinite : ∀ expr ∈ p.exprs, ∀ x, expr.kind = .float x → x.isFinite = true)
    (hfloats : ∀ expr ∈ p.exprs, ∀ x, expr.kind = .float x → x.isFinite = true → x.ReadsBack) :
    (p.toJson.depth ≤ nestingLimit → ∀ blanks : String, blanks.toList.all Token.isBlank = true →
      p.WrittenAs (p.toJson.compact ++ blanks) ∧ p.WrittenAs (p.toJson.pretty ++ blanks)) ∧
    ∀ text, p.WrittenAs text → decoded text = .ok p := by
  have hread : p.FloatsReadBack := floatsReadBack_of_forall fun expr hexpr x hkind =>
    hfloats expr hexpr x hkind (hfinite expr hexpr x hkind)
  have hlegal := (lossless hread).legal
  constructor
  . intro hdepth blanks hblanks
    exact ⟨writtenAs_of_spells hread hdepth (spells_compact hlegal hblanks),
      writtenAs_of_spells hread hdepth (spells_pretty hlegal hblanks)⟩
  . intro text htext
    exact decoded_of_writtenAs htext

/-- The program `local x = 2.5`. -/
def half : Program where
  files := #[]
  items := #[.stats ⟨0, 0, 13⟩ [⟨0⟩]]
  decls := #[⟨"x", none, .dummy, .nil, false⟩]
  stats := #[.decl ⟨0, 0, 13⟩ [⟨0⟩] [⟨0⟩]]
  exprs := #[⟨.dummy, .float, .float ⟨0x4004000000000000⟩⟩]
  vars := #[]

/-- The declaration with its keys in another order, without defaults, and with `null` for a type. -/
def halfDecl : Json :=
  Json.obj [("ty", Variant.tagged "Nil" .null), ("name", .str "x")]

/-- The statement as a sequence of its fields. -/
def halfStat : Json :=
  Variant.tagged "Decl" (.array [Span.codec.encode ⟨0, 0, 13⟩, DeclId.codec.list.encode [⟨0⟩],
    ExprId.codec.list.encode [⟨0⟩]])

/-- Another form of the program. Some arrays are missing, and there are keys that mean nothing. -/
def halfJson : Json :=
  Json.obj [("comment", .null), ("stats", .array [halfStat]),
    ("comment", .number ⟨false, ['1'], [], some ⟨false, ['9', '9', '9']⟩⟩),
    ("items", Toplevel.codec.array.encode half.items),
    ("exprs", Expr.codec.array.encode half.exprs), ("decls", .array [halfDecl])]

theorem writes_halfDecl : Decl.codec.Writes 125 ⟨"x", none, .dummy, .nil, false⟩ halfDecl := by
  have hty : Codec.Writes ⟨Ty.encode, Variant.decode (Ty.variants (Ty.upTo nestingLimit))⟩ 124
      Ty.nil (Variant.tagged "Nil" .null) :=
    .taggedNull rfl
  refine .via rfl (.object (by decide) (by decide) ?_ ?_)
  . simp only [Decl.record, Record.entries, List.forall_mem_cons]
    exact ⟨fun h => absurd (by decide) h, fun _ => rfl, fun _ => rfl,
      fun h => absurd (by decide) h, fun _ => rfl, nofun⟩
  . simp only [Decl.record, Record.entries, List.forall_mem_cons]
    refine ⟨?_, ?_, ?_, ?_, ?_, nofun⟩
    all_goals
      intro json hjson
      simp [Record.Entry.name, Member.required, Member.withDefault, writtenField, optionalLocField,
        tyField] at hjson
    . subst hjson
      exact .string "x"
    . subst hjson
      exact hty

theorem writes_halfStat : Stat.codec.Writes 125 (.decl ⟨0, 0, 13⟩ [⟨0⟩] [⟨0⟩]) halfStat := by
  have hloc := (Span.lossless ⟨0, 0, 13⟩).writes 123 (by decide) (by decide)
  have hdecls := (DeclId.lossless_list [⟨0⟩]).writes 123 (by decide) (by decide)
  have hexps := (ExprId.lossless_list [⟨0⟩]).writes 123 (by decide) (by decide)
  have hfields : (Stat.declRecord.codec (.structVariant "Stat::Decl" 3)).Writes 124
      (⟨0, 0, 13⟩, [⟨0⟩], [⟨0⟩], ()) (.array [_, _, _]) :=
    .sequence_of_forall₂ (.cons hloc (.cons hdecls (.cons hexps .nil)))
  have hfind : Stat.variants.find? (·.name == "Decl") =
      some (.fields "Stat" "Decl" Stat.declRecord _) := rfl
  have hstat : Codec.Writes ⟨Stat.encode, Variant.decode Stat.variants⟩ 125 _ halfStat :=
    .fields hfind hfields
  exact hstat

theorem writes_half (hfloats : half.FloatsReadBack) : codec.Writes nestingLimit half halfJson := by
  have hitems := (exact_array fun item (_ : item ∈ half.items) => item.lossless).writes 126
    (by decide) (by decide +kernel)
  have hexprs := (exact_array fun expr (h : expr ∈ half.exprs) =>
    Expr.lossless (hfloats expr h)).writes 126 (by decide) (by decide +kernel)
  refine .via rfl (.object (by decide) (by decide) ?_ ?_)
  . simp only [Program.record, Record.entries, List.forall_mem_cons]
    exact ⟨fun _ => rfl, fun h => absurd (by decide) h, fun h => absurd (by decide) h,
      fun h => absurd (by decide) h, fun h => absurd (by decide) h, fun _ => rfl, nofun⟩
  . simp only [Program.record, Record.entries, List.forall_mem_cons]
    refine ⟨?_, ?_, ?_, ?_, ?_, ?_, nofun⟩
    all_goals
      intro json hjson
      simp [Record.Entry.name, Member.required, Member.withDefault] at hjson
    . subst hjson
      exact hitems
    . subst hjson
      exact .array_of_forall₂ (.cons writes_halfDecl .nil)
    . subst hjson
      exact .array_of_forall₂ (.cons writes_halfStat .nil)
    . subst hjson
      exact hexprs

theorem legal_halfJson (hfloats : half.FloatsReadBack) : halfJson.Legal := by
  have hitems := exact_array fun item (_ : item ∈ half.items) => item.lossless
  have hexprs := exact_array fun expr (h : expr ∈ half.exprs) => Expr.lossless (hfloats expr h)
  have hnumber : Number.Legal ⟨false, ['1'], [], some ⟨false, ['9', '9', '9']⟩⟩ := by
    constructor
    . simp
    . exact List.all_eq_true.mp rfl
    . simp
    . simp
    . rintro _ ⟨⟩
      exact ⟨by simp, List.all_eq_true.mp rfl⟩
  have hstat : halfStat.Legal := by
    apply Variant.legal_tagged
    simp only [legal_array_iff, List.forall_mem_cons]
    exact ⟨(Span.lossless _).legal, (DeclId.lossless_list _).legal,
      (ExprId.lossless_list _).legal, nofun⟩
  have hdecl : halfDecl.Legal := by
    simp only [halfDecl, legal_obj_iff, List.forall_mem_cons]
    exact ⟨Variant.legal_tagged trivial, legal_str "x", nofun⟩
  simp only [halfJson, legal_obj_iff, List.forall_mem_cons, legal_array_iff]
  exact ⟨trivial, ⟨hstat, nofun⟩, hnumber, hitems.legal, hexprs.legal, ⟨hdecl, nofun⟩, nofun⟩

theorem decoded_any_form_half : decoded (halfJson.pretty ++ "\n") = .ok half := by
  have hfinite : ∀ expr ∈ half.exprs, ∀ x, expr.kind = .float x → x.isFinite = true := by
    intro expr hexpr x hkind
    simp [half] at hexpr
    subst hexpr
    cases hkind
    decide +kernel
  have hfloats : ∀ expr ∈ half.exprs, ∀ x, expr.kind = .float x → x.isFinite = true →
      x.ReadsBack := by
    intro expr hexpr x hkind _
    simp [half] at hexpr
    subst hexpr
    cases hkind
    exact ⟨⟨false, ['2'], ['5'], none⟩, by decide +kernel, by decide +kernel⟩
  apply (decoded_any_form half hfinite hfloats).2
  have hread : half.FloatsReadBack := floatsReadBack_of_forall fun expr hexpr x hkind =>
    hfloats expr hexpr x hkind (hfinite expr hexpr x hkind)
  exact ⟨halfJson, writes_half hread, spells_pretty (legal_halfJson hread) (by decide)⟩

end Upvalue.Program

import Upvalue.Proofs.Boxing.Report
import Upvalue.Proofs.Boxing.Sites

/-!
This module contains the proof that no two boxes of a run share a type. The name of the type of a
box is made of the name of the variable and the number of the box. The digits of the number stand
behind the last `x`, so both can be read off again, whatever the variable is called.
-/

namespace Upvalue

/-- A list is cut at the last occurrence of an element in one way only. -/
theorem append_cons_inj {α : Type} {c : α} {before before' after after' : List α}
    (hafter : c ∉ after) (hafter' : c ∉ after')
    (h : before ++ c :: after = before' ++ c :: after') : before = before' ∧ after = after' := by
  rcases List.append_eq_append_iff.mp h with ⟨between, rfl, hsplit⟩ | ⟨between, rfl, hsplit⟩
  . cases between with
    | nil =>
      rw [List.nil_append, List.cons.injEq] at hsplit
      exact ⟨(List.append_nil before).symm, hsplit.2⟩
    | cons c' between =>
      rw [List.cons_append, List.cons.injEq] at hsplit
      apply absurd _ hafter
      rw [hsplit.2]
      simp
  . cases between with
    | nil =>
      rw [List.nil_append, List.cons.injEq] at hsplit
      exact ⟨List.append_nil before', hsplit.2.symm⟩
    | cons c' between =>
      rw [List.cons_append, List.cons.injEq] at hsplit
      apply absurd _ hafter'
      rw [hsplit.2]
      simp

namespace Box

variable {p : Program} {boxes : List Box} {b b' : Box}

theorem toList_typeName (b : Box) :
    b.typeName.toList =
      '$' :: (b.name.toList ++ ['_', 'b', 'o']) ++ 'x' :: Nat.toDigits 10 b.number := by
  unfold typeName
  simp [Nat.toString_eq_repr, Nat.toList_repr]

theorem typeName_inj : b.typeName = b'.typeName ↔ b.name = b'.name ∧ b.number = b'.number := by
  have hdigits (n : Nat) : 'x' ∉ Nat.toDigits 10 n := by
    intro h
    have := Nat.isDigit_of_mem_toDigits (by decide) (by decide) h
    revert this
    decide
  constructor
  . intro h
    rw [← String.toList_inj, toList_typeName, toList_typeName] at h
    rcases append_cons_inj (hdigits _) (hdigits _) h with ⟨hname, hnumber⟩
    rw [List.cons.injEq, List.append_cancel_right_eq, String.toList_inj] at hname
    refine ⟨hname.2, ?_⟩
    calc b.number
      _ = Nat.ofDigitChars 10 (Nat.toDigits 10 b.number) 0 :=
        (Nat.ofDigitChars_toDigits (by decide) (by decide)).symm
      _ = Nat.ofDigitChars 10 (Nat.toDigits 10 b'.number) 0 := by rw [hnumber]
      _ = b'.number := Nat.ofDigitChars_toDigits (by decide) (by decide)
  . rintro ⟨hname, hnumber⟩
    unfold typeName
    rw [hname, hnumber]

/-- Only the names of the types of boxes are compared. -/
theorem same_ty : b.ty.same b'.ty = (b.typeName == b'.typeName) := by
  unfold ty Ty.box Ty.same
  rfl

theorem Typed.exists_decl? (h : Box.Typed p boxes) : ∀ b ∈ boxes, ∃ d, p.decl? b.decl = some d := by
  induction boxes generalizing p with
  | nil =>
    intro b hb
    cases hb
  | cons b' boxes ih =>
    rw [List.forall_mem_cons]
    rcases h with ⟨⟨d', hd', -⟩, hboxes⟩
    refine ⟨⟨d', hd'⟩, ?_⟩
    intro b hb
    rcases ih hboxes b hb with ⟨d, hd⟩
    rw [decl?_apply] at hd
    split at hd
    . next heq => exact ⟨d', heq ▸ hd'⟩
    . exact ⟨d, hd⟩

end Box

namespace Boxing

open Program

variable {options : Options} {p : Program} {boxes : Array Box} {b b' : Box}

theorem Labelled.typeName_ne (h : Labelled p boxes) {i j : Nat} (hb : boxes[i]? = some b)
    (hb' : boxes[j]? = some b') (hne : i ≠ j) : b.typeName ≠ b'.typeName := by
  rw [Ne, Box.typeName_inj]
  rintro ⟨-, hnumber⟩
  rw [(h i b hb).1, (h j b' hb').1] at hnumber
  omega

theorem labelled_run (hok : (run options p).verdict = .ok boxes) : Labelled p boxes := by
  rw [← (run_ok hok).2]
  exact Changes.labelled (Pass.changes_visitProgram options _ _) nofun rfl

theorem typed_run (hok : (run options p).verdict = .ok boxes) : Box.Typed p boxes.toList := by
  rw [← (run_ok hok).2]
  exact Changes.typed (Pass.changes_visitProgram options _ _) trivial rfl

/-- A variable that is boxed has the type of one of its boxes in the end. -/
theorem exists_box_of_run (hok : (run options p).verdict = .ok boxes) {decl : DeclId}
    (hdecl : decl ∈ boxes.toList.map Box.decl) :
    ∃ (i : Nat) (b : Box) (d : Decl), boxes[i]? = some b ∧ b.decl = decl ∧
      p.decl? decl = some d ∧ (run options p).program.decl? decl = some { d with ty := b.ty } := by
  rcases Box.exists_last (List.mem_map.mp hdecl) with ⟨before, b, after, hboxes, rfl, hlast⟩
  have hb : b ∈ boxes.toList := by
    rw [hboxes]
    simp
  rcases (typed_run hok).exists_decl? b hb with ⟨d, hd⟩
  rcases Array.getElem?_of_mem (Array.mem_toList_iff.mp hb) with ⟨i, hi⟩
  refine ⟨i, b, d, hi, rfl, hd, ?_⟩
  rw [program_of_run_ok hok, hboxes]
  exact Box.decl?_foldl_apply_of_last hlast hd

/--
Whatever the variables of a program are called, the types of any two boxes of a run that succeeds
have different names, and so the types of any two variables that were moved into boxes differ.
-/
theorem distinct_run (options : Options) (p : Program) (boxes : Array Box)
    (hok : (run options p).verdict = .ok boxes) :
    (∀ (i j : Nat) (b b' : Box), boxes[i]? = some b → boxes[j]? = some b' → i ≠ j →
      b.typeName ≠ b'.typeName ∧ b.ty.same b'.ty = false) ∧
    ∀ decl ∈ boxes.toList.map Box.decl, ∀ decl' ∈ boxes.toList.map Box.decl, decl ≠ decl' →
      ∃ d d', (run options p).program.decl? decl = some d ∧
        (run options p).program.decl? decl' = some d' ∧ d.ty.same d'.ty = false := by
  have hdistinct : ∀ (i j : Nat) (b b' : Box), boxes[i]? = some b → boxes[j]? = some b' → i ≠ j →
      b.typeName ≠ b'.typeName ∧ b.ty.same b'.ty = false := by
    intro i j b b' hb hb' hne
    have hnames := (labelled_run hok).typeName_ne hb hb' hne
    rw [Box.same_ty, beq_eq_false_iff_ne]
    exact ⟨hnames, hnames⟩
  refine ⟨hdistinct, ?_⟩
  intro decl hdecl decl' hdecl' hne
  rcases exists_box_of_run hok hdecl with ⟨i, b, d, hb, rfl, -, hd⟩
  rcases exists_box_of_run hok hdecl' with ⟨j, b', d', hb', rfl, -, hd'⟩
  refine ⟨_, _, hd, hd', (hdistinct i j b b' hb hb' ?_).2⟩
  rintro rfl
  rw [hb] at hb'
  cases hb'
  exact hne rfl

/-- `layered`, where the name of one variable ends like the name of the type of a box. -/
def numbered : Program :=
  { layered with
    decls := #[⟨"f", none, .dummy, .any, false⟩, ⟨"x", none, .dummy, .integer, false⟩,
      ⟨"g", none, .dummy, .any, false⟩, ⟨"x_box2", none, .dummy, .integer, false⟩,
      ⟨"h", none, .dummy, .any, false⟩] }

theorem distinct_run_numbered :
    ∃ boxes, (run default numbered).verdict = .ok boxes ∧
      boxes.toList.map (fun b => (b.decl, b.typeName)) =
        [(⟨3⟩, "$x_box2_box1"), (⟨1⟩, "$x_box2")] ∧
      ∃ d d', (run default numbered).program.decl? ⟨3⟩ = some d ∧
        (run default numbered).program.decl? ⟨1⟩ = some d' ∧ d.ty.same d'.ty = false := by
  have hboxes : (run default numbered).verdict.toOption.map
      (·.toList.map fun b => (b.decl, b.typeName)) =
        some [(⟨3⟩, "$x_box2_box1"), (⟨1⟩, "$x_box2")] := by decide +kernel
  cases hok : (run default numbered).verdict with
  | error stop =>
    rw [hok] at hboxes
    cases hboxes
  | ok boxes =>
    rw [hok] at hboxes
    injection hboxes with hnames
    change boxes.toList.map (fun b => (b.decl, b.typeName)) = _ at hnames
    have hdecls : boxes.toList.map Box.decl = [⟨3⟩, ⟨1⟩] := by
      have := congrArg (List.map Prod.fst) hnames
      rwa [List.map_map] at this
    refine ⟨boxes, rfl, hnames, ?_⟩
    apply (distinct_run default numbered boxes hok).2
    . simp [hdecls]
    . simp [hdecls]
    . decide

end Boxing

end Upvalue

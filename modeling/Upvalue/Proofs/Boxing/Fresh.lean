import Upvalue.Proofs.Boxing.Naming
import Upvalue.Proofs.Boxing.Reload

/-!
This module contains the names of the records of a program, and what a run adds to them. The name of
a box is made of the name of its variable and its number only, so that it is fresh if no record of
the program has a name of this form. Nothing looks at the records that are there already.
-/

namespace Upvalue

namespace Ty

mutual

/-- The names of the records in a type, with the ones in the fields of records. -/
def recordNames : Ty → List String
  | .function params returns => recordNamesList params ++ recordNamesList returns
  | .array element => recordNames element
  | .table fields => recordNamesFields fields
  | .record name fields _ => name :: recordNamesFields fields
  | _ => []

def recordNamesList : List Ty → List String
  | [] => []
  | ty :: tys => recordNames ty ++ recordNamesList tys

def recordNamesFields : List (String × Ty) → List String
  | [] => []
  | (_, ty) :: fields => recordNames ty ++ recordNamesFields fields

end

@[simp]
theorem recordNames_box (name field : String) (ty : Ty) :
    (box name field ty).recordNames = name :: ty.recordNames := by
  simp [box, recordNames, recordNamesFields]

/-- A type that equals the type of a box is a record with its name. -/
theorem mem_recordNames_of_same_box {ty valueTy : Ty} {name field : String}
    (h : ty.same (box name field valueTy) = true) : name ∈ ty.recordNames := by
  cases ty with
  | record name' fields isBox =>
    have hname : name' = name := beq_iff_eq.mp h
    rw [hname]
    exact List.mem_cons_self
  | _ => cases h

end Ty

namespace Toplevel

/-- The types that an item holds. -/
def types : Toplevel → List Ty
  | .record _ _ fields ty => ty :: fields.map RecordField.ty
  | .typealias _ _ _ ty => [ty]
  | _ => []

/-- The name of the record that an item declares. -/
def record? : Toplevel → Option String
  | .record _ name _ _ => some name
  | _ => none

end Toplevel

namespace Program

/-- The types of all nodes of a program, of its declarations and of its items. -/
def types (p : Program) : List Ty :=
  p.items.toList.flatMap Toplevel.types ++ p.decls.toList.map Decl.ty ++
    p.exprs.toList.map Expr.ty ++ p.vars.toList.map Var.ty

/-- The names of the records that the items of a program declare. -/
def records (p : Program) : List String :=
  p.items.toList.filterMap Toplevel.record?

/-- The names of the records that are declared in a program or that occur in a type. -/
def recordNames (p : Program) : List String :=
  p.records ++ p.types.flatMap Ty.recordNames

variable {p : Program} {P : Ty → Prop}

theorem forall_types_iff : (∀ ty ∈ p.types, P ty) ↔
    (∀ item ∈ p.items, ∀ ty ∈ item.types, P ty) ∧ (∀ d ∈ p.decls, P d.ty) ∧
      (∀ e ∈ p.exprs, P e.ty) ∧ ∀ v ∈ p.vars, P v.ty := by
  simp only [types, List.forall_mem_append, List.forall_mem_flatMap, List.forall_mem_map,
    Array.mem_toList_iff, and_assoc]

end Program

namespace Box

variable {p : Program} {b : Box} {boxes : List Box} {P : Ty → Prop}

/-- A program has no types after a box that it did not have before, but the ones of the box. -/
theorem forall_types_apply (h : ∀ ty ∈ p.types, P ty) (hty : P b.ty) (hvalueTy : P b.valueTy) :
    ∀ ty ∈ (b.apply p).types, P ty := by
  rw [Program.forall_types_iff] at h ⊢
  rcases h with ⟨hitems, hdecls, hexprs, hvars⟩
  refine ⟨?_, ?_, ?_, ?_⟩
  . rwa [items_apply]
  . exact forall_decls_apply hdecls fun _ _ => hty
  . exact forall_exprs_apply hexprs (fun _ _ => hty) fun _ _ => hty
  . exact forall_vars_apply hvars (fun _ _ => hty) fun _ _ => hvalueTy

theorem forall_types_foldl_apply (h : ∀ ty ∈ p.types, P ty) (htyped : Box.Typed p boxes)
    (hboxes : ∀ b ∈ boxes, P b.valueTy → P b.ty) :
    (∀ ty ∈ (boxes.foldl (fun q b => b.apply q) p).types, P ty) ∧
      ∀ b ∈ boxes, P b.valueTy ∧ P b.ty := by
  induction boxes generalizing p with
  | nil => exact ⟨h, fun b hb => nomatch hb⟩
  | cons b boxes ih =>
    rcases htyped with ⟨⟨d, hd, hvalueTy⟩, htyped⟩
    rw [List.forall_mem_cons] at hboxes
    have hvalue : P b.valueTy := by
      rw [hvalueTy]
      exact (Program.forall_types_iff.mp h).2.1 d (Array.mem_of_getElem? hd)
    have hty := hboxes.1 hvalue
    rw [List.foldl_cons, List.forall_mem_cons]
    rcases ih (forall_types_apply h hty hvalue) htyped hboxes.2 with ⟨htypes, hlater⟩
    exact ⟨htypes, ⟨hvalue, hty⟩, hlater⟩

@[simp]
theorem recordNames_ty (b : Box) : b.ty.recordNames = b.typeName :: b.valueTy.recordNames :=
  Ty.recordNames_box b.typeName b.field b.valueTy

theorem filterMap_record?_item (boxes : List Box) :
    (boxes.map Box.item).filterMap Toplevel.record? = boxes.map Box.typeName := by
  rw [List.filterMap_map, ← List.filterMap_eq_map]
  rfl

end Box

namespace Boxing

open Program

variable {options : Options} {p : Program} {boxes : Array Box} {b : Box}

/-- The name of a box is made of the name of its variable and its position. -/
theorem typeName_run (hok : (run options p).verdict = .ok boxes) {i : Nat}
    (hb : boxes[i]? = some b) :
    ∃ d ∈ p.decls, b.typeName = "$" ++ d.name ++ "_box" ++ toString (i + 1) := by
  have hmem : b ∈ boxes.toList := Array.mem_toList_iff.mpr (Array.mem_of_getElem? hb)
  rcases (typed_run hok).exists_decl? b hmem with ⟨d, hd⟩
  rcases labelled_run hok i b hb with ⟨hnumber, hlabel⟩
  refine ⟨d, Array.mem_of_getElem? hd, ?_⟩
  unfold Box.typeName
  rw [hnumber, (hlabel d hd).1]

theorem records_run (hok : (run options p).verdict = .ok boxes) :
    (run options p).program.records = p.records ++ boxes.toList.map Box.typeName := by
  rw [program_of_run_ok hok]
  unfold records
  rw [Array.toList_append, Array.toList_map, List.filterMap_append, Box.filterMap_record?_item]

theorem Labelled.nodup_typeName (h : Labelled p boxes) :
    (boxes.toList.map Box.typeName).Nodup := by
  unfold List.Nodup
  rw [List.pairwise_map, List.pairwise_iff_getElem]
  intro i j hi hj hlt
  apply h.typeName_ne _ _ (Nat.ne_of_lt hlt)
  . rw [← Array.getElem?_toList, List.getElem?_eq_getElem hi]
  . rw [← Array.getElem?_toList, List.getElem?_eq_getElem hj]

/-- Every record in a type is one that the program had before, or a box. -/
theorem forall_types_run (hok : (run options p).verdict = .ok boxes) :
    ∀ ty ∈ (run options p).program.types, ∀ name ∈ ty.recordNames,
      name ∈ p.recordNames ∨ ∃ b ∈ boxes, b.typeName = name := by
  have htypes : ∀ ty ∈ p.types, ∀ name ∈ ty.recordNames,
      name ∈ p.recordNames ∨ ∃ b ∈ boxes, b.typeName = name := by
    intro ty hty name hname
    left
    exact List.mem_append_right _ (List.mem_flatMap.mpr ⟨ty, hty, hname⟩)
  have hty : ∀ b ∈ boxes.toList, (∀ name ∈ b.valueTy.recordNames,
      name ∈ p.recordNames ∨ ∃ b ∈ boxes, b.typeName = name) → ∀ name ∈ b.ty.recordNames,
        name ∈ p.recordNames ∨ ∃ b ∈ boxes, b.typeName = name := by
    intro b hb hvalue
    rw [Box.recordNames_ty, List.forall_mem_cons]
    exact ⟨.inr ⟨b, Array.mem_toList_iff.mp hb, rfl⟩, hvalue⟩
  rcases Box.forall_types_foldl_apply htypes (typed_run hok) hty with ⟨hfold, hboxes⟩
  rw [Program.forall_types_iff] at hfold ⊢
  rw [program_of_run_ok hok]
  refine ⟨?_, hfold.2⟩
  intro item hitem
  rcases Array.mem_append.mp hitem with hitem | hitem
  . rw [← Box.items_foldl_apply] at hitem
    exact hfold.1 item hitem
  . rcases Array.mem_map.mp hitem with ⟨b, hb, rfl⟩
    rcases hboxes b (Array.mem_toList_iff.mpr hb) with ⟨hvalue, hbox⟩
    simp only [Box.item, Toplevel.types, List.map_cons, List.map_nil, List.forall_mem_cons]
    exact ⟨hbox, hvalue, nofun⟩

theorem mem_recordNames_run (hok : (run options p).verdict = .ok boxes) {name : String}
    (hname : name ∈ (run options p).program.recordNames) :
    name ∈ p.recordNames ∨ ∃ b ∈ boxes, b.typeName = name := by
  unfold recordNames at hname
  rw [records_run hok, List.append_assoc, List.mem_append, List.mem_append, List.mem_map] at hname
  rcases hname with hrecord | ⟨b, hb, rfl⟩ | htype
  . exact .inl (List.mem_append_left _ hrecord)
  . exact .inr ⟨b, Array.mem_toList_iff.mp hb, rfl⟩
  . rcases List.mem_flatMap.mp htype with ⟨ty, hty, hname⟩
    exact forall_types_run hok ty hty name hname

/--
If the names that boxes can get are not the names of records of the program, the types of the boxes
of a run are new and differ from all types of the program. In any case they are the only records
that a run adds, and the names of the declared records stay unique if none of them is a name of a
box.
-/
theorem fresh_run (options : Options) (p : Program) (boxes : Array Box)
    (hok : (run options p).verdict = .ok boxes) :
    ((∀ d ∈ p.decls, ∀ k ≤ boxes.size, 0 < k →
        "$" ++ d.name ++ "_box" ++ toString k ∉ p.recordNames) →
      ∀ b ∈ boxes, b.typeName ∉ p.recordNames ∧ ∀ ty ∈ p.types, ty.same b.ty = false) ∧
    (∀ name ∉ p.recordNames, name ∈ (run options p).program.recordNames ↔
      ∃ b ∈ boxes, b.typeName = name) ∧
    ((run options p).program.records.Nodup ↔
      p.records.Nodup ∧ ∀ b ∈ boxes, b.typeName ∉ p.records) := by
  refine ⟨?_, ?_, ?_⟩
  . intro hnames b hb
    have hfresh : b.typeName ∉ p.recordNames := by
      rcases Array.getElem?_of_mem hb with ⟨i, hi⟩
      rcases typeName_run hok hi with ⟨d, hd, htypeName⟩
      rw [htypeName]
      rcases Array.getElem?_eq_some_iff.mp hi with ⟨hlt, -⟩
      exact hnames d hd (i + 1) hlt (Nat.succ_pos i)
    refine ⟨hfresh, ?_⟩
    intro ty hty
    rw [Bool.eq_false_iff]
    intro hsame
    apply hfresh
    apply List.mem_append_right
    exact List.mem_flatMap.mpr ⟨ty, hty, Ty.mem_recordNames_of_same_box hsame⟩
  . intro name hname
    constructor
    . intro h
      exact (mem_recordNames_run hok h).resolve_left hname
    . rintro ⟨b, hb, rfl⟩
      apply List.mem_append_left
      rw [records_run hok]
      exact List.mem_append_right _ (List.mem_map_of_mem (Array.mem_toList_iff.mpr hb))
  . rw [records_run hok, List.nodup_append]
    constructor
    . rintro ⟨hnodup, -, hdisjoint⟩
      refine ⟨hnodup, ?_⟩
      intro b hb hmem
      exact hdisjoint _ hmem _ (List.mem_map_of_mem (Array.mem_toList_iff.mpr hb)) rfl
    . rintro ⟨hnodup, hfresh⟩
      refine ⟨hnodup, (labelled_run hok).nodup_typeName, ?_⟩
      rintro name hname _ hbox rfl
      rcases List.mem_map.mp hbox with ⟨b, hb, rfl⟩
      exact hfresh b (Array.mem_toList_iff.mp hb) hname

/-- `counter` in a module that declares a record. -/
def declaring (name : String) (isBox : Bool) : Program :=
  { counter with
    items := #[.record .dummy name [⟨"value", none, .string⟩]
      (.record name [("value", .string)] isBox), .stats .dummy [⟨0⟩]] }

theorem fresh_run_declaring :
    ∃ boxes, (run default (declaring "Cell" false)).verdict = .ok boxes ∧
      boxes.toList.map Box.typeName = ["$x_box1"] ∧
      (∀ b ∈ boxes, b.typeName ∉ (declaring "Cell" false).recordNames) ∧
      (run default (declaring "Cell" false)).program.records.Nodup := by
  have hboxes : (run default (declaring "Cell" false)).verdict.toOption.map
      (·.toList.map Box.typeName) = some ["$x_box1"] := by decide +kernel
  cases hok : (run default (declaring "Cell" false)).verdict with
  | error stop =>
    rw [hok] at hboxes
    cases hboxes
  | ok boxes =>
    rw [hok] at hboxes
    injection hboxes with hnames
    change boxes.toList.map Box.typeName = _ at hnames
    have hsize : boxes.size = 1 := by
      have := congrArg List.length hnames
      rwa [List.length_map, Array.length_toList] at this
    rcases fresh_run default _ boxes hok with ⟨hfresh, -, hnodup⟩
    have hfresh : ∀ b ∈ boxes, b.typeName ∉ (declaring "Cell" false).recordNames := by
      intro b hb
      refine (hfresh ?_ b hb).1
      rw [hsize]
      decide +kernel
    refine ⟨boxes, rfl, hnames, hfresh, hnodup.mpr ⟨by decide +kernel, ?_⟩⟩
    intro b hb hmem
    exact hfresh b hb (List.mem_append_left _ hmem)

/--
In a module that has the box of an earlier run, the next box gets the same name. The two types are
equal although their fields have different types.
-/
theorem fresh_run_taken :
    Program.load (Command.Convert.programText false (declaring "$x_box1" true)) =
        .ok (declaring "$x_box1" true) ∧
      ∃ boxes, (run default (declaring "$x_box1" true)).verdict = .ok boxes ∧ ∃ b ∈ boxes,
        b.typeName ∈ (declaring "$x_box1" true).records ∧
        ∃ ty ∈ (declaring "$x_box1" true).types, ty.same b.ty = true ∧
          ∃ fieldTy, ty.fieldType? b.field = some fieldTy ∧ fieldTy.same b.valueTy = false := by
  have hfloats : (declaring "$x_box1" true).FloatsReadBack := by
    intro expr hexpr
    simp [declaring, counter] at hexpr
    rcases hexpr with rfl | rfl | rfl | rfl | rfl | rfl
    all_goals trivial
  refine ⟨?_, ?_⟩
  . rw [Program.load_programText false hfloats (by decide +kernel)]
    exact if_pos (by decide +kernel)
  have hboxes : (run default (declaring "$x_box1" true)).verdict.toOption.map
      (·.toList.map fun b => (b.typeName, b.field, Ty.string.same b.valueTy)) =
        some [("$x_box1", "value", false)] := by decide +kernel
  cases hok : (run default (declaring "$x_box1" true)).verdict with
  | error stop =>
    rw [hok] at hboxes
    cases hboxes
  | ok boxes =>
    rw [hok] at hboxes
    injection hboxes with hlist
    dsimp only at hlist
    have hmem := List.mem_singleton_self ("$x_box1", "value", false)
    rw [← hlist] at hmem
    rcases List.mem_map.mp hmem with ⟨b, hb, heq⟩
    injection heq with hname heq
    injection heq with hfield hsame
    refine ⟨boxes, rfl, b, Array.mem_toList_iff.mp hb, ?_, ?_⟩
    . rw [hname]
      exact List.mem_singleton_self _
    . refine ⟨.record "$x_box1" [("value", .string)] true, List.mem_cons_self, ?_, .string, ?_,
        hsame⟩
      . exact beq_iff_eq.mpr hname.symm
      . rw [hfield]
        rfl

end Boxing

end Upvalue

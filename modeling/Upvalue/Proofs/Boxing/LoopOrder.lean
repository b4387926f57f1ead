import Upvalue.Proofs.Boxing.Frame
import Upvalue.Proofs.Boxing.Layout
import Upvalue.Proofs.Boxing.Naming
import Upvalue.Proofs.Boxing.Reorder

/-!
This module contains the proof that the order of the two parts of a loop cannot be seen from
outside. The same variables are boxed with as many names. If nothing is assigned in the condition of
a loop, then the boxes differ at most in the order of their names, which does not change the tree
that is left behind.
-/

namespace Upvalue

open Program

namespace Box

/-- A box without its names. -/
def plain (b : Box) : Box :=
  { b with references := #[] }

/-- Boxes differ at most in the order of their names. -/
structure Alike (b b' : Box) : Prop where
  plain : b.plain = b'.plain
  references : b.references.toList.Perm b'.references.toList

variable {p q : Program} {b b' : Box} {boxes boxes' : List Box}

/-- What does not depend on the names is the same for boxes that differ in them. -/
theorem eq_of_plain {α : Type} (f : Box → α) (hf : ∀ b, f b.plain = f b)
    (h : b.plain = b'.plain) : f b = f b' := by
  rw [← hf b, h, hf b']

theorem decl_of_plain (h : b.plain = b'.plain) : b.decl = b'.decl :=
  eq_of_plain Box.decl (fun _ => rfl) h

theorem ty_of_plain (h : b.plain = b'.plain) : b.ty = b'.ty :=
  eq_of_plain Box.ty (fun _ => rfl) h

theorem initializer_of_plain (h : b.plain = b'.plain) : b.initializer = b'.initializer :=
  eq_of_plain Box.initializer (fun _ => rfl) h

theorem valueTy_of_plain (h : b.plain = b'.plain) : b.valueTy = b'.valueTy :=
  eq_of_plain Box.valueTy (fun _ => rfl) h

theorem exists_plain (h : boxes'.map plain = boxes.map plain) (hb : b ∈ boxes) :
    ∃ b' ∈ boxes', b'.plain = b.plain := by
  have hmem : b.plain ∈ boxes.map plain := List.mem_map_of_mem hb
  rw [← h, List.mem_map] at hmem
  exact hmem

theorem Alike.size_eq (h : b.Alike b') : b.references.size = b'.references.size :=
  h.references.length_eq

theorem Alike.entry_eq (h : b.Alike b') : b.entry = b'.entry := by
  unfold entry
  rw [decl_of_plain h.plain, eq_of_plain Box.name (fun _ => rfl) h.plain,
    eq_of_plain Box.typeName (fun _ => rfl) h.plain, h.size_eq]

theorem map_eq_of_alike {α : Type} {f : Box → α} (hf : ∀ b b', b.Alike b' → f b = f b')
    (h : List.Forall₂ Alike boxes boxes') : boxes.map f = boxes'.map f := by
  induction h with
  | nil => rfl
  | cons hhead _ ih => rw [List.map_cons, List.map_cons, hf _ _ hhead, ih]

/-- The names of a box do not matter for the types of the declarations. -/
theorem decls_apply_congr (h : b.plain = b'.plain) (hdecls : p.decls = q.decls) :
    (b.apply p).decls = (b'.apply q).decls := by
  apply Array.ext_getElem?
  intro i
  rw [decls_apply_eq, decls_apply_eq, hdecls, decl_of_plain h, ty_of_plain h]

theorem decls_foldl_congr (h : boxes.map plain = boxes'.map plain) (hdecls : p.decls = q.decls) :
    (boxes.foldl (fun q b => b.apply q) p).decls =
      (boxes'.foldl (fun q b => b.apply q) q).decls := by
  induction boxes generalizing boxes' p q with
  | nil =>
    rw [List.map_nil, eq_comm, List.map_eq_nil_iff] at h
    subst h
    exact hdecls
  | cons b boxes ih =>
    cases boxes' with
    | nil => cases h
    | cons b' boxes' =>
      rw [List.map_cons, List.map_cons, List.cons.injEq] at h
      rw [List.foldl_cons, List.foldl_cons]
      exact ih h.2 (decls_apply_congr h.1 hdecls)

theorem items_congr {boxes boxes' : Array Box}
    (h : boxes.toList.map plain = boxes'.toList.map plain) :
    boxes.map Box.item = boxes'.map Box.item := by
  have hitem (boxes : Array Box) : (boxes.map Box.item).toList =
      (boxes.toList.map plain).map Box.item := by
    rw [Array.toList_map, List.map_map]
    rfl
  apply Array.toList_inj.mp
  rw [hitem, hitem, h]

/-- Boxes that differ in the order of their names add as many slots. -/
theorem addressable_congr (h : List.Forall₂ Alike boxes boxes') (hfits : ∀ b ∈ boxes, b.Fits p)
    (hfits' : ∀ b ∈ boxes', b.Fits p)
    (hfit : (boxes.foldl (fun q b => b.apply q) p).Addressable) :
    (boxes'.foldl (fun q b => b.apply q) p).Addressable := by
  have hexprs : (boxes.map fun b => 1 + b.references.size) =
      boxes'.map fun b => 1 + b.references.size :=
    map_eq_of_alike (fun _ _ halike => by rw [halike.size_eq]) h
  have hvars : (boxes.map fun b => b.references.size) = boxes'.map fun b => b.references.size :=
    map_eq_of_alike (fun _ _ halike => halike.size_eq) h
  unfold Addressable at hfit ⊢
  rw [(size_foldl_apply hfits).1, (size_foldl_apply hfits).2] at hfit
  rw [(size_foldl_apply hfits').1, (size_foldl_apply hfits').2, ← hexprs, ← hvars]
  exact hfit

end Box

theorem Program.Expands.with_items {p : Program} {nodes : List Node} {trees : Forest}
    (h : p.Expands nodes trees) (items : Array Toplevel) :
    Expands { p with items := items } nodes trees := by
  induction h with
  | nil => exact .nil
  | cons houtline _ _ ihbelow ihrest => exact .cons houtline ihbelow ihrest

namespace Boxing

variable {field : String} {p : Program} {boxes : List Box} {b : Box} {node : Node}

/-! ### The trees after the boxing -/

namespace Accurate

section Slots

variable (h : Accurate field p boxes) (hvalid : p.Valid)
variable (hfit : (boxes.foldl (fun q b => b.apply q) p).Addressable) (hb : b ∈ boxes)

include h hvalid hfit

/-- A value that goes into a box is the field of a constructor. -/
theorem expands_value (hb : b ∈ boxes) {expr : Expr} (hexpr : p.expr? b.initializer = some expr)
    {nodes : List Node} {below rest : Forest}
    (hbelow : (boxes.foldl (fun q b => b.apply q) p).Expands
      (p.children (.expr b.initializer)) below)
    (hrest : (boxes.foldl (fun q b => b.apply q) p).Expands nodes rest) :
    (boxes.foldl (fun q b => b.apply q) p).Expands (.expr b.initializer :: nodes)
      (.cons (.expr expr.loc b.ty (.initList [⟨some field, ⟨0⟩⟩]))
        (.cons (.expr expr.loc expr.ty expr.kind.shape) below .nil) rest) := by
  rcases Box.wrapped_foldl_apply hfit (Nat.le_refl _) (h.fits hvalid)
    (h.nodup_initializers hvalid) hb hexpr with ⟨moved, -, hwrapper, hmoved⟩
  rw [h.field b hb] at hwrapper
  apply Expands.cons (outline?_of_expr? hwrapper) _ hrest
  exact expands_constructor hexpr hwrapper hmoved hbelow

/-- A name of a boxed variable is the base of an access. -/
theorem expands_name (hb : b ∈ boxes) {id : VarId} (hid : p.Reachable (.var id)) {loc : Span}
    {ty : Ty} {text : String} (hvar : p.var? id = some ⟨loc, ty, .name text (.variable b.decl)⟩)
    {nodes : List Node} {rest : Forest}
    (hrest : (boxes.foldl (fun q b => b.apply q) p).Expands nodes rest) :
    (boxes.foldl (fun q b => b.apply q) p).Expands (.var id :: nodes)
      (.cons (.var loc b.valueTy (.dot ⟨0⟩ field)) (.cons (.expr loc b.ty (.var ⟨0⟩))
        (.cons (.var loc b.ty (.name text (.variable b.decl))) .nil .nil) .nil) rest) := by
  have hnamed : p.named? id = some b.decl := named?_of_var? hvar
  rcases (h.retyped hvalid hfit hb hid hnamed).access with
    ⟨var, base, moved, hvar', haccess, hbase, hmoved⟩
  cases hvar.symm.trans hvar'
  rw [h.field b hb] at haccess
  apply Expands.cons (outline?_of_var? haccess) _ hrest
  exact expands_access haccess hbase hmoved

/-- A node that is not put into a box, and that does not name a boxed variable, is as it was. -/
theorem expands_kept (hscoped : p.WellScoped) (hnode : p.Reachable node)
    (hvalue : ∀ b ∈ boxes, node ≠ .expr b.initializer)
    (hname : ∀ b ∈ boxes, ∀ id, node = .var id → p.named? id ≠ some b.decl)
    {outline : Outline} (houtline : p.outline? node = some outline)
    {nodes : List Node} {below rest : Forest}
    (hbelow : (boxes.foldl (fun q b => b.apply q) p).Expands (p.children node) below)
    (hrest : (boxes.foldl (fun q b => b.apply q) p).Expands nodes rest) :
    (boxes.foldl (fun q b => b.apply q) p).Expands (node :: nodes)
      (.cons outline below rest) := by
  cases (h.inBoxes hvalid hscoped hfit).slot hvalid hnode with
  | kept houtline' hchildren =>
    rw [← houtline'] at houtline
    rw [← hchildren] at hbelow
    exact .cons houtline hbelow hrest
  | value hdecl hinitializes =>
    rcases List.mem_map.mp hdecl with ⟨b, hb, rfl⟩
    apply absurd _ (hvalue b hb)
    rw [hinitializes.value_unique hscoped (h.unexported b hb) (h.initializer b hb)]
  | name hdecl _ hvar =>
    rcases List.mem_map.mp hdecl with ⟨b, hb, rfl⟩
    exact absurd (named?_of_var? hvar) (hname b hb _ rfl)

end Slots

/-- Boxes that differ in the order of their names leave the same trees behind. -/
theorem exists_common_trees (hvalid : p.Valid) (hscoped : p.WellScoped) (field : String)
    (boxes : List Box) {nodes : List Node} {trees : Forest} (hp : p.Expands nodes trees)
    (hnodes : ∀ node ∈ nodes, p.Reachable node) :
    ∃ common, ∀ boxes', boxes'.map Box.plain = boxes.map Box.plain → Accurate field p boxes' →
      (boxes'.foldl (fun q b => b.apply q) p).Addressable →
        (boxes'.foldl (fun q b => b.apply q) p).Expands nodes common := by
  induction hp with
  | nil => exact ⟨.nil, fun _ _ _ _ => .nil⟩
  | @cons node nodes outline below rest houtline _ _ ihbelow ihrest =>
    rw [List.forall_mem_cons] at hnodes
    rcases ihbelow fun child hchild => reachable_child hnodes.1 hchild with ⟨below', hbelow'⟩
    rcases ihrest hnodes.2 with ⟨rest', hrest'⟩
    by_cases hvalue : ∃ b ∈ boxes, node = .expr b.initializer
    . rcases hvalue with ⟨b, hb, rfl⟩
      rcases exists_expr?_of_contains (hnodes.1.contains hvalid) with ⟨expr, hexpr⟩
      refine ⟨.cons (.expr expr.loc b.ty (.initList [⟨some field, ⟨0⟩⟩]))
        (.cons (.expr expr.loc expr.ty expr.kind.shape) below' .nil) rest', ?_⟩
      intro boxes' hplain h hfit
      rcases Box.exists_plain hplain hb with ⟨b', hb', heq⟩
      have hinitializer := Box.initializer_of_plain heq
      have hbelow := hbelow' boxes' hplain h hfit
      rw [← hinitializer] at hexpr hbelow ⊢
      rw [← Box.ty_of_plain heq]
      exact h.expands_value hvalid hfit hb' hexpr hbelow (hrest' boxes' hplain h hfit)
    by_cases hname : ∃ b ∈ boxes, ∃ id, node = .var id ∧ p.named? id = some b.decl
    . rcases hname with ⟨b, hb, id, rfl, hnamed⟩
      rcases exists_var?_of_named? hnamed with ⟨loc, ty, text, hvar⟩
      refine ⟨.cons (.var loc b.valueTy (.dot ⟨0⟩ field)) (.cons (.expr loc b.ty (.var ⟨0⟩))
        (.cons (.var loc b.ty (.name text (.variable b.decl))) .nil .nil) .nil) rest', ?_⟩
      intro boxes' hplain h hfit
      rcases Box.exists_plain hplain hb with ⟨b', hb', heq⟩
      rw [← Box.decl_of_plain heq] at hvar ⊢
      rw [← Box.ty_of_plain heq, ← Box.valueTy_of_plain heq]
      exact h.expands_name hvalid hfit hb' hnodes.1 hvar (hrest' boxes' hplain h hfit)
    . refine ⟨.cons outline below' rest', ?_⟩
      intro boxes' hplain h hfit
      apply h.expands_kept hvalid hfit hscoped hnodes.1 _ _ houtline (hbelow' boxes' hplain h hfit)
        (hrest' boxes' hplain h hfit)
      . rintro b' hb' rfl
        rcases Box.exists_plain hplain.symm hb' with ⟨b, hb, heq⟩
        have hinitializer := Box.initializer_of_plain heq
        exact hvalue ⟨b, hb, by rw [hinitializer]⟩
      . rintro b' hb' id rfl hnamed
        rcases Box.exists_plain hplain.symm hb' with ⟨b, hb, heq⟩
        exact hname ⟨b, hb, id, rfl, by rw [Box.decl_of_plain heq, hnamed]⟩

/-! ### Boxes of the same variable -/

section Same

variable {boxes' : List Box} {b' : Box} (h : Accurate field p boxes) (h' : Accurate field p boxes')
variable (hb : b ∈ boxes) (hb' : b' ∈ boxes') (hdecl : b.decl = b'.decl)

include h h' hb hb' hdecl

/-- The boxes of a variable have the same names, perhaps in another order. -/
theorem perm_references : b.references.toList.Perm b'.references.toList := by
  apply (List.perm_ext_iff_of_nodup (h.nodup b hb) (h'.nodup b' hb')).mpr
  intro id
  rw [Array.mem_toList_iff, Array.mem_toList_iff, h.references b hb, h'.references b' hb', hdecl]

theorem size_references_eq : b.references.size = b'.references.size :=
  (h.perm_references h' hb hb' hdecl).length_eq

/-- The boxes of a variable have the same value of the same type. -/
theorem value_eq (hscoped : p.WellScoped) :
    b.initializer = b'.initializer ∧ b.valueTy = b'.valueTy := by
  have hinitializer := h.initializer b hb
  rw [hdecl] at hinitializer
  rcases exists_decl?_of_typed h.typed h.once b hb with ⟨d, hd, hty⟩
  rcases exists_decl?_of_typed h'.typed h'.once b' hb' with ⟨d', hd', hty'⟩
  rw [hdecl, hd'] at hd
  cases hd
  refine ⟨?_, hty.trans hty'.symm⟩
  exact hinitializer.value_unique hscoped (h'.unexported b' hb') (h'.initializer b' hb')

end Same

end Accurate

section Runs

variable {options options' : Options} {order order' : LoopOrder} {boxes boxes' : Array Box}

theorem accurate_run (hvalid : p.Valid) (hscoped : p.WellScoped)
    (hok : (run options p).verdict = .ok boxes) : Accurate options.field p boxes.toList := by
  rcases exists_schedule options.order hvalid with ⟨all, hall⟩
  rcases play_of_run_ok hall hvalid hok with ⟨s, hplay, rfl, -⟩
  exact accurate_of_play hall hscoped hplay

section Alike

variable (hscoped : p.WellScoped) (h : Accurate field p boxes.toList)
variable (h' : Accurate field p boxes'.toList)

include hscoped h h'

/-- Boxes of the same variable with the same number differ at most in the order of their names. -/
theorem alike_of_decl (hlabelled : Labelled p boxes) (hlabelled' : Labelled p boxes') {i : Nat}
    {b b' : Box} (hb : boxes[i]? = some b) (hb' : boxes'[i]? = some b')
    (hdecl : b.decl = b'.decl) : b.Alike b' := by
  have hmem : b ∈ boxes.toList := Array.mem_toList_iff.mpr (Array.mem_of_getElem? hb)
  have hmem' : b' ∈ boxes'.toList := Array.mem_toList_iff.mpr (Array.mem_of_getElem? hb')
  refine ⟨?_, h.perm_references h' hmem hmem' hdecl⟩
  rcases h.exists_decl? hmem with ⟨d, hd, -⟩
  have hd' := hd
  rw [hdecl] at hd'
  rcases hlabelled i b hb with ⟨hnumber, hlabel⟩
  rcases hlabelled' i b' hb' with ⟨hnumber', hlabel'⟩
  rcases hlabel d hd with ⟨hname, hloc⟩
  rcases hlabel' d hd' with ⟨hname', hloc'⟩
  rcases h.value_eq h' hmem hmem' hdecl hscoped with ⟨hinitializer, hvalueTy⟩
  have hfield := (h.field b hmem).trans (h'.field b' hmem').symm
  unfold Box.plain
  rw [hdecl, hname, hname', hloc, hloc', hnumber, hnumber', hfield, hvalueTy, hinitializer]

theorem forall₂_alike (hlabelled : Labelled p boxes) (hlabelled' : Labelled p boxes')
    (hdecls : boxes.toList.map Box.decl = boxes'.toList.map Box.decl) :
    List.Forall₂ Box.Alike boxes.toList boxes'.toList := by
  have hlength : boxes.toList.length = boxes'.toList.length := by
    rw [← List.length_map Box.decl, hdecls, List.length_map]
  apply List.forall₂_iff_get.mpr ⟨hlength, _⟩
  intro i hi hi'
  have hb : boxes.toList[i]? = some boxes.toList[i] := List.getElem?_eq_getElem hi
  have hb' : boxes'.toList[i]? = some boxes'.toList[i] := List.getElem?_eq_getElem hi'
  have hdecl : (boxes.toList.map Box.decl)[i]? = (boxes'.toList.map Box.decl)[i]? := by
    rw [hdecls]
  rw [List.getElem?_map, List.getElem?_map, hb, hb'] at hdecl
  injection hdecl with hdecl
  rw [Array.getElem?_toList] at hb hb'
  exact alike_of_decl hscoped h h' hlabelled hlabelled' hb hb' hdecl

omit hscoped in
/-- Boxes of the same variables have as many names. -/
theorem perm_boxes (hmem : ∀ decl,
      decl ∈ boxes.toList.map Box.decl ↔ decl ∈ boxes'.toList.map Box.decl) :
    (boxes.toList.map fun b => (b.decl, b.references.size)).Perm
      (boxes'.toList.map fun b => (b.decl, b.references.size)) := by
  have hnodup {boxes : List Box} (h : (boxes.map Box.decl).Nodup) :
      (boxes.map fun b => (b.decl, b.references.size)).Nodup := by
    apply List.Nodup.of_map Prod.fst
    rw [List.map_map]
    exact h
  have hsub {boxes boxes' : List Box} (h : Accurate field p boxes) (h' : Accurate field p boxes')
      (hmem : ∀ decl, decl ∈ boxes.map Box.decl → decl ∈ boxes'.map Box.decl) :
      ∀ entry ∈ boxes.map fun b => (b.decl, b.references.size),
        entry ∈ boxes'.map fun b => (b.decl, b.references.size) := by
    intro entry hentry
    rcases List.mem_map.mp hentry with ⟨b, hb, rfl⟩
    rcases List.mem_map.mp (hmem b.decl (List.mem_map_of_mem hb)) with ⟨b', hb', hdecl⟩
    rw [List.mem_map]
    exact ⟨b', hb', by rw [hdecl, h'.size_references_eq h hb' hb hdecl]⟩
  apply (List.perm_ext_iff_of_nodup (hnodup h.once) (hnodup h'.once)).mpr
  intro entry
  exact ⟨hsub h h' (fun decl => (hmem decl).mp) entry,
    hsub h' h (fun decl => (hmem decl).mpr) entry⟩

end Alike

/-- The trees are the same if the boxes differ at most in the order of their names. -/
theorem tree_eq (hvalid : p.Valid) (hscoped : p.WellScoped)
    (hfield : options.field = options'.field)
    (hok : (run options p).verdict = .ok boxes) (hok' : (run options' p).verdict = .ok boxes')
    (halike : List.Forall₂ Box.Alike boxes.toList boxes'.toList)
    (hfit : (run options p).program.Addressable) :
    (run options p).program.tree = (run options' p).program.tree := by
  have h := accurate_run hvalid hscoped hok
  have h' := accurate_run hvalid hscoped hok'
  rw [← hfield] at h'
  have hplain := Box.map_eq_of_alike (fun _ _ halike => halike.plain) halike
  have hprogram := program_of_run_ok hok
  have hprogram' := program_of_run_ok hok'
  have hfold : (boxes.toList.foldl (fun q b => b.apply q) p).Addressable := by
    rw [hprogram] at hfit
    exact hfit
  have hfold' := Box.addressable_congr halike (h.fits hvalid) (h'.fits hvalid) hfold
  have hfit' : (run options' p).program.Addressable := by
    rw [hprogram']
    exact hfold'
  rcases Accurate.exists_common_trees hvalid hscoped options.field boxes.toList hvalid.expands
    reachable_roots with ⟨common, hcommon⟩
  have hnodes : (run options p).program.tree.nodes = common := by
    have hexpands := (hcommon boxes.toList rfl h hfold).with_items (p.items ++ boxes.map Box.item)
    rw [← hprogram, ← roots_of_run_ok hok] at hexpands
    exact (valid_program_run hvalid hfit).expands.unique hexpands
  have hnodes' : (run options' p).program.tree.nodes = common := by
    have hexpands :=
      (hcommon boxes'.toList hplain.symm h' hfold').with_items (p.items ++ boxes'.map Box.item)
    rw [← hprogram', ← roots_of_run_ok hok'] at hexpands
    exact (valid_program_run hvalid hfit').expands.unique hexpands
  have hfiles : (run options p).program.files = (run options' p).program.files := by
    rw [hprogram, hprogram']
    exact Box.files_foldl_apply.trans Box.files_foldl_apply.symm
  have hitems : (run options p).program.items = (run options' p).program.items := by
    rw [hprogram, hprogram']
    dsimp only
    rw [Box.items_congr hplain]
  have hdecls : (run options p).program.decls = (run options' p).program.decls := by
    rw [hprogram, hprogram']
    exact Box.decls_foldl_congr hplain rfl
  calc (run options p).program.tree
    _ = ⟨(run options p).program.files, (run options p).program.items.map Toplevel.shape,
          (run options p).program.decls, common⟩ := by rw [← hnodes]; rfl
    _ = ⟨(run options' p).program.files, (run options' p).program.items.map Toplevel.shape,
          (run options' p).program.decls, common⟩ := by rw [hfiles, hitems, hdecls]
    _ = (run options' p).program.tree := by rw [← hnodes']; rfl

end Runs

/--
The order of the two parts of a loop does not matter for which variables are boxed and how many
names they have. If nothing is assigned in the condition of a loop, then there is the same report,
and the programs that are left behind stand for the same tree.
-/
theorem loopOrder_run (field : String) (order order' : LoopOrder) (p : Program) (hvalid : p.Valid)
    (hscoped : p.WellScoped) (boxes boxes' : Array Box)
    (hok : (run ⟨field, order⟩ p).verdict = .ok boxes)
    (hok' : (run ⟨field, order'⟩ p).verdict = .ok boxes') :
    (boxes.toList.map fun b => (b.decl, b.references.size)).Perm
      (boxes'.toList.map fun b => (b.decl, b.references.size)) ∧
    (p.QuietConditions →
      (run ⟨field, order⟩ p).report = (run ⟨field, order'⟩ p).report ∧
      ((run ⟨field, order⟩ p).program.Addressable →
        (run ⟨field, order⟩ p).program.tree = (run ⟨field, order'⟩ p).program.tree)) := by
  have h := accurate_run hvalid hscoped hok
  have h' := accurate_run hvalid hscoped hok'
  rcases exists_schedule order hvalid with ⟨all, hall⟩
  rcases exists_schedule order' hvalid with ⟨all', hall'⟩
  rcases play_of_run_ok hall hvalid hok with ⟨s, hplay, rfl, -⟩
  rcases play_of_run_ok hall' hvalid hok' with ⟨s', hplay', rfl, -⟩
  constructor
  . apply perm_boxes h h'
    intro decl
    exact mem_decls_iff_of_play hall hall' hscoped hplay hplay'
  . intro hquiet
    have hdecls := decls_eq_of_play hall hall' hscoped hplay hplay' hquiet
    have halike := forall₂_alike hscoped h h' (labelled_run hok) (labelled_run hok') hdecls
    constructor
    . unfold Outcome.report
      rw [hok, hok']
      have hentries := Box.map_eq_of_alike (fun _ _ halike => halike.entry_eq) halike
      rw [← Array.toList_map, ← Array.toList_map, Array.toList_inj] at hentries
      exact congrArg Except.ok hentries
    . exact tree_eq hvalid hscoped rfl hok hok' halike

/--
A function with a variable `x`, which is assigned by a function inside. There is a loop with `x` in
its condition, and its body is a function that returns `x`.
-/
def looping : Program where
  files := #[]
  items := #[.stats .dummy [⟨0⟩]]
  decls := #[⟨"f", none, .dummy, .any, false⟩, ⟨"x", none, .dummy, .boolean, false⟩,
    ⟨"g", none, .dummy, .any, false⟩, ⟨"h", none, .dummy, .any, false⟩]
  stats := #[.decl .dummy [⟨0⟩] [⟨0⟩], .decl .dummy [⟨1⟩] [⟨1⟩], .decl .dummy [⟨2⟩] [⟨2⟩],
    .whileLoop .dummy ⟨3⟩ ⟨[⟨4⟩]⟩, .decl .dummy [⟨3⟩] [⟨4⟩], .assign .dummy [⟨0⟩] [⟨5⟩],
    .ret .dummy [⟨6⟩]]
  exprs := #[⟨.dummy, .any, .lambda [] ⟨[⟨1⟩, ⟨2⟩, ⟨3⟩]⟩⟩, ⟨.dummy, .boolean, .bool true⟩,
    ⟨.dummy, .any, .lambda [] ⟨[⟨5⟩]⟩⟩, ⟨.dummy, .boolean, .var ⟨1⟩⟩,
    ⟨.dummy, .any, .lambda [] ⟨[⟨6⟩]⟩⟩, ⟨.dummy, .boolean, .bool false⟩,
    ⟨.dummy, .boolean, .var ⟨2⟩⟩]
  vars := #[⟨.dummy, .boolean, .name "x" (.variable ⟨1⟩)⟩,
    ⟨.dummy, .boolean, .name "x" (.variable ⟨1⟩)⟩, ⟨.dummy, .boolean, .name "x" (.variable ⟨1⟩)⟩]

def loopingNodes : List (List ExprId × Node) :=
  [([], .stat ⟨0⟩), ([], .expr ⟨0⟩), ([⟨0⟩], .stat ⟨1⟩), ([⟨0⟩], .expr ⟨1⟩), ([⟨0⟩], .stat ⟨2⟩),
    ([⟨0⟩], .expr ⟨2⟩), ([⟨2⟩, ⟨0⟩], .stat ⟨5⟩), ([⟨2⟩, ⟨0⟩], .var ⟨0⟩), ([⟨2⟩, ⟨0⟩], .expr ⟨5⟩),
    ([⟨0⟩], .stat ⟨3⟩), ([⟨0⟩], .expr ⟨3⟩), ([⟨0⟩], .var ⟨1⟩), ([⟨0⟩], .stat ⟨4⟩),
    ([⟨0⟩], .expr ⟨4⟩), ([⟨4⟩, ⟨0⟩], .stat ⟨6⟩), ([⟨4⟩, ⟨0⟩], .expr ⟨6⟩), ([⟨4⟩, ⟨0⟩], .var ⟨2⟩)]

theorem wellScoped_looping : looping.WellScoped :=
  @wellScoped_of_nodes looping loopingNodes (by decide) (by decide) (by decide) (by decide)

theorem quietConditions_looping : looping.QuietConditions := by
  have hloop {stat : Stat} {loop : StatId} (h : looping.stat? loop = some stat) :
      stat ∈ looping.stats.toList :=
    Array.mem_toList_iff.mpr (Array.mem_of_getElem? h)
  rintro condition ⟨loop, loc, body, -, hstat⟩ ⟨stat, _, _, _, hassign, -⟩
  have hcondition : condition = ⟨3⟩ := by
    rcases hstat with hstat | hstat
    . have hmem := hloop hstat
      simp [looping] at hmem
      exact hmem.2.1
    . have hmem := hloop hstat
      simp [looping] at hmem
  subst hcondition
  have hmem : Node.stat stat ∈ [Node.expr ⟨3⟩, .var ⟨1⟩] :=
    hassign.mem_of_closed (by decide) (by decide)
  simp at hmem

/-- The names of `x` are met in another order, and the boxes end up the same. -/
theorem loopOrder_run_looping :
    looping.Valid ∧ looping.WellScoped ∧ looping.QuietConditions ∧
      (run ⟨"value", .bodyFirst⟩ looping).program.Addressable ∧
      ∃ boxes boxes', (run ⟨"value", .bodyFirst⟩ looping).verdict = .ok boxes ∧
        (run ⟨"value", .conditionFirst⟩ looping).verdict = .ok boxes' ∧
        boxes.toList.map Box.references = [#[⟨0⟩, ⟨2⟩, ⟨1⟩]] ∧
        boxes'.toList.map Box.references = [#[⟨0⟩, ⟨1⟩, ⟨2⟩]] ∧
        (run ⟨"value", .bodyFirst⟩ looping).report =
          (run ⟨"value", .conditionFirst⟩ looping).report ∧
        (run ⟨"value", .bodyFirst⟩ looping).program.tree =
          (run ⟨"value", .conditionFirst⟩ looping).program.tree := by
  have hvalid : looping.Valid := by decide +kernel
  have hfit : (run ⟨"value", .bodyFirst⟩ looping).program.Addressable := by decide +kernel
  have hreferences :
      (run ⟨"value", .bodyFirst⟩ looping).verdict.toOption.map (·.toList.map Box.references) =
        some [#[⟨0⟩, ⟨2⟩, ⟨1⟩]] := by decide +kernel
  have hreferences' :
      (run ⟨"value", .conditionFirst⟩ looping).verdict.toOption.map (·.toList.map Box.references) =
        some [#[⟨0⟩, ⟨1⟩, ⟨2⟩]] := by decide +kernel
  cases hok : (run ⟨"value", .bodyFirst⟩ looping).verdict with
  | error stop =>
    rw [hok] at hreferences
    cases hreferences
  | ok boxes =>
    cases hok' : (run ⟨"value", .conditionFirst⟩ looping).verdict with
    | error stop =>
      rw [hok'] at hreferences'
      cases hreferences'
    | ok boxes' =>
      rw [hok] at hreferences
      rw [hok'] at hreferences'
      injection hreferences with hreferences
      injection hreferences' with hreferences'
      have hsame := (loopOrder_run "value" .bodyFirst .conditionFirst looping hvalid
        wellScoped_looping boxes boxes' hok hok').2 quietConditions_looping
      exact ⟨hvalid, wellScoped_looping, quietConditions_looping, hfit, boxes, boxes', rfl, rfl,
        hreferences, hreferences', hsame.1, hsame.2 hfit⟩

end Boxing

end Upvalue

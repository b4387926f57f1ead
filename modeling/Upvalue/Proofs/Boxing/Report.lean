import Upvalue.Proofs.Boxing.Coherence
import Upvalue.Proofs.Boxing.Settled
import Mathlib.Data.Set.Card

/-!
This module contains the proof that what is reported about the boxes, the items of their types and
the rewritten program agree, and that the boxes are in the order in which the functions are left.
-/

namespace Upvalue

/-- What is reported about a variable that was moved into a box. -/
structure Entry where
  decl : DeclId
  name : String
  typeName : String
  /-- How many names were turned into accesses. -/
  references : Nat
deriving DecidableEq, Repr

def Box.entry (b : Box) : Entry :=
  ⟨b.decl, b.name, b.typeName, b.references.size⟩

/--
A variable form is an access to a field. What it accesses is a simple name of a variable that has a
given type.
-/
def Program.Opens (p : Program) (field : String) (decl : DeclId) (ty : Ty) (id : VarId) : Prop :=
  ∃ loc valueTy base loc' name loc'' text, p.var? id = some ⟨loc, valueTy, .dot base field⟩ ∧
    p.expr? base = some ⟨loc', ty, .var name⟩ ∧
    p.var? name = some ⟨loc'', ty, .name text (.variable decl)⟩

namespace Boxing

open Program

/-- The entry and the item of the box at a position say what is found in the program. -/
def Agrees (field : String) (p q : Program) (i : Nat) (b : Box) : Prop :=
  ∃ d typeName ty, p.decl? b.decl = some d ∧
    typeName = "$" ++ d.name ++ "_box" ++ toString (i + 1) ∧ ty = Ty.box typeName field d.ty ∧
    q.decl? b.decl = some { d with ty := ty } ∧
    b.item = .record d.loc typeName [⟨field, none, d.ty⟩] ty ∧
    b.entry = ⟨b.decl, d.name, typeName,
      Set.ncard {id | q.Reachable (.var id) ∧ q.Opens field b.decl ty id}⟩

/-- Of two functions, the first one is left before the second one. -/
def LeftBefore (past : List Moment) (home home' : List ExprId) : Prop :=
  ∃ before between after, past = before ++ ⟨home, .leave⟩ :: (between ++ ⟨home', .leave⟩ :: after)

/--
The function that declares a variable is left before the one that declares another variable, or it
is the same function and the variable is assigned first.
-/
def BoxedBefore (p : Program) (past : List Moment) (decl decl' : DeclId) : Prop :=
  ∃ home place position home' place' position', p.BoundAt decl home place position ∧
    p.BoundAt decl' home' place' position' ∧
      (LeftBefore past home home' ∨ home = home' ∧ Earlier p past decl decl')

variable {order : LoopOrder} {field : String} {p q : Program} {all past rest : List Moment}
variable {current final : List ExprId} {m : Moment} {s s' : State}

/-! ### Entries -/

section Labels

/-- The boxes are numbered, and they have the names and the locations of their variables. -/
def Labelled (p : Program) (boxes : Array Box) : Prop :=
  ∀ i b, boxes[i]? = some b → b.number = i + 1 ∧
    ∀ d, p.decl? b.decl = some d → b.name = d.name ∧ b.loc = d.loc

theorem Changes.labelled (h : Changes field s s') (hs : Labelled p s.boxes)
    (hprogram : s.program = s.boxes.toList.foldl (fun q b => b.apply q) p) :
    Labelled p s'.boxes := by
  induction h with
  | refl => exact hs
  | @tail s₁ s₂ hchanges hchange ih =>
    rcases hchange.program with ⟨-, hboxes⟩ | ⟨b, -, hboxes, hnumber, d, hd, hname, hloc, -⟩
    . rwa [hboxes]
    . rw [hboxes]
      intro i b' hb'
      rw [Array.getElem?_push] at hb'
      split at hb'
      . next heq =>
        cases hb'
        rw [heq]
        refine ⟨hnumber, ?_⟩
        intro d' hd'
        -- The boxes before this one change nothing but the type of the variable.
        rcases Box.exists_decl?_foldl_apply s₁.boxes.toList hd' with ⟨ty, hfold⟩
        rw [← Changes.program hchanges hprogram, hd] at hfold
        cases hfold
        exact ⟨hname, hloc⟩
      . exact ih i b' hb'

end Labels

section References

variable {boxes : Array Box} {b : Box}

/-- An access to the box of a variable was a name of the variable. -/
theorem Boxed.named?_of_opens (h : Boxed field boxes.toList p q) (hvalid : p.Valid)
    (hb : b ∈ boxes.toList) {id : VarId} {ty : Ty} (hid : q.Reachable (.var id))
    (hopens : q.Opens field b.decl ty id) :
    p.Reachable (.var id) ∧ p.named? id = some b.decl := by
  rcases hopens with ⟨loc, valueTy, base, loc', name, loc'', text, haccess, hbase, hname⟩
  rcases hid with ⟨around, hid⟩
  cases h.inBoxes.origin hvalid hid with
  | name _ _ hname' =>
    rw [haccess] at hname'
    cases hname'
  | old hold =>
    refine ⟨hold, ?_⟩
    cases h.inBoxes.slot hvalid hold with
    | kept _ hchildren =>
      -- The name would have been there before, but no such name of a boxed variable is left.
      exfalso
      have hbefore : p.Reachable (.var name) := by
        apply h.inBoxes.reachable_name hvalid _ hbase
        apply reachable_child hold
        rw [← hchildren, children_access haccess]
        exact List.mem_singleton_self _
      apply h.inBoxes.named?_ne hvalid hbefore (List.mem_map_of_mem hb)
      rw [named?_of_var? hname]
      rfl
    | name hdecl _ hvar =>
      rw [List.mem_map] at hdecl
      rcases hdecl with ⟨b', hb', rfl⟩
      have hnamed : p.named? id = some b'.decl := by
        rw [named?_of_var? hvar]
        rfl
      rcases (h.name b' hb' id hold hnamed).access with
        ⟨var, base', moved, hvar', haccess', hbase', hmoved⟩
      rw [haccess] at haccess'
      cases haccess'
      rw [hbase] at hbase'
      cases hbase'
      rw [hname] at hmoved
      rw [named?_of_var? hvar']
      cases var
      cases hmoved
      rfl

theorem Boxed.opens (h : Boxed field boxes.toList p q) (hb : b ∈ boxes.toList) {id : VarId}
    (hid : p.Reachable (.var id)) (hnamed : p.named? id = some b.decl) :
    q.Opens field b.decl b.ty id := by
  rcases exists_var?_of_named? hnamed with ⟨loc, ty, text, hvar⟩
  rcases (h.name b hb id hid hnamed).access with
    ⟨var, base, moved, hvar', haccess, hbase, hmoved⟩
  rw [hvar] at hvar'
  cases hvar'
  rw [h.field b hb] at haccess
  exact ⟨_, _, _, _, _, _, _, haccess, hbase, hmoved⟩

/-- The names of a box are the ones that have become accesses to it. -/
theorem size_references_eq (h : Boxed field boxes.toList p q)
    (haccurate : Accurate field p boxes.toList) (hvalid : p.Valid) (hb : b ∈ boxes.toList) :
    b.references.size =
      Set.ncard {id | q.Reachable (.var id) ∧ q.Opens field b.decl b.ty id} := by
  have heq : {id | q.Reachable (.var id) ∧ q.Opens field b.decl b.ty id} =
      (b.references.toList.toFinset : Set VarId) := by
    ext id
    rw [Set.mem_ofPred_eq, Finset.mem_coe, List.mem_toFinset, Array.mem_toList_iff,
      haccurate.references b hb]
    constructor
    . rintro ⟨hid, hopens⟩
      exact h.named?_of_opens hvalid hb hid hopens
    . rintro ⟨hid, hnamed⟩
      exact ⟨h.inBoxes.reachable hvalid hid, h.opens hb hid hnamed⟩
  rw [heq, Set.ncard_coe_finset, List.toFinset_card_of_nodup (haccurate.nodup b hb),
    Array.length_toList]

theorem agrees_of_boxed (h : Boxed field boxes.toList p q)
    (haccurate : Accurate field p boxes.toList) (hlabelled : Labelled p boxes)
    (hprogram : ∀ decl, q.decl? decl =
      (boxes.toList.foldl (fun q b => b.apply q) p).decl? decl)
    (hvalid : p.Valid) {i : Nat} (hb : boxes[i]? = some b) : Agrees field p q i b := by
  have hmem : b ∈ boxes.toList := Array.mem_toList_iff.mpr (Array.mem_of_getElem? hb)
  rcases hlabelled i b hb with ⟨hnumber, hlabel⟩
  rcases haccurate.exists_decl? hmem with ⟨d, hd, hty, hretyped⟩
  rw [← hprogram] at hretyped
  rcases hlabel d hd with ⟨hname, hloc⟩
  have hfield := h.field b hmem
  have htypeName : b.typeName = "$" ++ d.name ++ "_box" ++ toString (i + 1) := by
    unfold Box.typeName
    rw [hname, hnumber]
  refine ⟨d, b.typeName, b.ty, hd, htypeName, ?_, hretyped, ?_, ?_⟩
  . unfold Box.ty
    rw [hfield, hty]
  . unfold Box.item
    rw [hfield, hty, hloc]
  . unfold Box.entry
    rw [hname, size_references_eq h haccurate hvalid hmem]

end References

/-! ### The order of the boxes -/

section Order

theorem LeftBefore.append {home home' : List ExprId} (h : LeftBefore past home home') :
    LeftBefore (past ++ [m]) home home' := by
  rcases h with ⟨before, between, after, rfl⟩
  refine ⟨before, between, after ++ [m], ?_⟩
  simp

theorem leftBefore_of_mem {home home' : List ExprId} (h : ⟨home, .leave⟩ ∈ past) :
    LeftBefore (past ++ [⟨home', .leave⟩]) home home' := by
  rcases List.append_of_mem h with ⟨before, between, rfl⟩
  refine ⟨before, between, [], ?_⟩
  simp

theorem BoxedBefore.append {decl decl' : DeclId} (h : BoxedBefore p past decl decl') :
    BoxedBefore p (past ++ [m]) decl decl' := by
  rcases h with ⟨home, place, position, home', place', position', hbound, hbound', horder⟩
  refine ⟨home, place, position, home', place', position', hbound, hbound', ?_⟩
  exact horder.imp LeftBefore.append fun h => ⟨h.1, h.2.append⟩

/-- The functions of the boxed variables have been left, in the order of the boxes. -/
structure Sequenced (p : Program) (past : List Moment) (s : State) : Prop where
  left : ∀ b ∈ s.boxes.toList, ∃ home place position, p.BoundAt b.decl home place position ∧
    ⟨home, .leave⟩ ∈ past
  pairwise : (s.boxes.toList.map Box.decl).Pairwise (BoxedBefore p past)

namespace Sequenced

theorem start (p : Program) : Sequenced p [] (.start p) := by
  constructor
  . intro b hb
    cases hb
  . exact List.Pairwise.nil

theorem keep (h : Sequenced p past s) (hboxes : s'.boxes = s.boxes) :
    Sequenced p (past ++ [m]) s' := by
  constructor
  . rw [hboxes]
    intro b hb
    rcases h.left b hb with ⟨home, place, position, hbound, hmem⟩
    exact ⟨home, place, position, hbound, List.mem_append_left _ hmem⟩
  . rw [hboxes]
    exact h.pairwise.imp BoxedBefore.append

theorem leave (h : Sequenced p past s) (hall : Schedule order p all) {func : ExprId}
    {outer : List ExprId} (hdecides : Decides p all past (func :: outer) s)
    (hordered : Ordered p past s) {s₁ : State} {scope : FunctionScope}
    (hexit : s.exit = .ok (scope, s₁))
    (hboxes : scope.boxable.forM (Pass.box field) s₁ = .ok () s') :
    Sequenced p (past ++ [⟨func :: outer, .leave⟩]) s' := by
  rcases State.exit_ok hexit with ⟨stack, hstack, rfl⟩
  rcases Pass.forM_box_ok hboxes with ⟨boxes, hdecls, -, hlist, -⟩
  dsimp only at hlist
  have hbound : ∀ decl ∈ boxes.map Box.decl, ∃ place position,
      p.BoundAt decl (func :: outer) place position := by
    intro decl hdecl
    rw [hdecls, hdecides.mem_boxable_iff hstack] at hdecl
    exact hall.register_mem_iff.mp hdecl.1.1
  constructor
  . intro b hb
    rw [hlist, List.mem_append] at hb
    rcases hb with hb | hb
    . rcases h.left b hb with ⟨home, place, position, hplace, hmem⟩
      exact ⟨home, place, position, hplace, List.mem_append_left _ hmem⟩
    . rcases hbound b.decl (List.mem_map_of_mem hb) with ⟨place, position, hplace⟩
      exact ⟨_, place, position, hplace, by simp⟩
  . rw [hlist, List.map_append, List.pairwise_append]
    refine ⟨h.pairwise.imp BoxedBefore.append, ?_, ?_⟩
    . have hpairwise : (boxes.map Box.decl).Pairwise (Earlier p past) := by
        rw [hdecls]
        apply List.Pairwise.filter
        apply hordered _ scope (ScopeStack.at?_of_exit? hstack)
      apply hpairwise.imp_of_mem
      intro decl decl' hdecl hdecl' hearlier
      rcases hbound decl hdecl with ⟨place, position, hplace⟩
      rcases hbound decl' hdecl' with ⟨place', position', hplace'⟩
      exact ⟨_, place, position, _, place', position', hplace, hplace',
        .inr ⟨rfl, hearlier.append⟩⟩
    . -- The functions of the boxes before have been left already.
      intro decl hdecl decl' hdecl'
      rw [List.mem_map] at hdecl
      rcases hdecl with ⟨b, hb, rfl⟩
      rcases h.left b hb with ⟨home, place, position, hplace, hmem⟩
      rcases hbound decl' hdecl' with ⟨place', position', hplace'⟩
      exact ⟨home, place, position, _, place', position', hplace, hplace',
        .inl (leftBefore_of_mem hmem)⟩

theorem tick (h : Sequenced p past s) (hall : Schedule order p all)
    (hdecides : Decides p all past current s) (hordered : Ordered p past s)
    (hflow : Follows current [m] final) (hs : Tick field m.action s s') :
    Sequenced p (past ++ [m]) s' := by
  cases hflow with
  | leave =>
    cases hs with
    | leave hexit hboxes => exact h.leave hall hdecides hordered hexit hboxes
  | enter => exact h.keep (hs.boxes_eq (by simp))
  | step _ hne => exact h.keep (hs.boxes_eq hne)

end Sequenced

theorem sequenced_of_play (hall : Schedule order p all) (hscoped : p.WellScoped)
    (h : Pass.play field all (.start p) = .ok () s) : Sequenced p all s := by
  have hinvariant := invariant_of_play
    (P := fun past current s => (Decides p all past current s ∧ Ordered p past s) ∧
      Sequenced p past s) hall ⟨⟨.start p all, .start p⟩, .start p⟩
    (fun hsplit hflow htracks _ ⟨⟨hdecides, hordered⟩, hsequenced⟩ hs =>
      ⟨⟨hdecides.tick hall hscoped htracks hsplit hflow hs,
        hordered.tick hall hscoped htracks hdecides hsplit hflow hs⟩,
        hsequenced.tick hall hdecides hordered hflow hs⟩)
    (List.append_nil all).symm hall.follows h
  exact hinvariant.2.2.2

/-- A function is not left before the functions inside of it. -/
theorem not_leftBefore_of_suffix (hall : Schedule order p all) {home home' : List ExprId}
    (hsuffix : home' <:+ home) : ¬ LeftBefore all home' home := by
  rintro ⟨before, between, after, hsplit⟩
  have hflow := hall.follows
  rw [hsplit] at hflow
  rcases hflow.of_append with ⟨current, -, hflow⟩
  cases hflow with
  | step _ hne => simp at hne
  | leave =>
    apply hall.not_mem_around_of_leave hsplit ⟨home, .leave⟩
    . simp
    . exact hsuffix.subset List.mem_cons_self

theorem not_boxedBefore_of_suffix (hall : Schedule order p all) (hscoped : p.WellScoped)
    {decl decl' : DeclId} (hdecl : p.Unexported decl) (hdecl' : p.Unexported decl')
    {home home' : List ExprId} {place place' : Place} {position position' : Nat}
    (hbound : p.BoundAt decl home place position)
    (hbound' : p.BoundAt decl' home' place' position') (hsuffix : home' <:+ home)
    (hne : home' ≠ home) : ¬ BoxedBefore p all decl' decl := by
  rintro ⟨_, _, _, _, _, _, hbound₁', hbound₁, horder⟩
  rw [hall.home_unique hscoped hdecl' (hall.register_mem_iff.mpr ⟨_, _, hbound₁'⟩)
    (hall.register_mem_iff.mpr ⟨_, _, hbound'⟩), hall.home_unique hscoped hdecl
    (hall.register_mem_iff.mpr ⟨_, _, hbound₁⟩) (hall.register_mem_iff.mpr ⟨_, _, hbound⟩)]
    at horder
  rcases horder with hleft | ⟨heq, -⟩
  . exact not_leftBefore_of_suffix hall hsuffix hleft
  . exact hne heq

end Order

/--
The report, the items and the program that a run leaves behind agree. Every box has an item, its
number is its position, its variable has its type, and its references are the accesses to its field.
The boxes are in the order in which the functions of their variables are left, so that inner
functions come first, and for each function in the order in which the variables are assigned first.
-/
theorem agrees_run (options : Options) (p : Program) (hvalid : p.Valid) (hscoped : p.WellScoped)
    (boxes : Array Box) (hok : (run options p).verdict = .ok boxes)
    (hfit : (run options p).program.Addressable) :
    (run options p).program.items = p.items ++ boxes.map Box.item ∧
    (∀ i b, boxes[i]? = some b → Agrees options.field p (run options p).program i b) ∧
    (∃ all, Unfolds options.order p [] (planProgram p) all ∧
      Pass.visitProgram options (depthLimit p) (.start p) =
        Pass.play options.field all (.start p) ∧
      (boxes.toList.map Box.decl).Pairwise (BoxedBefore p all)) ∧
    ∀ (i j : Nat) (b b' : Box) home place position home' place' position',
      boxes[i]? = some b → boxes[j]? = some b' → p.BoundAt b.decl home place position →
        p.BoundAt b'.decl home' place' position' → home' <:+ home → home' ≠ home → i < j := by
  have hboxed := boxed_run options hvalid hscoped hok hfit
  have hitems := (inBoxes_run options p hvalid hscoped boxes hok hfit).2.2.1
  rcases exists_schedule options.order hvalid with ⟨all, hall⟩
  rcases play_of_run_ok hall hvalid hok with ⟨s, hplay, rfl, hprogram⟩
  have haccurate := accurate_of_play hall hscoped hplay
  have hsequenced := sequenced_of_play hall hscoped hplay
  have hchanges := Pass.changes_play hplay
  have hlabelled : Labelled p s.boxes := Changes.labelled hchanges nofun rfl
  have hfold : s.program = s.boxes.toList.foldl (fun q b => b.apply q) p :=
    Changes.program hchanges rfl
  refine ⟨hitems, ?_, ⟨all, hall.unfolds, Pass.visitProgram_eq_play hall hvalid,
    hsequenced.pairwise⟩, ?_⟩
  . intro i b hb
    apply agrees_of_boxed hboxed haccurate hlabelled _ hvalid hb
    intro decl
    rw [hprogram, ← hfold]
    rfl
  . intro i j b b' home place position home' place' position' hb hb' hbound hbound' hsuffix hne
    have hunexported {k : Nat} {b : Box} (hb : s.boxes[k]? = some b) : p.Unexported b.decl :=
      haccurate.unexported b (Array.mem_toList_iff.mpr (Array.mem_of_getElem? hb))
    have hnot := not_boxedBefore_of_suffix hall hscoped (hunexported hb) (hunexported hb') hbound
      hbound' hsuffix hne
    by_contra hle
    rcases Nat.lt_or_eq_of_le (Nat.not_lt.mp hle) with hlt | rfl
    . apply hnot
      have hpairwise := hsequenced.pairwise
      rw [List.pairwise_map, List.pairwise_iff_getElem] at hpairwise
      rcases Array.getElem?_eq_some_iff.mp hb with ⟨hi, rfl⟩
      rcases Array.getElem?_eq_some_iff.mp hb' with ⟨hj, rfl⟩
      exact hpairwise j i hj hi hlt
    . rw [hb] at hb'
      cases hb'
      apply hne
      apply hall.home_unique hscoped (hunexported hb)
      . exact hall.register_mem_iff.mpr ⟨_, _, hbound'⟩
      . exact hall.register_mem_iff.mpr ⟨_, _, hbound⟩

/--
A function with a variable `x`, a function inside that has a variable `y`, and one inside of both
that assigns `x` and then `y`.
-/
def layered : Program where
  files := #[]
  items := #[.stats .dummy [⟨0⟩]]
  decls := #[⟨"f", none, .dummy, .any, false⟩, ⟨"x", none, .dummy, .integer, false⟩,
    ⟨"g", none, .dummy, .any, false⟩, ⟨"y", none, .dummy, .integer, false⟩,
    ⟨"h", none, .dummy, .any, false⟩]
  stats := #[.decl .dummy [⟨0⟩] [⟨0⟩], .decl .dummy [⟨1⟩] [⟨1⟩], .decl .dummy [⟨2⟩] [⟨2⟩],
    .decl .dummy [⟨3⟩] [⟨3⟩], .decl .dummy [⟨4⟩] [⟨4⟩], .assign .dummy [⟨0⟩, ⟨1⟩] [⟨5⟩, ⟨6⟩]]
  exprs := #[⟨.dummy, .any, .lambda [] ⟨[⟨1⟩, ⟨2⟩]⟩⟩, ⟨.dummy, .integer, .integer 1⟩,
    ⟨.dummy, .any, .lambda [] ⟨[⟨3⟩, ⟨4⟩]⟩⟩, ⟨.dummy, .integer, .integer 2⟩,
    ⟨.dummy, .any, .lambda [] ⟨[⟨5⟩]⟩⟩, ⟨.dummy, .integer, .integer 3⟩,
    ⟨.dummy, .integer, .integer 4⟩]
  vars := #[⟨.dummy, .integer, .name "x" (.variable ⟨1⟩)⟩,
    ⟨.dummy, .integer, .name "y" (.variable ⟨3⟩)⟩]

/-- The nodes of the functions, each with the function literals around it. -/
def layeredNodes : List (List ExprId × Node) :=
  [([], .stat ⟨0⟩), ([], .expr ⟨0⟩), ([⟨0⟩], .stat ⟨1⟩), ([⟨0⟩], .expr ⟨1⟩), ([⟨0⟩], .stat ⟨2⟩),
    ([⟨0⟩], .expr ⟨2⟩), ([⟨2⟩, ⟨0⟩], .stat ⟨3⟩), ([⟨2⟩, ⟨0⟩], .expr ⟨3⟩),
    ([⟨2⟩, ⟨0⟩], .stat ⟨4⟩), ([⟨2⟩, ⟨0⟩], .expr ⟨4⟩), ([⟨4⟩, ⟨2⟩, ⟨0⟩], .stat ⟨5⟩),
    ([⟨4⟩, ⟨2⟩, ⟨0⟩], .var ⟨0⟩), ([⟨4⟩, ⟨2⟩, ⟨0⟩], .var ⟨1⟩), ([⟨4⟩, ⟨2⟩, ⟨0⟩], .expr ⟨5⟩),
    ([⟨4⟩, ⟨2⟩, ⟨0⟩], .expr ⟨6⟩)]

theorem wellScoped_layered : layered.WellScoped :=
  @wellScoped_of_nodes layered layeredNodes (by decide) (by decide) (by decide) (by decide)

/-- The variable of the inner function is boxed first, although it is assigned last. -/
theorem agrees_run_layered :
    layered.Valid ∧ layered.WellScoped ∧ (run default layered).program.Addressable ∧
      ∃ boxes, (run default layered).verdict = .ok boxes ∧
        boxes.toList.map Box.entry = [⟨⟨3⟩, "y", "$y_box1", 1⟩, ⟨⟨1⟩, "x", "$x_box2", 1⟩] ∧
        (run default layered).program.items = layered.items ++ boxes.map Box.item ∧
        ∀ i b, boxes[i]? = some b →
          Agrees defaultField layered (run default layered).program i b := by
  have hvalid : layered.Valid := by decide +kernel
  have hfit : (run default layered).program.Addressable := by decide +kernel
  have hentries : (run default layered).verdict.toOption.map (·.toList.map Box.entry) =
      some [⟨⟨3⟩, "y", "$y_box1", 1⟩, ⟨⟨1⟩, "x", "$x_box2", 1⟩] := by decide +kernel
  cases hok : (run default layered).verdict with
  | error stop =>
    rw [hok] at hentries
    cases hentries
  | ok boxes =>
    rw [hok] at hentries
    injection hentries with hentries
    rcases agrees_run default layered hvalid wellScoped_layered boxes hok hfit with
      ⟨hitems, hagrees, -⟩
    exact ⟨hvalid, wellScoped_layered, hfit, boxes, rfl, hentries, hitems, hagrees⟩

end Boxing

end Upvalue

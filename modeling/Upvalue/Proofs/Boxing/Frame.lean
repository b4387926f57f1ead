import Upvalue.Proofs.Boxing.Closed
import Upvalue.Proofs.Boxing.Report
import Upvalue.Proofs.Boxing.Sites

/-!
This module contains what a run leaves alone, and how much it adds. The boxes overwrite the slots
that have been written down for them and nothing else, they get the slots that they need and no
more, and no variable is boxed that has not been assigned or that is not of a function. The names of
the program do not have to stay in their functions.
-/

namespace Upvalue

namespace Box

variable {p q : Program} {b : Box} {boxes : List Box}

theorem Fits.mono (h : b.Fits p) (hexprs : p.exprs.size ≤ q.exprs.size)
    (hvars : p.vars.size ≤ q.vars.size) : b.Fits q :=
  ⟨Nat.lt_of_lt_of_le h.initializer hexprs,
    fun id hid => Nat.lt_of_lt_of_le (h.references id hid) hvars⟩

/-- Every access takes two slots. -/
theorem size_foldl_access {ids : List VarId} (h : ∀ id ∈ ids, id.index.toNat < p.vars.size) :
    (ids.foldl b.access p).exprs.size = p.exprs.size + ids.length ∧
      (ids.foldl b.access p).vars.size = p.vars.size + ids.length := by
  induction ids generalizing p with
  | nil => exact ⟨rfl, rfl⟩
  | cons id ids ih =>
    rw [List.forall_mem_cons] at h
    have hvar : p.var? id = some p.vars[id.index.toNat] := Array.getElem?_eq_getElem h.1
    have hexprs := b.size_exprs_access hvar
    have hvars := b.size_vars_access hvar
    have hids : ∀ i ∈ ids, i.index.toNat < (b.access p id).vars.size := by
      intro i hi
      have := h.2 i hi
      omega
    rcases ih hids with ⟨hexprs', hvars'⟩
    rw [List.foldl_cons, List.length_cons]
    omega

theorem Fits.size_apply (h : b.Fits p) :
    (b.apply p).exprs.size = p.exprs.size + (1 + b.references.size) ∧
      (b.apply p).vars.size = p.vars.size + b.references.size := by
  have hlt := h.initializer
  have hvalue : (b.retype p).expr? b.initializer = some p.exprs[b.initializer.index.toNat] := by
    rw [expr?_retype]
    exact Array.getElem?_eq_getElem hlt
  have hwrap := b.size_exprs_wrap hvalue
  have hids : ∀ id ∈ b.references.toList, id.index.toNat < (b.wrap (b.retype p)).vars.size := by
    intro id hid
    rw [vars_wrap, vars_retype]
    exact h.references id (Array.mem_toList_iff.mp hid)
  rcases size_foldl_access (b := b) hids with ⟨hexprs, hvars⟩
  rw [exprs_retype] at hwrap
  rw [vars_wrap, vars_retype] at hvars
  rw [Array.length_toList] at hexprs hvars
  rw [apply_eq]
  omega

theorem size_foldl_apply (h : ∀ b ∈ boxes, b.Fits p) :
    (boxes.foldl (fun q b => b.apply q) p).exprs.size =
        p.exprs.size + (boxes.map fun b => 1 + b.references.size).sum ∧
      (boxes.foldl (fun q b => b.apply q) p).vars.size =
        p.vars.size + (boxes.map fun b => b.references.size).sum := by
  induction boxes generalizing p with
  | nil => exact ⟨rfl, rfl⟩
  | cons b boxes ih =>
    rw [List.forall_mem_cons] at h
    have hsize := h.1.size_apply
    -- Slots are only added, so that the boxes behind still fit.
    have hlater : ∀ b' ∈ boxes, b'.Fits (b.apply p) := by
      intro b' hb'
      exact (h.2 b' hb').mono (by omega) (by omega)
    rcases ih hlater with ⟨hexprs, hvars⟩
    rw [List.foldl_cons, List.map_cons, List.map_cons, List.sum_cons, List.sum_cons]
    omega

end Box

/--
A program is another one with boxes, where slots that have nothing to do with the boxes are as they
were. The boxes need the slots for their values and two slots for each access.
-/
structure Program.Framed (p q : Program) (boxes : Array Box) : Prop where
  files : q.files = p.files
  items : q.items = p.items ++ boxes.map Box.item
  stats : q.stats = p.stats
  size_decls : q.decls.size = p.decls.size
  decl : ∀ (i : Nat) d, p.decls[i]? = some d → ∃ ty, q.decls[i]? = some { d with ty := ty } ∧
    ((∀ b ∈ boxes, i ≠ b.decl.index.toNat) → ty = d.ty)
  size_exprs : q.exprs.size =
    p.exprs.size + (boxes.toList.map fun b => 1 + b.entry.references).sum
  size_vars : q.vars.size = p.vars.size + (boxes.toList.map fun b => b.entry.references).sum
  expr : ∀ (i : Nat) expr, p.exprs[i]? = some expr →
    (∀ b ∈ boxes, i ≠ b.initializer.index.toNat) → q.exprs[i]? = some expr
  var : ∀ (i : Nat) var, p.vars[i]? = some var →
    (∀ b ∈ boxes, var.kind.decl? ≠ some b.decl) → q.vars[i]? = some var

namespace Boxing

open Program

variable {order : LoopOrder} {field : String} {p : Program} {all past rest : List Moment}
variable {current final : List ExprId} {m : Moment} {s s' : State} {decl : DeclId}

/-- A variable has been assigned, and it has been declared in a function at first. -/
def AssignedPast (p : Program) (past : List Moment) (decl : DeclId) : Prop :=
  ∃ around target, ⟨around, .assign target⟩ ∈ past ∧ p.candidate? target = some decl

def LocalPast (past : List Moment) (decl : DeclId) : Prop :=
  ∃ func outer, home? past decl = some (func :: outer)

theorem AssignedPast.append (h : AssignedPast p past decl) : AssignedPast p (past ++ [m]) decl := by
  rcases h with ⟨around, target, hmem, hid⟩
  exact ⟨around, target, List.mem_append_left _ hmem, hid⟩

theorem LocalPast.append (h : LocalPast past decl) : LocalPast (past ++ [m]) decl := by
  rcases h with ⟨func, outer, hhome⟩
  exact ⟨func, outer, home?_append_of_some hhome⟩

/-- There are reasons for all marks in open scopes, and for all boxes. -/
structure Justified (p : Program) (past : List Moment) (s : State) : Prop where
  mutated : ∀ depth scope, s.scopes.at? depth = some scope → ∀ decl ∈ scope.mutated,
    AssignedPast p past decl
  captured : ∀ depth scope, s.scopes.at? depth = some scope → ∀ decl ∈ scope.captured,
    LocalPast past decl
  boxed : ∀ b ∈ s.boxes.toList, AssignedPast p past b.decl ∧ LocalPast past b.decl

namespace Justified

theorem start (p : Program) : Justified p [] (.start p) := by
  have hempty {depth : Nat} {scope : FunctionScope}
      (hscope : (State.start p).scopes.at? depth = some scope) : scope = .empty := by
    change ScopeStack.new.at? depth = some scope at hscope
    rw [ScopeStack.at?_new] at hscope
    split at hscope
    . cases hscope
      rfl
    . cases hscope
  constructor
  . intro depth scope hscope decl hdecl
    rw [hempty hscope] at hdecl
    cases hdecl
  . intro depth scope hscope decl hdecl
    rw [hempty hscope] at hdecl
    cases hdecl
  . intro b hb
    cases hb

theorem mutated_tick (h : Justified p past s) (hall : Schedule order p all)
    (ht : Tracks field p past s) (hsplit : all = past ++ m :: rest)
    (hs : Tick field m.action s s') (depth : Nat) (scope : FunctionScope)
    (hscope : s'.scopes.at? depth = some scope) :
    ∀ decl ∈ scope.mutated, AssignedPast p (past ++ [m]) decl := by
  intro decl hdecl
  rcases hs.mutated hscope with
    hnil | ⟨old, hold, heq | ⟨target, decl', info, hm, hid, -, -, heq⟩⟩
  . rw [hnil] at hdecl
    cases hdecl
  . rw [heq] at hdecl
    exact (h.mutated depth old hold decl hdecl).append
  . rw [heq, FunctionScope.mem_markMutated] at hdecl
    rcases hdecl with rfl | hdecl
    . rcases m with ⟨around, action⟩
      dsimp only at hm
      subst hm
      rw [ht.candidate?_of_assign hall hsplit] at hid
      exact ⟨around, target, by simp, hid⟩
    . exact (h.mutated depth old hold decl hdecl).append

theorem captured_tick (h : Justified p past s) (hrecalls : Recalls p past current s)
    (hs : Tick field m.action s s') (depth : Nat) (scope : FunctionScope)
    (hscope : s'.scopes.at? depth = some scope) :
    ∀ decl ∈ scope.captured, LocalPast (past ++ [m]) decl := by
  intro decl hdecl
  rcases hs.captured hscope with hnil | ⟨old, hold, heq | ⟨decl', info, hinfo, hdepth, heq⟩⟩
  . rw [hnil] at hdecl
    cases hdecl
  . rw [heq] at hdecl
    exact (h.captured depth old hold decl hdecl).append
  . rw [heq, FunctionScope.mem_markCaptured] at hdecl
    rcases hdecl with rfl | hdecl
    . -- Only variables below the module level are marked.
      rcases hrecalls.exists_home hinfo with ⟨home, hhome, hlength⟩
      cases home with
      | nil =>
        rw [List.length_nil] at hlength
        omega
      | cons func outer => exact ⟨func, outer, home?_append_of_some hhome⟩
    . exact (h.captured depth old hold decl hdecl).append

theorem boxed_tick (h : Justified p past s) (hs : Tick field m.action s s') :
    ∀ b ∈ s'.boxes.toList,
      AssignedPast p (past ++ [m]) b.decl ∧ LocalPast (past ++ [m]) b.decl := by
  have hkept : ∀ b ∈ s.boxes.toList,
      AssignedPast p (past ++ [m]) b.decl ∧ LocalPast (past ++ [m]) b.decl :=
    fun b hb => (h.boxed b hb).imp AssignedPast.append LocalPast.append
  by_cases hleave : m.action = .leave
  . rw [hleave] at hs
    cases hs with
    | leave hexit hboxes =>
      rcases State.exit_ok hexit with ⟨stack, hstack, rfl⟩
      rcases Pass.forM_box_ok hboxes with ⟨boxes, hdecls, -, hlist, -⟩
      have htop := ScopeStack.at?_of_exit? hstack
      dsimp only at hlist
      rw [hlist]
      intro b hb
      rcases List.mem_append.mp hb with hb | hb
      . exact hkept b hb
      . have hdecl := List.mem_map_of_mem (f := Box.decl) hb
        rw [hdecls, FunctionScope.mem_boxable] at hdecl
        have hmutated := of_decide_eq_true hdecl.1
        have hcaptured := of_decide_eq_true hdecl.2
        exact ⟨(h.mutated _ _ htop _ hmutated).append, (h.captured _ _ htop _ hcaptured).append⟩
  . rwa [hs.boxes_eq hleave]

end Justified

theorem justified_of_play (hall : Schedule order p all)
    (h : Pass.play field all (.start p) = .ok () s) : Justified p all s := by
  have hinvariant := invariant_of_play (P := fun past _ s => Justified p past s) hall (.start p)
    (fun hsplit _ htracks hrecalls hjustified hs =>
      ⟨hjustified.mutated_tick hall htracks hsplit hs, hjustified.captured_tick hrecalls hs,
        hjustified.boxed_tick hs⟩)
    (List.append_nil all).symm hall.follows h
  exact hinvariant.2.2

/-- The values and the names of the boxes are in slots of the program that was given. -/
theorem NotedIn.fits (hall : Schedule order p all) (hvalid : p.Valid) {b : Box}
    (h : NotedIn p all b) : b.Fits p := by
  have hsplit : all = all ++ [] := (List.append_nil all).symm
  apply Box.fits_of_contains
  . rcases h.initializer with ⟨around, hmem⟩
    exact Sound.contains_of_initializer hall hvalid hsplit hmem
  . intro id hid
    rcases (h.reference hid).1 with ⟨around, hmem⟩
    exact Sound.contains_of_reference hall hsplit hmem

theorem framed_of_noted (hall : Schedule order p all) (hvalid : p.Valid) {boxes : Array Box}
    (hnoted : ∀ b ∈ boxes, NotedIn p all b) :
    Framed p { boxes.toList.foldl (fun q b => b.apply q) p with
      items := p.items ++ boxes.map Box.item } boxes := by
  have hfits : ∀ b ∈ boxes.toList, b.Fits p :=
    fun b hb => (hnoted b (Array.mem_toList_iff.mp hb)).fits hall hvalid
  have hsize := Box.size_foldl_apply hfits
  constructor
  . exact Box.files_foldl_apply
  . rfl
  . exact Box.kept_foldl_apply (f := Program.stats) (fun b p => b.stats_apply) p
  . exact Box.kept_foldl_apply (f := fun p => p.decls.size) (fun b p => by
      rw [Box.decls_apply, Box.size_decls_retype]) p
  . intro i d hd
    rcases Box.exists_decls_foldl_apply boxes.toList hd with ⟨ty, hty, hsame⟩
    refine ⟨ty, hty, ?_⟩
    intro hne
    exact hsame fun b hb => hne b (Array.mem_toList_iff.mp hb)
  . exact hsize.1
  . exact hsize.2
  . intro i expr hexpr hne
    exact Box.exprs_foldl_apply (fun b hb => hne b (Array.mem_toList_iff.mp hb)) hexpr
  . intro i var hvar hne
    apply Box.vars_foldl_apply _ hvar
    rintro b hb id hid rfl
    -- The slot holds a name of the variable.
    have hb := Array.mem_toList_iff.mp hb
    have hnamed := (candidate?_eq_some_iff.mp ((hnoted b hb).candidate? hid)).1
    rw [named?_of_var? hvar] at hnamed
    exact hne b hb hnamed

/--
A run that succeeds changes the types of the boxed variables, the slots of the values that have been
written down for them and the slots of their names. It adds the items of the boxes and the slots
that they need, and everything else is as it was. What is boxed is initialized with the value in its
box, it is not exported, it is assigned, and a function binds it.
-/
theorem framed_run (options : Options) (p : Program) (hvalid : p.Valid) (boxes : Array Box)
    (hok : (run options p).verdict = .ok boxes) :
    Framed p (run options p).program boxes ∧ ∀ b ∈ boxes,
      p.Initializes b.decl b.initializer ∧ p.Unexported b.decl ∧ p.Assigned b.decl ∧
        ∃ func outer place position, p.BoundAt b.decl (func :: outer) place position := by
  rcases exists_schedule options.order hvalid with ⟨all, hall⟩
  rcases play_of_run_ok hall hvalid hok with ⟨s, hplay, rfl, -⟩
  rcases notes_of_play hall (List.append_nil all).symm hall.follows hplay with ⟨-, -, hnotes⟩
  have hjustified := justified_of_play hall hplay
  have hnoted : ∀ b ∈ s.boxes, NotedIn p all b :=
    fun b hb => (hnotes.boxed b (Array.mem_toList_iff.mpr hb)).2
  constructor
  . rw [program_of_run_ok hok]
    exact framed_of_noted hall hvalid hnoted
  . intro b hb
    rcases hjustified.boxed b (Array.mem_toList_iff.mpr hb) with
      ⟨⟨around, target, htarget, hid⟩, func, outer, hhome⟩
    rw [candidate?_eq_some_iff] at hid
    refine ⟨(initializer_mem_iff hall).mp (hnoted b hb).initializer, hid.2,
      hall.assigned_iff.mpr ⟨around, target, htarget, hid.1⟩, func, outer, ?_⟩
    exact hall.register_mem_iff.mp (mem_of_home? hhome)

/-- A variable is boxed although a name of it strays, and only its value and a name of it change. -/
theorem framed_run_stray :
    stray.Valid ∧ ∃ boxes, (run default stray).verdict = .ok boxes ∧
      boxes.toList.map Box.entry = [⟨⟨1⟩, "x", "$x_box1", 1⟩] ∧
      Framed stray (run default stray).program boxes := by
  have hvalid : stray.Valid := by decide +kernel
  have hentries : (run default stray).verdict.toOption.map (·.toList.map Box.entry) =
      some [⟨⟨1⟩, "x", "$x_box1", 1⟩] := by decide +kernel
  cases hok : (run default stray).verdict with
  | error stop =>
    rw [hok] at hentries
    cases hentries
  | ok boxes =>
    rw [hok] at hentries
    injection hentries with hentries
    exact ⟨hvalid, boxes, rfl, hentries, (framed_run default stray hvalid boxes hok).1⟩

end Boxing

end Upvalue

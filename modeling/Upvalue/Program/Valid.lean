import Upvalue.Program.Handles

/-!
This module contains the check that the nodes of a program form a tree: every handle is in range,
and every node that can be reached from the items has exactly one owner.
-/

namespace Upvalue

/-- Why a program cannot be used. -/
inductive InvalidProgram where
  /-- A stored handle is out of range. `size` slots of its kind exist. -/
  | danglingHandle (ref : Ref) (size : Nat)
  /-- A node is reached twice: two nodes own it, or it is inside of itself. -/
  | sharedNode (node : Node)
deriving DecidableEq, Repr

def InvalidProgram.message : InvalidProgram → String
  | .danglingHandle ref size =>
    ref.kind ++ " handle " ++ toString ref.index ++ " is out of range (" ++ toString size
      ++ " allocated)"
  | .sharedNode node =>
    (Ref.node node).kind ++ " " ++ toString (Ref.node node).index
      ++ " is reachable from more than one parent"

theorem count_false_setIfInBounds_lt {marks : Array Bool} {i : Nat} (h : marks[i]? = some false) :
    (marks.setIfInBounds i true).count false < marks.count false := by
  obtain ⟨hi, hfalse⟩ := Array.getElem?_eq_some_iff.mp h
  have hpos : 0 < marks.count false := Array.count_pos_iff.mpr (hfalse ▸ Array.getElem_mem hi)
  rw [Array.setIfInBounds, dif_pos hi, Array.count_set, hfalse]
  have htrue : (true == false) = false := rfl
  simp only [beq_self_eq_true, htrue, if_true, Bool.false_eq_true, if_false]
  omega

namespace Program

/-- The first stored handle that is out of range. -/
def dangling? (p : Program) : Option Ref :=
  p.refs.find? fun ref => !p.contains ref

/--
Follow the nodes of `pending`, the last one first, and the nodes that they own. Returns the first
node that is met twice. `met` has a mark for every slot, a node without a slot counts as met.
-/
def sharedFrom? (p : Program) (met : Array Bool) (pending : List Node) : Option Node :=
  match pending with
  | [] => none
  | node :: pending =>
    if h : met[p.slot node]? = some false then
      have := count_false_setIfInBounds_lt h
      sharedFrom? p (met.setIfInBounds (p.slot node) true) ((p.children node).reverse ++ pending)
    else some node
termination_by met.count false

/-- The first node that is met twice when the nodes of a program are followed from its items. -/
def shared? (p : Program) : Option Node :=
  p.sharedFrom? (Array.replicate p.slotCount false) p.roots.reverse

/--
Check that the nodes of a program form a tree. Declarations are shared, only their range counts.
-/
def validate (p : Program) : Except InvalidProgram Unit :=
  match p.dangling? with
  | some ref => .error (.danglingHandle ref (p.sizeFor ref))
  | none =>
    match p.shared? with
    | some node => .error (.sharedNode node)
    | none => .ok ()

/-- A program whose nodes form a tree. -/
def Valid (p : Program) : Prop :=
  p.validate = .ok ()

instance (p : Program) : Decidable p.Valid :=
  match h : p.validate with
  | .ok () => isTrue h
  | .error e => isFalse (by simp [Valid, h])

end Program

end Upvalue

import Upvalue.Boxing.Action
import Upvalue.Boxing.Box
import Upvalue.Boxing.Error
import Upvalue.Boxing.Registry
import Upvalue.Boxing.Scope

/-!
This module contains the pass that boxes captured variables. A variable that is assigned and that is
used from a function inside of the one that declares it has to live in storage that both functions
share. The pass visits a program, and boxes such a variable when it leaves the function that
declares it. Variables of the module level and exported variables are never boxed.

Every step of the pass either fails and changes nothing, or succeeds. So a run that fails leaves
whole boxes behind.
-/

namespace Upvalue.Boxing

/-- What can be chosen about the pass. -/
structure Options where
  field : String
  order : LoopOrder
deriving DecidableEq, Repr

/-- Boxes have a field with a given name, the bodies of loops are visited first. -/
def Options.ofField (field : String) : Options := ⟨field, .bodyFirst⟩

/-- The name of the field of boxes if nothing else is chosen. -/
def defaultField : String := "value"

instance : Inhabited Options := ⟨.ofField defaultField⟩

/-- What is written down during the pass. -/
inductive Event where
  /-- A function was entered, the depth is the one inside. -/
  | entered (depth : Nat)
  /-- A function was left, the depth is the one outside. -/
  | left (depth : Nat)
  | boxed (box : Box)
deriving Repr

namespace Event

def level : Event → String
  | .entered _ => "TRACE"
  | .left _ => "TRACE"
  | .boxed _ => "DEBUG"

def text : Event → String
  | .entered depth => "entering function scope at depth " ++ toString depth
  | .left depth => "left function scope, back at depth " ++ toString depth
  | .boxed box =>
    "boxed '" ++ box.name ++ "' as " ++ box.typeName ++ " (" ++ toString box.references.size
      ++ " reference" ++ (if box.references.size = 1 then "" else "s") ++ " rewritten)"

end Event

/-- Why the pass stops before the end of the program. -/
inductive Stop where
  /-- The variables of the program cannot be boxed. -/
  | fault (error : BoxingError)
  /-- The program refers to a slot that does not exist. -/
  | outOfRange (ref : Ref)
  /-- The nodes of the program are nested deeper than they can be in a tree. -/
  | tooDeep
deriving DecidableEq, Repr

/-- What is known in the middle of the pass. -/
structure State where
  program : Program
  scopes : ScopeStack
  registry : Registry
  /-- Where each variable is assigned first. -/
  assignments : List (DeclId × Span)
  /-- The boxes that have been applied to the program. -/
  boxes : Array Box
  log : Array Event

namespace State

def start (p : Program) : State :=
  ⟨p, .new, .empty, [], #[], #[]⟩

/-- The declaration of a variable is used that has not been visited. -/
def unregistered (s : State) (decl : DeclId) : Stop :=
  match s.program.decl? decl with
  | some d => .fault (.unregisteredDecl decl d.name d.loc)
  | none => .outOfRange (.decl decl)

/-- A variable is used after its function has been left. -/
def closed (s : State) (decl : DeclId) : Stop :=
  match s.program.decl? decl with
  | some d => .fault (.closedScope decl d.name d.loc)
  | none => .outOfRange (.decl decl)

/--
The declaration that a variable form names, if it is a variable that can be boxed: not for builtins,
unresolved names, exported variables and accesses.
-/
def boxable? (s : State) (id : VarId) : Except Stop (Option DeclId) :=
  match s.program.var? id with
  | none => .error (.outOfRange (.var id))
  | some var =>
    match var.kind.decl? with
    | none => .ok none
    | some decl =>
      match s.program.decl? decl with
      | none => .error (.outOfRange (.decl decl))
      | some d => .ok (if d.exported then none else some decl)

/-- The depth that a declaration was visited at. -/
def depthOf (s : State) (decl : DeclId) : Except Stop Nat :=
  match s.registry.info? decl with
  | some info => .ok info.depth
  | none => .error (s.unregistered decl)

/-- Change the scope of the function that declares a variable. -/
def modifyOwner (s : State) (decl : DeclId) (f : FunctionScope → FunctionScope) :
    Except Stop State := do
  let depth ← s.depthOf decl
  if s.scopes.depth < depth then throw (s.closed decl)
  else if (s.scopes.at? depth).isNone then throw (.fault .scopeUnderflow)
  else return { s with scopes := s.scopes.modify depth f }

def register (s : State) (decl : DeclId) : State :=
  { s with registry := (s.registry.register decl s.scopes.depth).2 }

def setInitializer (s : State) (decl : DeclId) (value : ExprId) : Except Stop State :=
  match s.registry.recordInitializer decl value with
  | .ok registry => .ok { s with registry := registry }
  | .error _ => .error (s.unregistered decl)

/-- Remember an assignment if it is the first one of its variable. -/
def noteAssignment (s : State) (decl : DeclId) (loc : Span) : State :=
  if (s.assignments.lookup decl).isSome then s
  else { s with assignments := (decl, loc) :: s.assignments }

def assign (s : State) (target : VarId) : Except Stop State := do
  match ← s.boxable? target with
  | none => return s
  | some decl =>
    let s' ← s.modifyOwner decl (·.markMutated decl)
    return s'.noteAssignment decl (((s.program.var? target).map Var.loc).getD Span.dummy)

/--
A simple name is used. It is captured if a function of the program stands between its declaration
and the use. The use is recorded in any case, because the variable may be boxed later on.
-/
def reference (s : State) (name : VarId) : Except Stop State := do
  match ← s.boxable? name with
  | none => return s
  | some decl =>
    let depth ← s.depthOf decl
    let s ←
      if depth < s.scopes.depth ∧ 1 < depth then s.modifyOwner decl (·.markCaptured decl)
      else pure s
    match s.registry.recordReference decl name with
    | .ok registry => return { s with registry := registry }
    | .error _ => throw (s.unregistered decl)

def enter (s : State) : State :=
  let scopes := s.scopes.enter
  { s with scopes := scopes, log := s.log.push (.entered scopes.depth) }

/-- A function ends. Returns its scope. -/
def exit (s : State) : Except Stop (FunctionScope × State) :=
  match s.scopes.exit? with
  | some (scope, scopes) =>
    .ok (scope, { s with scopes := scopes, log := s.log.push (.left scopes.depth) })
  | none => .error (.fault .scopeUnderflow)

/-- The box for a variable, with all references that have been recorded. -/
def boxFor (s : State) (field : String) (decl : DeclId) : Except Stop Box :=
  match s.program.decl? decl with
  | none => .error (.outOfRange (.decl decl))
  | some d =>
    match s.registry.info? decl with
    | none => .error (s.unregistered decl)
    | some info =>
      match info.initializer with
      | none =>
        .error (.fault (.uninitializedCapture decl d.name d.loc
          ((s.assignments.lookup decl).getD Span.dummy)))
      | some value =>
        .ok ⟨decl, d.name, d.loc, s.boxes.size + 1, field, d.ty, value, info.references⟩

def addBox (s : State) (box : Box) : State :=
  { s with
      program := box.apply s.program
      boxes := s.boxes.push box
      log := s.log.push (.boxed box) }

end State

/-- A part of the pass. A part that stops keeps what has been done before. -/
abbrev Pass := EStateM Stop State

namespace Pass

/-- A step that changes nothing if it fails. -/
def step (f : State → Except Stop State) : Pass Unit := fun s =>
  match f s with
  | .ok s' => .ok () s'
  | .error stop => .error stop s

def box (field : String) (decl : DeclId) : Pass Unit :=
  step fun s => (s.boxFor field decl).map s.addBox

/-- A function ends, and its variables that are both assigned and captured are boxed. -/
def leave (field : String) : Pass Unit := fun s =>
  match s.exit with
  | .ok (scope, s') => scope.boxable.forM (box field) s'
  | .error stop => .error stop s

/-- Perform an action, where `visit` visits a node. -/
def perform (field : String) (visit : Node → Pass Unit) : Action → Pass Unit
  | .visit node => visit node
  | .register decl => step fun s => .ok (s.register decl)
  | .initializer decl value => step (·.setInitializer decl value)
  | .assign target => step (·.assign target)
  | .reference name => step (·.reference name)
  | .enter => step fun s => .ok s.enter
  | .leave => leave field

/-- Visit a node whose nodes are nested at most as deep as `depth` says. -/
def visit (options : Options) (depth : Nat) (node : Node) : Pass Unit :=
  match depth with
  | 0 => throw .tooDeep
  | depth + 1 => fun s =>
    match plan? options.order s.program node with
    | some actions => actions.forM (perform options.field (visit options depth)) s
    | none => .error (.outOfRange (.node node)) s

def visitProgram (options : Options) (depth : Nat) : Pass Unit := fun s =>
  (planProgram s.program).forM (perform options.field (visit options depth)) s

end Pass

/-- What the pass does to a program. -/
structure Outcome where
  /-- The boxes that were applied, in this order, or why the pass stopped. -/
  verdict : Except Stop (Array Box)
  /-- The program afterwards. -/
  program : Program
  log : Array Event

/--
The depth of nested nodes at which a visit gives up. The nodes that are being visited at the same
time have different slots, so the number of slots is enough for the nodes that are visited. The rest
is for the slots that the pass adds.
-/
def depthLimit (p : Program) : Nat :=
  (p.slotCount + 1) * (p.slotCount + 1)

/--
Box the captured variables of a program. The types of the boxes become the last items, unless the
pass stops.
-/
def run (options : Options) (p : Program) : Outcome :=
  match Pass.visitProgram options (depthLimit p) (.start p) with
  | .ok () s =>
    ⟨.ok s.boxes, { s.program with items := s.program.items ++ s.boxes.map Box.item }, s.log⟩
  | .error stop s => ⟨.error stop, s.program, s.log⟩

end Upvalue.Boxing

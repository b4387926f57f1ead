import Upvalue.Command.Run
import Upvalue.Proofs.Boxing.Cover
import Upvalue.Proofs.Command.Directory
import Upvalue.Proofs.Program.Load

/-!
This module contains the proof that the command either converts a program or leaves everything as it
is. Everything that can go wrong is noticed before the text is written, and the text is written by
one call.
-/

namespace Upvalue.Command

/-- A call to a host either does what it does in a directory, or fails and changes nothing. -/
structure Host.Atomic (host : Host (StateM Directory)) : Prop where
  isFile : ∀ path dir, ((host.isFile path).run dir).2 = dir
  read : ∀ path dir, ((host.read path).run dir).2 = dir
  stored : ∀ path text dir after,
    (host.write path text).run dir = (.ok (), after) → dir.write path text = .ok after
  refused : ∀ path text dir after error,
    (host.write path text).run dir = (.error error, after) → after = dir

theorem Directory.host_write (dir : Directory) (path text : String) :
    (host.write path text).run dir = match dir.write path text with
      | .ok after => (.ok (), after)
      | .error error => (.error error, dir) := by
  cases hwrite : dir.write path text with
  | ok after =>
    simp only [host, bind_pure_comp, StateT.run_bind, StateT.run_get, hwrite, pure_bind]
    rfl
  | error error =>
    simp only [host, bind_pure_comp, StateT.run_bind, StateT.run_get, hwrite, pure_bind]
    rfl

theorem Directory.host_atomic : host.Atomic where
  isFile _ _ := rfl
  read _ _ := rfl
  stored path text dir after h := by
    rw [host_write] at h
    split at h
    . next hwrite =>
      cases h
      exact hwrite
    . cases h
  refused path text dir after error h := by
    rw [host_write] at h
    split at h
    . cases h
    . cases h
      rfl

section Answer

variable {α β : Type} {dir after : Directory} {part : ExceptT Failure (StateM Directory) α}
variable {next : α → ExceptT Failure (StateM Directory) β}

/-- How a part of a command ends, and what becomes of the directory. -/
def answer (dir : Directory) (part : ExceptT Failure (StateM Directory) α) :
    Except Failure α × Directory :=
  part.run.run dir

@[simp]
theorem answer_pure (a : α) : answer dir (pure a) = (.ok a, dir) := rfl

@[simp]
theorem answer_throw (failure : Failure) :
    answer dir (throw failure : ExceptT Failure (StateM Directory) α) = (.error failure, dir) := rfl

theorem answer_lift (call : StateM Directory α) :
    answer dir (liftM call) = (.ok (call.run dir).1, (call.run dir).2) := rfl

theorem answer_bind_ok {a : α} (h : answer dir part = (.ok a, after)) :
    answer dir (part >>= next) = answer after (next a) := by
  have hpart : part dir = (.ok a, after) := h
  simp only [answer, bind, ExceptT.bind, ExceptT.mk, ExceptT.run, StateT.run, StateT.bind, hpart,
    ExceptT.bindCont]

theorem answer_bind_error {failure : Failure} (h : answer dir part = (.error failure, after)) :
    answer dir (part >>= next) = (.error failure, after) := by
  have hpart : part dir = (.error failure, after) := h
  simp only [answer, bind, ExceptT.bind, ExceptT.mk, ExceptT.run, StateT.run, StateT.bind, hpart,
    ExceptT.bindCont]
  rfl

theorem run_mapM_of_forall {call : α → StateM Directory β} {result : α → β}
    (h : ∀ a, (call a).run dir = (result a, dir)) (as : List α) :
    (as.mapM call).run dir = (as.map result, dir) := by
  induction as with
  | nil => rfl
  | cons a as ih =>
    rw [List.mapM_cons, StateT.run_bind, h]
    change (_ :: (StateT.run (as.mapM call) dir).1, (StateT.run (as.mapM call) dir).2) = _
    rw [ih]
    rfl

/-- A call that leaves the directory as it is goes before a part. -/
theorem answer_bind_call {call : StateM Directory α} (h : (call.run dir).2 = dir) :
    answer dir (liftM call >>= next) = answer dir (next (call.run dir).1) := by
  rw [answer_bind_ok (answer_lift call), h]

end Answer

namespace Convert

section Stages

variable (host : Host (StateM Directory)) (dir : Directory)

/-- What the host says about the text of a file. -/
def textAt (path : String) : Except FileError String :=
  ((host.read path).run dir).1

/-- The path of the configuration, if there is one. -/
def configPath? (config : Option String) : Option String :=
  match config with
  | some path => some path
  | none => if ((host.isFile configFile).run dir).1 then some configFile else none

/-- The source texts of a program, as the host has them. -/
def sourcesAt (p : Program) : SourceCache :=
  .ofList (p.files.toList.map fun path => ⟨path, (textAt host dir path).toOption.getD ""⟩)

/-- A configuration that is read, or the one that is used if there is none. -/
inductive Configured (config : Option String) : Config → Prop where
  | read {path text : String} {c : Config} (hpath : configPath? host dir config = some path)
      (htext : textAt host dir path = .ok text) (hparse : Config.parse text = .ok c) :
      Configured config c
  | standard (hpath : configPath? host dir config = none) : Configured config .standard

/-- A configuration that cannot be read, or that is not in the right form. -/
inductive Misconfigured (config : Option String) : Prop where
  | unread {path : String} {error : FileError} (hpath : configPath? host dir config = some path)
      (htext : textAt host dir path = .error error)
  | invalid {path text : String} {error : ConfigError}
      (hpath : configPath? host dir config = some path) (htext : textAt host dir path = .ok text)
      (hparse : Config.parse text = .error error)

/-- A program that is loaded from a file. -/
def Loaded (input : String) (p : Program) : Prop :=
  ∃ text, textAt host dir input = .ok text ∧ Program.load text = .ok p

variable {host dir}

theorem configured_or_misconfigured (config : Option String) :
    (∃ c, Configured host dir config c) ∨ Misconfigured host dir config := by
  cases hpath : configPath? host dir config with
  | none => exact .inl ⟨_, .standard hpath⟩
  | some path =>
    cases htext : textAt host dir path with
    | error error => exact .inr (.unread hpath htext)
    | ok text =>
      cases hparse : Config.parse text with
      | error error => exact .inr (.invalid hpath htext hparse)
      | ok c => exact .inl ⟨c, .read hpath htext hparse⟩

variable (hatomic : host.Atomic)

include hatomic

theorem answer_readConfig (path : String) : answer dir (readConfig host path) =
    answer dir (match textAt host dir path with
      | .error error => throw ⟨"", "failed to read config " ++ path, some error.message⟩
      | .ok text => match Config.parse text with
        | .error error => throw ⟨"", "invalid config " ++ path, some error.message⟩
        | .ok c => return c) :=
  answer_bind_call (hatomic.read path dir)

theorem answer_loadConfig (config : Option String) : answer dir (loadConfig host config) =
    answer dir (match configPath? host dir config with
      | some path => readConfig host path
      | none => return .standard) := by
  unfold loadConfig configPath?
  cases config with
  | some path => rfl
  | none =>
    dsimp only
    rw [answer_bind_call (hatomic.isFile configFile dir)]
    split
    . rfl
    . rfl

theorem Configured.answer_loadConfig {config : Option String} {c : Config}
    (h : Configured host dir config c) : answer dir (loadConfig host config) = (.ok c, dir) := by
  rw [Convert.answer_loadConfig hatomic]
  cases h with
  | read hpath htext hparse =>
    simp only [hpath, answer_readConfig hatomic, htext, hparse, answer_pure]
  | standard hpath => simp only [hpath, answer_pure]

theorem Misconfigured.answer_loadConfig {config : Option String}
    (h : Misconfigured host dir config) :
    ∃ failure, answer dir (loadConfig host config) = (.error failure, dir) := by
  rw [Convert.answer_loadConfig hatomic]
  cases h with
  | unread hpath htext =>
    simp only [hpath, answer_readConfig hatomic, htext, answer_throw]
    exact ⟨_, rfl⟩
  | invalid hpath htext hparse =>
    simp only [hpath, answer_readConfig hatomic, htext, hparse, answer_throw]
    exact ⟨_, rfl⟩

theorem answer_readProgram (style : Style) (input : String) :
    answer dir (readProgram host style input) =
      answer dir (match textAt host dir input with
        | .error error => throw ⟨"", "failed to read " ++ input, some error.message⟩
        | .ok text => match Program.load text with
          | .error error =>
            throw ⟨diagnosticText style .empty [error.diagnostic], "could not load " ++ input, none⟩
          | .ok p => return p) :=
  answer_bind_call (hatomic.read input dir)

theorem run_readSources (p : Program) :
    (readSources host p).run dir = (sourcesAt host dir p, dir) := by
  have hfile (path : String) : (do
      let text? ← host.read path
      return (⟨path, text?.toOption.getD ""⟩ : SourceFile)).run dir
        = (⟨path, (textAt host dir path).toOption.getD ""⟩, dir) := by
    have hread : (host.read path).run dir = (textAt host dir path, dir) :=
      Prod.ext rfl (hatomic.read path dir)
    rw [StateT.run_bind, hread]
    rfl
  unfold readSources
  rw [StateT.run_bind, run_mapM_of_forall hfile]
  rfl

theorem answer_boxProgram (style : Style) (options : Boxing.Options) (p : Program) :
    answer dir (boxProgram host style options p) =
      answer dir (match (Boxing.run options p).verdict with
        | .ok boxes => return ((Boxing.run options p).program, boxes.toList)
        | .error stop => throw ⟨stopReport style
            (sourcesAt host dir (Boxing.run options p).program) stop, "conversion failed",
            none⟩) := by
  unfold boxProgram
  cases hverdict : (Boxing.run options p).verdict with
  | ok boxes => simp only [hverdict]
  | error stop =>
    simp only [hverdict]
    have hsources : (readSources host _).run dir = _ :=
      run_readSources hatomic (Boxing.run options p).program
    apply answer_bind_ok
    change answer dir (liftM (readSources host (Boxing.run options p).program)) = _
    rw [answer_lift, hsources]

omit hatomic

theorem answer_deliver_error {path text : String} {error : FileError} {after : Directory}
    (hwrite : (host.write path text).run dir = (.error error, after)) :
    answer dir (deliver host (some path) text)
      = (.error ⟨"", "failed to write " ++ path, some error.message⟩, after) := by
  unfold deliver
  rw [answer_bind_ok (answer_lift _), hwrite]
  rfl

end Stages

/-! ### Diagnostics -/

section Diagnostics

end Diagnostics

/-! ### Runs -/

section Runs

variable (host : Host (StateM Directory)) (dir : Directory)

/-- What can be in the way of a conversion. -/
inductive Obstacle (input : String) (output config : Option String) (pretty : Bool) : Prop where
  /-- The configuration cannot be read, or it is not in the right form. -/
  | misconfigured (h : Misconfigured host dir config)
  | unread {error : FileError} (htext : textAt host dir input = .error error)
  /-- The input is no program. -/
  | unloaded {text : String} {error : LoadError} (htext : textAt host dir input = .ok text)
      (hload : Program.load text = .error error)
  /-- The variables of the program cannot be boxed. -/
  | stopped {c : Config} {p : Program} {stop : Boxing.Stop} (hconfig : Configured host dir config c)
      (hload : Loaded host dir input p) (hstop : (Boxing.run c.options p).verdict = .error stop)
  /-- The text cannot be written. -/
  | unwritten {c : Config} {p : Program} {boxes : Array Box} {path : String} {error : FileError}
      {after : Directory} (hconfig : Configured host dir config c) (hload : Loaded host dir input p)
      (hok : (Boxing.run c.options p).verdict = .ok boxes) (houtput : output = some path)
      (hwrite : (host.write path (programText pretty (Boxing.run c.options p).program)).run dir
        = (.error error, after))

/-- Where a text goes. `out` is what is printed, and `after` is what becomes of the directory. -/
inductive Delivered (text : String) : Option String → String → Directory → Prop where
  | printed : Delivered text none text dir
  /-- It becomes the text of a file, and everything else stays as it is. -/
  | file {path : String} {file : Path} {after : Directory}
      (hfile : dir.locate path = .ok (.inside file))
      (hnode : ∀ place, after.node place
        = if place = .inside file then .file text else dir.node place)
      (houtput : after.output = dir.output) (herrors : after.errors = dir.errors) :
      Delivered text (some path) "" after
  /-- It is sent to a device, and no file changes. -/
  | device {path : String} {place : Place} {device : Device} {after : Directory}
      (hplace : dir.locate path = .ok place) (hdevice : dir.node place = .device device)
      (hsend : dir.send device text = .ok after) (hfiles : after.files = dir.files) :
      Delivered text (some path) "" after
  /-- It becomes the text of a file that is not in the directory. -/
  | outside {path : String} {place : Place} (hplace : dir.locate path = .ok place)
      (hinside : ∀ file, place ≠ .inside file)
      (hdevice : ∀ device, dir.node place ≠ .device device) : Delivered text (some path) "" dir

variable {host dir}

section Answers

variable (hatomic : host.Atomic) {style : Style} {input : String} {output config : Option String}
variable {pretty : Bool} {c : Config} {p : Program} {boxes : Array Box}

include hatomic

theorem Configured.answer_run (hconfig : Configured host dir config c) :
    answer dir (run host style input output config pretty)
      = answer dir (readProgram host style input >>= fun p =>
          boxProgram host style c.options p >>= fun (p, boxes) =>
            deliver host output (programText pretty p) >>= fun out =>
              return ⟨0, out, if style.quiet then "" else report style boxes⟩) :=
  answer_bind_ok (hconfig.answer_loadConfig hatomic)

theorem answer_run_unread (hconfig : Configured host dir config c) {error : FileError}
    (htext : textAt host dir input = .error error) :
    answer dir (run host style input output config pretty)
      = (.error ⟨"", "failed to read " ++ input, some error.message⟩, dir) := by
  rw [hconfig.answer_run hatomic]
  apply answer_bind_error
  rw [answer_readProgram hatomic, htext, answer_throw]

theorem answer_run_unloaded (hconfig : Configured host dir config c) {text : String}
    {error : LoadError} (htext : textAt host dir input = .ok text)
    (hload : Program.load text = .error error) :
    answer dir (run host style input output config pretty)
      = (.error ⟨diagnosticText style .empty [error.diagnostic], "could not load " ++ input, none⟩,
        dir) := by
  rw [hconfig.answer_run hatomic]
  apply answer_bind_error
  rw [answer_readProgram hatomic, htext]
  simp only [hload, answer_throw]

theorem Loaded.answer_readProgram (hload : Loaded host dir input p) :
    answer dir (readProgram host style input) = (.ok p, dir) := by
  rcases hload with ⟨text, htext, hload⟩
  rw [Convert.answer_readProgram hatomic, htext]
  simp only [hload, answer_pure]

theorem answer_run_stopped (hconfig : Configured host dir config c)
    (hload : Loaded host dir input p) {stop : Boxing.Stop}
    (hstop : (Boxing.run c.options p).verdict = .error stop) :
    answer dir (run host style input output config pretty)
      = (.error ⟨stopReport style (sourcesAt host dir (Boxing.run c.options p).program) stop,
        "conversion failed", none⟩, dir) := by
  rw [hconfig.answer_run hatomic, answer_bind_ok (hload.answer_readProgram hatomic)]
  apply answer_bind_error
  rw [answer_boxProgram hatomic]
  simp only [hstop, answer_throw]

theorem answer_run_boxed (hconfig : Configured host dir config c)
    (hload : Loaded host dir input p) (hok : (Boxing.run c.options p).verdict = .ok boxes) :
    answer dir (run host style input output config pretty)
      = answer dir (deliver host output (programText pretty (Boxing.run c.options p).program)
          >>= fun out =>
            return ⟨0, out, if style.quiet then "" else report style boxes.toList⟩) := by
  have hboxed : answer dir (boxProgram host style c.options p)
      = (.ok ((Boxing.run c.options p).program, boxes.toList), dir) := by
    rw [answer_boxProgram hatomic]
    simp only [hok, answer_pure]
  rw [hconfig.answer_run hatomic, answer_bind_ok (hload.answer_readProgram hatomic),
    answer_bind_ok hboxed]

theorem Misconfigured.answer_run (hconfig : Misconfigured host dir config) :
    ∃ failure, answer dir (run host style input output config pretty) = (.error failure, dir) := by
  rcases hconfig.answer_loadConfig hatomic with ⟨failure, hfailure⟩
  exact ⟨failure, answer_bind_error hfailure⟩

/-- If something is in the way, the conversion fails, and nothing has changed. -/
theorem Obstacle.answer_run (h : Obstacle host dir input output config pretty) :
    ∃ failure, answer dir (run host style input output config pretty) = (.error failure, dir) := by
  cases h with
  | misconfigured hconfig => exact hconfig.answer_run hatomic
  | unread htext =>
    rcases configured_or_misconfigured config with ⟨c, hconfig⟩ | hconfig
    . exact ⟨_, answer_run_unread hatomic hconfig htext⟩
    . exact hconfig.answer_run hatomic
  | unloaded htext hload =>
    rcases configured_or_misconfigured config with ⟨c, hconfig⟩ | hconfig
    . exact ⟨_, answer_run_unloaded hatomic hconfig htext hload⟩
    . exact hconfig.answer_run hatomic
  | stopped hconfig hload hstop => exact ⟨_, answer_run_stopped hatomic hconfig hload hstop⟩
  | unwritten hconfig hload hok houtput hwrite =>
    rw [answer_run_boxed hatomic hconfig hload hok, houtput,
      answer_bind_error (answer_deliver_error hwrite), hatomic.refused _ _ _ _ _ hwrite]
    exact ⟨_, rfl⟩

end Answers

end Runs

end Convert

/-- How the reports and diagnostics of an invocation are written. -/
def Invocation.style (invocation : Invocation) (terminal : Bool) : Convert.Style :=
  ⟨invocation.format, invocation.colored terminal, invocation.quiet⟩

section Command

variable {host : Host (StateM Directory)} {dir after : Directory} {terminal : Bool}
variable {args : List String} {invocation : Invocation} {input : String}
variable {output config : Option String} {pretty : Bool}

end Command

section Examples

open Upvalue.Command.Convert

/-- A program that contains nothing. -/
def blank : Program := ⟨#[], #[], #[], #[], #[], #[]⟩

/-- A directory with a program, and with a file that is no program. -/
def pair : Directory :=
  ⟨[⟨["p.json"], programText false blank⟩, ⟨["q.json"], "[]"⟩], "", ""⟩

end Examples

end Upvalue.Command

import Upvalue.Command.Arguments
import Upvalue.Command.Host
import Upvalue.Config
import Upvalue.Diagnostic.JsonLines
import Upvalue.Diagnostic.Terminal
import Upvalue.Program.Load

/-!
This module contains the command that boxes the captured variables of a program. It reads a program,
and writes the program with its boxes, or says what is wrong with it. Nothing is written before
everything else has succeeded.
-/

namespace Upvalue.Command.Convert

/-- The configuration that is used if no other one is named, and if it is there. -/
def configFile : String := "tern.toml"

/-- How reports and diagnostics are written. -/
structure Style where
  format : Format
  colored : Bool
  quiet : Bool
deriving DecidableEq, Repr

def diagnosticText (style : Style) (cache : SourceCache) (diagnostics : List Diagnostic) : String :=
  match style.format with
  | .text => Terminal.text style.colored cache diagnostics
  | .json => JsonLines.text cache diagnostics

def boxLine (box : Box) : String :=
  "  " ++ box.name ++ " -> " ++ box.typeName ++ " ("
    ++ Terminal.counted box.references.size "reference" ++ ")\n"

/-- What is reported about a box to other tools. -/
def boxJson (box : Box) : Json :=
  Json.obj [("box_type", .str box.typeName), ("decl", .ofNat box.decl.index.toNat),
    ("name", .str box.name), ("references", .ofNat box.references.size)]

def report (style : Style) (boxes : List Box) : String :=
  match style.format with
  | .text =>
    Terminal.print style.colored
      (boxes.map (fun box => .given (boxLine box))
        ++ [.style .green, .style .bold, .fixed "Converted", .reset,
          .fixed (": " ++ toString boxes.length ++ " variable(s) boxed\n")])
  | .json =>
    JsonLines.line (Json.obj [("boxed", .array (boxes.map boxJson)), ("success", .bool true)])

variable {m : Type → Type} [Monad m]

def readConfig (host : Host m) (path : String) : ExceptT Failure m Config := do
  match ← host.read path with
  | .error error => throw ⟨"", "failed to read config " ++ path, some error.message⟩
  | .ok text =>
    match Config.parse text with
    | .error error => throw ⟨"", "invalid config " ++ path, some error.message⟩
    | .ok config => return config

/-- The configuration that is named, or else the one of the project if there is one. -/
def loadConfig (host : Host m) (path? : Option String) : ExceptT Failure m Config := do
  match path? with
  | some path => readConfig host path
  | none => if ← host.isFile configFile then readConfig host configFile else return .standard

/-- The source texts of a program. Those that cannot be read are empty. -/
def readSources (host : Host m) (p : Program) : m SourceCache := do
  let files ← p.files.toList.mapM fun path => do
    let text? ← host.read path
    return ⟨path, text?.toOption.getD ""⟩
  return .ofList files

def readProgram (host : Host m) (style : Style) (path : String) : ExceptT Failure m Program := do
  match ← host.read path with
  | .error error => throw ⟨"", "failed to read " ++ path, some error.message⟩
  | .ok text =>
    match Program.load text with
    | .error error =>
      throw ⟨diagnosticText style .empty [error.diagnostic], "could not load " ++ path, none⟩
    | .ok p => return p

def stopReport (style : Style) (cache : SourceCache) : Boxing.Stop → String
  | .fault error => diagnosticText style cache [error.diagnostic]
  | _ => ""

def boxProgram (host : Host m) (style : Style) (options : Boxing.Options) (p : Program) :
    ExceptT Failure m (Program × List Box) := do
  let outcome := Boxing.run options p
  match outcome.verdict with
  | .ok boxes => return (outcome.program, boxes.toList)
  | .error stop =>
    let cache ← ExceptT.lift (readSources host outcome.program)
    throw ⟨stopReport style cache stop, "conversion failed", none⟩

def programText (pretty : Bool) (p : Program) : String :=
  (if pretty then p.toJson.pretty else p.toJson.compact) ++ "\n"

/--
Write a text to a file, or to the standard output if there is none. Returns what is left for it.
-/
def deliver (host : Host m) (path? : Option String) (text : String) : ExceptT Failure m String := do
  match path? with
  | none => return text
  | some path =>
    match ← host.write path text with
    | .error error => throw ⟨"", "failed to write " ++ path, some error.message⟩
    | .ok () => return ""

def run (host : Host m) (style : Style) (input : String) (output config : Option String)
    (pretty : Bool) : ExceptT Failure m Output := do
  let config ← loadConfig host config
  let p ← readProgram host style input
  let (p, boxes) ← boxProgram host style config.options p
  let out ← deliver host output (programText pretty p)
  return ⟨0, out, if style.quiet then "" else report style boxes⟩

end Upvalue.Command.Convert

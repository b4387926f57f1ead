/-!
This module contains the arguments of the command line. Options that belong to every command may
stand before or behind its name, where those behind count more.
-/

namespace Upvalue.Command

/-- How reports and diagnostics are written. -/
inductive Format where
  | text
  | json
deriving DecidableEq, Repr, Inhabited

/-- What is done, with the arguments it needs. -/
inductive Task where
  | convert (input : String) (output config : Option String) (pretty : Bool)
  | explain (code : String)
deriving DecidableEq, Repr

/-- What a command line asks for. -/
structure Invocation where
  task : Task
  format : Format
  verbosity : Nat
  quiet : Bool
  noColor : Bool
deriving DecidableEq, Repr

/-- Why a command line cannot be understood. -/
inductive UsageError where
  | missingCommand
  | unknownCommand (name : String)
  | unknownOption (option : String)
  /-- An argument that no position is left for, or a value for an option without one. -/
  | unexpected (arg : String)
  | missingValue (option : String)
  | missingArgument (name : String)
  | badValue (option : String) (value : String)
  | repeated (option : String)
deriving DecidableEq, Repr

def UsageError.message : UsageError → String
  | .missingCommand => "a subcommand is required"
  | .unknownCommand name => "unrecognized subcommand '" ++ name ++ "'"
  | .unknownOption option => "unexpected argument '" ++ option ++ "' found"
  | .unexpected arg => "unexpected argument '" ++ arg ++ "' found"
  | .missingValue option => "a value is required for '" ++ option ++ "' but none was supplied"
  | .missingArgument name => "the required argument <" ++ name ++ "> was not provided"
  | .badValue option value => "invalid value '" ++ value ++ "' for '" ++ option ++ "'"
  | .repeated option => "the argument '" ++ option ++ "' cannot be used multiple times"

namespace Arguments

/-- An option. -/
inductive Flag where
  | format | verbose | quiet | noColor
  | output | config | pretty
deriving DecidableEq, Repr

namespace Flag

def long : Flag → String
  | .format => "format"
  | .verbose => "verbose"
  | .quiet => "quiet"
  | .noColor => "no-color"
  | .output => "output"
  | .config => "config"
  | .pretty => "pretty"

def short? : Flag → Option Char
  | .verbose => some 'v'
  | .quiet => some 'q'
  | .output => some 'o'
  | _ => none

def takesValue : Flag → Bool
  | .format | .output | .config => true
  | _ => false

/-- The options that belong to every command. -/
def common : List Flag := [.format, .verbose, .quiet, .noColor]

def ofConvert : List Flag := common ++ [.output, .config, .pretty]

def text (flag : Flag) : String :=
  "--" ++ flag.long

end Flag

/-- An argument that has been understood on its own. -/
inductive Item where
  | flag (flag : Flag)
  | setting (flag : Flag) (value : String)
  | positional (value : String)
deriving DecidableEq, Repr

/-- Whether an argument is an option and not a value. A single dash is a value. -/
def isOption (arg : String) : Bool :=
  arg.startsWith "-" && arg ≠ "-"

/-- What an argument leaves open. -/
inductive Open where
  | nothing
  /-- The next argument is the value of an option. -/
  | value (flag : Flag)
deriving DecidableEq, Repr

/-- Understand an option behind two dashes, with its value behind an equals sign if there is one. -/
def readLong (flags : List Flag) (arg : String) : Except UsageError (List Item × Open) :=
  let body := arg.toList.drop 2
  let name := String.ofList (body.takeWhile (· != '='))
  match flags.find? (·.long == name), body.dropWhile (· != '=') with
  | none, _ => .error (.unknownOption arg)
  | some flag, [] => .ok (if flag.takesValue then ([], .value flag) else ([.flag flag], .nothing))
  | some flag, _ :: value =>
    if flag.takesValue then .ok ([.setting flag (String.ofList value)], .nothing)
    else .error (.unexpected arg)

/--
Understand options behind one dash. The value of an option is what stands behind it, or behind an
equals sign behind it, or the next argument.
-/
def readShort (flags : List Flag) : List Char → Except UsageError (List Item × Open)
  | [] => .ok ([], .nothing)
  | c :: rest =>
    match flags.find? (·.short? == some c) with
    | none => .error (.unknownOption (String.ofList ['-', c]))
    | some flag =>
      if flag.takesValue then
        match rest with
        | [] => .ok ([], .value flag)
        | '=' :: value => .ok ([.setting flag (String.ofList value)], .nothing)
        | value => .ok ([.setting flag (String.ofList value)], .nothing)
      else do
        let (items, opened) ← readShort flags rest
        return (.flag flag :: items, opened)

def readOption (flags : List Flag) (arg : String) : Except UsageError (List Item × Open) :=
  if arg.startsWith "--" then readLong flags arg else readShort flags (arg.toList.drop 1)

/--
Understand arguments, where `opened` is what the argument before them leaves open. Behind two dashes
there are no options. If `untilName` is set, the first argument that is no option ends them, and it
is returned with the arguments behind.
-/
def scan (flags : List Flag) (untilName : Bool) (opened : Open) :
    List String → Except UsageError (List Item × List String)
  | [] =>
    match opened with
    | .nothing => .ok ([], [])
    | .value flag => .error (.missingValue flag.text)
  | arg :: args =>
    match opened with
    | .value flag =>
      if isOption arg then .error (.missingValue flag.text)
      else do
        let (items, rest) ← scan flags untilName .nothing args
        return (.setting flag arg :: items, rest)
    | .nothing =>
      if arg = "--" then .ok (args.map .positional, [])
      else if isOption arg then do
        let (items, opened) ← readOption flags arg
        let (items', rest) ← scan flags untilName opened args
        return (items ++ items', rest)
      else if untilName then .ok ([], arg :: args)
      else do
        let (items, rest) ← scan flags untilName .nothing args
        return (.positional arg :: items, rest)

def occurrences (items : List Item) (flag : Flag) : Nat :=
  items.countP fun
    | .flag flag' => flag' = flag
    | .setting flag' _ => flag' = flag
    | .positional _ => false

/-- Check that no option occurs twice, but for the one that counts. -/
def checkRepeated (items : List Item) : Except UsageError Unit :=
  match Flag.ofConvert.find? fun flag => flag ≠ .verbose ∧ 1 < occurrences items flag with
  | some flag => .error (.repeated flag.text)
  | none => .ok ()

def setting? (items : List Item) (flag : Flag) : Option String :=
  items.findSome? fun
    | .setting flag' value => if flag' = flag then some value else none
    | _ => none

/-- The value of an option that is a path, which is not empty. -/
def path? (items : List Item) (flag : Flag) : Except UsageError (Option String) :=
  match setting? items flag with
  | some "" => .error (.missingValue flag.text)
  | value? => .ok value?

def format? (items : List Item) : Except UsageError (Option Format) :=
  match setting? items .format with
  | none => .ok none
  | some "text" => .ok (some .text)
  | some "json" => .ok (some .json)
  | some value => .error (.badValue Flag.format.text value)

def positionals (items : List Item) : List String :=
  items.filterMap fun
    | .positional value => some value
    | _ => none

def onlyPositional (items : List Item) (name : String) : Except UsageError String :=
  match positionals items with
  | [] => .error (.missingArgument name)
  | [value] => .ok value
  | _ :: value :: _ => .error (.unexpected value)

def convertTask (items : List Item) : Except UsageError Task := do
  let output ← path? items .output
  let config ← path? items .config
  let input ← onlyPositional items "INPUT"
  if input.isEmpty then throw (.missingValue "<INPUT>")
  return .convert input output config (0 < occurrences items .pretty)

def explainTask (items : List Item) : Except UsageError Task := do
  return .explain (← onlyPositional items "CODE")

def task? : String → Option (List Flag × (List Item → Except UsageError Task))
  | "convert" => some (Flag.ofConvert, convertTask)
  | "explain" => some (Flag.common, explainTask)
  | _ => none

def parse (args : List String) : Except UsageError Invocation := do
  let (outer, rest) ← scan Flag.common true .nothing args
  match positionals outer, rest with
  | value :: _, _ => throw (.unexpected value)
  | [], [] => throw .missingCommand
  | [], name :: args =>
    match task? name with
    | none => throw (.unknownCommand name)
    | some (flags, readTask) =>
      let (inner, _) ← scan flags false .nothing args
      checkRepeated outer
      checkRepeated inner
      let outerFormat ← format? outer
      let innerFormat ← format? inner
      let task ← readTask inner
      let occurs (flag : Flag) : Nat := occurrences outer flag + occurrences inner flag
      return {
        task := task
        format := (innerFormat <|> outerFormat).getD .text
        verbosity := if occurrences inner .verbose = 0 then occurrences outer .verbose
          else occurrences inner .verbose
        quiet := 0 < occurs .quiet
        noColor := 0 < occurs .noColor }

end Arguments

end Upvalue.Command

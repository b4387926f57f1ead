import Upvalue.Boxing.Pass
import Upvalue.Toml.Reader

/-!
This module contains the configuration of a project: a TOML text with a table `convert`, in which
`box_field` names the field of boxes.
-/

namespace Upvalue

/-- The configuration of a project. -/
structure Config where
  boxField : String
deriving DecidableEq, Repr

/-- Why a text is not a configuration. -/
inductive ConfigError where
  /-- The text is not in TOML form, or has other settings than those that exist. -/
  | malformed
  /-- The field of boxes has a name that is not an identifier. -/
  | notIdentifier (field : String)
deriving DecidableEq, Repr

def ConfigError.message : ConfigError → String
  | .malformed => "TOML parse error"
  | .notIdentifier field => "convert.box_field must be an identifier, got '" ++ field ++ "'"

/-- Whether a text is an identifier: ASCII letters, digits and underscores, and no digit first. -/
def isIdentifier (text : String) : Bool :=
  match text.toList with
  | [] => false
  | c :: cs => (c.isAlpha || c == '_') && cs.all fun c => c.isAlphanum || c == '_'

namespace Config

/-- The configuration of a project that does not set anything. -/
def standard : Config := ⟨Boxing.defaultField⟩

instance : Inhabited Config := ⟨standard⟩

/--
The settings in `convert`. They can also be listed in their order, then further items are ignored.
-/
def ofSettings? : Toml.Value → Option Config
  | .table [] => some standard
  | .table [("box_field", .string field)] => some ⟨field⟩
  | .array [] => some standard
  | .array (.string field :: _) => some ⟨field⟩
  | _ => none

/-- The configuration with given settings. There are no settings but those in `convert`. -/
def ofFields? : List (String × Toml.Value) → Option Config
  | [] => some standard
  | [("convert", settings)] => ofSettings? settings
  | _ => none

def parse (text : String) : Except ConfigError Config :=
  match (Toml.read? text).bind ofFields? with
  | none => .error .malformed
  | some config =>
    if isIdentifier config.boxField then .ok config else .error (.notIdentifier config.boxField)

def options (config : Config) : Boxing.Options :=
  .ofField config.boxField

end Config

end Upvalue

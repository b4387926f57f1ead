import Upvalue.Json.Decode

/-!
This module contains the JSON forms of structures. A form is described once, field by field, and
gives both how a structure is written and how it is read: as an object with the fields in any order,
or as a sequence of all fields.
-/

namespace Upvalue.Json

/-- The JSON form of a type: how its values are written and read. -/
structure Codec (α : Type) where
  encode : α → Json
  decode : Decoder α

/-- A field of a structure. -/
structure Member (α : Type) where
  name : String
  codec : Codec α
  /-- The value of a field that an object does not have. -/
  absent : Option α
  /-- The value of a field that a sequence is too short for. -/
  short : Option α

namespace Member

/-- A field that has to be there. -/
def required (name : String) (codec : Codec α) : Member α :=
  ⟨name, codec, none, none⟩

/-- A field that has a value if it is not there. -/
def withDefault (name : String) (codec : Codec α) (value : α) : Member α :=
  ⟨name, codec, some value, some value⟩

end Member

/-- The fields of a structure in the order they are declared in. -/
inductive Record : Type → Type 1
  | nil : Record Unit
  | cons {α β : Type} (field : Member α) (rest : Record β) : Record (α × β)

namespace Record

def size : Record τ → Nat
  | .nil => 0
  | .cons _ rest => rest.size + 1

/-- The fields that have been read so far. -/
def Slots : {τ : Type} → Record τ → Type
  | _, .nil => Unit
  | _, @cons α _ _ rest => Option α × rest.Slots

def noSlots : (record : Record τ) → record.Slots
  | .nil => ()
  | .cons _ rest => (none, rest.noSlots)

def encodeFields : Record τ → τ → List (String × Json)
  | .nil, () => []
  | .cons field rest, (a, b) => (field.name, field.codec.encode a) :: rest.encodeFields b

def encode (record : Record τ) (value : τ) : Json :=
  Json.obj (record.encodeFields value)

/-- Read a field of an object. Fields that the structure does not have are skipped. -/
def put (room : Nat) (key : String) (json : Json) :
    {τ : Type} → (record : Record τ) → record.Slots → Except DecodeError record.Slots
  | _, .nil, () => .ok ()
  | _, @cons α β field rest, (slot, slots) =>
    if key = field.name then
      match slot with
      | some _ => .error (.duplicateField key)
      | none => do
        let a ← field.codec.decode room json
        return (some a, slots)
    else do
      let slots ← rest.put room key json slots
      return (slot, slots)

/--
The structure that has been read. The first field that is not there and has no default is missing.
-/
def finish : {τ : Type} → (record : Record τ) → record.Slots → Except DecodeError τ
  | _, .nil, () => .ok ()
  | _, @cons α β field rest, (slot, slots) =>
    match slot.or field.absent with
    | none => .error (.missingField field.name)
    | some a => do
      let b ← rest.finish slots
      return (a, b)

/-- Read the fields of an object in the order they are written in. -/
def putAll (room : Nat) (record : Record τ) :
    List (Text × Json) → record.Slots → Except DecodeError record.Slots
  | [], slots => .ok slots
  | (key, json) :: fields, slots => do
    let key ← key.read
    let slots ← record.put room key json slots
    record.putAll room fields slots

def ofFields (room : Nat) (record : Record τ) (fields : List (Text × Json)) :
    Except DecodeError τ := do
  record.finish (← record.putAll room fields record.noSlots)

/-- Read a structure from a sequence, starting with the field at position `index`. -/
def ofItems (room : Nat) (expected : Shape) :
    (index : Nat) → Record τ → List Json → Except DecodeError τ
  | _, .nil, [] => .ok ()
  | _, .nil, _ :: _ => .error .trailing
  | index, .cons field rest, items =>
    match items with
    | [] =>
      match field.short with
      | none => .error (.invalidLength index expected)
      | some a => do
        let b ← ofItems room expected (index + 1) rest []
        return (a, b)
    | item :: items => do
      let a ← field.codec.decode room item
      let b ← ofItems room expected (index + 1) rest items
      return (a, b)

/-- Read a structure from an object or a sequence. -/
def decode (expected : Shape) (record : Record τ) : Decoder τ :=
  fun room json =>
    match json with
    | .object fields => Decoder.descend room fun room => record.ofFields room fields
    | .array items => Decoder.descend room fun room => ofItems room expected 0 record items
    | json => .error (json.mismatch expected)

end Record

namespace Codec

def bool : Codec Bool := ⟨.bool, .bool⟩

def string : Codec String := ⟨.str, .string⟩

def uint32 : Codec UInt32 := ⟨fun n => .ofNat n.toNat, .uint32⟩

def int64 : Codec Int64 := ⟨fun i => .number (.ofInt i.toInt), .int64⟩

/-- A floating point number. What is not finite is written as `null`, which is not read back. -/
def float : Codec Binary64 := ⟨fun x => ofOption .number (Number.ofBinary64? x), .float⟩

def option (codec : Codec α) : Codec (Option α) :=
  ⟨ofOption codec.encode, codec.decode.option⟩

def list (codec : Codec α) : Codec (List α) :=
  ⟨fun as => .array (as.map codec.encode), codec.decode.list⟩

def array (codec : Codec α) : Codec (Array α) :=
  ⟨fun as => .array (as.toList.map codec.encode), codec.decode.list.map List.toArray⟩

def pair (first : Codec α) (second : Codec β) : Codec (α × β) where
  encode := fun (a, b) => .array [first.encode a, second.encode b]
  decode := fun room json =>
    match json with
    | .array items => Decoder.descend room fun room => do
      let record := .cons (.required "" first) (.cons (.required "" second) .nil)
      let (a, b, ()) ← Record.ofItems room (.tuple 2) 0 record items
      return (a, b)
    | json => .error (json.mismatch (.tuple 2))

/-- Values that are written as the values of another type. -/
def via (codec : Codec β) (write : α → β) (read : β → α) : Codec α :=
  ⟨fun a => codec.encode (write a), codec.decode.map read⟩

def struct (name : String) (record : Record τ) (write : α → τ) (read : τ → α) : Codec α :=
  ⟨fun a => record.encode (write a), (record.decode (.struct name record.size)).map read⟩

end Codec

namespace Member

/-- A field of an object that may be left out if there is no value. A sequence has to have it. -/
def optional (name : String) (codec : Codec α) : Member (Option α) :=
  ⟨name, codec.option, some none, none⟩

end Member

/-- A variant of a type: its name, and how its contents are read. -/
inductive Variant (α : Type) where
  /-- A variant without contents. -/
  | unit (name : String) (value : α)
  /-- A variant with one value. -/
  | value (name : String) (decode : Decoder α)
  /-- A variant with fields. -/
  | struct (name : String) (decode : Decoder α)

namespace Variant

def name : Variant α → String
  | .unit name _ => name
  | .value name _ => name
  | .struct name _ => name

/-- A variant with fields of a type with a given name. -/
def fields (type name : String) (record : Record τ) (of : τ → α) : Variant α :=
  .struct name ((record.decode (.structVariant (type ++ "::" ++ name) record.size)).map of)

/-- Read a variant of which only the name is given. -/
def alone : Variant α → Except DecodeError α
  | .unit _ a => .ok a
  | .value .. => .error (.invalidType .unitVariant (.basic "newtype variant"))
  | .struct .. => .error (.invalidType .unitVariant (.basic "struct variant"))

def contents (room : Nat) (json : Json) : Variant α → Except DecodeError α
  | .unit _ a => (Decoder.unit room json).map fun () => a
  | .value _ decode => decode room json
  | .struct _ decode => decode room json

def find (variants : List (Variant α)) (name : String) : Except DecodeError (Variant α) :=
  match variants.find? (·.name == name) with
  | some variant => .ok variant
  | none => .error (.unknownVariant name (variants.map Variant.name))

def tagged (name : String) (contents : Json) : Json :=
  Json.obj [(name, contents)]

/-- Read a variant: its name alone, or an object with its name and contents. -/
def decode (variants : List (Variant α)) : Decoder α :=
  fun room json =>
    match json with
    | .string name => do (← find variants (← name.read)).alone
    | .object fields => Decoder.descend room fun room =>
      match fields with
      | [] => .error .expectedValue
      | (name, json) :: others => do
        let variant ← find variants (← name.read)
        let a ← variant.contents room json
        if others.isEmpty then return a else throw .expectedValue
    | _ => .error .expectedValue

end Variant

end Upvalue.Json

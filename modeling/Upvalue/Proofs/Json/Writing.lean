import Upvalue.Json.Record
import Mathlib.Data.List.Forall2

/-!
This module contains the ways to write a value in JSON form. The fields of a structure may stand in
any order, between keys that the structure does not have, and those with a default may be left out;
a structure may also be a sequence of all fields; and a variant without contents may be an object.
-/

namespace Upvalue.Json

namespace Record

def names : Record τ → List String
  | .nil => []
  | .cons field rest => field.name :: rest.names

/-- A field of a structure with its value. -/
structure Entry where
  {α : Type}
  member : Member α
  value : α

def Entry.name (entry : Entry) : String :=
  entry.member.name

/-- The fields of a structure with their values. -/
def entries : Record τ → τ → List Entry
  | .nil, () => []
  | .cons field rest, (a, b) => ⟨field, a⟩ :: rest.entries b

/-- The JSON form of a structure as it is. -/
def codec (record : Record τ) (expected : Shape) : Codec τ :=
  ⟨record.encode, record.decode expected⟩

section Names

variable {record : Record τ} {value : τ}

theorem name_mem_names {entry : Entry} (h : entry ∈ record.entries value) :
    entry.name ∈ record.names := by
  induction record with
  | nil => cases h
  | cons field rest ih =>
    cases h with
    | head => exact List.mem_cons_self
    | tail _ h => exact List.mem_cons_of_mem _ (ih h)

theorem mem_names {name : String} {json : Json} (h : (name, json) ∈ record.encodeFields value) :
    name ∈ record.names := by
  induction record with
  | nil => cases h
  | cons field rest ih =>
    cases h with
    | head => exact List.mem_cons_self
    | tail _ h => exact List.mem_cons_of_mem _ (ih h)

theorem map_fst_encodeFields (record : Record τ) (value : τ) :
    (record.encodeFields value).map Prod.fst = record.names := by
  induction record with
  | nil => rfl
  | cons field rest ih =>
    unfold encodeFields names
    rw [List.map_cons, ih]

end Names

end Record

/--
A JSON value is a way to write a value. What is not skipped of it nests at most `n` deep. A number
has to be read as the one that is written.
-/
inductive Codec.Writes : {α : Type} → Codec α → (n : Nat) → α → Json → Prop where
  | bool {n : Nat} (b : Bool) : Writes .bool n b (.bool b)
  | string {n : Nat} (s : String) : Writes .string n s (.str s)
  | uint32 {n : Nat} (i : UInt32) : Writes .uint32 n i (.ofNat i.toNat)
  | int64 {n : Nat} (i : Int64) : Writes .int64 n i (.number (.ofInt i.toInt))
  | float {n : Nat} {x : Binary64} {token : Number} (htoken : Number.ofBinary64? x = some token)
    (hexact : token.value? = some (.float x)) : Writes .float n x (.number token)
  | null {n : Nat} {α : Type} {codec : Codec α} : Writes codec.option n none .null
  | some {n : Nat} {α : Type} {codec : Codec α} {a : α} {json : Json} (hnull : json ≠ .null)
    (h : Writes codec n a json) : Writes codec.option n (some a) json
  | list {n : Nat} {α : Type} {codec : Codec α} {as : List α} {items : List Json}
    (hlength : as.length = items.length)
    (h : ∀ (i : Nat) a item, as[i]? = .some a → items[i]? = .some item → Writes codec n a item) :
    Writes codec.list (n + 1) as (.array items)
  | pair {n : Nat} {α β : Type} {first : Codec α} {second : Codec β} {a : α} {b : β}
    {json json' : Json} (hfirst : Writes first n a json) (hsecond : Writes second n b json') :
    Writes (first.pair second) (n + 1) (a, b) (.array [json, json'])
  | via {n : Nat} {α β : Type} {codec : Codec β} {write : α → β} {read : β → α} {a : α}
    {json : Json} (hread : read (write a) = a) (h : Writes codec n (write a) json) :
    Writes (codec.via write read) n a json
  /-- The keys are in any order, and there may be others. -/
  | object {n : Nat} {τ : Type} {record : Record τ} {expected : Shape} {value : τ}
    {fields : List (String × Json)} (hnames : record.names.Nodup)
    (honce : ((fields.map Prod.fst).filter (· ∈ record.names)).Nodup)
    (habsent : ∀ entry ∈ record.entries value, entry.name ∉ fields.map Prod.fst →
      entry.member.absent = .some entry.value)
    (hpresent : ∀ entry ∈ record.entries value, ∀ json, (entry.name, json) ∈ fields →
      Writes entry.member.codec n entry.value json) :
    Writes (record.codec expected) (n + 1) value (Json.obj fields)
  /-- All fields are there, in the order they are declared in. -/
  | sequence {n : Nat} {τ : Type} {record : Record τ} {expected : Shape} {value : τ}
    {items : List Json} (hlength : (record.entries value).length = items.length)
    (h : ∀ (i : Nat) entry item, (record.entries value)[i]? = .some entry →
      items[i]? = .some item → Writes entry.member.codec n entry.value item) :
    Writes (record.codec expected) (n + 1) value (.array items)
  | name {n : Nat} {α : Type} {encode : α → Json} {variants : List (Variant α)} {name : String}
    {a : α} (hfind : variants.find? (·.name == name) = .some (.unit name a)) :
    Writes ⟨encode, Variant.decode variants⟩ n a (.str name)
  | taggedNull {n : Nat} {α : Type} {encode : α → Json} {variants : List (Variant α)}
    {name : String} {a : α} (hfind : variants.find? (·.name == name) = .some (.unit name a)) :
    Writes ⟨encode, Variant.decode variants⟩ (n + 1) a (Variant.tagged name .null)
  | tagged {n : Nat} {α β : Type} {encode : α → Json} {variants : List (Variant α)}
    {name : String} {codec : Codec β} {of : β → α} {b : β} {json : Json}
    (hfind : variants.find? (·.name == name) = .some (.value name (codec.decode.map of)))
    (h : Writes codec n b json) :
    Writes ⟨encode, Variant.decode variants⟩ (n + 1) (of b) (Variant.tagged name json)
  | fields {n : Nat} {α τ : Type} {encode : α → Json} {variants : List (Variant α)}
    {type name : String} {record : Record τ} {of : τ → α} {value : τ} {json : Json}
    (hfind : variants.find? (·.name == name) = .some (.fields type name record of))
    (h : Writes (record.codec (.structVariant (type ++ "::" ++ name) record.size)) n value json) :
    Writes ⟨encode, Variant.decode variants⟩ (n + 1) (of value) (Variant.tagged name json)

namespace Codec

/-- Two lists correspond if they are as long and what stands at the same positions corresponds. -/
theorem forall₂_iff_getElem? {α β : Type*} {R : α → β → Prop} {as : List α} {bs : List β} :
    List.Forall₂ R as bs ↔ as.length = bs.length ∧
      ∀ (i : Nat) a b, as[i]? = some a → bs[i]? = some b → R a b := by
  rw [List.forall₂_iff_get]
  apply and_congr_right
  intro hlength
  constructor
  . intro h i a b ha hb
    rcases List.getElem?_eq_some_iff.mp ha with ⟨hi, rfl⟩
    rcases List.getElem?_eq_some_iff.mp hb with ⟨hi', rfl⟩
    exact h i hi hi'
  . intro h i hi hi'
    exact h i _ _ (List.getElem?_eq_getElem hi) (List.getElem?_eq_getElem hi')

namespace Writes

variable {n : Nat} {items : List Json}

theorem list_of_forall₂ {codec : Codec α} {as : List α}
    (h : List.Forall₂ (codec.Writes n) as items) :
    codec.list.Writes (n + 1) as (.array items) := by
  rcases forall₂_iff_getElem?.mp h with ⟨hlength, h⟩
  exact .list hlength h

theorem array_of_forall₂ {codec : Codec α} {as : Array α}
    (h : List.Forall₂ (codec.Writes n) as.toList items) :
    codec.array.Writes (n + 1) as (.array items) := by
  have hlist : (codec.list.via Array.toList List.toArray).Writes (n + 1) as (.array items) :=
    .via Array.toArray_toList (list_of_forall₂ h)
  exact hlist

theorem sequence_of_forall₂ {record : Record τ} {expected : Shape} {value : τ}
    (h : List.Forall₂ (fun entry item => entry.member.codec.Writes n entry.value item)
      (record.entries value) items) :
    (record.codec expected).Writes (n + 1) value (.array items) := by
  rcases forall₂_iff_getElem?.mp h with ⟨hlength, h⟩
  exact .sequence hlength h

end Writes

end Codec

end Upvalue.Json

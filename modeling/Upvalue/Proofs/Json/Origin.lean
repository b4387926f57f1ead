import Upvalue.Proofs.Json.Exact

/-!
This module contains where values come from that have been read, and how deep they nest. What is
read from a text may be written in another way than the text, but it nests no deeper than the
decoder could go, apart from the values of fields that were not there.
-/

namespace Upvalue.Json

namespace Codec

/-- A value is read from some text. -/
def Yields (codec : Codec α) (room : Nat) (a : α) : Prop :=
  ∃ json, codec.decode room json = .ok a

end Codec

section Results

variable {ε ε' : Type} {result : Except ε α}

theorem exists_of_map_eq_ok {f : α → β} {b : β} (h : result.map f = .ok b) :
    ∃ a, result = .ok a ∧ f a = b := by
  cases result with
  | error e => cases h
  | ok a =>
    cases h
    exact ⟨a, rfl, rfl⟩

theorem exists_of_bind_eq_ok {f : α → Except ε β} {b : β} (h : result >>= f = .ok b) :
    ∃ a, result = .ok a ∧ f a = .ok b := by
  cases result with
  | error e => cases h
  | ok a => exact ⟨a, rfl, h⟩

theorem eq_ok_of_mapError {f : ε → ε'} {a : α} (h : result.mapError f = .ok a) :
    result = .ok a := by
  cases result with
  | error e => cases h
  | ok a =>
    cases h
    rfl

end Results

theorem exists_of_descend_eq_ok {room : Nat} {inside : Nat → Except DecodeError α} {a : α}
    (h : Decoder.descend room inside = .ok a) : ∃ r, room = r + 1 ∧ inside r = .ok a := by
  cases room with
  | zero => cases h
  | succ r => exact ⟨r, rfl, h⟩

namespace Record

/-- Every field of a structure is read from some text or is the value for a field without one. -/
def Origin (room : Nat) : Record τ → τ → Prop
  | .nil, () => True
  | .cons field rest, (a, b) =>
    (field.codec.Yields room a ∨ field.absent = some a ∨ field.short = some a) ∧
      rest.Origin room b

/-- Every field that has been read is read from some text. -/
def SlotsOrigin (room : Nat) : {τ : Type} → (record : Record τ) → record.Slots → Prop
  | _, .nil, () => True
  | _, @cons α β field rest, (slot, slots) =>
    (∀ a : α, slot = some a → field.codec.Yields room a) ∧ rest.SlotsOrigin room slots

variable {record : Record τ} {value : τ} {room : Nat}

theorem slotsOrigin_noSlots (record : Record τ) : record.SlotsOrigin room record.noSlots := by
  induction record with
  | nil => trivial
  | cons field rest ih => exact ⟨fun _ h => (nomatch h), ih⟩

theorem slotsOrigin_put {key : String} {json : Json} {slots slots' : record.Slots}
    (h : record.SlotsOrigin room slots) (hput : record.put room key json slots = .ok slots') :
    record.SlotsOrigin room slots' := by
  induction record with
  | nil => trivial
  | cons field rest ih =>
    rcases slots with ⟨slot, slots⟩
    by_cases hkey : key = field.name
    . subst hkey
      cases slot with
      | some a =>
        have heq := (if_pos rfl).symm.trans hput
        cases heq
      | none =>
        rcases exists_of_bind_eq_ok (put_first json slots ▸ hput) with ⟨a, ha, heq⟩
        cases heq
        refine ⟨?_, h.2⟩
        intro a' ha'
        cases ha'
        exact ⟨json, ha⟩
    . rcases exists_of_map_eq_ok (put_rest hkey json slots ▸ hput) with ⟨slots', hslots, rfl⟩
      exact ⟨h.1, ih h.2 hslots⟩

theorem slotsOrigin_putAll {fields : List (Text × Json)} {slots slots' : record.Slots}
    (h : record.SlotsOrigin room slots) (hput : record.putAll room fields slots = .ok slots') :
    record.SlotsOrigin room slots' := by
  induction fields generalizing slots with
  | nil =>
    cases hput
    exact h
  | cons field fields ih =>
    rcases field with ⟨key, json⟩
    rcases exists_of_bind_eq_ok hput with ⟨key, -, hput⟩
    rcases exists_of_bind_eq_ok hput with ⟨next, hnext, hput⟩
    exact ih (slotsOrigin_put h hnext) hput

theorem origin_of_finish {slots : record.Slots} (h : record.SlotsOrigin room slots)
    (hfinish : record.finish slots = .ok value) : record.Origin room value := by
  induction record with
  | nil => trivial
  | cons field rest ih =>
    rcases slots with ⟨slot, slots⟩
    simp only [finish] at hfinish
    split at hfinish
    . cases hfinish
    . next a ha =>
      rcases exists_of_bind_eq_ok hfinish with ⟨b, hb, heq⟩
      cases heq
      refine ⟨?_, ih h.2 hb⟩
      cases slot with
      | some a' =>
        cases ha
        exact .inl (h.1 a rfl)
      | none => exact .inr (.inl ha)

theorem origin_of_ofItems {expected : Shape} {index : Nat} {items : List Json}
    (h : ofItems room expected index record items = .ok value) : record.Origin room value := by
  induction record generalizing index items with
  | nil => trivial
  | cons field rest ih =>
    cases items with
    | nil =>
      unfold ofItems at h
      dsimp only at h
      split at h
      . cases h
      . next a ha =>
        rcases exists_of_bind_eq_ok h with ⟨b, hb, heq⟩
        cases heq
        exact ⟨.inr (.inr ha), ih hb⟩
    | cons item items =>
      rcases exists_of_bind_eq_ok h with ⟨a, ha, h⟩
      rcases exists_of_bind_eq_ok h with ⟨b, hb, heq⟩
      cases heq
      exact ⟨.inl ⟨item, ha⟩, ih hb⟩

theorem origin_of_decode {expected : Shape} {json : Json}
    (h : record.decode expected room json = .ok value) :
    ∃ r, room = r + 1 ∧ record.Origin r value := by
  unfold decode at h
  split at h
  . rcases exists_of_descend_eq_ok h with ⟨r, hroom, h⟩
    rcases exists_of_bind_eq_ok h with ⟨slots, hslots, hfinish⟩
    have horigin := slotsOrigin_putAll (slotsOrigin_noSlots record) hslots
    exact ⟨r, hroom, origin_of_finish horigin hfinish⟩
  . rcases exists_of_descend_eq_ok h with ⟨r, hroom, h⟩
    exact ⟨r, hroom, origin_of_ofItems h⟩
  . cases h

end Record

namespace Codec

variable {codec : Codec α} {room : Nat}

theorem forall_of_mapM_eq_ok {items : List Json} {as : List α}
    (h : items.mapM (codec.decode room) = .ok as) : ∀ a ∈ as, codec.Yields room a := by
  induction items generalizing as with
  | nil =>
    cases h
    simp
  | cons item items ih =>
    rw [List.mapM_cons] at h
    rcases exists_of_bind_eq_ok h with ⟨a, ha, h⟩
    rcases exists_of_bind_eq_ok h with ⟨as', has, heq⟩
    cases heq
    exact List.forall_mem_cons.mpr ⟨⟨item, ha⟩, ih has⟩

theorem Yields.list {as : List α} (h : codec.list.Yields room as) :
    ∃ r, room = r + 1 ∧ ∀ a ∈ as, codec.Yields r a := by
  rcases h with ⟨json, h⟩
  change Decoder.list codec.decode room json = _ at h
  unfold Decoder.list at h
  split at h
  . rcases exists_of_descend_eq_ok h with ⟨r, hroom, h⟩
    exact ⟨r, hroom, forall_of_mapM_eq_ok h⟩
  . cases h

theorem Yields.via {codec : Codec β} {write : α → β} {read : β → α} {a : α}
    (h : (codec.via write read).Yields room a) : ∃ b, codec.Yields room b ∧ read b = a := by
  rcases h with ⟨json, h⟩
  rcases exists_of_map_eq_ok h with ⟨b, hb, heq⟩
  exact ⟨b, ⟨json, hb⟩, heq⟩

theorem Yields.array {as : Array α} (h : codec.array.Yields room as) :
    ∃ r, room = r + 1 ∧ ∀ a ∈ as, codec.Yields r a := by
  rcases h with ⟨json, h⟩
  rcases exists_of_map_eq_ok h with ⟨as, has, rfl⟩
  rcases Yields.list ⟨json, has⟩ with ⟨r, hroom, has⟩
  refine ⟨r, hroom, ?_⟩
  intro a ha
  exact has a (List.mem_toArray.mp ha)

theorem Yields.option {a : α} (h : codec.option.Yields room (some a)) : codec.Yields room a := by
  rcases h with ⟨json, h⟩
  change Decoder.option codec.decode room json = _ at h
  unfold Decoder.option at h
  split at h
  . cases h
  . rcases exists_of_map_eq_ok h with ⟨a', ha, heq⟩
    cases heq
    exact ⟨_, ha⟩

theorem Yields.pair {first : Codec α} {second : Codec β} {a : α} {b : β}
    (h : (first.pair second).Yields room (a, b)) :
    ∃ r, room = r + 1 ∧ first.Yields r a ∧ second.Yields r b := by
  rcases h with ⟨json, h⟩
  unfold Codec.pair at h
  dsimp only at h
  split at h
  . rcases exists_of_descend_eq_ok h with ⟨r, hroom, h⟩
    rcases exists_of_bind_eq_ok h with ⟨⟨a', b', c⟩, hitems, heq⟩
    cases heq
    rcases Record.origin_of_ofItems hitems with ⟨ha, hb, -⟩
    refine ⟨r, hroom, ?_, ?_⟩
    . simpa [Member.required] using ha
    . simpa [Member.required] using hb
  . cases h

theorem isFinite_of_found {json : Json} {x : Binary64} (h : json.found = .ok (.float x)) :
    x.isFinite = true := by
  unfold Json.found at h
  split at h
  . cases h
  . cases h
  . split at h
    . cases h
    . next hvalue =>
      cases h
      exact Number.isFinite_of_value? hvalue
    . cases h
  . rcases exists_of_map_eq_ok h with ⟨s, -, heq⟩
    cases heq
  . cases h
  . cases h

theorem Yields.float {x : Binary64} (h : float.Yields room x) : x.isFinite = true := by
  rcases h with ⟨json, h⟩
  change Decoder.float room json = _ at h
  unfold Decoder.float at h
  split at h
  . next y hfound =>
    cases h
    exact isFinite_of_found hfound
  . split at h
    . next y hy =>
      cases h
      exact Binary64.isFinite_of_ofInt hy
    . cases h
  . cases h

theorem Yields.struct {name : String} {record : Record τ} {write : α → τ} {read : τ → α} {a : α}
    (h : (struct name record write read).Yields room a) :
    ∃ r value, room = r + 1 ∧ record.Origin r value ∧ read value = a := by
  rcases h with ⟨json, h⟩
  rcases exists_of_map_eq_ok h with ⟨value, hvalue, heq⟩
  rcases Record.origin_of_decode hvalue with ⟨r, hroom, horigin⟩
  exact ⟨r, value, hroom, horigin, heq⟩

end Codec

namespace Variant

variable {variants : List (Variant α)} {a : α} {room : Nat}

theorem mem_of_find {name : String} {v : Variant α} (h : find variants name = .ok v) :
    v ∈ variants := by
  unfold find at h
  split at h
  . next v' hfind =>
    cases h
    exact List.mem_of_find?_eq_some hfind
  . cases h

/-- What is read as a variant has a property, which may depend on the room that is left. -/
structure Ensures (P : Nat → α → Prop) (v : Variant α) : Prop where
  alone : ∀ room a, v.alone = .ok a → P room a
  contents : ∀ room json a, v.contents room json = .ok a → P (room + 1) a

section Ensures

variable {codec : Codec α} {P : Nat → α → Prop} {name : String}

theorem ensures_unit (h : ∀ room, P room a) : (unit name a).Ensures P where
  alone room a' ha := by
    cases ha
    exact h room
  contents room json a' ha := by
    rcases exists_of_map_eq_ok ha with ⟨⟨⟩, -, rfl⟩
    exact h (room + 1)

theorem ensures_value {inner : Codec β} {of : β → α}
    (h : ∀ room b, inner.Yields room b → P (room + 1) (of b)) :
    (value name (inner.decode.map of)).Ensures P where
  alone _ _ ha := nomatch ha
  contents room json a ha := by
    rcases exists_of_map_eq_ok ha with ⟨b, hb, rfl⟩
    exact h room b ⟨json, hb⟩

theorem ensures_fields {type : String} {record : Record τ} {of : τ → α}
    (h : ∀ room value, record.Origin room value → P (room + 2) (of value)) :
    (fields type name record of).Ensures P where
  alone _ _ ha := nomatch ha
  contents room json a ha := by
    rcases exists_of_map_eq_ok ha with ⟨value, hvalue, rfl⟩
    rcases Record.origin_of_decode hvalue with ⟨r, rfl, horigin⟩
    exact h r value horigin

/-- What all variants of a type ensure holds for everything that is read. -/
theorem ensures_of_yields (hdecode : codec.decode = decode variants)
    (hvariants : ∀ v ∈ variants, v.Ensures P) (h : codec.Yields room a) : P room a := by
  rcases h with ⟨json, h⟩
  rw [hdecode] at h
  unfold decode at h
  split at h
  . rcases exists_of_bind_eq_ok h with ⟨name, -, h⟩
    rcases exists_of_bind_eq_ok h with ⟨v, hfind, halone⟩
    exact (hvariants v (mem_of_find hfind)).alone room a halone
  . rcases exists_of_descend_eq_ok h with ⟨r, rfl, h⟩
    split at h
    . cases h
    . rcases exists_of_bind_eq_ok h with ⟨name, -, h⟩
      rcases exists_of_bind_eq_ok h with ⟨v, hfind, h⟩
      rcases exists_of_bind_eq_ok h with ⟨a', ha, h⟩
      split at h
      . cases h
        exact (hvariants v (mem_of_find hfind)).contents r _ a ha
      . cases h
  . cases h

end Ensures

end Variant

/-! ### Bounds -/

namespace Codec

/-- What is read with at least some room left nests no deeper than this room. -/
def Bounded (codec : Codec α) (least : Nat) : Prop :=
  ∀ room a, least ≤ room → codec.Yields room a → codec.depth a ≤ room

variable {codec : Codec α} {least : Nat}

theorem Bounded.mono {least' : Nat} (h : codec.Bounded least) (hle : least ≤ least') :
    codec.Bounded least' := by
  intro room a hroom ha
  exact h room a (Nat.le_trans hle hroom) ha

theorem bounded_of_depth_le (h : ∀ a, codec.depth a ≤ least) : codec.Bounded least := by
  intro room a hroom _
  exact Nat.le_trans (h a) hroom

theorem Bounded.option (h : codec.Bounded least) : codec.option.Bounded least := by
  intro room o hroom ho
  cases o with
  | none => exact Nat.zero_le room
  | some a => exact h room a hroom ho.option

theorem Bounded.list (h : codec.Bounded (least - 1)) : codec.list.Bounded least := by
  intro room as hroom has
  rcases has.list with ⟨r, rfl, hall⟩
  rw [depth_list_le_iff]
  intro a ha
  exact h r a (by omega) (hall a ha)

theorem Bounded.array (h : codec.Bounded (least - 1)) : codec.array.Bounded least := by
  intro room as hroom has
  rcases has.array with ⟨r, rfl, hall⟩
  rw [depth_array_le_iff]
  intro a ha
  exact h r a (by omega) (hall a ha)

theorem Bounded.pair {first : Codec α} {second : Codec β} (hfirst : first.Bounded (least - 1))
    (hsecond : second.Bounded (least - 1)) : (first.pair second).Bounded least := by
  rintro room ⟨a, b⟩ hroom hpair
  rcases hpair.pair with ⟨r, rfl, ha, hb⟩
  have hdepth : (first.pair second).depth (a, b) =
      max (first.depth a) (max (second.depth b) 0) + 1 := rfl
  have hle := hfirst r a (by omega) ha
  have hle' := hsecond r b (by omega) hb
  omega

end Codec

namespace Member

/-- A field is bounded with the values that it may have without a text. -/
structure Bounded (field : Member α) (least : Nat) : Prop where
  codec : field.codec.Bounded least
  absent : ∀ a, field.absent = some a → field.codec.depth a ≤ least
  short : ∀ a, field.short = some a → field.codec.depth a ≤ least

variable {codec : Codec α} {name : String} {least : Nat}

theorem bounded_required (h : codec.Bounded least) : (required name codec).Bounded least where
  codec := h
  absent _ h := nomatch h
  short _ h := nomatch h

theorem bounded_withDefault {value : α} (h : codec.Bounded least)
    (hvalue : codec.depth value ≤ least) : (withDefault name codec value).Bounded least where
  codec := h
  absent a ha := by
    cases ha
    exact hvalue
  short a ha := by
    cases ha
    exact hvalue

end Member

namespace Record

def Bounded (least : Nat) : Record τ → Prop
  | .nil => True
  | .cons field rest => field.Bounded least ∧ rest.Bounded least

variable {record : Record τ} {value : τ} {least room : Nat}

theorem Origin.depth_le (horigin : record.Origin room value) (h : record.Bounded least)
    (hroom : least ≤ room) : record.depth value ≤ room := by
  induction record with
  | nil => exact Nat.zero_le room
  | cons field rest ih =>
    rcases value with ⟨a, b⟩
    apply Nat.max_le.mpr
    refine ⟨?_, ih horigin.2 h.2⟩
    rcases horigin.1 with ha | ha | ha
    . exact h.1.codec room a hroom ha
    . exact Nat.le_trans (h.1.absent a ha) hroom
    . exact Nat.le_trans (h.1.short a ha) hroom

theorem bounded (h : record.Bounded (least - 1)) (expected : Shape) :
    Codec.Bounded ⟨record.encode, record.decode expected⟩ least := by
  rintro room value hroom ⟨json, hvalue⟩
  rcases origin_of_decode hvalue with ⟨r, rfl, horigin⟩
  unfold Codec.depth
  rw [depth_encode]
  exact Nat.add_le_add_right (horigin.depth_le h (by omega)) 1

end Record

theorem Codec.Bounded.via {codec : Codec β} {write : α → β} {read : β → α} {least : Nat}
    (h : codec.Bounded least) (hwrite : ∀ b, write (read b) = b) :
    (codec.via write read).Bounded least := by
  intro room a hroom ha
  rcases ha.via with ⟨b, hb, rfl⟩
  have hle := h room b hroom hb
  rwa [← hwrite b] at hle

theorem Codec.bounded_struct {name : String} {record : Record τ} {write : α → τ} {read : τ → α}
    {least : Nat} (h : record.Bounded (least - 1)) (hwrite : ∀ value, write (read value) = value) :
    (struct name record write read).Bounded least :=
  (record.bounded h (.struct name record.size)).via hwrite

namespace Variant

/-- What is read as a variant nests no deeper than the room. -/
abbrev Bounded (codec : Codec α) (least : Nat) (v : Variant α) : Prop :=
  v.Ensures fun room a => least ≤ room → codec.depth a ≤ room

variable {codec : Codec α} {name : String} {least : Nat}

theorem bounded_unit {a : α} (h : codec.depth a = 0) : (unit name a).Bounded codec least := by
  apply ensures_unit
  intro room _
  rw [h]
  exact Nat.zero_le room

theorem bounded_value {inner : Codec β} {of : β → α} (h : inner.Bounded (least - 1))
    (hencode : ∀ b, codec.encode (of b) = tagged name (inner.encode b)) :
    (value name (inner.decode.map of)).Bounded codec least := by
  apply ensures_value
  intro room b hb hroom
  exact Codec.depth_value_le (hencode b) (h room b (by omega) hb)

theorem bounded_fields {type : String} {record : Record τ} {of : τ → α}
    (h : record.Bounded (least - 2))
    (hencode : ∀ value, codec.encode (of value) = tagged name (record.encode value)) :
    (fields type name record of).Bounded codec least := by
  apply ensures_fields
  intro room value horigin hroom
  apply Codec.depth_fields_le (hencode value)
  exact Record.depth_le_iff.mp (horigin.depth_le h (by omega))

theorem bounded {variants : List (Variant α)} (hdecode : codec.decode = decode variants)
    (h : ∀ v ∈ variants, v.Bounded codec least) : codec.Bounded least := by
  intro room a hroom ha
  exact ensures_of_yields hdecode h ha hroom

end Variant

end Upvalue.Json

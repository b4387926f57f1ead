import Upvalue.Proofs.Json.Exact

/-!
This module contains the proof that a value is read from whichever form it is written in. The fields
of a structure are found by their names, or by their positions in a sequence of all of them.
-/

namespace Upvalue.Json

/-! ### Structures -/

namespace Record

/-- A JSON value is read as the value of a field. -/
def Entry.Reads (entry : Entry) (room : Nat) (json : Json) : Prop :=
  entry.member.codec.decode room json = .ok entry.value

/-- The fields that have been read of a structure when those with some names have been read. -/
def held (keys : List String) : {τ : Type} → (record : Record τ) → τ → record.Slots
  | _, .nil, () => ()
  | _, .cons field rest, (a, b) => (if field.name ∈ keys then some a else none, rest.held keys b)

variable {record : Record τ} {value : τ} {room : Nat} {keys : List String}

theorem held_nil (record : Record τ) (value : τ) : record.held [] value = record.noSlots := by
  induction record with
  | nil => rfl
  | cons field rest ih =>
    unfold held noSlots
    rw [ih, if_neg List.not_mem_nil]

/-- Keys that are no names of fields do not matter. -/
theorem held_append_of_not_mem {key : String} (h : key ∉ record.names) :
    record.held (keys ++ [key]) value = record.held keys value := by
  induction record with
  | nil => rfl
  | cons field rest ih =>
    unfold names at h
    rw [List.mem_cons, not_or] at h
    have hmem : field.name ∈ keys ++ [key] ↔ field.name ∈ keys := by
      simp [Ne.symm h.1]
    unfold held
    rw [ih h.2, if_congr hmem rfl rfl]

/-- One more key is read, a field of the structure at most once. -/
theorem put_held (hnames : record.names.Nodup) {key : String} {json : Json}
    (hfresh : key ∈ record.names → key ∉ keys)
    (hread : ∀ entry ∈ record.entries value, entry.name = key → entry.Reads room json) :
    record.put room key json (record.held keys value) =
      .ok (record.held (keys ++ [key]) value) := by
  induction record with
  | nil => rfl
  | cons field rest ih =>
    rcases value with ⟨a, b⟩
    unfold names at hnames hfresh
    unfold entries at hread
    rw [List.nodup_cons] at hnames
    rw [List.forall_mem_cons] at hread
    unfold held
    by_cases hkey : key = field.name
    . subst hkey
      have hdecode : field.codec.decode room json = .ok a := hread.1 rfl
      rw [if_neg (hfresh List.mem_cons_self), held_append_of_not_mem hnames.1]
      change (cons field rest).put room field.name json (slotsCons field none _) = _
      rw [put_first, hdecode, if_pos (by simp)]
      rfl
    . have hrest := ih hnames.2 (fun h => hfresh (List.mem_cons_of_mem _ h)) hread.2
      have hmem : field.name ∈ keys ++ [key] ↔ field.name ∈ keys := by
        simp [Ne.symm hkey]
      change (cons field rest).put room key json (slotsCons field _ _) = _
      rw [put_rest hkey, hrest, if_congr hmem rfl rfl]
      rfl

theorem putAll_held (hnames : record.names.Nodup) {fields : List (String × Json)}
    (honce : ((keys ++ fields.map Prod.fst).filter (· ∈ record.names)).Nodup)
    (hread : ∀ entry ∈ record.entries value, ∀ json, (entry.name, json) ∈ fields →
      entry.Reads room json) :
    record.putAll room (plainFields fields) (record.held keys value) =
      .ok (record.held (keys ++ fields.map Prod.fst) value) := by
  induction fields generalizing keys with
  | nil =>
    rw [List.map_nil, List.append_nil]
    rfl
  | cons field fields ih =>
    rcases field with ⟨key, json⟩
    rw [List.map_cons, List.append_cons] at honce ⊢
    have hfresh : key ∈ record.names → key ∉ keys := by
      intro hname hkey
      rw [List.filter_append, List.filter_append, List.nodup_append, List.nodup_append] at honce
      apply honce.1.2.2 key _ key _ rfl
      . exact List.mem_filter.mpr ⟨hkey, by simpa using hname⟩
      . exact List.mem_filter.mpr ⟨List.mem_singleton_self key, by simpa using hname⟩
    rw [putAll_plain, put_held hnames hfresh]
    . apply ih honce
      intro entry hentry json hmem
      exact hread entry hentry json (List.mem_cons_of_mem _ hmem)
    . rintro entry hentry rfl
      exact hread entry hentry json List.mem_cons_self

/-- A structure is complete if the fields that have not been read have values without a text. -/
theorem finish_held (h : ∀ entry ∈ record.entries value, entry.name ∉ keys →
      entry.member.absent = some entry.value) :
    record.finish (record.held keys value) = .ok value := by
  induction record with
  | nil => rfl
  | cons field rest ih =>
    rcases value with ⟨a, b⟩
    unfold entries at h
    rw [List.forall_mem_cons] at h
    have hslot : (if field.name ∈ keys then some a else none).or field.absent = some a := by
      by_cases hkey : field.name ∈ keys
      . rw [if_pos hkey, Option.some_or]
      . rw [if_neg hkey, Option.none_or]
        exact h.1 hkey
    simp only [held, finish, hslot]
    rw [ih h.2]
    rfl

/--
A structure is read from an object whose keys are the names of its fields in any order, with other
keys between them. Fields may be missing if they have values without a text.
-/
theorem ofFields_ok (hnames : record.names.Nodup) {fields : List (String × Json)}
    (honce : ((fields.map Prod.fst).filter (· ∈ record.names)).Nodup)
    (habsent : ∀ entry ∈ record.entries value, entry.name ∉ fields.map Prod.fst →
      entry.member.absent = some entry.value)
    (hread : ∀ entry ∈ record.entries value, ∀ json, (entry.name, json) ∈ fields →
      entry.Reads room json) :
    record.ofFields room (plainFields fields) = .ok value := by
  have hputAll : record.putAll room (plainFields fields) (record.held [] value) =
      .ok (record.held (fields.map Prod.fst) value) :=
    putAll_held hnames honce hread
  unfold ofFields
  rw [← held_nil record value, hputAll]
  exact finish_held habsent

/-- A structure is read from a sequence of all of its fields. -/
theorem ofItems_ok {expected : Shape} {index : Nat} {items : List Json}
    (hread : List.Forall₂ (fun entry json => entry.Reads room json) (record.entries value) items) :
    ofItems room expected index record items = .ok value := by
  induction record generalizing index items with
  | nil =>
    cases hread
    rfl
  | cons field rest ih =>
    rcases value with ⟨a, b⟩
    cases hread with
    | cons hfirst hrest =>
      unfold Entry.Reads at hfirst
      unfold ofItems
      dsimp only at hfirst ⊢
      rw [hfirst, ih hrest]
      rfl

end Record

namespace Codec

variable {codec : Codec α} {n room : Nat} {a : α} {json : Json}

/-! ### Values -/

theorem descend_of_lt {inside : Nat → Except DecodeError α} (hroom : n + 1 ≤ room)
    (h : ∀ r, n ≤ r → inside r = .ok a) : Decoder.descend room inside = .ok a := by
  cases room with
  | zero => exact absurd hroom (Nat.not_succ_le_zero n)
  | succ room => exact h room (Nat.le_of_succ_le_succ hroom)

theorem mapM_ok {as : List α} {items : List Json}
    (h : List.Forall₂ (fun a item => codec.decode room item = .ok a) as items) :
    items.mapM (codec.decode room) = .ok as := by
  induction h with
  | nil => rfl
  | cons hfirst _ ih =>
    rw [List.mapM_cons, hfirst, ih]
    rfl

theorem decode_some (hnull : json ≠ .null) (h : codec.decode room json = .ok a) :
    codec.option.decode room json = .ok (some a) := by
  change Decoder.option codec.decode room json = _
  unfold Decoder.option
  split
  . exact absurd rfl hnull
  . rw [h]
    rfl

theorem decode_pair {first : Codec α} {second : Codec β} {b : β} {json' : Json}
    (hroom : n + 1 ≤ room) (hfirst : ∀ r, n ≤ r → first.decode r json = .ok a)
    (hsecond : ∀ r, n ≤ r → second.decode r json' = .ok b) :
    (first.pair second).decode room (.array [json, json']) = .ok (a, b) := by
  apply descend_of_lt hroom
  intro r hr
  have hread : List.Forall₂ (fun entry json => entry.Reads r json)
      ((pairRecord first second).entries (a, b, ())) [json, json'] :=
    .cons (hfirst r hr) (.cons (hsecond r hr) .nil)
  change (Record.ofItems r (.tuple 2) 0 (pairRecord first second) [json, json'] >>=
    fun t : α × β × Unit => pure (t.1, t.2.1)) = _
  rw [Record.ofItems_ok hread]
  rfl

theorem decode_object {record : Record τ} {expected : Shape} {value : τ}
    {fields : List (String × Json)} (hnames : record.names.Nodup)
    (honce : ((fields.map Prod.fst).filter (· ∈ record.names)).Nodup)
    (habsent : ∀ entry ∈ record.entries value, entry.name ∉ fields.map Prod.fst →
      entry.member.absent = some entry.value) (hroom : n + 1 ≤ room)
    (hpresent : ∀ entry ∈ record.entries value, ∀ json, (entry.name, json) ∈ fields →
      ∀ r, n ≤ r → entry.Reads r json) :
    (record.codec expected).decode room (Json.obj fields) = .ok value := by
  apply descend_of_lt hroom
  intro r hr
  apply Record.ofFields_ok hnames honce habsent
  intro entry hentry json hjson
  exact hpresent entry hentry json hjson r hr

theorem decode_sequence {record : Record τ} {expected : Shape} {value : τ} {items : List Json}
    (hroom : n + 1 ≤ room) (hread : ∀ r, n ≤ r →
      List.Forall₂ (fun entry item => entry.Reads r item) (record.entries value) items) :
    (record.codec expected).decode room (.array items) = .ok value := by
  apply descend_of_lt hroom
  intro r hr
  exact Record.ofItems_ok (hread r hr)

/-- Whichever way a value is written, it is read. -/
theorem Writes.decode (h : codec.Writes n a json) :
    ∀ room, n ≤ room → codec.decode room json = .ok a := by
  induction h with
  | bool b => exact fun room _ => rfl
  | string s => exact fun room _ => rfl
  | uint32 i =>
    intro room _
    exact ((exact_uint32 i).decode room (Nat.lt_succ_self room)).trans within_zero
  | int64 i =>
    intro room _
    exact ((exact_int64 i).decode room (Nat.lt_succ_self room)).trans within_zero
  | float htoken hexact =>
    intro room _
    unfold Codec.float Decoder.float Json.found
    dsimp only
    rw [hexact]
  | null => exact fun room _ => rfl
  | some hnull _ ih =>
    intro room hroom
    exact decode_some hnull (ih room hroom)
  | list hlength _ ih =>
    intro room hroom
    apply descend_of_lt hroom
    intro r hr
    apply mapM_ok
    refine forall₂_iff_getElem?.mpr ⟨hlength, ?_⟩
    intro i a item ha hitem
    exact ih i a item ha hitem r hr
  | pair _ _ ihfirst ihsecond =>
    intro room hroom
    exact decode_pair hroom ihfirst ihsecond
  | @via n α β codec write read a json hread _ ih =>
    intro room hroom
    change (codec.decode room json).map read = _
    rw [ih room hroom, ← hread]
    simp [Except.map, hread]
  | object hnames honce habsent _ ih =>
    intro room hroom
    exact decode_object hnames honce habsent hroom ih
  | sequence hlength _ ih =>
    intro room hroom
    apply decode_sequence hroom
    intro r hr
    refine forall₂_iff_getElem?.mpr ⟨hlength, ?_⟩
    intro i entry item hentry hitem
    exact ih i entry item hentry hitem r hr
  | name hfind =>
    intro room _
    exact @Variant.decode_str _ _ _ _ room hfind
  | taggedNull hfind =>
    intro room hroom
    apply (Variant.decode_tagged hfind).trans
    apply descend_of_lt hroom
    exact fun r _ => rfl
  | @tagged n α β encode variants name codec of b json hfind _ ih =>
    intro room hroom
    apply (Variant.decode_tagged hfind).trans
    apply descend_of_lt hroom
    intro r hr
    change (codec.decode r json).map of = _
    rw [ih r hr]
    rfl
  | @fields n α τ encode variants type name record of value json hfind _ ih =>
    intro room hroom
    apply (Variant.decode_tagged hfind).trans
    apply descend_of_lt hroom
    intro r hr
    change ((record.codec _).decode r json).map of = _
    rw [ih r hr]
    rfl

end Codec

end Upvalue.Json

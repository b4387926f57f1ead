import Upvalue.Proofs.Json.Number
import Upvalue.Proofs.Json.Printing
import Upvalue.Proofs.Json.Writing

/-!
This module contains the codecs that read back what they write. A decoder may open only so many
arrays and objects, so that what is written is read back if it nests at most that deep, and it fails
for this reason otherwise.
-/

namespace Upvalue.Json

/-! ### Nesting -/

mutual

/-- How many arrays and objects are open at once at most. -/
def depth : Json → Nat
  | .array items => depthItems items + 1
  | .object fields => depthFields fields + 1
  | _ => 0

def depthItems : List Json → Nat
  | [] => 0
  | item :: items => max item.depth (depthItems items)

def depthFields : List (Text × Json) → Nat
  | [] => 0
  | (_, value) :: fields => max value.depth (depthFields fields)

end

section Values

variable {items : List Json} {n : Nat}

theorem depthItems_le_iff : depthItems items ≤ n ↔ ∀ item ∈ items, item.depth ≤ n := by
  induction items with
  | nil => simp [depthItems]
  | cons item items ih => simp [depthItems, ih]

theorem legalItems_iff : LegalItems items ↔ ∀ item ∈ items, item.Legal := by
  induction items with
  | nil => simp [LegalItems]
  | cons item items ih => simp [LegalItems, ih]

theorem legal_str (s : String) : (str s).Legal :=
  ⟨s, rfl⟩

theorem legal_array_iff : (Json.array items).Legal ↔ ∀ item ∈ items, item.Legal :=
  legalItems_iff

theorem legal_obj_iff {fields : List (String × Json)} :
    (obj fields).Legal ↔ ∀ field ∈ fields, field.2.Legal := by
  change LegalFields (fields.map _) ↔ _
  induction fields with
  | nil => simp [LegalFields]
  | cons field fields ih => simp [LegalFields, ih]

end Values

/-- The result of reading something that nests as deep as `depth` says. -/
def within (depth room : Nat) (a : α) : Except DecodeError α :=
  if depth ≤ room then .ok a else .error .nesting

section Within

variable {d d' room : Nat} {a : α} {b : β}

theorem within_zero : within 0 room a = .ok a :=
  if_pos (Nat.zero_le room)

@[simp]
theorem map_within (f : α → β) : (within d room a).map f = within d room (f a) := by
  unfold within
  split <;> rfl

theorem within_bind {f : α → Except DecodeError β} (h : f a = within d' room b) :
    within d room a >>= f = within (max d d') room b := by
  unfold within at h ⊢
  by_cases hd : d ≤ room
  . rw [if_pos hd]
    change f a = _
    rw [h]
    simp [hd]
  . rw [if_neg hd, if_neg (by omega)]
    rfl

theorem within_bind_ok {f : α → Except DecodeError β} (h : f a = .ok b) :
    within d room a >>= f = within d room b := by
  unfold within
  split
  . exact h
  . rfl

theorem within_bind_pure (f : α → β) :
    (within d room a >>= fun a => pure (f a)) = within d room (f a) :=
  within_bind_ok rfl

theorem descend_within {inside : Nat → Except DecodeError α}
    (h : ∀ r, room = r + 1 → inside r = within d r a) :
    Decoder.descend room inside = within (d + 1) room a := by
  cases room with
  | zero => rfl
  | succ room =>
    change inside room = _
    rw [h room rfl]
    simp [within]

end Within

namespace Codec

def depth (codec : Codec α) (a : α) : Nat :=
  (codec.encode a).depth

/--
What is written for `a` can be spelled, it is one of the ways to write `a`, and it is read as `a`
with fewer than `limit` arrays and objects left to open, provided that they are enough.
-/
structure Exact (codec : Codec α) (limit : Nat) (a : α) : Prop where
  legal : (codec.encode a).Legal
  writes : ∀ n < limit, codec.depth a ≤ n → codec.Writes n a (codec.encode a)
  decode : ∀ room < limit, codec.decode room (codec.encode a) = within (codec.depth a) room a

/-- What is written for `a` is read back, by a decoder that starts with nothing open. -/
abbrev Lossless (codec : Codec α) (a : α) : Prop :=
  codec.Exact (nestingLimit + 1) a

section Basic

variable {codec : Codec α} {limit : Nat}

theorem Exact.mono {limit' : Nat} {a : α} (h : codec.Exact limit a) (hle : limit' ≤ limit) :
    codec.Exact limit' a where
  legal := h.legal
  writes n hn := h.writes n (Nat.lt_of_lt_of_le hn hle)
  decode room hroom := h.decode room (Nat.lt_of_lt_of_le hroom hle)

/-- A decoder that may not go anywhere reads nothing, so that it is enough to be able to spell. -/
theorem exact_zero {a : α} (h : (codec.encode a).Legal) : codec.Exact 0 a where
  legal := h
  writes n hn := absurd hn (Nat.not_lt_zero n)
  decode room hroom := absurd hroom (Nat.not_lt_zero room)

theorem exact_of_ok {a : α} (hlegal : (codec.encode a).Legal) (hdepth : codec.depth a = 0)
    (hwrites : ∀ n, codec.Writes n a (codec.encode a))
    (h : ∀ room, codec.decode room (codec.encode a) = .ok a) : codec.Exact limit a where
  legal := hlegal
  writes n _ _ := hwrites n
  decode room _ := by
    rw [h, hdepth, within_zero]

@[simp]
theorem depth_float (x : Binary64) : float.depth x = 0 := by
  unfold depth float Json.ofOption
  dsimp only
  split <;> rfl

theorem exact_bool (b : Bool) : bool.Exact limit b :=
  exact_of_ok trivial rfl (fun _ => .bool b) fun _ => rfl

theorem exact_string (s : String) : string.Exact limit s :=
  exact_of_ok (legal_str s) rfl (fun _ => .string s) fun _ => rfl

theorem integer_ofInt {name : String} {least bound i : Int} {room : Nat} (hle : least ≤ i)
    (hlt : i < bound) (hleast : -Int.pow 2 63 ≤ least) (hbound : bound ≤ Int.pow 2 64) :
    Decoder.integer name least bound room (.number (.ofInt i)) = .ok i := by
  have hvalue : (Number.ofInt i).value? = some (.integer i) :=
    Number.value?_ofInt (Int.le_trans hleast hle) (Int.lt_of_lt_of_le hlt hbound)
  unfold Decoder.integer Json.found
  dsimp only
  rw [hvalue]
  exact if_pos ⟨hle, hlt⟩

theorem decode_uint32 (room : Nat) (json : Json) : uint32.decode room json =
    (Decoder.integer "u32" 0 (Int.pow 2 32) room json).map fun i => UInt32.ofNat i.toNat :=
  rfl

theorem decode_int64 (room : Nat) (json : Json) : int64.decode room json =
    (Decoder.integer "i64" (-Int.pow 2 63) (Int.pow 2 63) room json).map Int64.ofInt :=
  rfl

theorem exact_uint32 (n : UInt32) : uint32.Exact limit n := by
  have hlt : (n.toNat : Int) < Int.pow 2 32 := by
    have := n.toNat_lt
    simp
    omega
  have hencode : uint32.encode n = .number (.ofInt n.toNat) := by
    rw [← Number.ofNat_eq]
    rfl
  refine exact_of_ok (Number.legal_ofNat n.toNat :) rfl (fun _ => .uint32 n) ?_
  intro room
  rw [decode_uint32, hencode, integer_ofInt (Int.natCast_nonneg _) hlt (by decide) (by decide)]
  simp [Except.map]

theorem exact_int64 (i : Int64) : int64.Exact limit i := by
  have hle : -Int.pow 2 63 ≤ i.toInt := i.le_toInt
  have hlt : i.toInt < Int.pow 2 63 := i.toInt_lt
  have hencode : int64.encode i = .number (.ofInt i.toInt) := rfl
  refine exact_of_ok (Number.legal_ofInt i.toInt :) rfl (fun _ => .int64 i) ?_
  intro room
  rw [decode_int64, hencode, integer_ofInt hle hlt (by decide) (by decide)]
  simp [Except.map]

theorem exact_float {x : Binary64} (h : x.ReadsBack) : float.Exact limit x := by
  rcases h with ⟨n, hn, hvalue⟩
  have hencode : float.encode x = .number n := by
    change Json.ofOption .number (Number.ofBinary64? x) = _
    rw [hn]
    rfl
  apply exact_of_ok
  . rw [hencode]
    exact Number.legal_ofBinary64? hn
  . exact depth_float x
  . intro _
    rw [hencode]
    exact .float hn hvalue
  . intro room
    rw [hencode]
    unfold float Decoder.float Json.found
    dsimp only
    rw [hvalue]

theorem Exact.via {codec : Codec β} {write : α → β} {read : β → α} {a : α}
    (h : codec.Exact limit (write a)) (hread : read (write a) = a) :
    (codec.via write read).Exact limit a where
  legal := h.legal
  writes n hn hdepth := .via hread (h.writes n hn hdepth)
  decode room hroom := by
    change (codec.decode room (codec.encode (write a))).map read = _
    rw [h.decode room hroom, map_within, hread]
    rfl

@[simp]
theorem depth_some (a : α) : codec.option.depth (some a) = codec.depth a := rfl

theorem exact_none : codec.option.Exact limit none :=
  exact_of_ok trivial rfl (fun _ => .null) fun _ => rfl

theorem exact_some {a : α} (h : codec.Exact limit a) (hnull : codec.encode a ≠ .null) :
    codec.option.Exact limit (some a) where
  legal := h.legal
  writes n hn hdepth := .some hnull (h.writes n hn hdepth)
  decode room hroom := by
    have hdecode : codec.option.decode room (codec.encode a) =
        (codec.decode room (codec.encode a)).map some := by
      change Decoder.option codec.decode room (codec.encode a) = _
      unfold Decoder.option
      split
      . next heq => exact absurd heq hnull
      . rfl
    change codec.option.decode room (codec.encode a) = _
    rw [hdecode, h.decode room hroom, map_within]
    rfl

theorem exact_option {o : Option α} (h : ∀ a, o = some a → codec.Exact limit a)
    (hnull : ∀ a, codec.encode a ≠ .null) : codec.option.Exact limit o := by
  cases o with
  | none => exact exact_none
  | some a => exact exact_some (h a rfl) (hnull a)

end Basic

section Sequences

variable {codec : Codec α} {limit : Nat}

theorem mapM_within {as : List α} {room : Nat}
    (h : ∀ a ∈ as, codec.decode room (codec.encode a) = within (codec.depth a) room a) :
    (as.map codec.encode).mapM (codec.decode room) =
      within (depthItems (as.map codec.encode)) room as := by
  induction as with
  | nil => rfl
  | cons a as ih =>
    rw [List.forall_mem_cons] at h
    rw [List.map_cons, List.mapM_cons, h.1]
    apply within_bind
    rw [ih h.2]
    apply within_bind_pure

theorem depth_list_le_iff {as : List α} {n : Nat} :
    codec.list.depth as ≤ n + 1 ↔ ∀ a ∈ as, codec.depth a ≤ n := by
  change depthItems (as.map codec.encode) + 1 ≤ n + 1 ↔ _
  rw [Nat.add_le_add_iff_right, depthItems_le_iff, List.forall_mem_map]
  rfl

theorem depth_list_le {as : List α} {n : Nat} (h : ∀ a, codec.depth a ≤ n) :
    codec.list.depth as ≤ n + 1 :=
  depth_list_le_iff.mpr fun a _ => h a

theorem depth_array_le_iff {as : Array α} {n : Nat} :
    codec.array.depth as ≤ n + 1 ↔ ∀ a ∈ as, codec.depth a ≤ n := by
  change codec.list.depth as.toList ≤ n + 1 ↔ _
  rw [depth_list_le_iff]
  simp only [Array.mem_toList_iff]

theorem exact_list {as : List α} (h : ∀ a ∈ as, codec.Exact limit a) :
    codec.list.Exact limit as where
  legal := by
    apply legal_array_iff.mpr
    intro item hitem
    rcases List.mem_map.mp hitem with ⟨a, ha, rfl⟩
    exact (h a ha).legal
  writes n hn hdepth := by
    cases n with
    | zero => exact absurd hdepth (Nat.not_succ_le_zero _)
    | succ n =>
      have hdepths := depth_list_le_iff.mp hdepth
      apply Writes.list_of_forall₂
      rw [List.forall₂_map_right_iff, List.forall₂_same]
      intro a ha
      exact (h a ha).writes n (Nat.lt_of_succ_lt hn) (hdepths a ha)
  decode room hroom := by
    apply descend_within
    rintro room rfl
    apply mapM_within
    intro a ha
    exact (h a ha).decode room (by omega)

theorem exact_array {as : Array α} (h : ∀ a ∈ as, codec.Exact limit a) :
    codec.array.Exact limit as := by
  have hlist : codec.list.Exact limit as.toList := by
    apply exact_list
    intro a ha
    exact h a (Array.mem_toList_iff.mp ha)
  exact hlist.via Array.toArray_toList

end Sequences

end Codec

/-! ### Structures -/

namespace Record

/-- How deep the fields of a structure nest. -/
def depth : Record τ → τ → Nat
  | .nil, () => 0
  | .cons field rest, (a, b) => max (field.codec.depth a) (rest.depth b)

/-- No field of a structure nests deeper than `n`. -/
def Fits (n : Nat) : Record τ → τ → Prop
  | .nil, () => True
  | .cons field rest, (a, b) => field.codec.depth a ≤ n ∧ rest.Fits n b

/-- All fields of a structure are read back. -/
def Exact (limit : Nat) : Record τ → τ → Prop
  | .nil, () => True
  | .cons field rest, (a, b) => field.codec.Exact limit a ∧ rest.Exact limit b

/-- The fields that have been read when a structure is complete. -/
def filled : {τ : Type} → (record : Record τ) → τ → record.Slots
  | _, .nil, () => ()
  | _, .cons _ rest, (a, b) => (some a, rest.filled b)

variable {record : Record τ} {value : τ} {limit room : Nat}

theorem depth_le_iff {n : Nat} : record.depth value ≤ n ↔ record.Fits n value := by
  induction record with
  | nil => exact iff_of_true (Nat.zero_le n) trivial
  | cons field rest ih =>
    rcases value with ⟨a, b⟩
    unfold depth Fits
    rw [Nat.max_le, ih]

@[simp]
theorem depth_encode (record : Record τ) (value : τ) :
    (record.encode value).depth = record.depth value + 1 := by
  change depthFields (List.map _ _) + 1 = _
  congr 1
  induction record with
  | nil => rfl
  | cons field rest ih =>
    change max _ (depthFields (List.map _ _)) = max _ _
    rw [ih]
    rfl

theorem legal_encode (h : record.Exact limit value) : (record.encode value).Legal := by
  apply legal_obj_iff.mpr
  induction record with
  | nil =>
    intro field hfield
    cases hfield
  | cons field rest ih =>
    rcases value with ⟨a, b⟩
    unfold encodeFields
    rw [List.forall_mem_cons]
    exact ⟨h.1.legal, ih h.2⟩

/-- The fields of an object whose names can be read. -/
def plainFields (fields : List (String × Json)) : List (Text × Json) :=
  fields.map fun (name, json) => (.plain name, json)

section Put

variable {α β : Type} {field : Member α} {rest : Record β} {slot : Option α} {key : String}

/-- The fields of a structure that have been read, given the first one and the others. -/
def slotsCons (field : Member α) (slot : Option α) (slots : rest.Slots) :
    (cons field rest).Slots :=
  (slot, slots)

theorem putAll_plain (key : String) (json : Json) (fields : List (String × Json))
    (slots : record.Slots) : record.putAll room (plainFields ((key, json) :: fields)) slots =
      record.put room key json slots >>= fun slots =>
        record.putAll room (plainFields fields) slots :=
  rfl

theorem put_first (json : Json) (slots : rest.Slots) :
    (cons field rest).put room field.name json (slotsCons field none slots) =
      field.codec.decode room json >>= fun a => pure (slotsCons field (some a) slots) :=
  if_pos rfl

theorem put_rest (h : key ≠ field.name) (json : Json) (slots : rest.Slots) :
    (cons field rest).put room key json (slotsCons field slot slots) =
      (rest.put room key json slots).map (slotsCons field slot) :=
  if_neg h

/-- Fields with other names than the first one are fields of the rest. -/
theorem putAll_rest {fields : List (String × Json)} (h : ∀ f ∈ fields, f.1 ≠ field.name)
    (slots : rest.Slots) :
    (cons field rest).putAll room (plainFields fields) (slotsCons field slot slots) =
      (rest.putAll room (plainFields fields) slots).map (slotsCons field slot) := by
  induction fields generalizing slots with
  | nil => rfl
  | cons f fields ih =>
    rcases f with ⟨key, json⟩
    rw [List.forall_mem_cons] at h
    rw [putAll_plain, putAll_plain, put_rest h.1]
    cases rest.put room key json slots with
    | error e => rfl
    | ok slots => exact ih h.2 slots

end Put

theorem putAll_encodeFields (h : record.Exact limit value) (hnames : record.names.Nodup)
    (hroom : room < limit) :
    record.putAll room (plainFields (record.encodeFields value)) record.noSlots =
      within (record.depth value) room (record.filled value) := by
  induction record with
  | nil => exact within_zero.symm
  | cons field rest ih =>
    rcases value with ⟨a, b⟩
    unfold names at hnames
    rw [List.nodup_cons] at hnames
    -- Names are distinct, so that the other fields are found in the rest of the structure.
    have hothers : ∀ f ∈ rest.encodeFields b, f.1 ≠ field.name := by
      rintro ⟨name, json⟩ hf rfl
      exact hnames.1 (mem_names hf)
    change (cons field rest).putAll room (plainFields ((field.name, _) :: _))
      (slotsCons field none rest.noSlots) = _
    rw [putAll_plain, put_first, h.1.decode room hroom, within_bind_pure]
    apply within_bind
    rw [putAll_rest hothers, ih h.2 hnames.2, map_within]
    rfl

theorem finish_filled (record : Record τ) (value : τ) :
    record.finish (record.filled value) = .ok value := by
  induction record with
  | nil => rfl
  | cons field rest ih =>
    rcases value with ⟨a, b⟩
    simp only [filled, finish, Option.some_or]
    rw [ih]
    rfl

theorem ofFields_encodeFields (h : record.Exact limit value) (hnames : record.names.Nodup)
    (hroom : room < limit) :
    record.ofFields room (plainFields (record.encodeFields value)) =
      within (record.depth value) room value := by
  unfold ofFields
  rw [putAll_encodeFields h hnames hroom]
  apply within_bind_ok
  apply finish_filled

theorem ofItems_encodeFields {expected : Shape} {index : Nat} (h : record.Exact limit value)
    (hroom : room < limit) :
    ofItems room expected index record ((record.encodeFields value).map Prod.snd) =
      within (record.depth value) room value := by
  induction record generalizing index with
  | nil => exact within_zero.symm
  | cons field rest ih =>
    rcases value with ⟨a, b⟩
    simp only [encodeFields, List.map_cons, ofItems]
    rw [h.1.decode room hroom]
    apply within_bind
    rw [ih h.2]
    apply within_bind_pure

theorem decode_encode (expected : Shape) (h : record.Exact limit value)
    (hnames : record.names.Nodup) (hroom : room < limit) :
    record.decode expected room (record.encode value) =
      within (record.depth value + 1) room value := by
  apply descend_within
  rintro room rfl
  exact ofFields_encodeFields h hnames (by omega)

/-- What is written for a field of a structure is found by its name. -/
theorem writes_of_mem {n : Nat} (h : record.Exact limit value) (hnames : record.names.Nodup)
    (hn : n < limit) (hfits : record.Fits n value) {entry : Entry}
    (hentry : entry ∈ record.entries value) {json : Json}
    (hjson : (entry.name, json) ∈ record.encodeFields value) :
    entry.member.codec.Writes n entry.value json := by
  induction record with
  | nil => cases hentry
  | cons field rest ih =>
    rcases value with ⟨a, b⟩
    unfold names at hnames
    rw [List.nodup_cons] at hnames
    unfold encodeFields at hjson
    rw [List.mem_cons] at hjson
    cases hentry with
    | head =>
      rcases hjson with hjson | hjson
      . cases hjson
        exact h.1.writes n hn hfits.1
      . exact absurd (mem_names hjson) hnames.1
    | tail _ hentry =>
      rcases hjson with hjson | hjson
      . have hname := name_mem_names hentry
        rw [(Prod.mk.inj hjson).1] at hname
        exact absurd hname hnames.1
      . exact ih h.2 hnames.2 hfits.2 hentry hjson

theorem writes_encode (expected : Shape) (h : record.Exact limit value)
    (hnames : record.names.Nodup) {n : Nat} (hn : n < limit)
    (hdepth : (record.encode value).depth ≤ n) :
    (record.codec expected).Writes n value (record.encode value) := by
  rw [depth_encode] at hdepth
  cases n with
  | zero => exact absurd hdepth (Nat.not_succ_le_zero _)
  | succ n =>
    have hfits := depth_le_iff.mp (Nat.le_of_succ_le_succ hdepth)
    refine .object hnames ?_ ?_ ?_
    . rw [map_fst_encodeFields]
      exact hnames.filter _
    . intro entry hentry hmissing
      rw [map_fst_encodeFields] at hmissing
      exact absurd (name_mem_names hentry) hmissing
    . intro entry hentry json hjson
      exact writes_of_mem h hnames (Nat.lt_of_succ_lt hn) hfits hentry hjson

theorem exact (h : record.Exact limit value) (hnames : record.names.Nodup) (expected : Shape) :
    Codec.Exact ⟨record.encode, record.decode expected⟩ limit value where
  legal := legal_encode h
  writes n hn hdepth := writes_encode expected h hnames hn hdepth
  decode room hroom := by
    unfold Codec.depth
    rw [depth_encode]
    exact decode_encode expected h hnames hroom

end Record

namespace Codec

variable {limit : Nat}

@[simp]
theorem depth_struct {name : String} {record : Record τ} {write : α → τ} {read : τ → α} (a : α) :
    (struct name record write read).depth a = record.depth (write a) + 1 :=
  record.depth_encode (write a)

theorem depth_struct_le_iff {name : String} {record : Record τ} {write : α → τ} {read : τ → α}
    {a : α} {n : Nat} :
    (struct name record write read).depth a ≤ n + 1 ↔ record.Fits n (write a) := by
  rw [depth_struct, Nat.add_le_add_iff_right, Record.depth_le_iff]

theorem exact_struct {name : String} {record : Record τ} {write : α → τ} {read : τ → α} {a : α}
    (h : record.Exact limit (write a)) (hnames : record.names.Nodup)
    (hread : read (write a) = a) : (struct name record write read).Exact limit a :=
  (record.exact h hnames (.struct name record.size)).via hread

def pairRecord (first : Codec α) (second : Codec β) : Record (α × β × Unit) :=
  .cons (.required "" first) (.cons (.required "" second) .nil)

theorem Exact.pair {first : Codec α} {second : Codec β} {a : α} {b : β} (ha : first.Exact limit a)
    (hb : second.Exact limit b) : (first.pair second).Exact limit (a, b) where
  legal := by
    apply legal_array_iff.mpr
    simp [ha.legal, hb.legal]
  writes n hn hdepth := by
    change max (first.depth a) (max (second.depth b) 0) + 1 ≤ n at hdepth
    cases n with
    | zero => exact absurd hdepth (Nat.not_succ_le_zero _)
    | succ n => exact .pair (ha.writes n (by omega) (by omega)) (hb.writes n (by omega) (by omega))
  decode room hroom := by
    have h : (pairRecord first second).Exact limit (a, b, ()) := ⟨ha, hb, trivial⟩
    apply descend_within
    rintro room rfl
    change (Record.ofItems room (.tuple 2) 0 (pairRecord first second)
      (((pairRecord first second).encodeFields (a, b, ())).map Prod.snd) >>=
        fun t : α × β × Unit => pure (t.1, t.2.1)) = _
    rw [Record.ofItems_encodeFields h (by omega)]
    apply within_bind_pure

end Codec

/-! ### Variants -/

namespace Variant

variable {variants : List (Variant α)} {name : String} {a : α} {limit room : Nat}

theorem find_eq {v : Variant α} (h : variants.find? (·.name == name) = some v) :
    find variants name = .ok v := by
  unfold find
  rw [h]

theorem decode_str (h : variants.find? (·.name == name) = some (.unit name a)) :
    decode variants room (.str name) = .ok a := by
  change (find variants name >>= fun v => v.alone) = _
  rw [find_eq h]
  rfl

theorem decode_tagged {v : Variant α} {json : Json}
    (h : variants.find? (·.name == name) = some v) :
    decode variants room (tagged name json) =
      Decoder.descend room fun room => v.contents room json := by
  change (Decoder.descend room fun room => find variants name >>= fun v =>
    v.contents room json >>= fun a => pure a) = _
  rw [find_eq h]
  simp only [bind_pure]
  rfl

@[simp]
theorem depth_tagged (name : String) (json : Json) : (tagged name json).depth = json.depth + 1 := by
  change max json.depth 0 + 1 = _
  rw [Nat.max_zero]

theorem legal_tagged {json : Json} (h : json.Legal) : (tagged name json).Legal :=
  ⟨⟨name, rfl⟩, h, trivial⟩

end Variant

namespace Codec

variable {codec : Codec α} {variants : List (Variant α)} {name : String} {a : α} {limit : Nat}

theorem eq_of_decode (hdecode : codec.decode = Variant.decode variants) :
    codec = ⟨codec.encode, Variant.decode variants⟩ := by
  rw [← hdecode]

theorem exact_unit (hdecode : codec.decode = Variant.decode variants)
    (hencode : codec.encode a = .str name)
    (hfind : variants.find? (·.name == name) = some (.unit name a)) : codec.Exact limit a := by
  apply exact_of_ok
  . rw [hencode]
    exact legal_str name
  . unfold depth
    rw [hencode]
    rfl
  . intro n
    rw [hencode, eq_of_decode hdecode]
    exact .name hfind
  . intro room
    rw [hdecode, hencode]
    exact Variant.decode_str hfind

theorem exact_of_contents {contents : Json} {v : Variant α}
    (hdecode : codec.decode = Variant.decode variants)
    (hencode : codec.encode a = Variant.tagged name contents)
    (hfind : variants.find? (·.name == name) = some v) (hlegal : contents.Legal)
    (hwrites : ∀ n < limit, contents.depth ≤ n →
      Writes ⟨codec.encode, Variant.decode variants⟩ (n + 1) a (Variant.tagged name contents))
    (hcontents : ∀ room < limit, v.contents room contents = within contents.depth room a) :
    codec.Exact (limit + 1) a where
  legal := by
    rw [hencode]
    exact Variant.legal_tagged hlegal
  writes n hn hdepth := by
    unfold depth at hdepth
    rw [hencode, Variant.depth_tagged] at hdepth
    rw [hencode, eq_of_decode hdecode]
    cases n with
    | zero => exact absurd hdepth (Nat.not_succ_le_zero _)
    | succ n => exact hwrites n (Nat.lt_of_succ_lt_succ hn) (Nat.le_of_succ_le_succ hdepth)
  decode room hroom := by
    unfold depth
    rw [hdecode, hencode, Variant.decode_tagged hfind, Variant.depth_tagged]
    apply descend_within
    rintro room rfl
    exact hcontents room (by omega)

/-- A variant with one value. -/
theorem Exact.tagged {inner : Codec β} {of : β → α} {b : β} (h : inner.Exact limit b)
    (hdecode : codec.decode = Variant.decode variants)
    (hencode : codec.encode a = Variant.tagged name (inner.encode b))
    (hfind : variants.find? (·.name == name) = some (.value name (inner.decode.map of)))
    (hof : of b = a) : codec.Exact (limit + 1) a := by
  apply exact_of_contents hdecode hencode hfind h.legal
  . intro n hn hdepth
    rw [← hof]
    exact .tagged hfind (h.writes n hn hdepth)
  . intro room hroom
    change (inner.decode room (inner.encode b)).map of = _
    rw [h.decode room hroom, map_within, hof]
    rfl

theorem depth_value_le {inner : Codec β} {b : β} {n : Nat}
    (hencode : codec.encode a = Variant.tagged name (inner.encode b)) (h : inner.depth b ≤ n) :
    codec.depth a ≤ n + 1 := by
  unfold depth
  rw [hencode, Variant.depth_tagged]
  exact Nat.add_le_add_right h 1

theorem depth_fields_le {record : Record τ} {value : τ} {n : Nat}
    (hencode : codec.encode a = Variant.tagged name (record.encode value))
    (h : record.Fits n value) : codec.depth a ≤ n + 2 := by
  unfold depth
  rw [hencode, Variant.depth_tagged, Record.depth_encode]
  exact Nat.add_le_add_right (Record.depth_le_iff.mpr h) 2

/-- A variant with fields. -/
theorem exact_fields {type : String} {record : Record τ} {of : τ → α} {value : τ}
    (hdecode : codec.decode = Variant.decode variants)
    (hencode : codec.encode a = Variant.tagged name (record.encode value))
    (hfind : variants.find? (·.name == name) = some (.fields type name record of))
    (hof : of value = a) (hnames : record.names.Nodup) (h : record.Exact limit value) :
    codec.Exact (limit + 1) a := by
  apply exact_of_contents hdecode hencode hfind (Record.legal_encode h)
  . intro n hn hdepth
    rw [← hof]
    exact .fields hfind (Record.writes_encode _ h hnames hn hdepth)
  . intro room hroom
    change (record.decode _ room (record.encode value)).map of = _
    rw [Record.decode_encode _ h hnames hroom, map_within, hof, Record.depth_encode]

end Codec

end Upvalue.Json

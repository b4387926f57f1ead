import Upvalue.Json.Reader
import Upvalue.Proofs.Json.Spelling

/-!
This module contains the proof that what is written is read back. Both ways to write a value spell
the same tokens with different blanks between them, and the reader makes the value of these tokens.
-/

namespace Upvalue.Json

open Token

/-! ### Characters -/

/-- The blanks between the tokens of a value. -/
structure Spacing where
  /-- What stands before an item, a field or a closing bracket. -/
  line : (indent : Nat) → List Char
  /-- What stands before the value of a field. -/
  gap : List Char
  isBlank_of_line : ∀ indent, ∀ c ∈ line indent, isBlank c = true
  isBlank_of_gap : ∀ c ∈ gap, isBlank c = true

def textChars (text : Text) : List Char :=
  stringChars (text.toOption.getD "")

mutual

/-- The characters of a value. -/
def spell (spacing : Spacing) (indent : Nat) : Json → List Char
  | .null => "null".toList
  | .bool true => "true".toList
  | .bool false => "false".toList
  | .number n => n.chars
  | .string text => textChars text
  | .array [] => ['[', ']']
  | .array (item :: items) =>
    '[' :: (spacing.line (indent + 1) ++ (spell spacing (indent + 1) item ++
      (spellItems spacing (indent + 1) items ++ (spacing.line indent ++ [']']))))
  | .object [] => ['\x7b', '\x7d']
  | .object ((key, value) :: fields) =>
    '\x7b' :: (spacing.line (indent + 1) ++ (textChars key ++ ':' :: (spacing.gap ++
      (spell spacing (indent + 1) value ++
        (spellFields spacing (indent + 1) fields ++ (spacing.line indent ++ ['\x7d']))))))

def spellItems (spacing : Spacing) (indent : Nat) : List Json → List Char
  | [] => []
  | item :: items =>
    ',' :: (spacing.line indent ++ (spell spacing indent item ++ spellItems spacing indent items))

def spellFields (spacing : Spacing) (indent : Nat) : List (Text × Json) → List Char
  | [] => []
  | (key, value) :: fields =>
    ',' :: (spacing.line indent ++ (textChars key ++ ':' :: (spacing.gap ++
      (spell spacing indent value ++ spellFields spacing indent fields))))

end

/-- No blanks at all. -/
def Spacing.compact : Spacing where
  line _ := []
  gap := []
  isBlank_of_line := by simp
  isBlank_of_gap := by simp

/-- The characters of a new line with an indentation. -/
def lineChars (indent : Nat) : List Char :=
  '\n' :: List.replicate (2 * indent) ' '

/-- Every item and every field stands on a line of its own. -/
def Spacing.pretty : Spacing where
  line := lineChars
  gap := [' ']
  isBlank_of_line indent c hc := by
    unfold lineChars at hc
    rw [List.mem_cons, List.mem_replicate] at hc
    rcases hc with rfl | ⟨-, rfl⟩ <;> rfl
  isBlank_of_gap c hc := by
    rw [List.mem_singleton] at hc
    rw [hc]
    rfl

@[simp]
theorem Spacing.line_compact (indent : Nat) : Spacing.compact.line indent = [] := rfl

@[simp]
theorem Spacing.gap_compact : Spacing.compact.gap = [] := rfl

@[simp]
theorem Spacing.line_pretty (indent : Nat) : Spacing.pretty.line indent = lineChars indent := rfl

@[simp]
theorem Spacing.gap_pretty : Spacing.pretty.gap = [' '] := rfl

section Writing

theorem toList_foldl_push (out : String) (cs : List Char) :
    (cs.foldl String.push out).toList = out.toList ++ cs := by
  induction cs generalizing out with
  | nil => simp
  | cons c cs ih => simp [ih]

theorem toList_writeString (out s : String) :
    (writeString out s).toList = out.toList ++ stringChars s := by
  have hbody (cs : List Char) (out : String) :
      (cs.foldl (fun out c => (escape c).foldl String.push out) out).toList =
        out.toList ++ bodyChars cs := by
    induction cs generalizing out with
    | nil => simp [bodyChars]
    | cons c cs ih => simp [ih, toList_foldl_push, bodyChars]
  simp [writeString, hbody, stringChars]

theorem toList_writeText (out : String) (text : Text) :
    (writeText out text).toList = out.toList ++ textChars text := by
  unfold writeText textChars
  rw [toList_writeString]

mutual

theorem toList_writeCompact (indent : Nat) : ∀ (out : String) (json : Json),
    (writeCompact out json).toList = out.toList ++ spell .compact indent json
  | out, .null => by simp [writeCompact, spell]
  | out, .bool true => by simp [writeCompact, spell]
  | out, .bool false => by simp [writeCompact, spell]
  | out, .number n => by simp [writeCompact, spell, Number.text]
  | out, .string text => by simp [writeCompact, spell, toList_writeText]
  | out, .array [] => by simp [writeCompact, spell]
  | out, .array (item :: items) => by
    simp [writeCompact, spell, toList_writeItems (indent + 1) _ items,
      toList_writeCompact (indent + 1) _ item]
  | out, .object [] => by simp [writeCompact, spell]
  | out, .object ((key, value) :: fields) => by
    simp [writeCompact, spell, toList_writeFields (indent + 1) _ fields,
      toList_writeCompact (indent + 1) _ value, toList_writeText]

theorem toList_writeItems (indent : Nat) : ∀ (out : String) (items : List Json),
    (writeItems out items).toList = out.toList ++ spellItems .compact indent items
  | out, [] => by simp [writeItems, spellItems]
  | out, item :: items => by
    simp [writeItems, spellItems, toList_writeItems indent _ items,
      toList_writeCompact indent _ item]

theorem toList_writeFields (indent : Nat) : ∀ (out : String) (fields : List (Text × Json)),
    (writeFields out fields).toList = out.toList ++ spellFields .compact indent fields
  | out, [] => by simp [writeFields, spellFields]
  | out, (key, value) :: fields => by
    simp [writeFields, spellFields, toList_writeFields indent _ fields,
      toList_writeCompact indent _ value, toList_writeText]

end

theorem toList_newLine (out : String) (indent : Nat) :
    (newLine out indent).toList = out.toList ++ lineChars indent := by
  simp [newLine, toList_foldl_push, lineChars]

mutual

theorem toList_writePretty : ∀ (indent : Nat) (out : String) (json : Json),
    (writePretty indent out json).toList = out.toList ++ spell .pretty indent json
  | indent, out, .null => by simp [writePretty, spell]
  | indent, out, .bool true => by simp [writePretty, spell]
  | indent, out, .bool false => by simp [writePretty, spell]
  | indent, out, .number n => by simp [writePretty, spell, Number.text]
  | indent, out, .string text => by simp [writePretty, spell, toList_writeText]
  | indent, out, .array [] => by simp [writePretty, spell]
  | indent, out, .array (item :: items) => by
    simp [writePretty, spell, toList_newLine, toList_writePrettyItems (indent + 1) _ items,
      toList_writePretty (indent + 1) _ item]
  | indent, out, .object [] => by simp [writePretty, spell]
  | indent, out, .object ((key, value) :: fields) => by
    simp [writePretty, spell, toList_newLine, toList_writePrettyFields (indent + 1) _ fields,
      toList_writePretty (indent + 1) _ value, toList_writeText]

theorem toList_writePrettyItems : ∀ (indent : Nat) (out : String) (items : List Json),
    (writePrettyItems indent out items).toList =
      out.toList ++ spellItems .pretty indent items
  | indent, out, [] => by simp [writePrettyItems, spellItems]
  | indent, out, item :: items => by
    simp [writePrettyItems, spellItems, toList_newLine, toList_writePrettyItems indent _ items,
      toList_writePretty indent _ item]

theorem toList_writePrettyFields : ∀ (indent : Nat) (out : String) (fields : List (Text × Json)),
    (writePrettyFields indent out fields).toList =
      out.toList ++ spellFields .pretty indent fields
  | indent, out, [] => by simp [writePrettyFields, spellFields]
  | indent, out, (key, value) :: fields => by
    simp [writePrettyFields, spellFields, toList_newLine, toList_writePrettyFields indent _ fields,
      toList_writePretty indent _ value, toList_writeText]

end

end Writing

/-! ### Tokens -/

mutual

def tokens : Json → List Token
  | .null => [.null]
  | .bool b => [.bool b]
  | .number n => [.number n]
  | .string text => [.string text]
  | .array [] => [.openBracket, .closeBracket]
  | .array (item :: items) =>
    .openBracket :: (tokens item ++ (tokensItems items ++ [.closeBracket]))
  | .object [] => [.openBrace, .closeBrace]
  | .object ((key, value) :: fields) =>
    .openBrace :: .string key :: .colon ::
      (tokens value ++ (tokensFields fields ++ [.closeBrace]))

/-- The tokens of the further items of an array. -/
def tokensItems : List Json → List Token
  | [] => []
  | item :: items => .comma :: (tokens item ++ tokensItems items)

/-- The tokens of the further fields of an object. -/
def tokensFields : List (Text × Json) → List Token
  | [] => []
  | (key, value) :: fields =>
    .comma :: .string key :: .colon :: (tokens value ++ tokensFields fields)

end

mutual

/-- All strings of a value can be read and all numbers can be written. -/
def Legal : Json → Prop
  | .number n => n.Legal
  | .string text => ∃ s, text = .plain s
  | .array items => LegalItems items
  | .object fields => LegalFields fields
  | _ => True

def LegalItems : List Json → Prop
  | [] => True
  | item :: items => item.Legal ∧ LegalItems items

def LegalFields : List (Text × Json) → Prop
  | [] => True
  | (key, value) :: fields => (∃ s, key = .plain s) ∧ value.Legal ∧ LegalFields fields

end

section Scanning

theorem ends_spellItems (spacing : Spacing) (indent : Nat)
    (items : List Json) {rest : List Char} (hrest : Ends rest) :
    Ends (spellItems spacing indent items ++ rest) := by
  cases items with
  | nil => exact hrest
  | cons item items => exact ends_cons (by decide)

theorem ends_spellFields (spacing : Spacing) (indent : Nat)
    (fields : List (Text × Json)) {rest : List Char} (hrest : Ends rest) :
    Ends (spellFields spacing indent fields ++ rest) := by
  cases fields with
  | nil => exact hrest
  | cons field fields => exact ends_cons (by decide)

variable (spacing : Spacing)

mutual

/-- The characters of a value spell its tokens. -/
theorem spells_spell : ∀ (indent : Nat) (json : Json), json.Legal →
    ∀ {ts : List Token} {rest : List Char}, Ends rest → Spells ts rest →
      Spells (json.tokens ++ ts) (spell spacing indent json ++ rest)
  | _, .null, _, _, _, _, h => h.word .null nofun
  | _, .bool true, _, _, _, _, h => h.word .true nofun
  | _, .bool false, _, _, _, _, h => h.word .false nofun
  | _, .number _, hlegal, _, _, hrest, h => h.word (word_number hlegal) fun _ _ => hrest
  | _, .string _, ⟨s, rfl⟩, _, _, _, h => h.word (word_string s) nofun
  | _, .array [], _, _, _, _, h => (h.mark .closeBracket nofun).mark .openBracket nofun
  | indent, .array (item :: items), hlegal, ts, rest, _, h => by
    have hclose : Ends (spacing.line indent ++ ']' :: rest) :=
      ends_append (spacing.isBlank_of_line indent) (ends_cons (by decide))
    have hend := (h.mark .closeBracket nofun).blanks (spacing.isBlank_of_line indent)
    have hitems := spells_spellItems (indent + 1) items hlegal.2 hclose hend
    have hitem := spells_spell (indent + 1) item hlegal.1
      (ends_spellItems spacing (indent + 1) items hclose) hitems
    have hall := (hitem.blanks (spacing.isBlank_of_line (indent + 1))).mark .openBracket nofun
    simpa [tokens, spell] using hall
  | _, .object [], _, _, _, _, h => (h.mark .closeBrace nofun).mark .openBrace nofun
  | indent, .object ((key, value) :: fields), hlegal, ts, rest, _, h => by
    rcases hlegal with ⟨⟨s, rfl⟩, hvalue, hfields⟩
    have hclose : Ends (spacing.line indent ++ '\x7d' :: rest) :=
      ends_append (spacing.isBlank_of_line indent) (ends_cons (by decide))
    have hend := (h.mark .closeBrace nofun).blanks (spacing.isBlank_of_line indent)
    have hfields := spells_spellFields (indent + 1) fields hfields hclose hend
    have hvalue := spells_spell (indent + 1) value hvalue
      (ends_spellFields spacing (indent + 1) fields hclose) hfields
    have hcolon := (hvalue.blanks spacing.isBlank_of_gap).mark .colon nofun
    have hkey := hcolon.word (word_string s) nofun
    have hall := (hkey.blanks (spacing.isBlank_of_line (indent + 1))).mark .openBrace nofun
    simpa [tokens, spell, textChars, Text.toOption] using hall

theorem spells_spellItems : ∀ (indent : Nat) (items : List Json), LegalItems items →
    ∀ {ts : List Token} {rest : List Char}, Ends rest → Spells ts rest →
      Spells (tokensItems items ++ ts) (spellItems spacing indent items ++ rest)
  | _, [], _, _, _, _, h => h
  | indent, item :: items, hlegal, ts, rest, hrest, h => by
    have hitems := spells_spellItems indent items hlegal.2 hrest h
    have hitem := spells_spell indent item hlegal.1
      (ends_spellItems spacing indent items hrest) hitems
    have hall := (hitem.blanks (spacing.isBlank_of_line indent)).mark .comma nofun
    simpa [tokensItems, spellItems] using hall

theorem spells_spellFields : ∀ (indent : Nat) (fields : List (Text × Json)), LegalFields fields →
    ∀ {ts : List Token} {rest : List Char}, Ends rest → Spells ts rest →
      Spells (tokensFields fields ++ ts) (spellFields spacing indent fields ++ rest)
  | _, [], _, _, _, _, h => h
  | indent, (key, value) :: fields, hlegal, ts, rest, hrest, h => by
    rcases hlegal with ⟨⟨s, rfl⟩, hvalue, hfields⟩
    have hfields := spells_spellFields indent fields hfields hrest h
    have hvalue := spells_spell indent value hvalue
      (ends_spellFields spacing indent fields hrest) hfields
    have hcolon := (hvalue.blanks spacing.isBlank_of_gap).mark .colon nofun
    have hkey := hcolon.word (word_string s) nofun
    have hall := (hkey.blanks (spacing.isBlank_of_line indent)).mark .comma nofun
    simpa [tokensFields, spellFields, textChars, Text.toOption] using hall

end

end Scanning

/-! ### Reading -/

section Reading

theorem foldlM_cons (reader : Reader) (t : Token) (ts : List Token) :
    (t :: ts).foldlM Reader.step? reader =
      (reader.step? t).bind fun reader => ts.foldlM Reader.step? reader :=
  List.foldlM_cons

/-- A value starts with a token that is no closing bracket. -/
theorem exists_tokens_cons (json : Json) :
    ∃ t ts, json.tokens = t :: ts ∧ t ≠ .closeBracket := by
  cases json with
  | array items => cases items <;> exact ⟨_, _, rfl, by simp⟩
  | object fields =>
    cases fields with
    | nil => exact ⟨_, _, rfl, by simp⟩
    | cons field fields => exact ⟨_, _, rfl, by simp⟩
  | _ => exact ⟨_, _, rfl, by simp⟩

theorem step?_item (stack : List Frame) {t : Token} (h : t ≠ .closeBracket) :
    Reader.step? ⟨stack, .item⟩ t = Reader.step? ⟨.array [] :: stack, .value⟩ t := by
  cases t with
  | closeBracket => simp at h
  | _ => rfl

theorem foldlM_item (stack : List Frame) (json : Json) (ts : List Token) :
    (json.tokens ++ ts).foldlM Reader.step? ⟨stack, .item⟩ =
      (json.tokens ++ ts).foldlM Reader.step? ⟨.array [] :: stack, .value⟩ := by
  rcases exists_tokens_cons json with ⟨t, ts', heq, ht⟩
  rw [heq, List.cons_append, foldlM_cons, foldlM_cons, step?_item stack ht]

mutual

/-- The tokens of a value are read as the value. -/
theorem foldlM_tokens : ∀ (json : Json) (stack : List Frame) (ts : List Token),
    (json.tokens ++ ts).foldlM Reader.step? ⟨stack, .value⟩ =
      ts.foldlM Reader.step? ⟨stack, .done json⟩
  | .null, _, _ | .bool _, _, _ | .number _, _, _ | .string _, _, _ | .array [], _, _
  | .object [], _, _ => rfl
  | .array (item :: items), stack, ts => by
    simp only [tokens, List.cons_append, List.append_assoc, List.nil_append]
    rw [foldlM_cons]
    change List.foldlM _ _ _ = _
    rw [foldlM_item, foldlM_tokens item, foldlM_tokensItems items]
    rfl
  | .object ((key, value) :: fields), stack, ts => by
    simp only [tokens, List.cons_append, List.append_assoc, List.nil_append]
    rw [foldlM_cons]
    change List.foldlM Reader.step? ⟨.object [] key :: stack, .value⟩ _ = _
    rw [foldlM_tokens value, foldlM_tokensFields fields]
    rfl

theorem foldlM_tokensItems : ∀ (items : List Json) (stack : List Frame) (done : List Json)
    (json : Json) (ts : List Token),
    (tokensItems items ++ .closeBracket :: ts).foldlM Reader.step?
        ⟨.array done :: stack, .done json⟩ =
      ts.foldlM Reader.step? ⟨stack, .done (.array (done.reverse ++ json :: items))⟩
  | [], stack, done, json, ts => by
    change List.foldlM Reader.step? ⟨stack, .done (.array (json :: done).reverse)⟩ ts = _
    rw [List.reverse_cons]
  | item :: items, stack, done, json, ts => by
    simp only [tokensItems, List.cons_append, List.append_assoc]
    rw [foldlM_cons]
    change List.foldlM Reader.step? ⟨.array (json :: done) :: stack, .value⟩ _ = _
    rw [foldlM_tokens item, foldlM_tokensItems items, List.reverse_cons, List.append_assoc]
    rfl

theorem foldlM_tokensFields : ∀ (fields : List (Text × Json)) (stack : List Frame)
    (done : List (Text × Json)) (key : Text) (json : Json) (ts : List Token),
    (tokensFields fields ++ .closeBrace :: ts).foldlM Reader.step?
        ⟨.object done key :: stack, .done json⟩ =
      ts.foldlM Reader.step? ⟨stack, .done (.object (done.reverse ++ (key, json) :: fields))⟩
  | [], stack, done, key, json, ts => by
    change List.foldlM Reader.step? ⟨stack, .done (.object ((key, json) :: done).reverse)⟩ ts = _
    rw [List.reverse_cons]
  | (key', value) :: fields, stack, done, key, json, ts => by
    simp only [tokensFields, List.cons_append, List.append_assoc]
    rw [foldlM_cons]
    change List.foldlM Reader.step? ⟨.object ((key, json) :: done) key' :: stack, .value⟩ _ = _
    rw [foldlM_tokens value, foldlM_tokensFields fields, List.reverse_cons, List.append_assoc]
    rfl

end

theorem ofTokens?_tokens (json : Json) : ofTokens? json.tokens = some json := by
  have h := foldlM_tokens json [] []
  rw [List.append_nil] at h
  unfold ofTokens? Reader.start
  rw [h]
  rfl

/-- A text is read as the value whose tokens it spells. -/
theorem read?_of_spells {json : Json} {text : String} (h : Spells json.tokens text.toList) :
    read? text = some json := by
  unfold read?
  rw [all?_spells h]
  exact ofTokens?_tokens json

section Blanks

variable {json : Json} {blanks : String}

theorem spells_of_spell (spacing : Spacing) (h : json.Legal) {blanks : List Char}
    (hblanks : ∀ c ∈ blanks, isBlank c = true) :
    Spells json.tokens (spell spacing 0 json ++ blanks) := by
  have hends : Ends (blanks ++ []) := ends_append hblanks (by nofun)
  rw [List.append_nil] at hends
  have hspells := spells_spell spacing 0 json h hends (.nil hblanks)
  rw [List.append_nil] at hspells
  exact hspells

theorem spells_compact (h : json.Legal) (hblanks : blanks.toList.all isBlank = true) :
    Spells json.tokens (json.compact ++ blanks).toList := by
  unfold compact
  rw [String.toList_append, toList_writeCompact 0]
  exact spells_of_spell .compact h (List.all_eq_true.mp hblanks)

theorem spells_pretty (h : json.Legal) (hblanks : blanks.toList.all isBlank = true) :
    Spells json.tokens (json.pretty ++ blanks).toList := by
  unfold pretty
  rw [String.toList_append, toList_writePretty]
  exact spells_of_spell .pretty h (List.all_eq_true.mp hblanks)

theorem read?_compact (h : json.Legal) (hblanks : blanks.toList.all isBlank = true) :
    read? (json.compact ++ blanks) = some json :=
  read?_of_spells (spells_compact h hblanks)

theorem read?_pretty (h : json.Legal) (hblanks : blanks.toList.all isBlank = true) :
    read? (json.pretty ++ blanks) = some json :=
  read?_of_spells (spells_pretty h hblanks)

end Blanks

end Reading

end Upvalue.Json

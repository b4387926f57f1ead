import Upvalue.Diagnostic.JsonLines
import Upvalue.Proofs.Json.Exact

/-!
This module contains the proof that diagnostics can be read back from the lines that are written for
other tools. No token has a control character, so that a value without blanks stays on its line
whatever its strings are.
-/

namespace Upvalue

/-! ### Control characters -/

namespace Json

namespace Token

section Words

variable {c : Char}

theorem isControl_of_le (least : Char) (hle : least ≤ c) (h : isControl least = false) :
    isControl c = false := by
  unfold isControl at h ⊢
  rw [decide_eq_false_iff_not, Nat.not_lt] at h ⊢
  exact Nat.le_trans h hle

theorem isControl_of_all {cs : List Char} (h : cs.all (!isControl ·) = true) :
    ∀ c ∈ cs, isControl c = false := by
  simpa using h

theorem isControl_of_isDigit (h : c.isDigit = true) : isControl c = false := by
  unfold Char.isDigit at h
  simp only [Bool.and_eq_true, decide_eq_true_eq] at h
  exact isControl_of_le '0' h.1 rfl

theorem isControl_of_hexDigit? {n : Nat} (h : hexDigit? c = some n) : isControl c = false := by
  unfold hexDigit? at h
  split at h
  . next hrange => exact isControl_of_le '0' hrange.1 rfl
  . split at h
    . next hrange => exact isControl_of_le 'a' hrange.1 rfl
    . split at h
      . next hrange => exact isControl_of_le 'A' hrange.1 rfl
      . cases h

theorem isControl_of_escaped? {c' : Char} (h : escaped? c = some c') : isControl c = false := by
  have hletters : ['"', '\\', '/', 'b', 'f', 'n', 'r', 't'].all (!isControl ·) = true := rfl
  apply isControl_of_all hletters
  by_contra hc
  simp only [List.mem_cons, List.not_mem_nil, or_false, not_or] at hc
  simp [escaped?, hc] at h

theorem isControl_of_pieceWord {piece : Piece} {word : List Char} (h : PieceWord piece word) :
    ∀ c ∈ word, isControl c = false := by
  cases h with
  | char hquote hslash hcontrol => simpa using hcontrol
  | letter h =>
    rw [List.forall_mem_cons, List.forall_mem_singleton]
    exact ⟨rfl, isControl_of_escaped? h⟩
  | unit h =>
    simp only [unit?, Option.bind_eq_bind, Option.bind_eq_some_iff] at h
    rcases h with ⟨_, ha, _, hb, _, hc, _, hd, -⟩
    simp only [List.forall_mem_cons]
    exact ⟨rfl, rfl, isControl_of_hexDigit? ha, isControl_of_hexDigit? hb,
      isControl_of_hexDigit? hc, isControl_of_hexDigit? hd, nofun⟩

theorem isControl_of_stringBody {pieces : List Piece} {cs : List Char} (h : StringBody pieces cs) :
    ∀ c ∈ cs, isControl c = false := by
  induction h with
  | nil => nofun
  | cons hword _ ih => exact List.forall_mem_append.mpr ⟨isControl_of_pieceWord hword, ih⟩

/-- Control characters stand between tokens only. -/
theorem isControl_of_word {token : Token} {word : List Char} (h : Word token word) :
    ∀ c ∈ word, isControl c = false := by
  cases h with
  | number h =>
    have hmarks : ['-', '+', '.', 'e', 'E'].all (!isControl ·) = true := rfl
    intro c hc
    rcases of_mem_numberWord h hc with hdigit | hmark
    . exact isControl_of_isDigit hdigit
    . exact isControl_of_all hmarks c hmark
  | string h =>
    have hbody := isControl_of_stringBody h
    intro c hc
    simp only [List.mem_cons, List.mem_append, List.not_mem_nil, or_false] at hc
    rcases hc with rfl | hc | rfl
    . rfl
    . exact hbody c hc
    . rfl
  | _ => exact isControl_of_all rfl

end Words

end Token

open Token

section Spelling

theorem isControl_textChars (text : Text) : ∀ c ∈ textChars text, isControl c = false :=
  isControl_of_word (word_string (text.toOption.getD ""))

mutual

/-- A value that is written without blanks has no control characters. -/
theorem isControl_spell : ∀ (indent : Nat) (json : Json), json.Legal →
    ∀ c ∈ spell .compact indent json, isControl c = false
  | _, .null, _ | _, .bool true, _ | _, .bool false, _ | _, .array [], _ | _, .object [], _ =>
    isControl_of_all rfl
  | _, .number n, h => isControl_of_word (word_number h)
  | _, .string text, _ => isControl_textChars text
  | indent, .array (item :: items), h => by
    rw [spell, Spacing.line_compact, Spacing.line_compact, List.nil_append, List.nil_append,
      List.forall_mem_cons, List.forall_mem_append, List.forall_mem_append,
      List.forall_mem_singleton]
    exact ⟨rfl, isControl_spell _ item h.1, isControl_spellItems _ items h.2, rfl⟩
  | indent, .object ((key, value) :: fields), h => by
    rw [spell, Spacing.line_compact, Spacing.line_compact, Spacing.gap_compact, List.nil_append,
      List.nil_append, List.nil_append, List.forall_mem_cons, List.forall_mem_append,
      List.forall_mem_cons, List.forall_mem_append, List.forall_mem_append,
      List.forall_mem_singleton]
    exact ⟨rfl, isControl_textChars key, rfl, isControl_spell _ value h.2.1,
      isControl_spellFields _ fields h.2.2, rfl⟩

theorem isControl_spellItems : ∀ (indent : Nat) (items : List Json), LegalItems items →
    ∀ c ∈ spellItems .compact indent items, isControl c = false
  | _, [], _ => nofun
  | indent, item :: items, h => by
    rw [spellItems, Spacing.line_compact, List.nil_append, List.forall_mem_cons,
      List.forall_mem_append]
    exact ⟨rfl, isControl_spell _ item h.1, isControl_spellItems _ items h.2⟩

theorem isControl_spellFields : ∀ (indent : Nat) (fields : List (Text × Json)),
    LegalFields fields → ∀ c ∈ spellFields .compact indent fields, isControl c = false
  | _, [], _ => nofun
  | indent, (key, value) :: fields, h => by
    rw [spellFields, Spacing.line_compact, Spacing.gap_compact, List.nil_append, List.nil_append,
      List.forall_mem_cons, List.forall_mem_append, List.forall_mem_cons, List.forall_mem_append]
    exact ⟨rfl, isControl_textChars key, rfl, isControl_spell _ value h.2.1,
      isControl_spellFields _ fields h.2.2⟩

end

end Spelling

theorem isControl_compact {json : Json} (h : json.Legal) :
    ∀ c ∈ json.compact.toList, isControl c = false := by
  unfold compact
  rw [toList_writeCompact 0]
  exact isControl_spell 0 json h

/-! ### Objects -/

/-- A value is an object that has these fields and no others. -/
def HasNames (json : Json) (names : List String) : Prop :=
  ∃ fields, json = .object fields ∧ fields.map Prod.fst = names.map .plain

/-- A value is a natural number that is written with digits only. -/
def IsNat (json : Json) (n : Nat) : Prop :=
  ∃ token, json = .number token ∧ token.isPlain = true ∧ token.toInt = n

theorem hasNames_obj (fields : List (String × Json)) :
    (obj fields).HasNames (fields.map Prod.fst) := by
  refine ⟨_, rfl, ?_⟩
  simp

theorem isNat_ofNat (n : Nat) : (ofNat n).IsNat n := by
  refine ⟨_, rfl, rfl, ?_⟩
  rw [Number.ofNat_eq, Number.toInt_ofInt]

theorem legal_ofNat (n : Nat) : (ofNat n).Legal :=
  Number.legal_ofNat n

theorem legal_ofOption {encode : α → Json} (h : ∀ a, (encode a).Legal) (a : Option α) :
    (ofOption encode a).Legal := by
  cases a with
  | none => trivial
  | some a => exact h a

end Json

namespace SourceCache

/-- A span has no location if it is a dummy or its file is not known. -/
theorem location?_eq_none_iff {cache : SourceCache} {span : Span} :
    cache.location? span = none ↔ span.isDummy = true ∨ cache.file? span.file = none := by
  unfold location?
  split
  . next h => simp [h]
  . next h => simp [h]

end SourceCache

namespace JsonLines

open Json

variable (cache : SourceCache)

/-! ### Values -/

/-- A value is the place where a span starts. It is `null` exactly if there is no such place. -/
structure Places (span : Span) (json : Json) : Prop where
  null : json = .null ↔ span.isDummy = true ∨ cache.file? span.file = none
  place : json ≠ .null → ∃ loc, cache.location? span = some loc ∧
    json.HasNames ["column", "file", "line"] ∧ json.get "file" = .str loc.file ∧
    (json.get "line").IsNat loc.line ∧ (json.get "column").IsNat loc.column

structure Mentions (label : Label) (json : Json) : Prop where
  names : json.HasNames ["location", "message"]
  message : json.get "message" = .str label.message
  location : Places cache label.span (json.get "location")

/-- A value says all that a diagnostic says. -/
structure Describes (d : Diagnostic) (json : Json) : Prop where
  names : json.HasNames ["code", "help", "labels", "location", "message", "severity"]
  code : json.get "code" = .str d.code.text
  severity : json.get "severity" = .str d.severity.text
  message : json.get "message" = .str d.message
  help : json.get "help" = .ofOption .str d.help
  location : Places cache d.span (json.get "location")
  labels : ∃ items, json.get "labels" = .array items ∧
    List.Forall₂ (Mentions cache) d.labels items

structure Counts (diagnostics : List Diagnostic) (json : Json) : Prop where
  names : json.HasNames ["errors", "total", "type", "warnings"]
  type : json.get "type" = .str "summary"
  errors : (json.get "errors").IsNat (diagnostics.filter (·.severity = .error)).length
  warnings : (json.get "warnings").IsNat (diagnostics.filter (·.severity = .warning)).length
  total : (json.get "total").IsNat diagnostics.length

section Values

variable (span : Span) (l : Label) (d : Diagnostic) (diagnostics : List Diagnostic)

theorem places_location : Places cache span (location cache span) := by
  unfold location
  cases hlocation : cache.location? span with
  | none =>
    constructor
    . simp [ofOption, SourceCache.location?_eq_none_iff.mp hlocation]
    . exact fun h => absurd rfl h
  | some loc =>
    have hknown : ¬(span.isDummy = true ∨ cache.file? span.file = none) := by
      rw [← SourceCache.location?_eq_none_iff, hlocation]
      simp
    constructor
    . exact iff_of_false nofun hknown
    . intro _
      exact ⟨loc, hlocation, hasNames_obj _, rfl, isNat_ofNat _, isNat_ofNat _⟩

theorem mentions_label : Mentions cache l (label cache l) where
  names := hasNames_obj _
  message := rfl
  location := places_location cache l.span

theorem describes_diagnostic : Describes cache d (diagnostic cache d) where
  names := hasNames_obj _
  code := rfl
  severity := rfl
  message := rfl
  help := rfl
  location := places_location cache d.span
  labels := by
    refine ⟨_, rfl, ?_⟩
    rw [List.forall₂_map_right_iff, List.forall₂_same]
    exact fun l _ => mentions_label cache l

theorem counts_summary : Counts diagnostics (summary diagnostics) where
  names := hasNames_obj _
  type := rfl
  errors := by
    rw [← List.countP_eq_length_filter]
    exact isNat_ofNat _
  warnings := by
    rw [← List.countP_eq_length_filter]
    exact isNat_ofNat _
  total := isNat_ofNat _

theorem legal_location : (location cache span).Legal := by
  apply legal_ofOption
  intro loc
  apply legal_obj_iff.mpr
  simp [legal_str, legal_ofNat]

theorem legal_label : (label cache l).Legal := by
  apply legal_obj_iff.mpr
  simp [legal_str, legal_location]

theorem legal_diagnostic : (diagnostic cache d).Legal := by
  have hhelp := legal_ofOption legal_str d.help
  have hlabels : (Json.array (d.labels.map (label cache))).Legal := by
    rw [legal_array_iff, List.forall_mem_map]
    exact fun l _ => legal_label cache l
  apply legal_obj_iff.mpr
  simp [legal_str, legal_location, hhelp, hlabels]

theorem legal_summary : (summary diagnostics).Legal := by
  apply legal_obj_iff.mpr
  simp [legal_str, legal_ofNat]

end Values

/-! ### Lines -/

/--
The lines of a text report diagnostics: there is a line for each of them and a last one that counts
them.
-/
structure Reports (diagnostics : List Diagnostic) (text : String) (lines : List String) :
    Prop where
  joined : text = String.join (lines.map (· ++ "\n"))
  unbroken : ∀ line ∈ lines, '\n' ∉ line.toList
  length : lines.length = diagnostics.length + 1
  reported : ∀ (i : Nat) (d : Diagnostic), diagnostics[i]? = some d →
    ∃ json, lines[i]?.bind read? = some json ∧ Describes cache d json
  counted : ∃ json, lines.getLast?.bind read? = some json ∧ Counts diagnostics json

section Lines

variable (diagnostics : List Diagnostic)

/-- The values that are written for diagnostics, one on every line. -/
def values : List Json :=
  diagnostics.map (diagnostic cache) ++ [summary diagnostics]

theorem legal_values : ∀ json ∈ values cache diagnostics, json.Legal := by
  unfold values
  rw [List.forall_mem_append, List.forall_mem_map, List.forall_mem_singleton]
  exact ⟨fun d _ => legal_diagnostic cache d, legal_summary diagnostics⟩

theorem text_eq : text cache diagnostics =
    String.join ((values cache diagnostics).map fun json => json.compact ++ "\n") := by
  rw [String.join_eq_foldl, List.foldl_map]
  rfl

theorem read?_line {json : Json} (h : json.Legal) : read? json.compact = some json := by
  have hread : read? (json.compact ++ "") = some json := read?_compact h rfl
  rwa [String.append_empty] at hread

theorem newline_not_mem_line {json : Json} (h : json.Legal) : '\n' ∉ json.compact.toList := by
  intro hmem
  cases isControl_compact h '\n' hmem

/-- Every diagnostic can be read back from its line, whatever its texts are. -/
theorem reports_text :
    ∃ lines, Reports cache diagnostics (text cache diagnostics) lines := by
  have hlegal := legal_values cache diagnostics
  refine ⟨(values cache diagnostics).map compact, ?_, ?_, ?_, ?_, ?_⟩
  . rw [text_eq, List.map_map]
    rfl
  . rw [List.forall_mem_map]
    exact fun json hjson => newline_not_mem_line (hlegal json hjson)
  . simp [values]
  . intro i d hd
    have hlt := (List.getElem?_eq_some_iff.mp hd).1
    have hvalue : (values cache diagnostics)[i]? = some (diagnostic cache d) := by
      unfold values
      rw [List.getElem?_append_left (by simpa using hlt), List.getElem?_map, hd]
      rfl
    refine ⟨diagnostic cache d, ?_, describes_diagnostic cache d⟩
    rw [List.getElem?_map, hvalue]
    exact read?_line (legal_diagnostic cache d)
  . refine ⟨summary diagnostics, ?_, counts_summary diagnostics⟩
    unfold values
    rw [List.map_append, List.map_singleton, List.getLast?_concat]
    exact read?_line (legal_summary diagnostics)

end Lines

end JsonLines

end Upvalue

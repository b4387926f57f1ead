import Upvalue.Diagnostic.Terminal

/-!
This module contains the proof that colour is only added to the text for a terminal. Without its
colour sequences the text is the one that is shown without colour, and where a line ends or a text of
the user stands every colour has been reset.
-/

namespace Upvalue.Terminal

/-! ### Colour sequences in a text -/

/-- The character that colour sequences start with. -/
def escapeChar : Char := '\x1b'

/-- A character of a text, or a colour sequence with its digits. -/
inductive Glyph where
  | char (c : Char)
  | sequence (digits : List Char)
deriving DecidableEq, Repr

namespace Glyph

def char? : Glyph → Option Char
  | char c => some c
  | sequence _ => none

def digits? : Glyph → Option (List Char)
  | char _ => none
  | sequence digits => some digits

end Glyph

theorem filterMap_char? (cs : List Char) : (cs.map Glyph.char).filterMap Glyph.char? = cs := by
  simp [Glyph.char?, Function.comp_def]

theorem filterMap_digits? (cs : List Char) : (cs.map Glyph.char).filterMap Glyph.digits? = [] := by
  simp [Glyph.digits?]

/-- The digits of the colour sequence that a text starts with, and what stands behind it. -/
def sequence? : List Char → Option (List Char × List Char)
  | c :: '[' :: cs =>
    match cs.dropWhile Char.isDigit with
    | 'm' :: rest =>
      if c = escapeChar ∧ cs.takeWhile Char.isDigit ≠ [] then
        some (cs.takeWhile Char.isDigit, rest)
      else none
    | _ => none
  | _ => none

theorem length_lt_of_sequence? {cs digits rest : List Char}
    (h : sequence? cs = some (digits, rest)) : rest.length < cs.length := by
  unfold sequence? at h
  split at h
  . rename_i c cs
    split at h
    . rename_i rest' hdrop
      split at h
      . injection h with h
        injection h with _ h
        have hle := (List.dropWhile_suffix Char.isDigit (l := cs)).length_le
        rw [hdrop, h] at hle
        simp only [List.length_cons] at hle ⊢
        omega
      . cases h
    . cases h
  . cases h

/-- A text as its characters and colour sequences. -/
def glyphs : List Char → List Glyph
  | [] => []
  | c :: cs =>
    match h : sequence? (c :: cs) with
    | some (digits, rest) =>
      have _hlt := length_lt_of_sequence? h
      .sequence digits :: glyphs rest
    | none => .char c :: glyphs cs
termination_by cs => cs.length
decreasing_by
  . exact _hlt
  . exact Nat.lt_succ_self _

/-- A text without its colour sequences. -/
def uncolored (cs : List Char) : List Char :=
  (glyphs cs).filterMap Glyph.char?

/-- The digits of the colour sequences of a text. -/
def sequences (cs : List Char) : List (List Char) :=
  (glyphs cs).filterMap Glyph.digits?

/-- No colour is active behind a text: its last colour sequence, if any, is the reset. -/
def Neutral (cs : List Char) : Prop :=
  ∀ digits, (sequences cs).getLast? = some digits → digits = ['0']

section Glyphs

variable {cs rest : List Char}

theorem glyphs_of_sequence? {digits : List Char} (h : sequence? cs = some (digits, rest)) :
    glyphs cs = .sequence digits :: glyphs rest := by
  cases cs with
  | nil => cases h
  | cons c cs =>
    rw [glyphs]
    split
    . rename_i heq
      cases heq.symm.trans h
      rfl
    . rename_i heq
      cases heq.symm.trans h

theorem glyphs_of_ne {c : Char} (h : c ≠ escapeChar) :
    glyphs (c :: cs) = .char c :: glyphs cs := by
  have hnone : sequence? (c :: cs) = none := by
    unfold sequence?
    split
    . rename_i heq
      injection heq with hc
      split
      . rw [if_neg]
        rintro ⟨rfl, -⟩
        exact h hc
      . rfl
    . rfl
  rw [glyphs]
  split
  . rename_i heq
    cases heq.symm.trans hnone
  . rfl

/-- A text without the escape character has no colour sequence. -/
theorem glyphs_append (h : escapeChar ∉ cs) (rest : List Char) :
    glyphs (cs ++ rest) = cs.map .char ++ glyphs rest := by
  induction cs with
  | nil => rfl
  | cons c cs ih =>
    rw [List.mem_cons, not_or] at h
    rw [List.cons_append, glyphs_of_ne (Ne.symm h.1), ih h.2]
    rfl

theorem toList_escape (number : Nat) :
    (escape number).toList = escapeChar :: '[' :: (Nat.toDigits 10 number ++ ['m']) := by
  simp [escape]
  rfl

theorem glyphs_escape (number : Nat) (rest : List Char) :
    glyphs ((escape number).toList ++ rest) = .sequence (Nat.toDigits 10 number) :: glyphs rest := by
  have hdigits : ∀ c ∈ Nat.toDigits 10 number, c.isDigit = true :=
    fun c hc => Nat.isDigit_of_mem_toDigits (by decide) (by decide) hc
  have htake : (Nat.toDigits 10 number ++ 'm' :: rest).takeWhile Char.isDigit
      = Nat.toDigits 10 number := by
    rw [List.takeWhile_append_of_pos hdigits]
    simp
  have hdrop : (Nat.toDigits 10 number ++ 'm' :: rest).dropWhile Char.isDigit = 'm' :: rest := by
    rw [List.dropWhile_append_of_pos hdigits]
    rfl
  have hsome : sequence? (escapeChar :: '[' :: (Nat.toDigits 10 number ++ 'm' :: rest))
      = some (Nat.toDigits 10 number, rest) := by
    simp [sequence?, htake, hdrop, Nat.toDigits_ne_nil]
  rw [toList_escape]
  simp only [List.cons_append, List.append_assoc, List.nil_append]
  exact glyphs_of_sequence? hsome

end Glyphs

/-! ### Colour in the parts of a text -/

/-- What a part is in colour. -/
def Part.glyphs : Part → List Glyph
  | .style s => [.sequence (Nat.toDigits 10 s.number)]
  | .reset => [.sequence ['0']]
  | .fixed text => text.toList.map .char
  | .given text => text.toList.map .char

/-- Whether a style is active behind some parts. -/
def styledAfter : (active : Bool) → List Part → Bool
  | active, [] => active
  | _, .style _ :: parts => styledAfter true parts
  | _, .reset :: parts => styledAfter false parts
  | active, .fixed _ :: parts => styledAfter active parts
  | active, .given _ :: parts => styledAfter active parts

/--
Parts that can be shown in colour: no text has the escape character, and no style is active where a
text of the user or the end of a line is shown.
-/
def Tidy : (active : Bool) → List Part → Prop
  | _, [] => True
  | _, .style _ :: parts => Tidy true parts
  | _, .reset :: parts => Tidy false parts
  | active, .fixed text :: parts =>
    escapeChar ∉ text.toList ∧ (active = true → '\n' ∉ text.toList) ∧ Tidy active parts
  | active, .given text :: parts =>
    escapeChar ∉ text.toList ∧ active = false ∧ Tidy active parts

/-- Tidy parts with no style active in front of them and behind them. -/
def Closed (parts : List Part) : Prop :=
  Tidy false parts ∧ styledAfter false parts = false

section Parts

variable {parts parts' : List Part} {active : Bool}

theorem styledAfter_append (active : Bool) (parts parts' : List Part) :
    styledAfter active (parts ++ parts') = styledAfter (styledAfter active parts) parts' := by
  induction parts generalizing active with
  | nil => rfl
  | cons part parts ih => cases part <;> exact ih _

theorem tidy_append :
    Tidy active (parts ++ parts') ↔ Tidy active parts ∧ Tidy (styledAfter active parts) parts' := by
  induction parts generalizing active with
  | nil => simp [Tidy, styledAfter]
  | cons part parts ih => cases part <;> simp [Tidy, styledAfter, ih, and_assoc]

theorem closed_nil : Closed [] := ⟨trivial, rfl⟩

theorem Closed.append (h : Closed parts) (h' : Closed parts') : Closed (parts ++ parts') := by
  constructor
  . rw [tidy_append, h.2]
    exact ⟨h.1, h'.1⟩
  . rw [styledAfter_append, h.2]
    exact h'.2

theorem closed_flatMap {α : Type} {xs : List α} {f : α → List Part}
    (h : ∀ x ∈ xs, Closed (f x)) : Closed (xs.flatMap f) := by
  induction xs with
  | nil => exact closed_nil
  | cons x xs ih =>
    rw [List.forall_mem_cons] at h
    exact h.1.append (ih h.2)

/-- The colour sequences of tidy parts are those of their styles and resets. -/
theorem glyphs_print (h : Tidy active parts) (rest : List Char) :
    glyphs ((print true parts).toList ++ rest) = parts.flatMap Part.glyphs ++ glyphs rest := by
  induction parts generalizing active with
  | nil => rfl
  | cons part parts ih =>
    rw [print_cons, String.toList_append, List.append_assoc, List.flatMap_cons, List.append_assoc]
    cases part with
    | style s => exact (glyphs_escape s.number _).trans (congrArg _ (ih h))
    | reset => exact (glyphs_escape 0 _).trans (congrArg _ (ih h))
    | fixed text => exact (glyphs_append h.1 _).trans (congrArg _ (ih h.2.2))
    | given text => exact (glyphs_append h.1 _).trans (congrArg _ (ih h.2.2))

/-- Without its colour sequences a text is the one without colour. -/
theorem uncolored_print (h : Tidy active parts) :
    uncolored (print true parts).toList = (print false parts).toList := by
  have hglyphs := glyphs_print h []
  rw [List.append_nil, glyphs, List.append_nil] at hglyphs
  rw [uncolored, hglyphs]
  clear h hglyphs
  induction parts with
  | nil => rfl
  | cons part parts ih =>
    rw [print_cons, String.toList_append, List.flatMap_cons, List.filterMap_append, ih]
    congr 1
    cases part with
    | style s => rfl
    | reset => rfl
    | fixed text => exact filterMap_char? text.toList
    | given text => exact filterMap_char? text.toList

/-- Where no style is active the last colour sequence is the reset. -/
theorem getLast?_digits (h : styledAfter active parts = false) :
    (parts.flatMap Part.glyphs).filterMap Glyph.digits? = [] ∧ active = false ∨
      ((parts.flatMap Part.glyphs).filterMap Glyph.digits?).getLast? = some ['0'] := by
  induction parts generalizing active with
  | nil => exact .inl ⟨rfl, h⟩
  | cons part parts ih =>
    cases part with
    | style s =>
      right
      rcases ih h with ⟨-, hactive⟩ | hlast
      . cases hactive
      . simp [Part.glyphs, Glyph.digits?, List.getLast?_cons, hlast]
    | reset =>
      right
      rcases ih h with ⟨hnone, -⟩ | hlast
      . simp [Part.glyphs, Glyph.digits?, hnone]
      . simp [Part.glyphs, Glyph.digits?, List.getLast?_cons, hlast]
    | fixed text =>
      rw [List.flatMap_cons, Part.glyphs, List.filterMap_append, filterMap_digits?, List.nil_append]
      exact ih h
    | given text =>
      rw [List.flatMap_cons, Part.glyphs, List.filterMap_append, filterMap_digits?, List.nil_append]
      exact ih h

/-- Behind tidy parts and a text no colour is active, if no style is active behind the parts. -/
theorem neutral_print {text : List Char} (h : Tidy false parts)
    (hafter : styledAfter false parts = false) (htext : escapeChar ∉ text) :
    Neutral ((print true parts).toList ++ text) := by
  intro digits hdigits
  have hglyphs := glyphs_append htext []
  rw [List.append_nil, glyphs, List.append_nil] at hglyphs
  rw [sequences, glyphs_print h text, hglyphs, List.filterMap_append, filterMap_digits?,
    List.append_nil] at hdigits
  rcases getLast?_digits hafter with ⟨hempty, -⟩ | hlast
  . rw [hempty] at hdigits
    cases hdigits
  . exact Option.some.inj (hdigits.symm.trans hlast)

/-- A newline in coloured text is a character of one of its parts. -/
theorem exists_part_of_newline {before after : List Char}
    (h : (print true parts).toList = before ++ '\n' :: after) :
    ∃ ahead part behind first last, parts = ahead ++ part :: behind ∧
      before = (print true ahead).toList ++ first ∧
      (part.text true).toList = first ++ '\n' :: last := by
  induction parts generalizing before with
  | nil => simp at h
  | cons part parts ih =>
    rw [print_cons, String.toList_append, List.append_eq_append_iff] at h
    rcases h with ⟨middle, hbefore, hrest⟩ | ⟨middle, htext, hafter⟩
    . obtain ⟨ahead, part', behind, first, last, rfl, rfl, hpart⟩ := ih hrest
      refine ⟨part :: ahead, part', behind, first, last, rfl, ?_, hpart⟩
      rw [print_cons, String.toList_append, hbefore, List.append_assoc]
    . cases middle with
      | nil =>
        -- The newline is the first character behind the part.
        obtain ⟨ahead, part', behind, first, last, rfl, hfirst, hpart⟩ := @ih [] hafter.symm
        refine ⟨part :: ahead, part', behind, first, last, rfl, ?_, hpart⟩
        rw [print_cons, String.toList_append, List.append_assoc, ← hfirst, htext]
        simp
      | cons c middle =>
        injection hafter with hc hafter
        subst hc
        exact ⟨[], part, parts, before, middle, rfl, rfl, htext⟩

/-- No colour is active at the newlines of tidy parts. -/
theorem neutral_of_newline {before after : List Char} (h : Tidy false parts)
    (hprint : (print true parts).toList = before ++ '\n' :: after) : Neutral before := by
  obtain ⟨ahead, part, behind, first, last, rfl, rfl, hpart⟩ := exists_part_of_newline hprint
  rw [tidy_append] at h
  have hmem : '\n' ∈ (part.text true).toList := by
    rw [hpart]
    simp
  have hfirst (hescape : escapeChar ∉ (part.text true).toList) : escapeChar ∉ first := by
    rw [hpart, List.mem_append, not_or] at hescape
    exact hescape.1
  have hnewline (number : Nat) : '\n' ∉ (escape number).toList := by
    rw [toList_escape]
    intro hmem
    simp only [List.mem_cons, List.mem_append, List.not_mem_nil, or_false] at hmem
    rcases hmem with hmem | hmem | hmem | hmem
    . cases hmem
    . cases hmem
    . cases Nat.isDigit_of_mem_toDigits (by decide) (by decide) hmem
    . cases hmem
  cases part with
  | style s => exact absurd hmem (hnewline s.number)
  | reset => exact absurd hmem (hnewline 0)
  | fixed text =>
    obtain ⟨hescape, hactive, -⟩ := h.2
    apply neutral_print h.1 _ (hfirst hescape)
    exact Bool.eq_false_iff.mpr fun hstyled => hactive hstyled hmem
  | given text =>
    obtain ⟨hescape, hactive, -⟩ := h.2
    exact neutral_print h.1 hactive (hfirst hescape)

/-- No colour is active where tidy parts have a text of the user. -/
theorem neutral_of_given {text : String} (h : Tidy false (parts ++ .given text :: parts')) :
    Neutral (print true parts).toList := by
  rw [tidy_append] at h
  have hneutral := neutral_print h.1 h.2.2.1 List.not_mem_nil
  rwa [List.append_nil] at hneutral

end Parts

/-! ### The parts that are shown -/

/-- A text that neither starts a colour sequence nor ends a line. -/
def Plain (text : String) : Prop :=
  escapeChar ∉ text.toList ∧ '\n' ∉ text.toList

instance (text : String) : Decidable (Plain text) :=
  inferInstanceAs (Decidable (escapeChar ∉ text.toList ∧ '\n' ∉ text.toList))

theorem plain_append {text text' : String} (h : Plain text) (h' : Plain text') :
    Plain (text ++ text') := by
  unfold Plain
  rw [String.toList_append, List.mem_append, List.mem_append, not_or, not_or]
  exact ⟨⟨h.1, h'.1⟩, h.2, h'.2⟩

theorem plain_toString (n : Nat) : Plain (toString n) := by
  have hdigit : ∀ c ∈ (toString n).toList, c.isDigit = true := by
    intro c hc
    rw [Nat.toString_eq_ofList_toDigits, String.toList_ofList] at hc
    exact Nat.isDigit_of_mem_toDigits (by decide) (by decide) hc
  constructor
  . intro hmem
    cases hdigit _ hmem
  . intro hmem
    cases hdigit _ hmem

theorem plain_repeated {c : Char} (count : Nat) (hescape : c ≠ escapeChar) (hnewline : c ≠ '\n') :
    Plain (repeated count c) := by
  simp [Plain, repeated, List.mem_replicate, hescape.symm, hnewline.symm]

theorem plain_severity (severity : Severity) : Plain severity.text := by
  cases severity <;> decide

theorem plain_code (code : Code) : Plain code.text := by
  cases code <;> decide

theorem plain_counted (count : Nat) {noun : String} (h : Plain noun) :
    Plain (counted count noun) := by
  unfold counted
  apply plain_append
  . exact plain_append (plain_append (plain_toString count) (by decide)) h
  . split
    . decide
    . decide

theorem closed_headline {d : Diagnostic} (h : escapeChar ∉ d.message.toList) :
    Closed (headline d) := by
  have hseverity := plain_severity d.severity
  have hcode := plain_code d.code
  constructor
  . simp +decide [headline, Tidy, hseverity.1, hseverity.2, hcode.1, hcode.2, h]
  . rfl

theorem closed_snippet (d : Diagnostic) (loc : Location) {line : String}
    (h : escapeChar ∉ line.toList) : Closed (snippet d loc line) := by
  have hnumber := plain_toString loc.line
  have hspaces (count : Nat) : Plain (repeated count ' ') :=
    plain_repeated count (by decide) (by decide)
  have hcarets (count : Nat) : Plain (repeated count '^') :=
    plain_repeated count (by decide) (by decide)
  unfold snippet
  generalize toString loc.line = number at hnumber
  constructor
  . simp +decide [Tidy, hnumber.1, hnumber.2, (hspaces _).1, (hcarets _).1, (hcarets _).2, h]
  . rfl

theorem closed_help {text : String} (h : escapeChar ∉ text.toList) : Closed (help text) := by
  constructor
  . simp +decide [help, Tidy, h]
  . rfl

theorem closed_summary (diagnostics : List Diagnostic) : Closed (summary diagnostics) := by
  have herrors : Plain (counted (Diagnostic.errorCount diagnostics) "error") :=
    plain_counted _ (by decide)
  have hwarnings : Plain (counted (Diagnostic.warningCount diagnostics) "warning") :=
    plain_counted _ (by decide)
  have hcounts : Plain (" and ".intercalate
      ((if 0 < Diagnostic.errorCount diagnostics
          then [counted (Diagnostic.errorCount diagnostics) "error"] else [])
        ++ (if 0 < Diagnostic.warningCount diagnostics
          then [counted (Diagnostic.warningCount diagnostics) "warning"] else []))) := by
    split
    . split
      . exact plain_append (plain_append herrors (by decide)) hwarnings
      . exact herrors
    . split
      . exact hwarnings
      . decide
  simp only [summary]
  split
  . exact closed_nil
  . constructor
    . simp +decide only [Tidy, hcounts.1, hcounts.2]
    . rfl

/-! ### Colour in a report -/

/-- No text that a report is made of has the escape character. -/
structure EscapeFree (cache : SourceCache) (ds : List Diagnostic) : Prop where
  message : ∀ d ∈ ds, escapeChar ∉ d.message.toList
  label : ∀ d ∈ ds, ∀ label ∈ d.labels, escapeChar ∉ label.message.toList
  help : ∀ d ∈ ds, ∀ text ∈ d.help, escapeChar ∉ text.toList
  path : ∀ file ∈ cache.files, escapeChar ∉ file.path.toList
  source : ∀ file ∈ cache.files, escapeChar ∉ file.text.toList

section Report

variable {cache : SourceCache} {ds : List Diagnostic} (hfree : EscapeFree cache ds)

include hfree

theorem EscapeFree.location {span : Span} {loc : Location}
    (h : cache.location? span = some loc) : escapeChar ∉ loc.text.toList := by
  unfold SourceCache.location? at h
  split at h
  . cases h
  . rw [Option.map_eq_some_iff] at h
    obtain ⟨file, hfile, rfl⟩ := h
    have hpath := hfree.path file (Array.mem_of_getElem? hfile)
    have hcolon : escapeChar ∉ ":".toList := by decide
    simp only [Location.text, String.toList_append, List.mem_append, not_or]
    exact ⟨⟨⟨⟨hpath, hcolon⟩, (plain_toString _).1⟩, hcolon⟩, (plain_toString _).1⟩

theorem EscapeFree.lineText {id : UInt32} {file : SourceFile} {line : Nat} {text : String}
    (hfile : cache.file? id = some file) (h : file.lineText? line = some text) :
    escapeChar ∉ text.toList := by
  intro hmem
  exact hfree.source file (Array.mem_of_getElem? hfile) (SourceFile.subset_of_lineText? h hmem)

theorem closed_place (d : Diagnostic) : Closed (place cache d) := by
  unfold place
  split
  . exact closed_nil
  . rename_i loc hloc
    have hplace := hfree.location hloc
    apply Closed.append
    . constructor
      . simp +decide [Tidy, hplace]
      . rfl
    . cases hline : (cache.file? d.span.file).bind (·.lineText? loc.line) with
      | none => exact closed_nil
      | some line =>
        obtain ⟨file, hfile, htext⟩ := Option.bind_eq_some_iff.mp hline
        exact closed_snippet d loc (hfree.lineText hfile htext)

theorem closed_note {label : Label} (h : escapeChar ∉ label.message.toList) :
    Closed (note cache label) := by
  unfold note
  cases hloc : cache.location? label.span with
  | none =>
    constructor
    . simp +decide [Tidy, h]
    . rfl
  | some loc =>
    have hplace := hfree.location hloc
    constructor
    . simp +decide [Tidy, h, hplace]
    . rfl

/-- A report can be shown in colour. -/
theorem closed_report : Closed (report cache ds) := by
  apply Closed.append
  . apply closed_flatMap
    intro d hd
    unfold diagnostic
    apply Closed.append
    . apply Closed.append
      . apply Closed.append
        . exact (closed_headline (hfree.message d hd)).append (closed_place hfree d)
        . exact closed_flatMap fun label hlabel =>
            closed_note hfree (hfree.label d hd label hlabel)
      . cases hhelp : d.help with
        | none => exact closed_nil
        | some text => exact closed_help (hfree.help d hd text hhelp)
    . constructor
      . simp +decide [Tidy]
      . rfl
  . exact closed_summary ds

end Report

/-- The text of the user in a part. -/
def Part.given? : Part → Option String
  | .given text => some text
  | _ => none

/--
The texts of the user that are shown for a diagnostic: the message, the location and the source line,
the messages and locations of the labels, and the help.
-/
def supplied (cache : SourceCache) (d : Diagnostic) : List String :=
  [d.message]
    ++ (match cache.location? d.span with
      | none => []
      | some loc => [loc.text]
        ++ ((cache.file? d.span.file).bind (·.lineText? loc.line)).toList)
    ++ d.labels.flatMap (fun label =>
      [label.message] ++ ((cache.location? label.span).map Location.text).toList)
    ++ d.help.toList

/-- The texts of the user in a report are those that its diagnostics supply. -/
theorem filterMap_given?_report (cache : SourceCache) (ds : List Diagnostic) :
    (report cache ds).filterMap Part.given? = ds.flatMap (supplied cache) := by
  have hplace (d : Diagnostic) : (place cache d).filterMap Part.given? =
      match cache.location? d.span with
      | none => []
      | some loc => [loc.text] ++ ((cache.file? d.span.file).bind (·.lineText? loc.line)).toList := by
    unfold place
    cases cache.location? d.span with
    | none => rfl
    | some loc =>
      cases hline : (cache.file? d.span.file).bind (·.lineText? loc.line) with
      | none =>
        simp only [hline]
        rfl
      | some line =>
        simp only [hline]
        rfl
  have hnote (label : Label) : (note cache label).filterMap Part.given? =
      [label.message] ++ ((cache.location? label.span).map Location.text).toList := by
    unfold note
    cases cache.location? label.span with
    | none => rfl
    | some loc => rfl
  have hdiagnostic (d : Diagnostic) :
      (diagnostic cache d).filterMap Part.given? = supplied cache d := by
    have hhelp : ((d.help.map help).getD []).filterMap Part.given? = d.help.toList := by
      cases d.help with
      | none => rfl
      | some text => rfl
    simp only [diagnostic, List.filterMap_append, hplace, hhelp, List.filterMap_flatMap, hnote,
      supplied]
    exact List.append_nil _
  have hsummary : (summary ds).filterMap Part.given? = [] := by
    simp only [summary]
    split
    . rfl
    . rfl
  simp only [report, List.filterMap_append, List.filterMap_flatMap, hdiagnostic, hsummary,
    List.append_nil]

/--
Colour only adds colour sequences to a report, and no colour is active at the end of a line or where
a text of the user is shown.
-/
theorem colored_report {cache : SourceCache} {ds : List Diagnostic} (h : EscapeFree cache ds) :
    uncolored (text true cache ds).toList = (text false cache ds).toList ∧
      (∀ before after, (text true cache ds).toList = before ++ '\n' :: after → Neutral before) ∧
      (∀ before text after, report cache ds = before ++ .given text :: after →
        Neutral (print true before).toList) ∧
      (report cache ds).filterMap Part.given? = ds.flatMap (supplied cache) := by
  have htidy := (closed_report h).1
  refine ⟨uncolored_print htidy, ?_, ?_, filterMap_given?_report cache ds⟩
  . intro before after hnewline
    exact neutral_of_newline htidy hnewline
  . intro before text after hgiven
    rw [hgiven] at htidy
    exact neutral_of_given htidy

/-- A source text for a report. -/
def reported : SourceCache := .ofList [⟨"a.tn", "local n\nn = \"é\"\r\n"⟩]

/-- A diagnostic with everything that can be shown, and one without a place. -/
def reports : List Diagnostic :=
  [((Diagnostic.ofCode .uninitializedCapture "cannot box\n[31mn").withSpan ⟨0, 6, 7⟩
      |>.withLabel ⟨0, 8, 9⟩ "reassigned here").withHelp "give it a value",
    Diagnostic.new .internalError .warning "lost"]

/-- Colour in a report with a newline in a message, and with what looks like a colour sequence. -/
theorem colored_report_lookalike :
    EscapeFree reported reports ∧ text true reported reports ≠ text false reported reports ∧
      uncolored (text true reported reports).toList = (text false reported reports).toList ∧
      (∀ before after, (text true reported reports).toList = before ++ '\n' :: after →
        Neutral before) ∧
      ∀ before text after, report reported reports = before ++ .given text :: after →
        Neutral (print true before).toList := by
  have hfree : EscapeFree reported reports := by
    constructor
    . decide +kernel
    . decide +kernel
    . decide +kernel
    . decide +kernel
    . decide +kernel
  obtain ⟨hplain, hnewline, hgiven, -⟩ := colored_report hfree
  exact ⟨hfree, by decide +kernel, hplain, hnewline, hgiven⟩

end Upvalue.Terminal

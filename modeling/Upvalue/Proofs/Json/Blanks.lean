import Upvalue.Proofs.Json.Printing

/-!
This module contains the proof that the two ways to write a value differ in blanks between tokens
only. Without these blanks both are the same text, and blanks inside of strings are kept.
-/

namespace Upvalue.Json

open Token

/--
A text without the blanks outside of its strings. `quoted` says whether the text starts inside of a
string.
-/
def unspaced : (quoted : Bool) → List Char → List Char
  | _, [] => []
  | true, '\\' :: c :: cs => '\\' :: c :: unspaced true cs
  | quoted, '"' :: cs => '"' :: unspaced (!quoted) cs
  | true, c :: cs => c :: unspaced true cs
  | false, c :: cs => if isBlank c then unspaced false cs else c :: unspaced false cs

section Characters

variable {c : Char} {cs blanks : List Char}

theorem unspaced_blank (h : isBlank c = true) : unspaced false (c :: cs) = unspaced false cs := by
  have hquote : c ≠ '"' := by
    rintro rfl
    cases h
  simp [unspaced, h]

theorem unspaced_blanks (h : ∀ c ∈ blanks, isBlank c = true) :
    unspaced false (blanks ++ cs) = unspaced false cs := by
  induction blanks with
  | nil => rfl
  | cons c blanks ih =>
    rw [List.forall_mem_cons] at h
    rw [List.cons_append, unspaced_blank h.1, ih h.2]

theorem unspaced_visible (hquote : c ≠ '"') (hblank : isBlank c = false) :
    unspaced false (c :: cs) = c :: unspaced false cs := by
  simp [unspaced, hblank]

theorem unspaced_append {word : List Char} (h : ∀ c ∈ word, c ≠ '"' ∧ isBlank c = false) :
    unspaced false (word ++ cs) = word ++ unspaced false cs := by
  induction word with
  | nil => rfl
  | cons c word ih =>
    rw [List.forall_mem_cons] at h
    rw [List.cons_append, unspaced_visible h.1.1 h.1.2, ih h.2, List.cons_append]

theorem isVisible_of_isDigit (h : c.isDigit = true) : c ≠ '"' ∧ isBlank c = false := by
  refine ⟨?_, isBlank_of_isDigit h⟩
  rintro rfl
  cases h

theorem unspaced_number {n : Number} (h : n.Legal) :
    unspaced false (n.chars ++ cs) = n.chars ++ unspaced false cs := by
  apply unspaced_append
  intro c hc
  rcases of_mem_numberWord (numberWord_chars h) hc with hdigit | hmark
  . exact isVisible_of_isDigit hdigit
  . simp only [List.mem_cons, List.not_mem_nil, or_false] at hmark
    rcases hmark with rfl | rfl | rfl | rfl | rfl <;> decide

/-- What stands for a character in a string does not end it. -/
theorem unspaced_escape (c : Char) :
    unspaced true (escape c ++ cs) = escape c ++ unspaced true cs := by
  by_cases hletter : c ∈ ['"', '\\', '\x08', '\x0c', '\n', '\r', '\t']
  . simp only [List.mem_cons, List.not_mem_nil, or_false] at hletter
    rcases hletter with rfl | rfl | rfl | rfl | rfl | rfl | rfl <;> rfl
  . simp only [List.mem_cons, List.not_mem_nil, or_false, not_or] at hletter
    by_cases hcontrol : c.toNat < 0x20
    . have hdigit : ∀ n < 16, Nat.digitChar n ≠ '"' ∧ Nat.digitChar n ≠ '\\' := by decide
      have hhigh := hdigit (c.toNat / 16) (by omega)
      have hlow := hdigit (c.toNat % 16) (Nat.mod_lt _ (by decide))
      simp [escape, hletter, hcontrol, hexByte, unspaced, hhigh, hlow]
    . simp [escape, hletter, hcontrol, unspaced]

theorem unspaced_stringChars (s : String) :
    unspaced false (stringChars s ++ cs) = stringChars s ++ unspaced false cs := by
  have hbody (body : List Char) : unspaced true (bodyChars body ++ '"' :: cs) =
      bodyChars body ++ '"' :: unspaced false cs := by
    induction body with
    | nil => rfl
    | cons c body ih =>
      unfold bodyChars at ih ⊢
      rw [List.flatMap_cons, List.append_assoc, unspaced_escape, ih, List.append_assoc]
  change '"' :: unspaced true (bodyChars s.toList ++ ['"'] ++ cs) = _
  rw [List.append_assoc, List.singleton_append, hbody]
  simp [stringChars]

end Characters

section Spelling

variable (spacing : Spacing)

mutual

/-- Without its blanks a value is spelled in the same way with every spacing. -/
theorem unspaced_spell : ∀ (indent indent' : Nat) (json : Json), json.Legal →
    ∀ rest : List Char, unspaced false (spell spacing indent json ++ rest) =
      spell .compact indent' json ++ unspaced false rest
  | _, _, .null, _, _ => rfl
  | _, _, .bool true, _, _ => rfl
  | _, _, .bool false, _, _ => rfl
  | _, _, .number n, h, _ => unspaced_number h
  | _, _, .string text, h, _ => by
    rcases h with ⟨s, rfl⟩
    exact unspaced_stringChars s
  | _, _, .array [], _, _ => rfl
  | indent, indent', .array (item :: items), h, rest => by
    simp only [spell, List.cons_append, List.append_assoc, List.nil_append]
    rw [unspaced_visible (by decide) (by decide), unspaced_blanks (spacing.isBlank_of_line _),
      unspaced_spell _ (indent' + 1) item h.1, unspaced_spellItems _ (indent' + 1) items h.2,
      unspaced_blanks (spacing.isBlank_of_line _), unspaced_visible (by decide) (by decide)]
    rfl
  | _, _, .object [], _, _ => rfl
  | indent, indent', .object ((key, value) :: fields), h, rest => by
    rcases h with ⟨⟨s, rfl⟩, hvalue, hfields⟩
    have hkey (cs : List Char) : unspaced false (textChars (.plain s) ++ cs) =
        textChars (.plain s) ++ unspaced false cs := unspaced_stringChars s
    simp only [spell, List.cons_append, List.append_assoc, List.nil_append]
    rw [unspaced_visible (by decide) (by decide), unspaced_blanks (spacing.isBlank_of_line _),
      hkey, unspaced_visible (by decide) (by decide), unspaced_blanks spacing.isBlank_of_gap,
      unspaced_spell _ (indent' + 1) value hvalue,
      unspaced_spellFields _ (indent' + 1) fields hfields,
      unspaced_blanks (spacing.isBlank_of_line _), unspaced_visible (by decide) (by decide)]
    rfl

theorem unspaced_spellItems : ∀ (indent indent' : Nat) (items : List Json), LegalItems items →
    ∀ rest : List Char, unspaced false (spellItems spacing indent items ++ rest) =
      spellItems .compact indent' items ++ unspaced false rest
  | _, _, [], _, _ => rfl
  | indent, indent', item :: items, h, rest => by
    simp only [spellItems, List.cons_append, List.append_assoc]
    rw [unspaced_visible (by decide) (by decide), unspaced_blanks (spacing.isBlank_of_line _),
      unspaced_spell _ indent' item h.1, unspaced_spellItems _ indent' items h.2]
    rfl

theorem unspaced_spellFields : ∀ (indent indent' : Nat) (fields : List (Text × Json)),
    LegalFields fields → ∀ rest : List Char,
      unspaced false (spellFields spacing indent fields ++ rest) =
        spellFields .compact indent' fields ++ unspaced false rest
  | _, _, [], _, _ => rfl
  | indent, indent', (key, value) :: fields, h, rest => by
    rcases h with ⟨⟨s, rfl⟩, hvalue, hfields⟩
    have hkey (cs : List Char) : unspaced false (textChars (.plain s) ++ cs) =
        textChars (.plain s) ++ unspaced false cs := unspaced_stringChars s
    simp only [spellFields, List.cons_append, List.append_assoc]
    rw [unspaced_visible (by decide) (by decide), unspaced_blanks (spacing.isBlank_of_line _),
      hkey, unspaced_visible (by decide) (by decide), unspaced_blanks spacing.isBlank_of_gap,
      unspaced_spell _ indent' value hvalue, unspaced_spellFields _ indent' fields hfields]
    rfl

end

end Spelling

section Texts

variable {json : Json} {blanks : String}

end Texts

end Upvalue.Json

import Upvalue.Json.Printer
import Upvalue.Json.Token

/-!
This module contains how tokens are spelled. A token that is written as the printer writes it is
found again, together with what follows it. Numbers are the only tokens that have to end with
something that cannot belong to them.
-/

namespace Upvalue.Json

/-- A number token that can be written down. -/
structure Number.Legal (n : Number) : Prop where
  whole_ne_nil : n.whole ≠ []
  whole : ∀ c ∈ n.whole, c.isDigit = true
  leading : ∀ cs, n.whole = '0' :: cs → cs = []
  fraction : ∀ c ∈ n.fraction, c.isDigit = true
  exponent : ∀ e, n.exponent = some e → e.digits ≠ [] ∧ ∀ c ∈ e.digits, c.isDigit = true

namespace Token

/-- A number ends before a text. -/
def Ends (cs : List Char) : Prop :=
  ∀ c, cs.head? = some c → c.isDigit = false ∧ c ≠ '.' ∧ c ≠ 'e' ∧ c ≠ 'E'

section Blanks

variable {blanks cs rest : List Char} {c : Char}

theorem ends_cons (h : c.isDigit = false ∧ c ≠ '.' ∧ c ≠ 'e' ∧ c ≠ 'E') : Ends (c :: cs) := by
  intro c' hc
  cases hc
  exact h

theorem ends_blank (h : isBlank c = true) : Ends (c :: cs) := by
  apply ends_cons
  unfold isBlank at h
  simp only [Bool.or_eq_true, beq_iff_eq] at h
  rcases h with ((rfl | rfl) | rfl) | rfl <;> decide

theorem isBlank_of_isDigit (h : c.isDigit = true) : isBlank c = false := by
  cases hblank : isBlank c with
  | false => rfl
  | true =>
    have hends : Ends [c] := ends_blank hblank
    have hdigit := (hends c rfl).1
    rw [h] at hdigit
    cases hdigit

theorem ends_append (hblanks : ∀ c ∈ blanks, isBlank c = true) (h : Ends rest) :
    Ends (blanks ++ rest) := by
  cases blanks with
  | nil => exact h
  | cons c blanks => exact ends_blank (hblanks c List.mem_cons_self)

end Blanks

section All

variable {tokens : List Token} {blanks cs rest : List Char} {c : Char} {t : Token}

theorem collect_eq (tokens : List Token) (cs : List Char) :
    collect tokens cs = (all? cs).map (tokens.reverse ++ ·) := by
  unfold all?
  induction hn : cs.length using Nat.strongRecOn generalizing tokens cs with
  | ind n ih =>
    subst hn
    cases cs with
    | nil => simp [collect]
    | cons c cs =>
      rw [collect, collect]
      split
      . apply ih _ _ _ _ rfl
        simp
      . split
        . next token rest hfirst =>
          have hlt := length_lt_of_first? hfirst
          rw [ih _ hlt (token :: tokens) rest rfl, ih _ hlt [token] rest rfl, Option.map_map]
          congr 1
          funext rest
          simp
        . rfl

theorem all?_nil : all? [] = some [] := by
  unfold all?
  rw [collect]
  rfl

theorem all?_blank (h : isBlank c = true) : all? (c :: cs) = all? cs := by
  unfold all?
  rw [collect, if_pos h]

theorem all?_blanks (h : ∀ c ∈ blanks, isBlank c = true) : all? (blanks ++ cs) = all? cs := by
  induction blanks with
  | nil => rfl
  | cons c blanks ih =>
    rw [List.forall_mem_cons] at h
    rw [List.cons_append, all?_blank h.1, ih h.2]

theorem all?_first (hblank : isBlank c = false) (h : first? (c :: cs) = some (t, rest)) :
    all? (c :: cs) = (all? rest).map (t :: ·) := by
  have hcollect := collect_eq [t] rest
  unfold all? at hcollect ⊢
  rw [collect, if_neg (by simp [hblank])]
  split
  . next h' =>
    rw [h] at h'
    cases h'
    exact hcollect
  . next h' =>
    rw [h] at h'
    cases h'

end All

section Numbers

variable {ds rest : List Char} {n : Number}

theorem digits_append (hds : ∀ c ∈ ds, c.isDigit = true)
    (hrest : ∀ c, rest.head? = some c → c.isDigit = false) : digits (ds ++ rest) = (ds, rest) := by
  unfold digits
  rw [List.takeWhile_append_of_pos hds, List.dropWhile_append_of_pos hds]
  cases rest with
  | nil => simp
  | cons c rest =>
    have hc := hrest c rfl
    simp [hc]

/-- The characters of the exponent of a number. -/
def exponentChars : Option Exponent → List Char
  | none => []
  | some e => 'e' :: (if e.negative then '-' else '+') :: e.digits

/-- The characters of the fraction of a number. -/
def fractionChars (digits : List Char) : List Char :=
  if digits.isEmpty then [] else '.' :: digits

/-- The ways to write the exponent of a number. A positive exponent may have a sign. -/
inductive ExponentWord : Option Exponent → List Char → Prop where
  | none : ExponentWord none []
  | signed {e : Exponent} {letter : Char} (hletter : letter = 'e' ∨ letter = 'E') :
    ExponentWord (some e) (letter :: (if e.negative then '-' else '+') :: e.digits)
  | unsigned {e : Exponent} {letter : Char} (hletter : letter = 'e' ∨ letter = 'E')
    (hpositive : e.negative = false) : ExponentWord (some e) (letter :: e.digits)

/-- The ways to write a number. -/
inductive NumberWord (n : Number) : List Char → Prop where
  | word {cs : List Char} (hlegal : n.Legal) (hexponent : ExponentWord n.exponent cs) :
    NumberWord n ((if n.negative then ['-'] else []) ++
      (n.whole ++ (fractionChars n.fraction ++ cs)))

theorem exponentWord_chars (e : Option Exponent) : ExponentWord e (exponentChars e) := by
  cases e with
  | none => exact .none
  | some e => exact .signed (.inl rfl)

theorem chars_eq : n.chars = (if n.negative then ['-'] else []) ++
    (n.whole ++ (fractionChars n.fraction ++ exponentChars n.exponent)) := by
  unfold Number.chars fractionChars
  cases n.exponent <;> simp [exponentChars]

theorem numberWord_chars (hn : n.Legal) : NumberWord n n.chars := by
  rw [chars_eq]
  exact .word hn (exponentWord_chars n.exponent)

theorem of_mem_exponentWord {e : Option Exponent} {cs : List Char} {c : Char}
    (hdigits : ∀ e', e = some e' → ∀ c ∈ e'.digits, c.isDigit = true) (h : ExponentWord e cs)
    (hc : c ∈ cs) : c.isDigit = true ∨ c ∈ ['-', '+', '.', 'e', 'E'] := by
  cases h with
  | none => cases hc
  | signed hletter =>
    rw [List.mem_cons, List.mem_cons] at hc
    rcases hc with rfl | rfl | hc
    . rcases hletter with rfl | rfl <;> exact .inr (by decide)
    . right
      split <;> decide
    . exact .inl (hdigits _ rfl c hc)
  | unsigned hletter _ =>
    rcases List.mem_cons.mp hc with rfl | hc
    . rcases hletter with rfl | rfl <;> exact .inr (by decide)
    . exact .inl (hdigits _ rfl c hc)

/-- A number is made of digits, signs, a point and the letter of its exponent. -/
theorem of_mem_numberWord {cs : List Char} {c : Char} (h : NumberWord n cs) (hc : c ∈ cs) :
    c.isDigit = true ∨ c ∈ ['-', '+', '.', 'e', 'E'] := by
  rcases h with ⟨hn, hword⟩
  simp only [List.mem_append] at hc
  rcases hc with hc | hc | hc | hc
  . split at hc
    . cases List.mem_singleton.mp hc
      exact .inr (by decide)
    . cases hc
  . exact .inl (hn.whole c hc)
  . unfold fractionChars at hc
    split at hc
    . cases hc
    . rcases List.mem_cons.mp hc with rfl | hc
      . exact .inr (by decide)
      . exact .inl (hn.fraction c hc)
  . exact of_mem_exponentWord (fun e he => (hn.exponent e he).2) hword hc

section Parts

variable {word : List Char}

/-- Digits do not start with a sign. -/
theorem sign_of_digits (hne : ds ≠ []) (hds : ∀ c ∈ ds, c.isDigit = true) (rest : List Char) :
    sign (ds ++ rest) = (false, ds ++ rest) := by
  cases ds with
  | nil => exact absurd rfl hne
  | cons d ds =>
    have hd := hds d List.mem_cons_self
    unfold sign
    split
    . next heq =>
      cases heq
      exact absurd hd (by decide)
    . next heq =>
      cases heq
      exact absurd hd (by decide)
    . rfl

theorem exponent?_append (hn : n.Legal) (hword : ExponentWord n.exponent word)
    (hrest : Ends rest) : exponent? (word ++ rest) = some (n.exponent, rest) := by
  have hexponent := hn.exponent
  generalize n.exponent = exponent at hword hexponent ⊢
  cases hword with
  | none =>
    rw [List.nil_append]
    cases rest with
    | nil => rfl
    | cons c rest =>
      have hc := hrest c rfl
      simp [exponent?, hc.2.2]
  | @signed e letter hletter =>
    rcases hexponent e rfl with ⟨hne, hdigits⟩
    have hsplit := digits_append hdigits (fun c hc => (hrest c hc).1)
    rcases e with ⟨negative, ds⟩
    cases negative <;> simp [exponent?, hletter, sign, hsplit, hne]
  | @unsigned e letter hletter hpositive =>
    rcases hexponent e rfl with ⟨hne, hdigits⟩
    have hsplit := digits_append hdigits (fun c hc => (hrest c hc).1)
    have hsign := sign_of_digits hne hdigits rest
    rcases e with ⟨negative, ds⟩
    cases hpositive
    simp [exponent?, hletter, hsign, hsplit, hne]

theorem ends_exponent (hword : ExponentWord n.exponent word) (hrest : Ends rest) (c : Char)
    (hc : (word ++ rest).head? = some c) : c.isDigit = false ∧ c ≠ '.' := by
  generalize n.exponent = exponent at hword
  cases hword with
  | none => exact ⟨(hrest c hc).1, (hrest c hc).2.1⟩
  | signed hletter =>
    cases hc
    rcases hletter with rfl | rfl <;> decide
  | unsigned hletter _ =>
    cases hc
    rcases hletter with rfl | rfl <;> decide

theorem fraction?_append (hn : n.Legal) (hword : ExponentWord n.exponent word)
    (hrest : Ends rest) : fraction? (fractionChars n.fraction ++ (word ++ rest)) =
      some (n.fraction, word ++ rest) := by
  have hend := ends_exponent hword hrest
  cases hfraction : n.fraction with
  | nil =>
    change fraction? (word ++ rest) = _
    generalize word ++ rest = cs at hend
    unfold fraction?
    split
    . next cs => exact absurd rfl (hend '.' rfl).2
    . rfl
  | cons d ds =>
    have hdigits := hn.fraction
    rw [hfraction] at hdigits
    have hsplit := digits_append hdigits (fun c hc => (hend c hc).1)
    change fraction? ('.' :: (d :: ds ++ (word ++ rest))) = _
    rw [fraction?, hsplit]
    rfl

theorem whole?_append (hn : n.Legal) (hrest : ∀ c, rest.head? = some c → c.isDigit = false) :
    whole? (n.whole ++ rest) = some (n.whole, rest) := by
  have hsplit := digits_append hn.whole hrest
  cases hwhole : n.whole with
  | nil => exact absurd hwhole hn.whole_ne_nil
  | cons d ds =>
    rw [hwhole] at hsplit
    by_cases hzero : d = '0'
    . subst hzero
      rw [hn.leading ds hwhole]
      rfl
    . unfold whole?
      split
      . next heq =>
        cases heq
        exact absurd rfl hzero
      . rw [hsplit]
        rfl

/-- A number is found again without its sign. -/
theorem number?_append (hn : n.Legal) (hword : ExponentWord n.exponent word) (hrest : Ends rest) :
    number? n.negative (n.whole ++ (fractionChars n.fraction ++ word) ++ rest) =
      some (n, rest) := by
  have hwhole : ∀ c, (fractionChars n.fraction ++ (word ++ rest)).head? =
      some c → c.isDigit = false := by
    intro c hc
    unfold fractionChars at hc
    split at hc
    . exact (ends_exponent hword hrest c hc).1
    . cases hc
      rfl
  rw [List.append_assoc, List.append_assoc]
  simp only [number?, whole?_append hn hwhole, fraction?_append hn hword hrest,
    exponent?_append hn hword hrest, bind, Option.bind]
  rfl

end Parts

theorem first?_of_digit {c : Char} {cs : List Char} (hc : c.isDigit = true) :
    first? (c :: cs) = (number? false (c :: cs)).map fun (token, cs) => (.number token, cs) := by
  unfold first?
  split <;> first
    | rfl
    | next heq =>
      injection heq with heq
      rw [heq] at hc
      exact absurd hc (by decide)

theorem all?_numberWord {cs : List Char} (h : NumberWord n cs) (hrest : Ends rest) :
    all? (cs ++ rest) = (all? rest).map (.number n :: ·) := by
  rcases h with ⟨hn, hword⟩
  have hnumber := number?_append hn hword hrest
  cases hnegative : n.negative with
  | true =>
    rw [hnegative] at hnumber
    rw [if_pos rfl, List.append_assoc, List.singleton_append]
    apply all?_first rfl
    change Option.map _ (number? true _) = _
    rw [hnumber]
    rfl
  | false =>
    rw [hnegative] at hnumber
    rw [if_neg (by simp), List.nil_append]
    cases hwhole : n.whole with
    | nil => exact absurd hwhole hn.whole_ne_nil
    | cons d ds =>
      have hd : d.isDigit = true := by
        apply hn.whole
        rw [hwhole]
        exact List.mem_cons_self
      rw [hwhole] at hnumber
      apply all?_first (isBlank_of_isDigit hd)
      change first? (d :: ds ++ _ ++ rest) = _
      rw [List.cons_append, List.cons_append] at hnumber ⊢
      rw [first?_of_digit hd, hnumber]
      rfl

end Numbers

section Strings

variable {cs rest word : List Char} {piece : Piece}

/-- The ways to write a piece of a string. -/
inductive PieceWord : Piece → List Char → Prop where
  | char {c : Char} (hquote : c ≠ '"') (hslash : c ≠ '\\') (hcontrol : isControl c = false) :
    PieceWord (.char c) [c]
  | letter {c c' : Char} (h : escaped? c = some c') : PieceWord (.char c') ['\\', c]
  | unit {a b c d : Char} {n : Nat} (h : unit? a b c d = some n) :
    PieceWord (.unit n) ['\\', 'u', a, b, c, d]

/-- The ways to write the pieces of a string. -/
inductive StringBody : List Piece → List Char → Prop where
  | nil : StringBody [] []
  | cons {piece : Piece} {pieces : List Piece} {word cs : List Char}
    (hword : PieceWord piece word) (h : StringBody pieces cs) :
    StringBody (piece :: pieces) (word ++ cs)

/-- The piece that a character of a string is found as. -/
def pieceOf (c : Char) : Piece :=
  if c.toNat < 0x20 ∧ c ∉ ['\x08', '\x0c', '\n', '\r', '\t'] then .unit c.toNat else .char c

/-- The characters of a string between its quotes. -/
def bodyChars (cs : List Char) : List Char :=
  cs.flatMap escape

/-- The characters of a string. -/
def stringChars (s : String) : List Char :=
  '"' :: (bodyChars s.toList ++ ['"'])

theorem unit?_hexByte : ∀ n < 0x20,
    unit? '0' '0' (Nat.digitChar (n / 16)) (Nat.digitChar (n % 16)) = some n := by
  decide

theorem stringBody_word (pieces : List Piece) (h : PieceWord piece word) (rest : List Char) :
    stringBody pieces (word ++ rest) = stringBody (piece :: pieces) rest := by
  cases h with
  | char hquote hslash hcontrol =>
    rw [List.cons_append, List.nil_append, stringBody]
    . simp [hcontrol]
    . exact hquote
    . intro _ _ _ _ _ hc
      exact absurd hc hslash
    . intro _ _ hc
      exact absurd hc hslash
  | @letter c c' h =>
    have hunit : c ≠ 'u' := by
      rintro rfl
      cases h
    rw [List.cons_append, List.cons_append, List.nil_append, stringBody]
    . rw [h]
    . intro _ _ _ _ _ hc
      exact absurd hc hunit
  | unit h => simp [stringBody, h]

theorem stringBody_body (pieces : List Piece) {pieces' : List Piece} (h : StringBody pieces' cs)
    (rest : List Char) :
    stringBody pieces (cs ++ '"' :: rest) = some (pieces.reverse ++ pieces', rest) := by
  induction h generalizing pieces with
  | nil =>
    rw [List.append_nil]
    rfl
  | cons hword _ ih =>
    rw [List.append_assoc, stringBody_word pieces hword, ih, List.reverse_cons, List.append_assoc]
    rfl

theorem pieceWord_escape (c : Char) : PieceWord (pieceOf c) (escape c) := by
  by_cases hletter : c ∈ ['"', '\\', '\x08', '\x0c', '\n', '\r', '\t']
  . simp only [List.mem_cons, List.not_mem_nil, or_false] at hletter
    rcases hletter with rfl | rfl | rfl | rfl | rfl | rfl | rfl <;> exact .letter rfl
  . simp only [List.mem_cons, List.not_mem_nil, or_false, not_or] at hletter
    by_cases hcontrol : c.toNat < 0x20
    . have hunit := PieceWord.unit (unit?_hexByte c.toNat hcontrol)
      simpa [escape, hletter, hcontrol, hexByte, pieceOf] using hunit
    . have hchar : PieceWord (.char c) [c] :=
        .char hletter.1 hletter.2.1 (by simp [isControl, Nat.le_of_not_lt hcontrol])
      simpa [escape, hletter, hcontrol, pieceOf] using hchar

theorem stringBody_bodyChars (cs : List Char) :
    StringBody (cs.map pieceOf) (bodyChars cs) := by
  induction cs with
  | nil => exact .nil
  | cons c cs ih => exact .cons (pieceWord_escape c) ih

theorem join_pieceOf (c : Char) (pieces : List Piece) :
    Piece.join (pieceOf c :: pieces) = (Piece.join pieces).map (c :: ·) := by
  unfold pieceOf
  split
  . next hunit =>
    -- Control characters are not surrogates.
    have htrailing : Piece.isTrailing c.toNat = false := by
      simp [Piece.isTrailing]
      omega
    have hleading : Piece.isLeading c.toNat = false := by
      simp [Piece.isLeading]
      omega
    rw [Piece.join.eq_def]
    simp only [htrailing, hleading, Bool.false_eq_true, if_false, Char.ofNat_toNat]
  . rw [Piece.join]

theorem join_map_pieceOf (cs : List Char) : Piece.join (cs.map pieceOf) = .ok cs := by
  induction cs with
  | nil => rfl
  | cons c cs ih =>
    rw [List.map_cons, join_pieceOf, ih]
    rfl

theorem all?_body {pieces : List Piece} (h : StringBody pieces cs) (rest : List Char) :
    all? ('"' :: (cs ++ ['"']) ++ rest) = (all? rest).map (.string (Piece.text pieces) :: ·) := by
  apply all?_first rfl
  change Option.map _ (stringBody [] (cs ++ ['"'] ++ rest)) = _
  rw [List.append_assoc, List.singleton_append, stringBody_body [] h]
  rfl

theorem text_map_pieceOf (s : String) : Piece.text (s.toList.map pieceOf) = .plain s := by
  unfold Piece.text
  rw [join_map_pieceOf]
  simp

end Strings

section Words

variable (rest : List Char)

theorem all?_null : all? ("null".toList ++ rest) = (all? rest).map (.null :: ·) :=
  all?_first rfl rfl

theorem all?_true : all? ("true".toList ++ rest) = (all? rest).map (.bool true :: ·) :=
  all?_first rfl rfl

theorem all?_false : all? ("false".toList ++ rest) = (all? rest).map (.bool false :: ·) :=
  all?_first rfl rfl

theorem all?_openBrace : all? ('\x7b' :: rest) = (all? rest).map (.openBrace :: ·) :=
  all?_first rfl rfl

theorem all?_closeBrace : all? ('\x7d' :: rest) = (all? rest).map (.closeBrace :: ·) :=
  all?_first rfl rfl

theorem all?_openBracket : all? ('[' :: rest) = (all? rest).map (.openBracket :: ·) :=
  all?_first rfl rfl

theorem all?_closeBracket : all? (']' :: rest) = (all? rest).map (.closeBracket :: ·) :=
  all?_first rfl rfl

theorem all?_colon : all? (':' :: rest) = (all? rest).map (.colon :: ·) :=
  all?_first rfl rfl

theorem all?_comma : all? (',' :: rest) = (all? rest).map (.comma :: ·) :=
  all?_first rfl rfl

end Words

section Texts

variable {rest cs : List Char} {t : Token} {tokens : List Token}

/-- The ways to write a token. -/
inductive Word : Token → List Char → Prop where
  | openBrace : Word .openBrace ['\x7b']
  | closeBrace : Word .closeBrace ['\x7d']
  | openBracket : Word .openBracket ['[']
  | closeBracket : Word .closeBracket [']']
  | colon : Word .colon [':']
  | comma : Word .comma [',']
  | null : Word .null "null".toList
  | true : Word (.bool true) "true".toList
  | false : Word (.bool false) "false".toList
  | number {n : Number} {cs : List Char} (h : NumberWord n cs) : Word (.number n) cs
  | string {pieces : List Piece} {cs : List Char} (h : StringBody pieces cs) :
    Word (.string (Piece.text pieces)) ('"' :: (cs ++ ['"']))

/--
The ways to write tokens one after the other, with blanks around them. What follows a number must
not look like a part of it.
-/
inductive Spells : List Token → List Char → Prop where
  | nil {blanks : List Char} (hblanks : ∀ c ∈ blanks, isBlank c = true) : Spells [] blanks
  | cons {token : Token} {tokens : List Token} {blanks word rest : List Char}
    (hblanks : ∀ c ∈ blanks, isBlank c = true) (hword : Word token word)
    (hends : ∀ n, token = .number n → Ends rest) (hrest : Spells tokens rest) :
    Spells (token :: tokens) (blanks ++ (word ++ rest))

theorem word_number {n : Number} (h : n.Legal) : Word (.number n) n.chars :=
  .number (numberWord_chars h)

theorem word_string (s : String) : Word (.string (.plain s)) (stringChars s) := by
  rw [← text_map_pieceOf]
  exact .string (stringBody_bodyChars s.toList)

theorem Spells.blanks {front : List Char} (h : Spells tokens cs)
    (hfront : ∀ c ∈ front, isBlank c = true) : Spells tokens (front ++ cs) := by
  cases h with
  | nil hblanks =>
    apply Spells.nil
    intro c hc
    exact (List.mem_append.mp hc).elim (hfront c) (hblanks c)
  | cons hblanks hword hends hrest =>
    rw [← List.append_assoc]
    apply Spells.cons _ hword hends hrest
    intro c hc
    exact (List.mem_append.mp hc).elim (hfront c) (hblanks c)

theorem Spells.word (h : Spells tokens rest) (hword : Word t cs)
    (hends : ∀ n, t = .number n → Ends rest) : Spells (t :: tokens) (cs ++ rest) := by
  have hblanks : ∀ c ∈ [], isBlank c = true := by simp
  exact .cons hblanks hword hends h

/-- A token of one character is not a number. -/
theorem Spells.mark {c : Char} (h : Spells tokens rest) (hword : Word t [c])
    (ht : ∀ n, t ≠ .number n) : Spells (t :: tokens) (c :: rest) :=
  h.word hword fun n hn => absurd hn (ht n)

theorem all?_word (h : Word t cs) (hrest : ∀ n, t = .number n → Ends rest) :
    all? (cs ++ rest) = (all? rest).map (t :: ·) := by
  cases h with
  | openBrace => exact all?_openBrace rest
  | closeBrace => exact all?_closeBrace rest
  | openBracket => exact all?_openBracket rest
  | closeBracket => exact all?_closeBracket rest
  | colon => exact all?_colon rest
  | comma => exact all?_comma rest
  | null => exact all?_null rest
  | true => exact all?_true rest
  | false => exact all?_false rest
  | number h => exact all?_numberWord h (hrest _ rfl)
  | string h => exact all?_body h rest

/-- The tokens of a text are the ones that it spells. -/
theorem all?_spells (h : Spells tokens cs) : all? cs = some tokens := by
  induction h with
  | @nil blanks hblanks =>
    rw [← List.append_nil blanks, all?_blanks hblanks, all?_nil]
  | cons hblanks hword hends _ ih =>
    rw [all?_blanks hblanks, all?_word hword hends, ih]
    rfl

end Texts

end Token

end Upvalue.Json

import Upvalue.Proofs.Ty.Same

/-!
This module contains the proof that the text of a type tells the type. The marks between the names
say where a list ends and whether a list in parentheses belongs to the parameters of a function, so
types with the same text are equal. Names must not contain marks for this, and records must not be
named like primitive types.
-/

namespace Upvalue.Ty

/-- Characters that stand between names in the text of a type. -/
def isMark (c : Char) : Bool :=
  c ∈ [' ', ',', ':', '(', ')', '\x7b', '\x7d']

/-- A name that has no marks, for example one that is made of letters, digits, `_` and `$`. -/
structure IsWord (name : String) : Prop where
  ne_empty : name ≠ ""
  isMark_eq_false : ∀ c ∈ name.toList, isMark c = false

/-- The texts of the types that have no parts. -/
def primitives : List String :=
  ["any", "nil", "boolean", "integer", "float", "string"]

mutual

/--
All names in the text of a type are words, and no record is named like a primitive type. The fields
of records do not count, since they are not a part of the text.
-/
def Worded : Ty → Prop
  | .function params returns => WordedList params ∧ WordedList returns
  | .array element => Worded element
  | .table fields => WordedFields fields
  | .record name _ _ => IsWord name ∧ name ∉ primitives
  | _ => True

def WordedList : List Ty → Prop
  | [] => True
  | ty :: tys => Worded ty ∧ WordedList tys

def WordedFields : List (String × Ty) → Prop
  | [] => True
  | (name, ty) :: fields => IsWord name ∧ Worded ty ∧ WordedFields fields

end

/-! ### Characters -/

def chars (ty : Ty) : List Char :=
  (text ty).toList

/-- The characters of a field of a table. -/
def fieldChars (field : String × Ty) : List Char :=
  field.1.toList ++ ':' :: ' ' :: chars field.2

/-- The characters of some items with commas between them. -/
def joined (spell : α → List Char) : List α → List Char
  | [] => []
  | a :: as => spell a ++ as.flatMap fun a => ',' :: ' ' :: spell a

/-- The characters of what a function returns. -/
def returnChars : List Ty → List Char
  | [ret] => chars ret
  | returns => '(' :: (joined chars returns ++ [')'])

section Characters

theorem toList_text (ty : Ty) : (text ty).toList = chars ty := rfl

theorem toList_textList (tys : List Ty) : (textList tys).toList = joined chars tys := by
  induction tys with
  | nil => rfl
  | cons ty tys ih =>
    cases tys with
    | nil => simp [textList, joined, chars]
    | cons ty' tys =>
      rw [textList, String.toList_append, String.toList_append, ih]
      . simp [joined, chars]
      . simp

theorem toList_textFields (fields : List (String × Ty)) :
    (textFields fields).toList = joined fieldChars fields := by
  induction fields with
  | nil => rfl
  | cons field fields ih =>
    rcases field with ⟨name, ty⟩
    cases fields with
    | nil => simp [textFields, joined, fieldChars, chars]
    | cons field fields =>
      rw [textFields]
      . simp [ih, joined, fieldChars, chars]
      . simp

theorem chars_function (params returns : List Ty) :
    chars (.function params returns) =
      '(' :: (joined chars params ++ ')' :: ' ' :: '-' :: '>' :: ' ' :: returnChars returns) := by
  rw [← toList_text]
  unfold returnChars
  split
  . simp [text, toList_textList, toList_text]
  . next hreturns =>
    rw [text]
    . simp [toList_textList]
    . exact hreturns

theorem chars_array (element : Ty) :
    chars (.array element) = '\x7b' :: ' ' :: (chars element ++ [' ', '\x7d']) := by
  simp [chars, text]

theorem chars_table (fields : List (String × Ty)) :
    chars (.table fields) = '\x7b' :: ' ' :: (joined fieldChars fields ++ [' ', '\x7d']) := by
  simp [chars, text, toList_textFields]

end Characters

/-! ### Where a text ends -/

/-- What may follow the text of a type: nothing, a further item, or the end of a list. -/
inductive Ends : List Char → Prop where
  | nil : Ends []
  | comma (rest : List Char) : Ends (',' :: rest)
  | parenthesis (rest : List Char) : Ends (')' :: rest)
  | brace (rest : List Char) : Ends (' ' :: '\x7d' :: rest)

/-- A text starts with a mark, unless it is empty. -/
def StartsWithMark (cs : List Char) : Prop :=
  ∀ c, cs.head? = some c → isMark c = true

section Words

variable {name name' : String} {c : Char} {cs rest rest' : List Char}

theorem Ends.startsWithMark (h : Ends rest) : StartsWithMark rest := by
  intro c hc
  cases h <;> cases hc <;> rfl

theorem IsWord.takeWhile_append (h : IsWord name) (hrest : StartsWithMark rest) :
    (name.toList ++ rest).takeWhile (fun c => !isMark c) = name.toList := by
  rw [List.takeWhile_append_of_pos]
  . cases rest with
    | nil => simp
    | cons c rest => simp [hrest c rfl]
  . intro c hc
    rw [h.isMark_eq_false c hc]
    rfl

/-- A word ends before the first mark. -/
theorem IsWord.append_inj (h : IsWord name) (h' : IsWord name') (hrest : StartsWithMark rest)
    (hrest' : StartsWithMark rest') (heq : name.toList ++ rest = name'.toList ++ rest') :
    name = name' ∧ rest = rest' := by
  have hname : name.toList = name'.toList := by
    rw [← h.takeWhile_append hrest, heq, h'.takeWhile_append hrest']
  refine ⟨String.toList_inj.mp hname, ?_⟩
  rw [hname] at heq
  exact List.append_cancel_left heq

theorem IsWord.exists_cons (h : IsWord name) :
    ∃ c cs, name.toList = c :: cs ∧ isMark c = false := by
  cases hname : name.toList with
  | nil => exact absurd (String.toList_eq_nil_iff.mp hname) h.ne_empty
  | cons c cs =>
    refine ⟨c, cs, rfl, h.isMark_eq_false c ?_⟩
    rw [hname]
    exact List.mem_cons_self

/-- A word does not start with a mark. -/
theorem IsWord.append_ne_cons (h : IsWord name) (hc : isMark c = true) :
    name.toList ++ rest ≠ c :: cs := by
  rcases h.exists_cons with ⟨c', cs', hname, hc'⟩
  rw [hname, List.cons_append]
  intro heq
  cases heq
  rw [hc] at hc'
  cases hc'

/-- Names of letters, digits, `_` and `$` are words. -/
theorem isWord_of_alphanum (hne : name ≠ "")
    (h : name.toList.all (fun c => c.isAlphanum || c == '_' || c == '$') = true) :
    IsWord name where
  ne_empty := hne
  isMark_eq_false c hc := by
    rw [← Bool.not_eq_true]
    intro hmark
    simp only [isMark, List.mem_cons, List.not_mem_nil, or_false, decide_eq_true_eq] at hmark
    have hc := List.all_eq_true.mp h c hc
    rcases hmark with rfl | rfl | rfl | rfl | rfl | rfl | rfl <;> cases hc

end Words

/-! ### Types that are words -/

/-- The text of a type without parts. -/
def word? : Ty → Option String
  | .function .. | .array _ | .table _ => none
  | ty => some (text ty)

section Leaves

variable {ty ty' : Ty} {name : String}

theorem chars_of_word? (h : word? ty = some name) : chars ty = name.toList := by
  cases ty <;> cases h <;> rfl

theorem isWord_of_word? (h : word? ty = some name) (hworded : ty.Worded) : IsWord name := by
  cases ty with
  | function params returns => cases h
  | array element => cases h
  | table fields => cases h
  | record name fields isBox =>
    cases h
    exact hworded.1
  | _ =>
    cases h
    exact isWord_of_alphanum (by decide) rfl

/-- A word that is the text of a type tells it, because records are not named like other types. -/
theorem nominal_eq_of_word? (h : word? ty = some name) (h' : word? ty' = some name)
    (hworded : ty.Worded) (hworded' : ty'.Worded) : nominal ty = nominal ty' := by
  cases ty <;> cases h <;> cases ty' <;>
    simp_all [word?, text, nominal, Worded, primitives]

theorem startsWithMark_of_word? (h : word? ty = none) : ∃ c cs, chars ty = c :: cs ∧
    isMark c = true ∧ c ≠ ' ' ∧ c ≠ ')' := by
  cases ty with
  | function params returns => exact ⟨'(', _, chars_function params returns, by decide⟩
  | array element => exact ⟨'\x7b', _, chars_array element, by decide⟩
  | table fields => exact ⟨'\x7b', _, chars_table fields, by decide⟩
  | _ => cases h

end Leaves

/-! ### Texts that tell what they are -/

/--
The text of a part can be told from the texts of all other `Good` parts, whatever follows them. What
is told of a part is its `view`.
-/
def Told (spell : α → List Char) (view : α → β) (Good : α → Prop) (a : α) : Prop :=
  ∀ a' rest rest', Good a' → Ends rest → Ends rest' → spell a ++ rest = spell a' ++ rest' →
    view a = view a' ∧ rest = rest'

section Lists

variable {α β : Type} {spell : α → List Char} {view : α → β} {Good : α → Prop} {as as' : List α}
variable {c : Char} {rest rest' : List Char}

theorem ends_flatMap (as : List α) (h : Ends rest) :
    Ends (as.flatMap (fun a => ',' :: ' ' :: spell a) ++ rest) := by
  cases as with
  | nil => exact h
  | cons a as => exact .comma _

theorem told_flatMap (h : ∀ a ∈ as, Told spell view Good a) (hgood : ∀ a ∈ as', Good a)
    (hends : Ends (c :: rest)) (hends' : Ends (c :: rest')) (hc : c ≠ ',')
    (heq : as.flatMap (fun a => ',' :: ' ' :: spell a) ++ c :: rest =
      as'.flatMap (fun a => ',' :: ' ' :: spell a) ++ c :: rest') :
    as.map view = as'.map view ∧ rest = rest' := by
  induction as generalizing as' with
  | nil =>
    cases as' with
    | nil => exact ⟨rfl, (List.cons.inj heq).2⟩
    | cons a' as' => exact absurd (List.cons.inj heq).1 hc
  | cons a as ih =>
    cases as' with
    | nil => exact absurd (List.cons.inj heq).1.symm hc
    | cons a' as' =>
      rw [List.forall_mem_cons] at h hgood
      simp only [List.flatMap_cons, List.cons_append, List.append_assoc, List.cons.injEq,
        true_and] at heq
      rcases h.1 a' _ _ hgood.1 (ends_flatMap as hends) (ends_flatMap as' hends') heq with
        ⟨hview, hrest⟩
      rcases ih h.2 hgood.2 hrest with ⟨hviews, hrest⟩
      rw [List.map_cons, List.map_cons, hview, hviews]
      exact ⟨rfl, hrest⟩

/-- A list is told up to the mark behind it, which no part starts with. -/
theorem told_joined (h : ∀ a ∈ as, Told spell view Good a) (hself : ∀ a ∈ as, Good a)
    (hgood : ∀ a ∈ as', Good a) (hstart : ∀ a, Good a → ∃ d cs, spell a = d :: cs ∧ d ≠ c)
    (hends : Ends (c :: rest)) (hends' : Ends (c :: rest')) (hc : c ≠ ',')
    (heq : joined spell as ++ c :: rest = joined spell as' ++ c :: rest') :
    as.map view = as'.map view ∧ rest = rest' := by
  have hne (a : α) (as : List α) (ha : Good a) (rest rest' : List Char) :
      joined spell (a :: as) ++ rest ≠ c :: rest' := by
    rcases hstart a ha with ⟨d, cs, hspell, hd⟩
    rw [joined, hspell]
    intro heq
    exact hd (List.cons.inj heq).1
  cases as with
  | nil =>
    cases as' with
    | nil => exact ⟨rfl, (List.cons.inj heq).2⟩
    | cons a' as' => exact absurd heq.symm (hne a' as' (hgood a' List.mem_cons_self) _ _)
  | cons a as =>
    cases as' with
    | nil => exact absurd heq (hne a as (hself a List.mem_cons_self) _ _)
    | cons a' as' =>
      rw [List.forall_mem_cons] at h hgood
      rw [joined, joined, List.append_assoc, List.append_assoc] at heq
      rcases h.1 a' _ _ hgood.1 (ends_flatMap as hends) (ends_flatMap as' hends') heq with
        ⟨hview, hrest⟩
      rcases told_flatMap h.2 hgood.2 hends hends' hc hrest with ⟨hviews, hrest⟩
      rw [List.map_cons, List.map_cons, hview, hviews]
      exact ⟨rfl, hrest⟩

end Lists

/-! ### Types -/

section Parts

variable {ty ty' : Ty} {name : String} {tys : List Ty} {fields : List (String × Ty)}

theorem wordedList_iff : WordedList tys ↔ ∀ ty ∈ tys, Worded ty := by
  induction tys with
  | nil => simp [WordedList]
  | cons ty tys ih => rw [WordedList, ih, List.forall_mem_cons]

/-- A field of a table with a name that is a word. -/
def WordedField (field : String × Ty) : Prop :=
  IsWord field.1 ∧ Worded field.2

theorem wordedFields_iff : WordedFields fields ↔ ∀ field ∈ fields, WordedField field := by
  induction fields with
  | nil => simp [WordedFields]
  | cons field fields ih =>
    rw [WordedFields, ih, List.forall_mem_cons, WordedField, and_assoc]

theorem nominalList_eq (tys : List Ty) : nominalList tys = tys.map nominal := by
  induction tys with
  | nil => rfl
  | cons ty tys ih => rw [nominalList, ih, List.map_cons]

def nominalField (field : String × Ty) : String × Ty :=
  (field.1, nominal field.2)

theorem nominalFields_eq (fields : List (String × Ty)) :
    nominalFields fields = fields.map nominalField := by
  induction fields with
  | nil => rfl
  | cons field fields ih => rw [nominalFields, ih, List.map_cons, nominalField]

theorem word_ne_cons {c : Char} {cs rest : List Char} (h : word? ty = some name)
    (hworded : ty.Worded) (hc : isMark c = true) : chars ty ++ rest ≠ c :: cs := by
  rw [chars_of_word? h]
  exact (isWord_of_word? h hworded).append_ne_cons hc

/-- The text of a type does not start with what may stand behind a text, but for commas. -/
theorem exists_chars_cons (hworded : ty.Worded) :
    ∃ c cs, chars ty = c :: cs ∧ c ≠ ' ' ∧ c ≠ ')' := by
  cases hword : word? ty with
  | none =>
    rcases startsWithMark_of_word? hword with ⟨c, cs, hchars, -, hc⟩
    exact ⟨c, cs, hchars, hc⟩
  | some name =>
    rcases (isWord_of_word? hword hworded).exists_cons with ⟨c, cs, hname, hc⟩
    refine ⟨c, cs, ?_, ?_, ?_⟩
    . rw [chars_of_word? hword, hname]
    . rintro rfl
      cases hc
    . rintro rfl
      cases hc

theorem exists_fieldChars_cons {field : String × Ty} (hworded : WordedField field) :
    ∃ c cs, fieldChars field = c :: cs ∧ c ≠ ' ' := by
  rcases hworded.1.exists_cons with ⟨c, cs, hname, hc⟩
  refine ⟨c, _, by rw [fieldChars, hname, List.cons_append], ?_⟩
  rintro rfl
  cases hc

end Parts

/-- The text of a type tells the type, and if it is a function those of its parameters do, too. -/
structure Unambiguous (ty : Ty) : Prop where
  told : Told chars nominal Worded ty
  params : ∀ params returns, ty = .function params returns →
    ∀ param ∈ params, Told chars nominal Worded param

section Constructors

variable {ty ret element : Ty} {tys tys' params returns returns' : List Ty} {name : String}
variable {fields : List (String × Ty)} {rest rest' : List Char}

theorem unambiguous_word (h : word? ty = some name) (hworded : ty.Worded) : Unambiguous ty where
  told := by
    intro ty' rest rest' hworded' hrest hrest' heq
    cases h' : word? ty' with
    | none =>
      rcases startsWithMark_of_word? h' with ⟨c, cs, hchars, hc, -⟩
      rw [hchars] at heq
      exact absurd heq (word_ne_cons h hworded hc)
    | some name' =>
      rw [chars_of_word? h, chars_of_word? h'] at heq
      rcases (isWord_of_word? h hworded).append_inj (isWord_of_word? h' hworded')
        hrest.startsWithMark hrest'.startsWithMark heq with ⟨rfl, hrest⟩
      exact ⟨nominal_eq_of_word? h h' hworded hworded', hrest⟩
  params := by
    rintro params returns rfl
    cases h

/-- A list of types in parentheses is told. -/
theorem told_parentheses (h : ∀ ty ∈ tys, Told chars nominal Worded ty)
    (hworded : ∀ ty ∈ tys, Worded ty) (hworded' : ∀ ty ∈ tys', Worded ty)
    (heq : joined chars tys ++ ')' :: rest = joined chars tys' ++ ')' :: rest') :
    tys.map nominal = tys'.map nominal ∧ rest = rest' := by
  apply told_joined h hworded hworded' _ (.parenthesis _) (.parenthesis _) (by decide) heq
  intro ty hty
  rcases exists_chars_cons hty with ⟨c, cs, hchars, -, hc⟩
  exact ⟨c, cs, hchars, hc⟩

theorem returnChars_cases (returns : List Ty) :
    (∃ ret, returns = [ret] ∧ returnChars returns = chars ret) ∨
      returnChars returns = '(' :: (joined chars returns ++ [')']) := by
  unfold returnChars
  split
  . next ret => exact .inl ⟨ret, rfl, rfl⟩
  . exact .inr rfl

/-- Only the text of a function starts with a parenthesis. -/
theorem chars_ne_function {cs : List Char} (hty : ∀ params returns, ty ≠ .function params returns)
    (hworded : ty.Worded) : chars ty ++ rest ≠ '(' :: cs := by
  intro heq
  cases ty with
  | function params returns => exact hty params returns rfl
  | array element =>
    rw [chars_array] at heq
    cases heq
  | table fields =>
    rw [chars_table] at heq
    cases heq
  | _ => exact word_ne_cons rfl hworded rfl heq

/--
A single type is no list in parentheses, since the parameters of a function have an arrow behind
them.
-/
theorem chars_ne_parentheses (hworded : ret.Worded) (hrest : Ends rest')
    (hparams : ∀ params returns, ret = .function params returns → ∀ after,
      joined chars params ++ ')' :: after = joined chars tys ++ ')' :: rest' → after = rest') :
    chars ret ++ rest ≠ '(' :: (joined chars tys ++ ')' :: rest') := by
  intro heq
  cases ret with
  | function params returns =>
    rw [chars_function, List.cons_append, List.append_assoc, List.cons.injEq] at heq
    have harrow := hparams params returns rfl _ heq.2
    rw [← harrow] at hrest
    cases hrest
  | _ => exact absurd heq (chars_ne_function nofun hworded)

/-- What a function returns is told. -/
theorem told_returns (h : ∀ ret ∈ returns, Unambiguous ret) (hworded : ∀ ret ∈ returns, Worded ret)
    (hworded' : ∀ ret ∈ returns', Worded ret) (hrest : Ends rest) (hrest' : Ends rest')
    (heq : returnChars returns ++ rest = returnChars returns' ++ rest') :
    returns.map nominal = returns'.map nominal ∧ rest = rest' := by
  have htold (ret : Ty) (hret : ret ∈ returns) := (h ret hret).told
  rcases returnChars_cases returns with ⟨ret, rfl, hone⟩ | hmany <;>
    rcases returnChars_cases returns' with ⟨ret', rfl, hone'⟩ | hmany'
  . rw [hone, hone'] at heq
    rw [List.forall_mem_singleton] at htold hworded hworded'
    rcases htold ret' rest rest' hworded' hrest hrest' heq with ⟨hview, hrest⟩
    rw [List.map_singleton, List.map_singleton, hview]
    exact ⟨rfl, hrest⟩
  . rw [hone, hmany', List.cons_append, List.append_assoc] at heq
    rw [List.forall_mem_singleton] at h hworded
    apply absurd heq (chars_ne_parentheses hworded hrest' _)
    rintro params returns rfl after hafter
    rw [Worded, wordedList_iff] at hworded
    exact (told_parentheses (h.params params returns rfl) hworded.1 hworded' hafter).2
  . rw [hmany, hone', List.cons_append, List.append_assoc] at heq
    rw [List.forall_mem_singleton] at hworded'
    apply absurd heq.symm (chars_ne_parentheses hworded' hrest _)
    rintro params' returns' rfl after hafter
    rw [Worded, wordedList_iff] at hworded'
    exact (told_parentheses htold hworded hworded'.1 hafter.symm).2.symm
  . rw [hmany, hmany', List.cons_append, List.cons_append, List.append_assoc, List.append_assoc,
      List.cons.injEq] at heq
    exact told_parentheses htold hworded hworded' heq.2

theorem unambiguous_function (hparams : ∀ param ∈ params, Unambiguous param)
    (hreturns : ∀ ret ∈ returns, Unambiguous ret) (hworded : (function params returns).Worded) :
    Unambiguous (.function params returns) where
  told := by
    intro ty' rest rest' hworded' hrest hrest' heq
    rw [chars_function] at heq
    cases ty' with
    | function params' returns' =>
      rw [Worded, wordedList_iff, wordedList_iff] at hworded hworded'
      rw [chars_function] at heq
      simp only [List.cons_append, List.append_assoc, List.cons.injEq, true_and] at heq
      have htold (param : Ty) (hparam : param ∈ params) := (hparams param hparam).told
      rcases told_parentheses htold hworded.1 hworded'.1 heq with ⟨hviews, heq⟩
      simp only [List.cons.injEq, true_and] at heq
      rcases told_returns hreturns hworded.2 hworded'.2 hrest hrest' heq with ⟨hviews', hrest⟩
      rw [nominal, nominal, nominalList_eq, nominalList_eq, nominalList_eq, nominalList_eq, hviews,
        hviews']
      exact ⟨rfl, hrest⟩
    | _ => exact absurd heq.symm (chars_ne_function nofun hworded')
  params := by
    intro params' returns' heq param hparam
    cases heq
    exact (hparams param hparam).told

/-- An array is no table: behind its brace there is a type, and behind that the other brace. -/
theorem array_ne_table (helement : element.Worded) (hfields : ∀ field ∈ fields, WordedField field)
    (rest rest' : List Char) :
    chars (.array element) ++ rest ≠ chars (.table fields) ++ rest' := by
  rw [chars_array, chars_table]
  intro heq
  simp only [List.cons_append, List.append_assoc, List.cons.injEq, true_and] at heq
  cases fields with
  | nil =>
    rcases exists_chars_cons helement with ⟨c, cs, hchars, hc, -⟩
    rw [hchars] at heq
    exact hc (List.cons.inj heq).1
  | cons field fields =>
    rw [List.forall_mem_cons] at hfields
    rw [joined, fieldChars, List.append_assoc, List.append_assoc] at heq
    cases hword : word? element with
    | none =>
      rcases startsWithMark_of_word? hword with ⟨c, cs, hchars, hc, -⟩
      rw [hchars] at heq
      exact hfields.1.1.append_ne_cons hc heq.symm
    | some name =>
      rw [chars_of_word? hword] at heq
      have hsplit := (isWord_of_word? hword helement).append_inj hfields.1.1
        (Ends.brace _).startsWithMark (by rintro c ⟨⟩; rfl) heq
      cases hsplit.2

theorem unambiguous_array (h : Unambiguous element) (hworded : element.Worded) :
    Unambiguous (.array element) where
  told := by
    intro ty' rest rest' hworded' hrest hrest' heq
    cases ty' with
    | array element' =>
      rw [chars_array, chars_array] at heq
      simp only [List.cons_append, List.append_assoc, List.cons.injEq, true_and] at heq
      rcases h.told element' _ _ hworded' (.brace rest) (.brace rest') heq with ⟨hview, hrest⟩
      simp only [List.cons.injEq, true_and] at hrest
      rw [nominal, nominal, hview]
      exact ⟨rfl, hrest⟩
    | table fields =>
      rw [Worded, wordedFields_iff] at hworded'
      exact absurd heq (array_ne_table hworded hworded' rest rest')
    | function params returns =>
      rw [chars_array, chars_function] at heq
      cases heq
    | _ =>
      rw [chars_array] at heq
      exact absurd heq.symm (word_ne_cons rfl hworded' rfl)
  params := nofun

/-- The name of a field ends with a colon. -/
theorem told_field {field : String × Ty} (h : Unambiguous field.2) (hworded : IsWord field.1) :
    Told fieldChars nominalField WordedField field := by
  intro field' rest rest' hworded' hrest hrest' heq
  simp only [fieldChars, List.append_assoc, List.cons_append] at heq
  have hcolon (cs : List Char) : StartsWithMark (':' :: cs) := by
    rintro c ⟨⟩
    rfl
  rcases hworded.append_inj hworded'.1 (hcolon _) (hcolon _) heq with ⟨hname, heq⟩
  simp only [List.cons.injEq, true_and] at heq
  rcases h.told field'.2 rest rest' hworded'.2 hrest hrest' heq with ⟨hview, hrest⟩
  rw [nominalField, nominalField, hname, hview]
  exact ⟨rfl, hrest⟩

theorem unambiguous_table (h : ∀ field ∈ fields, Unambiguous field.2)
    (hworded : ∀ field ∈ fields, WordedField field) : Unambiguous (.table fields) where
  told := by
    intro ty' rest rest' hworded' hrest hrest' heq
    cases ty' with
    | array element =>
      have helement : element.Worded := hworded'
      exact absurd heq.symm (array_ne_table helement hworded rest' rest)
    | table fields' =>
      rw [Worded, wordedFields_iff] at hworded'
      rw [chars_table, chars_table] at heq
      simp only [List.cons_append, List.append_assoc, List.nil_append, List.cons.injEq,
        true_and] at heq
      have htold (field : String × Ty) (hfield : field ∈ fields) :=
        told_field (h field hfield) (hworded field hfield).1
      rcases told_joined htold hworded hworded' (fun _ => exists_fieldChars_cons) (.brace rest)
        (.brace rest') (by decide) heq with ⟨hviews, hrest⟩
      rw [nominal, nominal, nominalFields_eq, nominalFields_eq, hviews]
      exact ⟨rfl, (List.cons.inj hrest).2⟩
    | function params returns =>
      rw [chars_table, chars_function] at heq
      cases heq
    | _ =>
      rw [chars_table] at heq
      exact absurd heq.symm (word_ne_cons rfl hworded' rfl)
  params := nofun

end Constructors

mutual

theorem unambiguous : ∀ ty : Ty, ty.Worded → Unambiguous ty
  | .function params returns, h =>
    unambiguous_function (unambiguousList params h.1) (unambiguousList returns h.2) h
  | .array element, h => unambiguous_array (unambiguous element h) h
  | .table fields, h =>
    unambiguous_table (unambiguousFields fields h) (wordedFields_iff.mp h)
  | .any, h | .nil, h | .boolean, h | .integer, h | .float, h | .string, h | .record .., h =>
    unambiguous_word rfl h

theorem unambiguousList : ∀ tys : List Ty, WordedList tys → ∀ ty ∈ tys, Unambiguous ty
  | [], _ => by simp
  | ty :: tys, h => List.forall_mem_cons.mpr ⟨unambiguous ty h.1, unambiguousList tys h.2⟩

theorem unambiguousFields : ∀ fields : List (String × Ty), WordedFields fields →
    ∀ field ∈ fields, Unambiguous field.2
  | [], _ => by simp
  | (_, ty) :: fields, h =>
    List.forall_mem_cons.mpr ⟨unambiguous ty h.2.1, unambiguousFields fields h.2.2⟩

end

/-! ### Texts of equal types -/

theorem joined_map {α : Type} {spell : α → List Char} {view : α → α} {as : List α}
    (h : ∀ a ∈ as, spell (view a) = spell a) : joined spell (as.map view) = joined spell as := by
  cases as with
  | nil => rfl
  | cons a as =>
    rw [List.forall_mem_cons] at h
    have htail : as.flatMap (fun a => ',' :: ' ' :: spell (view a)) =
        as.flatMap fun a => ',' :: ' ' :: spell a := by
      rw [List.flatMap_def, List.flatMap_def, List.map_congr_left]
      intro a ha
      rw [h.2 a ha]
    rw [List.map_cons, joined, joined, h.1, List.flatMap_map, htail]

theorem returnChars_map {returns : List Ty} (h : ∀ ret ∈ returns, chars (nominal ret) = chars ret) :
    returnChars (returns.map nominal) = returnChars returns := by
  have hjoined := joined_map h
  cases returns with
  | nil => rfl
  | cons ret returns =>
    cases returns with
    | nil => exact h ret List.mem_cons_self
    | cons ret' returns =>
      change '(' :: (joined chars ((ret :: ret' :: returns).map nominal) ++ [')']) =
        '(' :: (joined chars (ret :: ret' :: returns) ++ [')'])
      rw [hjoined]

mutual

/-- The text of a type does not say what its records have inside. -/
theorem chars_nominal : ∀ ty : Ty, chars (nominal ty) = chars ty
  | .function params returns => by
    rw [nominal, chars_function, chars_function, nominalList_eq, nominalList_eq,
      joined_map (charsList_nominal params), returnChars_map (charsList_nominal returns)]
  | .array element => by
    rw [nominal, chars_array, chars_array, chars_nominal element]
  | .table fields => by
    rw [nominal, chars_table, chars_table, nominalFields_eq, joined_map]
    intro field hfield
    rw [fieldChars, nominalField, charsFields_nominal fields field hfield, fieldChars]
  | .any | .nil | .boolean | .integer | .float | .string | .record .. => rfl

theorem charsList_nominal : ∀ tys : List Ty, ∀ ty ∈ tys, chars (nominal ty) = chars ty
  | [] => by simp
  | ty :: tys => List.forall_mem_cons.mpr ⟨chars_nominal ty, charsList_nominal tys⟩

theorem charsFields_nominal : ∀ fields : List (String × Ty), ∀ field ∈ fields,
    chars (nominal field.2) = chars field.2
  | [] => by simp
  | (_, ty) :: fields => List.forall_mem_cons.mpr ⟨chars_nominal ty, charsFields_nominal fields⟩

end

/--
Types that are equal have the same text, and types with the same text are equal if their names are
words and no record is named like a primitive type.
-/
theorem text_tells (ty ty' : Ty) : (ty.same ty' = true → ty.text = ty'.text) ∧
    (ty.Worded → ty'.Worded → ty.text = ty'.text → ty.same ty' = true) := by
  rw [same_iff, ← String.toList_inj, toList_text, toList_text]
  constructor
  . intro h
    rw [← chars_nominal ty, ← chars_nominal ty', h]
  . intro hworded hworded' heq
    apply And.left
    apply (unambiguous ty hworded).told ty' [] [] hworded' .nil .nil
    rw [heq]

/-- A function that returns a function and one that returns a table, with records inside. -/
def plotter (point : Ty) : Ty :=
  .function [.array point] [.function [] [.table [("at", point), ("any", .table [])], .any]]

/-- Only the fields of the records are different, which is not a part of the text. -/
theorem text_tells_plotter :
    (plotter (.record "Point_2" [("x", .float)] false)).Worded ∧
      (plotter (.record "Point_2" [] false)).Worded ∧
      (plotter (.record "Point_2" [("x", .float)] false)).text =
        "(\x7b Point_2 \x7d) -> () -> (\x7b at: Point_2, any: \x7b  \x7d \x7d, any)" ∧
      (plotter (.record "Point_2" [("x", .float)] false)).same
        (plotter (.record "Point_2" [] false)) = true := by
  have hpoint : IsWord "Point_2" := isWord_of_alphanum (by decide) rfl
  have hat : IsWord "at" := isWord_of_alphanum (by decide) rfl
  have hany : IsWord "any" := isWord_of_alphanum (by decide) rfl
  have hrecord : "Point_2" ∉ primitives := by decide
  have hworded (fields : List (String × Ty)) :
      (plotter (.record "Point_2" fields false)).Worded := by
    simp only [plotter, Worded, WordedList, WordedFields, and_true, true_and]
    exact ⟨⟨hpoint, hrecord⟩, hat, ⟨hpoint, hrecord⟩, hany⟩
  refine ⟨hworded _, hworded _, by decide +kernel, ?_⟩
  exact (text_tells _ _).2 (hworded _) (hworded _) (by decide +kernel)

end Upvalue.Ty

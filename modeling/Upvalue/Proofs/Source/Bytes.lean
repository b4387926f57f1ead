import Upvalue.Source.File

/-!
This module contains the bytes of texts. A newline is one byte and no other character has this byte
in its encoding, so that lines can be found in the bytes of a text too.
-/

namespace Upvalue.Source

/-- The bytes of the encoding of a text. -/
def bytes (text : String) : List UInt8 :=
  text.toUTF8.data.toList

/-- The byte of a newline. -/
def newline : UInt8 := 10

/-- The byte of a carriage return. -/
def carriageReturn : UInt8 := 13

/-- The encodings of characters, one behind the other. -/
def encode (cs : List Char) : List UInt8 :=
  cs.flatMap String.utf8EncodeChar

theorem bytes_ofList (cs : List Char) : bytes (String.ofList cs) = encode cs := by
  simp [bytes, encode, List.utf8Encode]

theorem bytes_eq (text : String) : bytes text = encode text.toList := by
  rw [← bytes_ofList, String.ofList_toList]

@[simp]
theorem encode_nil : encode [] = [] := rfl

@[simp]
theorem encode_cons (c : Char) (cs : List Char) :
    encode (c :: cs) = String.utf8EncodeChar c ++ encode cs := rfl

@[simp]
theorem encode_append (cs cs' : List Char) : encode (cs ++ cs') = encode cs ++ encode cs' := by
  simp [encode]

@[simp]
theorem length_encode (cs : List Char) : (encode cs).length = byteSize cs := by
  induction cs with
  | nil => rfl
  | cons c cs ih => simp [ih]

@[simp]
theorem utf8EncodeChar_newline : String.utf8EncodeChar '\n' = [newline] := rfl

@[simp]
theorem utf8EncodeChar_return : String.utf8EncodeChar '\r' = [carriageReturn] := rfl

/-- A byte below 128 in the encoding of a character is the number of this character. -/
theorem forall_mem_utf8EncodeChar (c : Char) :
    ∀ b ∈ String.utf8EncodeChar c, b.toNat < 128 → c.toNat = b.toNat := by
  have htoNat : c.val.toNat = c.toNat := rfl
  fun_cases String.utf8EncodeChar c with
  | case1 v hv =>
    simp only [List.forall_mem_singleton, UInt8.toNat_ofNat']
    omega
  -- The bytes of longer encodings have their highest bit set.
  | case2 v hv hv' =>
    simp only [List.forall_mem_cons, List.not_mem_nil, UInt8.toNat_ofNat', false_implies,
      implies_true, and_true]
    omega
  | case3 v hv hv' hv'' =>
    simp only [List.forall_mem_cons, List.not_mem_nil, UInt8.toNat_ofNat', false_implies,
      implies_true, and_true]
    omega
  | case4 v hv hv' hv'' =>
    simp only [List.forall_mem_cons, List.not_mem_nil, UInt8.toNat_ofNat', false_implies,
      implies_true, and_true]
    omega

theorem newline_mem_utf8EncodeChar_iff (c : Char) :
    newline ∈ String.utf8EncodeChar c ↔ c = '\n' := by
  constructor
  . intro h
    have hc := forall_mem_utf8EncodeChar c newline h (by decide)
    exact Char.toNat_inj.mp hc
  . rintro rfl
    exact List.mem_singleton.mpr rfl

theorem newline_mem_encode_iff (cs : List Char) : newline ∈ encode cs ↔ '\n' ∈ cs := by
  unfold encode
  rw [List.mem_flatMap]
  simp only [newline_mem_utf8EncodeChar_iff]
  constructor
  . rintro ⟨c, hc, rfl⟩
    exact hc
  . intro h
    exact ⟨'\n', h, rfl⟩

/-- The newlines of a text are those of its bytes. -/
theorem count_newline_encode (cs : List Char) : (encode cs).count newline = cs.count '\n' := by
  induction cs with
  | nil => rfl
  | cons c cs ih =>
    rw [encode_cons, List.count_append, ih]
    by_cases hc : c = '\n'
    . subst hc
      rw [List.count_cons_self, Nat.add_comm]
      rfl
    . have hbyte : newline ∉ String.utf8EncodeChar c := by
        rw [newline_mem_utf8EncodeChar_iff]
        exact hc
      rw [List.count_eq_zero_of_not_mem hbyte, List.count_cons_of_ne hc, Nat.zero_add]

end Upvalue.Source

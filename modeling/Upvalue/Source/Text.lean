/-!
This module contains texts as lists of characters. Positions in them count bytes, so that not every
number is a position: a part of a text can only be cut out between characters.
-/

namespace Upvalue.Source

/-- The number of bytes of a text. -/
def byteSize : List Char → Nat
  | [] => 0
  | c :: cs => c.utf8Size + byteSize cs

/-- What is left of a text behind its first bytes, if they are whole characters. -/
def dropBytes? : List Char → Nat → Option (List Char)
  | cs, 0 => some cs
  | [], _ + 1 => none
  | c :: cs, n + 1 => if c.utf8Size ≤ n + 1 then dropBytes? cs (n + 1 - c.utf8Size) else none

/-- The first bytes of a text, if they are whole characters. -/
def takeBytes? : List Char → Nat → Option (List Char)
  | _, 0 => some []
  | [], _ + 1 => none
  | c :: cs, n + 1 =>
    if c.utf8Size ≤ n + 1 then (takeBytes? cs (n + 1 - c.utf8Size)).map (c :: ·) else none

/--
The part of a text between two offsets. There is none if one of them lies inside of a character or
behind the end, or if they are in the wrong order.
-/
def slice? (cs : List Char) (start stop : Nat) : Option (List Char) :=
  if start ≤ stop then (dropBytes? cs start).bind (takeBytes? · (stop - start)) else none

/-- A text without the given characters at its end. -/
def trimEnd (c : Char) (cs : List Char) : List Char :=
  (cs.reverse.dropWhile (· == c)).reverse

/-- A line without newlines at its end, and without carriage returns before them. -/
def trimTerminator (line : List Char) : List Char :=
  trimEnd '\r' (trimEnd '\n' line)

@[simp]
theorem byteSize_nil : byteSize [] = 0 := rfl

@[simp]
theorem byteSize_cons (c : Char) (cs : List Char) :
    byteSize (c :: cs) = c.utf8Size + byteSize cs := rfl

@[simp]
theorem byteSize_append (cs cs' : List Char) :
    byteSize (cs ++ cs') = byteSize cs + byteSize cs' := by
  induction cs with
  | nil => simp
  | cons c cs ih => simp [ih, Nat.add_assoc]

theorem byteSize_pos {cs : List Char} (h : cs ≠ []) : 0 < byteSize cs := by
  cases cs with
  | nil => exact absurd rfl h
  | cons c cs =>
    have hsize := c.utf8Size_pos
    rw [byteSize_cons]
    omega

@[simp]
theorem byteSize_ofList (cs : List Char) : (String.ofList cs).utf8ByteSize = byteSize cs := by
  induction cs with
  | nil => rfl
  | cons c cs ih =>
    rw [← List.singleton_append, String.ofList_append, String.utf8ByteSize_append, ih,
      ← String.singleton_eq_ofList]
    simp

theorem byteSize_toList (text : String) : byteSize text.toList = text.utf8ByteSize := by
  rw [← byteSize_ofList, String.ofList_toList]

@[simp]
theorem dropBytes?_append (cs cs' : List Char) : dropBytes? (cs ++ cs') (byteSize cs) = some cs' := by
  induction cs with
  | nil =>
    unfold dropBytes?
    rfl
  | cons c cs ih =>
    have hsize := c.utf8Size_pos
    obtain ⟨n, hn⟩ : ∃ n, byteSize (c :: cs) = n + 1 :=
      Nat.exists_eq_add_one.mpr (byteSize_pos (List.cons_ne_nil c cs))
    rw [hn, List.cons_append, dropBytes?, ← hn, byteSize_cons]
    simp [ih]

@[simp]
theorem takeBytes?_append (cs cs' : List Char) : takeBytes? (cs ++ cs') (byteSize cs) = some cs := by
  induction cs with
  | nil =>
    unfold takeBytes?
    rfl
  | cons c cs ih =>
    obtain ⟨n, hn⟩ : ∃ n, byteSize (c :: cs) = n + 1 :=
      Nat.exists_eq_add_one.mpr (byteSize_pos (List.cons_ne_nil c cs))
    rw [hn, List.cons_append, takeBytes?, ← hn, byteSize_cons]
    simp [ih]

/-- A part of a text can be cut out where it starts and ends. -/
theorem slice?_append (before cs after : List Char) :
    slice? (before ++ cs ++ after) (byteSize before) (byteSize before + byteSize cs) = some cs := by
  simp [slice?, List.append_assoc]

/-- Nothing but the given characters is lost at the end of a text. -/
theorem exists_trimEnd_append (c : Char) (cs : List Char) :
    ∃ count, cs = trimEnd c cs ++ List.replicate count c := by
  unfold trimEnd
  refine ⟨(cs.reverse.takeWhile (· == c)).length, ?_⟩
  have hcut : cs.reverse.takeWhile (· == c)
      = List.replicate (cs.reverse.takeWhile (· == c)).length c := by
    apply List.eq_replicate_of_mem
    intro c' hc'
    have hall := List.all_eq_true.mp (List.all_takeWhile (p := (· == c)) (l := cs.reverse))
    simpa using hall c' hc'
  rw [← List.reverse_replicate, ← hcut, ← List.reverse_append, List.takeWhile_append_dropWhile,
    List.reverse_reverse]

theorem trimEnd_sublist (c : Char) (cs : List Char) : (trimEnd c cs).Sublist cs := by
  obtain ⟨count, hcount⟩ := exists_trimEnd_append c cs
  conv =>
    rhs
    rw [hcount]
  apply List.sublist_append_left

/-- All of them are lost. -/
theorem getLast?_trimEnd_ne (c : Char) (cs : List Char) : (trimEnd c cs).getLast? ≠ some c := by
  unfold trimEnd
  rw [List.getLast?_reverse]
  intro h
  have hne := List.head?_dropWhile_not (· == c) cs.reverse
  rw [h] at hne
  simp at hne

theorem trimEnd_concat (c : Char) (cs : List Char) : trimEnd c (cs ++ [c]) = trimEnd c cs := by
  simp [trimEnd]

theorem trimEnd_eq_self_iff {c : Char} {cs : List Char} :
    trimEnd c cs = cs ↔ cs.getLast? ≠ some c := by
  constructor
  . intro h
    rw [← h]
    exact getLast?_trimEnd_ne c cs
  . intro h
    obtain ⟨count, hcs⟩ := exists_trimEnd_append c cs
    cases count with
    | zero => simpa using hcs.symm
    | succ count =>
      rw [hcs, List.replicate_succ', ← List.append_assoc, List.getLast?_concat] at h
      exact absurd rfl h

theorem trimTerminator_of_not_mem {line : List Char} (h : '\n' ∉ line) :
    trimTerminator line = trimEnd '\r' line := by
  have hline : trimEnd '\n' line = line :=
    trimEnd_eq_self_iff.mpr fun hlast => h (List.mem_of_getLast? hlast)
  rw [trimTerminator, hline]

theorem trimTerminator_concat {line : List Char} (h : '\n' ∉ line) :
    trimTerminator (line ++ ['\n']) = trimEnd '\r' line := by
  rw [← trimTerminator_of_not_mem h, trimTerminator, trimEnd_concat, trimTerminator]

end Upvalue.Source

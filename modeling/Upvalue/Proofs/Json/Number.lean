import Mathlib.Tactic.IntervalCases
import Upvalue.Json.Basic
import Upvalue.Proofs.Json.Spelling

/-!
This module contains the proof that the numbers that are written are tokens, and that integers are
read back. Whether a floating point number is read back depends on the number.
-/

namespace Upvalue

/-! ### Shortest digits -/

namespace Decimal

theorem digits_go_ne_zero {fuel digits : Nat} {exponent : Int} (h : digits ≠ 0) :
    (normalize.go fuel digits exponent).digits ≠ 0 := by
  induction fuel generalizing digits exponent with
  | zero => exact h
  | succ fuel ih =>
    unfold normalize.go
    split
    . apply ih
      omega
    . exact h

theorem digits_normalize_ne_zero {d : Decimal} (h : d.digits ≠ 0) : d.normalize.digits ≠ 0 :=
  digits_go_ne_zero h

theorem digits_ne_zero_of_identifies {d : Decimal} {x : Binary64} (hx : x.magnitude ≠ 0)
    (h : d.identifies x = true) : d.digits ≠ 0 := by
  intro hdigits
  have hlt : x.magnitude < Nat.pow 2 63 := Nat.mod_lt _ (by decide)
  have hnum : d.num = 0 := by
    unfold num
    rw [hdigits, Nat.zero_mul]
  unfold identifies Binary64.nearest at h
  rw [if_pos hnum, beq_iff_eq] at h
  injection h with h
  unfold Binary64.zero Binary64.abs Binary64.ofMagnitude at h
  injection h with h
  replace h := congrArg UInt64.toNat h
  rw [Nat.mod_eq_of_lt hlt, UInt64.toNat_ofNat'] at h
  simp at h hlt
  omega

theorem digits_exact_ne_zero {x : Binary64} (hx : x.magnitude ≠ 0) : (exact x).digits ≠ 0 := by
  have hsignificand : x.significand ≠ 0 := by
    unfold Binary64.significand
    split
    . exact hx
    . simp
  unfold exact
  split
  . unfold Binary64.num
    simp [hsignificand]
  . simp [hsignificand]

end Decimal

theorem Binary64.digits_shortest_ne_zero {x : Binary64} (hx : x.magnitude ≠ 0) :
    x.shortest.digits ≠ 0 := by
  unfold shortest
  dsimp only
  split
  . next d hfind =>
    apply Decimal.digits_normalize_ne_zero
    have hd := List.find?_some hfind
    exact Decimal.digits_ne_zero_of_identifies hx hd
  . exact Decimal.digits_normalize_ne_zero (Decimal.digits_exact_ne_zero hx)

namespace Json.Number

/-! ### Tokens -/

theorem isDigit_of_mem_toDigits {n : Nat} {c : Char} (h : c ∈ Nat.toDigits 10 n) :
    c.isDigit = true :=
  Nat.isDigit_of_mem_toDigits (by decide) (by decide) h

/-- The digits of a positive number start with another digit than zero. -/
theorem head?_toDigits_ne {n : Nat} (h : n ≠ 0) : (Nat.toDigits 10 n).head? ≠ some '0' := by
  induction n using Nat.strongRecOn with
  | ind n ih =>
    rw [Nat.toDigits_eq_if (by decide)]
    split
    . interval_cases n <;> simp_all
    . rw [List.head?_append, List.head?_eq_some_head Nat.toDigits_ne_nil, Option.some_or,
        ← List.head?_eq_some_head Nat.toDigits_ne_nil]
      apply ih <;> omega

theorem toDigits_eq_zero_cons {n : Nat} {cs : List Char} (h : Nat.toDigits 10 n = '0' :: cs) :
    n = 0 := by
  by_contra hn
  apply head?_toDigits_ne hn
  rw [h]
  rfl

theorem legal_ofInt (i : Int) : (ofInt i).Legal where
  whole_ne_nil := Nat.toDigits_ne_nil
  whole _ h := isDigit_of_mem_toDigits h
  leading cs h := by
    have hzero := toDigits_eq_zero_cons h
    unfold ofInt at h
    dsimp only at h
    rw [hzero, Nat.toDigits_zero] at h
    injection h with _ h
    exact h.symm
  fraction _ h := by cases h
  exponent _ h := by cases h

theorem ofNat_eq (n : Nat) : ofNat n = ofInt n := by
  simp [ofNat, ofInt]

theorem legal_ofNat (n : Nat) : (ofNat n).Legal := by
  rw [ofNat_eq]
  exact legal_ofInt n

theorem legal_ofDecimal (layout : Layout) (negative : Bool) {d : Decimal} (h : d.digits ≠ 0) :
    (ofDecimal layout negative d).Legal := by
  have hdigits {c : Char} : c ∈ Nat.toDigits 10 d.digits → c.isDigit = true :=
    isDigit_of_mem_toDigits
  have hhead := head?_toDigits_ne h
  have hne : Nat.toDigits 10 d.digits ≠ [] := Nat.toDigits_ne_nil
  unfold ofDecimal
  generalize Nat.toDigits 10 d.digits = digits at hdigits hhead hne
  cases digits with
  | nil => exact absurd rfl hne
  | cons c digits =>
    have hc : c ≠ '0' := by
      rintro rfl
      exact hhead rfl
    dsimp only
    split
    . split
      . constructor
        . simp
        . intro c' hc'
          rw [List.mem_append, List.mem_replicate] at hc'
          rcases hc' with hc' | ⟨-, rfl⟩
          . exact hdigits hc'
          . rfl
        . intro cs heq
          injection heq with heq
          exact absurd heq hc
        . simp
        . simp
      . split
        . constructor
          . simp
          . intro c' hc'
            exact hdigits (List.mem_of_mem_take hc')
          . intro cs heq
            injection heq with heq
            exact absurd heq hc
          . intro c' hc'
            exact hdigits (List.mem_of_mem_drop hc')
          . simp
        . constructor
          . simp
          . simp
          . simp
          . intro c' hc'
            rw [List.mem_append, List.mem_replicate] at hc'
            rcases hc' with ⟨-, rfl⟩ | hc'
            . rfl
            . exact hdigits hc'
          . simp
    . constructor
      . simp
      . intro c' hc'
        exact hdigits (List.mem_of_mem_take hc')
      . simp
      . intro c' hc'
        exact hdigits (List.mem_of_mem_drop hc')
      . intro e he
        cases he
        exact ⟨Nat.toDigits_ne_nil, fun _ h => isDigit_of_mem_toDigits h⟩

theorem legal_ofBinary64? {x : Binary64} {n : Number} (h : ofBinary64? x = some n) : n.Legal := by
  unfold ofBinary64? at h
  split at h
  . cases h
  . split at h
    . cases h
      constructor <;> simp
    . next hx =>
      cases h
      exact legal_ofDecimal _ _ (Binary64.digits_shortest_ne_zero hx)

/-! ### Values -/

theorem toInt_ofInt (i : Int) : (ofInt i).toInt = i := by
  unfold toInt ofInt natOfDigits
  dsimp only
  rw [Nat.ofDigitChars_ten_toDigits]
  simp only [decide_eq_true_eq]
  split <;> omega

theorem value?_ofInt {i : Int} (hle : -Int.pow 2 63 ≤ i) (hlt : i < Int.pow 2 64) :
    (ofInt i).value? = some (.integer i) := by
  have hsign : (decide (i < 0) && i == 0) = false := by
    simp
    omega
  unfold value?
  rw [toInt_ofInt, if_pos]
  simp only [isPlain, ofInt, hsign, hle, hlt]
  rfl

end Json.Number

/-! ### Finite numbers -/

namespace Binary64

variable {x y : Binary64}

theorem magnitude_ofMagnitude (negative : Bool) {m : Nat} (h : m < Nat.pow 2 63) :
    (ofMagnitude negative m).magnitude = m := by
  unfold magnitude ofMagnitude
  rw [UInt64.toNat_ofNat', Nat.mod_eq_of_lt h]
  simp at h ⊢
  split <;> omega

theorem isFinite_of_nearest {a b : Nat} (h : nearest a b = some x) : x.isFinite = true := by
  unfold nearest at h
  split at h
  . cases h
    decide
  . dsimp only at h
    split at h
    . next hlt =>
      cases h
      unfold isFinite
      rw [magnitude_ofMagnitude false (Nat.lt_trans hlt (by decide))]
      exact decide_eq_true hlt
    . cases h

theorem isFinite_neg (h : x.isFinite = true) : x.neg.isFinite = true := by
  have hmagnitude : x.neg.magnitude = x.magnitude :=
    magnitude_ofMagnitude _ (Nat.mod_lt _ (by decide))
  unfold isFinite at h ⊢
  rwa [hmagnitude]

theorem isFinite_of_ofInt {i : Int} (h : ofInt i = some x) : x.isFinite = true := by
  unfold ofInt at h
  rcases Option.map_eq_some_iff.mp h with ⟨y, hy, rfl⟩
  split
  . exact isFinite_neg (isFinite_of_nearest hy)
  . exact isFinite_of_nearest hy

end Binary64

namespace Json.Number

variable {x y : Binary64}

theorem isFinite_of_divPowerOfTen {steps exponent : Nat} (hx : x.isFinite = true)
    (h : divPowerOfTen steps exponent x = some y) : y.isFinite = true := by
  induction steps generalizing x with
  | zero =>
    rcases Option.bind_eq_some_iff.mp h with ⟨power, -, h⟩
    exact Binary64.isFinite_of_nearest h
  | succ steps ih =>
    unfold divPowerOfTen at h
    split at h
    . cases h
      exact hx
    . rcases Option.bind_eq_some_iff.mp h with ⟨x', hx', h⟩
      rcases Option.bind_eq_some_iff.mp hx' with ⟨power, -, hx'⟩
      exact ih (Binary64.isFinite_of_nearest hx') h

theorem isFinite_of_scale {exponent : Int} (hx : x.isFinite = true)
    (h : scale exponent x = some y) : y.isFinite = true := by
  unfold scale at h
  split at h
  . cases h
    exact hx
  . split at h
    . cases h
    . split at h
      . rcases Option.bind_eq_some_iff.mp h with ⟨power, -, h⟩
        exact Binary64.isFinite_of_nearest h
      . exact isFinite_of_divPowerOfTen hx h

/-- Only finite numbers are read. -/
theorem isFinite_of_value? {n : Number} (h : n.value? = some (.float x)) : x.isFinite = true := by
  unfold value? at h
  split at h
  . cases h
  . rcases Option.map_eq_some_iff.mp h with ⟨y, hy, heq⟩
    cases heq
    unfold toBinary64 at hy
    dsimp only at hy
    rcases Option.map_eq_some_iff.mp hy with ⟨z, hz, rfl⟩
    rcases Option.bind_eq_some_iff.mp hz with ⟨z', hz', hscale⟩
    have hfinite := isFinite_of_scale (Binary64.isFinite_of_nearest hz') hscale
    split
    . exact Binary64.isFinite_neg hfinite
    . exact hfinite

end Json.Number

/-- A number that is written down is read as itself. -/
def Binary64.ReadsBack (x : Binary64) : Prop :=
  ∃ n, Json.Number.ofBinary64? x = some n ∧ n.value? = some (.float x)

end Upvalue

import Mathlib.Data.List.Basic
import QuicproAsync.PhpValue

/-!
# Numbers in decimal

What `%ld` and `%zu` print, as bytes: a sign and digits, from which the number can be read
back; and `snprintf`, which cuts off what does not fit the buffer.
-/

namespace QuicproAsync.Php

theorem toNat_ascii_of_isDigit {c : Char} (hdigit : c.isDigit = true) :
    (BitVec.ofNat 8 c.toNat).toNat = c.toNat ∧ 0x30 ≤ c.toNat ∧ c.toNat ≤ 0x39 := by
  have hbounds : 0x30 ≤ c.toNat ∧ c.toNat ≤ 0x39 := by
    simpa [Char.isDigit, UInt32.le_iff_toNat_le] using hdigit
  refine ⟨?_, hbounds⟩
  rw [BitVec.toNat_ofNat]
  exact Nat.mod_eq_of_lt (by omega)

theorem ascii_toString (n : Nat) :
    ascii (toString n) = (Nat.toDigits 10 n).map fun c => BitVec.ofNat 8 c.toNat := by
  rw [ascii, Nat.toString_eq_ofList_toDigits, String.toList_ofList]

/-- A natural number is printed with digits only. -/
theorem isDigit_of_mem_ascii {n : Nat} {byte : Byte} (hbyte : byte ∈ ascii (toString n)) :
    isDigit byte = true := by
  rw [ascii_toString] at hbyte
  obtain ⟨c, hc, rfl⟩ := List.mem_map.mp hbyte
  have hdigit := toNat_ascii_of_isDigit (Nat.isDigit_of_mem_toDigits (by decide) (by decide) hc)
  simp only [isDigit, Bool.and_eq_true, decide_eq_true_eq, BitVec.le_def, hdigit.1]
  exact hdigit.2

/-- An integer is printed with digits, behind a minus sign if it is negative. -/
theorem mem_ascii_toString {i : Int} {byte : Byte} (hbyte : byte ∈ ascii (toString i)) :
    isDigit byte = true ∨ byte = 0x2d#8 := by
  rw [Int.toString_eq_repr, Int.repr_eq_if] at hbyte
  split at hbyte
  · exact Or.inl (isDigit_of_mem_ascii hbyte)
  · rw [ascii, String.toList_append, List.map_append, List.mem_append] at hbyte
    rcases hbyte with hsign | hdigits
    · exact Or.inr (List.mem_singleton.mp hsign)
    · exact Or.inl (isDigit_of_mem_ascii hdigits)

/-- The printed number is read back. -/
theorem digitsValue_ascii (n : Nat) : digitsValue (ascii (toString n)) = n := by
  have hfold : ∀ (digits : List Char) (value : Nat), (∀ c ∈ digits, c.isDigit = true) →
      (digits.map fun c => BitVec.ofNat 8 c.toNat).foldl
          (fun value (digit : Byte) => 10 * value + (digit.toNat - 0x30)) value =
        Nat.ofDigitChars 10 digits value := by
    intro digits
    induction digits with
    | nil => exact fun value _ => rfl
    | cons c rest ih =>
      intro value hdigits
      rw [List.map_cons, List.foldl_cons, Nat.ofDigitChars_cons,
        (toNat_ascii_of_isDigit (hdigits c List.mem_cons_self)).1]
      exact ih _ fun c hc => hdigits c (List.mem_cons_of_mem _ hc)
  have hdigits : ∀ c ∈ Nat.toDigits 10 n, c.isDigit = true :=
    fun c hc => Nat.isDigit_of_mem_toDigits (by decide) (by decide) hc
  rw [ascii_toString, digitsValue, hfold _ 0 hdigits]
  exact Nat.ofDigitChars_ten_toDigits

/-- The integer that a sign and digits stand for. -/
def decimalValue : Bytes → Int
  | [] => 0
  | first :: rest =>
    if first = 0x2d#8 then -(digitsValue rest : Int) else digitsValue (first :: rest)

theorem decimalValue_ascii_nat (n : Nat) : decimalValue (ascii (toString n)) = n := by
  have hvalue := digitsValue_ascii n
  cases htext : ascii (toString n) with
  | nil =>
    rw [htext] at hvalue
    exact congrArg Nat.cast hvalue
  | cons first rest =>
    -- a natural number has no sign
    have hfirst : first ≠ 0x2d#8 := by
      rintro rfl
      have hdigit := isDigit_of_mem_ascii (htext ▸ List.mem_cons_self)
      exact absurd hdigit (by decide)
    rw [decimalValue, if_neg hfirst, ← htext, hvalue]

theorem decimalValue_ascii (i : Int) : decimalValue (ascii (toString i)) = i := by
  rw [Int.toString_eq_repr, Int.repr_eq_if]
  split
  · next hnonneg => exact (decimalValue_ascii_nat i.toNat).trans (Int.toNat_of_nonneg hnonneg)
  · have hdigits := digitsValue_ascii (-i).toNat
    rw [ascii, String.toList_append, List.map_append]
    change -(digitsValue (ascii (toString (-i).toNat)) : Int) = i
    rw [hdigits]
    omega

theorem nulFree_ascii_toString (i : Int) : NulFree (ascii (toString i)) := by
  rintro byte hbyte rfl
  rcases mem_ascii_toString hbyte with hdigit | hsign
  · exact absurd hdigit (by decide)
  · exact absurd hsign (by decide)

theorem length_ascii_nat_le_iff {n k : Nat} (hk : 0 < k) :
    (ascii (toString n)).length ≤ k ↔ n < 10 ^ k := by
  rw [ascii_toString, List.length_map, Nat.length_toDigits_le_iff (by decide) hk]

/-- How many characters an integer takes, the sign included. -/
theorem length_ascii_le_iff {i : Int} {k : Nat} (hk : 0 < k) :
    (ascii (toString i)).length ≤ k + 1 ↔ -(10 : Int) ^ k < i ∧ i < 10 ^ (k + 1) := by
  have hpositive : (0 : Int) < 10 ^ k := Int.pow_pos (by decide)
  rw [Int.toString_eq_repr, Int.repr_eq_if]
  split
  · next hnonneg =>
      change (ascii (toString i.toNat)).length ≤ k + 1 ↔ _
      rw [length_ascii_nat_le_iff (Nat.succ_pos k), ← Int.ofNat_lt, Int.toNat_of_nonneg hnonneg]
      push_cast
      omega
  · next hnegative =>
      rw [ascii, String.toList_append, List.map_append, List.length_append]
      change 1 + (ascii (toString (-i).toNat)).length ≤ k + 1 ↔ _
      rw [Nat.add_comm, Nat.add_le_add_iff_right, length_ascii_nat_le_iff hk, ← Int.ofNat_lt,
        Int.toNat_of_nonneg (by omega)]
      push_cast
      have hlarger : (0 : Int) < 10 ^ (k + 1) := Int.pow_pos (by decide)
      omega

/-! ### Printing into a buffer -/

/-- `snprintf`, for the text that its format and arguments stand for: what it writes to a buffer of
    the given size, and what it returns, a negative number if the length of the text is no `int`. -/
def snprintf (size : Nat) (text : Bytes) : Bytes × Int :=
  (text.take (size - 1) ++ [0], if text.length < 2 ^ 31 then text.length else -1)

/-- The buffer holds the whole text if and only if it is longer than the text. -/
theorem cstr_snprintf_iff {size : Nat} {text : Bytes} (hsize : 0 < size) (hfree : NulFree text) :
    cstr (snprintf size text).1 = text ↔ text.length < size := by
  have hpart : NulFree (text.take (size - 1)) := hfree.of_sublist (List.take_sublist _ _)
  rw [snprintf, cstr_append_of_nulFree hpart]
  change text.take (size - 1) ++ [] = text ↔ _
  rw [List.append_nil]
  constructor
  · intro hwhole
    have hlength := congrArg List.length hwhole
    rw [List.length_take] at hlength
    omega
  · intro hfits
    exact List.take_of_length_le (by omega)

end QuicproAsync.Php

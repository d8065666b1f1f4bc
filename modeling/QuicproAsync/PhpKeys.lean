import Mathlib.Data.Nat.Digits.Defs
import QuicproAsync.PhpValue

/-!
# Integer keys

A string key that is the decimal form of an integer is filed under the integer. No two
strings are filed under the same one, so reading an array by name finds what was stored
under that name and nothing else.
-/

namespace QuicproAsync.Php

variable {left right : Bytes}

def digitNumbers (digits : Bytes) : List Nat := digits.map fun digit => digit.toNat - 0x30

theorem digitsValue_eq_ofDigits (digits : Bytes) :
    digitsValue digits = Nat.ofDigits 10 (digitNumbers digits).reverse := by
  have hfold : ∀ (rest : Bytes) (value : Nat),
      rest.foldl (fun value digit => 10 * value + (digit.toNat - 0x30)) value =
        Nat.ofDigits 10 ((digitNumbers rest).reverse) + 10 ^ rest.length * value := by
    intro rest
    induction rest with
    | nil => intro value; simp [digitNumbers]
    | cons digit rest ih =>
      intro value
      rw [List.foldl_cons, ih]
      simp only [digitNumbers, List.map_cons, List.reverse_cons, Nat.ofDigits_append,
        List.length_reverse, List.length_map, Nat.ofDigits_singleton, List.length_cons]
      ring
  simpa [digitsValue] using hfold digits 0

theorem toNat_of_isDigit {byte : Byte} (hdigit : isDigit byte = true) :
    0x30 ≤ byte.toNat ∧ byte.toNat ≤ 0x39 := by
  simpa [isDigit, BitVec.le_def] using hdigit

/-- The digits of a number without leading zeros. -/
theorem digits_digitsValue {digits : Bytes} (hdigits : digits.all isDigit = true)
    (hhead : digits.head? ≠ some 0x30#8) :
    Nat.digits 10 (digitsValue digits) = (digitNumbers digits).reverse := by
  rw [digitsValue_eq_ofDigits]
  apply Nat.digits_ofDigits 10 (by decide)
  · intro number hnumber
    obtain ⟨digit, hdigit, rfl⟩ := List.mem_map.mp (List.mem_reverse.mp hnumber)
    have hbounds := toNat_of_isDigit (List.all_eq_true.mp hdigits digit hdigit)
    omega
  · intro hne
    cases digits with
    | nil => exact absurd rfl hne
    | cons first rest =>
      have hbounds := toNat_of_isDigit (List.all_eq_true.mp hdigits first List.mem_cons_self)
      have hzero : first.toNat ≠ 0x30 := by
        intro heq
        exact hhead (congrArg some (BitVec.eq_of_toNat_eq heq))
      simp only [digitNumbers, List.map_cons, List.getLast_reverse, List.head_cons]
      omega

theorem digitNumbers_injective (hleft : left.all isDigit = true)
    (hright : right.all isDigit = true) (heq : digitNumbers left = digitNumbers right) :
    left = right := by
  induction left generalizing right with
  | nil => exact (List.map_eq_nil_iff.mp heq.symm).symm
  | cons first rest ih =>
    cases right with
    | nil => cases heq
    | cons first' rest' =>
      obtain ⟨hfirst, hrest⟩ := Bool.and_eq_true_iff.mp hleft
      obtain ⟨hfirst', hrest'⟩ := Bool.and_eq_true_iff.mp hright
      obtain ⟨hnumber, htail⟩ := List.cons.inj heq
      have hbounds := toNat_of_isDigit hfirst
      have hbounds' := toNat_of_isDigit hfirst'
      simp only at hnumber
      rw [ih hrest hrest' htail,
        BitVec.eq_of_toNat_eq (show first.toNat = first'.toNat by omega)]

/-- A key that stands for an integer is its decimal form: an optional sign and digits, of
    which the first is zero only for the number zero. -/
theorem handleNumericStr_eq_some {key : Bytes} {n : Int} (hsome : handleNumericStr key = some n) :
    ∃ digits : Bytes, digits.all isDigit = true ∧ digits ≠ [] ∧
      ((key = digits ∧ n = digitsValue digits ∧ (digits.head? = some 0x30#8 → digits = [0x30#8])) ∨
        (key = 0x2d#8 :: digits ∧ n = -digitsValue digits ∧ digits.head? ≠ some 0x30#8)) := by
  unfold handleNumericStr at hsome
  by_cases hnegative : key.head? = some 0x2d#8
  · cases key with
    | nil => cases hnegative
    | cons sign digits =>
      cases hnegative
      simp only [List.head?_cons, if_true, List.tail_cons, List.length_cons] at hsome
      split at hsome
      · cases hsome
      rename_i hdigits
      simp only [Bool.or_eq_true, List.isEmpty_iff, Bool.not_eq_true', not_or,
        Bool.not_eq_false] at hdigits
      split at hsome
      · cases hsome
      rename_i hzero
      split at hsome
      · cases hsome
      split at hsome
      · cases hsome
        refine ⟨digits, hdigits.2, hdigits.1, .inr ⟨rfl, rfl, fun hhead => hzero ?_⟩⟩
        have hlength := List.length_pos_iff.mpr hdigits.1
        simp [hhead, hlength]
      · cases hsome
  · simp only [if_neg hnegative] at hsome
    split at hsome
    · cases hsome
    rename_i hdigits
    simp only [Bool.or_eq_true, List.isEmpty_iff, Bool.not_eq_true', not_or,
      Bool.not_eq_false] at hdigits
    split at hsome
    · cases hsome
    rename_i hzero
    split at hsome
    · cases hsome
    split at hsome
    · cases hsome
      refine ⟨key, hdigits.2, hdigits.1, .inl ⟨rfl, rfl, fun hhead => ?_⟩⟩
      simp only [hhead, decide_true, Bool.true_and, decide_eq_true_eq, Nat.not_lt] at hzero
      cases key with
      | nil => cases hhead
      | cons first rest =>
        cases hhead
        rw [List.length_eq_zero_iff.mp (show rest.length = 0 by simpa using hzero)]
    · cases hsome

theorem digitsValue_pos {digits : Bytes} (hdigits : digits.all isDigit = true) (hne : digits ≠ [])
    (hhead : digits.head? ≠ some 0x30#8) : 0 < digitsValue digits := by
  rcases Nat.eq_zero_or_pos (digitsValue digits) with hzero | hpos
  · have hempty := digits_digitsValue hdigits hhead
    rw [hzero, Nat.digits_zero, eq_comm, List.reverse_eq_nil_iff, digitNumbers,
      List.map_eq_nil_iff] at hempty
    exact absurd hempty hne
  · exact hpos

theorem digits_injective (hleft : left.all isDigit = true) (hright : right.all isDigit = true)
    (hhead : left.head? ≠ some 0x30#8) (hhead' : right.head? ≠ some 0x30#8)
    (hvalue : digitsValue left = digitsValue right) :
    left = right := by
  apply digitNumbers_injective hleft hright
  apply List.reverse_injective
  rw [← digits_digitsValue hleft hhead, ← digits_digitsValue hright hhead', hvalue]

/-- Different strings stand for different integers. -/
theorem handleNumericStr_injective {n : Int} (hleft : handleNumericStr left = some n)
    (hright : handleNumericStr right = some n) :
    left = right := by
  obtain ⟨digits, hall, hne, hcase⟩ := handleNumericStr_eq_some hleft
  obtain ⟨digits', hall', hne', hcase'⟩ := handleNumericStr_eq_some hright
  have hzero : digitsValue [0x30#8] = 0 := rfl
  rcases hcase with ⟨rfl, hvalue, hhead⟩ | ⟨rfl, hvalue, hhead⟩ <;>
    rcases hcase' with ⟨rfl, hvalue', hhead'⟩ | ⟨rfl, hvalue', hhead'⟩
  · have heq : digitsValue left = digitsValue right := by omega
    by_cases hfirst : left.head? = some 0x30#8
    · by_cases hsecond : right.head? = some 0x30#8
      · rw [hhead hfirst, hhead' hsecond]
      · have hpos := digitsValue_pos hall' hne' hsecond
        rw [hhead hfirst, hzero] at heq
        omega
    · by_cases hsecond : right.head? = some 0x30#8
      · have hpos := digitsValue_pos hall hne hfirst
        rw [hhead' hsecond, hzero] at heq
        omega
      · exact digits_injective hall hall' hfirst hsecond heq
  · have hpos := digitsValue_pos hall' hne' hhead'
    omega
  · have hpos := digitsValue_pos hall hne hhead
    omega
  · rw [digits_injective hall hall' hhead hhead' (by omega)]

theorem symtableKey_injective (hkey : symtableKey left = symtableKey right) :
    left = right := by
  unfold symtableKey at hkey
  rcases hleft : handleNumericStr left with _ | n <;>
    rcases hright : handleNumericStr right with _ | m <;>
    simp only [hleft, hright] at hkey <;> cases hkey
  · rfl
  · exact handleNumericStr_injective hleft hright

end QuicproAsync.Php

import Mathlib.Data.Nat.Bitwise

/-!
# Words and their bytes

A word is the union of its bytes, each shifted back to where it was taken from. The
statements are in the form in which C writes and reads them, byte by byte with shifts.
-/

namespace QuicproAsync.WordBytes

/-- The bits of a byte that was cut out of a word and put back. -/
theorem byte_at {w : Nat} (value : BitVec w) (shift : Nat) {i : Nat} (hi : i < w) :
    ((((value >>> shift).setWidth 8).setWidth w) <<< shift).getLsbD i =
      (decide (shift ≤ i ∧ i < shift + 8) && value.getLsbD i) := by
  simp only [BitVec.getLsbD_shiftLeft, BitVec.getLsbD_setWidth, BitVec.getLsbD_ushiftRight, hi]
  by_cases hlow : shift ≤ i
  · have hindex : shift + (i - shift) = i := by omega
    by_cases height : i < shift + 8
    · simp [hlow, height, hindex, show i - shift < w by omega, show i - shift < 8 by omega,
        show ¬ i < shift by omega]
    · simp [height, show ¬ i - shift < 8 by omega]
  · simp [hlow, show i < shift by omega]

theorem first_byte_at {w : Nat} (value : BitVec w) {i : Nat} (hi : i < w) :
    ((value.setWidth 8).setWidth w).getLsbD i = (decide (i < 8) && value.getLsbD i) := by
  have hzero := byte_at value 0 hi
  simpa only [BitVec.ushiftRight_zero, BitVec.shiftLeft_zero, Nat.zero_le, true_and, Nat.zero_add]
    using hzero

/-- Masking with `0xFF` before the cast to a byte changes nothing. -/
theorem setWidth_and_ff (value : BitVec 64) : (value &&& 0xff).setWidth 8 = value.setWidth 8 := by
  apply BitVec.eq_of_toNat_eq
  rw [BitVec.toNat_setWidth, BitVec.toNat_setWidth, BitVec.toNat_and]
  have hmask : value.toNat &&& (0xff : BitVec 64).toNat = value.toNat % 2 ^ 8 :=
    Nat.and_two_pow_sub_one_eq_mod value.toNat 8
  rw [hmask, Nat.mod_mod]

/-- Two bytes, the high one first. -/
theorem join_two {value : BitVec 64} (hvalue : value.toNat < 2 ^ 16) :
    ((value >>> 8).setWidth 8).setWidth 64 <<< 8 ||| (value.setWidth 8).setWidth 64 = value := by
  apply BitVec.eq_of_getLsbD_eq
  intro i hi
  simp only [BitVec.getLsbD_or, byte_at value _ hi, first_byte_at value hi]
  cases hbit : value.getLsbD i with
  | false => simp
  | true =>
    have hsmall : i < 16 := by
      by_contra hnot
      have hle : value.toNat < 2 ^ i :=
        Nat.lt_of_lt_of_le hvalue (Nat.pow_le_pow_right (by decide) (by omega))
      rw [BitVec.getLsbD, Nat.testBit_lt_two_pow hle] at hbit
      cases hbit
    simp only [Bool.and_true, Bool.or_eq_true, decide_eq_true_eq]
    omega

/-- Eight bytes, the highest first. -/
theorem join_eight (value : BitVec 64) :
    ((value >>> 56).setWidth 8).setWidth 64 <<< 56 |||
      ((value >>> 48).setWidth 8).setWidth 64 <<< 48 |||
      ((value >>> 40).setWidth 8).setWidth 64 <<< 40 |||
      ((value >>> 32).setWidth 8).setWidth 64 <<< 32 |||
      ((value >>> 24).setWidth 8).setWidth 64 <<< 24 |||
      ((value >>> 16).setWidth 8).setWidth 64 <<< 16 |||
      ((value >>> 8).setWidth 8).setWidth 64 <<< 8 |||
      (value.setWidth 8).setWidth 64 = value := by
  apply BitVec.eq_of_getLsbD_eq
  intro i hi
  simp only [BitVec.getLsbD_or, byte_at value _ hi, first_byte_at value hi]
  cases value.getLsbD i with
  | false => simp
  | true =>
    simp only [Bool.and_true, Bool.or_eq_true, decide_eq_true_eq]
    omega

/-- A number that is joined from a low part and a high part, as a shifted word. -/
theorem ofNat_join_shiftLeft (w : Nat) {low k : Nat} (hlow : low < 2 ^ k) (high shift : Nat) :
    BitVec.ofNat w (low + 2 ^ k * high) <<< shift =
      BitVec.ofNat w low <<< shift ||| BitVec.ofNat w high <<< (shift + k) := by
  have hjoin : low + 2 ^ k * high = low ||| 2 ^ k * high := by
    rw [Nat.add_comm, Nat.two_pow_add_eq_or_of_lt hlow, Nat.or_comm]
  have hhigh : BitVec.ofNat w (2 ^ k * high) = BitVec.ofNat w high <<< k := by
    apply BitVec.eq_of_toNat_eq
    rw [BitVec.toNat_shiftLeft, BitVec.toNat_ofNat, BitVec.toNat_ofNat, Nat.shiftLeft_eq,
      Nat.mod_mul_mod, Nat.mul_comm]
  rw [hjoin, BitVec.ofNat_or, BitVec.shiftLeft_or_distrib, hhigh, Nat.add_comm shift k,
    BitVec.shiftLeft_add]

end QuicproAsync.WordBytes

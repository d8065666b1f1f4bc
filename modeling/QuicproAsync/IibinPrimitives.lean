import QuicproAsync.IibinRegistry
import QuicproAsync.IibinWireRefinement
import QuicproAsync.WordBytes

/-!
# Reading back what the primitives write

Each writer of `iibin_internal.h` is inverted by the reader of the same name, on the
bytes it has written and in front of whatever follows them. The last part is about
field keys: `(tag << 3) | wire_type` is computed in 32 bits, so the tag comes back
exactly if it is below 2^29.
-/

namespace QuicproAsync.Iibin

open Php Fallible ScanLoop
open WordBytes

/-! ### Varints -/

theorem getLsbD_low7 (w i : Nat) :
    (BitVec.ofNat w 0x7F).getLsbD i = (decide (i < w) && decide (i < 7)) := by
  rw [BitVec.getLsbD_ofNat, show 0x7F = 2 ^ 7 - 1 from rfl, Nat.testBit_two_pow_sub_one]

theorem getLsbD_bit7 (i : Nat) : (0x80#8).getLsbD i = decide (i = 7) := by
  rw [BitVec.getLsbD_ofNat, show 0x80 = 2 ^ 7 from rfl, Nat.testBit_two_pow]
  by_cases hi : i = 7
  · simp [hi]
  · simp [hi, Ne.symm hi]

theorem low_or_high (value : BitVec 64) (shift : Nat) :
    ((value &&& 0x7F#64) <<< shift) ||| ((value >>> 7) <<< (shift + 7)) = value <<< shift := by
  apply BitVec.eq_of_getLsbD_eq
  intro i hi
  simp only [BitVec.getLsbD_or, BitVec.getLsbD_shiftLeft, BitVec.getLsbD_and,
    BitVec.getLsbD_ushiftRight, getLsbD_low7]
  by_cases hlow : i < shift
  · simp [hlow, show i < shift + 7 by omega]
  · by_cases hseven : i < shift + 7
    · simp [hi, hlow, hseven, show i - shift < 7 by omega, show i - shift < 64 by omega]
    · have hindex : 7 + (i - (shift + 7)) = i - shift := by omega
      simp [hi, hlow, hseven, hindex, show ¬ i - shift < 7 by omega]

/-- The seven payload bits of a byte of a varint, whether or not another one follows. -/
theorem varint_payload (value : BitVec 64) (flag : Byte) (hflag : flag = 0#8 ∨ flag = 0x80#8) :
    (((value &&& 0x7F#64).setWidth 8 ||| flag) &&& 0x7F#8).setWidth 64 = value &&& 0x7F#64 := by
  apply BitVec.eq_of_getLsbD_eq
  intro i hi
  simp only [BitVec.getLsbD_setWidth, BitVec.getLsbD_and, BitVec.getLsbD_or, getLsbD_low7, hi]
  by_cases hseven : i < 7
  · have hbit : flag.getLsbD i = false := by
      rcases hflag with rfl | rfl
      · simp
      · rw [getLsbD_bit7]
        simp [show i ≠ 7 by omega]
    simp only [hbit, Bool.or_false]
    simp [hseven, show i < 8 by omega]
  · simp [hseven]

theorem varint_more (value : BitVec 64) :
    ((value &&& 0x7F#64).setWidth 8 ||| 0x80#8) &&& 0x80#8 ≠ 0 := by
  intro hzero
  have hbit := congrArg (fun byte : Byte => byte.getLsbD 7) hzero
  simp at hbit

theorem varint_last (value : BitVec 64) :
    (value &&& 0x7F#64).setWidth 8 &&& 0x80#8 = 0 := by
  apply BitVec.eq_of_getLsbD_eq
  intro i hi
  simp only [BitVec.getLsbD_setWidth, BitVec.getLsbD_and, getLsbD_low7, getLsbD_bit7]
  by_cases hseven : i = 7
  · simp [hseven]
  · simp [hseven]

theorem varintLoop_last (iterations : Nat) (value : BitVec 64) (hzero : value >>> 7 = 0#64)
    (rest : Bytes) (shift : Nat) (result : BitVec 64) :
    Wire.varintLoop (iterations + 1) ((value &&& 0x7F#64).setWidth 8 :: rest) shift result =
      some (result ||| (value <<< shift), rest) := by
  have hpayload := varint_payload value 0#8 (.inl rfl)
  rw [BitVec.or_zero] at hpayload
  have hlow := low_or_high value shift
  rw [hzero, BitVec.zero_shiftLeft, BitVec.or_zero] at hlow
  rw [Wire.varintLoop]
  simp only [if_pos (varint_last value), hpayload, hlow]

/-- What the loop of the encoder writes: the last byte, or a byte that announces more. -/
theorem encodeVarintLoop_cases {iterations : Nat} {value : BitVec 64}
    (hvalue : value.toNat < 2 ^ (7 * (iterations + 1))) :
    (value >>> 7 = 0#64 ∧
      encodeVarintLoop (iterations + 1) value = [(value &&& 0x7F#64).setWidth 8]) ∨
    ∃ fewer, iterations = fewer + 1 ∧ value >>> 7 ≠ 0#64 ∧
      (value >>> 7).toNat < 2 ^ (7 * (fewer + 1)) ∧
      encodeVarintLoop (iterations + 1) value = ((value &&& 0x7F#64).setWidth 8 ||| 0x80#8) ::
        encodeVarintLoop (fewer + 1) (value >>> 7) := by
  by_cases hzero : value >>> 7 = 0#64
  · refine Or.inl ⟨hzero, ?_⟩
    rw [encodeVarintLoop]
    simp only [hzero, BitVec.ofNat_eq_ofNat, BitVec.lt_irrefl, if_false]
  · have hmore : 0#64 < value >>> 7 := by
      rw [BitVec.lt_def]
      exact Nat.pos_of_ne_zero fun hnat => hzero (BitVec.eq_of_toNat_eq hnat)
    cases iterations with
    | zero =>
      refine absurd (BitVec.eq_of_toNat_eq ?_) hzero
      rw [BitVec.toNat_ushiftRight, Nat.shiftRight_eq_div_pow]
      exact Nat.div_eq_of_lt hvalue
    | succ fewer =>
      refine Or.inr ⟨fewer, rfl, hzero, ?_, ?_⟩
      · rw [BitVec.toNat_ushiftRight, Nat.shiftRight_eq_div_pow]
        apply Nat.div_lt_of_lt_mul
        calc value.toNat < 2 ^ (7 * (fewer + 1 + 1)) := hvalue
          _ = 2 ^ 7 * 2 ^ (7 * (fewer + 1)) := by rw [← Nat.pow_add]; congr 1; omega
      · rw [encodeVarintLoop]
        simp only [BitVec.ofNat_eq_ofNat, hmore, if_true]

theorem varintLoop_encodeVarintLoop (iterations : Nat) (value : BitVec 64)
    (hvalue : value.toNat < 2 ^ (7 * (iterations + 1))) (rest : Bytes) (shift : Nat)
    (result : BitVec 64) :
    Wire.varintLoop (iterations + 1) (encodeVarintLoop (iterations + 1) value ++ rest) shift
      result = some (result ||| (value <<< shift), rest) := by
  induction iterations generalizing value shift result with
  | zero =>
    rcases encodeVarintLoop_cases hvalue with ⟨hzero, hbytes⟩ | ⟨fewer, hfewer, -⟩
    · rw [hbytes]
      exact varintLoop_last 0 value hzero rest shift result
    · cases hfewer
  | succ iterations ih =>
    rcases encodeVarintLoop_cases hvalue with
      ⟨hzero, hbytes⟩ | ⟨fewer, hfewer, -, hhigh, hbytes⟩
    · rw [hbytes]
      exact varintLoop_last (iterations + 1) value hzero rest shift result
    · cases hfewer
      have htail := ih (value >>> 7) hhigh (shift + 7) (result ||| (value &&& 0x7F#64) <<< shift)
      rw [hbytes, List.cons_append, Wire.varintLoop]
      simp only [if_neg (varint_more value), varint_payload value 0x80#8 (.inr rfl)]
      rw [htail, BitVec.or_assoc, low_or_high]

/-- `quicpro_iibin_decode_varint` reads back what `quicpro_iibin_encode_varint` wrote. -/
@[simp] theorem varint_encodeVarint (value : BitVec 64) (rest : Bytes) :
    Wire.varint (encodeVarint value ++ rest) = some (value, rest) := by
  have hvalue : value.toNat < 2 ^ (7 * (9 + 1)) := Nat.lt_of_lt_of_le value.isLt (by decide)
  have hloop := varintLoop_encodeVarintLoop 9 value hvalue rest 0 0#64
  rwa [BitVec.shiftLeft_zero, BitVec.zero_or] at hloop

theorem encodeVarintLoop_ne_nil (iterations : Nat) (value : BitVec 64) :
    encodeVarintLoop (iterations + 1) value ≠ [] := by
  rw [encodeVarintLoop]
  split
  · exact List.cons_ne_nil _ _
  · exact List.cons_ne_nil _ _

theorem encodeVarint_ne_nil (value : BitVec 64) : encodeVarint value ≠ [] :=
  encodeVarintLoop_ne_nil 9 value

theorem encodeVarintLoop_length_le (iterations : Nat) (value : BitVec 64) :
    (encodeVarintLoop iterations value).length ≤ iterations := by
  induction iterations generalizing value with
  | zero => simp [encodeVarintLoop]
  | succ iterations ih =>
    rw [encodeVarintLoop]
    split
    · exact Nat.succ_le_succ (ih _)
    · simp

theorem encodeVarint_length_le (value : BitVec 64) : (encodeVarint value).length ≤ 10 :=
  encodeVarintLoop_length_le 10 value

/-! ### Zigzag -/

/-- The arithmetic shift by all but one bit spreads the sign. -/
theorem sshiftRight_sign {w : Nat} (n : BitVec w) :
    n.sshiftRight (w - 1) = if n.msb then BitVec.allOnes w else 0 := by
  apply BitVec.eq_of_getLsbD_eq
  intro i hi
  rw [BitVec.getLsbD_sshiftRight]
  have hsign : (if w - 1 + i < w then n.getLsbD (w - 1 + i) else n.msb) = n.msb := by
    split
    · rw [show w - 1 + i = w - 1 by omega, BitVec.msb_eq_getLsbD_last]
    · rfl
  cases hmsb : n.msb <;> simp_all

theorem zigzag_inverse {w : Nat} (n : BitVec w) :
    ((n <<< 1 ^^^ n.sshiftRight (w - 1)) >>> 1) ^^^
      -((n <<< 1 ^^^ n.sshiftRight (w - 1)) &&& 1) = n := by
  have hlow : (n <<< 1 ^^^ n.sshiftRight (w - 1)) &&& 1 = if n.msb then 1 else 0 := by
    rw [sshiftRight_sign]
    apply BitVec.eq_of_getLsbD_eq
    intro i hi
    cases hmsb : n.msb <;> by_cases hzero : i = 0 <;> simp_all
  rw [hlow, sshiftRight_sign]
  apply BitVec.eq_of_getLsbD_eq
  intro i hi
  have hone : -(1 : BitVec w) = BitVec.allOnes w := BitVec.neg_one_eq_allOnes
  -- below the top bit the sign is applied twice; the top bit is the sign
  have htop : w ≤ i + 1 → n.getLsbD i = n.msb := by
    intro hge
    rw [BitVec.msb_eq_getLsbD_last, show i = w - 1 by omega]
  cases hmsb : n.msb with
  | false =>
    simp only [Bool.false_eq_true, if_false, BitVec.getLsbD_xor, BitVec.getLsbD_ushiftRight,
      BitVec.getLsbD_shiftLeft]
    rcases Nat.lt_or_ge (i + 1) w with hlt | hge
    · simp [Nat.add_comm 1 i, hlt]
    · simp [Nat.add_comm 1 i, Nat.not_lt.mpr hge, htop hge, hmsb]
  | true =>
    simp only [if_true, hone, BitVec.getLsbD_xor, BitVec.getLsbD_ushiftRight,
      BitVec.getLsbD_shiftLeft, BitVec.getLsbD_allOnes]
    rcases Nat.lt_or_ge (i + 1) w with hlt | hge
    · simp [Nat.add_comm 1 i, hlt, hi]
    · simp [Nat.add_comm 1 i, Nat.not_lt.mpr hge, hi, htop hge, hmsb]

/-- The ZigZag code of a number, as an unsigned number. -/
theorem zigzag_toNat {w : Nat} (n : BitVec w) :
    ((n <<< 1 ^^^ n.sshiftRight (w - 1)).toNat : Int) =
      if n.toInt < 0 then -2 * n.toInt - 1 else 2 * n.toInt := by
  have hlt := n.isLt
  have hdouble : (n <<< 1).toNat = 2 * n.toNat % 2 ^ w := by
    rw [BitVec.toNat_shiftLeft, Nat.shiftLeft_eq, Nat.mul_comm, Nat.pow_one]
  rw [sshiftRight_sign]
  cases hmsb : n.msb with
  | false =>
    have hsmall := BitVec.msb_eq_false_iff_two_mul_lt.mp hmsb
    have hint := BitVec.toInt_eq_toNat_of_msb hmsb
    rw [if_neg (by decide)]
    simp only [BitVec.ofNat_eq_ofNat, BitVec.xor_zero]
    rw [hdouble, Nat.mod_eq_of_lt hsmall, hint, if_neg (by omega)]
    omega
  | true =>
    have hlarge := BitVec.msb_eq_true_iff_two_mul_ge.mp hmsb
    have hint : n.toInt = (n.toNat : Int) - (2 ^ w : Nat) := by
      rw [BitVec.toInt_eq_msb_cond, hmsb, if_pos rfl]
    have hwrap : 2 * n.toNat % 2 ^ w = 2 * n.toNat - 2 ^ w := by
      rw [Nat.mod_eq_sub_mod hlarge, Nat.mod_eq_of_lt (by omega)]
    rw [if_pos rfl, BitVec.xor_allOnes, BitVec.toNat_not, hdouble, hwrap, hint, if_pos (by omega)]
    omega

theorem zigzagDecode32_encode (n : BitVec 32) : zigzagDecode32 (zigzagEncode32 n) = n :=
  zigzag_inverse n

theorem zigzagDecode64_encode (n : BitVec 64) : zigzagDecode64 (zigzagEncode64 n) = n :=
  zigzag_inverse n

/-! ### Fixed width -/

theorem joinFixed32_split (value : BitVec 32) :
    joinFixed32 (value.setWidth 8) ((value >>> 8).setWidth 8) ((value >>> 16).setWidth 8)
      ((value >>> 24).setWidth 8) = value := by
  apply BitVec.eq_of_getLsbD_eq
  intro i hi
  simp only [joinFixed32, BitVec.getLsbD_or, first_byte_at value hi, byte_at value _ hi]
  cases value.getLsbD i with
  | false => simp
  | true =>
    simp only [Bool.and_true, Bool.or_eq_true, decide_eq_true_eq]
    omega

theorem joinFixed64_split (value : BitVec 64) :
    joinFixed64 (value.setWidth 8) ((value >>> 8).setWidth 8) ((value >>> 16).setWidth 8)
      ((value >>> 24).setWidth 8) ((value >>> 32).setWidth 8) ((value >>> 40).setWidth 8)
      ((value >>> 48).setWidth 8) ((value >>> 56).setWidth 8) = value := by
  apply BitVec.eq_of_getLsbD_eq
  intro i hi
  simp only [joinFixed64, BitVec.getLsbD_or, first_byte_at value hi, byte_at value _ hi]
  cases value.getLsbD i with
  | false => simp
  | true =>
    simp only [Bool.and_true, Bool.or_eq_true, decide_eq_true_eq]
    omega

theorem fixed32_encodeFixed32 (value : BitVec 32) (rest : Bytes) :
    Wire.fixed32 (encodeFixed32 value ++ rest) = some (value, rest) := by
  simp only [encodeFixed32, List.cons_append, List.nil_append, Wire.fixed32, joinFixed32_split]

theorem fixed64_encodeFixed64 (value : BitVec 64) (rest : Bytes) :
    Wire.fixed64 (encodeFixed64 value ++ rest) = some (value, rest) := by
  simp only [encodeFixed64, List.cons_append, List.nil_append, Wire.fixed64, joinFixed64_split]

/-! ### Length prefixes -/

theorem block_lengthPrefixed (fault : Fault) {content : Bytes} (hlength : content.length < 2 ^ 64)
    (rest : Bytes) :
    Wire.block fault (lengthPrefixed content ++ rest) = .ok (content, rest) := by
  have hlen : (BitVec.ofNat 64 content.length).toNat = content.length := by
    rw [BitVec.toNat_ofNat, Nat.mod_eq_of_lt hlength]
  rw [Wire.block, lengthPrefixed, List.append_assoc, varint_encodeVarint]
  simp only [hlen]
  rw [if_neg (by simp), List.take_left, List.drop_left]

/-! ### Keys -/

variable {wireType : BitVec 32}

/-- The shift by three drops the top three bits of the tag. -/
theorem fieldKey_toNat (tag : BitVec 32) (hwire : wireType.toNat < 8) :
    (fieldKey tag wireType).toNat = 8 * (tag.toNat % 2 ^ 29) + wireType.toNat := by
  have hshift : (tag <<< 3).toNat = (tag.toNat % 2 ^ 29) <<< 3 := by
    rw [BitVec.toNat_shiftLeft, Nat.shiftLeft_eq, Nat.shiftLeft_eq]
    omega
  rw [fieldKey, BitVec.toNat_setWidth, BitVec.toNat_or, hshift,
    ← Nat.shiftLeft_add_eq_or_of_lt (show wireType.toNat < 2 ^ 3 from hwire), Nat.shiftLeft_eq]
  omega

theorem keyTag_toNat (key : BitVec 64) : (keyTag key).toNat = key.toNat / 8 % 2 ^ 32 := by
  rw [keyTag, BitVec.toNat_setWidth, BitVec.toNat_ushiftRight, Nat.shiftRight_eq_div_pow]

theorem keyWireType_toNat (key : BitVec 64) : (keyWireType key).toNat = key.toNat % 8 := by
  have hmask : key.toNat &&& 7 = key.toNat % 8 := Nat.and_two_pow_sub_one_eq_mod _ 3
  rw [keyWireType, BitVec.toNat_setWidth, BitVec.toNat_and,
    show (7 : BitVec 64).toNat = 7 from rfl, hmask]
  omega

theorem keyTag_fieldKey_toNat (tag : BitVec 32) (hwire : wireType.toNat < 8) :
    (keyTag (fieldKey tag wireType)).toNat = tag.toNat % 2 ^ 29 := by
  rw [keyTag_toNat, fieldKey_toNat tag hwire]
  omega

theorem keyTag_fieldKey {tag : BitVec 32} (htag : tag.toNat < 2 ^ 29) (hwire : wireType.toNat < 8) :
    keyTag (fieldKey tag wireType) = tag := by
  apply BitVec.eq_of_toNat_eq
  rw [keyTag_fieldKey_toNat tag hwire, Nat.mod_eq_of_lt htag]

theorem keyWireType_fieldKey (tag : BitVec 32) (hwire : wireType.toNat < 8) :
    keyWireType (fieldKey tag wireType) = wireType := by
  apply BitVec.eq_of_toNat_eq
  rw [keyWireType_toNat, fieldKey_toNat tag hwire]
  omega

/-! ### Integers that fit into 32 bits -/

theorem signExtend_setWidth_eq_iff (n : BitVec 64) :
    (n.setWidth 32).signExtend 64 = n ↔ -2 ^ 31 ≤ n.toInt ∧ n.toInt < 2 ^ 31 := by
  have hcut : ((n.setWidth 32).signExtend 64).toInt = n.toInt.bmod (2 ^ 32) := by
    rw [BitVec.toInt_signExtend_of_le (by decide), BitVec.toInt_setWidth,
      BitVec.toInt_eq_toNat_bmod]
    exact (Int.bmod_bmod_of_dvd (by decide)).symm
  rw [← BitVec.toInt_inj, hcut]
  constructor
  · intro heq
    have hlow := Int.le_bmod (x := n.toInt) (m := 2 ^ 32) (by decide)
    have hhigh := Int.bmod_lt (x := n.toInt) (m := 2 ^ 32) (by decide)
    rw [heq] at hlow hhigh
    exact ⟨hlow, hhigh⟩
  · rintro ⟨hlow, hhigh⟩
    exact Int.bmod_eq_of_le hlow hhigh

theorem setWidth_setWidth_eq_iff (n : BitVec 64) :
    (n.setWidth 32).setWidth 64 = n ↔ 0 ≤ n.toInt ∧ n.toInt < 2 ^ 32 := by
  rw [← BitVec.toNat_inj, BitVec.toNat_setWidth, BitVec.toNat_setWidth]
  have hlt := n.isLt
  rw [BitVec.toInt_eq_toNat_cond]
  split <;> omega

theorem signExtend_twice (number : BitVec 32) :
    ((number.signExtend 64).setWidth 32).signExtend 64 = number.signExtend 64 := by
  rw [signExtend_setWidth_eq_iff, BitVec.toInt_signExtend_of_le (by decide)]
  exact ⟨number.le_toInt, number.toInt_lt⟩

end QuicproAsync.Iibin

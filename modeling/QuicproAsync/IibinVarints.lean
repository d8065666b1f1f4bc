import Mathlib.Data.BitVec
import Mathlib.Data.Fintype.EquivFin
import Mathlib.Data.Nat.Digits.Defs
import QuicproAsync.IibinPrimitives

/-!
# The contract of varints and of ZigZag

A varint is a number in base 128, the lowest digit first, and every byte but the last one
has its high bit set. The first part is about the decoder on arbitrary bytes: it reads up
to the first byte without the high bit, if there is one among the first ten, and it writes
to the variables of its caller only then. The second part is about the length of what the
encoder writes, which grows with the value and is the least possible. The last part is
about ZigZag, which sends the integers of a width to the codes in the order of their
magnitudes.
-/

namespace QuicproAsync.Iibin

open Php ScanLoop WordBytes

/-! ### The variables of the caller -/

/-- What `buf_ptr` and `value_out` of `quicpro_proto_decode_varint` point to. -/
structure VarintCaller where
  bufPtr : Nat
  valueOut : BitVec 64
deriving DecidableEq, Repr

/-- The loop of `quicpro_proto_decode_varint`, with what it returns and leaves behind. -/
def quicproProtoDecodeVarintLoop (memory : Memory) (bufEnd : Nat) :
    Nat → Nat → Nat → BitVec 64 → VarintCaller → Bool × VarintCaller
  | 0, _, _, _, caller => (false, caller)
  | iterations + 1, ptr, shift, result, caller =>
    if bufEnd ≤ ptr then (false, caller)
    else
      let byte := memory ptr
      let ptr := ptrAdd ptr 1
      let result := result ||| ((byte &&& 0x7F#8).setWidth 64 <<< shift)
      if byte &&& 0x80#8 = 0 then
        let caller := { caller with valueOut := result }
        (true, { caller with bufPtr := ptr })
      else quicproProtoDecodeVarintLoop memory bufEnd iterations ptr (shift + 7) result caller

def quicproProtoDecodeVarint (memory : Memory) (bufEnd : Nat) (caller : VarintCaller) :
    Bool × VarintCaller :=
  quicproProtoDecodeVarintLoop memory bufEnd 10 caller.bufPtr 0 0 caller

/-- The variables after a read that has found a value and a new position, or nothing. -/
def VarintCaller.after (caller : VarintCaller) : Option (BitVec 64 × Nat) → Bool × VarintCaller
  | none => (false, caller)
  | some (value, next) => (true, ⟨next, value⟩)

theorem quicproProtoDecodeVarintLoop_eq (memory : Memory) (bufEnd iterations ptr shift : Nat)
    (result : BitVec 64) (caller : VarintCaller) :
    quicproProtoDecodeVarintLoop memory bufEnd iterations ptr shift result caller =
      caller.after (decodeVarintLoop memory bufEnd iterations ptr shift result) := by
  induction iterations generalizing ptr shift result with
  | zero => rfl
  | succ iterations ih =>
    unfold quicproProtoDecodeVarintLoop decodeVarintLoop
    dsimp only
    split
    · rfl
    · split
      · rfl
      · exact ih _ _ _

/-- The reader that the rest of the decoder is described with is this one. -/
theorem quicproProtoDecodeVarint_eq (memory : Memory) (bufEnd : Nat) (caller : VarintCaller) :
    quicproProtoDecodeVarint memory bufEnd caller =
      caller.after (decodeVarint memory caller.bufPtr bufEnd) :=
  quicproProtoDecodeVarintLoop_eq memory bufEnd 10 caller.bufPtr 0 0 caller

/-- A byte string in memory. -/
structure Region where
  memory : Memory
  start : Nat
  bytes : Bytes
  holds : window memory start (start + bytes.length) = bytes
  addressable : start + bytes.length < 2 ^ 64

def Region.stop (region : Region) : Nat := region.start + region.bytes.length

/-- The call at the start of the region, with some value in the variable for the result. -/
def Region.decode (region : Region) (valueOut : BitVec 64) : Bool × VarintCaller :=
  quicproProtoDecodeVarint region.memory region.stop ⟨region.start, valueOut⟩

/-- The region of a string. -/
def Buffer.region (buffer : Buffer) : Region where
  memory := buffer.memory
  start := buffer.base
  bytes := buffer.bytes
  holds := buffer.holds
  addressable := Nat.lt_of_le_of_lt (Nat.le_add_right _ 8) buffer.high

namespace Region

variable (region : Region) (valueOut : BitVec 64)

theorem agrees : ReadAgrees region.memory region.start region.stop (Wire.varint region.bytes)
    (decodeVarint region.memory region.start region.stop) := by
  have hagrees := decodeVarint_agrees region.memory region.addressable region.start
  rw [region.holds] at hagrees
  exact hagrees

theorem decode_of_none (hread : Wire.varint region.bytes = none) :
    region.decode valueOut = (false, ⟨region.start, valueOut⟩) := by
  have hagrees := region.agrees
  rw [hread] at hagrees
  rw [decode, quicproProtoDecodeVarint_eq, show decodeVarint _ _ _ = none from hagrees]
  rfl

theorem decode_of_some {used rest : Bytes} {value : BitVec 64}
    (hsplit : region.bytes = used ++ rest) (hread : Wire.varint region.bytes = some (value, rest)) :
    region.decode valueOut = (true, ⟨region.start + used.length, value⟩) := by
  have hagrees := region.agrees
  rw [hread] at hagrees
  obtain ⟨next, hbehind, hinside, hrest, hdecode⟩ := hagrees
  have hlength := congrArg List.length hrest
  rw [length_window] at hlength
  have hbytes := congrArg List.length hsplit
  rw [List.length_append] at hbytes
  -- what is left of the input tells where the pointer is
  have hnext : next = region.start + used.length := by
    unfold stop at hinside hlength
    omega
  rw [decode, quicproProtoDecodeVarint_eq, hdecode, hnext]
  rfl

end Region

/-! ### Arbitrary bytes -/

/-- The 7-bit groups of the bytes, the lowest first. -/
def groupsNumber (bytes : Bytes) : Nat := Nat.ofDigits 128 (bytes.map fun byte => byte.toNat % 128)

@[simp] theorem groupsNumber_cons (byte : Byte) (bytes : Bytes) :
    groupsNumber (byte :: bytes) = byte.toNat % 128 + 2 ^ 7 * groupsNumber bytes := by
  rw [groupsNumber, List.map_cons, Nat.ofDigits_cons]
  rfl

theorem groupsNumber_lt (bytes : Bytes) : groupsNumber bytes < 2 ^ (7 * bytes.length) := by
  have hdigits : ∀ digit ∈ bytes.map (fun byte => byte.toNat % 128), digit < 128 := by
    intro digit hdigit
    obtain ⟨byte, -, rfl⟩ := List.mem_map.mp hdigit
    exact Nat.mod_lt _ (by decide)
  have hlt := Nat.ofDigits_lt_base_pow_length (by decide) hdigits
  rw [List.length_map, show 128 = 2 ^ 7 from rfl, ← Nat.pow_mul] at hlt
  exact hlt

theorem high_bit_clear_iff (byte : Byte) : byte &&& 0x80#8 = 0 ↔ byte.msb = false := by
  constructor
  · intro hzero
    have hbit := congrArg (fun masked : Byte => masked.getLsbD 7) hzero
    simpa [BitVec.msb_eq_getLsbD_last] using hbit
  · intro hclear
    rw [BitVec.msb_eq_getLsbD_last] at hclear
    apply BitVec.eq_of_getLsbD_eq
    intro i hi
    rw [BitVec.getLsbD_and, getLsbD_bit7]
    by_cases hseven : i = 7
    · rw [hseven, hclear]
      rfl
    · simp [hseven]

theorem group_eq (byte : Byte) :
    (byte &&& 0x7F#8).setWidth 64 = BitVec.ofNat 64 (byte.toNat % 128) := by
  have hmask : byte.toNat &&& 0x7F = byte.toNat % 128 := Nat.and_two_pow_sub_one_eq_mod _ 7
  apply BitVec.eq_of_toNat_eq
  rw [BitVec.toNat_setWidth, BitVec.toNat_and, BitVec.toNat_ofNat]
  exact congrArg (· % 2 ^ 64) hmask

/-- One turn of the loop at a byte that announces more. -/
theorem varintLoop_more {byte : Byte} (hset : byte.msb = true) (iterations : Nat) (rest : Bytes)
    (shift : Nat) (result : BitVec 64) :
    Wire.varintLoop (iterations + 1) (byte :: rest) shift result =
      Wire.varintLoop iterations rest (shift + 7)
        (result ||| BitVec.ofNat 64 (byte.toNat % 128) <<< shift) := by
  have hflag : ¬ byte &&& 0x80#8 = 0 := by
    rw [high_bit_clear_iff, hset]
    decide
  rw [Wire.varintLoop]
  simp only [if_neg hflag, group_eq]

/-- The turn at a byte that does not. -/
theorem varintLoop_final {byte : Byte} (hclear : byte.msb = false) (iterations : Nat)
    (rest : Bytes) (shift : Nat) (result : BitVec 64) :
    Wire.varintLoop (iterations + 1) (byte :: rest) shift result =
      some (result ||| BitVec.ofNat 64 (byte.toNat % 128) <<< shift, rest) := by
  rw [Wire.varintLoop]
  simp only [if_pos ((high_bit_clear_iff byte).mpr hclear), group_eq]

/-- The loop on bytes that announce more, then one that does not. -/
theorem varintLoop_groups {groups : Bytes} {last : Byte} (hmore : ∀ byte ∈ groups, byte.msb = true)
    (hlast : last.msb = false) {iterations : Nat} (hshort : groups.length < iterations)
    (rest : Bytes) (shift : Nat) (result : BitVec 64) :
    Wire.varintLoop iterations (groups ++ last :: rest) shift result =
      some (result ||| BitVec.ofNat 64 (groupsNumber (groups ++ [last])) <<< shift, rest) := by
  obtain ⟨fewer, rfl⟩ := Nat.exists_eq_add_one_of_ne_zero (Nat.ne_zero_of_lt hshort)
  induction groups generalizing fewer shift result with
  | nil =>
    have hnumber : groupsNumber [last] = last.toNat % 128 := by
      rw [groupsNumber_cons]
      rfl
    rw [List.nil_append, List.nil_append, hnumber]
    exact varintLoop_final hlast fewer rest shift result
  | cons byte groups ih =>
    have hless : groups.length < fewer := Nat.lt_of_succ_lt_succ hshort
    obtain ⟨least, rfl⟩ := Nat.exists_eq_add_one_of_ne_zero (Nat.ne_zero_of_lt hless)
    have hlow : byte.toNat % 128 < 2 ^ 7 := Nat.mod_lt _ (by decide)
    rw [List.cons_append, List.cons_append, varintLoop_more (hmore byte List.mem_cons_self),
      groupsNumber_cons, ofNat_join_shiftLeft 64 hlow, ← BitVec.or_assoc]
    exact ih (fun other hother => hmore other (List.mem_cons_of_mem _ hother)) _ _ _ hless

theorem varintLoop_of_high_bits {iterations : Nat} {bytes : Bytes}
    (hmore : ∀ byte ∈ bytes.take iterations, byte.msb = true) (shift : Nat) (result : BitVec 64) :
    Wire.varintLoop iterations bytes shift result = none := by
  induction iterations generalizing bytes shift result with
  | zero => rfl
  | succ iterations ih =>
    cases bytes with
    | nil => rfl
    | cons byte rest =>
      rw [List.take_succ_cons] at hmore
      rw [varintLoop_more (hmore byte List.mem_cons_self)]
      exact ih (fun other hother => hmore other (List.mem_cons_of_mem _ hother)) _ _

/-- The first byte without the high bit, if there is one among the first ten. -/
theorem groups_or_high_bits (bytes : Bytes) :
    (∃ groups last rest, bytes = groups ++ last :: rest ∧ last ∈ bytes.take 10 ∧
      groups.length < 10 ∧ (∀ byte ∈ groups, byte.msb = true) ∧ last.msb = false) ∨
    ∀ byte ∈ bytes.take 10, byte.msb = true := by
  cases hfound : (bytes.take 10).find? fun byte => !byte.msb with
  | none =>
    refine Or.inr fun byte hbyte => ?_
    simpa using List.find?_eq_none.mp hfound byte hbyte
  | some last =>
    have hmember := List.mem_of_find?_eq_some hfound
    obtain ⟨hlast, groups, later, hsplit, hmore⟩ := List.find?_eq_some_iff_append.mp hfound
    have hlength := congrArg List.length hsplit
    rw [List.length_take, List.length_append, List.length_cons] at hlength
    refine Or.inl ⟨groups, last, later ++ bytes.drop 10, ?_, hmember, by omega, ?_, ?_⟩
    · rw [← List.cons_append, ← List.append_assoc, ← hsplit, List.take_append_drop]
    · intro byte hbyte
      simpa using hmore byte hbyte
    · simpa using hlast

theorem varint_groups {groups : Bytes} {last : Byte} (hshort : groups.length < 10)
    (hmore : ∀ byte ∈ groups, byte.msb = true) (hlast : last.msb = false) (rest : Bytes) :
    Wire.varint (groups ++ last :: rest) =
      some (BitVec.ofNat 64 (groupsNumber (groups ++ [last])), rest) := by
  have hloop := varintLoop_groups hmore hlast hshort rest 0 0#64
  rwa [BitVec.shiftLeft_zero, BitVec.zero_or] at hloop

/-- Every success of the decoder is one of these. -/
theorem exists_used_of_varint {bytes rest : Bytes} {value : BitVec 64}
    (hread : Wire.varint bytes = some (value, rest)) :
    ∃ used : Bytes, bytes = used ++ rest ∧ used ≠ [] ∧
      value = BitVec.ofNat 64 (groupsNumber used) := by
  rcases groups_or_high_bits bytes with
    ⟨groups, last, later, rfl, -, hshort, hmore, hlast⟩ | hmore
  · rw [varint_groups hshort hmore hlast] at hread
    cases hread
    exact ⟨groups ++ [last], by simp, by simp, rfl⟩
  · rw [Wire.varint, varintLoop_of_high_bits hmore] at hread
    cases hread

/-! ### The length of an encoding -/

theorem ushiftRight_seven_eq_zero_iff (value : BitVec 64) :
    value >>> 7 = 0#64 ↔ value.toNat < 2 ^ 7 := by
  rw [← BitVec.toNat_inj, BitVec.toNat_ushiftRight, Nat.shiftRight_eq_div_pow]
  exact Nat.div_eq_zero_iff_lt (by decide)

/-- The loop writes as many bytes as the value has digits in base 128, but at least one. -/
theorem encodeVarintLoop_length_le_iff {iterations : Nat} {value : BitVec 64}
    (hvalue : value.toNat < 2 ^ (7 * (iterations + 1))) (count : Nat) :
    (encodeVarintLoop (iterations + 1) value).length ≤ count + 1 ↔
      value.toNat < 2 ^ (7 * (count + 1)) := by
  induction count generalizing iterations value with
  | zero =>
    rcases encodeVarintLoop_cases hvalue with ⟨hzero, hbytes⟩ | ⟨fewer, rfl, hmore, -, hbytes⟩
    · have hsmall := (ushiftRight_seven_eq_zero_iff value).mp hzero
      rw [hbytes]
      exact iff_of_true (Nat.le_refl 1) hsmall
    · have htail := List.length_pos_iff.mpr (encodeVarintLoop_ne_nil fewer (value >>> 7))
      have hlarge := (ushiftRight_seven_eq_zero_iff value).not.mp hmore
      rw [hbytes, List.length_cons]
      exact iff_of_false (by omega) hlarge
  | succ count ih =>
    have hpow : 2 ^ (7 * (count + 1 + 1)) = 2 ^ (7 * (count + 1)) * 2 ^ 7 := by
      rw [← Nat.pow_add]
      rfl
    rcases encodeVarintLoop_cases hvalue with
      ⟨hzero, hbytes⟩ | ⟨fewer, rfl, -, hhigh, hbytes⟩
    · have hsmall := (ushiftRight_seven_eq_zero_iff value).mp hzero
      have hone := Nat.two_pow_pos (7 * (count + 1))
      rw [hbytes, List.length_singleton, hpow]
      exact iff_of_true (by omega) (by omega)
    · rw [hbytes, List.length_cons, Nat.succ_le_succ_iff, ih hhigh, BitVec.toNat_ushiftRight,
        Nat.shiftRight_eq_div_pow, Nat.div_lt_iff_lt_mul (by decide), hpow]

theorem encodeVarint_length_le_iff (value : BitVec 64) (count : Nat) :
    (encodeVarint value).length ≤ count + 1 ↔ value.toNat < 2 ^ (7 * (count + 1)) :=
  encodeVarintLoop_length_le_iff (Nat.lt_of_lt_of_le value.isLt (by decide)) count

/-- Larger values have no shorter encodings. -/
theorem encodeVarint_length_mono {smaller larger : BitVec 64} (hle : smaller.toNat ≤ larger.toNat) :
    (encodeVarint smaller).length ≤ (encodeVarint larger).length := by
  obtain ⟨count, hcount⟩ := Nat.exists_eq_succ_of_ne_zero
    (List.length_pos_iff.mpr (encodeVarint_ne_nil larger)).ne'
  have hlarger := (encodeVarint_length_le_iff larger count).mp hcount.le
  rw [hcount]
  exact (encodeVarint_length_le_iff smaller count).mpr (Nat.lt_of_le_of_lt hle hlarger)

/-- Whatever is read as a value is no shorter than its encoding. -/
theorem encodeVarint_length_le_used {used : Bytes} (hused : used ≠ []) :
    (encodeVarint (BitVec.ofNat 64 (groupsNumber used))).length ≤ used.length := by
  obtain ⟨count, hcount⟩ := Nat.exists_eq_succ_of_ne_zero (List.length_pos_iff.mpr hused).ne'
  have hnumber := groupsNumber_lt used
  rw [hcount, Nat.succ_eq_add_one] at hnumber ⊢
  rw [encodeVarint_length_le_iff, BitVec.toNat_ofNat]
  exact Nat.lt_of_le_of_lt (Nat.mod_le _ _) hnumber

/-! ### The contract -/

/-- What the encoder owes to a value: one to ten bytes, from which the decoder gets the
    value back, whatever follows them, and no other bytes with that value are fewer. -/
structure WrittenWell (value : BitVec 64) : Prop where
  length : 1 ≤ (encodeVarint value).length ∧ (encodeVarint value).length ≤ 10
  readBack : ∀ (region : Region) (following : Bytes) (valueOut : BitVec 64),
    region.bytes = encodeVarint value ++ following →
    region.decode valueOut = (true, ⟨region.start + (encodeVarint value).length, value⟩)
  shortest : ∀ (region : Region) (valueOut : BitVec 64) (next : Nat),
    region.decode valueOut = (true, ⟨next, value⟩) →
    region.start + (encodeVarint value).length ≤ next ∧ next ≤ region.stop

/-- What the decoder owes to a byte string: it succeeds if the high bit is clear in one of the
    first ten bytes, returns the groups up to the first such byte and stops behind it, and
    otherwise changes nothing. -/
structure Region.ReadWell (region : Region) (valueOut : BitVec 64) : Prop where
  succeeds : (region.decode valueOut).1 = true ↔ ∃ byte ∈ region.bytes.take 10, byte.msb = false
  value : ∀ (groups : Bytes) (last : Byte) (rest : Bytes),
    region.bytes = groups ++ last :: rest → groups.length < 10 →
    (∀ byte ∈ groups, byte.msb = true) → last.msb = false →
    region.decode valueOut = (true, ⟨region.start + (groups.length + 1),
      BitVec.ofNat 64 (groupsNumber (groups ++ [last]))⟩)
  untouched : (region.decode valueOut).1 = false →
    (region.decode valueOut).2 = ⟨region.start, valueOut⟩

theorem Region.decode_groups (region : Region) (valueOut : BitVec 64) {groups rest : Bytes}
    {last : Byte} (hsplit : region.bytes = groups ++ last :: rest) (hshort : groups.length < 10)
    (hmore : ∀ byte ∈ groups, byte.msb = true) (hlast : last.msb = false) :
    region.decode valueOut = (true, ⟨region.start + (groups.length + 1),
      BitVec.ofNat 64 (groupsNumber (groups ++ [last]))⟩) := by
  have hread := varint_groups hshort hmore hlast rest
  rw [← hsplit] at hread
  have hused : region.bytes = (groups ++ [last]) ++ rest := by
    rw [hsplit, List.append_assoc]
    rfl
  have hdecode := region.decode_of_some valueOut hused hread
  rw [List.length_append, List.length_singleton] at hdecode
  exact hdecode

theorem Region.decode_high_bits (region : Region) (valueOut : BitVec 64)
    (hmore : ∀ byte ∈ region.bytes.take 10, byte.msb = true) :
    region.decode valueOut = (false, ⟨region.start, valueOut⟩) :=
  region.decode_of_none valueOut (varintLoop_of_high_bits hmore 0 0)

theorem Region.readWell (region : Region) (valueOut : BitVec 64) : region.ReadWell valueOut := by
  rcases groups_or_high_bits region.bytes with
    ⟨groups, last, rest, hsplit, hmember, hshort, hmore, hlast⟩ | hmore
  · have hdecode := region.decode_groups valueOut hsplit hshort hmore hlast
    refine ⟨?_, fun _ _ _ => region.decode_groups valueOut, ?_⟩
    · rw [hdecode]
      exact iff_of_true rfl ⟨last, hmember, hlast⟩
    · intro hfails
      rw [hdecode] at hfails
      cases hfails
  · have hdecode := region.decode_high_bits valueOut hmore
    refine ⟨?_, fun _ _ _ => region.decode_groups valueOut, ?_⟩
    · rw [hdecode]
      refine iff_of_false Bool.false_ne_true ?_
      rintro ⟨byte, hbyte, hclear⟩
      rw [hmore byte hbyte] at hclear
      cases hclear
    · intro _
      rw [hdecode]

theorem writtenWell (value : BitVec 64) : WrittenWell value where
  length := ⟨List.length_pos_iff.mpr (encodeVarint_ne_nil value), encodeVarint_length_le value⟩
  readBack := by
    intro region following valueOut hbytes
    have hread := varint_encodeVarint value following
    rw [← hbytes] at hread
    exact region.decode_of_some valueOut hbytes hread
  shortest := by
    intro region valueOut next hdecode
    cases hread : Wire.varint region.bytes with
    | none =>
      rw [region.decode_of_none valueOut hread] at hdecode
      cases hdecode
    | some found =>
      obtain ⟨number, rest⟩ := found
      obtain ⟨used, hsplit, hused, hnumber⟩ := exists_used_of_varint hread
      rw [region.decode_of_some valueOut hsplit hread] at hdecode
      cases hdecode
      have hleast := encodeVarint_length_le_used hused
      have hbytes := congrArg List.length hsplit
      rw [← hnumber] at hleast
      rw [List.length_append] at hbytes
      unfold Region.stop
      omega

/-- **Varints keep their contract**, for every value and for every byte string. -/
theorem varint_contract :
    (∀ value : BitVec 64, WrittenWell value) ∧
      ∀ (region : Region) (valueOut : BitVec 64), region.ReadWell valueOut :=
  ⟨writtenWell, Region.readWell⟩

-- The tenth byte has room for one bit; an eleventh is never looked at.
example : (Buffer.placed (List.replicate 9 0x80 ++ [0x03]) (by decide)).region.decode 7 =
    (true, ⟨4106, 0x8000000000000000⟩) := by decide

example : (Buffer.placed (List.replicate 10 0x80 ++ [0x00]) (by decide)).region.decode 7 =
    (false, ⟨4096, 7⟩) := by decide

/-! ### ZigZag -/

/-- A code of the integers of a width by the magnitudes: an encoder and a decoder that are
    inverse to each other, such that integers of smaller magnitude have smaller codes and so
    no longer varints. -/
structure ZigzagCode {w : Nat} (encode decode : BitVec w → BitVec w) : Prop where
  nonneg : ∀ n : BitVec w, 0 ≤ n.toInt → ((encode n).toNat : Int) = 2 * n.toInt
  neg : ∀ n : BitVec w, n.toInt < 0 → ((encode n).toNat : Int) = -2 * n.toInt - 1
  decode_encode : Function.LeftInverse decode encode
  encode_decode : Function.RightInverse decode encode
  ordered : ∀ m n : BitVec w, m.toInt.natAbs < n.toInt.natAbs → (encode m).toNat < (encode n).toNat
  noLonger : ∀ m n : BitVec w, m.toInt.natAbs < n.toInt.natAbs →
    (encodeVarint ((encode m).setWidth 64)).length ≤ (encodeVarint ((encode n).setWidth 64)).length

theorem zigzag_surjective (w : Nat) :
    Function.Surjective fun n : BitVec w => n <<< 1 ^^^ n.sshiftRight (w - 1) := by
  have hfinite : Finite (BitVec w) := Finite.of_injective BitVec.toFin BitVec.toFin_injective
  have hinverse : Function.LeftInverse (fun code : BitVec w => (code >>> 1) ^^^ -(code &&& 1))
      fun n => n <<< 1 ^^^ n.sshiftRight (w - 1) := zigzag_inverse
  exact Finite.injective_iff_surjective.mp hinverse.injective

theorem zigzag_lt_of_natAbs_lt {w : Nat} {m n : BitVec w}
    (hless : m.toInt.natAbs < n.toInt.natAbs) :
    (m <<< 1 ^^^ m.sshiftRight (w - 1)).toNat < (n <<< 1 ^^^ n.sshiftRight (w - 1)).toNat := by
  have hm := zigzag_toNat m
  have hn := zigzag_toNat n
  split at hm <;> split at hn <;> omega

/-- Both widths at once; the code has to fit into a varint. -/
theorem zigzagCode_of_width_le {w : Nat} (hw : w ≤ 64) :
    ZigzagCode (fun n : BitVec w => n <<< 1 ^^^ n.sshiftRight (w - 1))
      fun code => (code >>> 1) ^^^ -(code &&& 1) where
  nonneg := by
    intro n hn
    have hcode := zigzag_toNat n
    rwa [if_neg (Int.not_lt.mpr hn)] at hcode
  neg := by
    intro n hn
    have hcode := zigzag_toNat n
    rwa [if_pos hn] at hcode
  decode_encode := zigzag_inverse
  encode_decode := Function.LeftInverse.rightInverse_of_surjective zigzag_inverse
    (zigzag_surjective w)
  ordered := fun _ _ => zigzag_lt_of_natAbs_lt
  noLonger := by
    intro m n hless
    apply encodeVarint_length_mono
    rw [BitVec.toNat_setWidth_of_le hw, BitVec.toNat_setWidth_of_le hw]
    exact (zigzag_lt_of_natAbs_lt hless).le

/-- **ZigZag orders by magnitude**, for both widths and all integers of the width. -/
theorem zigzag_by_magnitude :
    ZigzagCode zigzagEncode32 zigzagDecode32 ∧ ZigzagCode zigzagEncode64 zigzagDecode64 :=
  ⟨zigzagCode_of_width_le (by decide), zigzagCode_of_width_le (by decide)⟩

-- With equal magnitudes the negative integer can have the shorter varint.
example : (encodeVarint (zigzagEncode64 (-64))).length = 1 ∧
    (encodeVarint (zigzagEncode64 64)).length = 2 := by decide

end QuicproAsync.Iibin

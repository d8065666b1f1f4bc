import QuicproAsync.WebSocket
import QuicproAsync.WordBytes

/-!
# Reading WebSocket frames back

`parse_ws_frame_header` of `websocket.c` is called on what has been received so far and
answers that there is not enough data, or the opcode, the length of the payload and the
length of the header with the masking key. It reads back every header that
`create_ws_frame_header` writes, in any of the three length encodings, as soon as its last
byte is there. Since masking is an exclusive or, the payload of a frame of
`quicpro_ws_send` comes back by masking it once more with the key in front of it.
-/

namespace QuicproAsync.WebSocket

open Php WordBytes

/-! ### The parser -/

/-- What `parse_ws_frame_header` returns through its pointers. -/
structure FrameHeader where
  opcode : Byte
  payloadLen : BitVec 64
  headerLen : Nat
deriving DecidableEq

/-- The end of `parse_ws_frame_header`: the masking key belongs to the header. -/
def endOfHeader (bufferLen : Nat) (opcode : Byte) (isMasked : Bool) (payloadLen : BitVec 64)
    (currentPos : Nat) : Option FrameHeader :=
  if isMasked then
    if bufferLen < currentPos + 4 then none else some ⟨opcode, payloadLen, currentPos + 4⟩
  else some ⟨opcode, payloadLen, currentPos⟩

/-- `parse_ws_frame_header`; `none` is the answer 0, not enough data. -/
def parseWsFrameHeader (readBuffer : Bytes) : Option FrameHeader :=
  if readBuffer.length < 2 then none
  else
    let p := fun i => readBuffer.getD i 0x00#8
    let byteAt := fun i => (p i).setWidth 64
    let opcode := p 0 &&& 0x0f#8
    let isMasked := p 1 &&& 0x80#8 != 0x00#8
    let len := (p 1 &&& 0x7f#8).setWidth 64
    if len = 126#64 then
      if readBuffer.length < 4 then none
      else endOfHeader readBuffer.length opcode isMasked (byteAt 2 <<< 8 ||| byteAt 3) 4
    else if len = 127#64 then
      if readBuffer.length < 10 then none
      else
        endOfHeader readBuffer.length opcode isMasked
          (byteAt 2 <<< 56 ||| byteAt 3 <<< 48 ||| byteAt 4 <<< 40 ||| byteAt 5 <<< 32 |||
            byteAt 6 <<< 24 ||| byteAt 7 <<< 16 ||| byteAt 8 <<< 8 ||| byteAt 9) 10
    else endOfHeader readBuffer.length opcode isMasked len 2

/-! ### Where the header ends

The second byte decides where the header ends. As soon as the buffer reaches that far the
header is read, and nothing behind it is looked at. -/

/-- Where the length ends. -/
def lengthEnd (second : Byte) : Nat :=
  if (second &&& 0x7f#8).setWidth 64 = 126#64 then 4
  else if (second &&& 0x7f#8).setWidth 64 = 127#64 then 10
  else 2

def isMaskedBy (second : Byte) : Bool := second &&& 0x80#8 != 0x00#8

/-- Where the header ends, with the masking key if there is one. -/
def headerEnd (second : Byte) : Nat := lengthEnd second + if isMaskedBy second then 4 else 0

/-- The length of the payload. -/
def lengthOf (p : Nat → Byte) : BitVec 64 :=
  let byteAt := fun i => (p i).setWidth 64
  if lengthEnd (p 1) = 4 then byteAt 2 <<< 8 ||| byteAt 3
  else if lengthEnd (p 1) = 10 then
    byteAt 2 <<< 56 ||| byteAt 3 <<< 48 ||| byteAt 4 <<< 40 ||| byteAt 5 <<< 32 |||
      byteAt 6 <<< 24 ||| byteAt 7 <<< 16 ||| byteAt 8 <<< 8 ||| byteAt 9
  else (p 1 &&& 0x7f#8).setWidth 64

theorem lengthOf_two (p : Nat → Byte) (hend : lengthEnd (p 1) = 4) :
    lengthOf p = (p 2).setWidth 64 <<< 8 ||| (p 3).setWidth 64 := by
  rw [lengthOf, if_pos hend]

theorem lengthOf_eight (p : Nat → Byte) (hend : lengthEnd (p 1) = 10) :
    lengthOf p = (p 2).setWidth 64 <<< 56 ||| (p 3).setWidth 64 <<< 48 |||
      (p 4).setWidth 64 <<< 40 ||| (p 5).setWidth 64 <<< 32 ||| (p 6).setWidth 64 <<< 24 |||
      (p 7).setWidth 64 <<< 16 ||| (p 8).setWidth 64 <<< 8 ||| (p 9).setWidth 64 := by
  rw [lengthOf, if_neg (by rw [hend]; decide), if_pos hend]

theorem lengthOf_short (p : Nat → Byte) (hend : lengthEnd (p 1) = 2) :
    lengthOf p = (p 1 &&& 0x7f#8).setWidth 64 := by
  rw [lengthOf, if_neg (by rw [hend]; decide), if_neg (by rw [hend]; decide)]

theorem endOfHeader_eq {bufferLen currentPos : Nat} {second : Byte}
    (hend : lengthEnd second = currentPos) (hlength : currentPos ≤ bufferLen) (opcode : Byte)
    (payloadLen : BitVec 64) :
    endOfHeader bufferLen opcode (isMaskedBy second) payloadLen currentPos =
      if bufferLen < headerEnd second then none
      else some ⟨opcode, payloadLen, headerEnd second⟩ := by
  unfold endOfHeader headerEnd
  rw [hend]
  cases isMaskedBy second with
  | true => rfl
  | false =>
    simp only [Bool.false_eq_true, if_false, Nat.add_zero]
    rw [if_neg (by omega)]

theorem lengthEnd_le_headerEnd (second : Byte) : lengthEnd second ≤ headerEnd second :=
  Nat.le_add_right _ _

/-- What the parser reads. -/
theorem parseWsFrameHeader_eq (buffer : Bytes) :
    parseWsFrameHeader buffer =
      if buffer.length < 2 then none
      else if buffer.length < headerEnd (buffer.getD 1 0x00#8) then none
      else some ⟨buffer.getD 0 0x00#8 &&& 0x0f#8, lengthOf fun i => buffer.getD i 0x00#8,
        headerEnd (buffer.getD 1 0x00#8)⟩ := by
  have hle := lengthEnd_le_headerEnd (buffer.getD 1 0x00#8)
  unfold parseWsFrameHeader
  by_cases hshort : buffer.length < 2
  · rw [if_pos hshort, if_pos hshort]
  rw [if_neg hshort, if_neg hshort]
  dsimp only
  by_cases htwo : (buffer.getD 1 0x00#8 &&& 0x7f#8).setWidth 64 = 126#64
  · have hend : lengthEnd (buffer.getD 1 0x00#8) = 4 := by rw [lengthEnd, if_pos htwo]
    rw [if_pos htwo, lengthOf_two (buffer.getD · 0x00#8) hend]
    by_cases hcut : buffer.length < 4
    · rw [if_pos hcut, if_pos (by omega)]
    · rw [if_neg hcut]
      exact endOfHeader_eq hend (by omega) _ _
  by_cases height : (buffer.getD 1 0x00#8 &&& 0x7f#8).setWidth 64 = 127#64
  · have hend : lengthEnd (buffer.getD 1 0x00#8) = 10 := by
      rw [lengthEnd, if_neg htwo, if_pos height]
    rw [if_neg htwo, if_pos height, lengthOf_eight (buffer.getD · 0x00#8) hend]
    by_cases hcut : buffer.length < 10
    · rw [if_pos hcut, if_pos (by omega)]
    · rw [if_neg hcut]
      exact endOfHeader_eq hend (by omega) _ _
  · have hend : lengthEnd (buffer.getD 1 0x00#8) = 2 := by
      rw [lengthEnd, if_neg htwo, if_neg height]
    rw [if_neg htwo, if_neg height, lengthOf_short (buffer.getD · 0x00#8) hend]
    exact endOfHeader_eq hend (by omega) _ _

theorem lengthEnd_cases (second : Byte) :
    lengthEnd second = 4 ∨ lengthEnd second = 10 ∨ lengthEnd second = 2 := by
  unfold lengthEnd
  split
  · exact .inl rfl
  · split
    · exact .inr (.inl rfl)
    · exact .inr (.inr rfl)

/-- The length of the payload is read from the bytes in front of its end. -/
theorem lengthOf_congr {p p' : Nat → Byte} (hsame : ∀ i < lengthEnd (p 1), p i = p' i) :
    lengthOf p = lengthOf p' := by
  rcases lengthEnd_cases (p 1) with hend | hend | hend
  · rw [hend] at hsame
    have hend' : lengthEnd (p' 1) = 4 := by rw [← hsame 1 (by decide), hend]
    rw [lengthOf_two p hend, lengthOf_two p' hend', hsame 2 (by decide), hsame 3 (by decide)]
  · rw [hend] at hsame
    have hend' : lengthEnd (p' 1) = 10 := by rw [← hsame 1 (by decide), hend]
    rw [lengthOf_eight p hend, lengthOf_eight p' hend', hsame 2 (by decide), hsame 3 (by decide),
      hsame 4 (by decide), hsame 5 (by decide), hsame 6 (by decide), hsame 7 (by decide),
      hsame 8 (by decide), hsame 9 (by decide)]
  · rw [hend] at hsame
    have hend' : lengthEnd (p' 1) = 2 := by rw [← hsame 1 (by decide), hend]
    rw [lengthOf_short p hend, lengthOf_short p' hend', hsame 1 (by decide)]

/-- Short of the end of the header, the answer is that there is not enough data. -/
theorem parseWsFrameHeader_take {buffer : Bytes} {header : FrameHeader}
    (hsome : parseWsFrameHeader buffer = some header) {n : Nat} (hn : n < header.headerLen) :
    parseWsFrameHeader (buffer.take n) = none := by
  rw [parseWsFrameHeader_eq] at hsome
  split at hsome
  · cases hsome
  split at hsome
  · cases hsome
  cases hsome
  rw [parseWsFrameHeader_eq]
  by_cases hshort : (buffer.take n).length < 2
  · rw [if_pos hshort]
  · have hsecond : (buffer.take n).getD 1 0x00#8 = buffer.getD 1 0x00#8 := by
      rw [List.length_take] at hshort
      rw [List.getD_eq_getElem?_getD, List.getD_eq_getElem?_getD,
        List.getElem?_take_of_lt (by omega)]
    have hlength : (buffer.take n).length < headerEnd (buffer.getD 1 0x00#8) := by
      rw [List.length_take]
      exact Nat.lt_of_le_of_lt (Nat.min_le_left _ _) hn
    rw [if_neg hshort, hsecond, if_pos hlength]

/-- Bytes behind the header change nothing. -/
theorem parseWsFrameHeader_append {buffer : Bytes} {header : FrameHeader}
    (hsome : parseWsFrameHeader buffer = some header) (more : Bytes) :
    parseWsFrameHeader (buffer ++ more) = some header := by
  rw [parseWsFrameHeader_eq] at hsome
  split at hsome
  · cases hsome
  split at hsome
  · cases hsome
  rename_i htwo hend
  have hsame : ∀ i < buffer.length, (buffer ++ more).getD i 0x00#8 = buffer.getD i 0x00#8 := by
    intro i hi
    rw [List.getD_eq_getElem?_getD, List.getD_eq_getElem?_getD, List.getElem?_append_left hi]
  have hle := lengthEnd_le_headerEnd (buffer.getD 1 0x00#8)
  have hlength : lengthOf (fun i => (buffer ++ more).getD i 0x00#8) =
      lengthOf fun i => buffer.getD i 0x00#8 := by
    refine (lengthOf_congr fun i hi => ?_).symm
    exact (hsame i (by omega)).symm
  rw [parseWsFrameHeader_eq, hsame 0 (by omega), hsame 1 (by omega), hlength, List.length_append,
    if_neg (by omega), if_neg (by omega)]
  exact hsome

/-! ### Written headers -/

def keyBytes (isMasked : Bool) (key : MaskingKey) : Bytes := if isMasked then List.ofFn key else []

/-- The bytes in front of the payload. -/
def writtenHeader (opcode : Byte) (payloadLen : BitVec 64) (isMasked : Bool) (key : MaskingKey) :
    Bytes :=
  createWsFrameHeader opcode payloadLen isMasked ++ keyBytes isMasked key

def maskBit (isMasked : Bool) : Byte := if isMasked then 0x80#8 else 0x00#8

theorem opcode_read : ∀ opcode : Byte, opcode.toNat < 16 →
    (0x80#8 ||| (opcode &&& 0x0f#8)) &&& 0x0f#8 = opcode := by
  decide

theorem second_byte : ∀ (isMasked : Bool) (low : Byte), low.toNat < 128 →
    (maskBit isMasked ||| low) &&& 0x7f#8 = low ∧
      isMaskedBy (maskBit isMasked ||| low) = isMasked := by
  decide

theorem lengthEnd_second (isMasked : Bool) {low : Byte} (hlow : low.toNat < 128) :
    lengthEnd (maskBit isMasked ||| low) =
      if low = 126#8 then 4 else if low = 127#8 then 10 else 2 := by
  have hwide : ∀ other : Byte, low.setWidth 64 = other.setWidth 64 ↔ low = other := by
    intro other
    refine ⟨fun heq => ?_, fun heq => by rw [heq]⟩
    have hnarrow := congrArg (BitVec.setWidth 8) heq
    simpa using hnarrow
  rw [lengthEnd, (second_byte isMasked low hlow).1]
  exact if_congr (hwide 126#8) rfl (if_congr (hwide 127#8) rfl rfl)

/-- A buffer that is as long as the header it announces. -/
theorem parseWsFrameHeader_exact {first second : Byte} {more : Bytes}
    (hlength : more.length + 2 = headerEnd second) :
    parseWsFrameHeader (first :: second :: more) =
      some ⟨first &&& 0x0f#8, lengthOf fun i => (first :: second :: more).getD i 0x00#8,
        (first :: second :: more).length⟩ := by
  have hsecond : (first :: second :: more).getD 1 0x00#8 = second := rfl
  have htotal : (first :: second :: more).length = headerEnd second := hlength
  rw [parseWsFrameHeader_eq, hsecond, htotal, if_neg (by omega), if_neg (Nat.lt_irrefl _)]
  rfl

theorem length_keyBytes (isMasked : Bool) (key : MaskingKey) :
    (keyBytes isMasked key).length = if isMasked then 4 else 0 := by
  cases isMasked <;> simp [keyBytes]

section

variable {opcode low : Byte} {payloadLen : BitVec 64} {isMasked : Bool} {more : Bytes}

/-- The first byte of a frame: its last part, and the opcode. -/
def firstByte (opcode : Byte) : Byte := 0x80#8 ||| (opcode &&& 0x0f#8)

theorem parse_announced (hopcode : opcode.toNat < 16) (hlow : low.toNat < 128)
    (hlength : more.length + 2 =
      (if low = 126#8 then 4 else if low = 127#8 then 10 else 2) + if isMasked then 4 else 0)
    (hread : lengthOf (fun i => (firstByte opcode :: (maskBit isMasked ||| low) :: more).getD i
      0x00#8) = payloadLen) :
    parseWsFrameHeader (firstByte opcode :: (maskBit isMasked ||| low) :: more) =
      some ⟨opcode, payloadLen,
        (firstByte opcode :: (maskBit isMasked ||| low) :: more).length⟩ := by
  have hend : more.length + 2 = headerEnd (maskBit isMasked ||| low) := by
    rw [headerEnd, lengthEnd_second isMasked hlow, (second_byte isMasked low hlow).2, hlength]
  rw [parseWsFrameHeader_exact hend, hread, firstByte, opcode_read opcode hopcode]

end

section

variable {opcode : Byte} {payloadLen : BitVec 64} (isMasked : Bool) (key : MaskingKey)

/-- The length in the second byte. -/
theorem parse_short (hopcode : opcode.toNat < 16) (hshort : payloadLen ≤ 125) :
    parseWsFrameHeader (writtenHeader opcode payloadLen isMasked key) =
      some ⟨opcode, payloadLen, (writtenHeader opcode payloadLen isMasked key).length⟩ := by
  have hsmall : payloadLen.toNat ≤ 125 := hshort
  have hlow : (payloadLen.setWidth 8).toNat = payloadLen.toNat := by
    rw [BitVec.toNat_setWidth]
    exact Nat.mod_eq_of_lt (by omega)
  have hplain : ∀ other : Byte, 125 < other.toNat → payloadLen.setWidth 8 ≠ other := by
    rintro other hother rfl
    omega
  have hwritten : writtenHeader opcode payloadLen isMasked key =
      firstByte opcode :: (maskBit isMasked ||| payloadLen.setWidth 8) ::
        keyBytes isMasked key := by
    rw [writtenHeader, createWsFrameHeader, if_pos hshort]
    rfl
  have hend : lengthEnd (maskBit isMasked ||| payloadLen.setWidth 8) = 2 := by
    rw [lengthEnd_second isMasked (by omega), if_neg (hplain 126#8 (by decide)),
      if_neg (hplain 127#8 (by decide))]
  rw [hwritten]
  refine parse_announced hopcode (by omega) ?_ ?_
  · rw [if_neg (hplain 126#8 (by decide)), if_neg (hplain 127#8 (by decide)),
      length_keyBytes, Nat.add_comm]
  · have hread :
        (maskBit isMasked ||| payloadLen.setWidth 8) &&& 0x7f#8 = payloadLen.setWidth 8 :=
      (second_byte isMasked _ (by omega)).1
    rw [lengthOf_short _ (by exact hend), List.getD_cons_succ, List.getD_cons_zero, hread]
    apply BitVec.eq_of_toNat_eq
    rw [BitVec.toNat_setWidth, hlow]
    exact Nat.mod_eq_of_lt payloadLen.isLt

/-- The length in two bytes. -/
theorem parse_two (hopcode : opcode.toNat < 16) (hshort : ¬ payloadLen ≤ 125)
    (htwo : payloadLen ≤ 65535) :
    parseWsFrameHeader (writtenHeader opcode payloadLen isMasked key) =
      some ⟨opcode, payloadLen, (writtenHeader opcode payloadLen isMasked key).length⟩ := by
  have hsmall : payloadLen.toNat < 2 ^ 16 := Nat.lt_succ_of_le htwo
  have hwritten : writtenHeader opcode payloadLen isMasked key =
      firstByte opcode :: (maskBit isMasked ||| 126#8) :: (payloadLen >>> 8).setWidth 8 ::
        (payloadLen &&& 0xff).setWidth 8 :: keyBytes isMasked key := by
    rw [writtenHeader, createWsFrameHeader, if_neg hshort, if_pos htwo]
    rfl
  have hend : lengthEnd (maskBit isMasked ||| 126#8) = 4 := by
    rw [lengthEnd_second isMasked (by decide), if_pos rfl]
  rw [hwritten]
  refine parse_announced hopcode (by decide) ?_ ?_
  · rw [if_pos rfl, List.length_cons, List.length_cons, length_keyBytes]
    omega
  · rw [lengthOf_two _ (by exact hend)]
    simp only [List.getD_cons_succ, List.getD_cons_zero, setWidth_and_ff]
    exact join_two hsmall

/-- The length in eight bytes. -/
theorem parse_eight (hopcode : opcode.toNat < 16) (hshort : ¬ payloadLen ≤ 125)
    (htwo : ¬ payloadLen ≤ 65535) :
    parseWsFrameHeader (writtenHeader opcode payloadLen isMasked key) =
      some ⟨opcode, payloadLen, (writtenHeader opcode payloadLen isMasked key).length⟩ := by
  have hwritten : writtenHeader opcode payloadLen isMasked key =
      firstByte opcode :: (maskBit isMasked ||| 127#8) :: (payloadLen >>> 56).setWidth 8 ::
        (payloadLen >>> 48).setWidth 8 :: (payloadLen >>> 40).setWidth 8 ::
        (payloadLen >>> 32).setWidth 8 :: (payloadLen >>> 24).setWidth 8 ::
        (payloadLen >>> 16).setWidth 8 :: (payloadLen >>> 8).setWidth 8 ::
        (payloadLen &&& 0xff).setWidth 8 :: keyBytes isMasked key := by
    rw [writtenHeader, createWsFrameHeader, if_neg hshort, if_neg htwo]
    rfl
  have hend : lengthEnd (maskBit isMasked ||| 127#8) = 10 := by
    rw [lengthEnd_second isMasked (by decide), if_neg (by decide), if_pos rfl]
  rw [hwritten]
  refine parse_announced hopcode (by decide) ?_ ?_
  · rw [if_neg (by decide), if_pos rfl]
    simp only [List.length_cons, length_keyBytes]
    omega
  · rw [lengthOf_eight _ (by exact hend)]
    simp only [List.getD_cons_succ, List.getD_cons_zero, setWidth_and_ff]
    exact join_eight payloadLen

end

/-- **Written headers are read**, in each of the three encodings of the length. -/
theorem parse_writtenHeader {opcode : Byte} (hopcode : opcode.toNat < 16) (payloadLen : BitVec 64)
    (isMasked : Bool) (key : MaskingKey) :
    parseWsFrameHeader (writtenHeader opcode payloadLen isMasked key) =
      some ⟨opcode, payloadLen, (writtenHeader opcode payloadLen isMasked key).length⟩ := by
  by_cases hshort : payloadLen ≤ 125
  · exact parse_short isMasked key hopcode hshort
  by_cases htwo : payloadLen ≤ 65535
  · exact parse_two isMasked key hopcode hshort htwo
  · exact parse_eight isMasked key hopcode hshort htwo

/-! ### Frames -/

/-- The bytes behind the header, with the four bytes at its end over them, repeated. -/
def unmask (frame : Bytes) (headerLen : Nat) : Bytes :=
  (frame.drop headerLen).mapIdx fun i byte =>
    byte ^^^ ((frame.take headerLen).drop (headerLen - 4)).getD (i % 4) 0x00#8

theorem getD_ofFn (key : MaskingKey) (i : Nat) :
    (List.ofFn key).getD (i % 4) 0x00#8 = key (Fin.ofNat 4 i) := by
  have hlt : i % 4 < 4 := Nat.mod_lt i (by decide)
  rw [List.getD_eq_getElem?_getD, List.getElem?_ofFn, dif_pos hlt, Option.getD_some]
  rfl

/-- Masking twice with the same key changes nothing. -/
theorem mapIdx_maskPayload (key : MaskingKey) (data : Bytes) :
    (maskPayload key data).mapIdx (fun i byte => byte ^^^ key (Fin.ofNat 4 i)) = data := by
  apply List.ext_getElem?
  intro i
  rw [maskPayload, List.mapIdx_mapIdx, List.getElem?_mapIdx]
  cases data[i]? with
  | none => rfl
  | some byte =>
    rw [Option.map_some, Function.comp_apply, BitVec.xor_assoc, BitVec.xor_self, BitVec.xor_zero]

theorem wsFrame_eq (isBinary : Bool) (data : Bytes) (key : MaskingKey) :
    wsFrame isBinary data key =
      writtenHeader (if isBinary then Opcode.binary else .text).value
        (BitVec.ofNat 64 data.length) true key ++ maskPayload key data := rfl

theorem unmask_wsFrame (isBinary : Bool) (data : Bytes) (key : MaskingKey) :
    unmask (wsFrame isBinary data key)
      (writtenHeader (if isBinary then Opcode.binary else .text).value
        (BitVec.ofNat 64 data.length) true key).length = data := by
  rw [unmask, wsFrame_eq, List.drop_left, List.take_left]
  have hkey : (keyBytes true key).length = 4 := length_keyBytes true key
  have hdrop : ∀ header : Bytes, (header ++ keyBytes true key).drop
      ((header ++ keyBytes true key).length - 4) = List.ofFn key := by
    intro header
    rw [List.length_append, hkey, Nat.add_sub_cancel, List.drop_left]
    rfl
  rw [writtenHeader, hdrop]
  simp only [getD_ofFn]
  exact mapIdx_maskPayload key data

theorem completedFrame_eq {conn : WsConn} {call : SendCall} {frame : Bytes}
    (hframe : completedFrame conn call = some frame) :
    ∃ key, frame = wsFrame call.isBinary call.data key := by
  unfold completedFrame at hframe
  split at hframe
  · obtain ⟨key, -, rfl⟩ := Option.map_eq_some_iff.mp hframe
    exact ⟨key, rfl⟩
  · cases hframe

/-- **Frames read back.** Every header that is written, with the key behind it if it is masked,
    is read from any bytes that start with it; what stops short of its end is not enough data;
    and the payload of every message that is sent comes back from its frame. -/
theorem frames_read_back (opcode : Byte) (hopcode : opcode.toNat < 16) (payloadLen : BitVec 64)
    (isMasked : Bool) (key : MaskingKey) (following : Bytes) :
    parseWsFrameHeader (writtenHeader opcode payloadLen isMasked key ++ following) =
      some ⟨opcode, payloadLen, (writtenHeader opcode payloadLen isMasked key).length⟩ ∧
    (∀ part, part <+: writtenHeader opcode payloadLen isMasked key →
      part ≠ writtenHeader opcode payloadLen isMasked key → parseWsFrameHeader part = none) ∧
    ∀ (conn : WsConn) (call : SendCall) (frame : Bytes), completedFrame conn call = some frame →
      ∃ headerLen, parseWsFrameHeader frame =
          some ⟨(if call.isBinary then Opcode.binary else .text).value,
            BitVec.ofNat 64 call.data.length, headerLen⟩ ∧
        unmask frame headerLen = call.data := by
  have hwritten := parse_writtenHeader hopcode payloadLen isMasked key
  refine ⟨parseWsFrameHeader_append hwritten following, fun part hpart hne => ?_,
    fun conn call frame hframe => ?_⟩
  · have hlength := Nat.lt_of_le_of_ne hpart.length_le fun heq => hne (hpart.eq_of_length heq)
    rw [List.prefix_iff_eq_take.mp hpart]
    exact parseWsFrameHeader_take hwritten hlength
  · obtain ⟨key, rfl⟩ := completedFrame_eq hframe
    refine ⟨_, ?_, unmask_wsFrame call.isBinary call.data key⟩
    rw [wsFrame_eq]
    refine parseWsFrameHeader_append (parse_writtenHeader ?_ _ true key) _
    cases call.isBinary <;> decide

/-- A text frame of 300 bytes, and the message `A` sent on an open connection. -/
theorem frames_read_back_text :
    parseWsFrameHeader (writtenHeader 0x01#8 300 true (fun _ => 0x5a#8) ++ [0x41#8]) =
        some ⟨0x01#8, 300, 8⟩ ∧
      ∃ frame headerLen, completedFrame openConn (sendByte (some 100)) = some frame ∧
        parseWsFrameHeader frame = some ⟨0x01#8, 1, headerLen⟩ ∧
        unmask frame headerLen = [0x41#8] := by
  obtain ⟨hread, -, hsent⟩ :=
    frames_read_back 0x01#8 (by decide) 300 true (fun _ => 0x5a#8) [0x41#8]
  obtain ⟨headerLen, hparse, hdata⟩ := hsent openConn (sendByte (some 100)) _ rfl
  exact ⟨hread, _, headerLen, rfl, hparse, hdata⟩

end QuicproAsync.WebSocket

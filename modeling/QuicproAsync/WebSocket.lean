import QuicproAsync.PhpValue
import QuicproAsync.SendStream

/-!
# Sending on a WebSocket connection

`quicpro_ws_send` of `websocket.c` puts a message into one masked frame and hands the frame to
`quiche_stream_send` in a single call. The call is made with the mark of the last data of the
stream (the comment beside it says the opposite), and its result is only tested for being
negative.

So the first frame that the stream accepts as a whole ends it, and a frame that flow control cuts
off is reported as sent all the same. The parameters that PHP has parsed, the resource and the
session behind it are left out, and so are the error codes of quiche.
-/

namespace QuicproAsync.WebSocket

open Php

/-! ### Frames -/

/-- The opcodes that a message is sent with. -/
inductive Opcode where
  | text
  | binary

def Opcode.value : Opcode → Byte
  | .text => 0x01#8
  | .binary => 0x02#8

/-- `create_ws_frame_header`: the bytes it appends. -/
def createWsFrameHeader (opcode : Byte) (payloadLen : BitVec 64) (isMasked : Bool) : Bytes :=
  let first := 0x80#8 ||| (opcode &&& 0x0f#8)
  let mask := if isMasked then 0x80#8 else 0x00#8
  if payloadLen ≤ 125 then [first, mask ||| payloadLen.setWidth 8]
  else if payloadLen ≤ 65535 then
    [first, mask ||| 126#8, (payloadLen >>> 8).setWidth 8, (payloadLen &&& 0xff).setWidth 8]
  else
    [first, mask ||| 127#8, (payloadLen >>> 56).setWidth 8, (payloadLen >>> 48).setWidth 8,
      (payloadLen >>> 40).setWidth 8, (payloadLen >>> 32).setWidth 8,
      (payloadLen >>> 24).setWidth 8, (payloadLen >>> 16).setWidth 8,
      (payloadLen >>> 8).setWidth 8, (payloadLen &&& 0xff).setWidth 8]

/-- The four bytes of `masking_key_int`. -/
abbrev MaskingKey := Fin 4 → Byte

def maskPayload (key : MaskingKey) (data : Bytes) : Bytes :=
  data.mapIdx fun i byte => byte ^^^ key (Fin.ofNat 4 i)

/-- The frame that is built for a message. -/
def wsFrame (isBinary : Bool) (data : Bytes) (key : MaskingKey) : Bytes :=
  let opcode : Opcode := if isBinary then .binary else .text
  createWsFrameHeader opcode.value (BitVec.ofNat 64 data.length) true ++ List.ofFn key ++
    maskPayload key data

/-! ### Sending -/

inductive WsState where
  | connecting
  | open
  | closing
  | closed
deriving DecidableEq

/-- `quicpro_ws_conn_internal_t`, with the sending side of its stream. -/
structure WsConn where
  state : WsState
  stream : SendStream Byte

/-- A call of `quicpro_ws_send`, with the key that `RAND_bytes` gives, if it does, and what the
    stream has room for. -/
structure SendCall where
  data : Bytes
  isBinary : Bool
  maskingKey : Option MaskingKey
  room : Option Nat

/-- What a call returns to PHP. -/
inductive Outcome where
  /-- `TRUE`. -/
  | sent
  /-- `FALSE`. -/
  | notOpen
  /-- `FALSE`, with an exception. -/
  | exception (message : Bytes)
deriving DecidableEq

def quicproWsSend (conn : WsConn) (call : SendCall) : WsConn × Outcome :=
  if conn.state ≠ .open then (conn, .notOpen)
  else
    match call.maskingKey with
    | none => (conn, .exception (ascii "Failed to generate WebSocket masking key."))
    | some key =>
      match conn.stream.offer (wsFrame call.isBinary call.data key) true call.room with
      | none => (conn, .exception (ascii "WebSocket send failed on QUIC stream."))
      | some stream => ({ conn with stream := stream }, .sent)

/-- The frame of a call that returns `TRUE`. -/
def completedFrame (conn : WsConn) (call : SendCall) : Option Bytes :=
  if (quicproWsSend conn call).2 = .sent then
    call.maskingKey.map (wsFrame call.isBinary call.data)
  else none

/-- A sequence of calls: the connection, and the frames of those that have returned `TRUE`. -/
def sends (conn : WsConn) : List SendCall → WsConn × List Bytes
  | [] => (conn, [])
  | call :: rest =>
    let later := sends (quicproWsSend conn call).1 rest
    (later.1, (completedFrame conn call).toList ++ later.2)

/-- **Stream integrity.** The stream has accepted exactly the frames of the calls that have
    returned `TRUE`, in order, and is still open. -/
structure Intact (conn : WsConn) (calls : List SendCall) : Prop where
  accepted : (sends conn calls).1.stream.accepted =
    conn.stream.accepted ++ (sends conn calls).2.flatten
  unfinished : (sends conn calls).1.stream.finished = false

/-! ### One call -/

variable {conn : WsConn} {call : SendCall} {calls : List SendCall}

/-- A call that returns `TRUE` has offered its frame as the last data of the stream; any other
    leaves the stream alone. -/
theorem quicproWsSend_cases (conn : WsConn) (call : SendCall) :
    (completedFrame conn call = none ∧ (quicproWsSend conn call).1 = conn) ∨
      ∃ frame stream, completedFrame conn call = some frame ∧
        conn.stream.offer frame true call.room = some stream ∧
        (quicproWsSend conn call).1 = { conn with stream := stream } := by
  by_cases hopen : conn.state = .open
  · cases hkey : call.maskingKey with
    | none =>
      refine Or.inl ?_
      simp [completedFrame, quicproWsSend, hopen, hkey]
    | some key =>
      cases hoffer : conn.stream.offer (wsFrame call.isBinary call.data key) true call.room with
      | none =>
        refine Or.inl ?_
        simp [completedFrame, quicproWsSend, hopen, hkey, hoffer]
      | some stream =>
        refine Or.inr ⟨wsFrame call.isBinary call.data key, stream, ?_, hoffer, ?_⟩
        · simp [completedFrame, quicproWsSend, hopen, hkey, hoffer]
        · simp [quicproWsSend, hopen, hkey, hoffer]
  · refine Or.inl ?_
    simp [completedFrame, quicproWsSend, hopen]

/-! ### Sequences of calls -/

/-- The stream is finished, or has fewer bytes than it should. Neither can be made good. -/
def Broken (conn : WsConn) (due : Nat) : Prop :=
  conn.stream.finished = true ∨ conn.stream.accepted.length < due

theorem Broken.after_offer {frame : Bytes} {stream : SendStream Byte} {due : Nat}
    (hoffer : conn.stream.offer frame true call.room = some stream)
    (hdue : conn.stream.accepted.length ≤ due) :
    Broken { conn with stream := stream } (due + frame.length) := by
  rcases SendStream.offer_last hoffer with ⟨hfinished, -⟩ | ⟨-, hshort⟩
  · exact Or.inl hfinished
  · exact Or.inr (Nat.lt_of_lt_of_le hshort (Nat.add_le_add_right hdue _))

theorem Broken.after_sends {due : Nat} (hbroken : Broken conn due) (calls : List SendCall) :
    Broken (sends conn calls).1 (due + (sends conn calls).2.flatten.length) := by
  induction calls generalizing conn due with
  | nil => exact hbroken
  | cons call rest ih =>
    unfold sends
    rcases quicproWsSend_cases conn call with
      ⟨hframe, hsame⟩ | ⟨frame, stream, hframe, hoffer, hnext⟩
    · rw [hframe, hsame]
      exact ih hbroken
    · have hshort : conn.stream.accepted.length < due := by
        rcases hbroken with hfinished | hshort
        · rw [SendStream.offer_finished hfinished] at hoffer
          cases hoffer
        · exact hshort
      have hlater := ih (Broken.after_offer hoffer (Nat.le_of_lt hshort))
      rw [hframe, hnext]
      simpa [Nat.add_assoc] using hlater

/-- Unless all calls have failed, the stream is broken after them. -/
theorem sends_cases (conn : WsConn) (calls : List SendCall) :
    ((sends conn calls).2 = [] ∧ (sends conn calls).1 = conn) ∨
      ((sends conn calls).2 ≠ [] ∧ Broken (sends conn calls).1
        (conn.stream.accepted.length + (sends conn calls).2.flatten.length)) := by
  induction calls with
  | nil => exact Or.inl ⟨rfl, rfl⟩
  | cons call rest ih =>
    unfold sends
    rcases quicproWsSend_cases conn call with
      ⟨hframe, hsame⟩ | ⟨frame, stream, hframe, hoffer, hnext⟩
    · rw [hframe, hsame]
      exact ih
    · have hbroken : Broken { conn with stream := stream } _ :=
        Broken.after_offer hoffer (Nat.le_refl _)
      have hlater := hbroken.after_sends rest
      rw [hframe, hnext]
      exact Or.inr ⟨List.cons_ne_nil _ _, by simpa [Nat.add_assoc] using hlater⟩

/-- The call is refused, on a connection with an unfinished stream: the connection is not open,
    there is no masking key, or the stream takes nothing. -/
def Refused (conn : WsConn) (call : SendCall) : Prop :=
  conn.state ≠ .open ∨ call.maskingKey = none ∨ call.room = none

theorem completedFrame_eq_none_iff (hopen : conn.stream.finished = false) :
    completedFrame conn call = none ↔ Refused conn call := by
  unfold Refused completedFrame quicproWsSend
  by_cases hstate : conn.state = .open
  · cases hkey : call.maskingKey with
    | none => simp [hstate]
    | some key => cases hroom : call.room <;> simp [hstate, SendStream.offer, hopen]
  · simp [hstate]

/-- Nothing is sent if and only if each call is refused by the connection as it is before the
    first of them. -/
theorem sends_eq_nil_iff (hopen : conn.stream.finished = false) :
    (sends conn calls).2 = [] ↔ ∀ call ∈ calls, Refused conn call := by
  induction calls with
  | nil => exact iff_of_true rfl (by simp)
  | cons call rest ih =>
    rw [List.forall_mem_cons, ← completedFrame_eq_none_iff hopen]
    unfold sends
    rcases quicproWsSend_cases conn call with ⟨hframe, hsame⟩ | ⟨frame, stream, hframe, -⟩
    · simp only [hframe, hsame, Option.toList_none, List.nil_append, true_and]
      exact ih
    · simp [hframe]

/-- **Stream integrity** is kept if and only if every call is refused: for every sequence of calls
    on a connection whose stream is unfinished, and whatever the stream accepts of each frame. -/
theorem stream_intact_iff (conn : WsConn) (calls : List SendCall)
    (hopen : conn.stream.finished = false) :
    Intact conn calls ↔ ∀ call ∈ calls, Refused conn call := by
  rw [← sends_eq_nil_iff hopen]
  constructor
  · intro hintact
    rcases sends_cases conn calls with ⟨hnone, -⟩ | ⟨-, hfinished | hshort⟩
    · exact hnone
    · rw [hintact.unfinished] at hfinished
      cases hfinished
    · rw [hintact.accepted, List.length_append] at hshort
      exact absurd hshort (Nat.lt_irrefl _)
  · intro hnone
    rcases sends_cases conn calls with ⟨-, hsame⟩ | ⟨hsome, -⟩
    · refine ⟨?_, ?_⟩
      · rw [hsame, hnone, List.flatten_nil, List.append_nil]
      · rw [hsame]
        exact hopen
    · exact absurd hnone hsome

/-! ### Two sequences -/

def openConn : WsConn := ⟨.open, .fresh⟩

/-- A one-byte message, and what the stream has room for. -/
def sendByte (room : Option Nat) : SendCall := ⟨[0x41#8], false, some fun _ => 0x00#8, room⟩

theorem stream_intact_refused : Intact openConn [sendByte none, sendByte none] :=
  (stream_intact_iff openConn _ rfl).mpr (by simp [Refused, sendByte])

/-- The first message goes out as a whole and finishes the stream, so the second is refused. Where
    the stream has room for three bytes only, the call returns `TRUE` as well. -/
theorem sends_finish_or_truncate :
    (quicproWsSend openConn (sendByte (some 100))).2 = .sent ∧
      (quicproWsSend openConn (sendByte (some 100))).1.stream.finished = true ∧
      ¬ Intact openConn [sendByte (some 100), sendByte (some 100)] ∧
      (quicproWsSend openConn (sendByte (some 3))).2 = .sent ∧
      (quicproWsSend openConn (sendByte (some 3))).1.stream.accepted.length = 3 ∧
      ¬ Intact openConn [sendByte (some 3)] := by
  refine ⟨by decide, by decide, ?_, by decide, by decide, ?_⟩
  · intro hintact
    exact absurd hintact.unfinished (by decide)
  · intro hintact
    exact absurd (congrArg List.length hintact.accepted) (by decide)

end QuicproAsync.WebSocket

import QuicproAsync.PhpValue

/-!
# Closing a client session

The client drives a QUIC connection with `quicpro_client_session_tick`, which reads what has come
in and sends what quiche has ready. `quicpro_client_session_fetch_datagram` is meant to hand single
datagrams to the caller, which would send them itself. `quicpro_client_session_close` asks quiche
to close the connection and calls the tick to send the goodbye.

Before it does so it marks the session as closed, and a closed session is left alone by the tick
and by the fetch. What quiche has queued for the peer stays where it is.

The connection is given by the packets that `quiche_conn_send` would hand out. What the system and
quiche answer during a call is part of the call; the texts of their errors are given.
-/

namespace QuicproAsync.ClientSession

open Php

/-! ### The session -/

/-- `quiche_conn`: the packets that are ready to be sent. -/
structure QuicConn where
  queue : List Bytes

/-- `quicpro_session_t`: the connection, none for a null pointer, and the flag. -/
structure Session where
  conn : Option QuicConn
  isClosed : Bool

/-- How the loop that reads from the socket ends. -/
inductive Reading where
  | wouldBlock
  | empty
  | failed (error : Bytes)

/-- What becomes of the next packet. -/
inductive Sending where
  | sent
  | wouldBlock
  | failed (error : Bytes)
  /-- `sendto` reports another number of bytes than the packet has. -/
  | short (written : Nat)
  /-- `quiche_conn_send` fails. -/
  | ungenerated (error : Bytes)

/-- What is answered during a tick. -/
structure TickAnswers where
  /-- The packets that quiche queues for each datagram that is read. -/
  received : List (List Bytes)
  reading : Reading
  /-- The packets that quiche queues when its timers are processed. -/
  timers : List Bytes
  sending : List Sending
  /-- `quiche_conn_is_closed` or `quiche_conn_is_draining`. -/
  isOver : Bool

/-- What a call returns to PHP. -/
inductive Returned where
  | bool (value : Bool)
  | long (value : Nat)
  /-- `FALSE`, with an exception. -/
  | exception (message : Bytes)

/-! ### The tick -/

/-- The loop that sends: what is left in the queue, what was sent, and the exception if there is
    one. A packet that the socket does not take is out of the queue. -/
def sendPackets : List Bytes → List Sending → List Bytes × List Bytes × Option Bytes
  | [], _ => ([], [], none)
  | packet :: queue, answers =>
    match answers.headD .sent with
    | .sent =>
      let (rest, sent, exception) := sendPackets queue answers.tail
      (rest, packet :: sent, exception)
    | .wouldBlock => (queue, [], none)
    | .failed error => (queue, [], some (ascii "Failed to send UDP packet: " ++ error))
    | .short written =>
      (queue, [], some (ascii "Partial UDP packet send. Expected " ++
        ascii (toString packet.length) ++ ascii " bytes, sent " ++
        ascii (toString written) ++
        ascii " bytes. This indicates a serious network stack issue."))
    | .ungenerated error =>
      (packet :: queue, [], some (ascii "Failed to generate outgoing QUIC packet: " ++ error))

/-- The part of the tick behind the reading loop. -/
def sendAndCheck (session : Session) (queue : List Bytes) (answers : TickAnswers) :
    Session × List Bytes × Returned :=
  let (rest, sent, exception) := sendPackets (queue ++ answers.timers) answers.sending
  let session := { session with conn := some ⟨rest⟩ }
  match exception with
  | some message => (session, sent, .exception message)
  | none =>
    if answers.isOver then ({ session with isClosed := true }, sent, .bool false)
    else (session, sent, .bool true)

/-- The session, the packets that were sent, and the result. -/
def quicproClientSessionTick (session : Session) (answers : TickAnswers) :
    Session × List Bytes × Returned :=
  match session.conn with
  | none => (session, [], .bool false)
  | some conn =>
    if session.isClosed then (session, [], .bool false)
    else
      let queue := conn.queue ++ answers.received.flatten
      match answers.reading with
      | .failed error =>
        ({ session with conn := some ⟨queue⟩ }, [],
          .exception (ascii "Failed to read UDP packet from socket: " ++ error))
      | _ => sendAndCheck session queue answers

/-! ### Fetching and closing -/

/-- The session, the packets that are handed out, and the result. `failing` is the error of
    `quiche_conn_send`, if it has one. -/
def quicproClientSessionFetchDatagram (session : Session) (bufferSize : Int)
    (failing : Option Bytes) : Session × List Bytes × Returned :=
  match session.conn with
  | none => (session, [], .bool false)
  | some conn =>
    if session.isClosed then (session, [], .bool false)
    else if bufferSize ≤ 0 then
      (session, [], .exception (ascii "Provided buffer_size must be a positive integer."))
    else
      match failing with
      | some error =>
        (session, [], .exception (ascii "Failed to fetch outgoing QUIC datagram: " ++ error))
      | none =>
        match conn.queue with
        | [] => (session, [], .long 0)
        | packet :: queue =>
          -- `ZVAL_STRINGL` writes the packet over the argument itself, which is not
          -- dereferenced: the caller's variable stays as it was, and the packet is lost
          ({ session with conn := some ⟨queue⟩ }, [], .long packet.length)

/-- A call of `quicpro_client_session_close`. -/
structure CloseCall where
  applicationClose : Bool
  errorCode : BitVec 64
  reason : Option Bytes
  /-- The packets that `quiche_conn_close` queues. -/
  quicheConnClose : Bool → BitVec 64 → Bytes → List Bytes
  tick : TickAnswers

/-- The goodbye: the packets that are queued by the call. -/
def CloseCall.packets (call : CloseCall) : List Bytes :=
  call.quicheConnClose call.applicationClose call.errorCode (call.reason.getD [])

/-- The session, the packets that were sent, and the result. -/
def quicproClientSessionClose (session : Session) (call : CloseCall) :
    Session × List Bytes × Returned :=
  match session.conn with
  | none => (session, [], .bool false)
  | some conn =>
    if session.isClosed then (session, [], .bool false)
    else
      let session : Session := ⟨some ⟨conn.queue ++ call.packets⟩, true⟩
      let (session, sent, _) := quicproClientSessionTick session call.tick
      (session, sent, .bool true)

/-! ### After the close -/

inductive LaterCall where
  | tick (answers : TickAnswers)
  | fetchDatagram (bufferSize : Int) (failing : Option Bytes)

def LaterCall.run (session : Session) : LaterCall → Session × List Bytes × Returned
  | .tick answers => quicproClientSessionTick session answers
  | .fetchDatagram bufferSize failing =>
    quicproClientSessionFetchDatagram session bufferSize failing

/-- The packets that a sequence of calls hands out. -/
def handedOut (session : Session) : List LaterCall → List Bytes
  | [] => []
  | call :: rest => (call.run session).2.1 ++ handedOut (call.run session).1 rest

/-- **The goodbye is said.** The packets of the close are sent during the call or handed out by
    the later ones. -/
def SaysGoodbye (session : Session) (call : CloseCall) (later : List LaterCall) : Prop :=
  call.packets.Sublist ((quicproClientSessionClose session call).2.1 ++
    handedOut (quicproClientSessionClose session call).1 later)

theorem run_closed {session : Session} (hclosed : session.isClosed = true) (call : LaterCall) :
    (call.run session).1 = session ∧ (call.run session).2.1 = [] := by
  cases call with
  | tick answers =>
    rw [LaterCall.run, quicproClientSessionTick]
    split
    · exact ⟨rfl, rfl⟩
    · rw [if_pos hclosed]
      exact ⟨rfl, rfl⟩
  | fetchDatagram bufferSize failing =>
    rw [LaterCall.run, quicproClientSessionFetchDatagram]
    split
    · exact ⟨rfl, rfl⟩
    · rw [if_pos hclosed]
      exact ⟨rfl, rfl⟩

/-- A closed session hands out nothing, whatever is called. -/
theorem handedOut_closed {session : Session} (hclosed : session.isClosed = true)
    (calls : List LaterCall) : handedOut session calls = [] := by
  induction calls with
  | nil => rfl
  | cons call rest ih =>
    obtain ⟨hsame, hnone⟩ := run_closed hclosed call
    rw [handedOut, hsame, hnone, ih]
    rfl

/-- **The goodbye is said** if and only if there is none: for every open session, every close
    call, which returns `TRUE`, and every sequence of later calls. -/
theorem says_goodbye_iff (session : Session) (conn : QuicConn) (call : CloseCall)
    (later : List LaterCall) (hconn : session.conn = some conn) (hopen : session.isClosed = false) :
    (quicproClientSessionClose session call).2.2 = .bool true ∧
      (SaysGoodbye session call later ↔ call.packets = []) := by
  -- the tick inside the close finds the session closed
  have hclose : quicproClientSessionClose session call =
      (⟨some ⟨conn.queue ++ call.packets⟩, true⟩, [], .bool true) := by
    rw [quicproClientSessionClose, hconn]
    simp [hopen, quicproClientSessionTick]
  refine ⟨by rw [hclose], ?_⟩
  rw [SaysGoodbye, hclose, handedOut_closed rfl]
  exact List.sublist_nil

/-! ### A session that is closed -/

def writable : TickAnswers := ⟨[], .wouldBlock, [], [], false⟩

def closeWith (packets : List Bytes) : CloseCall := ⟨true, 0, none, fun _ _ _ => packets, writable⟩

def connected : Session := ⟨some ⟨[]⟩, false⟩

theorem says_goodbye_without_packets : SaysGoodbye connected (closeWith []) [.tick writable] :=
  (says_goodbye_iff connected ⟨[]⟩ (closeWith []) [.tick writable] rfl rfl).2.mpr rfl

/-- One close packet: neither the close nor ticks and fetches after it send it, and it stays in the
    queue. -/
theorem goodbye_never_sent :
    (quicproClientSessionClose connected (closeWith [[0x1c#8]])).1.conn = some ⟨[[0x1c#8]]⟩ ∧
      ¬ SaysGoodbye connected (closeWith [[0x1c#8]])
        [.tick writable, .fetchDatagram 1350 none, .tick writable] := by
  refine ⟨rfl, fun hsays => ?_⟩
  exact absurd hsays.length_le (by decide)

end QuicproAsync.ClientSession

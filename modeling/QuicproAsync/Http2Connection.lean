import QuicproAsync.Http1Closing

/-!
# Connections of the HTTP/2 server

`handle_client_event` of `http2.c` drives a connection before and after its handshake. As long
as there is no nghttp2 session, an event starts with `SSL_accept`; a handshake that has to wait
for the peer does not end the event, though. The function goes on to its reading and writing
parts, and these use the session without asking whether it is there.

A new connection is watched for readiness in both directions, and its socket can be written to
from the beginning. A call with a null session is where a run of the model ends: nghttp2 reads
through the pointer. What it makes of the bytes of a session is in `Http2Server`.
-/

namespace QuicproAsync.Http2

open Php Machine
open Http1 (SslError)

/-! ### The connection -/

/-- What `SSL_read` returns: a positive count of bytes, zero, or less. -/
inductive SslRead where
  | bytes (data : Bytes)
  | zero
  | negative (error : SslError)

/-- An event of the connection, and what the calls return while it is handled. -/
structure Event where
  epollin : Bool
  epollout : Bool
  accept : Except SslError Unit
  read : SslRead
  memRecv : Int
  send : Int

inductive NghttpCall where
  | memRecv (data : Bytes)
  | send
deriving DecidableEq

/-- A call of nghttp2, whether `SSL_accept` had succeeded before, and whether there was a
    session. -/
structure Use where
  call : NghttpCall
  accepted : Bool
  session : Bool
deriving DecidableEq

inductive Status where
  | serving
  | closed
  | crashed
deriving DecidableEq

/-- `http2_session_t`: whether `ngh2_session` is set. `accepted` and `uses` keep what was done. -/
structure Connection where
  ngh2Session : Bool
  status : Status
  accepted : Bool
  uses : List Use

/-- `ecalloc` leaves the pointer to the session null. -/
def newConnection : Connection := ⟨false, .serving, false, []⟩

def readBufferSize : Nat := 16384

def Connection.use (conn : Connection) (call : NghttpCall) : Connection :=
  { conn with
    uses := conn.uses ++ [⟨call, conn.accepted, conn.ngh2Session⟩]
    status := if conn.ngh2Session then conn.status else .crashed }

def Connection.close (conn : Connection) : Connection := { conn with status := .closed }

/-- The handshake, the first part of `handle_client_event`. -/
def handshake (conn : Connection) (event : Event) : Connection :=
  if conn.ngh2Session then conn
  else
    match event.accept with
    | .ok _ => { conn with accepted := true, ngh2Session := true }
    | .error error => if error ≠ .wantRead ∧ error ≠ .wantWrite then conn.close else conn

/-- The second part. A read of no bytes, or of more than fit the buffer, is refused. -/
def receive (conn : Connection) (event : Event) : Option Connection :=
  if event.epollin then
    match event.read with
    | .bytes data =>
      if data = [] ∨ readBufferSize < data.length then none
      else
        let conn := conn.use (.memRecv data)
        if conn.status = .serving ∧ event.memRecv ≠ data.length then some conn.close
        else some conn
    | .zero => some conn.close
    | .negative error => if error ≠ .wantRead then some conn.close else some conn
  else some conn

/-- The third part. -/
def sendPending (conn : Connection) (event : Event) : Connection :=
  if event.epollout then
    let conn := conn.use .send
    if conn.status = .serving ∧ event.send ≠ 0 then conn.close else conn
  else conn

def handleClientEvent (conn : Connection) (event : Event) : Option Connection :=
  if conn.status ≠ .serving then none
  else
    let conn := handshake conn event
    if conn.status ≠ .serving then some conn
    else (receive conn event).map fun conn =>
      if conn.status ≠ .serving then conn else sendPending conn event

/-! ### Uses of nghttp2 -/

def Use.Ready (use : Use) : Prop := use.accepted = true ∧ use.session = true

/-- Every call of nghttp2 so far came after a successful `SSL_accept`, with a session. -/
def UsedWhenReady (conn : Connection) : Prop := ∀ use ∈ conn.uses, use.Ready

/-- The read of the event ends it. -/
def Event.readCloses (event : Event) : Bool :=
  event.epollin &&
    match event.read with
    | .bytes _ => false
    | .zero => true
    | .negative error => error ≠ .wantRead

def Event.readsBytes (event : Event) : Bool :=
  event.epollin &&
    match event.read with
    | .bytes _ => true
    | .zero | .negative _ => false

/-- The handshake stays pending. -/
def Event.waits (event : Event) : Bool :=
  match event.accept with
  | .ok _ => false
  | .error error => error.wouldBlock

/-- The handshake stays pending, and the event brings bytes, or it is one for writing that is
    not ended by its read. -/
def TooEarly (conn : Connection) (event : Event) : Prop :=
  conn.ngh2Session = false ∧ event.waits = true ∧
    (event.readsBytes = true ∨ event.epollout = true ∧ event.readCloses = false)

/-- A session is made after the handshake only. -/
def Opened (conn : Connection) : Prop := conn.ngh2Session = true → conn.accepted = true

variable {conn middle next : Connection} {event : Event}

/-- A call keeps to the order exactly if there is a session. -/
theorem usedWhenReady_use (hopened : Opened conn) (call : NghttpCall) :
    UsedWhenReady (conn.use call) ↔ UsedWhenReady conn ∧ ¬ conn.ngh2Session = false := by
  have hlast : conn.accepted = true ∧ conn.ngh2Session = true ↔ conn.ngh2Session = true :=
    and_iff_right_of_imp hopened
  rw [UsedWhenReady, Connection.use, List.forall_mem_append, List.forall_mem_singleton,
    Bool.not_eq_false, ← hlast]
  rfl

/-! ### The parts of an event -/

theorem handshake_uses (conn : Connection) (event : Event) :
    (handshake conn event).uses = conn.uses := by
  unfold handshake
  split
  · rfl
  · split
    · rfl
    · split <;> rfl

theorem handshake_opened (hopened : Opened conn) (event : Event) :
    Opened (handshake conn event) := by
  unfold handshake
  split
  · exact hopened
  · split
    · exact fun _ => rfl
    · split <;> exact hopened

/-- After the first part, a connection that is served has a session or waits for it. -/
theorem handshake_pending_iff (hserving : conn.status = .serving) :
    (handshake conn event).status = .serving ∧ (handshake conn event).ngh2Session = false ↔
      conn.ngh2Session = false ∧ event.waits = true := by
  unfold handshake Event.waits
  cases hsession : conn.ngh2Session with
  | true => simp [hsession]
  | false =>
    cases event.accept with
    | ok done => simp
    | error error =>
      cases error <;> simp [Connection.close, SslError.wouldBlock, hserving, hsession]

/-- What the second part can do: nothing, close the connection, or pass bytes on. -/
theorem receive_cases (hreceive : receive conn event = some middle) :
    (event.readsBytes = false ∧ event.readCloses = false ∧ middle = conn) ∨
    (event.readsBytes = false ∧ event.readCloses = true ∧ middle = conn.close) ∨
    (event.readsBytes = true ∧ ∃ data, middle = conn.use (.memRecv data) ∨
      (conn.use (.memRecv data)).status = .serving ∧
        middle = (conn.use (.memRecv data)).close) := by
  unfold receive at hreceive
  unfold Event.readsBytes Event.readCloses
  cases hin : event.epollin with
  | false =>
    rw [hin] at hreceive
    cases hreceive
    exact .inl ⟨rfl, rfl, rfl⟩
  | true =>
    rw [hin, if_pos rfl] at hreceive
    cases hread : event.read with
    | bytes data =>
      rw [hread] at hreceive
      obtain ⟨-, hreceive⟩ := Option.ite_none_left_eq_some.mp hreceive
      refine .inr (.inr ⟨rfl, data, ?_⟩)
      dsimp only at hreceive
      split at hreceive
      · next hshort =>
          cases hreceive
          exact .inr ⟨hshort.1, rfl⟩
      · cases hreceive
        exact .inl rfl
    | zero =>
      rw [hread] at hreceive
      cases hreceive
      exact .inr (.inl ⟨rfl, rfl, rfl⟩)
    | negative error =>
      rw [hread] at hreceive
      dsimp only at hreceive
      split at hreceive
      · next hfatal =>
          cases hreceive
          exact .inr (.inl ⟨rfl, by simpa using hfatal, rfl⟩)
      · next hwait =>
          cases hreceive
          exact .inl ⟨rfl, by simpa using hwait, rfl⟩

theorem receive_session (hreceive : receive conn event = some middle) :
    middle.ngh2Session = conn.ngh2Session ∧ middle.accepted = conn.accepted := by
  rcases receive_cases hreceive with ⟨-, -, rfl⟩ | ⟨-, -, rfl⟩ | ⟨-, data, rfl | ⟨-, rfl⟩⟩ <;>
    exact ⟨rfl, rfl⟩

theorem receive_opened (hopened : Opened conn) (hreceive : receive conn event = some middle) :
    Opened middle := by
  rwa [Opened, (receive_session hreceive).1, (receive_session hreceive).2]

/-- Without a session, the event goes on to its third part only if nothing was read. -/
theorem receive_serving_iff (hserving : conn.status = .serving) (hnone : conn.ngh2Session = false)
    (hreceive : receive conn event = some middle) :
    middle.status = .serving ↔ event.readsBytes = false ∧ event.readCloses = false := by
  rcases receive_cases hreceive with ⟨hbytes, hcloses, rfl⟩ | ⟨hbytes, hcloses, rfl⟩ |
    ⟨hbytes, data, rfl | ⟨-, rfl⟩⟩
  · simp [hserving, hbytes, hcloses]
  · simp [Connection.close, hcloses]
  · simp [Connection.use, hnone, hbytes]
  · simp [Connection.close, hbytes]

theorem receive_ready_iff (hopened : Opened conn) (hreceive : receive conn event = some middle) :
    UsedWhenReady middle ↔
      UsedWhenReady conn ∧ ¬ (conn.ngh2Session = false ∧ event.readsBytes = true) := by
  rcases receive_cases hreceive with ⟨hbytes, -, rfl⟩ | ⟨hbytes, -, rfl⟩ |
    ⟨hbytes, data, rfl | ⟨-, rfl⟩⟩
  · simp [hbytes]
  · simp only [hbytes, Bool.false_eq_true, and_false, not_false_eq_true, and_true]
    rfl
  · rw [usedWhenReady_use hopened, hbytes, and_iff_left rfl]
  · rw [hbytes, and_iff_left rfl, ← usedWhenReady_use hopened (.memRecv data)]
    rfl

theorem sendPending_ready_iff (hopened : Opened conn) (event : Event) :
    UsedWhenReady (sendPending conn event) ↔
      UsedWhenReady conn ∧ ¬ (conn.ngh2Session = false ∧ event.epollout = true) := by
  unfold sendPending
  cases hout : event.epollout with
  | false => simp
  | true =>
    rw [if_pos rfl, and_iff_left rfl, ← usedWhenReady_use hopened .send]
    dsimp only
    split <;> rfl

theorem sendPending_session (conn : Connection) (event : Event) :
    (sendPending conn event).ngh2Session = conn.ngh2Session ∧
      (sendPending conn event).accepted = conn.accepted := by
  unfold sendPending
  split
  · dsimp only
    split <;> exact ⟨rfl, rfl⟩
  · exact ⟨rfl, rfl⟩

/-! ### Events and runs -/

theorem opened_of_step (hopened : Opened conn)
    (hstep : handleClientEvent conn event = some next) : Opened next := by
  obtain ⟨-, hstep⟩ := Option.ite_none_left_eq_some.mp hstep
  have hshaken := handshake_opened hopened event
  dsimp only at hstep
  split at hstep
  · cases hstep
    exact hshaken
  · obtain ⟨middle, hreceive, rfl⟩ := Option.map_eq_some_iff.mp hstep
    have hmiddle := receive_opened hshaken hreceive
    split
    · exact hmiddle
    · rwa [Opened, (sendPending_session middle event).1, (sendPending_session middle event).2]

/-- An event uses nghttp2 as it should exactly if it is not too early. -/
theorem ready_of_step_iff (hopened : Opened conn)
    (hstep : handleClientEvent conn event = some next) :
    UsedWhenReady next ↔ UsedWhenReady conn ∧ ¬ TooEarly conn event := by
  obtain ⟨hserving, hstep⟩ := Option.ite_none_left_eq_some.mp hstep
  have hpending : (handshake conn event).status = .serving ∧ _ ↔ _ :=
    handshake_pending_iff (not_not.mp hserving)
  have hshaken := handshake_opened hopened event
  have huses : UsedWhenReady (handshake conn event) ↔ UsedWhenReady conn := by
    rw [UsedWhenReady, handshake_uses]
    rfl
  rw [← huses, TooEarly, ← and_assoc, ← hpending]
  generalize handshake conn event = shaken at hstep hshaken ⊢
  by_cases hended : shaken.status ≠ .serving
  · rw [if_pos hended] at hstep
    cases hstep
    simp [hended]
  rw [if_neg hended] at hstep
  rw [not_not] at hended
  obtain ⟨middle, hreceive, rfl⟩ := Option.map_eq_some_iff.mp hstep
  have hready := receive_ready_iff hshaken hreceive
  have hsend := sendPending_ready_iff (receive_opened hshaken hreceive) event
  rw [(receive_session hreceive).1, hready] at hsend
  cases hnone : shaken.ngh2Session with
  | true =>
    -- the session is there, and whatever is called is ready for it
    simp only [hnone, Bool.true_eq_false, false_and, not_false_eq_true, and_true] at hready hsend
    simp only [Bool.true_eq_false, and_false, false_and, not_false_eq_true, and_true]
    split
    · exact hready
    · exact hsend
  | false =>
    have hstill := receive_serving_iff hended hnone hreceive
    simp only [hnone, true_and] at hready hsend
    simp only [hended, true_and]
    split
    · next hclosed =>
        rw [hready]
        cases hbytes : event.readsBytes <;> simp_all
    · next hserved =>
        obtain ⟨hbytes, hcloses⟩ := hstill.mp (not_not.mp hserved)
        rw [hsend]
        simp [hbytes, hcloses]

/-- **nghttp2 after the handshake.** On every new connection, nghttp2 is used with a session
    only, exactly as long as no event comes too early. -/
theorem nghttp_after_handshake_iff (events : List Event) (conn : Connection)
    (hrun : after handleClientEvent newConnection events = some conn) :
    UsedWhenReady conn ↔
      EachStep handleClientEvent (fun conn event _ => ¬ TooEarly conn event) newConnection
        events := by
  refine (invariant (P := fun events conn => Opened conn ∧ (UsedWhenReady conn ↔
    EachStep handleClientEvent (fun conn event _ => ¬ TooEarly conn event) newConnection events))
    ⟨?_, ?_⟩ ?_ hrun).2
  · intro hsession
    cases hsession
  · refine iff_of_true (fun use huse => ?_) eachStep_nil
    cases huse
  · rintro events conn event next hafter ⟨hopened, ih⟩ hstep
    refine ⟨opened_of_step hopened hstep, ?_⟩
    rw [ready_of_step_iff hopened hstep, eachStep_snoc hafter hstep, ih]

/-- The socket can be written to, and the peer has not said anything yet. -/
def writableAtOnce : Event := ⟨false, true, .error .wantRead, .zero, 0, 0⟩

/-- A part of the handshake arrives, and nothing else. -/
def handshakeGoesOn : Event := ⟨true, false, .error .wantRead, .negative .wantRead, 0, 0⟩

/-- The handshake is done, and the first bytes arrive. -/
def firstBytes : Event := ⟨true, true, .ok (), .bytes [0x50#8], 1, 0⟩

theorem handshake_in_two_events :
    ∃ conn, after handleClientEvent newConnection [handshakeGoesOn, firstBytes] = some conn ∧
      conn.uses = [⟨.memRecv [0x50#8], true, true⟩, ⟨.send, true, true⟩] ∧ UsedWhenReady conn := by
  refine ⟨_, rfl, rfl, (nghttp_after_handshake_iff [handshakeGoesOn, firstBytes] _ rfl).mpr ?_⟩
  rw [← List.singleton_append, eachStep_snoc rfl rfl, eachStep_singleton rfl]
  exact ⟨fun hearly => by simpa [handshakeGoesOn, Event.readsBytes] using hearly.2.2,
    fun hearly => by simpa [firstBytes, Event.waits] using hearly.2.1⟩

/-- The first event of a connection calls `nghttp2_session_send` without a session. -/
theorem send_without_session :
    ∃ conn, after handleClientEvent newConnection [writableAtOnce] = some conn ∧
      conn.uses = [⟨.send, false, false⟩] ∧ conn.status = .crashed ∧ ¬ UsedWhenReady conn := by
  refine ⟨_, rfl, rfl, rfl, fun hready => ?_⟩
  exact Bool.false_ne_true (hready _ List.mem_cons_self).1

end QuicproAsync.Http2

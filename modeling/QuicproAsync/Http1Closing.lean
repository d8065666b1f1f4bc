import Mathlib.Data.PNat.Defs
import QuicproAsync.Http1Server

/-!
# Closing connections of the HTTP/1 server

`handle_client_event` looks at the results of the three OpenSSL calls in three ways. A
handshake that has to wait goes on with the next event, whatever it waits for. After
`SSL_read` nothing is asked: every count that is not positive closes the connection, also if
nothing has arrived yet. After `SSL_write` only waiting for room is waiting; a write that has to
read first closes the connection.

The events of this module say what `SSL_get_error` would report; `SslEvent.toEvent` is what
the function makes of it. An event can go through all three parts, and the connection is closed,
if at all, right after the last call that is made.
-/

namespace QuicproAsync.Http1

open Php Machine

/-! ### Results of the OpenSSL calls -/

/-- `SSL_ERROR_*`, for a call that did not succeed. -/
inductive SslError where
  | wantRead
  | wantWrite
  | zeroReturn
  | syscall
  | ssl
deriving DecidableEq

/-- The call is to be made again when there is more data or room. -/
def SslError.wouldBlock : SslError → Bool
  | .wantRead | .wantWrite => true
  | .zeroReturn | .syscall | .ssl => false

/-- An event of the connection, and what the calls return while it is handled. -/
structure SslEvent where
  epollin : Bool
  epollout : Bool
  accept : Except SslError Unit
  read : Except SslError Bytes
  returned : Option Zval
  write : Except SslError ℕ+

/-- What `handle_client_event` tells apart. -/
def SslEvent.toEvent (event : SslEvent) : Event where
  epollin := event.epollin
  epollout := event.epollout
  sslAccept :=
    match event.accept with
    | .ok _ => .done
    | .error error =>
      if error ≠ .wantRead ∧ error ≠ .wantWrite then .failed else .wantReadWrite
  sslRead := event.read.toOption
  returned := event.returned
  sslWrite :=
    match event.write with
    | .ok count => .sent count
    | .error error => if error ≠ .wantWrite then .failed else .wantWrite

theorem SslEvent.toEvent_epollin (event : SslEvent) : event.toEvent.epollin = event.epollin := rfl

theorem SslEvent.toEvent_epollout (event : SslEvent) :
    event.toEvent.epollout = event.epollout := rfl

def handleSslEvent (env : Env) (conn : Connection) (event : SslEvent) : Option Connection :=
  handleClientEvent env conn event.toEvent

/-! ### The calls of an event -/

/-- The connection as `SSL_read` finds it, if it is called. -/
def atRead (conn : Connection) (event : SslEvent) : Option Connection :=
  let conn := handshake conn event.toEvent
  if conn.closed = false ∧ event.epollin = true ∧ conn.state = .reading then some conn else none

/-- The connection as `SSL_write` finds it, if it is called. -/
def atWrite (env : Env) (conn : Connection) (event : SslEvent) : Option Connection :=
  let conn := handshake conn event.toEvent
  if conn.closed then none
  else (readRequest env conn event.toEvent).filter fun conn =>
    conn.closed = false ∧ event.epollout = true ∧ conn.state = .writing

/-- A call with its result, and the connection it was made for. -/
inductive SslCall where
  | accept (result : Except SslError Unit)
  | read (conn : Connection) (result : Except SslError Bytes)
  | write (conn : Connection) (result : Except SslError ℕ+)

/-- The last call that is made while an event is handled. -/
def lastCall (env : Env) (conn : Connection) (event : SslEvent) : Option SslCall :=
  match atWrite env conn event, atRead conn event with
  | some writing, _ => some (.write writing event.write)
  | none, some reading => some (.read reading event.read)
  | none, none => if conn.state = .handshaking then some (.accept event.accept) else none

/-- The read buffer is full, and there is no complete head in it. -/
def Connection.Overfull (conn : Connection) : Prop :=
  conn.readBuffer.length = readBufferSize ∧ ¬ headerEnd <:+: conn.readBuffer

/-- The call is a reason to close the connection: it failed for good, the head does not fit the
    buffer, or the response is written. -/
def SslCall.Reason : SslCall → Prop
  | .accept (.error error) => error.wouldBlock = false
  | .read conn (.error error) => error.wouldBlock = false ∨ conn.Overfull
  | .write _ (.error error) => error.wouldBlock = false
  | .write conn (.ok count) => conn.writeBuffer.length ≤ conn.writeBufferSent + count
  | .accept (.ok _) | .read _ (.ok _) => False

/-- The call has to be repeated, but `handle_client_event` does not see that. -/
def SslCall.Misread : SslCall → Prop
  | .read conn (.error error) => error.wouldBlock = true ∧ ¬ conn.Overfull
  | .write _ (.error error) => error = .wantRead
  | .write _ (.ok _) | .read _ (.ok _) | .accept _ => False

/-- When `handle_client_event` closes the connection. -/
def SslCall.Closes : SslCall → Prop
  | .accept (.error error) => error.wouldBlock = false
  | .read _ (.error _) => True
  | .write _ (.error error) => error ≠ .wantWrite
  | .write conn (.ok count) => conn.writeBuffer.length ≤ conn.writeBufferSent + count
  | .accept (.ok _) | .read _ (.ok _) => False

theorem SslCall.closes_imp_reason_iff (call : SslCall) :
    (call.Closes → call.Reason) ↔ ¬ call.Misread := by
  cases call with
  | accept result => cases result <;> simp [Closes, Reason, Misread]
  | read conn result =>
    cases result with
    | error error =>
      cases hblock : error.wouldBlock <;> simp [Closes, Reason, Misread, hblock]
    | ok bytes => simp [Closes, Misread]
  | write conn result =>
    cases result with
    | error error => cases error <;> simp [Closes, Reason, Misread, SslError.wouldBlock]
    | ok count => simp [Closes, Reason, Misread]

/-! ### Responses that are not finished -/

/-- A connection that writes has something left to write. -/
def Unfinished (conn : Connection) : Prop :=
  conn.closed = false → conn.state = .writing → conn.writeBufferSent < conn.writeBuffer.length

variable {env : Env} {conn middle next : Connection} {event : SslEvent}

theorem unfinished_of_closed (hclosed : conn.closed = true) : Unfinished conn := by
  intro hopen
  rw [hclosed] at hopen
  cases hopen

theorem unfinished_of_state (hstate : conn.state ≠ .writing) : Unfinished conn :=
  fun _ hwriting => absurd hwriting hstate

theorem handshake_unfinished (hleft : Unfinished conn) (event : Event) :
    Unfinished (handshake conn event) := by
  rw [handshake]
  split
  · next hstate =>
      split
      · exact unfinished_of_state (by simp)
      · exact hleft
      · exact unfinished_of_closed rfl
  · exact hleft

theorem respond_unfinished (env : Env) (conn : Connection) (retval : HashTable) :
    Unfinished (respond env conn retval) := by
  intro _ _
  simp [respond, ascii]

theorem readRequest_unfinished {event : Event} (hleft : Unfinished conn)
    (hread : readRequest env conn event = some middle) : Unfinished middle := by
  rw [readRequest] at hread
  split at hread
  · next hreading =>
      split at hread
      · cases hread
        exact unfinished_of_closed rfl
      · obtain ⟨-, hread⟩ := Option.ite_none_left_eq_some.mp hread
        have hstill : conn.state ≠ .writing := by
          rw [hreading.2]
          decide
        dsimp only at hread
        split at hread
        · cases hread
          unfold callHandler
          split
          · exact respond_unfinished env _ _
          · exact unfinished_of_state hstill
        · cases hread
          exact unfinished_of_state hstill
  · cases hread
    exact hleft

theorem writeResponse_unfinished (hleft : Unfinished conn) (event : Event) :
    Unfinished (writeResponse conn event) := by
  have hfinish : ∀ conn : Connection, Unfinished (writeResponse.finish conn) := by
    intro conn
    rw [writeResponse.finish]
    split
    · exact unfinished_of_closed rfl
    · next hmore => exact fun _ _ => Nat.lt_of_not_le hmore
  rw [writeResponse]
  split
  · split
    · exact hfinish _
    · exact hfinish conn
    · exact unfinished_of_closed rfl
  · exact hleft

theorem unfinished_of_step (hleft : Unfinished conn)
    (hstep : handleSslEvent env conn event = some next) : Unfinished next := by
  obtain ⟨-, hstep⟩ := Option.ite_none_left_eq_some.mp hstep
  have hshaken := handshake_unfinished hleft event.toEvent
  split at hstep
  · cases hstep
    exact hshaken
  · obtain ⟨middle, hread, rfl⟩ := Option.map_eq_some_iff.mp hstep
    have hmiddle := readRequest_unfinished hshaken hread
    split
    · exact hmiddle
    · exact writeResponse_unfinished hmiddle event.toEvent

/-! ### When the connection is closed -/

theorem handshake_closed_iff (hopen : conn.closed = false) :
    (handshake conn event.toEvent).closed = true ↔
      conn.state = .handshaking ∧ (SslCall.accept event.accept).Closes := by
  rw [handshake]
  by_cases hstate : conn.state = .handshaking
  · rw [if_pos hstate, and_iff_right hstate]
    cases haccept : event.accept with
    | ok done => simp [SslEvent.toEvent, haccept, hopen, SslCall.Closes]
    | error error =>
      cases error <;>
        simp [SslEvent.toEvent, haccept, hopen, SslCall.Closes, SslError.wouldBlock]
  · rw [if_neg hstate, hopen]
    simp [hstate]

theorem readRequest_closed_iff (hopen : conn.closed = false)
    (hread : readRequest env conn event.toEvent = some middle) :
    middle.closed = true ↔
      (event.epollin = true ∧ conn.state = .reading) ∧
        (SslCall.read conn event.read).Closes := by
  rw [readRequest, event.toEvent_epollin] at hread
  by_cases hreading : event.epollin = true ∧ conn.state = .reading
  · rw [and_iff_right hreading]
    rw [if_pos hreading] at hread
    cases hresult : event.read with
    | error error =>
      simp only [SslEvent.toEvent, hresult, Except.toOption] at hread
      cases hread
      simp [SslCall.Closes]
    | ok bytes =>
      simp only [SslEvent.toEvent, hresult, Except.toOption] at hread
      obtain ⟨-, hread⟩ := Option.ite_none_left_eq_some.mp hread
      have hstill : middle.closed = conn.closed := by
        split at hread
        · cases hread
          unfold callHandler
          split <;> rfl
        · cases hread
          rfl
      simp [hstill, hopen, SslCall.Closes]
  · rw [if_neg hreading] at hread
    cases hread
    simp [hopen, hreading]

theorem finish_closed_iff (hopen : conn.closed = false) :
    (writeResponse.finish conn).closed = true ↔
      conn.writeBuffer.length ≤ conn.writeBufferSent := by
  rw [writeResponse.finish]
  split
  · next hall => exact iff_of_true rfl hall
  · next hmore => exact iff_of_false (by simp [hopen]) hmore

theorem writeResponse_closed_iff (hopen : conn.closed = false) (hleft : Unfinished conn) :
    (writeResponse conn event.toEvent).closed = true ↔
      (event.epollout = true ∧ conn.state = .writing) ∧
        (SslCall.write conn event.write).Closes := by
  rw [writeResponse, event.toEvent_epollout]
  by_cases hwriting : event.epollout = true ∧ conn.state = .writing
  · have hmore := hleft hopen hwriting.2
    rw [and_iff_right hwriting, if_pos hwriting]
    cases hwrite : event.write with
    | ok count =>
      simp only [SslEvent.toEvent, hwrite]
      exact finish_closed_iff hopen
    | error error =>
      by_cases hwait : error = .wantWrite
      · simp only [SslEvent.toEvent, hwrite, hwait, ne_eq, not_true_eq_false, if_false]
        rw [finish_closed_iff hopen]
        exact iff_of_false (Nat.not_le_of_lt hmore) fun hcloses => hcloses rfl
      · simp only [SslEvent.toEvent, hwrite, ne_eq, hwait, not_false_eq_true, if_true]
        exact iff_of_true trivial hwait
  · rw [if_neg hwriting, hopen]
    simp [hwriting]

/-- **The last call decides.** -/
theorem closed_iff_of_step (hleft : Unfinished conn)
    (hstep : handleSslEvent env conn event = some next) :
    next.closed = true ↔ ∃ call, lastCall env conn event = some call ∧ call.Closes := by
  obtain ⟨hopen, hstep⟩ := Option.ite_none_left_eq_some.mp hstep
  have hshake : (handshake conn event.toEvent).closed = true ↔ _ :=
    handshake_closed_iff (Bool.not_eq_true _ ▸ hopen)
  have hunfinished := handshake_unfinished hleft event.toEvent
  simp only [lastCall, atRead, atWrite]
  generalize handshake conn event.toEvent = shaken at hstep hshake hunfinished ⊢
  by_cases hfailed : shaken.closed = true
  · -- the handshake has failed, and nothing else is called
    rw [if_pos hfailed] at hstep
    cases hstep
    obtain ⟨hstate, hcloses⟩ := hshake.mp hfailed
    simp [hfailed, hstate, hcloses]
  rw [if_neg hfailed] at hstep
  obtain ⟨middle, hread, rfl⟩ := Option.map_eq_some_iff.mp hstep
  rw [Bool.not_eq_true] at hfailed
  have hshaken : ¬ (conn.state = .handshaking ∧ (SslCall.accept event.accept).Closes) :=
    fun hboth => by simp [hshake.mpr hboth] at hfailed
  have hreads := readRequest_closed_iff hfailed hread
  have hmiddle := readRequest_unfinished hunfinished hread
  simp only [hread, hfailed, Bool.false_eq_true, if_false, true_and]
  by_cases hclosed : middle.closed = true
  · -- the read has failed
    obtain ⟨hreading, hcloses⟩ := hreads.mp hclosed
    simp [hclosed, hreading, hcloses, Option.filter]
  rw [if_neg hclosed, writeResponse_closed_iff (Bool.not_eq_true _ ▸ hclosed) hmiddle]
  by_cases hwriting : event.epollout = true ∧ middle.state = .writing
  · simp [hclosed, hwriting, Option.filter]
  · -- nothing is written, and the calls before did not fail
    have hfilter : (some middle).filter (fun conn =>
        conn.closed = false ∧ event.epollout = true ∧ conn.state = .writing) = none := by
      simp [Option.filter, hwriting]
    rw [hreads] at hclosed
    refine iff_of_false (fun hboth => hwriting hboth.1) ?_
    rw [hfilter]
    rintro ⟨call, hcall, hcloses⟩
    by_cases hreading : event.epollin = true ∧ shaken.state = .reading
    · rw [if_pos hreading] at hcall
      cases hcall
      exact hclosed ⟨hreading, hcloses⟩
    · rw [if_neg hreading] at hcall
      obtain ⟨hstate, hcall⟩ := Option.ite_none_right_eq_some.mp hcall
      cases hcall
      exact hshaken ⟨hstate, hcloses⟩

/-! ### Runs -/

/-- Whenever the connection is closed, the last call was a reason. -/
def ClosedForReason (env : Env) (events : List SslEvent) : Prop :=
  EachStep (handleSslEvent env) (fun conn event next =>
    next.closed = true → ∃ call, lastCall env conn event = some call ∧ call.Reason) start events

/-- No read has to wait, other than on an overfull buffer, and no write has to read first. -/
def NeverMisread (env : Env) (events : List SslEvent) : Prop :=
  EachStep (handleSslEvent env) (fun conn event _ =>
    ∀ call, lastCall env conn event = some call → ¬ call.Misread) start events

/-- **Closing for a reason.** The connections of a server are closed for a reason only, exactly
    as long as OpenSSL never has to wait at a place where the server does not ask for it. -/
theorem closed_for_reason_iff (env : Env) (events : List SslEvent) :
    ClosedForReason env events ↔ NeverMisread env events := by
  have hstart : Unfinished start := unfinished_of_state (by decide)
  refine eachStep_congr hstart (fun _ _ _ hleft hstep => unfinished_of_step hleft hstep) ?_ events
  intro conn event next hleft hstep
  rw [closed_iff_of_step hleft hstep]
  constructor
  · intro hreason call hcall
    rw [← call.closes_imp_reason_iff]
    intro hcloses
    obtain ⟨last, hlast, hthis⟩ := hreason ⟨call, hcall, hcloses⟩
    cases hcall.symm.trans hlast
    exact hthis
  · rintro hnever ⟨call, hcall, hcloses⟩
    exact ⟨call, hcall, call.closes_imp_reason_iff.mpr (hnever call hcall) hcloses⟩

/-- The handshake is done, a request arrives, and the answer is written as a whole. -/
def answeredAtOnce : SslEvent :=
  ⟨true, true, .ok (), .ok headerEnd, some (.array []), .ok 57⟩

theorem answered_at_once_closed :
    ((handleSslEvent quietEnv start answeredAtOnce).map Connection.closed) = some true ∧
      ClosedForReason quietEnv [answeredAtOnce] := by
  refine ⟨by decide +kernel, (closed_for_reason_iff quietEnv [answeredAtOnce]).mpr ?_⟩
  refine (eachStep_singleton rfl).mpr fun call hcall => ?_
  cases hcall
  exact id

/-- The handshake is done, and nothing has arrived yet. -/
def nothingYet : SslEvent :=
  ⟨true, true, .ok (), .error .wantRead, none, .error .wantWrite⟩

/-- A request arrives, and the answer has to wait for a message of the peer. -/
def writeWantsRead : SslEvent :=
  ⟨true, true, .ok (), .ok headerEnd, some (.array []), .error .wantRead⟩

/-- Both connections are closed. -/
theorem closed_while_waiting :
    ((handleSslEvent quietEnv start nothingYet).map Connection.closed) = some true ∧
      ¬ ClosedForReason quietEnv [nothingYet] ∧
      ((handleSslEvent quietEnv start writeWantsRead).map Connection.closed) = some true ∧
      ¬ ClosedForReason quietEnv [writeWantsRead] := by
  refine ⟨by decide +kernel, fun hclosed => ?_, by decide +kernel, fun hclosed => ?_⟩
  · obtain ⟨call, hcall, hreason⟩ := (eachStep_singleton rfl).mp hclosed rfl
    cases hcall
    rcases hreason with hfatal | hfull
    · cases hfatal
    · exact absurd hfull.1 (by decide)
  · obtain ⟨call, hcall, hreason⟩ := (eachStep_singleton rfl).mp hclosed rfl
    cases hcall
    cases hreason

end QuicproAsync.Http1

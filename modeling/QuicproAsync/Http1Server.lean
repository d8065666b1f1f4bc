import Mathlib.Data.List.Infix
import QuicproAsync.Machine
import QuicproAsync.PhpValue

/-!
# Requests of the HTTP/1 server

`handle_client_event` of `http1.c` drives one connection: it finishes the handshake, reads into
a buffer until the end of the request's head is there, calls the user's handler and writes what
the handler has answered.

The end of the head is looked for with `strstr`, which takes the buffer for a C string: it sees
nothing behind a NUL, and it leaves a full buffer that has no NUL. And only an array as the
result of the handler takes the connection out of the reading state: after any other result the
next bytes that arrive find the old head again.

A run is driven by what the calls of OpenSSL and the handler return. `SSL_read` gives at least
one byte and at most as many as there is room for; events with other reads are refused, and so
are events of a connection that was closed.
-/

namespace QuicproAsync.Http1

open Php Machine

/-! ### The connection -/

inductive State where
  | handshaking
  | reading
  | writing
  | closing
deriving DecidableEq

/-- `http1_client_connection_t`. The read buffer is given by the bytes that were received; the
    rest of it is zero. `calls` are the arguments of the handler so far. -/
structure Connection where
  readBuffer : Bytes
  writeBuffer : Bytes
  writeBufferSent : Nat
  state : State
  closed : Bool
  calls : List HashTable

inductive SslAccept where
  | done
  | wantReadWrite
  | failed

inductive SslWrite where
  | sent (count : Nat)
  | wantWrite
  | failed

/-- An event of the connection, and what the calls return while it is handled. -/
structure Event where
  epollin : Bool
  epollout : Bool
  sslAccept : SslAccept
  /-- The bytes that are read, none if the count is not positive. -/
  sslRead : Option Bytes
  /-- The result of the handler, none if the call fails. -/
  returned : Option Zval
  sslWrite : SslWrite

/-- What the code depends on: the memory behind the read buffer, the conversions of PHP, and
    what is found if a value that is not a string is read as one. -/
structure Env where
  beyond : Bytes
  host : Php.Host
  stringValue : Zval → Bytes

def readBufferSize : Nat := 8192

/-- The end of the head of a request, CR LF CR LF. -/
def headerEnd : Bytes := [0x0d#8, 0x0a#8, 0x0d#8, 0x0a#8]

section Events

variable (env : Env)

/-- What a search that starts at the read buffer can see. -/
def memory (received : Bytes) : Bytes :=
  cstr (received ++ (List.replicate (readBufferSize - received.length) 0 ++ env.beyond))

/-- How many bytes `strstr(read_buffer, "\r\n\r\n")` looks at. -/
def searched (received : Bytes) : Nat :=
  match strstr headerEnd (memory env received) with
  | some place => place + headerEnd.length
  | none => (memory env received).length + 1

def request : HashTable :=
  [(.str (ascii "method"), .string (ascii "GET")), (.str (ascii "uri"), .string (ascii "/"))]

def statusOf (retval : HashTable) : BitVec 64 :=
  match retval.lookup (.str (ascii "status")) with
  | none => 200#64
  | some value => zvalGetLong env.host value

def bodyOf (retval : HashTable) : Bytes :=
  match retval.lookup (.str (ascii "body")) with
  | none => []
  | some (.string body) => body
  | some value => env.stringValue value

/-- The answer to a handler that has returned an array. -/
def respond (conn : Connection) (retval : HashTable) : Connection :=
  let status := statusOf env retval
  let body := bodyOf env retval
  { conn with
    writeBuffer := ascii "HTTP/1.1 " ++ ascii (toString status.toInt) ++
      ascii " OK\r\nContent-Length: " ++ ascii (toString body.length) ++
      ascii "\r\nConnection: close\r\n\r\n" ++ cstr body
    state := .writing
    writeBufferSent := 0 }

def callHandler (conn : Connection) (returned : Option Zval) : Connection :=
  let conn := { conn with calls := conn.calls ++ [request] }
  match returned with
  | some (.array retval) => respond env conn retval
  | _ => conn

/-- The handshake, the first part of `handle_client_event`. -/
def handshake (conn : Connection) (event : Event) : Connection :=
  if conn.state = .handshaking then
    match event.sslAccept with
    | .done => { conn with state := .reading }
    | .wantReadWrite => conn
    | .failed => { conn with closed := true }
  else conn

/-- The second part: reading, and the call of the handler. -/
def readRequest (conn : Connection) (event : Event) : Option Connection :=
  if event.epollin = true ∧ conn.state = .reading then
    match event.sslRead with
    | none => some { conn with closed := true }
    | some bytes =>
      if bytes = [] ∨ readBufferSize < conn.readBuffer.length + bytes.length then none
      else
        let conn := { conn with readBuffer := conn.readBuffer ++ bytes }
        if (strstr headerEnd (memory env conn.readBuffer)).isSome then
          some (callHandler env conn event.returned)
        else some conn
  else some conn

/-- The third part: writing. -/
def writeResponse (conn : Connection) (event : Event) : Connection :=
  if event.epollout = true ∧ conn.state = .writing then
    match event.sslWrite with
    | .sent count => finish { conn with writeBufferSent := conn.writeBufferSent + count }
    | .wantWrite => finish conn
    | .failed => { conn with closed := true }
  else conn
where
  finish (conn : Connection) : Connection :=
    if conn.writeBuffer.length ≤ conn.writeBufferSent then { conn with closed := true } else conn

def handleClientEvent (conn : Connection) (event : Event) : Option Connection :=
  if conn.closed then none
  else
    let conn := handshake conn event
    if conn.closed then some conn
    else (readRequest env conn event).map fun conn =>
      if conn.closed then conn else writeResponse conn event

end Events

/-- An accepted connection. -/
def start : Connection := ⟨[], [], 0, .handshaking, false, []⟩

/-! ### Exactly once -/

/-- The bytes that were there before the event reads more, if it does. -/
def readsAfter (conn : Connection) (event : Event) : Option Bytes :=
  let conn := handshake conn event
  if conn.closed = false ∧ event.epollin = true ∧ conn.state = .reading then
    event.sslRead.map fun _ => conn.readBuffer
  else none

/-- The handler was called once if the received bytes contain the end of a head, and not if they
    do not. -/
def Handled (conn : Connection) : Prop :=
  conn.calls = if headerEnd <:+: conn.readBuffer then [request] else []

/-- **Exactly once.** After every event of the run, so from the first event on after which it was
    due, and the searches have stayed in the buffer. -/
def CalledOnce (env : Env) (events : List Event) : Prop :=
  Throughout (handleClientEvent env)
    (fun conn => Handled conn ∧ searched env conn.readBuffer ≤ readBufferSize) start events

/-- The buffer holds no NUL, neither a received one nor one behind the received bytes. -/
def Unterminated (received : Bytes) : Prop :=
  received.length = readBufferSize ∧ NulFree received

/-- There is no NUL before the end of the head, and the bytes do not fill the buffer without
    either of them. -/
def Searchable (received : Bytes) : Prop :=
  (headerEnd <:+: received → headerEnd <:+: cstr received) ∧
    ¬ (Unterminated received ∧ ¬ headerEnd <:+: received)

/-- Nothing is read any more once the received bytes contain the end of a head. -/
def NoneRead (env : Env) (events : List Event) : Prop :=
  ∀ before ∈ observed (handleClientEvent env) readsAfter start events, ¬ headerEnd <:+: before

/-! ### The search -/

variable {env : Env} {received : Bytes}

theorem memory_unterminated (hfull : Unterminated received) :
    memory env received = received ++ cstr env.beyond := by
  rw [memory, hfull.1, Nat.sub_self, List.replicate_zero, List.nil_append,
    cstr_append_of_nulFree hfull.2]

theorem memory_terminated (hlength : received.length ≤ readBufferSize)
    (hnot : ¬ Unterminated received) :
    memory env received = cstr received ∧ (cstr received).length < readBufferSize := by
  by_cases hfree : NulFree received
  · have hlt : received.length < readBufferSize :=
      Nat.lt_of_le_of_ne hlength fun hfull => hnot ⟨hfull, hfree⟩
    obtain ⟨room, hroom⟩ := Nat.exists_eq_succ_of_ne_zero (Nat.sub_ne_zero_of_lt hlt)
    refine ⟨?_, Nat.lt_of_le_of_lt (length_cstr_le received) hlt⟩
    rw [memory, hroom, List.replicate_succ, cstr_append_of_nulFree hfree, cstr_of_nulFree hfree]
    exact List.append_nil received
  · refine ⟨cstr_append_of_nul hfree _, ?_⟩
    exact Nat.lt_of_lt_of_le (length_cstr_lt hfree) hlength

/-- A search leaves the buffer exactly if nothing stops it there. -/
theorem searched_le_iff (hlength : received.length ≤ readBufferSize) :
    searched env received ≤ readBufferSize ↔
      ¬ (Unterminated received ∧ ¬ headerEnd <:+: received) := by
  by_cases hfull : Unterminated received
  · rw [searched, memory_unterminated hfull]
    by_cases hend : headerEnd <:+: received
    · refine iff_of_true ?_ fun hboth => hboth.2 hend
      obtain ⟨place, hplace⟩ := Option.isSome_iff_exists.mp ((isSome_strstr _ _).mpr hend)
      rw [strstr_append hplace]
      exact (add_length_le_of_strstr (by decide) hplace).trans hlength
    · refine iff_of_false (fun hsearched => ?_) fun hnot => hnot ⟨hfull, hend⟩
      split at hsearched
      · next place hplace =>
          -- what is found inside the buffer was received
          apply hend
          have hhere := prefix_drop_of_strstr hplace
          have hinside : place + headerEnd.length ≤ received.length := hfull.1 ▸ hsearched
          rw [List.drop_append_of_le_length (Nat.le_of_add_right_le hinside)] at hhere
          have hbuffer : headerEnd <+: received.drop place := by
            apply List.prefix_of_prefix_length_le hhere (List.prefix_append _ _)
            rw [List.length_drop]
            omega
          exact hbuffer.isInfix.trans (List.drop_suffix place received).isInfix
      · rw [List.length_append, hfull.1] at hsearched
        omega
  · have hterminated : memory env received = cstr received ∧ _ := memory_terminated hlength hfull
    obtain ⟨hmemory, hshort⟩ := hterminated
    refine iff_of_true ?_ fun hboth => hfull hboth.1
    rw [searched, hmemory]
    split
    · next place hplace =>
        exact (add_length_le_of_strstr (by decide) hplace).trans (Nat.le_of_lt hshort)
    · exact hshort

theorem found_iff (hlength : received.length ≤ readBufferSize)
    (hsearched : searched env received ≤ readBufferSize) :
    (strstr headerEnd (memory env received)).isSome ↔ headerEnd <:+: cstr received := by
  rw [isSome_strstr]
  by_cases hfull : Unterminated received
  · have hend : headerEnd <:+: received := by
      by_contra hnot
      exact (searched_le_iff hlength).mp hsearched ⟨hfull, hnot⟩
    rw [memory_unterminated hfull, cstr_of_nulFree hfull.2]
    exact iff_of_true (hend.trans (List.prefix_append _ _).isInfix) hend
  · rw [(memory_terminated hlength hfull).1]

/-! ### What an event does -/

variable {conn next : Connection} {event : Event} {events : List Event}

/-- An event either reads and looks for the end of the head, or leaves the received bytes and the
    handler alone. -/
inductive Turn (env : Env) (conn : Connection) (event : Event) (next : Connection) : Prop where
  | idle (hbuffer : next.readBuffer = conn.readBuffer) (hcalls : next.calls = conn.calls)
      (hreads : readsAfter conn event = none)
  | read (bytes : Bytes) (hne : bytes ≠ [])
      (hroom : conn.readBuffer.length + bytes.length ≤ readBufferSize)
      (hbuffer : next.readBuffer = conn.readBuffer ++ bytes)
      (hcalls : next.calls = conn.calls ++
        if (strstr headerEnd (memory env (conn.readBuffer ++ bytes))).isSome then [request] else [])
      (hreads : readsAfter conn event = some conn.readBuffer)

theorem handshake_eq (conn : Connection) (event : Event) :
    (handshake conn event).readBuffer = conn.readBuffer ∧
      (handshake conn event).calls = conn.calls := by
  rw [handshake]
  split
  · split <;> exact ⟨rfl, rfl⟩
  · exact ⟨rfl, rfl⟩

theorem callHandler_eq (conn : Connection) (returned : Option Zval) :
    (callHandler env conn returned).readBuffer = conn.readBuffer ∧
      (callHandler env conn returned).calls = conn.calls ++ [request] := by
  unfold callHandler
  split
  · exact ⟨rfl, rfl⟩
  · exact ⟨rfl, rfl⟩

theorem writeResponse_eq (conn : Connection) (event : Event) :
    (writeResponse conn event).readBuffer = conn.readBuffer ∧
      (writeResponse conn event).calls = conn.calls := by
  have hfinish : ∀ conn : Connection, (writeResponse.finish conn).readBuffer = conn.readBuffer ∧
      (writeResponse.finish conn).calls = conn.calls := by
    intro conn
    rw [writeResponse.finish]
    split <;> exact ⟨rfl, rfl⟩
  rw [writeResponse]
  split
  · split
    · exact hfinish _
    · exact hfinish conn
    · exact ⟨rfl, rfl⟩
  · exact ⟨rfl, rfl⟩

/-- What reading does to a connection, `middle`, whose handshake is over. -/
theorem readRequest_cases {middle : Connection} (hread : readRequest env conn event = some middle) :
    (middle.readBuffer = conn.readBuffer ∧ middle.calls = conn.calls ∧
      ¬ (event.epollin = true ∧ conn.state = .reading ∧ event.sslRead.isSome)) ∨
    ∃ bytes, event.epollin = true ∧ conn.state = .reading ∧ event.sslRead = some bytes ∧
      bytes ≠ [] ∧ conn.readBuffer.length + bytes.length ≤ readBufferSize ∧
      middle.readBuffer = conn.readBuffer ++ bytes ∧
      middle.calls = conn.calls ++
        if (strstr headerEnd (memory env (conn.readBuffer ++ bytes))).isSome then [request]
        else [] := by
  rw [readRequest] at hread
  by_cases hreading : event.epollin = true ∧ conn.state = .reading
  · rw [if_pos hreading] at hread
    cases hbytes : event.sslRead with
    | none =>
      rw [hbytes] at hread
      cases hread
      exact .inl ⟨rfl, rfl, fun hall => by simp at hall⟩
    | some bytes =>
      rw [hbytes] at hread
      obtain ⟨hroom, hread⟩ := Option.ite_none_left_eq_some.mp hread
      rw [not_or, Nat.not_lt] at hroom
      refine .inr ⟨bytes, hreading.1, hreading.2, rfl, hroom.1, hroom.2, ?_⟩
      dsimp only at hread
      split at hread
      · next hfound =>
          cases hread
          rw [if_pos hfound]
          exact callHandler_eq _ event.returned
      · next hmissed =>
          cases hread
          rw [if_neg hmissed]
          exact ⟨rfl, (List.append_nil _).symm⟩
  · rw [if_neg hreading] at hread
    cases hread
    exact .inl ⟨rfl, rfl, fun hall => hreading ⟨hall.1, hall.2.1⟩⟩

theorem turn_of_step (hstep : handleClientEvent env conn event = some next) :
    Turn env conn event next := by
  obtain ⟨-, hstep⟩ := Option.ite_none_left_eq_some.mp hstep
  obtain ⟨hbytes, hbefore⟩ := handshake_eq conn event
  dsimp only at hstep
  by_cases hclosed : (handshake conn event).closed = true
  · rw [if_pos hclosed] at hstep
    cases hstep
    refine .idle hbytes hbefore ?_
    rw [readsAfter]
    exact if_neg fun hall => by simp [hclosed] at hall
  · rw [if_neg hclosed] at hstep
    obtain ⟨middle, hread, hnext⟩ := Option.map_eq_some_iff.mp hstep
    have hsame : next.readBuffer = middle.readBuffer ∧ next.calls = middle.calls := by
      rw [← hnext]
      split
      · exact ⟨rfl, rfl⟩
      · exact writeResponse_eq middle event
    rcases readRequest_cases hread with ⟨hbuffer, hcalls, hnot⟩ |
      ⟨bytes, hin, hreading, hsome, hne, hroom, hbuffer, hcalls⟩
    · refine .idle (hsame.1.trans (hbuffer.trans hbytes)) (hsame.2.trans (hcalls.trans hbefore)) ?_
      rw [readsAfter]
      by_cases hopen : (handshake conn event).closed = false ∧ event.epollin = true ∧
          (handshake conn event).state = .reading
      · rw [if_pos hopen, Option.map_eq_none_iff, ← Option.not_isSome_iff_eq_none]
        exact fun hsome => hnot ⟨hopen.2.1, hopen.2.2, hsome⟩
      · exact if_neg hopen
    · rw [hbytes] at hroom hbuffer
      rw [hbefore, hbytes] at hcalls
      refine .read bytes hne hroom (hsame.1.trans hbuffer) (hsame.2.trans hcalls) ?_
      rw [readsAfter, if_pos ⟨by simpa using hclosed, hin, hreading⟩, hsome, hbytes]
      rfl

/-! ### Runs -/

theorem noneRead_snoc (hafter : after (handleClientEvent env) start events = some conn) :
    NoneRead env (events ++ [event]) ↔
      NoneRead env events ∧ ∀ before ∈ readsAfter conn event, ¬ headerEnd <:+: before := by
  rw [NoneRead, observed_snoc event hafter]
  simp only [List.forall_mem_append, Option.mem_toList]
  rfl

theorem cstr_prefix_append (bytes more : Bytes) : cstr bytes <+: cstr (bytes ++ more) := by
  by_cases hfree : NulFree bytes
  · rw [cstr_of_nulFree hfree, cstr_append_of_nulFree hfree]
    exact List.prefix_append _ _
  · exact (cstr_append_of_nul hfree more).symm ▸ List.prefix_rfl

/-- One read, on a connection whose handler was called as it should have been. -/
theorem called_read_iff {bytes : Bytes}
    (hroom : conn.readBuffer.length + bytes.length ≤ readBufferSize)
    (hbuffer : next.readBuffer = conn.readBuffer ++ bytes) (hcalls : next.calls = conn.calls ++
      if (strstr headerEnd (memory env (conn.readBuffer ++ bytes))).isSome then [request] else [])
    (hhandled : Handled conn) (hsearchable : Searchable conn.readBuffer) :
    (Handled next ∧ searched env next.readBuffer ≤ readBufferSize) ↔
      Searchable next.readBuffer ∧ ¬ headerEnd <:+: conn.readBuffer := by
  have hlength : next.readBuffer.length ≤ readBufferSize := by
    rw [hbuffer, List.length_append]
    exact hroom
  have hgrows : conn.readBuffer <:+: next.readBuffer := by
    rw [hbuffer]
    exact (List.prefix_append _ _).isInfix
  have hcstr : cstr conn.readBuffer <:+: cstr next.readBuffer := by
    rw [hbuffer]
    exact (cstr_prefix_append _ bytes).isInfix
  rw [← hbuffer] at hcalls
  rw [Handled] at hhandled ⊢
  constructor
  · rintro ⟨hnext, hsearched⟩
    have hfound := found_iff hlength hsearched
    have hfirst : ¬ headerEnd <:+: conn.readBuffer := by
      intro hend
      -- the head is found a second time
      rw [if_pos (hend.trans hgrows), hcalls, hhandled, if_pos hend,
        if_pos (hfound.mpr ((hsearchable.1 hend).trans hcstr))] at hnext
      cases hnext
    refine ⟨⟨fun hend => ?_, (searched_le_iff hlength).mp hsearched⟩, hfirst⟩
    rw [if_pos hend, hcalls, hhandled, if_neg hfirst] at hnext
    by_contra hmissed
    rw [if_neg fun hyes => hmissed (hfound.mp hyes)] at hnext
    cases hnext
  · rintro ⟨hnext, hfirst⟩
    have hsearched : searched env next.readBuffer ≤ readBufferSize :=
      (searched_le_iff hlength).mpr hnext.2
    have hfound : (strstr headerEnd (memory env next.readBuffer)).isSome ↔
        headerEnd <:+: next.readBuffer :=
      (found_iff hlength hsearched).trans
        ⟨fun hend => hend.trans (List.takeWhile_prefix _).isInfix, hnext.1⟩
    refine ⟨?_, hsearched⟩
    rw [hcalls, hhandled, if_neg hfirst, List.nil_append]
    exact if_congr hfound rfl rfl

/-- **Requests reach the handler.** On every connection, the handler is called exactly once, when
    it is due, and the searches stay in the buffer, if and only if the received bytes can be
    searched as a C string and nothing is read after the head. -/
theorem called_once_iff (env : Env) (events : List Event) (conn : Connection)
    (hrun : after (handleClientEvent env) start events = some conn) :
    CalledOnce env events ↔ Searchable conn.readBuffer ∧ NoneRead env events := by
  refine invariant (P := fun events conn =>
    CalledOnce env events ↔ Searchable conn.readBuffer ∧ NoneRead env events) ?_ ?_ hrun
  · have hshort : ¬ Unterminated start.readBuffer := fun hfull => absurd hfull.1 (by decide)
    rw [CalledOnce, throughout_nil]
    refine iff_of_true ⟨(if_neg (by decide)).symm, ?_⟩
      ⟨⟨by decide, fun hboth => hshort hboth.1⟩, ?_⟩
    · exact (searched_le_iff (by decide)).mpr fun hboth => hshort hboth.1
    · exact fun before hbefore => nomatch hbefore
  · intro events conn event next hafter ih hstep
    have hnext := after_snoc.mpr ⟨conn, hafter, hstep⟩
    have hlast : CalledOnce env events →
        Handled conn ∧ searched env conn.readBuffer ≤ readBufferSize :=
      fun honce => honce events [] conn (List.append_nil _).symm hafter
    rw [noneRead_snoc hafter, CalledOnce, throughout_snoc hnext]
    change CalledOnce env events ∧ _ ↔ _
    cases turn_of_step hstep with
    | idle hbuffer hcalls hreads =>
      have hsame : Handled next ∧ searched env next.readBuffer ≤ readBufferSize ↔
          Handled conn ∧ searched env conn.readBuffer ≤ readBufferSize := by
        rw [Handled, Handled, hbuffer, hcalls]
      rw [hsame, hbuffer, hreads, and_iff_left_of_imp hlast, ih]
      simp
    | read bytes hne hroom hbuffer hcalls hreads =>
      rw [hreads]
      simp only [Option.mem_some_iff, forall_eq']
      constructor
      · rintro ⟨honce, hgood⟩
        obtain ⟨hsearchable, hnone⟩ := ih.mp honce
        obtain ⟨hsearchable', hfirst⟩ := (called_read_iff hroom hbuffer hcalls
          (hlast honce).1 hsearchable).mp hgood
        exact ⟨hsearchable', hnone, hfirst⟩
      · rintro ⟨hsearchable', hnone, hfirst⟩
        have hpos := List.length_pos_iff.mpr hne
        have hsearchable : Searchable conn.readBuffer :=
          ⟨fun hend => absurd hend hfirst, fun hboth => by
            have hfull := hboth.1.1
            omega⟩
        have honce := ih.mpr ⟨hsearchable, hnone⟩
        refine ⟨honce, ?_⟩
        apply (called_read_iff hroom hbuffer hcalls (hlast honce).1 hsearchable).mpr
        exact ⟨hsearchable', hfirst⟩

/-! ### Two requests -/

def quietEnv : Env := ⟨[], default, fun _ => []⟩

/-- Bytes arrive; the handshake is done with the first of them. -/
def bytesArrive (bytes : Bytes) (returned : Zval) : Event :=
  ⟨true, false, .done, some bytes, some returned, .wantWrite⟩

theorem called_once_array :
    ∃ conn,
      after (handleClientEvent quietEnv) start [bytesArrive headerEnd (.array [])] = some conn ∧
      CalledOnce quietEnv [bytesArrive headerEnd (.array [])] := by
  refine ⟨_, rfl, (called_once_iff quietEnv _ _ rfl).mpr ⟨⟨?_, ?_⟩, ?_⟩⟩
  · exact fun _ => by decide
  · exact fun hboth => absurd hboth.1.1 (by decide)
  · intro before hbefore
    rw [List.mem_singleton.mp hbefore]
    decide

/-- A head with a NUL in it is not found, and after a handler that has returned null the next
    byte leads to a second call. -/
theorem handler_missed_and_repeated :
    ¬ CalledOnce quietEnv [bytesArrive (0x00#8 :: headerEnd) .null] ∧
      ¬ CalledOnce quietEnv [bytesArrive headerEnd .null, bytesArrive [0x41#8] .null] := by
  constructor
  · intro honce
    have hhandled := (honce _ [] _ (List.append_nil _).symm rfl).1
    exact absurd (congrArg List.length hhandled) (by decide +kernel)
  · intro honce
    have hhandled := (honce _ [] _ (List.append_nil _).symm rfl).1
    exact absurd (congrArg List.length hhandled) (by decide +kernel)

end QuicproAsync.Http1

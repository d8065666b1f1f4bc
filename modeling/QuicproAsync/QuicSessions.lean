import QuicproAsync.Machine
import QuicproAsync.OrderedMap
import QuicproAsync.PhpValue

/-!
# The sessions of the QUIC servers

The event loops of `http3.c` and `index.c` receive the datagrams of all clients on one
socket. A datagram goes to the session that is registered under its destination connection
id; if there is none, a new id is generated, a connection is accepted under it and its
session is registered under the new id, and only under it.

So a datagram that carries an id the server has generated finds its session, and one that
carries the id the client has chosen for its first datagrams never does: every repetition of
it opens another session. `OneSession` says that a datagram is treated as one connection with
one session requires, `Routed` says before which datagrams this is so.

What quiche does is not part of the repository. A run is driven by what `epoll_wait`,
`recvfrom`, `generate_cid`, `quiche_accept` and the questions to a connection return, and the
calls that the loop makes are recorded in order; `headerInfo` gives the destination id of a
datagram. A connection is the number of connections accepted before it.
-/

namespace QuicproAsync.QuicServer

open Php OrderedMap Machine

/-! ### The loops -/

/-- `quicpro_session_t`, with the connection and the address it was accepted from. -/
structure Session where
  conn : Nat
  peerAddr : Bytes
deriving DecidableEq

/-- The calls of the loop that others see. -/
inductive Effect where
  | accept (conn : Nat) (scid peerAddr : Bytes)
  | recv (conn : Nat) (buffer peerAddr : Bytes)
  | onTimeout (conn : Nat)
  | sendto (packet peerAddr : Bytes)
  | handler (conn : Nat) (streamId : BitVec 64)
deriving DecidableEq

structure Server where
  sessionsByScid : List (Bytes × Session)
  conns : Nat
  effects : List Effect

/-- One `recvfrom`, and what happens if its datagram is for no session. -/
structure Arrival where
  /-- The datagram, none if `recvfrom` fails. -/
  received : Option Bytes
  peerAddr : Bytes
  /-- What `generate_cid` writes, none if it fails. -/
  generated : Option Bytes
  /-- Whether `quiche_accept` returns a connection. -/
  accepted : Bool

/-- What a connection answers when its session is served. -/
structure Answer where
  packets : List Bytes
  isEstablished : Bool
  readable : List (BitVec 64)
  isClosed : Bool

def Server.call (server : Server) (effects : List Effect) : Server :=
  { server with effects := server.effects ++ effects }

/-- `zend_hash_str_add_ptr` adds nothing if the key is taken. -/
def Server.register (server : Server) (scid : Bytes) (session : Session) : Server :=
  { sessionsByScid :=
      if (server.sessionsByScid.lookup scid).isSome then server.sessionsByScid
      else server.sessionsByScid ++ [(scid, session)]
    conns := server.conns + 1
    effects := server.effects ++ [.accept session.conn scid session.peerAddr] }

section Receive

variable (headerInfo : Bytes → Option Bytes)

/-- The body of the loop over the events of the socket. -/
def receive (server : Server) (arrival : Arrival) : Server :=
  match arrival.received with
  | none => server
  | some buffer =>
    match headerInfo buffer with
    | none => server
    | some dcid =>
      match server.sessionsByScid.lookup dcid with
      | some session => server.call [.recv session.conn buffer arrival.peerAddr]
      | none =>
        match arrival.generated with
        | none => server
        | some scid =>
          if arrival.accepted then
            (server.register scid ⟨server.conns, arrival.peerAddr⟩).call
              [.recv server.conns buffer arrival.peerAddr]
          else server

end Receive

/-- `zend_hash_del`. -/
def Server.remove (server : Server) (scid : Bytes) : Server :=
  { server with sessionsByScid := server.sessionsByScid.filter (·.1 ≠ scid) }

/-- The calls that are made for a session: its timer, what it has to send, and the handler
    for each stream that can be read. -/
def sessionCalls (session : Session) (answer : Answer) : List Effect :=
  .onTimeout session.conn :: answer.packets.map (.sendto · session.peerAddr) ++
    if answer.isEstablished then answer.readable.map (.handler session.conn) else []

/-- The body of the loop over the sessions. -/
def serveSession (answers : Nat → Answer) (server : Server) (entry : Bytes × Session) : Server :=
  if (answers entry.2.conn).isClosed then
    (server.call (sessionCalls entry.2 (answers entry.2.conn))).remove entry.1
  else server.call (sessionCalls entry.2 (answers entry.2.conn))

def serve (answers : Nat → Answer) (server : Server) : Server :=
  server.sessionsByScid.foldl (serveSession answers) server

/-- Where the loop stands: before `epoll_wait`, with events left to handle, or at its end. -/
inductive Phase where
  | waiting
  | receiving (left : Nat)
  | returned
deriving DecidableEq

structure Listener where
  phase : Phase
  server : Server
  thrown : Bool

inductive Event where
  /-- `is_listening` is no longer set. -/
  | stopped
  | interrupted
  | failed
  | ready (nEvents : Nat)
  | datagram (arrival : Arrival)
  | served (answers : Nat → Answer)

def maxEvents : Nat := 64

section Listen

variable (headerInfo : Bytes → Option Bytes)

/-- One step of a loop. The two loops differ in whether a failure of `epoll_wait` is thrown
    and in whether the sessions are destroyed at the end. -/
def listen (throws destroys : Bool) (listener : Listener) : Event → Option Listener
  | .stopped =>
    if listener.phase = .waiting then some (leave listener) else none
  | .interrupted => if listener.phase = .waiting then some listener else none
  | .failed =>
    if listener.phase = .waiting then some (leave { listener with thrown := throws }) else none
  | .ready nEvents =>
    if listener.phase = .waiting ∧ nEvents ≤ maxEvents then
      some { listener with phase := .receiving nEvents }
    else none
  | .datagram arrival =>
    match listener.phase with
    | .receiving (left + 1) =>
      some { listener with
        phase := .receiving left, server := receive headerInfo listener.server arrival }
    | _ => none
  | .served answers =>
    if listener.phase = .receiving 0 then
      some { listener with phase := .waiting, server := serve answers listener.server }
    else none
where
  leave (listener : Listener) : Listener :=
    { listener with
      phase := .returned
      server :=
        if destroys then { listener.server with sessionsByScid := [] } else listener.server }

/-- `quicpro_http3_server_listen` of `http3.c`. -/
def quicproHttp3ServerListen : Listener → Event → Option Listener :=
  listen headerInfo false true

/-- `quicpro_server_listen` of `index.c`. -/
def quicproServerListen : Listener → Event → Option Listener :=
  listen headerInfo true false

end Listen

def start : Listener := ⟨.waiting, ⟨[], 0, []⟩, false⟩

/-! ### One connection, one session -/

section Connections

variable (headerInfo : Bytes → Option Bytes)

def Arrival.dcid (arrival : Arrival) : Option Bytes := arrival.received.bind headerInfo

/-- A datagram with the id was passed to the connection. -/
def Delivered (server : Server) (dcid : Bytes) (conn : Nat) : Prop :=
  ∃ buffer peerAddr, .recv conn buffer peerAddr ∈ server.effects ∧ headerInfo buffer = some dcid

/-- The session of the connection is registered; closed sessions are removed. -/
def IsOpen (server : Server) (conn : Nat) : Prop :=
  ∃ entry ∈ server.sessionsByScid, entry.2.conn = conn

/-- The id is one under which the server has accepted a connection. Every other id was chosen
    by a client. -/
def Generated (server : Server) (dcid : Bytes) : Prop :=
  ∃ conn peerAddr, .accept conn dcid peerAddr ∈ server.effects

/-- **One connection, one session.** A datagram goes to the open session that datagrams with
    its id went to, and to nothing else; and if its id was chosen by a client, whose attempt
    has got a session before, no other session is made. -/
def OneSession (server : Server) (arrival : Arrival) : Prop :=
  ∀ buffer dcid, arrival.received = some buffer → headerInfo buffer = some dcid →
    (∀ conn, Delivered headerInfo server dcid conn → IsOpen server conn →
      (receive headerInfo server arrival).effects =
        server.effects ++ [.recv conn buffer arrival.peerAddr]) ∧
    (¬ Generated server dcid → (∃ conn, Delivered headerInfo server dcid conn) →
      (receive headerInfo server arrival).conns = server.conns)

/-- The id is that of an open session; or no open session has got datagrams with it and, if a
    client has chosen it and a session can be made, no session ever has. -/
def Routed (server : Server) (arrival : Arrival) : Prop :=
  ∀ dcid, arrival.dcid headerInfo = some dcid →
    dcid ∈ keys server.sessionsByScid ∨
      (∀ conn, Delivered headerInfo server dcid conn → ¬ IsOpen server conn) ∧
        (arrival.generated.isSome ∧ arrival.accepted = true → ¬ Generated server dcid →
          ∀ conn, ¬ Delivered headerInfo server dcid conn)

/-- The id is one that the call shows. -/
def Effect.Shows (dcid : Bytes) : Effect → Prop
  | .accept _ scid _ => scid = dcid
  | .recv _ buffer _ => headerInfo buffer = some dcid
  | _ => False

instance (dcid : Bytes) : DecidablePred (Effect.Shows headerInfo dcid)
  | .accept _ scid _ => inferInstanceAs (Decidable (scid = dcid))
  | .recv _ buffer _ => inferInstanceAs (Decidable (headerInfo buffer = some dcid))
  | .onTimeout _ => inferInstanceAs (Decidable False)
  | .sendto _ _ => inferInstanceAs (Decidable False)
  | .handler _ _ => inferInstanceAs (Decidable False)

/-- A generated id was not generated before and is not one that a client has chosen. -/
def Fresh (server : Server) (arrival : Arrival) : Prop :=
  ∀ scid ∈ arrival.generated,
    (∀ effect ∈ server.effects, ¬ effect.Shows headerInfo scid) ∧
      arrival.dcid headerInfo ≠ some scid

instance (server : Server) (arrival : Arrival) : Decidable (Fresh headerInfo server arrival) :=
  inferInstanceAs (Decidable (∀ scid ∈ arrival.generated, _ ∧ _))

end Connections

/-! ### What a datagram does -/

variable {headerInfo : Bytes → Option Bytes} {server : Server} {arrival : Arrival}
variable {buffer dcid : Bytes}

/-- What the loop makes of one arrival. -/
inductive Received (headerInfo : Bytes → Option Bytes) (server : Server) (arrival : Arrival) :
    Server → Prop where
  | dropped : Received headerInfo server arrival server
  | found {buffer dcid : Bytes} {session : Session} (hreceived : arrival.received = some buffer)
      (hdcid : headerInfo buffer = some dcid)
      (hlookup : server.sessionsByScid.lookup dcid = some session) :
      Received headerInfo server arrival
        (server.call [.recv session.conn buffer arrival.peerAddr])
  | opened {buffer dcid scid : Bytes} (hreceived : arrival.received = some buffer)
      (hdcid : headerInfo buffer = some dcid) (hlookup : server.sessionsByScid.lookup dcid = none)
      (hgenerated : arrival.generated = some scid) :
      Received headerInfo server arrival
        ((server.register scid ⟨server.conns, arrival.peerAddr⟩).call
          [.recv server.conns buffer arrival.peerAddr])

theorem receive_found {session : Session} (hreceived : arrival.received = some buffer)
    (hdcid : headerInfo buffer = some dcid)
    (hlookup : server.sessionsByScid.lookup dcid = some session) :
    receive headerInfo server arrival =
      server.call [.recv session.conn buffer arrival.peerAddr] := by
  rw [receive, hreceived]
  dsimp only
  rw [hdcid]
  dsimp only
  rw [hlookup]

variable {scid : Bytes}

theorem receive_opened (hreceived : arrival.received = some buffer)
    (hdcid : headerInfo buffer = some dcid) (hlookup : server.sessionsByScid.lookup dcid = none)
    (hgenerated : arrival.generated = some scid) (haccepted : arrival.accepted = true) :
    receive headerInfo server arrival =
      (server.register scid ⟨server.conns, arrival.peerAddr⟩).call
        [.recv server.conns buffer arrival.peerAddr] := by
  rw [receive, hreceived]
  dsimp only
  rw [hdcid]
  dsimp only
  rw [hlookup, hgenerated]
  exact if_pos haccepted

theorem receive_dropped (hreceived : arrival.received = some buffer)
    (hdcid : headerInfo buffer = some dcid) (hlookup : server.sessionsByScid.lookup dcid = none)
    (hnone : ¬ (arrival.generated.isSome ∧ arrival.accepted = true)) :
    receive headerInfo server arrival = server := by
  rw [receive, hreceived]
  dsimp only
  rw [hdcid]
  dsimp only
  rw [hlookup]
  cases hgenerated : arrival.generated with
  | none => rfl
  | some scid => exact if_neg fun haccepted => hnone ⟨by rw [hgenerated]; rfl, haccepted⟩

theorem received_receive (headerInfo : Bytes → Option Bytes) (server : Server) (arrival : Arrival) :
    Received headerInfo server arrival (receive headerInfo server arrival) := by
  cases hreceived : arrival.received with
  | none =>
    rw [receive, hreceived]
    exact .dropped
  | some buffer =>
  cases hdcid : headerInfo buffer with
  | none =>
    rw [receive, hreceived]
    dsimp only
    rw [hdcid]
    exact .dropped
  | some dcid =>
  cases hlookup : server.sessionsByScid.lookup dcid with
  | some session =>
    rw [receive_found hreceived hdcid hlookup]
    exact .found hreceived hdcid hlookup
  | none =>
  by_cases hopens : arrival.generated.isSome ∧ arrival.accepted = true
  · obtain ⟨scid, hgenerated⟩ := Option.isSome_iff_exists.mp hopens.1
    rw [receive_opened hreceived hdcid hlookup hgenerated hopens.2]
    exact .opened hreceived hdcid hlookup hgenerated
  · rw [receive_dropped hreceived hdcid hlookup hopens]
    exact .dropped

/-! ### Sessions own the ids they are registered under -/

/-- Datagrams with the id of an open session have gone to no other. -/
def Owned (headerInfo : Bytes → Option Bytes) (server : Server) : Prop :=
  ∀ dcid conn session, Delivered headerInfo server dcid conn →
    server.sessionsByScid.lookup dcid = some session → conn = session.conn

/-- A call that passes one more datagram on. -/
theorem delivered_recv {conn other : Nat} {peerAddr id : Bytes}
    (hdelivered : Delivered headerInfo (server.call [.recv conn buffer peerAddr]) id other) :
    Delivered headerInfo server id other ∨ conn = other ∧ headerInfo buffer = some id := by
  obtain ⟨data, addr, hmem, hid⟩ := hdelivered
  rcases List.mem_append.mp hmem with hold | hnew
  · exact .inl ⟨data, addr, hold, hid⟩
  · cases List.mem_singleton.mp hnew
    exact .inr ⟨rfl, hid⟩

theorem delivered_register {id : Bytes} {session : Session} {conn : Nat}
    (hdelivered : Delivered headerInfo (server.register scid session) id conn) :
    Delivered headerInfo server id conn := by
  obtain ⟨data, addr, hmem, hid⟩ := hdelivered
  rcases List.mem_append.mp hmem with hold | hnew
  · exact ⟨data, addr, hold, hid⟩
  · cases List.mem_singleton.mp hnew

theorem not_delivered_of_fresh
    (hfresh : ∀ effect ∈ server.effects, ¬ effect.Shows headerInfo scid) (conn : Nat) :
    ¬ Delivered headerInfo server scid conn := by
  rintro ⟨data, addr, hmem, hid⟩
  exact hfresh _ hmem hid

theorem lookup_register_ne {id : Bytes} (session : Session) (hne : id ≠ scid) :
    (server.register scid session).sessionsByScid.lookup id =
      server.sessionsByScid.lookup id := by
  simp only [Server.register]
  split
  · rfl
  · rw [List.lookup_append, List.lookup_cons, beq_eq_false_iff_ne.mpr hne]
    exact Option.or_none

theorem Owned.after_receive (howned : Owned headerInfo server)
    (hfresh : Fresh headerInfo server arrival) :
    Owned headerInfo (receive headerInfo server arrival) := by
  intro id conn session hdelivered hsession
  have hcases := received_receive headerInfo server arrival
  generalize receive headerInfo server arrival = next at hcases hdelivered hsession
  cases hcases with
  | dropped => exact howned id conn session hdelivered hsession
  | found hreceived hdcid hlookup =>
    rcases delivered_recv hdelivered with hold | ⟨rfl, hid⟩
    · exact howned id conn session hold hsession
    · rw [hdcid] at hid
      cases hid
      cases hlookup.symm.trans hsession
      rfl
  | @opened buffer dcid scid hreceived hdcid hlookup hgenerated =>
    obtain ⟨hunused, hother⟩ := hfresh scid hgenerated
    have hne : dcid ≠ scid := by
      rintro rfl
      exact hother (by rw [Arrival.dcid, hreceived]; exact hdcid)
    rcases delivered_recv hdelivered with hold | ⟨rfl, hid⟩
    · have hbefore := delivered_register hold
      have hscid : id ≠ scid := by
        rintro rfl
        exact not_delivered_of_fresh hunused conn hbefore
      apply howned id conn session hbefore
      exact (lookup_register_ne _ hscid).symm.trans hsession
    · -- the datagram that opened the session is not found under its own id
      rw [hdcid] at hid
      cases hid
      cases hlookup.symm.trans ((lookup_register_ne _ hne).symm.trans hsession)

theorem lookup_of_lookup_filter {sessions : List (Bytes × Session)} {id : Bytes}
    {session : Session} (hlookup : (sessions.filter (·.1 ≠ scid)).lookup id = some session) :
    sessions.lookup id = some session := by
  have hne : id ≠ scid := by
    have hmem := mem_of_lookup_eq_some hlookup
    simpa using (List.mem_filter.mp hmem).2
  rwa [lookup_filter fun value => by simpa using hne] at hlookup

/-- Serving a session passes no datagram on. -/
theorem not_recv_sessionCalls (session : Session) (answer : Answer) (conn : Nat)
    (buffer peerAddr : Bytes) : .recv conn buffer peerAddr ∉ sessionCalls session answer := by
  rw [sessionCalls]
  split <;> simp

theorem Owned.after_serveSession (howned : Owned headerInfo server) (answers : Nat → Answer)
    (entry : Bytes × Session) : Owned headerInfo (serveSession answers server entry) := by
  have hcalled : Owned headerInfo
      (server.call (sessionCalls entry.2 (answers entry.2.conn))) := by
    rintro id conn session ⟨data, addr, hmem, hid⟩ hsession
    have hold := (List.mem_append.mp hmem).resolve_right (not_recv_sessionCalls _ _ _ _ _)
    exact howned id conn session ⟨data, addr, hold, hid⟩ hsession
  rw [serveSession]
  split
  · intro id conn session hdelivered hsession
    exact hcalled id conn session hdelivered (lookup_of_lookup_filter hsession)
  · exact hcalled

theorem Owned.after_serve (howned : Owned headerInfo server) (answers : Nat → Answer) :
    Owned headerInfo (serve answers server) := by
  rw [serve]
  generalize server.sessionsByScid = sessions
  induction sessions generalizing server with
  | nil => exact howned
  | cons entry sessions ih => exact ih (howned.after_serveSession answers entry)

/-! ### Runs -/

variable {listener next : Listener} {throws destroys : Bool}

/-- The datagrams of a run, each with the server before it. -/
def arrivals (step : Listener → Event → Option Listener) (events : List Event) :
    List (Server × Arrival) :=
  observed step (fun listener event =>
    match event with
    | .datagram arrival => some (listener.server, arrival)
    | _ => none) start events

/-- All generated ids of a run are distinct and differ from those that clients have chosen. -/
def FreshRun (headerInfo : Bytes → Option Bytes) (step : Listener → Event → Option Listener)
    (events : List Event) : Prop :=
  ∀ arrival ∈ arrivals step events, Fresh headerInfo arrival.1 arrival.2

instance (headerInfo : Bytes → Option Bytes) (step : Listener → Event → Option Listener)
    (events : List Event) : Decidable (FreshRun headerInfo step events) :=
  inferInstanceAs (Decidable (∀ arrival ∈ arrivals step events, _))

theorem FreshRun.last {step : Listener → Event → Option Listener} {events : List Event}
    {event : Event} (hfresh : FreshRun headerInfo step (events ++ [event]))
    (hafter : after step start events = some listener) :
    FreshRun headerInfo step events ∧
      ∀ arrival, event = .datagram arrival → Fresh headerInfo listener.server arrival := by
  rw [FreshRun, arrivals, observed_snoc event hafter] at hfresh
  constructor
  · intro arrival harrival
    exact hfresh arrival (List.mem_append_left _ harrival)
  · rintro arrival rfl
    exact hfresh (listener.server, arrival) (List.mem_append_right _ (List.mem_singleton_self _))

theorem Owned.after_step {event : Event} (howned : Owned headerInfo listener.server)
    (hfresh : ∀ arrival, event = .datagram arrival → Fresh headerInfo listener.server arrival)
    (hstep : listen headerInfo throws destroys listener event = some next) :
    Owned headerInfo next.server := by
  have hleave : ∀ thrown, Owned headerInfo
      (listen.leave destroys { listener with thrown := thrown }).server := by
    intro thrown id conn session hdelivered hsession
    unfold listen.leave at hdelivered hsession
    cases destroys with
    | false => exact howned id conn session hdelivered hsession
    | true => cases hsession
  cases event with
  | stopped =>
    obtain ⟨-, hnext⟩ := Option.ite_none_right_eq_some.mp hstep
    cases hnext
    exact hleave listener.thrown
  | interrupted =>
    obtain ⟨-, hnext⟩ := Option.ite_none_right_eq_some.mp hstep
    cases hnext
    exact howned
  | failed =>
    obtain ⟨-, hnext⟩ := Option.ite_none_right_eq_some.mp hstep
    cases hnext
    exact hleave throws
  | ready nEvents =>
    obtain ⟨-, hnext⟩ := Option.ite_none_right_eq_some.mp hstep
    cases hnext
    exact howned
  | datagram arrival =>
    simp only [listen] at hstep
    split at hstep
    · cases hstep
      exact howned.after_receive (hfresh arrival rfl)
    · cases hstep
  | served answers =>
    obtain ⟨-, hnext⟩ := Option.ite_none_right_eq_some.mp hstep
    cases hnext
    exact howned.after_serve answers

/-- Every datagram of a run arrives at a server whose sessions own their ids. -/
theorem owned_arrivals {events : List Event}
    (hafter : after (listen headerInfo throws destroys) start events = some listener)
    (hfresh : FreshRun headerInfo (listen headerInfo throws destroys) events) :
    ∀ arrival ∈ arrivals (listen headerInfo throws destroys) events,
      Owned headerInfo arrival.1 := by
  refine (invariant (P := fun events listener =>
    FreshRun headerInfo (listen headerInfo throws destroys) events →
      Owned headerInfo listener.server ∧
        ∀ arrival ∈ arrivals (listen headerInfo throws destroys) events,
          Owned headerInfo arrival.1) ?_ ?_ hafter hfresh).2
  · intro hfresh
    refine ⟨?_, fun arrival harrival => nomatch harrival⟩
    rintro id conn session ⟨data, addr, hmem, -⟩
    cases hmem
  · intro events listener event next hbefore hearlier hstep hfresh
    obtain ⟨hfreshEarlier, hlast⟩ := hfresh.last hbefore
    obtain ⟨howned, harrivals⟩ := hearlier hfreshEarlier
    refine ⟨howned.after_step hlast hstep, fun arrival harrival => ?_⟩
    rw [arrivals, observed_snoc event hbefore] at harrival
    rcases List.mem_append.mp harrival with hold | hnew
    · exact harrivals arrival hold
    · cases event with
      | datagram last =>
        rw [List.mem_singleton.mp hnew]
        exact howned
      | _ => cases hnew

/-! ### When a datagram finds its session -/

/-- One datagram, by what its id finds and whether a session can be made for it. -/
theorem oneSession_dcid_iff (howned : Owned headerInfo server)
    (hreceived : arrival.received = some buffer) (hdcid : headerInfo buffer = some dcid) :
    ((∀ conn, Delivered headerInfo server dcid conn → IsOpen server conn →
        (receive headerInfo server arrival).effects =
          server.effects ++ [.recv conn buffer arrival.peerAddr]) ∧
      (¬ Generated server dcid → (∃ conn, Delivered headerInfo server dcid conn) →
        (receive headerInfo server arrival).conns = server.conns)) ↔
    (dcid ∈ keys server.sessionsByScid ∨
      (∀ conn, Delivered headerInfo server dcid conn → ¬ IsOpen server conn) ∧
        (arrival.generated.isSome ∧ arrival.accepted = true → ¬ Generated server dcid →
          ∀ conn, ¬ Delivered headerInfo server dcid conn)) := by
  cases hlookup : server.sessionsByScid.lookup dcid with
  | some session =>
    rw [receive_found hreceived hdcid hlookup]
    refine iff_of_true ⟨fun conn hdelivered _ => ?_, fun _ _ => rfl⟩ (.inl ?_)
    · rw [howned dcid conn session hdelivered hlookup]
      rfl
    · exact List.mem_map_of_mem (mem_of_lookup_eq_some hlookup)
  | none =>
  rw [or_iff_right (lookup_eq_none_iff_not_mem_keys.mp hlookup)]
  by_cases hopens : arrival.generated.isSome ∧ arrival.accepted = true
  · obtain ⟨scid, hgenerated⟩ := Option.isSome_iff_exists.mp hopens.1
    rw [receive_opened hreceived hdcid hlookup hgenerated hopens.2]
    apply and_congr
    · refine forall_congr' fun conn => imp_congr_right fun _ => imp_congr_right fun _ => ?_
      refine iff_of_false (fun heffects => ?_) id
      have hlength := congrArg List.length heffects
      simp [Server.call, Server.register] at hlength
    · rw [imp_iff_right hopens]
      refine imp_congr_right fun _ => ?_
      rw [← not_exists, ← imp_false]
      exact imp_congr_right fun _ => iff_of_false (Nat.succ_ne_self server.conns) id
  · rw [receive_dropped hreceived hdcid hlookup hopens]
    apply and_congr
    · refine forall_congr' fun conn => imp_congr_right fun _ => imp_congr_right fun _ => ?_
      exact iff_of_false (fun heffects => by simp at heffects) id
    · exact iff_of_true (fun _ _ => rfl) fun hyes => absurd hyes hopens

theorem oneSession_iff (howned : Owned headerInfo server) (arrival : Arrival) :
    OneSession headerInfo server arrival ↔ Routed headerInfo server arrival := by
  constructor
  · intro hone dcid hdcid
    obtain ⟨buffer, hreceived, hinfo⟩ := Option.bind_eq_some_iff.mp hdcid
    exact (oneSession_dcid_iff howned hreceived hinfo).mp (hone buffer dcid hreceived hinfo)
  · intro hrouted buffer dcid hreceived hinfo
    apply (oneSession_dcid_iff howned hreceived hinfo).mpr
    exact hrouted dcid (Option.bind_eq_some_iff.mpr ⟨buffer, hreceived, hinfo⟩)

/-- **One QUIC connection, one session.** In every run of the two loops a datagram is treated as
    its connection requires exactly if it is `Routed`. -/
theorem one_session_iff_routed (headerInfo : Bytes → Option Bytes)
    (step : Listener → Event → Option Listener)
    (hloop : step = quicproHttp3ServerListen headerInfo ∨ step = quicproServerListen headerInfo)
    (events : List Event) (listener : Listener)
    (hrun : after step start events = some listener) (hfresh : FreshRun headerInfo step events) :
    ∀ arrival ∈ arrivals step events,
      OneSession headerInfo arrival.1 arrival.2 ↔ Routed headerInfo arrival.1 arrival.2 := by
  intro arrival harrival
  apply oneSession_iff
  rcases hloop with rfl | rfl
  · exact owned_arrivals hrun hfresh arrival harrival
  · exact owned_arrivals hrun hfresh arrival harrival

/-! ### Two datagrams of a client -/

/-- A datagram that consists of its id. -/
def bareDatagram (dcid generated : Bytes) : Event :=
  .datagram ⟨some dcid, [], some generated, true⟩

def silent : Nat → Answer := fun _ => ⟨[], false, [], false⟩

def twoDatagrams (first second : Bytes) : List Event :=
  [.ready 1, bareDatagram first [0x51#8], .served silent, .ready 1, bareDatagram second [0x52#8]]

def oneSessionServer (dcid : Bytes) : Server :=
  ⟨[([0x51#8], ⟨0, []⟩)], 1, [.accept 0 [0x51#8] [], .recv 0 dcid [], .onTimeout 0]⟩

/-- The client has seen the reply and uses the id in it. -/
theorem one_session_after_reply :
    FreshRun some (quicproHttp3ServerListen some) (twoDatagrams [0x01#8] [0x51#8]) ∧
      ∀ arrival ∈ arrivals (quicproHttp3ServerListen some) (twoDatagrams [0x01#8] [0x51#8]),
        OneSession some arrival.1 arrival.2 := by
  refine ⟨by decide, fun arrival harrival => ?_⟩
  apply (one_session_iff_routed some _ (.inl rfl) _ _ rfl (by decide) arrival harrival).mpr
  intro dcid hdcid
  rcases List.mem_cons.mp harrival with rfl | hsecond
  · refine .inr ⟨?_, fun _ _ => ?_⟩
    · rintro conn ⟨data, addr, hmem, -⟩
      cases hmem
    · rintro conn ⟨data, addr, hmem, -⟩
      cases hmem
  · rw [List.mem_singleton.mp hsecond] at hdcid ⊢
    cases hdcid
    exact .inl (by decide)

/-- The client repeats its first datagram, and the session it has is passed over. -/
theorem repeated_initial_opens_session :
    (FreshRun some (quicproHttp3ServerListen some) (twoDatagrams [0x01#8] [0x01#8]) ∧
      ∃ arrival ∈ arrivals (quicproHttp3ServerListen some) (twoDatagrams [0x01#8] [0x01#8]),
        ¬ OneSession some arrival.1 arrival.2) ∧
    (FreshRun some (quicproServerListen some) (twoDatagrams [0x01#8] [0x01#8]) ∧
      ∃ arrival ∈ arrivals (quicproServerListen some) (twoDatagrams [0x01#8] [0x01#8]),
        ¬ OneSession some arrival.1 arrival.2) := by
  have hpassed : ¬ OneSession some (oneSessionServer [0x01#8])
      ⟨some [0x01#8], [], some [0x52#8], true⟩ := by
    intro hone
    have hdelivered : Delivered some (oneSessionServer [0x01#8]) [0x01#8] 0 :=
      ⟨[0x01#8], [], by decide, rfl⟩
    have hopen : IsOpen (oneSessionServer [0x01#8]) 0 :=
      ⟨([0x51#8], ⟨0, []⟩), by decide, rfl⟩
    exact absurd ((hone [0x01#8] [0x01#8] rfl rfl).1 0 hdelivered hopen) (by decide)
  exact ⟨⟨by decide, _, List.mem_cons_of_mem _ (List.mem_singleton_self _), hpassed⟩,
    ⟨by decide, _, List.mem_cons_of_mem _ (List.mem_singleton_self _), hpassed⟩⟩

end QuicproAsync.QuicServer

import QuicproAsync.Connect
import QuicproAsync.Decimal

/-!
# The port that is dialled

Three functions resolve a host and a port: `quicpro_connect`, `quicpro_client_session_connect` and
the constructor of the session class in `server/session.c`. Each of them prints the port, a 64-bit
integer, into a buffer of six bytes and hands it to `getaddrinfo` as the service. No function looks
at the range of the port, so the service is what fits the buffer: five characters.
-/

namespace QuicproAsync.ClientConnect

open Php ClientSession Descriptors

/-! ### The constructor -/

/-- `QuicSession::__construct`. It tries all addresses in one loop, and binds no interface. -/
def quicSessionConstruct (call : ConnectCall) : Opened :=
  if !call.hasConfig then ⟨.error (ascii "Invalid QUIC configuration resource"), .empty, 0⟩
  else
    match call.resolved with
    | .error _ => ⟨.error (ascii "DNS resolution failed"), .empty, 0⟩
    | .ok addresses =>
      let progress := tryLoop (fun _ => true) none .start addresses
      match progress.fd with
      | none => ⟨.error (ascii "Unable to connect UDP socket"), progress.sockets, 0⟩
      | some fd =>
        match call.quicheConnect with
        | none =>
          ⟨.error (ascii "quiche_connect() failed"), progress.sockets.release fd, 0⟩
        | some conn =>
          if !call.quicheH3ConnNewWithTransport then
            ⟨.error (ascii "HTTP/3 initialization failed"), progress.sockets.release fd, 0⟩
          else ⟨.ok (progress.selected, ⟨some conn, false⟩), progress.sockets, 0⟩

/-! ### What is looked up -/

/-- The arguments of `getaddrinfo`. -/
structure Lookup where
  host : Bytes
  service : Bytes

/-- `port_str`, up to its terminator. -/
def portStr (port : Int) : Bytes := cstr (snprintf 6 (ascii (toString port))).1

inductive Caller where
  | quicproConnect
  | quicproClientSessionConnect
  | quicSessionConstruct

/-- What a function looks up, none if it fails before that. -/
def Caller.lookup (caller : Caller) (call : ConnectCall) : Option Lookup :=
  match caller with
  | .quicproConnect | .quicSessionConstruct =>
    if !call.hasConfig then none else some ⟨cstr call.host, portStr call.port⟩
  | .quicproClientSessionConnect =>
    if !call.hasConfig then none
    else if call.hostSize ≤ call.host.length then none
    else some ⟨cstr call.host, portStr call.port⟩

/-- The function returns a session. -/
def Caller.succeeds (caller : Caller) (call : ConnectCall) : Bool :=
  match caller with
  | .quicproConnect => (ClientConnect.quicproConnect call).result.isOk
  | .quicproClientSessionConnect =>
    (ClientConnect.quicproClientSessionConnect call).session.isSome
  | .quicSessionConstruct => (ClientConnect.quicSessionConstruct call).result.isOk

/-- Each function needs a configuration, and one also a host that fits its buffer. -/
theorem lookup_eq_none_iff (caller : Caller) (call : ConnectCall) :
    caller.lookup call = none ↔ call.hasConfig = false ∨
      (caller = .quicproClientSessionConnect ∧ call.hostSize ≤ call.host.length) := by
  cases caller with
  | quicproConnect => simp [Caller.lookup]
  | quicSessionConstruct => simp [Caller.lookup]
  | quicproClientSessionConnect =>
    cases hconfig : call.hasConfig with
    | false => simp [Caller.lookup, hconfig]
    | true => simp [Caller.lookup, hconfig]

/-- A function that looks nothing up has failed. -/
theorem succeeds_of_lookup_none {caller : Caller} {call : ConnectCall}
    (hnone : caller.lookup call = none) : caller.succeeds call = false := by
  rcases (lookup_eq_none_iff caller call).mp hnone with hconfig | ⟨rfl, hlong⟩
  · have hfails : (!call.hasConfig) = true := by rw [hconfig, Bool.not_false]
    cases caller with
    | quicproConnect =>
      rw [Caller.succeeds, ClientConnect.quicproConnect, if_pos hfails]
      rfl
    | quicSessionConstruct =>
      rw [Caller.succeeds, ClientConnect.quicSessionConstruct, if_pos hfails]
      rfl
    | quicproClientSessionConnect =>
      rw [Caller.succeeds, ClientConnect.quicproClientSessionConnect, if_pos hfails]
      rfl
  · rw [Caller.succeeds, ClientConnect.quicproClientSessionConnect, if_pos hlong]
    split <;> rfl

theorem service_of_lookup {caller : Caller} {call : ConnectCall} {lookup : Lookup}
    (hlookup : caller.lookup call = some lookup) : lookup.service = portStr call.port := by
  unfold Caller.lookup at hlookup
  split at hlookup
  · obtain ⟨-, hsome⟩ := Option.ite_none_left_eq_some.mp hlookup
    cases hsome
    rfl
  · obtain ⟨-, hsome⟩ := Option.ite_none_left_eq_some.mp hlookup
    cases hsome
    rfl
  · obtain ⟨-, hrest⟩ := Option.ite_none_left_eq_some.mp hlookup
    obtain ⟨-, hsome⟩ := Option.ite_none_left_eq_some.mp hrest
    cases hsome
    rfl

/-! ### The port -/

/-- **The requested port is dialled**: the function fails before it looks anything up, or the
    service that it looks up is the whole decimal number. -/
def PortDialled (caller : Caller) (call : ConnectCall) : Prop :=
  (caller.lookup call = none ∧ caller.succeeds call = false) ∨
    ∃ lookup, caller.lookup call = some lookup ∧ lookup.service = ascii (toString call.port)

/-- The buffer has room for five characters. -/
theorem portStr_eq_iff (port : Int) :
    portStr port = ascii (toString port) ↔ -9999 ≤ port ∧ port ≤ 99999 := by
  have hlength := @length_ascii_le_iff port 4 (by decide)
  rw [portStr, cstr_snprintf_iff (by decide) (nulFree_ascii_toString port), Nat.lt_succ_iff,
    hlength]
  omega

/-- **The requested port is dialled** if and only if its decimal number has at most five
    characters, or the function fails before: it has no configuration, or the host does not fit the
    buffer that one of the three has for it. -/
theorem port_dialled_iff (caller : Caller) (call : ConnectCall) :
    PortDialled caller call ↔
      (call.hasConfig = false ∨
        (caller = .quicproClientSessionConnect ∧ call.hostSize ≤ call.host.length)) ∨
        (-9999 ≤ call.port ∧ call.port ≤ 99999) := by
  rw [← portStr_eq_iff, ← lookup_eq_none_iff, PortDialled]
  cases hlookup : caller.lookup call with
  | none => simp [succeeds_of_lookup_none hlookup]
  | some lookup => simp [service_of_lookup hlookup]

/-- A call for a host that has an address, with the given port. -/
def dial (port : Int) : ConnectCall := { connectTo [reachable] with port }

theorem lookup_dial (caller : Caller) (port : Int) :
    caller.lookup (dial port) = some ⟨cstr (ascii "example"), portStr port⟩ := by
  cases caller <;> rfl

/-- A service string that is not the number of the port is looked up all the same. -/
theorem not_portDialled_dial (caller : Caller) {port : Int}
    (hother : portStr port ≠ ascii (toString port)) : ¬ PortDialled caller (dial port) := by
  rintro (⟨hnone, -⟩ | ⟨lookup, hlookup, hservice⟩)
  · rw [lookup_dial] at hnone
    cases hnone
  · rw [lookup_dial] at hlookup
    cases hlookup
    exact hother hservice

/-- The three functions look up port 10044 for port 100443, and port -1234 for port -12345. -/
theorem port_cut_off :
    portStr 100443 = ascii "10044" ∧ portStr (-12345) = ascii "-1234" ∧
      ∀ caller : Caller, ¬ PortDialled caller (dial 100443) ∧
        ¬ PortDialled caller (dial (-12345)) := by
  refine ⟨by decide, by decide, fun caller => ⟨?_, ?_⟩⟩
  · exact not_portDialled_dial caller (by decide)
  · exact not_portDialled_dial caller (by decide)

end QuicproAsync.ClientConnect

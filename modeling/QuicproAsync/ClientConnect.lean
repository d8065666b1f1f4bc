import QuicproAsync.ClientSession
import QuicproAsync.FirstSuccess

/-!
# Connecting a client session

`quicpro_client_session_connect` resolves the host and tries the addresses one after the other:
for each it opens a socket, binds it to the interface if one is asked for, and connects it. The
IPv6 addresses come first, then the IPv4 ones, as far as the preferred family permits.

The two helpers that open and bind a socket throw an exception when they fail, and the loops then
go on to the next address. If a later address works, the call returns a session while the
exception of the earlier one is still pending.
-/

namespace QuicproAsync.ClientConnect

open Php ClientSession

/-! ### The call -/

inductive Family where
  | inet
  | inet6
  | other
deriving DecidableEq

/-- A resolved address, with what the system answers when it is tried: nothing, or the text of an
    error. -/
structure Address where
  family : Family
  socket : Option Bytes
  bind : Option Bytes
  connect : Option Bytes

/-- A call of `quicpro_client_session_connect`, and what is answered during it. -/
structure ConnectCall where
  host : Bytes
  port : Int
  hasConfig : Bool
  options : Option HashTable
  /-- `sizeof(s->host)`. -/
  hostSize : Nat
  /-- What `getaddrinfo` finds, or the text of its error. -/
  resolved : Except Bytes (List Address)
  /-- `strerror(errno)` after the loops. -/
  lastError : Bytes
  quicheConnect : Option QuicConn
  quicheH3ConfigNew : Bool
  quicheH3ConnNewWithTransport : Bool

/-- What the call returns, none for `FALSE`, and the exceptions that are pending then. -/
structure Connected where
  session : Option (Address × Session)
  thrown : List Bytes

/-! ### One address -/

def udpSocketNonblock (address : Address) : Except Bytes Unit :=
  match address.socket with
  | some error => .error (ascii "Failed to create non-blocking UDP socket: " ++ error)
  | none => .ok ()

def socketBindIface (address : Address) (iface : Bytes) : Except Bytes Unit :=
  match address.bind with
  | some error =>
    .error (ascii "Failed to bind socket to interface '" ++ cstr iface ++ ascii "': " ++ error)
  | none => .ok ()

/-- The body of the loops: whether the address is connected, and what was thrown. -/
def attempt (interface : Option Bytes) (address : Address) : Bool × List Bytes :=
  match udpSocketNonblock address with
  | .error message => (false, [message])
  | .ok () =>
    match interface.elim (.ok ()) (socketBindIface address) with
    | .error message => (false, [message])
    | .ok () => (address.connect.isNone, [])

/-! ### The loops -/

/-- A string option, looked up under its name. -/
def stringOption (options : Option HashTable) (name : String) : Option Bytes :=
  match options.bind (·.lookup (.str (ascii name))) with
  | some (.string text) => some text
  | _ => none

def preferredIpFamily (options : Option HashTable) : Option Bytes :=
  stringOption options "preferred_ip_family"

/-- The interface, if its name is not empty. -/
def interfaceOf (options : Option HashTable) : Option Bytes :=
  (stringOption options "interface").filter (· ≠ [])

def tryIpv6 (preferred : Option Bytes) : Bool :=
  preferred = none || preferred = some (ascii "auto") || preferred = some (ascii "ipv6")

def tryIpv4 (preferred : Option Bytes) : Bool :=
  preferred = none || preferred = some (ascii "auto") || preferred = some (ascii "ipv4")

/-- One of the two loops. -/
def tryFamily (interface : Option Bytes) (family : Family) (addresses : List Address) :
    Option Address × List Bytes :=
  FirstSuccess.search (attempt interface) (addresses.filter (·.family = family))

/-- Both loops. -/
def tryAddresses (options : Option HashTable) (addresses : List Address) :
    Option Address × List Bytes :=
  let preferred := preferredIpFamily options
  let interface := interfaceOf options
  let ipv6 := if tryIpv6 preferred then tryFamily interface .inet6 addresses else (none, [])
  match ipv6 with
  | (some address, thrown) => (some address, thrown)
  | (none, thrown) =>
    if tryIpv4 preferred then
      let (found, more) := tryFamily interface .inet addresses
      (found, thrown ++ more)
    else (none, thrown)

/-! ### The whole call -/

/-- The part behind the loops. -/
def startQuic (call : ConnectCall) (address : Address) (thrown : List Bytes) : Connected :=
  match call.quicheConnect with
  | none => ⟨none, thrown ++ [ascii ("Failed to create new QUIC connection via quiche_connect. " ++
      "This indicates an invalid configuration or resource exhaustion.")]⟩
  | some conn =>
    if !call.quicheH3ConfigNew then
      ⟨none, thrown ++ [ascii
        "Failed to initialize HTTP/3 configuration. System memory exhausted."]⟩
    else if !call.quicheH3ConnNewWithTransport then
      ⟨none, thrown ++ [ascii ("Failed to initialize HTTP/3 connection. This indicates an " ++
        "invalid QUIC connection state or a severe configuration mismatch.")]⟩
    else ⟨some (address, ⟨some conn, false⟩), thrown⟩

def quicproClientSessionConnect (call : ConnectCall) : Connected :=
  if !call.hasConfig then
    ⟨none, [ascii "Invalid or uninitialized Quicpro\\Config resource provided."]⟩
  else if call.hostSize ≤ call.host.length then
    ⟨none, [ascii "Hostname '" ++ cstr call.host ++ ascii "' is too long. Maximum allowed is " ++
      ascii (toString (call.hostSize - 1)) ++ ascii " characters."]⟩
  else
    match call.resolved with
    | .error error =>
      ⟨none, [ascii "DNS resolution failed for host '" ++ cstr call.host ++ ascii "': " ++ error]⟩
    | .ok addresses =>
      match tryAddresses call.options addresses with
      | (none, thrown) =>
        ⟨none, thrown ++ [ascii "Failed to connect UDP socket to host '" ++ cstr call.host ++
          ascii ":" ++ ascii (toString call.port) ++
          ascii "' using any available IP family. Last system error: " ++ call.lastError]⟩
      | (some address, thrown) => startQuic call address thrown

/-! ### What a caller may expect -/

/-- The families that a caller can ask for. -/
inductive Preference where
  | none
  | auto
  | ipv4
  | ipv6

/-- The value of the option. -/
def Preference.name : Preference → Option Bytes
  | .none => Option.none
  | .auto => some (ascii "auto")
  | .ipv4 => some (ascii "ipv4")
  | .ipv6 => some (ascii "ipv6")

def Preference.permits : Preference → Family → Bool
  | .none, family | .auto, family => family = .inet || family = .inet6
  | .ipv4, family => family = .inet
  | .ipv6, family => family = .inet6

/-- The socket can be opened and bound. -/
def Address.opens (interface : Option Bytes) (address : Address) : Bool :=
  address.socket.isNone && (interface.isNone || address.bind.isNone)

/-- The address passes all three steps. -/
def Address.passes (interface : Option Bytes) (address : Address) : Bool :=
  address.opens interface && address.connect.isNone

/-- **The fallback succeeds**: there is a session, with no exception pending, if and only if some
    address of a permitted family passes. -/
def FallbackSucceeds (call : ConnectCall) (preference : Preference) (addresses : List Address) :
    Prop :=
  ((quicproClientSessionConnect call).session.isSome ∧
      (quicproClientSessionConnect call).thrown = []) ↔
    ∃ address ∈ addresses, preference.permits address.family ∧
      address.passes (interfaceOf call.options)

/-- The addresses in the order in which they are tried. -/
def Preference.order (preference : Preference) (addresses : List Address) : List Address :=
  addresses.filter (fun address => address.family = .inet6 && preference.permits .inet6) ++
    addresses.filter (fun address => address.family = .inet && preference.permits .inet)

/-- The addresses that are tried before one passes. -/
def triedInVain (interface : Option Bytes) (preference : Preference) (addresses : List Address) :
    List Address :=
  (preference.order addresses).takeWhile fun address => !address.passes interface

/-! ### What the loops do -/

theorem attempt_fst (interface : Option Bytes) (address : Address) :
    (attempt interface address).1 = address.passes interface := by
  rw [attempt, udpSocketNonblock, Address.passes, Address.opens]
  cases address.socket with
  | some error => rfl
  | none =>
    cases interface with
    | none => simp
    | some iface =>
      simp only [Option.elim, socketBindIface]
      cases address.bind with
      | some error => rfl
      | none => simp

theorem attempt_snd (interface : Option Bytes) (address : Address) :
    (attempt interface address).2 = [] ↔ address.opens interface := by
  rw [attempt, udpSocketNonblock, Address.opens]
  cases address.socket with
  | some error => simp
  | none =>
    cases interface with
    | none => simp
    | some iface =>
      simp only [Option.elim, socketBindIface]
      cases address.bind with
      | some error => simp
      | none => simp

theorem tryIpv6_name (preference : Preference) :
    tryIpv6 preference.name = preference.permits .inet6 := by
  cases preference <;> decide

theorem tryIpv4_name (preference : Preference) :
    tryIpv4 preference.name = preference.permits .inet := by
  cases preference <;> decide

/-- The two loops are one search, over the addresses in their order. -/
theorem tryAddresses_eq {options : Option HashTable} {preference : Preference}
    (hpreferred : preferredIpFamily options = preference.name) (addresses : List Address) :
    tryAddresses options addresses =
      FirstSuccess.search (attempt (interfaceOf options)) (preference.order addresses) := by
  have hfamily : ∀ family, FirstSuccess.search (attempt (interfaceOf options))
      (addresses.filter fun address => address.family = family && preference.permits family) =
        if preference.permits family then tryFamily (interfaceOf options) family addresses
        else (none, []) := by
    intro family
    cases preference.permits family with
    | true => simp [tryFamily]
    | false => simp [FirstSuccess.search]
  rw [tryAddresses, Preference.order, FirstSuccess.search_append, hfamily, hfamily, hpreferred,
    tryIpv6_name, tryIpv4_name]
  dsimp only
  generalize (if preference.permits .inet6 then
    tryFamily (interfaceOf options) .inet6 addresses else (none, [])) = ipv6
  obtain ⟨found, thrown⟩ := ipv6
  cases found with
  | some address => rfl
  | none => cases preference.permits .inet <;> simp

theorem mem_order {preference : Preference} {addresses : List Address} {address : Address} :
    address ∈ preference.order addresses ↔
      address ∈ addresses ∧ preference.permits address.family := by
  rw [Preference.order, List.mem_append, List.mem_filter, List.mem_filter, ← and_or_left]
  refine and_congr_right fun _ => ?_
  cases address.family <;> cases preference <;> decide

/-- **The fallback succeeds** if and only if, where an address passes, every address that is tried
    before it gets as far as `connect`: for all addresses, all answers of the system and every
    preferred family. -/
theorem fallback_succeeds_iff (call : ConnectCall) (preference : Preference)
    (addresses : List Address) (conn : QuicConn) (hconfig : call.hasConfig = true)
    (hhost : call.host.length < call.hostSize) (hresolved : call.resolved = .ok addresses)
    (hpreferred : preferredIpFamily call.options = preference.name)
    (hquiche : call.quicheConnect = some conn) (hh3Config : call.quicheH3ConfigNew = true)
    (hh3 : call.quicheH3ConnNewWithTransport = true) :
    FallbackSucceeds call preference addresses ↔
      ((∃ address ∈ addresses, preference.permits address.family ∧
          address.passes (interfaceOf call.options)) →
        ∀ address ∈ triedInVain (interfaceOf call.options) preference addresses,
          address.opens (interfaceOf call.options)) := by
  generalize hsearch : FirstSuccess.search (attempt (interfaceOf call.options))
    (preference.order addresses) = found
  have hsome : found.1.isSome ↔ ∃ address ∈ addresses, preference.permits address.family ∧
      address.passes (interfaceOf call.options) := by
    rw [← hsearch, FirstSuccess.isSome_search]
    simp only [mem_order, attempt_fst, and_assoc]
  have hquiet : found.2 = [] ↔
      ∀ address ∈ triedInVain (interfaceOf call.options) preference addresses,
        address.opens (interfaceOf call.options) := by
    -- an address that passes has been opened, so it throws nothing
    have hsilent : ∀ address ∈ preference.order addresses,
        (attempt (interfaceOf call.options) address).1 = true →
          (attempt (interfaceOf call.options) address).2 = [] := by
      intro address _ hpasses
      rw [attempt_fst, Address.passes, Bool.and_eq_true] at hpasses
      exact (attempt_snd _ _).mpr hpasses.1
    rw [← hsearch, FirstSuccess.reports_eq_nil_iff hsilent]
    simp only [FirstSuccess.failed, attempt_fst, attempt_snd, triedInVain]
  have hreturned : ((quicproClientSessionConnect call).session.isSome ∧
      (quicproClientSessionConnect call).thrown = []) ↔ (found.1.isSome ∧ found.2 = []) := by
    rw [quicproClientSessionConnect, hconfig, if_neg (by decide), if_neg (by omega), hresolved]
    dsimp only
    rw [tryAddresses_eq hpreferred, hsearch]
    obtain ⟨address, thrown⟩ := found
    cases address with
    | none => simp
    | some address => simp [startQuic, hquiche, hh3Config, hh3]
  rw [FallbackSucceeds, hreturned, ← hsome, ← hquiet]
  tauto

/-! ### Calls with two addresses -/

/-- A call for a host with the given addresses. -/
def connectTo (addresses : List Address) : ConnectCall where
  host := ascii "example"
  port := 443
  hasConfig := true
  options := none
  hostSize := 256
  resolved := .ok addresses
  lastError := []
  quicheConnect := some ⟨[]⟩
  quicheH3ConfigNew := true
  quicheH3ConnNewWithTransport := true

def reachable : Address := ⟨.inet, none, none, none⟩

/-- An IPv6 address that cannot be reached, and one for which there is no socket. -/
def unreachable : Address := ⟨.inet6, none, none, some (ascii "Network is unreachable")⟩

def unsupported : Address :=
  ⟨.inet6, some (ascii "Address family not supported by protocol"), none, none⟩

theorem fallback_after_unreachable :
    FallbackSucceeds (connectTo [unreachable, reachable]) .none [unreachable, reachable] :=
  (fallback_succeeds_iff (connectTo [unreachable, reachable]) .none [unreachable, reachable] ⟨[]⟩
    rfl (by decide) rfl rfl rfl rfl rfl).mpr (by decide)

/-- The IPv4 address passes and a session is returned, but the exception of the IPv6 address is
    pending. -/
theorem fallback_with_exception :
    (quicproClientSessionConnect (connectTo [unsupported, reachable])).session =
        some (reachable, ⟨some ⟨[]⟩, false⟩) ∧
      (quicproClientSessionConnect (connectTo [unsupported, reachable])).thrown =
        [ascii ("Failed to create non-blocking UDP socket: " ++
          "Address family not supported by protocol")] ∧
      ¬ FallbackSucceeds (connectTo [unsupported, reachable]) .none [unsupported, reachable] := by
  refine ⟨rfl, by decide, fun hsucceeds => ?_⟩
  have hquiet := (hsucceeds.mpr ⟨reachable, by simp, rfl, rfl⟩).2
  exact absurd hquiet (by decide)

end QuicproAsync.ClientConnect

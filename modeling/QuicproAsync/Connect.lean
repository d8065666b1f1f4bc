import QuicproAsync.ClientConnect
import QuicproAsync.Descriptors

/-!
# The sockets of the functions that connect

`quicpro_connect` of `connect.c` is an older form of `quicpro_client_session_connect`. Its options
have other names, it waits between the two families, and its helpers throw nothing; but it tries
the addresses in two loops of the same kind. Each loop opens a socket for an address, and closes it
unless the address is the one that is kept.

The loops are given here once more, with their sockets. Both functions keep the first address of
the families that are permitted that passes all steps, IPv6 before IPv4, and no other socket stays
open.
-/

namespace QuicproAsync.ClientConnect

open Php ClientSession Descriptors

/-! ### The loops -/

/-- The variables of the loops: the descriptor, none for a negative number, and the address that
    was connected. -/
structure Progress where
  fd : Option Nat
  selected : Option Address
  sockets : Table

def Progress.start : Progress := ⟨none, none, .empty⟩

/-- One address: the variables after it, and whether the loop ends. -/
def tryAddress (interface : Option Bytes) (progress : Progress) (address : Address) :
    Progress × Bool :=
  match udpSocketNonblock address with
  | .error _ => ({ progress with fd := none }, false)
  | .ok () =>
    let (fd, sockets) := progress.sockets.acquire
    let failed := { progress with fd := none, sockets := sockets.release fd }
    match interface.elim (.ok ()) (socketBindIface address) with
    | .error _ => (failed, false)
    | .ok () =>
      match address.connect with
      | some _ => (failed, false)
      | none => (⟨some fd, some address, sockets⟩, true)

/-- A loop over the addresses of one kind. -/
def tryLoop (wanted : Address → Bool) (interface : Option Bytes) :
    Progress → List Address → Progress
  | progress, [] => progress
  | progress, address :: rest =>
    if !wanted address then tryLoop wanted interface progress rest
    else
      match tryAddress interface progress address with
      | (progress, true) => progress
      | (progress, false) => tryLoop wanted interface progress rest

def isFamily (family : Family) (address : Address) : Bool := address.family = family

/-! ### `quicpro_client_session_connect` -/

/-- The loops of `quicpro_client_session_connect`. -/
def clientSelect (options : Option HashTable) (addresses : List Address) : Progress :=
  let preferred := preferredIpFamily options
  let interface := interfaceOf options
  let progress :=
    if tryIpv6 preferred then tryLoop (isFamily .inet6) interface .start addresses else .start
  -- `connected_successfully` is set together with the address
  if progress.selected.isNone && tryIpv4 preferred then
    tryLoop (isFamily .inet) interface progress addresses
  else progress

/-! ### `quicpro_connect` -/

def modeOf (options : Option HashTable) : Bytes := (stringOption options "mode").getD (ascii "auto")

/-- The interface, if its name is not empty. -/
def ifaceOf (options : Option HashTable) : Option Bytes :=
  (stringOption options "iface").filter (· ≠ [])

def delayMsOf (options : Option HashTable) : Int :=
  match options.bind (·.lookup (.str (ascii "delay_ms"))) with
  | some (.long delay) => if delay.toInt < 0 then 0 else delay.toInt
  | _ => 250

/-- `try_v6` and `try_v4`. -/
def familiesOf (mode : Bytes) : Bool × Bool :=
  if strncmpEq 4 (cstr mode) (ascii "ipv6") then (true, false)
  else if strncmpEq 4 (cstr mode) (ascii "ipv4") then (false, true)
  else (true, true)

/-- The loops of `quicpro_connect`, with the microseconds that it waits between them. -/
def connectSelect (options : Option HashTable) (addresses : List Address) : Progress × Int :=
  let interface := ifaceOf options
  let (tryV6, tryV4) := familiesOf (modeOf options)
  let progress :=
    if tryV6 then tryLoop (isFamily .inet6) interface .start addresses else .start
  let slept :=
    if progress.fd.isNone && tryV6 && tryV4 && decide (0 < delayMsOf options) then
      delayMsOf options * 1000
    else 0
  if progress.fd.isNone && tryV4 then
    (tryLoop (isFamily .inet) interface progress addresses, slept)
  else (progress, slept)

/-- What `quicpro_connect` returns, an error for `FALSE`, with the sockets and the time that it has
    waited. -/
structure Opened where
  result : Except Bytes (Option Address × Session)
  sockets : Table
  slept : Int

def quicproConnect (call : ConnectCall) : Opened :=
  if !call.hasConfig then ⟨.error (ascii "Invalid config resource"), .empty, 0⟩
  else
    match call.resolved with
    | .error _ => ⟨.error (ascii "DNS lookup failed"), .empty, 0⟩
    | .ok addresses =>
      let (progress, slept) := connectSelect call.options addresses
      match progress.fd with
      | none => ⟨.error (ascii "connect() failed"), progress.sockets, slept⟩
      | some fd =>
        match call.quicheConnect with
        | none =>
          ⟨.error (ascii "quiche_connect failed"), progress.sockets.release fd, slept⟩
        | some conn =>
          ⟨.ok (progress.selected, ⟨some conn, false⟩), progress.sockets, slept⟩

/-! ### What is expected of the loops -/

/-- The first IPv6 address that passes, if IPv6 is permitted, and otherwise the first IPv4 address
    that does, if IPv4 is permitted. -/
def firstPassing (preference : Preference) (interface : Option Bytes) (addresses : List Address) :
    Option Address :=
  let first (family : Family) : Option Address :=
    if preference.permits family then
      addresses.find? fun address => address.family = family && address.passes interface
    else none
  (first .inet6).or (first .inet)

/-- **The selection is right**: the address is the first that passes, its socket is the only one
    that is open, and every other socket was closed exactly once. -/
structure Selects (preference : Preference) (interface : Option Bytes) (addresses : List Address)
    (progress : Progress) : Prop where
  address : progress.selected = firstPassing preference interface addresses
  socket : progress.fd.isSome = progress.selected.isSome
  settled : Settled progress.sockets progress.fd

/-! ### What a loop does -/

variable {interface : Option Bytes} {progress : Progress}

/-- Nothing is selected, and every socket is closed. -/
structure Progress.Idle (progress : Progress) : Prop where
  fd : progress.fd = none
  selected : progress.selected = none
  settled : Settled progress.sockets none

theorem idle_start : Progress.start.Idle := ⟨rfl, rfl, settled_empty⟩

/-- An address that fails has no socket, or its socket is closed again; one that passes keeps it. -/
theorem tryAddress_cases (interface : Option Bytes) (hidle : progress.Idle) (address : Address) :
    (address.passes interface = false ∧
      ∃ next, tryAddress interface progress address = (next, false) ∧ next.Idle) ∨
    (address.passes interface = true ∧ ∃ fd sockets,
      tryAddress interface progress address = (⟨some fd, some address, sockets⟩, true) ∧
        Settled sockets (some fd)) := by
  have hfailed : Progress.Idle ⟨none, progress.selected,
      progress.sockets.acquire.2.release progress.sockets.acquire.1⟩ :=
    ⟨rfl, hidle.selected, hidle.settled.acquire.release⟩
  rw [← attempt_fst]
  unfold tryAddress attempt
  cases udpSocketNonblock address with
  | error message => exact Or.inl ⟨rfl, _, rfl, rfl, hidle.selected, hidle.settled⟩
  | ok _ =>
    cases interface.elim (.ok ()) (socketBindIface address) with
    | error message => exact Or.inl ⟨rfl, _, rfl, hfailed⟩
    | ok _ =>
      cases address.connect with
      | some error => exact Or.inl ⟨rfl, _, rfl, hfailed⟩
      | none => exact Or.inr ⟨rfl, _, _, rfl, hidle.settled.acquire⟩

/-- The socket of a loop that has ended: it belongs to the address that was selected, and all
    others are closed. -/
structure Progress.Ended (progress : Progress) : Prop where
  socket : progress.fd.isSome = progress.selected.isSome
  settled : Settled progress.sockets progress.fd

theorem Progress.Idle.ended (hidle : progress.Idle) : progress.Ended := by
  refine ⟨?_, ?_⟩
  · rw [hidle.fd, hidle.selected]
    rfl
  · rw [hidle.fd]
    exact hidle.settled

/-- If nothing was selected, another loop may follow. -/
theorem Progress.Ended.idle (hended : progress.Ended) (hnone : progress.selected = none) :
    progress.Idle := by
  have hfd : progress.fd = none := by
    have hsocket := hended.socket
    rw [hnone] at hsocket
    simpa using hsocket
  exact ⟨hfd, hnone, hfd ▸ hended.settled⟩

/-- A loop keeps the first address of its kind that passes, and closes the sockets of the others. -/
theorem tryLoop_spec (wanted : Address → Bool) (interface : Option Bytes) (hidle : progress.Idle)
    (addresses : List Address) :
    (tryLoop wanted interface progress addresses).selected =
        addresses.find? (fun address => wanted address && address.passes interface) ∧
      (tryLoop wanted interface progress addresses).Ended := by
  induction addresses generalizing progress with
  | nil => exact ⟨hidle.selected, hidle.ended⟩
  | cons address rest ih =>
    rw [tryLoop, List.find?_cons]
    cases wanted address with
    | false => exact ih hidle
    | true =>
      rcases tryAddress_cases interface hidle address with
        ⟨hfails, next, htry, hnext⟩ | ⟨hpasses, fd, sockets, htry, hsettled⟩
      · rw [htry, hfails]
        exact ih hnext
      · rw [htry, hpasses]
        exact ⟨rfl, rfl, hsettled⟩

/-- A loop that is left out selects nothing. -/
theorem tryLoop_or_idle (permitted : Bool) (wanted : Address → Bool) (interface : Option Bytes)
    (hidle : progress.Idle) (addresses : List Address) :
    (if permitted then tryLoop wanted interface progress addresses else progress).selected =
        (if permitted then
          addresses.find? (fun address => wanted address && address.passes interface)
        else none) ∧
      (if permitted then tryLoop wanted interface progress addresses else progress).Ended := by
  cases permitted with
  | true => exact tryLoop_spec wanted interface hidle addresses
  | false => exact ⟨hidle.selected, hidle.ended⟩

/-- The IPv4 addresses are tried if the IPv6 addresses have given nothing. -/
theorem selects_second_loop (preference : Preference) (interface : Option Bytes)
    (addresses : List Address) (hfirst : progress.selected = if preference.permits .inet6 then
      addresses.find? (fun address => isFamily .inet6 address && address.passes interface)
      else none) (hended : progress.Ended) :
    Selects preference interface addresses
      (if progress.selected.isNone && preference.permits .inet then
        tryLoop (isFamily .inet) interface progress addresses
      else progress) := by
  have hexpected : firstPassing preference interface addresses = progress.selected.or
      (if preference.permits .inet then
        addresses.find? (fun address => isFamily .inet address && address.passes interface)
      else none) := by
    rw [hfirst]
    rfl
  cases hselected : progress.selected with
  | some address =>
    rw [hselected, Option.some_or] at hexpected
    rw [Option.isNone_some, Bool.false_and, if_neg (by decide)]
    exact ⟨hselected.trans hexpected.symm, hended.socket, hended.settled⟩
  | none =>
    obtain ⟨hsecond, hlast⟩ := tryLoop_or_idle (preference.permits .inet) (isFamily .inet)
      interface (hended.idle hselected) addresses
    rw [hselected, Option.none_or] at hexpected
    rw [Option.isNone_none, Bool.true_and]
    exact ⟨hsecond.trans hexpected.symm, hlast.socket, hlast.settled⟩

/-! ### Both functions -/

theorem selects_clientSelect {options : Option HashTable} {preference : Preference}
    (hpreferred : preferredIpFamily options = preference.name) (addresses : List Address) :
    Selects preference (interfaceOf options) addresses (clientSelect options addresses) := by
  obtain ⟨hfirst, hended⟩ := tryLoop_or_idle (preference.permits .inet6) (isFamily .inet6)
    (interfaceOf options) idle_start addresses
  rw [clientSelect, hpreferred, tryIpv6_name, tryIpv4_name]
  exact selects_second_loop preference (interfaceOf options) addresses hfirst hended

theorem familiesOf_name (preference : Preference) :
    familiesOf (preference.name.getD (ascii "auto")) =
      (preference.permits .inet6, preference.permits .inet) := by
  cases preference <;> decide

theorem selects_connectSelect {options : Option HashTable} {preference : Preference}
    (hmode : stringOption options "mode" = preference.name) (addresses : List Address) :
    Selects preference (ifaceOf options) addresses (connectSelect options addresses).1 := by
  obtain ⟨hfirst, hended⟩ := tryLoop_or_idle (preference.permits .inet6) (isFamily .inet6)
    (ifaceOf options) idle_start addresses
  have hselects := selects_second_loop preference (ifaceOf options) addresses hfirst hended
  rw [connectSelect, modeOf, hmode, familiesOf_name]
  dsimp only
  generalize (if preference.permits .inet6 then
    tryLoop (isFamily .inet6) (ifaceOf options) .start addresses else .start) = progress
    at hended hselects ⊢
  -- the descriptor is negative exactly as long as no address is selected
  have hnone : progress.fd.isNone = progress.selected.isNone := by
    rw [← Option.not_isSome, ← Option.not_isSome, hended.socket]
  rw [hnone]
  split
  · next hsecond =>
      rw [if_pos hsecond] at hselects
      exact hselects
  · next hsecond =>
      rw [if_neg hsecond] at hselects
      exact hselects

/-- It is the first that passes in the order in which the addresses are tried. -/
theorem firstPassing_eq (preference : Preference) (interface : Option Bytes)
    (addresses : List Address) :
    firstPassing preference interface addresses =
      (preference.order addresses).find? (·.passes interface) := by
  have hfamily : ∀ family, (addresses.filter fun address =>
      address.family = family && preference.permits family).find? (·.passes interface) =
        if preference.permits family then
          addresses.find? fun address => address.family = family && address.passes interface
        else none := by
    intro family
    rw [List.find?_filter]
    cases preference.permits family with
    | true => simp
    | false => simp
  rw [Preference.order, List.find?_append, hfamily, hfamily]
  rfl

/-- **Both functions select alike**: for all addresses, all answers of the system and every
    preferred family, given to each function under its own name for it, and the same interface. The
    address that they keep is the one that `quicpro_client_session_connect` goes on with. -/
theorem selection_agrees (preference : Preference) (options clientOptions : Option HashTable)
    (addresses : List Address) (hmode : stringOption options "mode" = preference.name)
    (hpreferred : preferredIpFamily clientOptions = preference.name)
    (hinterface : ifaceOf options = interfaceOf clientOptions) :
    (connectSelect options addresses).1.selected = (clientSelect clientOptions addresses).selected ∧
      (clientSelect clientOptions addresses).selected =
        (tryAddresses clientOptions addresses).1 ∧
      Selects preference (interfaceOf clientOptions) addresses (connectSelect options addresses).1 ∧
      Selects preference (interfaceOf clientOptions) addresses
        (clientSelect clientOptions addresses) := by
  have hconnect := selects_connectSelect hmode addresses
  have hclient := selects_clientSelect hpreferred addresses
  rw [hinterface] at hconnect
  refine ⟨hconnect.address.trans hclient.address.symm, ?_, hconnect, hclient⟩
  rw [hclient.address, firstPassing_eq, tryAddresses_eq hpreferred, FirstSuccess.search_fst]
  simp only [attempt_fst]

/-- With the same two addresses as above, both functions keep the second one and its socket. -/
theorem selection_agrees_on_two : ∃ progress,
    (connectSelect none [unreachable, reachable]).1 = progress ∧
      clientSelect none [unreachable, reachable] = progress ∧
      progress.selected = some reachable ∧ progress.fd = some 1 ∧
      progress.sockets.closed = [0] ∧
      Selects .none none [unreachable, reachable] progress :=
  ⟨_, rfl, rfl, rfl, rfl, rfl,
    (selection_agrees .none none none [unreachable, reachable] rfl rfl rfl).2.2.2⟩

/-! ### The whole of `quicpro_connect` -/

end QuicproAsync.ClientConnect

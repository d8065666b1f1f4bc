import QuicproAsync.ClientSession
import QuicproAsync.Machine

/-!
# Session tickets

A client that has a TLS session ticket from an earlier connection imports it into a session, and
exports the session's ticket to keep it for the next. The ticket lies in a buffer of the session
beside its length. `quicpro_poll`, the event loop, asks quiche for a new ticket each time it is
done, and the length becomes what quiche returns.

`poll.c` defines that call away: unless quiche declares it as a macro, which it does not, it is the
constant zero. So each poll leaves the session without a ticket.
-/

namespace QuicproAsync.SessionTickets

open Php ClientSession

/-! ### The buffer -/

/-- `QUICPRO_MAX_TICKET_SIZE`. -/
def maxTicketSize : Nat := 512

/-- `ticket` and `ticket_len`. The buffer always has its size, and the length lies in it. -/
structure TicketBuffer where
  bytes : Bytes
  length : Nat
  hbytes : bytes.length = maxTicketSize
  hlength : length ≤ maxTicketSize

namespace TicketBuffer

/-- The ticket that is stored. -/
def content (buffer : TicketBuffer) : Bytes := buffer.bytes.take buffer.length

/-- `memcpy` into the buffer, and the new length. -/
def store (buffer : TicketBuffer) (ticket : Bytes) (hfits : ticket.length ≤ maxTicketSize) :
    TicketBuffer where
  bytes := ticket ++ buffer.bytes.drop ticket.length
  length := ticket.length
  hbytes := by rw [List.length_append, List.length_drop, buffer.hbytes]; omega
  hlength := hfits

/-- Only the length is written. -/
def setLength (buffer : TicketBuffer) (length : Nat) (hlength : length ≤ maxTicketSize) :
    TicketBuffer :=
  { buffer with length, hlength }

@[simp] theorem content_store (buffer : TicketBuffer) (ticket : Bytes)
    (hfits : ticket.length ≤ maxTicketSize) : (buffer.store ticket hfits).content = ticket :=
  List.take_left

@[simp] theorem content_setLength_zero (buffer : TicketBuffer) :
    (buffer.setLength 0 (Nat.zero_le _)).content = [] := rfl

end TicketBuffer

/-- `quicpro_session_t`, with the fields for the ticket. -/
structure TicketSession extends Session where
  ticket : TicketBuffer

/-! ### Import and export -/

/-- The message for a session that is not there or has no connection. -/
def invalidSession : Bytes :=
  ascii "Invalid or uninitialized Quicpro\\Session resource provided."

/-- The ticket as a PHP string, empty if there is none, or the message of an exception. -/
def quicproClientTlsExportSessionTicket (session : TicketSession) : Except Bytes Bytes :=
  match session.conn with
  | none => .error invalidSession
  | some _ =>
    if session.ticket.length = 0 then .ok []
    else .ok session.ticket.content

/-- `rc` is what `quiche_conn_set_session` returns. -/
def quicproClientTlsImportSessionTicket (session : TicketSession) (blob : Bytes) (rc : Int) :
    Except Bytes TicketSession :=
  match session.conn with
  | none => .error invalidSession
  | some _ =>
    if hfits : blob.length = 0 ∨ maxTicketSize < blob.length then
      .error (ascii "Session ticket length (" ++ ascii (toString blob.length) ++
        ascii ") is out of bounds or zero. Max allowed: " ++ ascii (toString maxTicketSize) ++
        ascii " bytes.")
    else if rc < 0 then
      .error (ascii "libquiche rejected the provided session ticket with error code " ++
        ascii (toString rc) ++ ascii ".")
    else .ok { session with ticket := session.ticket.store blob (by omega) }

/-! ### The poll -/

/-- What is answered during one round of the loop. -/
structure Round where
  /-- The packets that quiche queues for the datagram that is read, if there is one. -/
  received : Option (List Bytes)
  /-- The session ticket that this datagram carries. -/
  ticket : Option Bytes
  sending : List Sending
  inactive : Bool
  /-- The packets that quiche queues if its timer is due. -/
  timers : List Bytes
  elapsed : Int

/-- The loop that sends: what is left in the queue, and what was sent. Unlike the tick it looks
    only for a negative result of `sendto`. -/
def transmit : List Bytes → List Sending → List Bytes × List Bytes
  | [], _ => ([], [])
  | packet :: queue, answers =>
    match answers.headD .sent with
    | .ungenerated _ => (packet :: queue, [])
    | .wouldBlock | .failed _ => (queue, [])
    | .sent | .short _ =>
      let (rest, sent) := transmit queue answers.tail
      (rest, packet :: sent)

/-- One round: the queue after it, and what was sent. -/
def Round.run (queue : List Bytes) (round : Round) : List Bytes × List Bytes :=
  let (queue, sent) := transmit (queue ++ round.received.getD []) round.sending
  if round.inactive then (queue, sent)
  else (queue ++ round.timers, sent)

def Round.isLast (budget : Int) (round : Round) : Bool :=
  round.inactive || decide (budget ≤ round.elapsed)

/-- The loop over the rounds, none as long as no round is the last. -/
def pollRounds (budget : Int) (queue : List Bytes) :
    List Round → Option (List Bytes × List Bytes)
  | [] => none
  | round :: rest =>
    let (queue, sent) := round.run queue
    if round.isLast budget then some (queue, sent)
    else (pollRounds budget queue rest).map fun (queue, more) => (queue, sent ++ more)

/-- The tickets that come in during the loop. -/
def ticketsOf (budget : Int) : List Round → List Bytes
  | [] => []
  | round :: rest =>
    round.ticket.toList ++ if round.isLast budget then [] else ticketsOf budget rest

/-- The macro of `poll.c`. -/
def quicheConnGetTlsTicket (_conn : QuicConn) (_buffer : Bytes) (_size : Nat) : Nat := 0

/-- The session, and the packets that were sent; none if the call does not return. -/
def quicproPoll (session : TicketSession) (budget : Int) (rounds : List Round) :
    Option (TicketSession × List Bytes) := do
  let conn ← session.conn
  let (queue, sent) ← pollRounds budget conn.queue rounds
  let length := quicheConnGetTlsTicket ⟨queue⟩ session.ticket.bytes maxTicketSize
  pure ({ session with
    conn := some ⟨queue⟩
    ticket := session.ticket.setLength length (Nat.zero_le _) }, sent)

/-! ### Sequences of calls -/

inductive Call where
  | importTicket (blob : Bytes) (rc : Int)
  | poll (budget : Int) (rounds : List Round)

/-- A call that fails leaves the session as it is. -/
def step (session : TicketSession) : Call → Option TicketSession
  | .importTicket blob rc =>
    match quicproClientTlsImportSessionTicket session blob rc with
    | .ok next => some next
    | .error _ => some session
  | .poll budget rounds => (quicproPoll session budget rounds).map Prod.fst

/-- The import is accepted, by the length check and by quiche. -/
def Call.Accepted : Call → Prop
  | .importTicket blob rc => blob ≠ [] ∧ blob.length ≤ maxTicketSize ∧ 0 ≤ rc
  | .poll _ _ => False

def Call.isPoll : Call → Bool
  | .importTicket _ _ => false
  | .poll _ _ => true

/-- The tickets that the connection delivers during a call. -/
def Call.delivered : Call → List Bytes
  | .importTicket _ _ => []
  | .poll budget rounds => ticketsOf budget rounds

/-- **The ticket survives** the calls after its import: unless the connection has delivered
    another one, it is what the session exports. -/
def Survives (ticket : Bytes) (later : List Call) (final : TicketSession) : Prop :=
  later.flatMap Call.delivered = [] → quicproClientTlsExportSessionTicket final = .ok ticket

/-! ### What a call does to the ticket -/

variable {session : TicketSession}

theorem import_accepted {blob : Bytes} {rc : Int} {conn : QuicConn}
    (hconn : session.conn = some conn) (haccepted : (Call.importTicket blob rc).Accepted) :
    ∃ next, step session (.importTicket blob rc) = some next ∧ next.conn = some conn ∧
      next.ticket.content = blob := by
  obtain ⟨hblob, hfits, hrc⟩ := haccepted
  have hlength : ¬ (blob.length = 0 ∨ maxTicketSize < blob.length) := by
    rw [List.length_eq_zero_iff]
    rintro (hnil | hlong)
    · exact hblob hnil
    · omega
  refine ⟨{ session with ticket := session.ticket.store blob hfits }, ?_, hconn,
    TicketBuffer.content_store ..⟩
  rw [step, quicproClientTlsImportSessionTicket, hconn]
  dsimp only
  rw [dif_neg hlength, if_neg (by omega)]

theorem import_refused {blob : Bytes} {rc : Int}
    (hrefused : ¬ (Call.importTicket blob rc).Accepted) :
    step session (.importTicket blob rc) = some session := by
  rw [step, quicproClientTlsImportSessionTicket]
  split
  · next next hok =>
      -- an import that returns has passed both checks
      split at hok
      · exact nomatch hok
      · split at hok
        · exact nomatch hok
        · next hlength =>
          split at hok
          · exact nomatch hok
          · next hrc =>
            refine absurd ⟨?_, ?_, ?_⟩ hrefused
            · rintro rfl
              exact hlength (Or.inl rfl)
            · omega
            · omega
  · rfl

/-- A poll that returns leaves no ticket. -/
theorem content_of_poll {next : TicketSession} {budget : Int} {rounds : List Round}
    (hstep : step session (.poll budget rounds) = some next) :
    next.ticket.content = [] ∧ next.conn.isSome := by
  rw [step, Option.map_eq_some_iff] at hstep
  obtain ⟨⟨polled, sent⟩, hpoll, rfl⟩ := hstep
  simp only [quicproPoll, Option.bind_eq_bind, Option.bind_eq_some_iff, Option.pure_def,
    Option.some.injEq, Prod.mk.injEq] at hpoll
  obtain ⟨conn, -, ⟨queue, _⟩, -, rfl, -⟩ := hpoll
  exact ⟨TicketBuffer.content_setLength_zero _, rfl⟩

/-- The connection stays, and without an accepted import the ticket is the one from before until
    the first poll and none from then on. -/
theorem content_after {final : TicketSession} {later : List Call} (hconn : session.conn.isSome)
    (hlater : ∀ call ∈ later, ¬ call.Accepted)
    (hafter : Machine.after step session later = some final) :
    final.conn.isSome ∧ final.ticket.content =
      if later.any Call.isPoll then [] else session.ticket.content := by
  refine Machine.invariant
    (P := fun calls state => (∀ call ∈ calls, ¬ call.Accepted) → state.conn.isSome ∧
      state.ticket.content = if calls.any Call.isPoll then [] else session.ticket.content)
    (fun _ => ⟨hconn, rfl⟩) ?_ hafter hlater
  intro calls state call next _ ih hstep hcalls
  have hbefore := ih fun earlier hearlier => hcalls earlier (List.mem_append_left _ hearlier)
  rw [List.any_append]
  cases call with
  | importTicket blob rc =>
    have hrefused := hcalls (.importTicket blob rc) (List.mem_append_right _ List.mem_cons_self)
    rw [import_refused hrefused] at hstep
    cases hstep
    simpa [Call.isPoll] using hbefore
  | poll budget rounds =>
    obtain ⟨hcontent, hsome⟩ := content_of_poll hstep
    simpa [Call.isPoll] using ⟨hsome, hcontent⟩

theorem export_eq (hconn : session.conn.isSome) :
    quicproClientTlsExportSessionTicket session = .ok session.ticket.content := by
  obtain ⟨conn, hconn⟩ := Option.isSome_iff_exists.mp hconn
  rw [quicproClientTlsExportSessionTicket, hconn]
  dsimp only
  split
  · next hzero => rw [TicketBuffer.content, hzero, List.take_zero]
  · rfl

/-- **The ticket survives** if and only if there is no poll, for every session with a connection,
    every sequence of calls in which an import is accepted, and every sequence after it in which
    no other one is. A poll during which the connection delivers a ticket is not held against
    it. -/
theorem ticket_survives_iff (start session final : TicketSession) (earlier later : List Call)
    (blob : Bytes) (rc : Int) (hearlier : Machine.after step start earlier = some session)
    (hconn : session.conn.isSome) (haccepted : (Call.importTicket blob rc).Accepted)
    (hlast : ∀ call ∈ later, ¬ call.Accepted)
    (hfinal : Machine.after step start (earlier ++ .importTicket blob rc :: later) = some final) :
    Survives blob later final ↔
      (later.flatMap Call.delivered = [] → ∀ call ∈ later, call.isPoll = false) := by
  obtain ⟨conn, hconn⟩ := Option.isSome_iff_exists.mp hconn
  obtain ⟨imported, himport, himported, hcontent⟩ := import_accepted hconn haccepted
  have hlater : Machine.after step imported later = some final := by
    rw [Machine.after_append hearlier, Machine.after, List.foldlM_cons, himport] at hfinal
    exact hfinal
  obtain ⟨hsome, hfinally⟩ :=
    content_after (Option.isSome_iff_exists.mpr ⟨conn, himported⟩) hlast hlater
  rw [Survives, export_eq hsome, hfinally, hcontent]
  refine imp_congr_right fun _ => ?_
  have hunpolled : (∀ call ∈ later, call.isPoll = false) ↔ later.any Call.isPoll = false := by
    simp only [List.any_eq_false, Bool.not_eq_true]
  rw [Except.ok.injEq, hunpolled]
  cases hpolls : later.any Call.isPoll with
  | false => simp
  | true => simpa using Ne.symm haccepted.1

/-! ### A ticket that is lost -/

def fresh : TicketSession where
  conn := some ⟨[]⟩
  isClosed := false
  ticket := ⟨List.replicate maxTicketSize 0, 0, List.length_replicate, Nat.zero_le _⟩

/-- A round in which nothing comes in and nothing is to be sent. -/
def idle : Round := ⟨none, none, [], false, [], 1⟩

theorem ticket_survives_imports :
    Survives [7#8] [.importTicket [] 0, .importTicket [8#8] (-1)]
      { fresh with ticket := fresh.ticket.store [7#8] (by decide) } :=
  (ticket_survives_iff fresh fresh _ [] [.importTicket [] 0, .importTicket [8#8] (-1)] [7#8] 0 rfl
    rfl ⟨by decide, by decide, by decide⟩
    (by simp [Call.Accepted]) rfl).mpr (by simp [Call.isPoll])

/-- One byte is imported and accepted; one poll later the session exports the empty string. -/
theorem ticket_lost : ∃ final,
    Machine.after step fresh [.importTicket [7#8] 0, .poll 0 [idle]] = some final ∧
      quicproClientTlsExportSessionTicket final = .ok [] ∧
      ¬ Survives [7#8] [.poll 0 [idle]] final := by
  refine ⟨_, rfl, rfl, fun hsurvives => ?_⟩
  have hexported := hsurvives rfl
  exact absurd (Except.ok.inj hexported) (by decide)

end QuicproAsync.SessionTickets

import QuicproAsync.Decimal
import QuicproAsync.Http1Server

/-!
# Responses of the HTTP/1 server

When the handler has returned an array, the response is printed into one buffer, which is then
handed to `SSL_write` piece by piece: as much as it takes at every event that finds the socket
writable, until nothing is left.

The pieces are right: what `SSL_write` has taken is always the beginning of the buffer. The
buffer is not, for a body with a NUL in it: `Content-Length` is the length of the PHP string,
but the body is printed with `%s` and ends at the NUL.
-/

namespace QuicproAsync.Http1

open Php Machine

/-! ### The response -/

section Response

variable (env : Env)

def headerLines (status : BitVec 64) (length : Nat) : List Bytes :=
  [ascii "HTTP/1.1 " ++ ascii (toString status.toInt) ++ ascii " OK",
    ascii "Content-Length: " ++ ascii (toString length), ascii "Connection: close"]

def crlf : Bytes := [0x0d#8, 0x0a#8]

/-- Lines, each with its CR LF, and the blank line. -/
def headerBlock (lines : List Bytes) : Bytes := lines.flatMap (· ++ crlf) ++ crlf

theorem respond_writeBuffer (conn : Connection) (retval : HashTable) :
    (respond env conn retval).writeBuffer =
      headerBlock (headerLines (statusOf env retval) (bodyOf env retval).length) ++
        cstr (bodyOf env retval) := by
  have hlength : ascii " OK\r\nContent-Length: " =
      ascii " OK" ++ crlf ++ ascii "Content-Length: " := by decide
  have hclose : ascii "\r\nConnection: close\r\n\r\n" =
      crlf ++ ascii "Connection: close" ++ crlf ++ crlf := by decide
  show ascii "HTTP/1.1 " ++ ascii (toString (statusOf env retval).toInt) ++
      ascii " OK\r\nContent-Length: " ++ ascii (toString (bodyOf env retval).length) ++
      ascii "\r\nConnection: close\r\n\r\n" ++ cstr (bodyOf env retval) = _
  rw [hlength, hclose, headerBlock, headerLines]
  simp only [List.flatMap_cons, List.flatMap_nil, List.append_assoc, List.nil_append]

end Response

/-! ### A reader of responses -/

/-- What follows the first occurrence of the needle. -/
def behind (needle haystack : Bytes) : Option Bytes :=
  (strstr needle haystack).map fun place => haystack.drop (place + needle.length)

/-- The number behind the first `Content-Length: `. -/
def contentLength (response : Bytes) : Option Nat :=
  (behind (ascii "Content-Length: ") response).map fun text =>
    digitsValue (text.takeWhile isDigit)

/-- What follows the first blank line. -/
def afterBlankLine (response : Bytes) : Option Bytes := behind headerEnd response

theorem behind_here {needle : Bytes} (hne : needle ≠ []) (more : Bytes) :
    behind needle (needle ++ more) = some more := by
  obtain ⟨first, rest, rfl⟩ := List.exists_cons_of_ne_nil hne
  rw [behind, List.cons_append, strstr, if_pos ⟨more, List.cons_append⟩, Option.map_some,
    Nat.zero_add, ← List.cons_append, List.drop_left]

theorem behind_cons {needle haystack : Bytes} {byte : Byte} (hnot : ¬ needle <+: byte :: haystack) :
    behind needle (byte :: haystack) = behind needle haystack := by
  rw [behind, strstr, if_neg hnot, Option.map_map, behind]
  refine Option.map_congr fun place _ => ?_
  rw [Function.comp_apply, Nat.add_right_comm, List.drop_succ_cons]

/-- A text without the first byte of the needle holds no beginning of it. -/
theorem behind_append {first : Byte} {needle text : Bytes} (hnot : first ∉ text) (more : Bytes) :
    behind (first :: needle) (text ++ more) = behind (first :: needle) more := by
  induction text with
  | nil => rfl
  | cons byte rest ih =>
    obtain ⟨hbyte, hrest⟩ := List.ne_and_not_mem_of_not_mem_cons hnot
    rw [List.cons_append, behind_cons, ih hrest]
    exact fun hhere => hbyte (List.cons_prefix_cons.mp hhere).1

/-- Behind lines that are not blank and hold no CR comes the blank line. -/
theorem afterBlankLine_headerBlock {lines : List Bytes} {line : Bytes}
    (hlines : ∀ other ∈ line :: lines, other ≠ [] ∧ 0x0d#8 ∉ other) (body : Bytes) :
    afterBlankLine (headerBlock (line :: lines) ++ body) = some body := by
  induction lines generalizing line with
  | nil =>
    have hshape : headerBlock [line] ++ body = line ++ (headerEnd ++ body) := by
      simp [headerBlock, crlf, headerEnd]
    rw [hshape, afterBlankLine, headerEnd, behind_append (hlines line List.mem_cons_self).2]
    exact behind_here (by decide) body
  | cons second rest ih =>
    obtain ⟨hline, hrest⟩ := List.forall_mem_cons.mp hlines
    obtain ⟨hne, hfree⟩ := (List.forall_mem_cons.mp hrest).1
    obtain ⟨first, text, rfl⟩ := List.exists_cons_of_ne_nil hne
    have hfirst : ¬ 0x0d#8 = first := (List.ne_and_not_mem_of_not_mem_cons hfree).1
    have hshape : headerBlock (line :: (first :: text) :: rest) ++ body =
        line ++ (0x0d#8 :: 0x0a#8 :: (headerBlock ((first :: text) :: rest) ++ body)) := by
      simp [headerBlock, crlf]
    -- this CR LF is followed by the first byte of a line
    have hhere : ¬ headerEnd <+:
        0x0d#8 :: 0x0a#8 :: (headerBlock ((first :: text) :: rest) ++ body) := by
      intro hhere
      simp [headerBlock, headerEnd, hfirst] at hhere
    have hnext : ¬ headerEnd <+: 0x0a#8 :: (headerBlock ((first :: text) :: rest) ++ body) :=
      fun hnext => absurd (List.cons_prefix_cons.mp hnext).1 (by decide)
    rw [hshape, afterBlankLine, headerEnd, behind_append hline.2, ← headerEnd,
      behind_cons hhere, behind_cons hnext]
    exact ih hrest

theorem not_mem_ascii_toString {i : Int} {byte : Byte} (hdigit : isDigit byte = false)
    (hsign : byte ≠ 0x2d#8) : byte ∉ ascii (toString i) := by
  intro hbyte
  rcases mem_ascii_toString hbyte with hyes | hminus
  · rw [hdigit] at hyes
    cases hyes
  · exact hsign hminus

theorem not_mem_ascii_length {n : Nat} {byte : Byte} (hdigit : isDigit byte = false) :
    byte ∉ ascii (toString n) := by
  intro hbyte
  rw [isDigit_of_mem_ascii hbyte] at hdigit
  cases hdigit

section Reading

variable (status : BitVec 64) (length : Nat) (body : Bytes)

theorem afterBlankLine_response :
    afterBlankLine (headerBlock (headerLines status length) ++ body) = some body := by
  have hstatus : 0x0d#8 ∉ ascii (toString status.toInt) :=
    not_mem_ascii_toString (by decide) (by decide)
  have hlength : 0x0d#8 ∉ ascii (toString length) := not_mem_ascii_length (by decide)
  apply afterBlankLine_headerBlock
  intro other hother
  simp only [List.mem_cons, List.not_mem_nil, or_false] at hother
  rcases hother with rfl | rfl | rfl
  · simp only [List.append_assoc, List.mem_append, not_or]
    exact ⟨List.append_ne_nil_of_left_ne_nil (by decide) _, by decide, hstatus, by decide⟩
  · simp only [List.mem_append, not_or]
    exact ⟨List.append_ne_nil_of_left_ne_nil (by decide) _, by decide, hlength⟩
  · decide

theorem contentLength_response :
    contentLength (headerBlock (headerLines status length) ++ body) = some length := by
  have hshape : headerBlock (headerLines status length) ++ body =
      (ascii "HTTP/1.1 " ++ ascii (toString status.toInt) ++ ascii " OK" ++ crlf) ++
        (ascii "Content-Length: " ++ (ascii (toString length) ++
          (0x0d#8 :: 0x0a#8 :: (headerBlock [ascii "Connection: close"] ++ body)))) := by
    simp [headerBlock, headerLines, crlf]
  have hnot : 0x43#8 ∉
      ascii "HTTP/1.1 " ++ ascii (toString status.toInt) ++ ascii " OK" ++ crlf := by
    have hstatus : 0x43#8 ∉ ascii (toString status.toInt) :=
      not_mem_ascii_toString (by decide) (by decide)
    simp only [List.mem_append, not_or]
    exact ⟨⟨⟨by decide, hstatus⟩, by decide⟩, by decide⟩
  have hname : ascii "Content-Length: " = 0x43#8 :: ascii "ontent-Length: " := by decide
  rw [hshape, contentLength, hname, behind_append hnot, ← hname, behind_here (by decide),
    Option.map_some, List.takeWhile_append_of_pos fun byte hbyte => isDigit_of_mem_ascii hbyte,
    List.takeWhile_cons_of_neg (by decide), List.append_nil, digitsValue_ascii]

end Reading

/-! ### What is written -/

/-- A call of `SSL_write` that has taken bytes: how many, and which it was offered. -/
structure Write where
  count : Nat
  offered : Bytes

def Write.taken (write : Write) : Bytes := write.offered.take write.count

/-- The call in the third part of `handle_client_event`, on the connection found there. -/
def wrote (conn : Connection) (event : Event) : Option Write :=
  if conn.closed = false ∧ event.epollout = true ∧ conn.state = .writing then
    match event.sslWrite with
    | .sent count => some ⟨count, conn.writeBuffer.drop conn.writeBufferSent⟩
    | _ => none
  else none

def arrayResult : Option Zval → Option HashTable
  | some (.array retval) => some retval
  | _ => none

section Observations

variable (env : Env)

/-- The array that the handler returns in the second part. -/
def answer (conn : Connection) (event : Event) : Option HashTable :=
  if event.epollin = true ∧ conn.state = .reading then
    event.sslRead.bind fun bytes =>
      if (strstr headerEnd (memory env (conn.readBuffer ++ bytes))).isSome then
        arrayResult event.returned
      else none
  else none

def answered (conn : Connection) (event : Event) : Option HashTable :=
  if (handshake conn event).closed then none else answer env (handshake conn event) event

def written (conn : Connection) (event : Event) : Option Write :=
  if (handshake conn event).closed then none
  else (readRequest env (handshake conn event) event).bind fun conn => wrote conn event

/-- The arrays that the handler has returned. -/
def answers (events : List Event) : List HashTable :=
  observed (handleClientEvent env) (answered env) start events

def writes (events : List Event) : List Write :=
  observed (handleClientEvent env) (written env) start events

/-- All that `SSL_write` has taken. -/
def sent (events : List Event) : Bytes := (writes env events).flatMap Write.taken

/-- `SSL_write` takes at least one byte, and no more than it is offered. -/
def PartialWrites (events : List Event) : Prop :=
  ∀ write ∈ writes env events, 0 < write.count ∧ write.count ≤ write.offered.length

end Observations

/-- The connection was closed because everything was written. -/
structure AllWritten (conn : Connection) : Prop where
  closed : conn.closed = true
  writing : conn.state = .writing
  sent : conn.writeBuffer.length ≤ conn.writeBufferSent

/-- **Correct framing.** The header block and then exactly the body, and a `Content-Length` that
    counts what follows the blank line. -/
structure Framed (status : BitVec 64) (body sent : Bytes) : Prop where
  whole : sent = headerBlock (headerLines status body.length) ++ body
  counted : ∃ rest, afterBlankLine sent = some rest ∧ contentLength sent = some rest.length

/-! ### Partial writes -/

variable {env : Env} {conn middle next : Connection} {event : Event} {events : List Event}
variable {given : List HashTable} {taken : Bytes}

/-- What the handler has given and `SSL_write` has taken, as the connection shows it. -/
structure Delivering (env : Env) (given : List HashTable) (taken : Bytes) (conn : Connection) :
    Prop where
  before : conn.state ≠ .writing → given = [] ∧ taken = []
  during : conn.state = .writing → ∃ retval, given = [retval] ∧
    conn.writeBuffer =
      headerBlock (headerLines (statusOf env retval) (bodyOf env retval).length) ++
        cstr (bodyOf env retval) ∧
    taken = conn.writeBuffer.take conn.writeBufferSent ∧
    conn.writeBufferSent ≤ conn.writeBuffer.length

theorem Delivering.after_handshake (hdelivering : Delivering env given taken conn) (event : Event) :
    Delivering env given taken (handshake conn event) := by
  rw [handshake]
  split
  · next hstate =>
      have hidle : given = [] ∧ taken = [] := hdelivering.before (by simp [hstate])
      cases event.sslAccept with
      | done =>
        refine ⟨fun _ => hidle, fun hwriting => ?_⟩
        cases hwriting
      | wantReadWrite => exact hdelivering
      | failed => exact ⟨hdelivering.before, hdelivering.during⟩
  · exact hdelivering

/-- The response to an array is ready to be written, and nothing of it has been. -/
theorem delivering_callHandler (hstate : conn.state ≠ .writing) (returned : Option Zval) :
    Delivering env (arrayResult returned).toList [] (callHandler env conn returned) := by
  by_cases harray : ∃ retval, returned = some (.array retval)
  · obtain ⟨retval, rfl⟩ := harray
    refine ⟨fun hnot => absurd rfl hnot, fun _ => ⟨retval, rfl, ?_, rfl, Nat.zero_le _⟩⟩
    exact respond_writeBuffer env _ retval
  · have hnone : arrayResult returned = none := by
      unfold arrayResult
      split
      · exact absurd ⟨_, rfl⟩ harray
      · rfl
    have hsame : (callHandler env conn returned).state = conn.state := by
      unfold callHandler
      dsimp only
      split
      · exact absurd ⟨_, rfl⟩ harray
      · rfl
    rw [hnone]
    exact ⟨fun _ => ⟨rfl, rfl⟩, fun hwriting => absurd (hsame.symm.trans hwriting) hstate⟩

theorem Delivering.after_readRequest (hdelivering : Delivering env given taken conn)
    (hread : readRequest env conn event = some middle) :
    Delivering env (given ++ (answer env conn event).toList) taken middle := by
  rw [readRequest] at hread
  rw [answer]
  by_cases hreading : event.epollin = true ∧ conn.state = .reading
  · rw [if_pos hreading] at hread ⊢
    have hstate : conn.state ≠ .writing := by simp [hreading.2]
    obtain ⟨rfl, rfl⟩ := hdelivering.before hstate
    cases hbytes : event.sslRead with
    | none =>
      rw [hbytes] at hread
      cases hread
      rw [Option.bind_none, Option.toList_none, List.append_nil]
      exact ⟨hdelivering.before, hdelivering.during⟩
    | some bytes =>
      rw [hbytes] at hread
      obtain ⟨-, hread⟩ := Option.ite_none_left_eq_some.mp hread
      dsimp only at hread
      rw [Option.bind_some]
      split at hread
      · next hfound =>
          cases hread
          rw [if_pos hfound, List.nil_append]
          apply delivering_callHandler
          exact hstate
      · next hmissed =>
          cases hread
          rw [if_neg hmissed, Option.toList_none, List.append_nil]
          exact ⟨hdelivering.before, hdelivering.during⟩
  · rw [if_neg hreading] at hread ⊢
    cases hread
    rw [Option.toList_none, List.append_nil]
    exact hdelivering

/-- The next piece is taken from where the last one ended. -/
theorem Delivering.after_sent {count : Nat} (hdelivering : Delivering env given taken conn)
    (hwriting : conn.state = .writing)
    (hcount : count ≤ (conn.writeBuffer.drop conn.writeBufferSent).length) :
    Delivering env given (taken ++ (conn.writeBuffer.drop conn.writeBufferSent).take count)
      { conn with writeBufferSent := conn.writeBufferSent + count } := by
  obtain ⟨retval, hgiven, hbuffer, htaken, hsent⟩ := hdelivering.during hwriting
  refine ⟨fun hnot => absurd hwriting hnot, fun _ => ⟨retval, hgiven, hbuffer, ?_, ?_⟩⟩
  · rw [htaken]
    exact (List.take_add).symm
  · rw [List.length_drop] at hcount
    show conn.writeBufferSent + count ≤ conn.writeBuffer.length
    omega

theorem Delivering.after_finish (hdelivering : Delivering env given taken conn) :
    Delivering env given taken (writeResponse.finish conn) := by
  rw [writeResponse.finish]
  split
  · exact ⟨hdelivering.before, hdelivering.during⟩
  · exact hdelivering

theorem Delivering.after_writeResponse (hdelivering : Delivering env given taken conn)
    (hopen : conn.closed = false)
    (hwrote : ∀ write ∈ wrote conn event, write.count ≤ write.offered.length) :
    Delivering env given (taken ++ (wrote conn event).toList.flatMap Write.taken)
      (writeResponse conn event) := by
  rw [writeResponse]
  unfold wrote at hwrote ⊢
  by_cases hwriting : event.epollout = true ∧ conn.state = .writing
  · rw [if_pos hwriting]
    rw [if_pos ⟨hopen, hwriting⟩] at hwrote ⊢
    cases hresult : event.sslWrite with
    | sent count =>
      rw [hresult] at hwrote
      have hcount := hwrote _ rfl
      simp only [Option.toList_some, List.flatMap_singleton]
      exact (hdelivering.after_sent hwriting.2 hcount).after_finish
    | wantWrite =>
      simp only [Option.toList_none, List.flatMap_nil, List.append_nil]
      exact hdelivering.after_finish
    | failed =>
      simp only [Option.toList_none, List.flatMap_nil, List.append_nil]
      exact ⟨hdelivering.before, hdelivering.during⟩
  · rw [if_neg hwriting, if_neg fun hall => hwriting hall.2]
    simp only [Option.toList_none, List.flatMap_nil, List.append_nil]
    exact hdelivering

/-- One event. -/
theorem Delivering.after_event (hdelivering : Delivering env given taken conn)
    (hwritten : ∀ write ∈ written env conn event, write.count ≤ write.offered.length)
    (hstep : handleClientEvent env conn event = some next) :
    Delivering env (given ++ (answered env conn event).toList)
      (taken ++ (written env conn event).toList.flatMap Write.taken) next := by
  obtain ⟨-, hstep⟩ := Option.ite_none_left_eq_some.mp hstep
  have hshaken := hdelivering.after_handshake event
  dsimp only at hstep
  unfold written at hwritten ⊢
  rw [answered]
  by_cases hclosed : (handshake conn event).closed = true
  · rw [if_pos hclosed] at hstep
    cases hstep
    simpa [hclosed] using hshaken
  · rw [if_neg hclosed] at hstep hwritten
    rw [if_neg hclosed, if_neg hclosed]
    obtain ⟨middle, hread, rfl⟩ := Option.map_eq_some_iff.mp hstep
    have hmiddle := hshaken.after_readRequest hread
    rw [hread, Option.bind_some] at hwritten ⊢
    split
    · next hlost =>
        have hnone : wrote middle event = none := if_neg fun hall => by simp [hlost] at hall
        simpa [hnone] using hmiddle
    · next hopen => exact hmiddle.after_writeResponse (by simpa using hopen) hwritten

/-- All events: what was taken is the beginning of the response. -/
theorem delivering_after (hrun : after (handleClientEvent env) start events = some conn)
    (hpieces : PartialWrites env events) :
    Delivering env (answers env events) (sent env events) conn := by
  revert hpieces
  refine invariant (P := fun events conn => PartialWrites env events →
    Delivering env (answers env events) (sent env events) conn) ?_ ?_ hrun
  · exact fun _ => ⟨fun _ => ⟨rfl, rfl⟩, nofun⟩
  · intro events conn event next hafter ih hstep hpieces
    have hwrites : writes env (events ++ [event]) =
        writes env events ++ (written env conn event).toList := observed_snoc event hafter
    have hanswers : answers env (events ++ [event]) =
        answers env events ++ (answered env conn event).toList := observed_snoc event hafter
    rw [PartialWrites, hwrites, List.forall_mem_append] at hpieces
    rw [hanswers, sent, hwrites, List.flatMap_append]
    refine (ih hpieces.1).after_event (fun write hwrite => ?_) hstep
    exact (hpieces.2 write (Option.mem_toList.mpr hwrite)).2

/-- **Responses are framed** if and only if the body has no NUL: for every run in which the
    connection was closed because everything was written, however `SSL_write` has split it. -/
theorem framed_iff (env : Env) (events : List Event) (conn : Connection) (retval : HashTable)
    (body : Bytes) (hrun : after (handleClientEvent env) start events = some conn)
    (hpieces : PartialWrites env events) (hall : AllWritten conn)
    (hretval : retval ∈ answers env events)
    (hbody : retval.lookup (.str (ascii "body")) = some (.string body)) :
    Framed (statusOf env retval) body (sent env events) ↔ NulFree body := by
  obtain ⟨given, hgiven, hbuffer, hsent, -⟩ :=
    (delivering_after hrun hpieces).during hall.writing
  rw [hgiven, List.mem_singleton] at hretval
  subst hretval
  have hgivenBody : bodyOf env retval = body := by rw [bodyOf, hbody]
  rw [List.take_of_length_le hall.sent, hbuffer, hgivenBody] at hsent
  rw [hsent]
  constructor
  · intro hframed
    have hsame : cstr body = body := List.append_cancel_left hframed.whole
    rw [← hsame]
    exact nulFree_cstr body
  · intro hfree
    rw [cstr_of_nulFree hfree]
    refine ⟨rfl, body, afterBlankLine_response _ _ _, contentLength_response _ _ _⟩

/-! ### Two responses -/

def bodyArray (body : Bytes) : HashTable := [(.str (ascii "body"), .string body)]

/-- The socket is writable, and some of what is offered is taken. -/
def bytesTaken (count : Nat) : Event := ⟨false, true, .done, none, none, .sent count⟩

/-- A response in two pieces. -/
def twoPieces (body : Bytes) (first second : Nat) : List Event :=
  [bytesArrive headerEnd (.array (bodyArray body)), bytesTaken first, bytesTaken second]

theorem partialWrites_hello : PartialWrites quietEnv (twoPieces (ascii "hello") 10 52) := by
  unfold PartialWrites
  decide +kernel

theorem framed_two_pieces :
    Framed 200#64 (ascii "hello") (sent quietEnv (twoPieces (ascii "hello") 10 52)) := by
  refine (framed_iff quietEnv _ _ (bodyArray (ascii "hello")) _ rfl partialWrites_hello
    ⟨?_, ?_, ?_⟩ List.mem_cons_self rfl).mpr ?_
  · decide +kernel
  · decide +kernel
  · decide +kernel
  · decide

/-- A body that is one NUL: one byte is announced and none follows. -/
theorem nul_body_announced :
    (∃ conn, after (handleClientEvent quietEnv) start (twoPieces [0x00#8] 10 47) = some conn ∧
      AllWritten conn) ∧
    PartialWrites quietEnv (twoPieces [0x00#8] 10 47) ∧
    contentLength (sent quietEnv (twoPieces [0x00#8] 10 47)) = some 1 ∧
    afterBlankLine (sent quietEnv (twoPieces [0x00#8] 10 47)) = some [] ∧
    ¬ Framed 200#64 [0x00#8] (sent quietEnv (twoPieces [0x00#8] 10 47)) := by
  have hcounted : contentLength (sent quietEnv (twoPieces [0x00#8] 10 47)) = some 1 := by
    decide +kernel
  have hrest : afterBlankLine (sent quietEnv (twoPieces [0x00#8] 10 47)) = some [] := by
    decide +kernel
  refine ⟨⟨_, rfl, ?_, ?_, ?_⟩, ?_, hcounted, hrest, ?_⟩
  · decide +kernel
  · decide +kernel
  · decide +kernel
  · unfold PartialWrites
    decide +kernel
  · rintro ⟨-, rest, hafter, hlength⟩
    rw [hrest] at hafter
    cases hafter
    rw [hcounted] at hlength
    cases hlength

end QuicproAsync.Http1

import QuicproAsync.Decimal
import QuicproAsync.Machine
import QuicproAsync.SendStream

/-!
# Requests of the MCP client

`quicpro_mcp_request` of `mcp.c` sends the headers of a request, offers the payload to
`quiche_h3_send_body` once, as the final chunk, and then waits in `mcp_poll_for_response` for the
answer: it collects the body of the stream from the events of HTTP/3 until the stream is finished.

The result of `quiche_h3_send_body` is only tested for being negative. When flow control cuts the
payload off, the rest of it and the end of the request are never sent, and the function waits for
the answer all the same.

The path of the request is printed into a buffer of 256 bytes, and the header gets the length of the
whole text, whether it fits or not.

The loop is driven by what the calls return: the clock at the head of each round, the events, and
whether the connection is closed when there are no more. An event says which body bytes of the
stream have come in since the last one.
-/

namespace QuicproAsync.Mcp

open Php Machine

/-! ### What the calls return -/

inductive H3Event where
  | headers
  /-- There is data; `fails` if `quiche_h3_recv_body` returns an error. -/
  | data (fails : Bool)
  | finished
  | other

inductive Answer where
  /-- `time(NULL) * 1000`, at the head of a round. -/
  | time (now : Int)
  /-- An event of a stream, and the body bytes of our stream that have come in before it.
      `quiche_h3_conn_poll` returns the number of the stream. -/
  | event (streamId : Nat) (event : H3Event) (arrived : Bytes)
  /-- `quiche_h3_conn_poll` returns nothing above zero: it has no event, or one of stream 0. Then
      `quiche_conn_is_closed` is asked. -/
  | noEvent (isClosed : Bool)

def Answer.arrived : Answer → Bytes
  | .event _ _ arrived => arrived
  | _ => []

structure Header where
  name : Bytes
  value : Bytes

structure Quiche where
  /-- `quiche_h3_send_request`; none if it fails. -/
  sendRequest : List Header → Option Nat
  /-- How much of a body `quiche_h3_send_body` accepts; none if it fails. -/
  room : Option Nat
  /-- The clock when the loop begins. -/
  startTime : Int
  answers : List Answer
  /-- What lies behind the buffer of the path. -/
  stack : Bytes

/-! ### Waiting for the response -/

inductive Control where
  | head
  | polling
  | success
  | failure (message : Bytes)
deriving DecidableEq

/-- The state of `mcp_poll_for_response`, with the bytes of the body that have come in and were
    not read. -/
structure Poll where
  control : Control
  responseBody : Bytes
  unread : Bytes

def Poll.initial : Poll := ⟨.head, [], []⟩

def recvBufferSize : Nat := 8192

def timedOut (timeoutMs : Int) (streamId : Nat) : Bytes :=
  ascii "MCP request timed out after " ++ ascii (toString timeoutMs) ++
    ascii " ms while waiting for response on stream " ++ ascii (toString streamId) ++ ascii "."

def recvFailed (streamId : Nat) : Bytes :=
  ascii "Failed to receive MCP response body on stream " ++ ascii (toString streamId)

def connectionClosed (streamId : Nat) : Bytes :=
  ascii "MCP connection closed while waiting for response on stream " ++
    ascii (toString streamId) ++ ascii "."

section Loop

variable (streamId : Nat) (timeoutMs startTime : Int)

/-- An event of our stream. -/
def handleEvent (poll : Poll) : H3Event → Poll
  | .headers => poll
  | .data true => { poll with control := .failure (recvFailed streamId) }
  | .data false =>
    { poll with
      responseBody := poll.responseBody ++ poll.unread.take recvBufferSize
      unread := poll.unread.drop recvBufferSize }
  | .finished => { poll with control := .success }
  | .other => poll

def mcpPollForResponse (poll : Poll) : Answer → Option Poll
  | .time now =>
    if poll.control = .head then
      if 0 < timeoutMs ∧ timeoutMs < now - startTime then
        some { poll with control := .failure (timedOut timeoutMs streamId) }
      else some { poll with control := .polling }
    else none
  | .event eventStream event arrived =>
    if poll.control = .polling then
      let poll := { poll with unread := poll.unread ++ arrived }
      if eventStream ≠ streamId then some poll else some (handleEvent streamId poll event)
    else none
  | .noEvent isClosed =>
    if poll.control = .polling then
      if isClosed then some { poll with control := .failure (connectionClosed streamId) }
      else some { poll with control := .head }
    else none

/-- What `quiche_h3_recv_body` returns for our stream. -/
def bodyRead (poll : Poll) : Answer → Option Bytes
  | .event eventStream (.data false) arrived =>
    if eventStream = streamId then some ((poll.unread ++ arrived).take recvBufferSize) else none
  | _ => none

end Loop

/-! ### The request -/

structure Session where
  host : CString

structure Request where
  serviceName : Bytes
  methodName : Bytes
  payload : Bytes
  perRequestOptions : Option Zval

inductive Outcome where
  | string (body : Bytes)
  /-- `FALSE`, with an exception. -/
  | exception (message : Bytes)

/-- The text for the path. -/
def pathText (request : Request) : Bytes :=
  ascii "/" ++ cstr request.serviceName ++ ascii "/" ++ cstr request.methodName

/-- `path`, and `path_len` as the header has it, a `size_t`. -/
def path (request : Request) : Bytes × Nat :=
  let (buffer, pathLen) := snprintf 256 (pathText request)
  (buffer, (pathLen % 2 ^ 64).toNat)

/-- The value of the path header. `snprintf` cuts the text off at the size of the buffer, but the
    length it returns is that of the whole text. -/
def pathValue (request : Request) (stack : Bytes) : Bytes :=
  ((path request).1 ++ stack).take (path request).2

def requestHeaders (session : Session) (request : Request) (stack : Bytes) : List Header :=
  [⟨ascii ":method", ascii "POST"⟩, ⟨ascii ":scheme", ascii "https"⟩,
    ⟨ascii ":path", pathValue request stack⟩, ⟨ascii ":authority", session.host.val⟩,
    ⟨ascii "content-type", ascii "application/vnd.quicpro.proto"⟩]

def requestTimeout (request : Request) : Int :=
  match request.perRequestOptions with
  | some (.array options) =>
    match options.lookup (.str (ascii "timeout_ms")) with
    | some (.long timeout) => timeout.toInt
    | _ => 30000
  | _ => 30000

/-- What the loop has returned, if it has. -/
def Poll.outcome (poll : Poll) : Option Outcome :=
  match poll.control with
  | .success => some (.string poll.responseBody)
  | .failure message => some (.exception message)
  | _ => none

/-- The request stream, and what is returned; none while the loop is still running. -/
def quicproMcpRequest (session : Option Session) (request : Request) (quiche : Quiche) :
    SendStream Byte × Option Outcome :=
  match session with
  | none =>
    (.fresh, some (.exception (ascii "Invalid or closed MCP connection resource provided.")))
  | some session =>
    match quiche.sendRequest (requestHeaders session request quiche.stack) with
    | none =>
      (.fresh, some (.exception
        (ascii "MCP request failed: could not send H3 headers for service '" ++
          cstr request.serviceName ++ ascii "'")))
    | some streamId =>
      match SendStream.fresh.offer request.payload true quiche.room with
      | none =>
        (.fresh, some (.exception
          (ascii "MCP request failed: could not send H3 body for service '" ++
            cstr request.serviceName ++ ascii "'")))
      | some stream =>
        (stream, (after (mcpPollForResponse streamId (requestTimeout request)
          quiche.startTime) .initial quiche.answers).bind Poll.outcome)

/-! ### Complete exchanges -/

/-- What was read of the body. -/
def bodyReads (request : Request) (quiche : Quiche) (streamId : Nat) : List Bytes :=
  observed (mcpPollForResponse streamId (requestTimeout request) quiche.startTime)
    (bodyRead streamId) .initial quiche.answers

/-- **A complete exchange.** The whole payload was accepted, with its end, and what is returned is
    all that was read of the body. -/
structure Complete (request : Request) (quiche : Quiche) (streamId : Nat)
    (stream : SendStream Byte) (body : Bytes) : Prop where
  accepted : stream.accepted = request.payload
  final : stream.finished = true
  returned : body = (bodyReads request quiche streamId).flatten

variable {streamId : Nat} {timeoutMs startTime : Int} {poll next : Poll} {answer : Answer}
variable {answers : List Answer}

/-- One answer: what was read goes into the buffer, and the rest of what came in stays unread. -/
theorem body_step
    (hstep : mcpPollForResponse streamId timeoutMs startTime poll answer = some next) :
    next.responseBody = poll.responseBody ++ (bodyRead streamId poll answer).toList.flatten ∧
      next.responseBody ++ next.unread = poll.responseBody ++ poll.unread ++ answer.arrived := by
  cases answer with
  | time now =>
    obtain ⟨-, hstep⟩ := Option.ite_none_right_eq_some.mp hstep
    split at hstep <;> cases hstep <;> simp [bodyRead, Answer.arrived]
  | noEvent isClosed =>
    obtain ⟨-, hstep⟩ := Option.ite_none_right_eq_some.mp hstep
    split at hstep <;> cases hstep <;> simp [bodyRead, Answer.arrived]
  | event eventStream event arrived =>
    obtain ⟨-, hstep⟩ := Option.ite_none_right_eq_some.mp hstep
    split at hstep
    · next hother =>
        have hread : bodyRead streamId poll (.event eventStream event arrived) = none := by
          unfold bodyRead
          split
          · next heq =>
              cases heq
              exact if_neg hother
          · rfl
        cases hstep
        rw [hread]
        simp [Answer.arrived]
    · next hown =>
        cases hstep
        rw [not_not.mp hown]
        cases event with
        | headers => simp [handleEvent, bodyRead, Answer.arrived]
        | data fails =>
          cases fails with
          | true => simp [handleEvent, bodyRead, Answer.arrived]
          | false => simp [handleEvent, bodyRead, Answer.arrived]
        | finished => simp [handleEvent, bodyRead, Answer.arrived]
        | other => simp [handleEvent, bodyRead, Answer.arrived]

/-- All answers. -/
theorem body_after
    (hrun : after (mcpPollForResponse streamId timeoutMs startTime) .initial answers = some poll) :
    poll.responseBody = (observed (mcpPollForResponse streamId timeoutMs startTime)
        (bodyRead streamId) .initial answers).flatten ∧
      poll.responseBody ++ poll.unread = answers.flatMap Answer.arrived := by
  refine invariant (P := fun answers poll =>
    poll.responseBody = (observed (mcpPollForResponse streamId timeoutMs startTime)
        (bodyRead streamId) .initial answers).flatten ∧
      poll.responseBody ++ poll.unread = answers.flatMap Answer.arrived) ⟨rfl, rfl⟩ ?_ hrun
  intro answers poll answer next hafter ⟨hbody, hall⟩ hstep
  obtain ⟨hread, hcame⟩ := body_step hstep
  refine ⟨?_, ?_⟩
  · rw [observed_snoc answer hafter, List.flatten_append, ← hbody]
    exact hread
  · rw [hcame, hall, List.flatMap_append, List.flatMap_singleton]

variable {request : Request}

/-- A request that returns a string has sent its headers and got through the loop. -/
theorem exists_poll_of_string {session : Session} {quiche : Quiche} {stream : SendStream Byte}
    {body : Bytes}
    (hid : quiche.sendRequest (requestHeaders session request quiche.stack) = some streamId)
    (hreturns : quicproMcpRequest (some session) request quiche = (stream, some (.string body))) :
    SendStream.fresh.offer request.payload true quiche.room = some stream ∧
      ∃ poll, after (mcpPollForResponse streamId (requestTimeout request) quiche.startTime)
        .initial quiche.answers = some poll ∧ poll.responseBody = body := by
  unfold quicproMcpRequest at hreturns
  dsimp only at hreturns
  rw [hid] at hreturns
  dsimp only at hreturns
  cases hoffer : SendStream.fresh.offer request.payload true quiche.room with
  | none =>
    rw [hoffer] at hreturns
    cases hreturns
  | some accepted =>
    rw [hoffer] at hreturns
    obtain ⟨rfl, houtcome⟩ := Prod.mk.inj hreturns
    obtain ⟨poll, hafter, hout⟩ := Option.bind_eq_some_iff.mp houtcome
    refine ⟨rfl, poll, hafter, ?_⟩
    unfold Poll.outcome at hout
    split at hout
    · cases hout
      rfl
    · cases hout
    · cases hout

/-- **An exchange is complete** if and only if `quiche_h3_send_body` has room for the whole payload:
    for every request that returns a string. The string is what has come in of the body, up to
    what was left unread when the stream was finished. -/
theorem exchange_complete_iff (session : Session) (request : Request) (quiche : Quiche)
    (streamId room : Nat) (stream : SendStream Byte) (body : Bytes)
    (hid : quiche.sendRequest (requestHeaders session request quiche.stack) = some streamId)
    (hroom : quiche.room = some room)
    (hreturns : quicproMcpRequest (some session) request quiche = (stream, some (.string body))) :
    (Complete request quiche streamId stream body ↔ request.payload.length ≤ room) ∧
      ∃ poll, after (mcpPollForResponse streamId (requestTimeout request) quiche.startTime)
          .initial quiche.answers = some poll ∧
        body ++ poll.unread = quiche.answers.flatMap Answer.arrived := by
  obtain ⟨hoffer, poll, hafter, rfl⟩ := exists_poll_of_string hid hreturns
  obtain ⟨hread, hcame⟩ := body_after hafter
  rw [hroom] at hoffer
  have hlast := SendStream.offer_last_iff hoffer
  refine ⟨⟨?_, ?_⟩, poll, hafter, hcame⟩
  · intro hcomplete
    exact hlast.mp ⟨hcomplete.accepted, hcomplete.final⟩
  · intro hfits
    obtain ⟨haccepted, hfinal⟩ := hlast.mpr hfits
    exact ⟨haccepted, hfinal, hread⟩

/-! ### Two exchanges -/

def localhost : Session := ⟨ascii "localhost", by decide⟩

def shortRequest : Request := ⟨ascii "Text", ascii "generate", ascii "abc", none⟩

/-- The answer `ok` comes in with one event, and the stream is finished. -/
def okResponse (room : Nat) : Quiche where
  sendRequest _ := some 4
  room := some room
  startTime := 0
  answers := [.time 0, .event 4 .headers [], .event 4 (.data false) (ascii "ok"),
    .event 4 .finished []]
  stack := []

theorem exchange_complete_in_one :
    Complete shortRequest (okResponse 3) 4 ⟨ascii "abc", true⟩ (ascii "ok") :=
  (exchange_complete_iff localhost shortRequest (okResponse 3) 4 3 _ _ rfl rfl rfl).1.mpr
    (by decide)

/-- Two of the three bytes of the payload are accepted and the request stream is not finished, but
    the function returns a string. -/
theorem request_cut_off :
    quicproMcpRequest (some localhost) shortRequest (okResponse 2) =
        (⟨ascii "ab", false⟩, some (.string (ascii "ok"))) ∧
      ¬ Complete shortRequest (okResponse 2) 4 ⟨ascii "ab", false⟩ (ascii "ok") :=
  ⟨rfl, fun hcomplete => absurd hcomplete.final (by decide)⟩

/-! ### The path that was asked for -/

/-- The headers that `quicpro_mcp_request` sends, none if it fails before. -/
def headersSent (session : Option Session) (request : Request) (quiche : Quiche) :
    Option (List Header) :=
  session.map fun session => requestHeaders session request quiche.stack

/-- **The path is what was asked for**: the value of the header lies in the buffer, and it is the
    names of the service and the method, each behind a slash. -/
def PathAsAsked (session : Option Session) (request : Request) (quiche : Quiche) : Prop :=
  ∀ headers ∈ headersSent session request quiche, ∀ header ∈ headers,
    header.name = ascii ":path" → (path request).2 ≤ 256 ∧
      header.value = ascii "/" ++ request.serviceName ++ ascii "/" ++ request.methodName

theorem pathText_eq (hservice : NulFree request.serviceName)
    (hmethod : NulFree request.methodName) :
    pathText request =
      ascii "/" ++ request.serviceName ++ ascii "/" ++ request.methodName := by
  rw [pathText, cstr_of_nulFree hservice, cstr_of_nulFree hmethod]

/-- A text that fits is the value, whatever lies behind the buffer. -/
theorem pathValue_of_fits (hfits : (pathText request).length ≤ 255) (stack : Bytes) :
    (path request).2 ≤ 256 ∧ pathValue request stack = pathText request := by
  have hlen : (path request).2 = (pathText request).length := by
    rw [path, snprintf]
    dsimp only
    rw [if_pos (by omega)]
    omega
  refine ⟨by omega, ?_⟩
  rw [pathValue, hlen, path, snprintf]
  dsimp only
  rw [List.take_of_length_le hfits, List.append_assoc]
  exact List.take_left

/-- A text that does not fit has a length beyond the terminator, which then is part of the value. -/
theorem zero_mem_pathValue (hlong : 255 < (pathText request).length) (stack : Bytes) :
    0 ∈ pathValue request stack := by
  have hbuffer : (path request).1.length = 256 := by
    rw [path, snprintf]
    dsimp only
    rw [List.length_append, List.length_take, List.length_singleton]
    omega
  have hlen : 256 ≤ (path request).2 := by
    rw [path, snprintf]
    dsimp only
    split
    · omega
    · decide
  rw [pathValue, List.take_append, hbuffer, List.take_of_length_le (by omega)]
  apply List.mem_append_left
  rw [path, snprintf]
  exact List.mem_append_right _ List.mem_cons_self

theorem pathValue_eq_iff (hfree : NulFree (pathText request)) (stack : Bytes) :
    ((path request).2 ≤ 256 ∧ pathValue request stack = pathText request) ↔
      (pathText request).length ≤ 255 := by
  constructor
  · rintro ⟨-, hvalue⟩
    by_contra hlong
    have hzero := zero_mem_pathValue (Nat.lt_of_not_le hlong) stack
    rw [hvalue] at hzero
    exact hfree 0 hzero rfl
  · intro hfits
    exact pathValue_of_fits hfits stack

/-- Only one header of a request is the path. -/
theorem mem_requestHeaders_path {session : Session} {stack : Bytes} {header : Header} :
    header ∈ requestHeaders session request stack ∧ header.name = ascii ":path" ↔
      header = ⟨ascii ":path", pathValue request stack⟩ := by
  constructor
  · rintro ⟨hmem, hname⟩
    simp only [requestHeaders, List.mem_cons, List.not_mem_nil, or_false] at hmem
    rcases hmem with rfl | rfl | rfl | rfl | rfl
    · exact absurd hname (by decide)
    · exact absurd hname (by decide)
    · rfl
    · have hother : ascii ":authority" ≠ ascii ":path" := by decide
      exact absurd hname hother
    · exact absurd hname (by decide)
  · rintro rfl
    exact ⟨by simp [requestHeaders], rfl⟩

theorem pathAsAsked_some {session : Session} {quiche : Quiche} :
    PathAsAsked (some session) request quiche ↔ (path request).2 ≤ 256 ∧
      pathValue request quiche.stack =
        ascii "/" ++ request.serviceName ++ ascii "/" ++ request.methodName := by
  constructor
  · intro hasked
    exact hasked _ rfl _ (mem_requestHeaders_path.mpr rfl).1 rfl
  · rintro hvalue headers hheaders header hheader hname
    cases hheaders
    rw [mem_requestHeaders_path.mp ⟨hheader, hname⟩]
    exact hvalue

/-- **The path is what was asked for** if and only if the names have at most 253 bytes together, or
    no headers are sent: for all names without NUL. -/
theorem path_as_asked_iff (session : Option Session) (request : Request) (quiche : Quiche)
    (hservice : NulFree request.serviceName) (hmethod : NulFree request.methodName) :
    PathAsAsked session request quiche ↔
      session = none ∨ request.serviceName.length + request.methodName.length ≤ 253 := by
  cases session with
  | none => simp [PathAsAsked, headersSent]
  | some session =>
    have htext := pathText_eq hservice hmethod
    have hfree : NulFree (pathText request) := by
      rw [htext]
      intro byte hbyte
      simp only [List.mem_append] at hbyte
      rcases hbyte with ((hslash | hname) | hslash) | hname
      · exact (by decide : NulFree (ascii "/")) byte hslash
      · exact hservice byte hname
      · exact (by decide : NulFree (ascii "/")) byte hslash
      · exact hmethod byte hname
    have hlength : (pathText request).length ≤ 255 ↔
        request.serviceName.length + request.methodName.length ≤ 253 := by
      have hslash : (ascii "/").length = 1 := by decide
      rw [htext, List.length_append, List.length_append, List.length_append, hslash]
      omega
    rw [pathAsAsked_some, ← htext, pathValue_eq_iff hfree, hlength]
    simp

theorem path_of_short_request : PathAsAsked (some localhost) shortRequest (okResponse 3) :=
  (path_as_asked_iff (some localhost) shortRequest (okResponse 3) (by decide) (by decide)).mpr
    (Or.inr (by decide))

/-- A request for a method with a name of 252 bytes, of a service with one of two. -/
def longRequest : Request := ⟨ascii "fs", List.replicate 252 0x61#8, [], none⟩

/-- The text has 256 bytes, and so has the value, but its last byte is the terminator. -/
theorem path_cut_off :
    (path longRequest).2 = 256 ∧
      (pathValue longRequest (okResponse 3).stack).getLast? = some 0x00#8 ∧
      ¬ PathAsAsked (some localhost) longRequest (okResponse 3) := by
  have hlast : (pathValue longRequest (okResponse 3).stack).getLast? = some 0x00#8 := by
    decide +kernel
  refine ⟨by decide +kernel, hlast, fun hasked => ?_⟩
  rw [(pathAsAsked_some.mp hasked).2] at hlast
  exact absurd hlast (by decide +kernel)

end QuicproAsync.Mcp

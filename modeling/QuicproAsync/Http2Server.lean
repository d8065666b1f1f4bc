import QuicproAsync.Machine
import QuicproAsync.PhpKeys

/-!
# Requests of the HTTP/2 server

nghttp2 parses the frames of a connection and calls the functions of `http2.c` for what it
finds: a header block begins, a header, a chunk of data, a whole frame, the end of a stream.
The server keeps a record for every stream, in which the headers and the body of the request
are collected, and calls the user's handler from `on_frame_recv_callback`.

That callback looks at HEADERS frames only. A request without a body ends with one; a request
with a body ends with a DATA frame, and the handler is never called for it.

The callbacks of different streams come in any order. What one stream ends with depends on its
own callbacks alone (`view_run`), so a request can be followed by itself.
-/

namespace QuicproAsync.Http2

open Php OrderedMap Machine

/-! ### The callbacks -/

inductive HeadersCategory where
  | request
  | response
  | pushResponse
  | headers
deriving DecidableEq

inductive FrameType where
  | data
  | headers (cat : HeadersCategory)
  | other (code : BitVec 8)
deriving DecidableEq

structure Frame where
  type : FrameType
  endStream : Bool
  streamId : Int
deriving DecidableEq

def Frame.isHeaders (frame : Frame) : Bool :=
  match frame.type with
  | .headers _ => true
  | _ => false

/-- `http2_stream_t`. -/
structure StreamData where
  streamId : Int
  requestHeaders : HashTable
  requestBody : Option Bytes
  responseBody : Option Bytes

/-- A call of the user's handler, with the frame in whose callback it is made. -/
structure Call where
  frame : Frame
  request : HashTable

structure Response where
  streamId : Int
  status : Bytes
  body : Option Bytes

/-- A connection: the stream data that nghttp2 keeps for the server, and what the server has
    done. -/
structure Session where
  streams : List (Int × StreamData)
  calls : List Call
  responses : List Response

def Session.setStream (session : Session) (streamId : Int) (stream : StreamData) : Session :=
  { session with streams := assign streamId stream session.streams }

def onBeginHeadersCallback (session : Session) (frame : Frame) : Session :=
  if frame.type ≠ .headers .request then session
  else session.setStream frame.streamId ⟨frame.streamId, [], none, none⟩

/-- `add_assoc_stringl` takes the name as a C string. -/
def onHeaderCallback (session : Session) (frame : Frame) (name value : Bytes) : Session :=
  if frame.type ≠ .headers .request then session
  else
    match session.streams.lookup frame.streamId with
    | none => session
    | some stream =>
      session.setStream frame.streamId { stream with
        requestHeaders := assign (symtableKey (cstr name)) (.string value) stream.requestHeaders }

def onDataChunkRecvCallback (session : Session) (streamId : Int) (data : Bytes) : Session :=
  match session.streams.lookup streamId with
  | none => session
  | some stream =>
    session.setStream streamId { stream with
      requestBody := some (stream.requestBody.getD [] ++ data) }

def bodyKey : Key := .str (ascii "body")

/-- The argument of the handler. -/
def requestOf (requestHeaders : HashTable) (requestBody : Option Bytes) : HashTable :=
  match requestBody with
  | none => requestHeaders
  | some body => assign bodyKey (.string body) requestHeaders

section Handler

variable (host : Php.Host) (handler : Nat → HashTable → Option Zval)

/-- The answer to a handler that has returned an array. `status_str` has room for three
    digits. -/
def submitResponse (session : Session) (streamId : Int) (stream : StreamData)
    (retval : HashTable) : Session :=
  let status :=
    match retval.lookup (.str (ascii "status")) with
    | none => 200#64
    | some value => zvalGetLong host value
  let body :=
    match retval.lookup bodyKey with
    | some (.string body) => some body
    | _ => none
  { session.setStream streamId { stream with responseBody := body.or stream.responseBody } with
    responses := session.responses ++
      [⟨stream.streamId, (ascii (toString status.toInt)).take 3, body⟩] }

/-- `handler n` is what the `n`th call of the handler returns, none if the call fails. The
    array that is passed is the one of the stream: its body entry stays there. -/
def onFrameRecvCallback (session : Session) (frame : Frame) : Session :=
  if !frame.isHeaders || !frame.endStream then session
  else
    match session.streams.lookup frame.streamId with
    | none => session
    | some stream =>
      let request := requestOf stream.requestHeaders stream.requestBody
      let stream := { stream with requestHeaders := request }
      let called := { session.setStream frame.streamId stream with
        calls := session.calls ++ [⟨frame, request⟩] }
      match handler session.calls.length request with
      | some (.array retval) => submitResponse host called frame.streamId stream retval
      | _ => called

/-- nghttp2 drops a stream after this callback. -/
def onStreamCloseCallback (session : Session) (streamId : Int) : Session :=
  { session with streams := session.streams.filter (·.1 ≠ streamId) }

inductive Callback where
  | beginHeaders (frame : Frame)
  | header (frame : Frame) (name value : Bytes)
  | dataChunkRecv (streamId : Int) (data : Bytes)
  | frameRecv (frame : Frame)
  | streamClose (streamId : Int)

def deliver (session : Session) : Callback → Session
  | .beginHeaders frame => onBeginHeadersCallback session frame
  | .header frame name value => onHeaderCallback session frame name value
  | .dataChunkRecv streamId data => onDataChunkRecvCallback session streamId data
  | .frameRecv frame => onFrameRecvCallback host handler session frame
  | .streamClose streamId => onStreamCloseCallback session streamId

/-- A connection after some callbacks. -/
def run (callbacks : List Callback) : Session := callbacks.foldl (deliver host handler) ⟨[], [], []⟩

end Handler

/-! ### One stream -/

def Callback.streamId : Callback → Int
  | .beginHeaders frame => frame.streamId
  | .header frame _ _ => frame.streamId
  | .dataChunkRecv streamId _ => streamId
  | .frameRecv frame => frame.streamId
  | .streamClose streamId => streamId

/-- The callbacks of a stream that matter: frames of other types than HEADERS and DATA may come
    at any time. -/
def Callback.concerns (streamId : Int) : Callback → Bool
  | .frameRecv ⟨.other _, _, _⟩ => false
  | callback => callback.streamId = streamId

/-- What a stream has collected, and the calls of the handler for it. -/
structure View where
  data : Option (HashTable × Option Bytes)
  calls : List Call

def view (streamId : Int) (session : Session) : View :=
  { data := (session.streams.lookup streamId).map fun stream =>
      (stream.requestHeaders, stream.requestBody)
    calls := session.calls.filter fun call => call.frame.streamId = streamId }

def View.deliver (view : View) : Callback → View
  | .beginHeaders frame =>
    if frame.type ≠ .headers .request then view else { view with data := some ([], none) }
  | .header frame name value =>
    if frame.type ≠ .headers .request then view
    else { view with data := view.data.map fun collected =>
      (assign (symtableKey (cstr name)) (.string value) collected.1, collected.2) }
  | .dataChunkRecv _ data =>
    { view with data := view.data.map fun collected =>
      (collected.1, some (collected.2.getD [] ++ data)) }
  | .frameRecv frame =>
    if !frame.isHeaders || !frame.endStream then view
    else
      match view.data with
      | none => view
      | some collected =>
        { data := some (requestOf collected.1 collected.2, collected.2)
          calls := view.calls ++ [⟨frame, requestOf collected.1 collected.2⟩] }
  | .streamClose _ => { view with data := none }

variable {host : Php.Host} {handler : Nat → HashTable → Option Zval}
variable {streamId other : Int} {session : Session}

theorem view_setStream_self (streamId : Int) (session : Session) (stream : StreamData) :
    view streamId (session.setStream streamId stream) =
      { view streamId session with
        data := some (stream.requestHeaders, stream.requestBody) } := by
  simp only [view, Session.setStream, lookup_assign_self, Option.map_some]

theorem view_setStream_ne (hne : streamId ≠ other) (stream : StreamData) :
    view streamId (session.setStream other stream) = view streamId session := by
  simp only [view, Session.setStream, lookup_assign_ne hne]

/-- The answer of the handler does not change what a stream has collected. -/
theorem view_submitResponse (streamId other : Int) (session : Session) (stream : StreamData)
    (retval : HashTable) :
    view streamId (submitResponse host session other stream retval) =
      view streamId (session.setStream other stream) := by
  unfold submitResponse
  by_cases hsame : streamId = other
  · subst hsame
    rw [view_setStream_self]
    exact view_setStream_self streamId session _
  · rw [view_setStream_ne hsame]
    exact view_setStream_ne hsame _

variable {frame : Frame}

/-- A handler is called once, whatever it returns. -/
theorem view_called {stream : StreamData}
    (hcalled : frame.isHeaders = true ∧ frame.endStream = true)
    (hlookup : session.streams.lookup frame.streamId = some stream) (streamId : Int) :
    view streamId (onFrameRecvCallback host handler session frame) =
      view streamId ({ session.setStream frame.streamId { stream with
          requestHeaders := requestOf stream.requestHeaders stream.requestBody } with
        calls := session.calls ++
          [⟨frame, requestOf stream.requestHeaders stream.requestBody⟩] }) := by
  rw [onFrameRecvCallback, if_neg (by simp [hcalled]), hlookup]
  dsimp only
  split
  · rw [view_submitResponse]
    simp only [view, Session.setStream]
    rw [assign_assign]
  · rfl

theorem onFrameRecvCallback_ignored
    (hignored : ¬ (frame.isHeaders = true ∧ frame.endStream = true)) :
    onFrameRecvCallback host handler session frame = session := by
  rw [onFrameRecvCallback, if_pos]
  cases hheaders : frame.isHeaders with
  | false => rfl
  | true =>
    cases hend : frame.endStream with
    | false => rfl
    | true => exact absurd ⟨hheaders, hend⟩ hignored

theorem onFrameRecvCallback_unknown (hlookup : session.streams.lookup frame.streamId = none) :
    onFrameRecvCallback host handler session frame = session := by
  rw [onFrameRecvCallback, hlookup]
  split <;> rfl

theorem view_frameRecv_ne (hne : streamId ≠ frame.streamId) :
    view streamId (onFrameRecvCallback host handler session frame) = view streamId session := by
  by_cases hcalled : frame.isHeaders = true ∧ frame.endStream = true
  · cases hlookup : session.streams.lookup frame.streamId with
    | none => rw [onFrameRecvCallback_unknown hlookup]
    | some stream =>
      rw [view_called hcalled hlookup]
      simp only [view, Session.setStream]
      rw [lookup_assign_ne hne, List.filter_append]
      simp [Ne.symm hne]
  · rw [onFrameRecvCallback_ignored hcalled]

theorem view_frameRecv_self (frame : Frame) :
    view frame.streamId (onFrameRecvCallback host handler session frame) =
      (view frame.streamId session).deliver (.frameRecv frame) := by
  simp only [View.deliver]
  by_cases hcalled : frame.isHeaders = true ∧ frame.endStream = true
  · rw [if_neg (by simp [hcalled])]
    cases hlookup : session.streams.lookup frame.streamId with
    | none =>
      rw [onFrameRecvCallback_unknown hlookup]
      simp [view, hlookup]
    | some stream =>
      rw [view_called hcalled hlookup]
      simp [view, Session.setStream, hlookup]
  · rw [onFrameRecvCallback_ignored hcalled, if_pos (by simpa [imp_iff_not_or] using hcalled)]

/-- A callback of one stream does not touch another. -/
theorem view_deliver_ne (callback : Callback) (hne : streamId ≠ callback.streamId) :
    view streamId (deliver host handler session callback) = view streamId session := by
  cases callback with
  | beginHeaders frame =>
    simp only [deliver, onBeginHeadersCallback]
    split
    · rfl
    · exact view_setStream_ne hne _
  | header frame name value =>
    simp only [deliver, onHeaderCallback]
    split
    · rfl
    split
    · rfl
    · exact view_setStream_ne hne _
  | dataChunkRecv id data =>
    simp only [deliver, onDataChunkRecvCallback]
    split
    · rfl
    · exact view_setStream_ne hne _
  | frameRecv frame => exact view_frameRecv_ne hne
  | streamClose id =>
    have hkept : ∀ stream : StreamData, decide ((streamId, stream).1 ≠ id) = true :=
      fun _ => decide_eq_true hne
    simp only [deliver, onStreamCloseCallback, view]
    rw [lookup_filter hkept]

/-- What a callback does to its own stream. -/
theorem view_deliver_self (callback : Callback) :
    view callback.streamId (deliver host handler session callback) =
      (view callback.streamId session).deliver callback := by
  cases callback with
  | beginHeaders frame =>
    simp only [deliver, onBeginHeadersCallback, View.deliver]
    split
    · rfl
    · exact view_setStream_self ..
  | header frame name value =>
    simp only [deliver, onHeaderCallback, View.deliver, Callback.streamId]
    split
    · rfl
    cases hlookup : session.streams.lookup frame.streamId with
    | none => simp [view, hlookup]
    | some stream =>
      refine (view_setStream_self ..).trans ?_
      simp [view, hlookup]
  | dataChunkRecv id data =>
    simp only [deliver, onDataChunkRecvCallback, View.deliver, Callback.streamId]
    cases hlookup : session.streams.lookup id with
    | none => simp [view, hlookup]
    | some stream =>
      refine (view_setStream_self ..).trans ?_
      simp [view, hlookup]
  | frameRecv frame => exact view_frameRecv_self frame
  | streamClose id =>
    have hclosed : (session.streams.filter (·.1 ≠ id)).lookup id = none := by
      apply lookup_eq_none_iff_not_mem_keys.mpr
      intro hmem
      obtain ⟨entry, hentry, hkey⟩ := List.mem_map.mp hmem
      simpa [hkey] using (List.mem_filter.mp hentry).2
    simp only [deliver, onStreamCloseCallback, View.deliver, view, Callback.streamId]
    rw [hclosed]
    rfl

theorem streamId_of_concerns {callback : Callback} (hconcerns : callback.concerns streamId = true) :
    callback.streamId = streamId := by
  unfold Callback.concerns at hconcerns
  split at hconcerns
  · cases hconcerns
  · exact of_decide_eq_true hconcerns

/-- **Streams are independent.** What a stream ends with is what its own callbacks make of it. -/
theorem view_run (streamId : Int) (callbacks : List Callback) :
    view streamId (run host handler callbacks) =
      (callbacks.filter (Callback.concerns streamId)).foldl View.deliver ⟨none, []⟩ := by
  apply foldl_view
  · intro session callback hother
    rw [Callback.concerns.eq_def] at hother
    split at hother
    · exact congrArg (view streamId) (onFrameRecvCallback_ignored (by simp [Frame.isHeaders]))
    · exact view_deliver_ne callback fun hsame => of_decide_eq_false hother hsame.symm
  · intro session callback hown
    rw [← streamId_of_concerns hown]
    exact view_deliver_self callback

/-! ### A request -/

/-- A request without trailers: the chunks of each of its DATA frames come one by one. -/
structure Request where
  headers : List (Bytes × Bytes)
  dataFrames : List (List Bytes)

variable (request : Request)

def Request.headersFrame (streamId : Int) : Frame :=
  ⟨.headers .request, request.dataFrames.isEmpty, streamId⟩

/-- The callbacks for DATA frames of which the last ends the stream. -/
def dataCallbacks (streamId : Int) : List (List Bytes) → List Callback
  | [] => []
  | chunks :: rest =>
    chunks.map (.dataChunkRecv streamId) ++
      .frameRecv ⟨.data, rest.isEmpty, streamId⟩ :: dataCallbacks streamId rest

/-- The callbacks of nghttp2 for a request on a stream. -/
def Request.callbacks (streamId : Int) : List Callback :=
  .beginHeaders (request.headersFrame streamId) ::
    (request.headers.map fun header =>
      .header (request.headersFrame streamId) header.1 header.2) ++
    .frameRecv (request.headersFrame streamId) :: dataCallbacks streamId request.dataFrames

/-- The callbacks carry the request on the stream, which may have been closed after it. -/
def Carries (callbacks : List Callback) (streamId : Int) (request : Request) : Prop :=
  callbacks.filter (Callback.concerns streamId) = request.callbacks streamId ∨
    callbacks.filter (Callback.concerns streamId) =
      request.callbacks streamId ++ [.streamClose streamId]

/-- The body that the handler has to be given. -/
def Request.body : Option Zval :=
  if request.dataFrames.flatten = [] then none
  else some (.string request.dataFrames.flatten.flatten)

/-- **Exactly once.** The handler is called once for the stream, at the frame that ends it, and
    is given the body of the request. -/
def HandledOnce (session : Session) (streamId : Int) (request : Request) : Prop :=
  ∃ call, session.calls.filter (fun call => call.frame.streamId = streamId) = [call] ∧
    call.frame.endStream = true ∧ call.request.lookup bodyKey = request.body

/-! ### What a request does -/

variable {request : Request}

/-- The headers as assignments to the array of the stream. -/
def headerLog (headers : List (Bytes × Bytes)) : HashTable :=
  headers.map fun header => (symtableKey (cstr header.1), .string header.2)

theorem deliver_headers (hframe : frame.type = .headers .request) (headers : List (Bytes × Bytes))
    (table : HashTable) (body : Option Bytes) (calls : List Call) :
    (headers.map fun header => Callback.header frame header.1 header.2).foldl View.deliver
        ⟨some (table, body), calls⟩ =
      ⟨some (assignAll (headerLog headers) table, body), calls⟩ := by
  induction headers generalizing table with
  | nil => rfl
  | cons header headers ih =>
    have hheader : View.deliver ⟨some (table, body), calls⟩
        (.header frame header.1 header.2) =
        ⟨some (assign (symtableKey (cstr header.1)) (.string header.2) table, body), calls⟩ :=
      if_neg (not_not.mpr hframe)
    rw [List.map_cons, List.foldl_cons, hheader, ih]
    rfl

theorem calls_chunks (streamId : Int) (chunks : List Bytes) (start : View) :
    ((chunks.map (Callback.dataChunkRecv streamId)).foldl View.deliver start).calls =
      start.calls := by
  induction chunks generalizing start with
  | nil => rfl
  | cons chunk chunks ih => exact ih _

/-- No DATA frame leads to a call, the last one neither. -/
theorem calls_dataCallbacks (streamId : Int) (frames : List (List Bytes)) (start : View) :
    ((dataCallbacks streamId frames).foldl View.deliver start).calls = start.calls := by
  induction frames generalizing start with
  | nil => rfl
  | cons chunks frames ih =>
    rw [dataCallbacks, List.foldl_append, List.foldl_cons, ih]
    exact calls_chunks streamId chunks start

theorem calls_callbacks (request : Request) (streamId : Int) :
    ((request.callbacks streamId).foldl View.deliver ⟨none, []⟩).calls =
      if request.dataFrames = [] then
        [⟨request.headersFrame streamId, assignAll (headerLog request.headers) []⟩]
      else [] := by
  have htype : (request.headersFrame streamId).type = .headers .request := rfl
  have hbegin : View.deliver ⟨none, []⟩ (.beginHeaders (request.headersFrame streamId)) =
      ⟨some ([], none), []⟩ := by
    rw [View.deliver, if_neg (not_not.mpr htype)]
  rw [Request.callbacks, List.cons_append, List.foldl_cons, hbegin, List.foldl_append,
    deliver_headers htype, List.foldl_cons, calls_dataCallbacks]
  by_cases hdata : request.dataFrames = []
  · rw [if_pos hdata, View.deliver, if_neg (by simp [Request.headersFrame, Frame.isHeaders, hdata])]
    rfl
  · rw [if_neg hdata, View.deliver, if_pos (by simp [Request.headersFrame, hdata])]

theorem calls_run {callbacks : List Callback} (hcarries : Carries callbacks streamId request) :
    (run host handler callbacks).calls.filter (fun call => call.frame.streamId = streamId) =
      if request.dataFrames = [] then
        [⟨request.headersFrame streamId, assignAll (headerLog request.headers) []⟩]
      else [] := by
  change (view streamId (run host handler callbacks)).calls = _
  rw [view_run, ← calls_callbacks]
  rcases hcarries with hcallbacks | hcallbacks
  · rw [hcallbacks]
  · rw [hcallbacks, List.foldl_append]
    rfl

theorem lookup_body_iff (headers : List (Bytes × Bytes)) :
    (assignAll (headerLog headers) []).lookup bodyKey = none ↔
      ∀ header ∈ headers, cstr header.1 ≠ ascii "body" := by
  have hbody : bodyKey = symtableKey (ascii "body") := by decide +kernel
  rw [lookup_assignAll, List.lookup_nil, Option.or_none, lookup_eq_none_iff_not_mem_keys, keys,
    headerLog, List.map_reverse, List.mem_reverse, List.map_map, List.mem_map]
  constructor
  · intro hnone header hheader hname
    apply hnone
    exact ⟨header, hheader, by rw [hbody, ← hname]; rfl⟩
  · rintro hnames ⟨header, hheader, hkey⟩
    rw [hbody] at hkey
    exact hnames header hheader (symtableKey_injective hkey)

/-- **Requests reach the handler.** On every connection, a request on a stream is handled exactly
    once, with its body, if and only if it has no DATA frame and no header named `body`. -/
theorem handled_once_iff (host : Php.Host) (handler : Nat → HashTable → Option Zval)
    (callbacks : List Callback) (streamId : Int) (request : Request)
    (hcarries : Carries callbacks streamId request) :
    HandledOnce (run host handler callbacks) streamId request ↔
      request.dataFrames = [] ∧ ∀ header ∈ request.headers, cstr header.1 ≠ ascii "body" := by
  rw [HandledOnce, calls_run hcarries, ← lookup_body_iff]
  by_cases hdata : request.dataFrames = []
  · have hbody : request.body = none := by simp [Request.body, hdata]
    have hend : (request.headersFrame streamId).endStream = true := by
      simp [Request.headersFrame, hdata]
    rw [if_pos hdata, hbody, and_iff_right hdata]
    constructor
    · rintro ⟨call, hcall, -, hlookup⟩
      cases hcall
      exact hlookup
    · intro hlookup
      exact ⟨_, rfl, hend, hlookup⟩
  · rw [if_neg hdata]
    refine iff_of_false ?_ fun hboth => hdata hboth.1
    rintro ⟨call, hcall, -⟩
    cases hcall

/-- A request for a page. -/
def getRequest : Request := ⟨[(ascii ":path", ascii "/")], []⟩

/-- A request with one DATA frame. -/
def postRequest : Request := ⟨[(ascii ":path", ascii "/")], [[ascii "a=1"]]⟩

theorem handled_once_get :
    Carries (getRequest.callbacks 1) 1 getRequest ∧
      HandledOnce (run default (fun _ _ => none) (getRequest.callbacks 1)) 1 getRequest := by
  have hcarries : Carries (getRequest.callbacks 1) 1 getRequest := .inl rfl
  refine ⟨hcarries, (handled_once_iff _ _ _ 1 getRequest hcarries).mpr ⟨rfl, ?_⟩⟩
  decide +kernel

/-- The handler never sees a request that has a body. -/
theorem post_never_handled :
    Carries (postRequest.callbacks 1) 1 postRequest ∧
      ¬ HandledOnce (run default (fun _ _ => none) (postRequest.callbacks 1)) 1 postRequest :=
  ⟨.inl rfl, fun ⟨_, hcall, _⟩ => nomatch hcall⟩

end QuicproAsync.Http2

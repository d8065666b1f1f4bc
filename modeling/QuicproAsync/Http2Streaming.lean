import Mathlib.Data.List.TakeDrop
import QuicproAsync.Machine
import QuicproAsync.PhpValue

/-!
# Response bodies of the HTTP/2 server

nghttp2 asks for the body of a response piece by piece: it calls `response_read_callback` of
`http2.c` with a buffer whenever it can send a DATA frame, and ends the stream when the
callback sets the end flag. The callback keeps the offset of what it has handed out, and
computes what remains by an unsigned subtraction.

`on_frame_recv_callback` sets the source to the bytes of the string in the array that the handler
has returned, and releases the array at its end, before nghttp2 asks for anything. So the string
is freed under the source unless it has another owner, and the first byte that is copied is read
from freed memory. A body that is still there is streamed intact. That the callback copies only
bytes of the body is a result here: behind the body there may be anything.
-/

namespace QuicproAsync.Http2

open Php Machine

/-! ### The callback -/

/-- The string that is the body in a returned array: its bytes, with their number as a `size_t`,
    and its owners. -/
structure Body where
  data : Bytes
  len : BitVec 64
  fits : len.toNat = data.length
  /-- an interned string is never freed -/
  interned : Bool
  /-- the references to the string, that of the array included -/
  stringRefs : Nat
  /-- the references to the array, that of `retval` included -/
  arrayRefs : Nat

/-- What `zval_ptr_dtor(&retval)` leaves: the array loses a reference, and its entries lose one
    each with the last. -/
def Body.survives (body : Body) : Bool :=
  1 < body.arrayRefs || body.interned || 1 < body.stringRefs

/-- `response_body_data_source`; no data if it points to freed memory. -/
structure BodySource where
  data : Option Bytes
  len : BitVec 64
  offset : BitVec 64

/-- The source of a response after `on_frame_recv_callback`. -/
def Body.source (body : Body) : BodySource :=
  ⟨if body.survives then some body.data else none, body.len, 0⟩

/-- `NGHTTP2_DATA_FLAG_EOF`. -/
def dataFlagEof : BitVec 32 := 1

/-- The arguments of a call: the size of the buffer and the flags, among which the end flag is
    not set yet. -/
structure ReadCall where
  length : BitVec 64
  dataFlags : BitVec 32
  unset : dataFlags &&& dataFlagEof = 0

/-- What a call leaves: the bytes it has written to the buffer, its return value and the
    flags. -/
structure ReadResult where
  chunk : Bytes
  returned : BitVec 64
  dataFlags : BitVec 32

def ReadResult.ends (result : ReadResult) : Prop := result.dataFlags &&& dataFlagEof ≠ 0

/-- `beyond` is the memory behind the body. None is the read of freed memory. -/
def responseReadCallback (beyond : Bytes) (source : BodySource) (call : ReadCall) :
    Option (ReadResult × BodySource) :=
  let remaining := source.len - source.offset
  let toCopy := if call.length < remaining then call.length else remaining
  let copied :=
    if 0 < toCopy then
      source.data.map fun data => ((data ++ beyond).drop source.offset.toNat).take toCopy.toNat
    else some []
  let offset := if 0 < toCopy then source.offset + toCopy else source.offset
  let dataFlags := if offset = source.len then call.dataFlags ||| dataFlagEof else call.dataFlags
  copied.map fun chunk => (⟨chunk, toCopy, dataFlags⟩, { source with offset })

/-- The source and the calls so far, with their results. -/
structure Streaming where
  source : BodySource
  reads : List (ReadCall × ReadResult)

def Streaming.read (beyond : Bytes) (streaming : Streaming) (call : ReadCall) :
    Option Streaming :=
  (responseReadCallback beyond streaming.source call).map fun (result, source) =>
    ⟨source, streaming.reads ++ [(call, result)]⟩

/-- A sequence of calls, from the offset zero. -/
def Body.stream (beyond : Bytes) (body : Body) (calls : List ReadCall) : Option Streaming :=
  after (Streaming.read beyond) ⟨body.source, []⟩ calls

/-- The chunks of some calls, one after the other. -/
def handedOut (reads : List (ReadCall × ReadResult)) : Bytes :=
  reads.flatMap fun read => read.2.chunk

/-! ### One call -/

theorem toCopy_toNat (length : BitVec 64) {len offset : BitVec 64}
    (hoffset : offset.toNat ≤ len.toNat) :
    (if length < len - offset then length else len - offset).toNat =
      min length.toNat (len.toNat - offset.toNat) := by
  have hremaining : (len - offset).toNat = len.toNat - offset.toNat :=
    BitVec.toNat_sub_of_le (BitVec.le_def.mpr hoffset)
  split
  · next hless =>
      rw [BitVec.lt_def, hremaining] at hless
      exact (Nat.min_eq_left (Nat.le_of_lt hless)).symm
  · next hmore =>
      rw [BitVec.lt_def, hremaining, Nat.not_lt] at hmore
      rw [hremaining, Nat.min_eq_right hmore]

/-- How much a call should copy. -/
def Body.portion (body : Body) (offset : Nat) (call : ReadCall) : Nat :=
  min call.length.toNat (body.data.length - offset)

theorem ends_iff (call : ReadCall) (chunk : Bytes) (returned : BitVec 64) {whole : Prop}
    [Decidable whole] :
    (ReadResult.mk chunk returned
      (if whole then call.dataFlags ||| dataFlagEof else call.dataFlags)).ends ↔ whole := by
  rw [ReadResult.ends]
  split
  · next hwhole =>
      rw [BitVec.and_or_distrib_right, call.unset]
      exact iff_of_true (by decide) hwhole
  · next hmore => exact iff_of_false (fun hne => hne call.unset) hmore

/-- What a call does when the offset is at `place`, within the body. -/
structure Body.Advances (body : Body) (place : Nat) (call : ReadCall) (result : ReadResult)
    (next : BodySource) : Prop where
  data : next.data = body.source.data
  len : next.len = body.len
  offset : next.offset.toNat = place + body.portion place call
  chunk : result.chunk = (body.data.drop place).take (body.portion place call)
  returned : result.returned.toNat = body.portion place call
  ends : result.ends ↔ place + body.portion place call = body.data.length

/-- A call on a body that is there, or one that has nothing to copy. -/
theorem responseReadCallback_advances (beyond : Bytes) (body : Body) {offset : BitVec 64}
    (hoffset : offset.toNat ≤ body.data.length) (call : ReadCall)
    (hthere : body.survives = true ∨ body.portion offset.toNat call = 0) :
    ∃ result next,
      responseReadCallback beyond ⟨body.source.data, body.len, offset⟩ call =
        some (result, next) ∧ body.Advances offset.toNat call result next := by
  have hcopy := toCopy_toNat call.length (body.fits ▸ hoffset)
  rw [body.fits] at hcopy
  have hbound : offset.toNat + body.portion offset.toNat call ≤ body.data.length := by
    unfold Body.portion
    omega
  unfold responseReadCallback
  dsimp only
  generalize (if call.length < body.len - offset then call.length else body.len - offset) = toCopy
    at hcopy ⊢
  rw [← Body.portion] at hcopy
  rw [← hcopy] at hbound hthere
  have hnext : (offset + toCopy).toNat = offset.toNat + toCopy.toNat := by
    apply BitVec.toNat_add_of_lt
    have hlen := body.len.isLt
    rw [body.fits] at hlen
    omega
  -- nothing to copy is the case of zero bytes
  have hoffset' : (if 0 < toCopy then offset + toCopy else offset) = offset + toCopy := by
    split
    · rfl
    · next hzero =>
        have htoCopy : toCopy = 0 := by simpa using hzero
        rw [htoCopy]
        exact (BitVec.add_zero offset).symm
  have hchunk : (if 0 < toCopy then body.source.data.map fun data =>
      ((data ++ beyond).drop offset.toNat).take toCopy.toNat else some []) =
        some ((body.data.drop offset.toNat).take toCopy.toNat) := by
    split
    · next hpositive =>
        have hsurvives : body.survives = true := by
          refine hthere.resolve_right fun hzero => ?_
          rw [BitVec.lt_def, hzero] at hpositive
          exact absurd hpositive (Nat.lt_irrefl 0)
        rw [Body.source, if_pos hsurvives, Option.map_some,
          List.drop_append_of_le_length hoffset, List.take_append_of_le_length]
        rw [List.length_drop]
        omega
    · next hzero =>
        have htoCopy : toCopy = 0 := by simpa using hzero
        rw [htoCopy]
        rfl
  have hwhole : offset + toCopy = body.len ↔ offset.toNat + toCopy.toNat = body.data.length := by
    rw [← hnext, ← body.fits, BitVec.toNat_inj]
  rw [hoffset', hchunk]
  exact ⟨_, _, rfl, rfl, rfl, hcopy ▸ hnext, hcopy ▸ rfl, hcopy,
    (ends_iff call _ _).trans (hcopy ▸ hwhole)⟩

variable {call : ReadCall}

/-- A call with a buffer on a freed body reads freed memory. -/
theorem responseReadCallback_freed (beyond : Bytes) {body : Body} (hfreed : body.survives = false)
    (hdata : body.data ≠ []) (hbuffer : call.length ≠ 0) :
    responseReadCallback beyond body.source call = none := by
  have hcopy := toCopy_toNat call.length (show (0 : BitVec 64).toNat ≤ body.len.toNat by simp)
  have hsize : 0 < body.data.length := List.length_pos_of_ne_nil hdata
  have hlength : 0 < call.length.toNat :=
    Nat.pos_of_ne_zero fun hzero => hbuffer (BitVec.eq_of_toNat_eq hzero)
  have hpositive : 0 < (if call.length < body.len - 0 then call.length else body.len - 0) := by
    rw [BitVec.lt_def, hcopy, body.fits]
    exact Nat.lt_min.mpr ⟨hlength, hsize⟩
  simp only [responseReadCallback, Body.source, hfreed, if_pos hpositive]
  rfl

/-! ### All calls -/

theorem handedOut_snoc (reads : List (ReadCall × ReadResult)) (read : ReadCall × ReadResult) :
    handedOut (reads ++ [read]) = handedOut reads ++ read.2.chunk := by
  simp [handedOut]

/-- The source belongs to the body, and what was handed out is what lies before the offset. -/
structure Body.Holds (body : Body) (streaming : Streaming) : Prop where
  data : streaming.source.data = body.source.data
  len : streaming.source.len = body.len
  offset : streaming.source.offset.toNat ≤ body.data.length
  handedOut : handedOut streaming.reads = body.data.take streaming.source.offset.toNat

/-- A call was answered as it should be, when `before` had been handed out. -/
structure Body.Answers (body : Body) (before : Bytes) (read : ReadCall × ReadResult) : Prop where
  returned : read.2.returned.toNat = read.2.chunk.length
  fits : read.2.chunk.length ≤ read.1.length.toNat
  ends : read.2.ends ↔ before ++ read.2.chunk = body.data

variable {body : Body} {streaming : Streaming}

/-- A call hands out the bytes up to its new offset. -/
theorem Body.Advances.handedOut {place : Nat} {result : ReadResult} {next : BodySource}
    (hadvances : body.Advances place call result next) :
    body.data.take place ++ result.chunk = body.data.take next.offset.toNat := by
  rw [hadvances.chunk, hadvances.offset, List.take_add]

theorem Body.Advances.answers {place : Nat} {result : ReadResult} {next : BodySource}
    (hadvances : body.Advances place call result next) (hplace : place ≤ body.data.length) :
    body.Answers (body.data.take place) (call, result) := by
  have hlength : result.chunk.length = body.portion place call := by
    rw [hadvances.chunk, List.length_take, List.length_drop]
    exact Nat.min_eq_left (Nat.min_le_right _ _)
  refine ⟨hadvances.returned.trans hlength.symm, ?_, ?_⟩
  · exact hlength.symm ▸ Nat.min_le_left _ _
  · have hbound : place + body.portion place call ≤ body.data.length := by
      unfold Body.portion
      omega
    rw [hadvances.ends, hadvances.handedOut, hadvances.offset, List.take_eq_self_iff]
    exact ⟨Nat.le_of_eq ∘ Eq.symm, Nat.le_antisymm hbound⟩

/-- **One call.** It is answered, and the source is ready for the next one. -/
theorem Body.Holds.read (hholds : body.Holds streaming) (beyond : Bytes) (call : ReadCall)
    (hthere : body.survives = true ∨ body.data = [] ∨ call.length = 0) :
    ∃ result next, streaming.read beyond call = some next ∧
      next.reads = streaming.reads ++ [(call, result)] ∧
      body.Answers (Http2.handedOut streaming.reads) (call, result) ∧ body.Holds next := by
  obtain ⟨⟨data, len, offset⟩, reads⟩ := streaming
  obtain ⟨hdata, hlen, hoffset, hhanded⟩ := hholds
  dsimp only at hdata hlen hoffset hhanded
  subst hdata hlen
  have hportion : body.survives = true ∨ body.portion offset.toNat call = 0 := by
    refine hthere.imp_right fun hnothing => ?_
    rcases hnothing with hempty | hbuffer
    · simp [Body.portion, hempty]
    · simp [Body.portion, hbuffer]
  obtain ⟨result, next, hread, hadvances⟩ :=
    responseReadCallback_advances beyond body hoffset call hportion
  refine ⟨result, _, by rw [Streaming.read, hread]; rfl, rfl, ?_, hadvances.data, hadvances.len,
    ?_, ?_⟩
  · rw [hhanded]
    exact hadvances.answers hoffset
  · refine hadvances.offset.trans_le ?_
    unfold Body.portion
    omega
  · refine (handedOut_snoc reads _).trans ?_
    rw [hhanded]
    exact hadvances.handedOut

/-- The calls are answered in order, what they hand out is a beginning of the body, and each of
    them fills at most its buffer and sets the end flag exactly if the whole body is handed out
    with it. -/
def Body.StreamedIntact (beyond : Bytes) (body : Body) (calls : List ReadCall) : Prop :=
  ∃ streaming, body.stream beyond calls = some streaming ∧
    streaming.reads.map Prod.fst = calls ∧ handedOut streaming.reads <+: body.data ∧
    ∀ earlier read later, streaming.reads = earlier ++ read :: later →
      body.Answers (handedOut earlier) read

/-- **A body that is there**, or of which nothing is copied, is streamed intact. -/
theorem Body.streamedIntact_of_there (beyond : Bytes) {calls : List ReadCall}
    (hthere : body.survives = true ∨ body.data = [] ∨ ∀ call ∈ calls, call.length = 0) :
    body.StreamedIntact beyond calls := by
  suffices hall : ∃ streaming, body.stream beyond calls = some streaming ∧ body.Holds streaming ∧
      streaming.reads.map Prod.fst = calls ∧
      ∀ earlier read later, streaming.reads = earlier ++ read :: later →
        body.Answers (Http2.handedOut earlier) read by
    obtain ⟨streaming, hstream, hholds, hcalls, hanswers⟩ := hall
    refine ⟨streaming, hstream, hcalls, ?_, hanswers⟩
    rw [hholds.handedOut]
    exact List.take_prefix _ _
  induction calls using List.reverseRecOn with
  | nil =>
    refine ⟨_, rfl, ⟨rfl, rfl, Nat.zero_le _, rfl⟩, rfl, fun earlier read later hsplit => ?_⟩
    exact absurd hsplit.symm (by simp)
  | append_singleton calls call ih =>
    obtain ⟨streaming, hstream, hholds, hcalls, hanswers⟩ := ih <| hthere.imp_right <|
      Or.imp_right fun hzero earlier hearlier => hzero earlier (List.mem_append_left _ hearlier)
    obtain ⟨result, next, hread, hreads, hanswer, hnext⟩ := hholds.read beyond call <|
      hthere.imp_right <| Or.imp_right fun hzero =>
        hzero call (List.mem_append_right _ List.mem_cons_self)
    refine ⟨next, after_snoc.mpr ⟨streaming, hstream, hread⟩, hnext,
      by rw [hreads, List.map_append, hcalls]; rfl, ?_⟩
    rw [hreads]
    intro earlier read later hsplit
    rcases snoc_split hsplit with ⟨rfl, rfl⟩ | ⟨initial, hinitial⟩
    · exact hanswer
    · exact hanswers earlier read initial hinitial

/-- **A freed body** is read by the first call with a buffer. -/
theorem Body.stream_freed (beyond : Bytes) (hfreed : body.survives = false)
    (hdata : body.data ≠ []) {calls : List ReadCall} (hcall : call ∈ calls)
    (hbuffer : call.length ≠ 0) (reads : List (ReadCall × ReadResult)) :
    after (Streaming.read beyond) ⟨body.source, reads⟩ calls = none := by
  induction calls generalizing reads with
  | nil => cases hcall
  | cons first rest ih =>
    unfold after
    rw [List.foldlM_cons]
    by_cases hfirst : first.length = 0
    · have hrest : call ∈ rest := by
        rcases List.mem_cons.mp hcall with rfl | hrest
        · exact absurd hfirst hbuffer
        · exact hrest
      -- a call without a buffer leaves the source as it is
      have hportion : body.portion 0 first = 0 := by simp [Body.portion, hfirst]
      obtain ⟨result, ⟨data, len, offset⟩, hresult, hadvances⟩ := responseReadCallback_advances
        beyond body (show (0#64).toNat ≤ body.data.length from Nat.zero_le _) first
          (.inr hportion)
      have hoffset : offset = 0 := BitVec.eq_of_toNat_eq (by simp [hadvances.offset, hportion])
      obtain rfl : data = body.source.data := hadvances.data
      obtain rfl : len = body.len := hadvances.len
      subst hoffset
      have hread : Streaming.read beyond ⟨body.source, reads⟩ first =
          some ⟨body.source, reads ++ [(first, result)]⟩ :=
        congrArg (Option.map _) hresult
      rw [hread]
      exact ih hrest _
    · rw [Streaming.read, responseReadCallback_freed beyond hfreed hdata hfirst]
      rfl

/-- A call with a buffer of a size. -/
def bufferOf (length : BitVec 64) : ReadCall := ⟨length, 0, by decide⟩

/-- A body that only the returned array holds, which only `retval` holds. -/
def freshBody : Body := ⟨ascii "abc", 3, by decide, false, 1, 1⟩

-- a buffer that is too small, one of no size, and one that is not filled
example : ((Body.stream [0x58#8] { freshBody with interned := true } [bufferOf 2, bufferOf 0,
    bufferOf 5]).map fun streaming => streaming.reads.map fun read =>
      (read.2.chunk, read.2.dataFlags)) =
        some [(ascii "ab", 0), ([], 0), (ascii "c", dataFlagEof)] := by
  decide

end QuicproAsync.Http2

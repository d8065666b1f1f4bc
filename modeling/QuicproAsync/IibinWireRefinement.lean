import QuicproAsync.IibinWire

/-!
# The decoder refines the meaning of the bytes

Function by function, the pointer version of the decoder agrees with the list version
on the window between the pointer and the end of the input, as long as no length taken
from the input exceeds the window. The proofs use that a buffer lies away from both
ends of the address space: the additions of the bound tests then do not wrap, and an
address inside the buffer is larger than any byte.
-/

namespace QuicproAsync.Iibin

open Php ScanLoop

variable {ptr : Nat} {field : FieldDef}

theorem ptrAdd_of_lt {count : Nat} (hlt : ptr + count < 2 ^ 64) :
    ptrAdd ptr count = ptr + count := Nat.mod_eq_of_lt hlt

/-! ### Primitives -/

/-- A pointer read agrees with a list read on the window: same value, and the pointer
    strictly behind where it was, at what the list read leaves. -/
def ReadAgrees (memory : Memory) (ptr bufEnd : Nat) :
    Option (α × Bytes) → Option (α × Nat) → Prop
  | none, read => read = none
  | some (value, rest), read =>
    ∃ q, ptr < q ∧ q ≤ bufEnd ∧ window memory q bufEnd = rest ∧ read = some (value, q)

variable {bufEnd : Nat}

theorem decodeVarintLoop_agrees (memory : Memory) (hend : bufEnd < 2 ^ 64) (iterations : Nat)
    (ptr : Nat) (shift : Nat) (result : BitVec 64) :
    ReadAgrees memory ptr bufEnd
      (Wire.varintLoop iterations (window memory ptr bufEnd) shift result)
      (decodeVarintLoop memory bufEnd iterations ptr shift result) := by
  induction iterations generalizing ptr shift result with
  | zero => exact rfl
  | succ iterations ih =>
    by_cases hdone : bufEnd ≤ ptr
    · rw [window_of_le memory hdone, decodeVarintLoop, if_pos hdone]
      exact rfl
    · have hnext : ptrAdd ptr 1 = ptr + 1 := ptrAdd_of_lt (by omega)
      rw [window_cons memory (by omega), decodeVarintLoop, if_neg hdone, Wire.varintLoop]
      simp only [hnext]
      split
      · exact ⟨ptr + 1, by omega, by omega, rfl, rfl⟩
      · have htail := ih (ptr + 1) (shift + 7)
          (result ||| ((memory ptr &&& 0x7F#8).setWidth 64 <<< shift))
        revert htail
        rcases Wire.varintLoop iterations (window memory (ptr + 1) bufEnd) (shift + 7)
          (result ||| ((memory ptr &&& 0x7F#8).setWidth 64 <<< shift)) with _ | ⟨value, rest⟩
        · exact id
        · rintro ⟨q, hq, hqle, hrest, hread⟩
          exact ⟨q, by omega, hqle, hrest, hread⟩

theorem decodeVarint_agrees (memory : Memory) (hend : bufEnd < 2 ^ 64) (ptr : Nat) :
    ReadAgrees memory ptr bufEnd (Wire.varint (window memory ptr bufEnd))
      (decodeVarint memory ptr bufEnd) :=
  decodeVarintLoop_agrees memory hend 10 ptr 0 0

theorem decodeFixed32_agrees (memory : Memory) (hle : ptr ≤ bufEnd) (hend : bufEnd + 8 < 2 ^ 64) :
    ReadAgrees memory ptr bufEnd (Wire.fixed32 (window memory ptr bufEnd))
      (decodeFixed32 memory ptr bufEnd) := by
  have hnext : ptrAdd ptr 4 = ptr + 4 := ptrAdd_of_lt (by omega)
  by_cases hfits : ptr + 4 ≤ bufEnd
  · rw [window_cons memory (by omega), window_cons memory (by omega),
      window_cons memory (by omega), window_cons memory (by omega), decodeFixed32, hnext,
      if_neg (by omega)]
    exact ⟨ptr + 4, by omega, hfits, rfl, rfl⟩
  · have hnone : Wire.fixed32 (window memory ptr bufEnd) = none := by
      have hlen := length_window memory ptr bufEnd
      rcases hw : window memory ptr bufEnd with _ | ⟨b0, _ | ⟨b1, _ | ⟨b2, _ | ⟨b3, rest⟩⟩⟩⟩ <;>
        first
        | rfl
        | (rw [hw] at hlen; simp only [List.length_cons] at hlen; omega)
    rw [hnone, decodeFixed32, hnext, if_pos (by omega)]
    exact rfl

theorem decodeFixed64_agrees (memory : Memory) (hle : ptr ≤ bufEnd) (hend : bufEnd + 8 < 2 ^ 64) :
    ReadAgrees memory ptr bufEnd (Wire.fixed64 (window memory ptr bufEnd))
      (decodeFixed64 memory ptr bufEnd) := by
  have hnext : ptrAdd ptr 8 = ptr + 8 := ptrAdd_of_lt (by omega)
  by_cases hfits : ptr + 8 ≤ bufEnd
  · rw [window_cons memory (by omega), window_cons memory (by omega),
      window_cons memory (by omega), window_cons memory (by omega),
      window_cons memory (by omega), window_cons memory (by omega),
      window_cons memory (by omega), window_cons memory (by omega), decodeFixed64, hnext,
      if_neg (by omega)]
    exact ⟨ptr + 8, by omega, hfits, rfl, rfl⟩
  · have hnone : Wire.fixed64 (window memory ptr bufEnd) = none := by
      have hlen := length_window memory ptr bufEnd
      rcases hw : window memory ptr bufEnd with
        _ | ⟨b0, _ | ⟨b1, _ | ⟨b2, _ | ⟨b3, _ | ⟨b4, _ | ⟨b5, _ | ⟨b6, _ | ⟨b7, rest⟩⟩⟩⟩⟩⟩⟩⟩ <;>
        first
        | rfl
        | (rw [hw] at hlen; simp only [List.length_cons] at hlen; omega)
    rw [hnone, decodeFixed64, hnext, if_pos (by omega)]
    exact rfl

/-- A read followed by a conversion of the value read. -/
theorem readOrFail_agrees {memory : Memory} {listRead : Option (α × Bytes)}
    {read : Option (α × Nat)} (hread : ReadAgrees memory ptr bufEnd listRead read)
    (convert : α → Zval) :
    Agrees memory (ptr + 1) bufEnd (Wire.readOrFail listRead convert)
      (readOrFail read convert) := by
  rcases listRead with _ | ⟨value, rest⟩
  · rw [show read = none from hread]
    exact rfl
  · obtain ⟨q, hq, hqle, hrest, rfl⟩ := hread
    exact ⟨q, hq, hqle, hrest, rfl⟩

/-! ### Values -/

/-- The nested decoders agree on every window that lies inside a buffer. -/
def NestedAgrees (ctx : DecodeContext) (nested : MessageDecoder) (wireNested : Wire.MessageReader) :
    Prop :=
  ∀ ptr bufEnd schema returnZval, 256 ≤ ptr → ptr ≤ bufEnd → bufEnd + 8 < 2 ^ 64 →
    bufEnd - ptr ≤ ctx.fuel →
    AgreesAtEnd bufEnd (wireNested schema (window ctx.memory ptr bufEnd) returnZval)
      (nested ptr bufEnd schema returnZval)

section

variable {ctx : DecodeContext} {nested : MessageDecoder} {wireNested : Wire.MessageReader}
  {bufEnd : Nat}

/-- Behind the length of a string or nested message: the bound test of the source passes
    exactly in the reading that compares with `buf_end`. -/
theorem lengthLimit_lt_iff (ctx : DecodeContext) {q len : Nat} (hlow : 256 ≤ q)
    (hfits : q + len ≤ bufEnd) (hend : bufEnd + 8 < 2 ^ 64) :
    lengthLimit ctx bufEnd < ptrAdd q len ↔ ctx.reading = .asWritten := by
  rw [ptrAdd_of_lt (by omega), lengthLimit]
  cases ctx.reading with
  | asWritten =>
    have hbyte := (ctx.memory bufEnd).isLt
    simp only [iff_true]
    omega
  | againstBufEnd =>
    simp only [reduceCtorEq, iff_false]
    omega

/-- The list version of the delimited types. -/
def wireDelimited (ctx : WireContext) (wireNested : Wire.MessageReader) (field : FieldDef)
    (bytes : Bytes) : Wire.Answer (Bytes × Zval) := do
  let (content, rest) ← Wire.block .silent bytes
  let decoded ← Wire.delimitedValue ctx wireNested field content
  .ok (rest, decoded)

/-- Strings and messages read a length, test it, and go on with the block behind it. -/
def readBlock (ctx : DecodeContext) (found : Nat → BitVec 64 → Except Fault (Nat × Zval))
    (ptr bufEnd : Nat) : Except Fault (Nat × Zval) :=
  match decodeVarint ctx.memory ptr bufEnd with
  | none => .error .silent
  | some (len, start) =>
    if lengthLimit ctx bufEnd < ptrAdd start len.toNat then .error .silent
    else found start len

/-- Both versions read the length first; from there on the block lies in the window. -/
theorem readBlock_agrees {found : Nat → BitVec 64 → Except Fault (Nat × Zval)} (hlow : 256 ≤ ptr)
    (hend : bufEnd + 8 < 2 ^ 64) (hfound : ∀ start len, ptr < start → start + len.toNat ≤ bufEnd →
      ctx.reading = .againstBufEnd →
      Agrees ctx.memory (ptr + 1) bufEnd
        (do
          let decoded ← Wire.delimitedValue ctx.toWireContext wireNested field
            (window ctx.memory start (start + len.toNat))
          .ok (window ctx.memory (start + len.toNat) bufEnd, decoded)) (found start len)) :
    Agrees ctx.memory (ptr + 1) bufEnd
      (wireDelimited ctx.toWireContext wireNested field (window ctx.memory ptr bufEnd))
      (readBlock ctx found ptr bufEnd) := by
  have hread := decodeVarint_agrees ctx.memory (show bufEnd < 2 ^ 64 by omega) ptr
  rcases hlist : Wire.varint (window ctx.memory ptr bufEnd) with _ | ⟨len, after⟩
  · rw [hlist] at hread
    simp only [wireDelimited, Wire.block, hlist]
    rw [readBlock, show decodeVarint ctx.memory ptr bufEnd = none from hread]
    exact rfl
  · rw [hlist] at hread
    obtain ⟨start, hstart, hinside, rfl, hdecode⟩ := hread
    simp only [wireDelimited, Wire.block, hlist, length_window]
    by_cases hover : bufEnd - start < len.toNat
    · rw [if_pos hover]
      trivial
    · have hfits : start + len.toNat ≤ bufEnd := by omega
      have hlimit := lengthLimit_lt_iff ctx (show 256 ≤ start by omega) hfits hend
      rw [if_neg hover, take_window ctx.memory hfits, drop_window ctx.memory hfits]
      simp only [readBlock, hdecode]
      cases hreading : ctx.reading with
      | asWritten =>
        simp only [if_pos (hlimit.mpr hreading), Wire.delimitedValue, hreading]
        exact rfl
      | againstBufEnd =>
        have hpasses : ¬ lengthLimit ctx bufEnd < ptrAdd start len.toNat := by
          rw [hlimit, hreading]
          decide
        rw [if_neg hpasses]
        exact hfound start len hstart hfits hreading

theorem decodeStringValue_agrees (hlow : 256 ≤ ptr) (hend : bufEnd + 8 < 2 ^ 64)
    (htype : field.type ≠ .message) :
    Agrees ctx.memory (ptr + 1) bufEnd
      (wireDelimited ctx.toWireContext wireNested field (window ctx.memory ptr bufEnd))
      (decodeStringValue ctx ptr bufEnd) := by
  apply readBlock_agrees hlow hend
  intro start len hstart hfits hreading
  simp only [Wire.delimitedValue, hreading]
  rw [if_neg htype, ptrAdd_of_lt (by omega)]
  refine ⟨start + len.toNat, by omega, hfits, rfl, ?_⟩
  rw [window, Nat.add_sub_cancel_left]

theorem decodeMessageValue_agrees (hnested : NestedAgrees ctx nested wireNested)
    (hlow : 256 ≤ ptr) (hend : bufEnd + 8 < 2 ^ 64) (hfuel : bufEnd - ptr ≤ ctx.fuel)
    (htype : field.type = .message) :
    Agrees ctx.memory (ptr + 1) bufEnd
      (wireDelimited ctx.toWireContext wireNested field (window ctx.memory ptr bufEnd))
      (decodeMessageValue ctx nested ptr bufEnd field) := by
  apply readBlock_agrees hlow hend
  intro start len hstart hfits hreading
  simp only [Wire.delimitedValue, hreading]
  rw [if_pos htype, ptrAdd_of_lt (by omega)]
  rcases getCompiledIibinSchemaInternal ctx.registry
    (field.messageTypeNameIfNested.getD []) with _ | nestedSchema
  · exact rfl
  · have hinner := hnested start (start + len.toNat) nestedSchema ctx.emptyResult (by omega)
      (by omega) (by omega) (by omega)
    simp only
    revert hinner
    rcases wireNested nestedSchema (window ctx.memory start (start + len.toNat)) ctx.emptyResult
      with err | out
    · cases err with
      | overrun => intro _; trivial
      | fault fault =>
        intro hinner
        rw [show nested start (start + len.toNat) nestedSchema ctx.emptyResult = .error fault
          from hinner]
        exact rfl
    · intro hinner
      rw [show nested start (start + len.toNat) nestedSchema ctx.emptyResult =
        .ok (start + len.toNat, out) from hinner]
      exact ⟨start + len.toNat, by omega, hfits, rfl, rfl⟩

theorem decodeValueToZval_agrees (hnested : NestedAgrees ctx nested wireNested)
    (hlow : 256 ≤ ptr) (hle : ptr ≤ bufEnd) (hend : bufEnd + 8 < 2 ^ 64)
    (hfuel : bufEnd - ptr ≤ ctx.fuel) (field : FieldDef) (wireType : BitVec 32) :
    Agrees ctx.memory (ptr + 1) bufEnd
      (Wire.value ctx.toWireContext wireNested field wireType (window ctx.memory ptr bufEnd))
      (decodeValueToZval ctx nested ptr bufEnd field wireType) := by
  have hvarint := decodeVarint_agrees ctx.memory (show bufEnd < 2 ^ 64 by omega) ptr
  have hfixed32 := decodeFixed32_agrees ctx.memory hle hend
  have hfixed64 := decodeFixed64_agrees ctx.memory hle hend
  unfold Wire.value decodeValueToZval
  by_cases hmismatch : wireType ≠ field.wireType ∧ field.flags.packed = false
  · rw [if_pos hmismatch, if_pos hmismatch]
    exact rfl
  · rw [if_neg hmismatch, if_neg hmismatch]
    cases htype : field.type <;> simp only [Wire.layout]
    case unknown => exact rfl
    case int32 => exact readOrFail_agrees hvarint (varintZval .int32)
    case int64 => exact readOrFail_agrees hvarint (varintZval .int64)
    case uint32 => exact readOrFail_agrees hvarint (varintZval .uint32)
    case uint64 => exact readOrFail_agrees hvarint (varintZval .uint64)
    case sint32 => exact readOrFail_agrees hvarint (varintZval .sint32)
    case sint64 => exact readOrFail_agrees hvarint (varintZval .sint64)
    case bool => exact readOrFail_agrees hvarint (varintZval .bool)
    case enum => exact readOrFail_agrees hvarint (varintZval .enum)
    case float => exact readOrFail_agrees hfixed32 (fixed32Zval ctx.host .float)
    case fixed32 => exact readOrFail_agrees hfixed32 (fixed32Zval ctx.host .fixed32)
    case sfixed32 => exact readOrFail_agrees hfixed32 (fixed32Zval ctx.host .sfixed32)
    case double => exact readOrFail_agrees hfixed64 (fixed64Zval .double)
    case fixed64 => exact readOrFail_agrees hfixed64 (fixed64Zval .fixed64)
    case sfixed64 => exact readOrFail_agrees hfixed64 (fixed64Zval .sfixed64)
    case string => exact decodeStringValue_agrees hlow hend (by rw [htype]; decide)
    case bytes => exact decodeStringValue_agrees hlow hend (by rw [htype]; decide)
    case message => exact decodeMessageValue_agrees hnested hlow hend hfuel htype

/-! ### Fields -/

/-- The answer of a concrete skip agrees with that of a list skip. -/
def SkipAgrees (memory : Memory) (ptr bufEnd : Nat) (fault : Fault) :
    Wire.Answer Bytes → Option Nat → Prop
  | .ok rest, result =>
    ∃ q, ptr < q ∧ q ≤ bufEnd ∧ window memory q bufEnd = rest ∧ result = some q
  | .error (.fault f), result => f = fault ∧ result = none
  | .error .overrun, _ => True

theorem skipField_agrees (hle : ptr ≤ bufEnd) (hend : bufEnd + 8 < 2 ^ 64) (fault : Fault)
    (wireType : BitVec 32) :
    SkipAgrees ctx.memory ptr bufEnd fault
      (Wire.skip fault wireType (window ctx.memory ptr bufEnd))
      (skipField ctx ptr bufEnd wireType) := by
  have hread := decodeVarint_agrees ctx.memory (show bufEnd < 2 ^ 64 by omega) ptr
  have hfixed : ∀ count, 0 < count → count ≤ 8 →
      SkipAgrees ctx.memory ptr bufEnd fault
        (if (window ctx.memory ptr bufEnd).length < count then .error (.fault fault)
          else .ok ((window ctx.memory ptr bufEnd).drop count))
        (if bufEnd < ptrAdd ptr count then none else some (ptrAdd ptr count)) := by
    intro count hpos hcount
    rw [ptrAdd_of_lt (by omega), length_window]
    by_cases hshort : bufEnd - ptr < count
    · rw [if_pos hshort, if_pos (by omega)]
      exact ⟨rfl, rfl⟩
    · rw [if_neg hshort, if_neg (by omega), drop_window ctx.memory (by omega)]
      exact ⟨ptr + count, by omega, by omega, rfl, rfl⟩
  unfold Wire.skip skipField
  by_cases hvarint : wireType = wiretypeVarint
  · rw [if_pos hvarint, if_pos hvarint]
    rcases hlist : Wire.varint (window ctx.memory ptr bufEnd) with _ | ⟨value, rest⟩ <;>
      rw [hlist] at hread
    · rw [show decodeVarint ctx.memory ptr bufEnd = none from hread]
      exact ⟨rfl, rfl⟩
    · obtain ⟨q, hq, hqle, hrest, hdecode⟩ := hread
      rw [hdecode]
      exact ⟨q, hq, hqle, hrest, rfl⟩
  · rw [if_neg hvarint, if_neg hvarint]
    by_cases hfixed64 : wireType = wiretypeFixed64
    · rw [if_pos hfixed64, if_pos hfixed64]
      exact hfixed 8 (by omega) (by omega)
    · rw [if_neg hfixed64, if_neg hfixed64]
      by_cases hdelimited : wireType = wiretypeLengthDelim
      · rw [if_pos hdelimited, if_pos hdelimited]
        rcases hlist : Wire.varint (window ctx.memory ptr bufEnd) with _ | ⟨len, rest⟩ <;>
          rw [hlist] at hread
        · rw [show decodeVarint ctx.memory ptr bufEnd = none from hread]
          simp only [Wire.block, hlist]
          exact ⟨rfl, rfl⟩
        · obtain ⟨q, hq, hqle, rfl, hdecode⟩ := hread
          simp only [Wire.block, hlist, hdecode, length_window]
          by_cases hover : bufEnd - q < len.toNat
          · rw [if_pos hover]
            trivial
          · rw [if_neg hover, ptrAdd_of_lt (by omega), if_neg (by omega),
              drop_window ctx.memory (by omega)]
            exact ⟨q + len.toNat, by omega, by omega, rfl, rfl⟩
      · rw [if_neg hdelimited, if_neg hdelimited]
        by_cases hfixed32 : wireType = wiretypeFixed32
        · rw [if_pos hfixed32, if_pos hfixed32]
          exact hfixed 4 (by omega) (by omega)
        · rw [if_neg hfixed32, if_neg hfixed32]
          exact ⟨rfl, rfl⟩

/-- Storing what has been decoded does not move the pointer. -/
theorem store_agrees {low stop : Nat} {answer : Wire.Answer (Bytes × Zval)}
    {result : Except Fault (Nat × Zval)} (hvalue : Agrees ctx.memory low stop answer result)
    (store : Zval → Except Fault Zval) :
    Agrees ctx.memory low stop
      (answer >>= fun read => Wire.lift (store read.2) >>= fun stored => .ok (read.1, stored))
      (result >>= fun read => store read.2 >>= fun stored => .ok (read.1, stored)) := by
  rcases answer with err | ⟨rest, decoded⟩
  · cases err with
    | overrun => trivial
    | fault fault =>
      rw [show result = .error fault from hvalue]
      exact rfl
  · obtain ⟨q, hlow, hstop, hrest, rfl⟩ := hvalue
    rcases hstore : store decoded with fault | stored
    · simp only [bind, Except.bind, hstore]
      exact rfl
    · simp only [bind, Except.bind, hstore]
      exact ⟨q, hlow, hstop, hrest, rfl⟩

theorem decodePackedItem_agrees (hnested : NestedAgrees ctx nested wireNested)
    (hlow : 256 ≤ ptr) (hle : ptr ≤ bufEnd) (hend : bufEnd + 8 < 2 ^ 64)
    (hfuel : bufEnd - ptr ≤ ctx.fuel) (field : FieldDef) (sub : Zval) :
    Agrees ctx.memory (ptr + 1) bufEnd
      (Wire.packedItem ctx.toWireContext wireNested field (window ctx.memory ptr bufEnd) sub)
      (decodePackedItem ctx nested field bufEnd ptr sub) :=
  store_agrees (decodeValueToZval_agrees hnested hlow hle hend hfuel field field.wireType)
    (addNextIndexZval sub)

theorem decodePackedBlock_agrees (hnested : NestedAgrees ctx nested wireNested)
    (hlow : 256 ≤ ptr) (hend : bufEnd + 8 < 2 ^ 64)
    (hfuel : bufEnd - ptr ≤ ctx.fuel) (field : FieldDef) (returnZval : Zval) :
    Agrees ctx.memory (ptr + 1) bufEnd
      (Wire.packedBlock ctx.toWireContext wireNested field (window ctx.memory ptr bufEnd)
        returnZval)
      (decodePackedBlock ctx nested field ptr bufEnd returnZval) := by
  have hread := decodeVarint_agrees ctx.memory (show bufEnd < 2 ^ 64 by omega) ptr
  rcases hlist : Wire.varint (window ctx.memory ptr bufEnd) with _ | ⟨len, rest⟩ <;>
    rw [hlist] at hread
  · simp only [Wire.packedBlock, Wire.block, hlist, decodePackedBlock,
      show decodeVarint ctx.memory ptr bufEnd = none from hread]
    exact rfl
  · obtain ⟨q, hq, hqle, rfl, hdecode⟩ := hread
    simp only [Wire.packedBlock, Wire.block, hlist, decodePackedBlock, hdecode, length_window]
    by_cases hover : bufEnd - q < len.toNat
    · rw [if_pos hover]
      trivial
    · rw [if_neg hover, ptrAdd_of_lt (by omega), if_neg (by omega),
        take_window ctx.memory (by omega), drop_window ctx.memory (by omega)]
      rcases returnZval with _ | _ | _ | _ | _ | _ | entries | _ | _ | _
      case array =>
        -- the items of the block are a loop of their own, bounded by the end of the block
        have hloop := whileBelow_of_drain Fault.fuel
          (Wire.packedItem_shrinks ctx.toWireContext wireNested field)
          (fun p sub hp hlt => decodePackedItem_agrees hnested (show 256 ≤ p by omega)
            (Nat.le_of_lt hlt) (by omega) (by omega) field sub)
          ctx.fuel q (subArray entries field.nameInPhp) (Nat.le_refl q)
          (Nat.le_add_right q len.toNat) (by omega)
        simp only [Wire.lift, returnArray, bind, Except.bind]
        revert hloop
        rcases drainAll .overrun (Wire.packedItem ctx.toWireContext wireNested field)
          (window ctx.memory q (q + len.toNat)) (subArray entries field.nameInPhp) with err | sub
        · cases err with
          | overrun => intro _; trivial
          | fault fault =>
            intro hloop
            rw [show whileBelow _ _ _ _ _ _ = _ from hloop]
            exact rfl
        · intro hloop
          rw [show whileBelow _ _ _ _ _ _ = _ from hloop]
          exact ⟨q + len.toNat, by omega, by omega, rfl, rfl⟩
      all_goals exact rfl

theorem decodeField_agrees (hnested : NestedAgrees ctx nested wireNested)
    (schema : CompiledSchema) (hlow : 256 ≤ ptr) (hlt : ptr < bufEnd) (hend : bufEnd + 8 < 2 ^ 64)
    (hfuel : bufEnd - ptr ≤ ctx.fuel) (returnZval : Zval) :
    Agrees ctx.memory (ptr + 1) bufEnd
      (Wire.field ctx.toWireContext wireNested schema (window ctx.memory ptr bufEnd) returnZval)
      (decodeField ctx nested schema bufEnd ptr returnZval) := by
  have hread := decodeVarint_agrees ctx.memory (show bufEnd < 2 ^ 64 by omega) ptr
  rcases hlist : Wire.varint (window ctx.memory ptr bufEnd) with _ | ⟨key, rest⟩ <;>
    rw [hlist] at hread
  · simp only [Wire.field, decodeField, hlist,
      show decodeVarint ctx.memory ptr bufEnd = none from hread]
    exact rfl
  · obtain ⟨q, hq, hqle, rfl, hdecode⟩ := hread
    simp only [Wire.field, decodeField, hlist, hdecode, Wire.fieldBody]
    by_cases hzero : keyTag key = 0
    · rw [if_pos hzero, if_pos hzero]
      exact ⟨q, hq, hqle, rfl, rfl⟩
    · rw [if_neg hzero, if_neg hzero]
      rcases schema.fieldsByTag.lookup (keyTag key) with _ | field
      · have hskip : SkipAgrees ctx.memory q bufEnd _ _
          (skipField ctx q bufEnd (keyWireType key)) :=
          skipField_agrees hqle hend (.exception (.skipFailed (keyTag key) schema.schemaName)) _
        simp only
        revert hskip
        rcases Wire.skip _ (keyWireType key) (window ctx.memory q bufEnd) with (_ | fault) | after
        · intro _; trivial
        · rintro ⟨rfl, hskip⟩
          rw [hskip]
          exact rfl
        · rintro ⟨q', hq', hle', rfl, hskip⟩
          rw [hskip]
          exact ⟨q', by omega, hle', rfl, rfl⟩
      · simp only
        by_cases hpacked : field.flags.packed = true ∧ keyWireType key = wiretypeLengthDelim
        · rw [if_pos hpacked, if_pos hpacked]
          exact (decodePackedBlock_agrees hnested (by omega) hend (by omega) field
            returnZval).mono (by omega)
        · rw [if_neg hpacked, if_neg hpacked]
          have hvalue := decodeValueToZval_agrees hnested (show 256 ≤ q by omega) hqle hend
            (by omega) field (keyWireType key)
          exact (store_agrees hvalue fun value => storeValue field value returnZval).mono (by omega)

end

/-! ### Messages -/

/-- **Refinement.** On a window of a buffer, and with a budget of one iteration for each
    byte, `decode_message_internal` ends at the end of the window with the message that
    the bytes mean, or fails as they say, unless a length overruns the window. -/
theorem decodeMessageInternal_agrees (ctx : DecodeContext) (depth : Nat) :
    NestedAgrees ctx (decodeMessageInternal ctx depth) (Wire.message ctx.toWireContext depth) := by
  induction depth with
  | zero =>
    intro ptr bufEnd schema returnZval _ _ _ _
    exact rfl
  | succ depth ih =>
    intro ptr bufEnd schema returnZval hlow hle hend hfuel
    exact whileBelow_of_drain Fault.fuel (Wire.field_shrinks ctx.toWireContext _ schema)
      (fun p returnZval hp hlt => decodeField_agrees ih schema (show 256 ≤ p by omega) hlt hend
        (by omega) returnZval)
      ctx.fuel ptr returnZval (Nat.le_refl ptr) hle hfuel

section Buffers

variable (buffer : Buffer)

theorem Buffer.window_eq : window buffer.memory buffer.base buffer.stop = buffer.bytes :=
  buffer.holds

/-- The decoder on a whole buffer. -/
theorem decodeMessageInternal_buffer (wire : WireContext) {fuel : Nat}
    (hfuel : buffer.bytes.length ≤ fuel) (depth : Nat) (schema : CompiledSchema)
    (returnZval : Zval) :
    AgreesAtEnd buffer.stop (Wire.message wire depth schema buffer.bytes returnZval)
      (decodeMessageInternal ⟨wire, buffer.memory, fuel⟩ depth buffer.base buffer.stop schema
        returnZval) := by
  have hagrees := decodeMessageInternal_agrees ⟨wire, buffer.memory, fuel⟩ depth buffer.base
    buffer.stop schema returnZval buffer.low buffer.base_le_stop buffer.stop_high
    (buffer.left_le hfuel le_rfl)
  rwa [buffer.window_eq] at hagrees

theorem quicproIibinDecode_error {wire : WireContext} {fuel : Nat} {schemaName : Bytes}
    {buffer : Buffer} {schema : CompiledSchema} {fault : Fault}
    (hschema : wire.registry.Has schemaName schema)
    (hfault : decodeMessageInternal ⟨wire, buffer.memory, fuel⟩ wire.registry.schemas.length
      buffer.base buffer.stop schema wire.emptyResult = .error fault) :
    quicproIibinDecode wire fuel schemaName buffer = .error fault := by
  simp only [quicproIibinDecode, hschema, hfault]
  rfl

/-- What `quicpro_iibin_decode` makes of the meaning of its bytes. -/
def finish (schema : CompiledSchema) (decoded : Except Fault Zval) :
    Except Fault (Zval × Option IibinError) := do
  let decoded ← decoded
  let result ← populateDefaultValuesAndCheckRequired schema decoded
  .ok (result, none)

/-- **Decoding a buffer.** If no length overruns the bytes, `quicpro_iibin_decode` is
    their meaning, with the defaults filled in and the required fields checked; the
    warning about remaining bytes is never given. -/
theorem quicproIibinDecode_eq (wire : WireContext) {fuel : Nat}
    (hfuel : buffer.bytes.length ≤ fuel) {schemaName : Bytes} {schema : CompiledSchema}
    (hschema : wire.registry.Has schemaName schema) {decoded : Except Fault Zval}
    (hmeaning : Wire.message wire wire.registry.schemas.length schema buffer.bytes
      wire.emptyResult = Wire.lift decoded) :
    quicproIibinDecode wire fuel schemaName buffer = finish schema decoded := by
  have hagrees := decodeMessageInternal_buffer buffer wire hfuel wire.registry.schemas.length
    schema wire.emptyResult
  rw [hmeaning] at hagrees
  rcases decoded with fault | decoded
  · exact quicproIibinDecode_error hschema hagrees
  · simp only [quicproIibinDecode, hschema, finish, bind, Except.bind, ↓reduceIte,
      show decodeMessageInternal ⟨wire, buffer.memory, fuel⟩ _ _ _ _ _ =
        .ok (buffer.stop, decoded) from hagrees]

end Buffers

end QuicproAsync.Iibin

import QuicproAsync.IibinEncoding

/-!
# `iibin_decoding.c`: from bytes to PHP values

The decoder as it runs: pointers into a memory, bound tests in wrapping address
arithmetic, loops cut off by a budget of iterations. Two places of the source need a
reading. The bound tests for strings and nested messages compare the advanced pointer
with `*buf_end`, the *byte* at the end of the input, instead of with `buf_end`; both
readings are kept, selected by `BoundReading`. And `is_object`, which
`decode_message_internal` uses without declaring it, is read as "the value being filled
is an object".

What is followed here are the values: which value is stored where, and how a run fails. Who
owns them is left to `IibinLifetimes`, which has the decoder with the two `zval_ptr_dtor` of
lines 250 and 257. `decodeMessageInternal` and `quicproIibinDecode` are the view of that
decoder in which nothing is ever given back; what a caller can still use is stated about
`decodeMessageTracked` and `quicproIibinDecodeTracked`.
-/

namespace QuicproAsync.Iibin

open Php Fallible ScanLoop OrderedMap

inductive BoundReading where
  /-- `*buf_ptr + len > *buf_end`, as the source has it -/
  | asWritten
  /-- `*buf_ptr + len > buf_end` -/
  | againstBufEnd
deriving DecidableEq

/-- What fixes the meaning of a byte string. -/
structure WireContext where
  host : Host
  registry : Registry
  reading : BoundReading
  decodeAsObject : Bool

/-- What the decoding functions read besides their arguments: the meaning of the bytes,
    the memory they lie in, and the budget of iterations of each loop. -/
structure DecodeContext extends WireContext where
  memory : Memory
  fuel : Nat

/-- The value that `object_init` or `array_init` leaves to be filled. -/
def WireContext.emptyResult (ctx : WireContext) : Zval :=
  if ctx.decodeAsObject then .object [] else .array []

/-! ### Scalars -/

/-- What is stored for a varint read from the wire. -/
def varintZval (type : FieldType) (u64 : BitVec 64) : Zval :=
  match type with
  | .int32 | .enum => .long ((u64.setWidth 32).signExtend 64)
  | .sint32 => .long ((zigzagDecode32 (u64.setWidth 32)).signExtend 64)
  | .sint64 => .long (zigzagDecode64 u64)
  | .bool => .bool (u64 ≠ 0)
  | _ => .long u64

def fixed32Zval (host : Host) (type : FieldType) (u32 : BitVec 32) : Zval :=
  match type with
  | .float => .double (host.floatToDouble u32)
  | .fixed32 => .long (u32.setWidth 64)
  | _ => .long (u32.signExtend 64)

def fixed64Zval (type : FieldType) (u64 : BitVec 64) : Zval :=
  match type with
  | .double => .double u64
  | _ => .long u64

/-- `if (!read) return FAILURE;` and the conversion of what was read. -/
def readOrFail (read : Option (α × Nat)) (convert : α → Zval) : Except Fault (Nat × Zval) :=
  match read with
  | none => .error .silent
  | some (value, ptr) => .ok (ptr, convert value)

/-! ### Filling the result -/

/-- `add_next_index_zval`. -/
def addNextIndexZval (target value : Zval) : Except Fault Zval :=
  match target with
  | .array table => .ok (.array (nextIndexInsert table value))
  | _ => .error .confusion

/-- The array stored under a name, or a fresh one. -/
def subArray (table : HashTable) (name : Bytes) : Zval :=
  (table.lookup (.str name)).getD (.array [])

/-- Lines 242 to 258, as far as the values go: which entry a decoded value is stored in.
    `storeTracked` is the same with the `zval_ptr_dtor` of lines 250 and 257. -/
def storeValue (field : FieldDef) (value returnZval : Zval) : Except Fault Zval :=
  if field.flags.repeated then
    match returnZval with
    | .array entries => do
        let sub ← addNextIndexZval (subArray entries field.nameInPhp) value
        .ok (.array (assign (.str field.nameInPhp) sub entries))
    | .object props => do
        let sub ← addNextIndexZval (subArray props field.nameInPhp) value
        .ok (.object (assign (.str field.nameInPhp) sub props))
    | _ => .error .confusion
  else
    match returnZval with
    -- `add_assoc_zval_ex` is a symbol table update, `zend_update_property` is not
    | .array entries =>
      .ok (.array (assign (symtableKey field.nameInPhp) value entries))
    | .object props => .ok (.object (assign (.str field.nameInPhp) value props))
    | _ => .error .confusion

/-- The packed branch goes through `Z_ARRVAL_P(return_zval)` without looking at the type. -/
def returnArray (returnZval : Zval) : Except Fault HashTable :=
  match returnZval with
  | .array entries => .ok entries
  | _ => .error .confusion

/-- Filling the result can only fail by type confusion. -/
abbrev OnlyConfusion (result : Except Fault α) : Prop :=
  Ends (fun fault => fault = .confusion) (fun _ => True) result

theorem addNextIndexZval_onlyConfusion (target value : Zval) :
    OnlyConfusion (addNextIndexZval target value) := by
  unfold addNextIndexZval
  split
  · trivial
  · exact rfl

theorem storeValue_onlyConfusion (field : FieldDef) (value returnZval : Zval) :
    OnlyConfusion (storeValue field value returnZval) := by
  unfold storeValue
  split
  · split
    · exact Ends.bind (addNextIndexZval_onlyConfusion _ value) fun _ _ => trivial
    · exact Ends.bind (addNextIndexZval_onlyConfusion _ value) fun _ _ => trivial
    · exact rfl
  · split
    · trivial
    · trivial
    · exact rfl

theorem returnArray_onlyConfusion (returnZval : Zval) : OnlyConfusion (returnArray returnZval) := by
  unfold returnArray
  split
  · trivial
  · exact rfl

def ownerName (field : FieldDef) : Bytes :=
  match field.messageTypeNameIfNested, field.enumTypeNameIfEnum with
  | some name, _ => name
  | none, some name => name
  | none, none => ascii "Primitive"

/-! ### The functions of the file -/

section

variable (ctx : DecodeContext)

/-- The right-hand side of the bound tests at lines 112 and 120. -/
def lengthLimit (bufEnd : Nat) : Nat :=
  match ctx.reading with
  | .asWritten => (ctx.memory bufEnd).toNat
  | .againstBufEnd => bufEnd

/-- Lines 108 to 116. -/
def decodeStringValue (ptr bufEnd : Nat) : Except Fault (Nat × Zval) :=
  match decodeVarint ctx.memory ptr bufEnd with
  | none => .error .silent
  | some (len, ptr) =>
    if lengthLimit ctx bufEnd < ptrAdd ptr len.toNat then .error .silent
    else .ok (ptrAdd ptr len.toNat, .string (slice ctx.memory ptr len.toNat))

/-- The recursive call for a nested message. -/
abbrev MessageDecoder := Nat → Nat → CompiledSchema → Zval → Except Fault (Nat × Zval)

/-- Lines 117 to 142. -/
def decodeMessageValue (decodeMessage : MessageDecoder) (ptr bufEnd : Nat) (field : FieldDef) :
    Except Fault (Nat × Zval) :=
  match decodeVarint ctx.memory ptr bufEnd with
  | none => .error .silent
  | some (len, ptr) =>
    if lengthLimit ctx bufEnd < ptrAdd ptr len.toNat then .error .silent
    else
      let nestedBufEnd := ptrAdd ptr len.toNat
      let schemaName := field.messageTypeNameIfNested.getD []
      match getCompiledIibinSchemaInternal ctx.registry schemaName with
      | none => .error (.exception (.decodeNestedNotDefined schemaName field.nameInPhp))
      | some nestedSchema => do
          let (_, out) ← decodeMessage ptr nestedBufEnd nestedSchema ctx.emptyResult
          .ok (nestedBufEnd, out)

/-- `decode_value_to_zval`; `decodeMessage` is the call of `decode_message_internal`. -/
def decodeValueToZval (decodeMessage : MessageDecoder) (ptr bufEnd : Nat) (field : FieldDef)
    (wireType : BitVec 32) : Except Fault (Nat × Zval) :=
  if wireType ≠ field.wireType ∧ field.flags.packed = false then
    .error (.exception
      (.wireTypeMismatch (ownerName field) field.nameInPhp field.tag field.wireType wireType))
  else
    match field.type with
    | .int32 | .enum | .sint32 | .int64 | .sint64 | .uint32 | .uint64 | .bool =>
      readOrFail (decodeVarint ctx.memory ptr bufEnd) (varintZval field.type)
    | .float | .fixed32 | .sfixed32 =>
      readOrFail (decodeFixed32 ctx.memory ptr bufEnd) (fixed32Zval ctx.host field.type)
    | .double | .fixed64 | .sfixed64 =>
      readOrFail (decodeFixed64 ctx.memory ptr bufEnd) (fixed64Zval field.type)
    | .string | .bytes => decodeStringValue ctx ptr bufEnd
    | .message => decodeMessageValue ctx decodeMessage ptr bufEnd field
    | .unknown => .error .silent

def skipField (ptr bufEnd : Nat) (wireType : BitVec 32) : Option Nat :=
  if wireType = wiretypeVarint then
    match decodeVarint ctx.memory ptr bufEnd with
    | none => none
    | some (_, ptr) => some ptr
  else if wireType = wiretypeFixed64 then
    if bufEnd < ptrAdd ptr 8 then none else some (ptrAdd ptr 8)
  else if wireType = wiretypeLengthDelim then
    match decodeVarint ctx.memory ptr bufEnd with
    | none => none
    | some (len, ptr) =>
      if bufEnd < ptrAdd ptr len.toNat then none else some (ptrAdd ptr len.toNat)
  else if wireType = wiretypeFixed32 then
    if bufEnd < ptrAdd ptr 4 then none else some (ptrAdd ptr 4)
  else none

/-- One item of a packed block: decode it and append it to the sub-array. -/
def decodePackedItem (decodeMessage : MessageDecoder) (field : FieldDef) (packedEnd ptr : Nat)
    (sub : Zval) : Except Fault (Nat × Zval) := do
  let (ptr, item) ← decodeValueToZval ctx decodeMessage ptr packedEnd field field.wireType
  let sub ← addNextIndexZval sub item
  .ok (ptr, sub)

/-- Lines 219 to 237. -/
def decodePackedBlock (decodeMessage : MessageDecoder) (field : FieldDef) (ptr bufEnd : Nat)
    (returnZval : Zval) : Except Fault (Nat × Zval) :=
  match decodeVarint ctx.memory ptr bufEnd with
  | none => .error .silent
  | some (len, ptr) =>
    if bufEnd < ptrAdd ptr len.toNat then .error (.exception .packedTooLong)
    else do
      let packedEnd := ptrAdd ptr len.toNat
      let entries ← returnArray returnZval
      let (ptr, sub) ← whileBelow .fuel packedEnd
        (decodePackedItem ctx decodeMessage field packedEnd) ctx.fuel ptr
        (subArray entries field.nameInPhp)
      .ok (ptr, .array (assign (.str field.nameInPhp) sub entries))

def keyTag (key : BitVec 64) : BitVec 32 := (key >>> 3).setWidth 32

def keyWireType (key : BitVec 64) : BitVec 32 := (key &&& 7).setWidth 32

/-- One turn of the loop of `decode_message_internal`. -/
def decodeField (decodeMessage : MessageDecoder) (schema : CompiledSchema) (bufEnd ptr : Nat)
    (returnZval : Zval) :
    Except Fault (Nat × Zval) :=
  match decodeVarint ctx.memory ptr bufEnd with
  | none => .error (.exception (.malformedKey schema.schemaName))
  | some (key, ptr) =>
    if keyTag key = 0 then .ok (ptr, returnZval)
    else
      match schema.fieldsByTag.lookup (keyTag key) with
      | none =>
        match skipField ctx ptr bufEnd (keyWireType key) with
        | none => .error (.exception (.skipFailed (keyTag key) schema.schemaName))
        | some ptr => .ok (ptr, returnZval)
      | some field =>
        if field.flags.packed ∧ keyWireType key = wiretypeLengthDelim then
          decodePackedBlock ctx decodeMessage field ptr bufEnd returnZval
        else do
          let (ptr, value) ← decodeValueToZval ctx decodeMessage ptr bufEnd field
            (keyWireType key)
          let returnZval ← storeValue field value returnZval
          .ok (ptr, returnZval)

/-- `decode_message_internal` on values; see `decodeMessageTracked` for their lifetimes. -/
def decodeMessageInternal :
    (depth : Nat) → Nat → Nat → CompiledSchema → Zval → Except Fault (Nat × Zval)
  | 0, _, _, _, _ => .error .depth
  | depth + 1, ptr, bufEnd, schema, returnZval =>
    whileBelow .fuel bufEnd (decodeField ctx (decodeMessageInternal depth) schema bufEnd)
      ctx.fuel ptr returnZval

end

/-- The name is bound in the array or object; the tests use the plain string key. -/
def fieldIsPresent (field : FieldDef) : Zval → Bool
  | .array entries => (entries.lookup (.str field.nameInPhp)).isSome
  | .object props => (props.lookup (.str field.nameInPhp)).isSome
  | _ => false

def putMember (name : Bytes) (value : Zval) : Zval → Zval
  | .array entries => .array (assign (.str name) value entries)
  | .object props => .object (assign (.str name) value props)
  | other => other

/-- One field of `populate_default_values_and_check_required`. -/
def populateField (schemaName : Bytes) (decoded : Zval) (field : FieldDef) : Except Fault Zval :=
  if fieldIsPresent field decoded then .ok decoded
  else if field.flags.required then
    .error (.exception (.requiredNotFound field.nameInPhp field.tag schemaName))
  else if field.defaultValueZval.isUndef then .ok decoded
  else .ok (putMember field.nameInPhp field.defaultValueZval decoded)

def populateDefaultValuesAndCheckRequired (schema : CompiledSchema) (decoded : Zval) :
    Except Fault Zval :=
  schema.orderedFields.foldlM (populateField schema.schemaName) decoded

/-- A `zend_string` in memory: its bytes, the terminating NUL behind them, and an
    address range of user space, away from the unmapped first page and from the top. -/
structure Buffer where
  memory : Memory
  base : Nat
  bytes : Bytes
  holds : window memory base (base + bytes.length) = bytes
  terminated : memory (base + bytes.length) = 0
  low : 256 ≤ base
  high : base + bytes.length + 8 < 2 ^ 64

/-- The string `bytes` at address `base` of an otherwise zeroed memory. -/
def Buffer.place (base : Nat) (bytes : Bytes) (low : 256 ≤ base)
    (high : base + bytes.length + 8 < 2 ^ 64) : Buffer where
  memory address := if base ≤ address then bytes.getD (address - base) 0 else 0
  base := base
  bytes := bytes
  holds := by
    have hslice : ∀ (rest before : Bytes), before ++ rest = bytes →
        slice (fun address => if base ≤ address then bytes.getD (address - base) 0 else 0)
          (base + before.length) rest.length = rest := by
      intro rest
      induction rest with
      | nil => intro before _; rfl
      | cons byte rest ih =>
        intro before hsplit
        have hnext := ih (before ++ [byte]) (by simpa using hsplit)
        rw [List.length_append, List.length_singleton, ← Nat.add_assoc] at hnext
        rw [List.length_cons, slice, hnext, ← hsplit]
        simp
    have hwindow := hslice bytes [] rfl
    rw [window, Nat.add_sub_cancel_left]
    exact hwindow
  terminated := by simp
  low := low
  high := high

/-- A string at some address. -/
def Buffer.placed (bytes : Bytes) (short : bytes.length < 2 ^ 32) : Buffer :=
  .place 4096 bytes (by decide) (by omega)

def Buffer.stop (buffer : Buffer) : Nat := buffer.base + buffer.bytes.length

theorem Buffer.base_le_stop (buffer : Buffer) : buffer.base ≤ buffer.stop := Nat.le_add_right _ _

theorem Buffer.stop_high (buffer : Buffer) : buffer.stop + 8 < 2 ^ 64 := buffer.high

/-- A budget for all the bytes is one for what is left of them. -/
theorem Buffer.left_le (buffer : Buffer) {fuel p : Nat} (hfuel : buffer.bytes.length ≤ fuel)
    (hp : buffer.base ≤ p) : buffer.stop - p ≤ fuel := by
  have hstop : buffer.stop = buffer.base + buffer.bytes.length := rfl
  omega

/-- `quicpro_iibin_decode` on values: the decoded value, and the exception that line 337
    throws without giving up when bytes remain. What of the value is still there when the
    function returns is up to `quicproIibinDecodeTracked`. -/
def quicproIibinDecode (wire : WireContext) (fuel : Nat) (schemaName : Bytes) (buffer : Buffer) :
    Except Fault (Zval × Option IibinError) :=
  match getCompiledIibinSchemaInternal wire.registry schemaName with
  | none => .error (.exception (.decodeSchemaNotDefined (cstr schemaName)))
  | some schema => do
      let ctx : DecodeContext := ⟨wire, buffer.memory, fuel⟩
      let (ptr, decoded) ← decodeMessageInternal ctx wire.registry.schemas.length buffer.base
        buffer.stop schema wire.emptyResult
      let warning := if ptr = buffer.stop then none
        else some (.bytesRemain schema.schemaName (buffer.stop - ptr))
      let result ← populateDefaultValuesAndCheckRequired schema decoded
      .ok (result, warning)

end QuicproAsync.Iibin

import QuicproAsync.IibinSchema

/-!
# `iibin_encoding.c`: from PHP values to bytes

Each function returns the bytes it appends to the `smart_str`; a failure discards the
buffer. `encode_message_internal` and `encode_single_field_value` call each other; the
depth of that recursion is bounded by an explicit budget, which the registry
invariants later show to be sufficient.
-/

namespace QuicproAsync.Iibin

open Php

/-- The varint of `(tag << 3) | wire_type`, computed in 32 bits. -/
def fieldKey (tag wireType : BitVec 32) : BitVec 64 := ((tag <<< 3) ||| wireType).setWidth 64

/-- A varint length followed by the bytes themselves. -/
def lengthPrefixed (content : Bytes) : Bytes :=
  encodeVarint (BitVec.ofNat 64 content.length) ++ content

/-- The first switch of `encode_single_field_value`: strict type checks. -/
def checkValueType (field : FieldDef) (value : Zval) : Except Fault Unit :=
  match field.type with
  | .int32 | .uint32 | .sint32 | .int64 | .uint64 | .sint64 | .fixed32 | .sfixed32 | .fixed64
  | .sfixed64 =>
    match value with
    | .long _ => .ok ()
    | _ => .error (.exception (.expectsInteger field.nameInPhp value.typeName))
  | .float | .double =>
    match value with
    | .double _ => .ok ()
    | .long _ => .ok ()
    | _ => .error (.exception (.expectsNumber field.nameInPhp value.typeName))
  | .bool =>
    match value with
    | .bool _ => .ok ()
    | _ => .error (.exception (.expectsBoolean field.nameInPhp value.typeName))
  | _ => .ok ()

section

variable (host : Host) (registry : Registry)

def enumNumber (field : FieldDef) (value : Zval) : Except Fault (BitVec 32) :=
  match value with
  | .long n => .ok (n.setWidth 32)
  | .string name =>
    let enumName := field.enumTypeNameIfEnum.getD []
    match getCompiledIibinEnumInternal registry enumName with
    | none => .error (.exception (.encodeEnumNotDefined enumName field.nameInPhp))
    | some enumDef =>
      match enumDef.valuesByName.lookup name with
      | none => .error (.exception (.enumValueUnknown (cstr name) enumName field.nameInPhp))
      | some valueDef => .ok valueDef.number
  | _ => .error (.exception (.enumExpects field.nameInPhp value.typeName))

/-- The recursive call for a nested message. -/
abbrev MessageEncoder := CompiledSchema → Zval → Except Fault Bytes

/-- The `IIBIN_INTERNAL_TYPE_MESSAGE` case. -/
def encodeNested (encodeMessage : MessageEncoder) (field : FieldDef) (value : Zval) :
    Except Fault Bytes :=
  match value with
  | .array _ | .object _ =>
    let schemaName := field.messageTypeNameIfNested.getD []
    match getCompiledIibinSchemaInternal registry schemaName with
    | none => .error (.exception (.encodeNestedNotDefined schemaName field.nameInPhp))
    | some nestedSchema => do
        let nested ← encodeMessage nestedSchema value
        .ok (lengthPrefixed nested)
  | _ => .error (.exception (.expectsMessage field.nameInPhp value.typeName))

/-- The second switch of `encode_single_field_value`. -/
def encodeValue (encodeMessage : MessageEncoder) (field : FieldDef) (value : Zval) :
    Except Fault Bytes :=
  match field.type with
  | .int32 | .int64 | .uint32 | .uint64 => .ok (encodeVarint value.lval)
  | .sint32 =>
    .ok (encodeVarint ((zigzagEncode32 (value.lval.setWidth 32)).setWidth 64))
  | .sint64 => .ok (encodeVarint (zigzagEncode64 value.lval))
  | .bool => .ok (encodeVarint (match value with | .bool true => 1 | _ => 0))
  | .enum => do
      let number ← enumNumber registry field value
      .ok (encodeVarint (number.signExtend 64))
  | .float => .ok (encodeFixed32 (host.doubleToFloat (zvalGetDouble host value)))
  | .fixed32 | .sfixed32 => .ok (encodeFixed32 (value.lval.setWidth 32))
  | .double => .ok (encodeFixed64 (zvalGetDouble host value))
  | .fixed64 | .sfixed64 => .ok (encodeFixed64 value.lval)
  | .string | .bytes =>
    match value with
    | .string s => .ok (lengthPrefixed s)
    | _ => .error (.exception (.expectsString field.nameInPhp value.typeName))
  | .message => encodeNested registry encodeMessage field value
  | .unknown => .error (.exception (.encodeUnknownType field.type.code field.nameInPhp))

def encodeSingleFieldValue (encodeMessage : MessageEncoder) (field : FieldDef) (value : Zval) :
    Except Fault Bytes := do
  checkValueType field value
  let payload ← encodeValue host registry encodeMessage field value
  .ok (encodeVarint (fieldKey field.tag field.wireType) ++ payload)

/-- One item of a packed block; the conversions of PHP replace the type checks. -/
def encodePackedItem (type : FieldType) (item : Zval) : Bytes :=
  match type with
  | .int32 | .int64 | .uint32 | .uint64 | .bool | .enum => encodeVarint (zvalGetLong host item)
  | .sint32 =>
    encodeVarint ((zigzagEncode32 ((zvalGetLong host item).setWidth 32)).setWidth 64)
  | .sint64 => encodeVarint (zigzagEncode64 (zvalGetLong host item))
  | .fixed32 | .sfixed32 => encodeFixed32 ((zvalGetLong host item).setWidth 32)
  | .float => encodeFixed32 (host.doubleToFloat (zvalGetDouble host item))
  | .fixed64 | .sfixed64 => encodeFixed64 (zvalGetLong host item)
  | .double => encodeFixed64 (zvalGetDouble host item)
  | _ => []

def encodePackedRepeatedField (field : FieldDef) (table : HashTable) : Bytes :=
  let packed := table.flatMap fun entry => encodePackedItem host field.type entry.2
  if packed.isEmpty then []
  else encodeVarint (fieldKey field.tag wiretypeLengthDelim) ++ lengthPrefixed packed

/-- The unpacked branch of `encode_field_internal`. -/
def encodeItems (encodeMessage : MessageEncoder) (field : FieldDef) :
    HashTable → Except Fault Bytes
  | [] => .ok []
  | entry :: rest => do
      let first ← encodeSingleFieldValue host registry encodeMessage field entry.2
      let others ← encodeItems encodeMessage field rest
      .ok (first ++ others)

def encodeFieldInternal (encodeMessage : MessageEncoder) (field : FieldDef) (value : Option Zval) :
    Except Fault Bytes :=
  match value with
  | none =>
    if field.flags.required then
      .error (.exception (.requiredMissing field.nameInPhp field.tag))
    else .ok []
  | some value =>
    if value.isNullish then
      if field.flags.required then
        .error (.exception (.requiredMissing field.nameInPhp field.tag))
      else .ok []
    else if field.flags.repeated then
      match value with
      | .array table =>
        if table.isEmpty then .ok []
        else if field.flags.packed then .ok (encodePackedRepeatedField host field table)
        else encodeItems host registry encodeMessage field table
      | _ => .error (.exception (.repeatedExpectsArray field.nameInPhp value.typeName))
    else encodeSingleFieldValue host registry encodeMessage field value

/-- `zend_hash_find` for an array, `zend_read_property` for an object (which answers
    null for a property that does not exist). -/
def readMember (data : Zval) (name : Bytes) : Option Zval :=
  match data with
  | .array entries => entries.lookup (.str name)
  | .object props => some ((props.lookup (.str name)).getD .null)
  | _ => none

def encodeFields (encodeMessage : MessageEncoder) (data : Zval) :
    List FieldDef → Except Fault Bytes
  | [] => .ok []
  | field :: rest => do
      let first ← encodeFieldInternal host registry encodeMessage field
        (readMember data field.nameInPhp)
      let others ← encodeFields encodeMessage data rest
      .ok (first ++ others)

def encodeMessageInternal : (depth : Nat) → CompiledSchema → Zval → Except Fault Bytes
  | 0, _, _ => .error .depth
  | depth + 1, schema, data =>
    match data with
    | .array _ | .object _ =>
      encodeFields host registry (encodeMessageInternal depth) data schema.orderedFields
    | _ => .error (.exception (.dataNotMessage schema.schemaName))

/-- `quicpro_iibin_encode`, with one level of nesting for each registered schema. -/
def quicproIibinEncode (schemaName : Bytes) (data : Zval) : Except Fault Bytes :=
  match getCompiledIibinSchemaInternal registry schemaName with
  | none => .error (.exception (.encodeSchemaNotDefined (cstr schemaName)))
  | some schema => encodeMessageInternal host registry registry.schemas.length schema data

end

end QuicproAsync.Iibin

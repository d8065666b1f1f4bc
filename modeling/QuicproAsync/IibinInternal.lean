import QuicproAsync.PhpValue
import QuicproAsync.ScanLoop

/-!
# `iibin_internal.h`: compiled definitions and wire primitives

The header still says `quicpro_proto_*` and `PROTO_*` where the `.c` files say
`quicpro_iibin_*` and `IIBIN_*`; the two spellings name the same things. Pointers are
64-bit addresses and pointer addition wraps, as the bound tests of the decoder need.
-/

namespace QuicproAsync.Iibin

open Php

/-! ### Wire types and field types -/

def wiretypeVarint : BitVec 32 := 0
def wiretypeFixed64 : BitVec 32 := 1
def wiretypeLengthDelim : BitVec 32 := 2
def wiretypeFixed32 : BitVec 32 := 5

inductive FieldType where
  | unknown
  | double
  | float
  | int64
  | uint64
  | int32
  | uint32
  | sint32
  | sint64
  | fixed64
  | sfixed64
  | fixed32
  | sfixed32
  | bool
  | string
  | bytes
  | message
  | enum
deriving DecidableEq, Repr

/-- The value of the C enumerator. -/
def FieldType.code : FieldType → Nat
  | .unknown => 0
  | .double => 1
  | .float => 2
  | .int64 => 3
  | .uint64 => 4
  | .int32 => 5
  | .uint32 => 6
  | .sint32 => 7
  | .sint64 => 8
  | .fixed64 => 9
  | .sfixed64 => 10
  | .fixed32 => 11
  | .sfixed32 => 12
  | .bool => 13
  | .string => 14
  | .bytes => 15
  | .message => 16
  | .enum => 17

/-- The bits of `flags`. -/
structure FieldFlags where
  optional : Bool := false
  required : Bool := false
  repeated : Bool := false
  packed : Bool := false
deriving DecidableEq, Repr

/-- `quicpro_iibin_field_def_internal`. Names are C strings; an absent pointer is
    `none`, an absent default is `Zval.undef`. -/
structure FieldDef where
  nameInPhp : Bytes
  tag : BitVec 32
  type : FieldType
  flags : FieldFlags
  jsonName : Option Bytes
  isDeprecated : Bool
  messageTypeNameIfNested : Option Bytes
  enumTypeNameIfEnum : Option Bytes
  defaultValueZval : Zval
  wireType : BitVec 32

/-- `quicpro_iibin_compiled_schema_internal`, without the by-name table, which is
    filled and destroyed but never read. -/
structure CompiledSchema where
  schemaName : Bytes
  fieldsByTag : List (BitVec 32 × FieldDef)
  orderedFields : List FieldDef

structure EnumValueDef where
  name : Bytes
  number : BitVec 32
deriving DecidableEq, Repr

structure CompiledEnum where
  enumName : Bytes
  valuesByName : List (Bytes × EnumValueDef)
  namesByValue : List (BitVec 64 × Bytes)

/-! ### Failures -/

/-- The messages passed to `throw_iibin_error_as_php_exception`, one constructor for
    each call site (call sites that share a format share a constructor). -/
inductive IibinError where
  | invalidTag (schema field : Bytes)
  | invalidType (schema field : Bytes)
  | unparseableType (schema field type : Bytes)
  | referencedNameMissing
  | unresolvedType (schema field type : Bytes)
  | noWireType (schema field : Bytes)
  | defaultNotInEnum (schema field value enum : Bytes)
  | registriesNotInitialized
  | enumNameTaken (name : Bytes)
  | enumInvalid (enum : Bytes)
  | enumDuplicateName (enum name : Bytes)
  | enumDuplicateNumber (enum : Bytes) (number : BitVec 32)
  | enumNotAdded (enum : Bytes)
  | schemaNameTaken (name : Bytes)
  | schemaInvalidField (schema : Bytes)
  | schemaDuplicateTag (schema : Bytes) (tag : BitVec 32)
  | schemaNotAdded (schema : Bytes)
  | expectsInteger (field type : Bytes)
  | expectsNumber (field type : Bytes)
  | expectsBoolean (field type : Bytes)
  | encodeEnumNotDefined (enum field : Bytes)
  | enumValueUnknown (value enum field : Bytes)
  | enumExpects (field type : Bytes)
  | expectsString (field type : Bytes)
  | expectsMessage (field type : Bytes)
  | encodeNestedNotDefined (schema field : Bytes)
  | encodeUnknownType (type : Nat) (field : Bytes)
  | requiredMissing (field : Bytes) (tag : BitVec 32)
  | repeatedExpectsArray (field type : Bytes)
  | dataNotMessage (schema : Bytes)
  | encodeSchemaNotDefined (schema : Bytes)
  | wireTypeMismatch (owner field : Bytes) (tag expected actual : BitVec 32)
  | decodeNestedNotDefined (schema field : Bytes)
  | malformedKey (schema : Bytes)
  | skipFailed (tag : BitVec 32) (schema : Bytes)
  | packedTooLong
  | requiredNotFound (field : Bytes) (tag : BitVec 32) (schema : Bytes)
  | decodeSchemaNotDefined (schema : Bytes)
  | bytesRemain (schema : Bytes) (count : Nat)
deriving DecidableEq, Repr

private def decimal (n : Int) : Bytes := ascii (toString n)

private def unsigned (n : BitVec 32) : Bytes := decimal n.toNat

def IibinError.message : IibinError → Bytes
  | .invalidTag schema field =>
    ascii "Schema '" ++ schema ++ ascii "': Field '" ++ field ++
      ascii "' has invalid or missing 'tag'."
  | .invalidType schema field =>
    ascii "Schema '" ++ schema ++ ascii "': Field '" ++ field ++
      ascii "' has invalid or missing 'type' string."
  | .unparseableType schema field type =>
    ascii "Schema '" ++ schema ++ ascii "': Field '" ++ field ++
      ascii "' has unparseable 'type': " ++ type ++ ascii "."
  | .referencedNameMissing =>
    ascii "Internal error: referenced type name missing for unknown type."
  | .unresolvedType schema field type =>
    ascii "Schema '" ++ schema ++ ascii "': Field '" ++ field ++ ascii "' type '" ++ type ++
      ascii "' is not a primitive, defined message, or defined enum."
  | .noWireType schema field =>
    ascii "Schema '" ++ schema ++ ascii "': Field '" ++ field ++
      ascii "' - could not determine wire type."
  | .defaultNotInEnum schema field value enum =>
    ascii "Schema '" ++ schema ++ ascii "': Field '" ++ field ++
      ascii "' - default enum value name '" ++ value ++ ascii "' not found in enum '" ++ enum ++
      ascii "'."
  | .registriesNotInitialized => ascii "IIBIN registries not initialized."
  | .enumNameTaken name =>
    ascii "Enum or Schema name '" ++ name ++ ascii "' already defined."
  | .enumInvalid enum => ascii "Enum '" ++ enum ++ ascii "': Invalid definition."
  | .enumDuplicateName enum name =>
    ascii "Enum '" ++ enum ++ ascii "': Duplicate name '" ++ name ++ ascii "'."
  | .enumDuplicateNumber enum number =>
    ascii "Enum '" ++ enum ++ ascii "': Duplicate number " ++ decimal number.toInt ++ ascii "."
  | .enumNotAdded enum => ascii "Failed to add enum '" ++ enum ++ ascii "' to registry."
  | .schemaNameTaken name =>
    ascii "Schema or Enum name '" ++ name ++ ascii "' already defined."
  | .schemaInvalidField schema =>
    ascii "Schema '" ++ schema ++ ascii "': Invalid field definition."
  | .schemaDuplicateTag schema tag =>
    ascii "Schema '" ++ schema ++ ascii "': Duplicate tag " ++ unsigned tag ++ ascii "."
  | .schemaNotAdded schema =>
    ascii "Failed to add schema '" ++ schema ++ ascii "' to registry."
  | .expectsInteger field type =>
    ascii "Encoding failed: Field '" ++ field ++ ascii "' expects an integer, but got " ++ type ++
      ascii "."
  | .expectsNumber field type =>
    ascii "Encoding failed: Field '" ++ field ++
      ascii "' expects a float or integer, but got " ++ type ++ ascii "."
  | .expectsBoolean field type =>
    ascii "Encoding failed: Field '" ++ field ++ ascii "' expects a boolean, but got " ++ type ++
      ascii "."
  | .encodeEnumNotDefined enum field =>
    ascii "Encoding failed: Enum type '" ++ enum ++ ascii "' for field '" ++ field ++
      ascii "' is not defined."
  | .enumValueUnknown value enum field =>
    ascii "Encoding failed: Enum value name '" ++ value ++
      ascii "' is not a valid member of enum '" ++ enum ++ ascii "' for field '" ++ field ++
      ascii "'."
  | .enumExpects field type =>
    ascii "Encoding failed: Enum field '" ++ field ++
      ascii "' expects an integer or string, but got " ++ type ++ ascii "."
  | .expectsString field type =>
    ascii "Encoding failed: Field '" ++ field ++ ascii "' expects a string, but got " ++ type ++
      ascii "."
  | .expectsMessage field type =>
    ascii "Encoding failed: Nested message field '" ++ field ++
      ascii "' expects an array or object, but got " ++ type ++ ascii "."
  | .encodeNestedNotDefined schema field =>
    ascii "Encoding failed: Nested schema '" ++ schema ++ ascii "' for field '" ++ field ++
      ascii "' is not defined."
  | .encodeUnknownType type field =>
    ascii "Encoding failed: unknown type " ++ decimal type ++ ascii " for field '" ++ field ++
      ascii "'."
  | .requiredMissing field tag =>
    ascii "Encoding failed: Required field '" ++ field ++ ascii "' (tag " ++ unsigned tag ++
      ascii ") is missing or null."
  | .repeatedExpectsArray field type =>
    ascii "Encoding failed: Field '" ++ field ++
      ascii "' is repeated and requires a PHP array, but got " ++ type ++ ascii "."
  | .dataNotMessage schema =>
    ascii "Data for message type '" ++ schema ++ ascii "' must be an array or object."
  | .encodeSchemaNotDefined schema =>
    ascii "Schema '" ++ schema ++ ascii "' not defined for encoding."
  | .wireTypeMismatch owner field tag expected actual =>
    ascii "Schema '" ++ owner ++ ascii "': Wire type mismatch for field '" ++ field ++
      ascii "' (tag " ++ unsigned tag ++ ascii "). Expected wire type " ++ unsigned expected ++
      ascii ", but got " ++ unsigned actual ++ ascii " on the wire."
  | .decodeNestedNotDefined schema field =>
    ascii "Decoding error: schema '" ++ schema ++ ascii "' for nested field '" ++ field ++
      ascii "' not defined."
  | .malformedKey schema =>
    ascii "Decoding error: malformed tag/wire_type varint in schema '" ++ schema ++ ascii "'."
  | .skipFailed tag schema =>
    ascii "Decoding error: failed to skip unknown field with tag " ++ unsigned tag ++
      ascii " in schema '" ++ schema ++ ascii "'."
  | .packedTooLong => ascii "Decoding error: packed field length exceeds buffer size."
  | .requiredNotFound field tag schema =>
    ascii "Decoding error: Required field '" ++ field ++ ascii "' (tag " ++ unsigned tag ++
      ascii ") not found in payload for schema '" ++ schema ++ ascii "'."
  | .decodeSchemaNotDefined schema =>
    ascii "Schema '" ++ schema ++ ascii "' not defined for decoding."
  | .bytesRemain schema count =>
    ascii "Decoding warning: Not all bytes were consumed for schema '" ++ schema ++
      ascii "'. " ++ decimal count ++ ascii " bytes remain."

/-- Why a function of the module does not return `SUCCESS`. The first two are the
    `FAILURE` of the source; the others are not returns at all: reading a value that is
    not an array through `Z_ARRVAL_P`, and the two budgets of the model (nesting depth
    and loop iterations) being used up. -/
inductive Fault where
  | exception (error : IibinError)
  | silent
  | confusion
  | depth
  | fuel
deriving DecidableEq, Repr

/-! ### Encoding primitives -/

def encodeVarintLoop : Nat → BitVec 64 → Bytes
  | 0, _ => []
  | iterations + 1, value =>
    let byte : Byte := (value &&& 0x7F#64).setWidth 8
    let value := value >>> 7
    if 0 < value then (byte ||| 0x80#8) :: encodeVarintLoop iterations value
    else [byte]

/-- `quicpro_iibin_encode_varint`: the bytes appended to the buffer. -/
def encodeVarint (value : BitVec 64) : Bytes := encodeVarintLoop 10 value

def encodeFixed32 (value : BitVec 32) : Bytes :=
  [value.setWidth 8, (value >>> 8).setWidth 8, (value >>> 16).setWidth 8,
    (value >>> 24).setWidth 8]

def encodeFixed64 (value : BitVec 64) : Bytes :=
  [value.setWidth 8, (value >>> 8).setWidth 8, (value >>> 16).setWidth 8,
    (value >>> 24).setWidth 8, (value >>> 32).setWidth 8, (value >>> 40).setWidth 8,
    (value >>> 48).setWidth 8, (value >>> 56).setWidth 8]

def zigzagEncode32 (n : BitVec 32) : BitVec 32 := (n <<< 1) ^^^ n.sshiftRight 31

def zigzagDecode32 (n : BitVec 32) : BitVec 32 := (n >>> 1) ^^^ -(n &&& 1)

def zigzagEncode64 (n : BitVec 64) : BitVec 64 := (n <<< 1) ^^^ n.sshiftRight 63

def zigzagDecode64 (n : BitVec 64) : BitVec 64 := (n >>> 1) ^^^ -(n &&& 1)

/-! ### Decoding primitives -/

abbrev Memory := Nat → Byte

/-- Pointer addition: 64-bit wrapping address arithmetic. -/
def ptrAdd (ptr : Nat) (count : Nat) : Nat := (ptr + count) % 2 ^ 64

def decodeVarintLoop (memory : Memory) (bufEnd : Nat) :
    Nat → Nat → Nat → BitVec 64 → Option (BitVec 64 × Nat)
  | 0, _, _, _ => none
  | iterations + 1, ptr, shift, result =>
    if bufEnd ≤ ptr then none
    else
      let byte := memory ptr
      let ptr := ptrAdd ptr 1
      let result := result ||| ((byte &&& 0x7F#8).setWidth 64 <<< shift)
      if byte &&& 0x80#8 = 0 then some (result, ptr)
      else decodeVarintLoop memory bufEnd iterations ptr (shift + 7) result

/-- `quicpro_iibin_decode_varint`: the value and the advanced pointer. -/
def decodeVarint (memory : Memory) (ptr bufEnd : Nat) : Option (BitVec 64 × Nat) :=
  decodeVarintLoop memory bufEnd 10 ptr 0 0

def joinFixed32 (b0 b1 b2 b3 : Byte) : BitVec 32 :=
  b0.setWidth 32 ||| (b1.setWidth 32 <<< 8) ||| (b2.setWidth 32 <<< 16) ||| (b3.setWidth 32 <<< 24)

def decodeFixed32 (memory : Memory) (ptr bufEnd : Nat) : Option (BitVec 32 × Nat) :=
  if bufEnd < ptrAdd ptr 4 then none
  else some (joinFixed32 (memory ptr) (memory (ptr + 1)) (memory (ptr + 2)) (memory (ptr + 3)),
    ptrAdd ptr 4)

def joinFixed64 (b0 b1 b2 b3 b4 b5 b6 b7 : Byte) : BitVec 64 :=
  b0.setWidth 64 ||| (b1.setWidth 64 <<< 8) ||| (b2.setWidth 64 <<< 16) |||
    (b3.setWidth 64 <<< 24) ||| (b4.setWidth 64 <<< 32) ||| (b5.setWidth 64 <<< 40) |||
    (b6.setWidth 64 <<< 48) ||| (b7.setWidth 64 <<< 56)

def decodeFixed64 (memory : Memory) (ptr bufEnd : Nat) : Option (BitVec 64 × Nat) :=
  if bufEnd < ptrAdd ptr 8 then none
  else some (joinFixed64 (memory ptr) (memory (ptr + 1)) (memory (ptr + 2)) (memory (ptr + 3))
    (memory (ptr + 4)) (memory (ptr + 5)) (memory (ptr + 6)) (memory (ptr + 7)), ptrAdd ptr 8)

end QuicproAsync.Iibin

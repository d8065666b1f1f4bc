import Mathlib.Data.List.Sort
import QuicproAsync.IibinInternal

/-!
# `iibin_schema.c`: defining schemas and enums

The two global registries, the parsing of one field definition, and the functions
`quicpro_iibin_define_enum` and `quicpro_iibin_define_schema`. Both registries are
insertion-ordered tables; a call that fails leaves them as they were. Freeing of
partially built definitions is not modelled.
-/

namespace QuicproAsync.Iibin

open Php

/-! ### Registries -/

structure Registry where
  schemas : List (Bytes × CompiledSchema)
  enums : List (Bytes × CompiledEnum)
  initialized : Bool

/-- The state after `quicpro_iibin_registries_init`. -/
def Registry.init : Registry := ⟨[], [], true⟩

/-- `get_compiled_iibin_schema_internal`: the name is measured with `strlen`. -/
def getCompiledIibinSchemaInternal (registry : Registry) (name : Bytes) :
    Option CompiledSchema :=
  if registry.initialized then registry.schemas.lookup (cstr name) else none

/-- The schema is found under the name. -/
abbrev Registry.Has (registry : Registry) (name : Bytes) (schema : CompiledSchema) : Prop :=
  getCompiledIibinSchemaInternal registry name = some schema

def getCompiledIibinEnumInternal (registry : Registry) (name : Bytes) : Option CompiledEnum :=
  if registry.initialized then registry.enums.lookup (cstr name) else none

/-! ### Parsing one field -/

/-- The names compared in `parse_php_field_type_details`, in the order of the tests. -/
def primitiveNames : List (Bytes × FieldType) :=
  [ (ascii "double", .double), (ascii "float", .float), (ascii "int64", .int64),
    (ascii "uint64", .uint64), (ascii "int32", .int32), (ascii "uint32", .uint32),
    (ascii "sint32", .sint32), (ascii "sint64", .sint64), (ascii "fixed64", .fixed64),
    (ascii "sfixed64", .sfixed64), (ascii "fixed32", .fixed32), (ascii "sfixed32", .sfixed32),
    (ascii "bool", .bool), (ascii "string", .string), (ascii "bytes", .bytes) ]

/-- Base type, repeated flag and referenced type name of a type string. Each test
    compares only as many characters as the type string has left. -/
def parsePhpFieldTypeDetails (typeStr : Bytes) : Option (FieldType × Bool × Option Bytes) :=
  if typeStr.isEmpty then none
  else
    let isRepeated := strncmpEq 9 typeStr (ascii "repeated_")
    let typeStrVal := if isRepeated then typeStr.drop 9 else typeStr
    if isRepeated && typeStrVal.isEmpty then none
    else
      match primitiveNames.find? fun entry => strncmpEq typeStrVal.length typeStrVal entry.1 with
      | some (_, type) => some (type, isRepeated, none)
      | none => some (.unknown, isRepeated, some (cstr typeStrVal))

def calculateFieldWireType (type : FieldType) (isPackedRepeatedField : Bool) : BitVec 32 :=
  if isPackedRepeatedField then wiretypeLengthDelim
  else
    match type with
    | .int32 | .uint32 | .sint32 | .int64 | .uint64 | .sint64 | .bool | .enum => wiretypeVarint
    | .fixed64 | .sfixed64 | .double => wiretypeFixed64
    | .string | .bytes | .message => wiretypeLengthDelim
    | .fixed32 | .sfixed32 | .float => wiretypeFixed32
    | .unknown => -1

def isPackable (type : FieldType) : Bool :=
  (FieldType.double.code ≤ type.code && type.code ≤ FieldType.bool.code) || type = .enum

def option (options : HashTable) (name : String) : Option Zval :=
  options.lookup (.str (ascii name))

/-- The option is present and true. -/
def optionIsTrue (options : HashTable) (name : String) : Bool :=
  match option options name with
  | some value => zendIsTrue value
  | none => false

def parseTag (schemaName fieldName : Bytes) (options : HashTable) : Except Fault (BitVec 32) :=
  match option options "tag" with
  | some (.long n) =>
    if n.toInt ≤ 0 then .error (.exception (.invalidTag schemaName fieldName))
    else .ok (n.setWidth 32)
  | _ => .error (.exception (.invalidTag schemaName fieldName))

def parseType (schemaName fieldName : Bytes) (options : HashTable) :
    Except Fault (FieldType × Bool × Option Bytes) :=
  match option options "type" with
  | some (.string typeStr) =>
    match parsePhpFieldTypeDetails typeStr with
    | some details => .ok details
    | none => .error (.exception (.unparseableType schemaName fieldName (cstr typeStr)))
  | _ => .error (.exception (.invalidType schemaName fieldName))

/-- A name that is not a primitive is a registered schema or, failing that, a
    registered enum. -/
def resolveType (registry : Registry) (schemaName fieldName : Bytes) :
    FieldType → Option Bytes → Except Fault (FieldType × Option Bytes × Option Bytes)
  | .unknown, none => .error (.exception .referencedNameMissing)
  | .unknown, some name =>
    if (getCompiledIibinSchemaInternal registry name).isSome then .ok (.message, some name, none)
    else if (getCompiledIibinEnumInternal registry name).isSome then
      .ok (.enum, none, some name)
    else .error (.exception (.unresolvedType schemaName fieldName name))
  | type, _ => .ok (type, none, none)

def usePacked (isRepeated : Bool) (type : FieldType) (options : HashTable) : Bool :=
  isRepeated && isPackable type &&
    match option options "packed" with
    | some value => zendIsTrue value
    | none => true

/-- The default of a field; the name of an enum value is replaced by its number. -/
def parseDefault (registry : Registry) (schemaName fieldName : Bytes) (options : HashTable)
    (type : FieldType) (enumName : Option Bytes) : Except Fault Zval :=
  match option options "default" with
  | none => .ok .undef
  | some value =>
    match type, value with
    | .enum, .string name =>
      match getCompiledIibinEnumInternal registry (enumName.getD []) with
      | none => .error .confusion
      | some enumDef =>
        match enumDef.valuesByName.lookup name with
        | none =>
          .error (.exception
            (.defaultNotInEnum schemaName fieldName (cstr name) (cstr enumDef.enumName)))
        | some valueDef => .ok (.long (valueDef.number.signExtend 64))
    | _, _ => .ok value

def parseJsonName (options : HashTable) : Option Bytes :=
  match option options "json_name" with
  | some (.string name) => some (cstr name)
  | _ => none

/-- `parse_php_field_options`, on a field name that has already become a C string. -/
def parsePhpFieldOptions (registry : Registry) (schemaName fieldName : Bytes)
    (options : HashTable) : Except Fault FieldDef := do
  let tag ← parseTag schemaName fieldName options
  let (baseType, isRepeated, referenced) ← parseType schemaName fieldName options
  let (type, messageName, enumName) ← resolveType registry schemaName fieldName baseType referenced
  let required := optionIsTrue options "required"
  let packed := usePacked isRepeated type options
  let wireType := calculateFieldWireType type packed
  if wireType = -1 then
    .error (.exception (.noWireType schemaName fieldName))
  else do
    let default ← parseDefault registry schemaName fieldName options type enumName
    .ok
      { nameInPhp := fieldName
        tag := tag
        type := type
        flags := ⟨!required, required, isRepeated, packed⟩
        jsonName := parseJsonName options
        isDeprecated := optionIsTrue options "deprecated"
        messageTypeNameIfNested := messageName
        enumTypeNameIfEnum := enumName
        defaultValueZval := default
        wireType := wireType }

/-! ### `quicpro_iibin_define_enum` -/

/-- One entry of the enum table; the value definitions built so far are the state. -/
def addEnumValue (enumName : Bytes) (built : CompiledEnum) (entry : Key × Zval) :
    Except Fault CompiledEnum :=
  match entry with
  | (.str name, .long n) =>
    let number := n.setWidth 32
    if (built.valuesByName.lookup name).isSome then
      .error (.exception (.enumDuplicateName enumName (cstr name)))
    else if (built.namesByValue.lookup (number.signExtend 64)).isSome then
      -- line 352 reads the number for this text from `val_def` after freeing it, so that what
      -- the text says is not determined; `number` is what `val_def` held
      .error (.exception (.enumDuplicateNumber enumName number))
    else
      .ok { built with
        valuesByName := built.valuesByName ++ [(name, ⟨name, number⟩)]
        namesByValue := built.namesByValue ++ [(number.signExtend 64, cstr name)] }
  | _ => .error (.exception (.enumInvalid enumName))

def quicproIibinDefineEnum (registry : Registry) (enumName : Bytes) (enumValues : PhpArray) :
    Except Fault Registry :=
  if !registry.initialized then .error (.exception .registriesNotInitialized)
  else if (getCompiledIibinSchemaInternal registry enumName).isSome ||
      (getCompiledIibinEnumInternal registry enumName).isSome then
    .error (.exception (.enumNameTaken (cstr enumName)))
  else do
    let enumDef ← enumValues.entries.foldlM (addEnumValue (cstr enumName)) ⟨enumName, [], []⟩
    -- `zend_hash_str_add_ptr` takes the whole name and refuses a key that exists
    if (registry.enums.lookup enumName).isSome then
      .error (.exception (.enumNotAdded (cstr enumName)))
    else .ok { registry with enums := registry.enums ++ [(enumName, enumDef)] }

/-! ### `quicpro_iibin_define_schema` -/

/-- One field of the schema array: the fields by tag and in order of definition. -/
def addSchemaField (registry : Registry) (schemaName : Bytes)
    (built : List (BitVec 32 × FieldDef) × List FieldDef) (entry : Key × Zval) :
    Except Fault (List (BitVec 32 × FieldDef) × List FieldDef) :=
  match entry with
  | (.str name, .array options) => do
      let fieldDef ← parsePhpFieldOptions registry schemaName (cstr name) options
      if (built.1.lookup fieldDef.tag).isSome then
        .error (.exception (.schemaDuplicateTag schemaName fieldDef.tag))
      else .ok (built.1 ++ [(fieldDef.tag, fieldDef)], built.2 ++ [fieldDef])
  | _ => .error (.exception (.schemaInvalidField schemaName))

/-- `compare_field_defs_by_tag`, as the order `qsort` is to establish. -/
def tagLe (left right : FieldDef) : Prop := left.tag.toNat ≤ right.tag.toNat

instance : DecidableRel tagLe := fun left right =>
  inferInstanceAs (Decidable (left.tag.toNat ≤ right.tag.toNat))

def compileSchema (registry : Registry) (schemaName : Bytes) (fields : HashTable) :
    Except Fault CompiledSchema := do
  let built ← fields.foldlM (addSchemaField registry (cstr schemaName)) ([], [])
  .ok
    { schemaName := cstr schemaName
      fieldsByTag := built.1
      orderedFields := built.2.insertionSort tagLe }

def quicproIibinDefineSchema (registry : Registry) (schemaName : Bytes)
    (schemaDefinition : PhpArray) : Except Fault Registry :=
  if !registry.initialized then .error (.exception .registriesNotInitialized)
  else if (getCompiledIibinSchemaInternal registry schemaName).isSome ||
      (getCompiledIibinEnumInternal registry schemaName).isSome then
    .error (.exception (.schemaNameTaken (cstr schemaName)))
  else do
    let schema ← compileSchema registry schemaName schemaDefinition.entries
    if (registry.schemas.lookup schemaName).isSome then
      .error (.exception (.schemaNotAdded (cstr schemaName)))
    else .ok { registry with schemas := registry.schemas ++ [(schemaName, schema)] }

/-! ### Runs of definition calls -/

inductive Call where
  | defineEnum (name : Bytes) (values : PhpArray)
  | defineSchema (name : Bytes) (definition : PhpArray)

def Call.run (registry : Registry) : Call → Except Fault Registry
  | .defineEnum name values => quicproIibinDefineEnum registry name values
  | .defineSchema name definition => quicproIibinDefineSchema registry name definition

/-- The registries after a call; a failed call changes nothing. -/
def Call.apply (registry : Registry) (call : Call) : Registry :=
  match call.run registry with
  | .ok registry' => registry'
  | .error _ => registry

/-- The names a call introduces: the name itself and the string keys of its array. -/
def Call.names : Call → List Bytes
  | .defineEnum name values => name :: values.stringKeys
  | .defineSchema name definition => name :: definition.stringKeys

/-- The registry states reached from the empty registries by calls all of whose names
    satisfy `ok`. -/
inductive Reachable (ok : Bytes → Prop) : Registry → Prop where
  | init : Reachable ok Registry.init
  | call {registry : Registry} (call : Call) (hnames : ∀ name ∈ call.names, ok name)
      (hprev : Reachable ok registry) : Reachable ok (call.apply registry)

end QuicproAsync.Iibin

import QuicproAsync.IibinPrimitives

/-!
# Keys and what the encoder writes for a field

Every non-empty output of `encode_field_internal` begins with the key of the field.
The decoder reads that key back as the declared tag exactly if the tag is below 2^29:
definition only checks that it is positive, the cast to `uint32_t` and the shift in
32 bits then lose what lies above.
-/

namespace QuicproAsync.Iibin

open Php Fallible ScanLoop

/-! ### The output of `encode_field_internal` -/

/-- The wire type of the keys that the encoder writes for a field. -/
def writtenWireType (field : FieldDef) : BitVec 32 :=
  if field.flags.packed then wiretypeLengthDelim else field.wireType

def writtenKey (field : FieldDef) : BitVec 64 := fieldKey field.tag (writtenWireType field)

theorem calculateFieldWireType_lt {type : FieldType} (hknown : type ≠ .unknown) (packed : Bool) :
    (calculateFieldWireType type packed).toNat < 8 := by
  cases packed with
  | true =>
    show wiretypeLengthDelim.toNat < 8
    decide
  | false =>
    revert hknown
    cases type <;> decide

variable {registry : Registry} {field : FieldDef}

theorem FieldDef.WellTyped.writtenWireType_eq (htyped : field.WellTyped registry) :
    writtenWireType field = field.wireType := by
  unfold writtenWireType
  split
  · rename_i hpacked
    rw [htyped.wire, hpacked]
    rfl
  · rfl

theorem FieldDef.WellTyped.writtenWireType_lt (htyped : field.WellTyped registry) :
    (writtenWireType field).toNat < 8 := by
  rw [htyped.writtenWireType_eq, htyped.wire]
  exact calculateFieldWireType_lt htyped.known _

section

variable {host : Host} {registry : Registry} {encodeMessage : MessageEncoder} {field : FieldDef}

theorem encodeSingleFieldValue_ok {value : Zval} {bytes : Bytes}
    (hok : encodeSingleFieldValue host registry encodeMessage field value = .ok bytes) :
    checkValueType field value = .ok () ∧
      ∃ payload, encodeValue host registry encodeMessage field value = .ok payload ∧
        bytes = encodeVarint (fieldKey field.tag field.wireType) ++ payload := by
  obtain ⟨_, hcheck, hok⟩ := bind_eq_ok.mp hok
  obtain ⟨payload, hpayload, hok⟩ := bind_eq_ok.mp hok
  cases hok
  exact ⟨hcheck, payload, hpayload, rfl⟩

/-- Everything `encode_field_internal` can write. -/
theorem encodeFieldInternal_cases {value : Option Zval} {bytes : Bytes}
    (hok : encodeFieldInternal host registry encodeMessage field value = .ok bytes) :
    ((∀ given, value = some given → given.isNullish = true) ∧ field.flags.required = false ∧
      bytes = []) ∨
    (∃ given, value = some given ∧ given.isNullish = false ∧ field.flags.repeated = false ∧
      encodeSingleFieldValue host registry encodeMessage field given = .ok bytes) ∨
    (value = some (.array []) ∧ field.flags.repeated = true ∧ bytes = []) ∨
    (∃ table, value = some (.array table) ∧ table ≠ [] ∧ field.flags.repeated = true ∧
      field.flags.packed = true ∧ bytes = encodePackedRepeatedField host field table) ∨
    (∃ table, value = some (.array table) ∧ table ≠ [] ∧ field.flags.repeated = true ∧
      field.flags.packed = false ∧
      encodeItems host registry encodeMessage field table = .ok bytes) := by
  have hmissing : ∀ {bytes : Bytes}, (if field.flags.required = true then
      .error (.exception (.requiredMissing field.nameInPhp field.tag)) else .ok []) =
        (.ok bytes : Except Fault Bytes) → field.flags.required = false ∧ bytes = [] := by
    intro bytes hok
    split at hok
    · cases hok
    · rename_i hrequired
      cases hok
      exact ⟨Bool.not_eq_true _ ▸ hrequired, rfl⟩
  unfold encodeFieldInternal at hok
  split at hok
  · exact .inl ⟨by simp, hmissing hok⟩
  · rename_i given
    split at hok
    · rename_i hnullish
      exact .inl ⟨fun _ heq => by cases heq; exact hnullish, hmissing hok⟩
    · rename_i hnullish
      split at hok
      · rename_i hrepeated
        split at hok
        · rename_i table
          split at hok
          · rename_i hempty
            cases hok
            rw [List.isEmpty_iff.mp hempty]
            exact .inr (.inr (.inl ⟨rfl, hrepeated, rfl⟩))
          · rename_i hnonempty
            have hne : table ≠ [] := by simpa using hnonempty
            split at hok
            · rename_i hpacked
              cases hok
              exact .inr (.inr (.inr (.inl ⟨table, rfl, hne, hrepeated, hpacked, rfl⟩)))
            · rename_i hpacked
              exact .inr (.inr (.inr (.inr
                ⟨table, rfl, hne, hrepeated, by simpa using hpacked, hok⟩)))
        · cases hok
      · rename_i hrepeated
        exact .inr (.inl ⟨given, rfl, by simpa using hnullish, by simpa using hrepeated, hok⟩)

theorem encodeFieldInternal_key (htyped : field.WellTyped registry) {value : Option Zval}
    {bytes : Bytes} (hok : encodeFieldInternal host registry encodeMessage field value = .ok bytes)
    (hbytes : bytes ≠ []) : ∃ rest, bytes = encodeVarint (writtenKey field) ++ rest := by
  have hsingle : ∀ {value bytes},
      encodeSingleFieldValue host registry encodeMessage field value = .ok bytes →
        ∃ rest, bytes = encodeVarint (writtenKey field) ++ rest := by
    intro value bytes hok
    obtain ⟨-, payload, -, rfl⟩ := encodeSingleFieldValue_ok hok
    rw [writtenKey, htyped.writtenWireType_eq]
    exact ⟨payload, rfl⟩
  rcases encodeFieldInternal_cases hok with ⟨-, -, rfl⟩ | ⟨given, -, -, -, hgiven⟩ | ⟨-, -, rfl⟩ |
    ⟨table, -, -, -, hpacked, rfl⟩ | ⟨table, -, hne, -, -, hitems⟩
  · exact absurd rfl hbytes
  · exact hsingle hgiven
  · exact absurd rfl hbytes
  · unfold encodePackedRepeatedField at hbytes ⊢
    simp only at hbytes ⊢
    split at hbytes
    · exact absurd rfl hbytes
    · rename_i hnonempty
      rw [if_neg hnonempty, writtenKey, writtenWireType, if_pos hpacked]
      exact ⟨_, rfl⟩
  · cases table with
    | nil => exact absurd rfl hne
    | cons entry tail =>
      obtain ⟨first, hfirst, hitems⟩ := bind_eq_ok.mp hitems
      obtain ⟨others, -, hitems⟩ := bind_eq_ok.mp hitems
      cases hitems
      obtain ⟨rest, rfl⟩ := hsingle hfirst
      exact ⟨rest ++ others, by rw [List.append_assoc]⟩

/-- A value that the encoder accepts for a field of the type. -/
def sampleValue : FieldType → Zval
  | .bool => .bool false
  | .string | .bytes => .string []
  | .message => .array []
  | _ => .long 0

theorem checkValueType_sampleValue (field : FieldDef) :
    checkValueType field (sampleValue field.type) = .ok () := by
  unfold checkValueType sampleValue
  cases field.type <;> rfl

theorem encodeValue_sampleValue (host : Host) (htyped : field.WellTyped registry) :
    ∃ payload, payload.length ≤ 10 ∧ encodeValue host registry (fun _ _ => .ok []) field
      (sampleValue field.type) = .ok payload := by
  have hvarint := encodeVarint_length_le
  have hempty : (lengthPrefixed []).length ≤ 10 := by decide
  unfold encodeValue
  cases htype : field.type
  case unknown => exact absurd htype htyped.known
  case message =>
    obtain ⟨name, schema, hname, -, hfound⟩ := htyped.nested htype
    refine ⟨lengthPrefixed [], hempty, ?_⟩
    simp only [sampleValue, encodeNested, hname, Option.getD_some, hfound, bind, Except.bind]
  all_goals first
    | exact ⟨_, hvarint _, rfl⟩
    | exact ⟨lengthPrefixed [], hempty, rfl⟩
    | exact ⟨_, (by simp [encodeFixed32, encodeFixed64]), rfl⟩

theorem encodePackedItem_ne_nil (host : Host) {type : FieldType}
    (hpackable : isPackable type = true) (item : Zval) : encodePackedItem host type item ≠ [] := by
  revert hpackable
  cases type <;>
    simp [encodePackedItem, isPackable, FieldType.code, encodeVarint_ne_nil, encodeFixed32,
      encodeFixed64]

theorem encodePackedItem_length_le (host : Host) (type : FieldType) (item : Zval) :
    (encodePackedItem host type item).length ≤ 10 := by
  cases type <;> simp [encodePackedItem, encodeVarint_length_le, encodeFixed32, encodeFixed64]

/-- A packed field with at least one item is one block. -/
theorem encodePackedRepeatedField_eq (host : Host) (hpackable : isPackable field.type = true)
    {table : HashTable} (htable : table ≠ []) :
    encodePackedRepeatedField host field table =
      encodeVarint (fieldKey field.tag wiretypeLengthDelim) ++
        lengthPrefixed (table.flatMap fun entry => encodePackedItem host field.type entry.2) := by
  cases table with
  | nil => exact absurd rfl htable
  | cons entry rest =>
    have hitem := encodePackedItem_ne_nil host hpackable entry.2
    rw [encodePackedRepeatedField]
    simp [hitem]

/-- For every field there is something short that the encoder writes. -/
theorem exists_encodeFieldInternal (host : Host) (htyped : field.WellTyped registry) :
    ∃ value bytes, bytes ≠ [] ∧ bytes.length ≤ 30 ∧
      encodeFieldInternal host registry (fun _ _ => .ok []) field (some value) = .ok bytes := by
  have hkey := encodeVarint_length_le (fieldKey field.tag field.wireType)
  obtain ⟨payload, hshort, hvalue⟩ := encodeValue_sampleValue host htyped
  have hsample : (sampleValue field.type).isNullish = false := by
    cases field.type <;> rfl
  have hsingle : encodeSingleFieldValue host registry (fun _ _ => .ok []) field
      (sampleValue field.type) =
        .ok (encodeVarint (fieldKey field.tag field.wireType) ++ payload) := by
    simp only [encodeSingleFieldValue, checkValueType_sampleValue, hvalue, bind, Except.bind]
  by_cases hrepeated : field.flags.repeated = true
  · by_cases hpacked : field.flags.packed = true
    · have hitem := encodePackedItem_ne_nil host (htyped.packed hpacked).2 (.long 0)
      have hlength := encodePackedItem_length_le host field.type (.long 0)
      have hprefix := encodeVarint_length_le (BitVec.ofNat 64
        (encodePackedItem host field.type (.long 0)).length)
      have hblock := encodePackedRepeatedField_eq host (htyped.packed hpacked).2
        (List.cons_ne_nil (Key.idx 0, Zval.long 0) [])
      have hkey := encodeVarint_length_le (fieldKey field.tag wiretypeLengthDelim)
      refine ⟨.array [(.idx 0, .long 0)],
        encodePackedRepeatedField host field [(.idx 0, .long 0)], ?_, ?_, ?_⟩
      · rw [hblock]
        simp [encodeVarint_ne_nil]
      · rw [hblock, lengthPrefixed]
        simp only [List.flatMap_cons, List.flatMap_nil, List.append_nil, List.length_append]
        omega
      · simp [encodeFieldInternal, Zval.isNullish, hrepeated, hpacked]
    · refine ⟨.array [(.idx 0, sampleValue field.type)],
        encodeVarint (fieldKey field.tag field.wireType) ++ payload, ?_, ?_, ?_⟩
      · simp [encodeVarint_ne_nil]
      · rw [List.length_append]
        omega
      · simp [encodeFieldInternal, Zval.isNullish, hrepeated, hpacked, encodeItems, hsingle, bind,
          Except.bind]
  · refine ⟨sampleValue field.type, encodeVarint (fieldKey field.tag field.wireType) ++ payload,
      ?_, ?_, ?_⟩
    · simp [encodeVarint_ne_nil]
    · rw [List.length_append]
      omega
    · simp [encodeFieldInternal, hsample, hrepeated, hsingle]

end

/-! ### Reading keys back -/

/-- The key that the decoder reads first from a buffer. -/
def readKey (buffer : Buffer) : Option (BitVec 64) :=
  (decodeVarint buffer.memory buffer.base buffer.stop).map Prod.fst

/-- The buffer holds what the encoder wrote for a value of this field. -/
def Written (registry : Registry) (field : FieldDef) (buffer : Buffer) : Prop :=
  ∃ host encodeMessage value, buffer.bytes ≠ [] ∧
    encodeFieldInternal host registry encodeMessage field (some value) = .ok buffer.bytes

theorem readKey_of_written {buffer : Buffer} (htyped : field.WellTyped registry)
    (hwritten : Written registry field buffer) :
    readKey buffer = some (writtenKey field) := by
  obtain ⟨host, encodeMessage, value, hbytes, hok⟩ := hwritten
  obtain ⟨rest, hrest⟩ := encodeFieldInternal_key htyped hok hbytes
  have hstop : buffer.stop < 2 ^ 64 := by
    have hhigh := buffer.high
    simp only [Buffer.stop]
    omega
  have hread := decodeVarint_agrees buffer.memory hstop buffer.base
  rw [buffer.window_eq, hrest, varint_encodeVarint] at hread
  obtain ⟨q, -, -, -, hdecode⟩ := hread
  rw [readKey, hdecode]
  rfl

/-- The tag that an entry of a schema array declares. -/
def declaredTag (entry : Key × Zval) : Option Int :=
  match entry.2 with
  | .array options =>
    match option options "tag" with
    | some (.long n) => some n.toInt
    | _ => none
  | _ => none

theorem Declares.declaredTag {schemaName : Bytes} {entry : Key × Zval}
    (hdeclares : Declares registry schemaName entry field) :
    ∃ n : BitVec 64, declaredTag entry = some n.toInt ∧ 0 < n.toInt ∧
      field.tag = n.setWidth 32 := by
  obtain ⟨name, options, rfl, hparse⟩ := hdeclares
  obtain ⟨-, ⟨n, hoption, hpositive, htag⟩, -⟩ := parsePhpFieldOptions_ok hparse
  refine ⟨n, ?_, hpositive, htag⟩
  simp only [Iibin.declaredTag, hoption]

/-- Keys identify fields: what the encoder writes for a declared field is read as the
    declared tag and the wire type it used, and found again under that tag; and no two
    fields share a key. -/
structure KeysIdentify (registry : Registry) (schemaName : Bytes) (definition : PhpArray)
    (schema : CompiledSchema) : Prop where
  readBack : ∀ entry ∈ definition.entries, ∀ field ∈ schema.orderedFields,
    Declares registry (cstr schemaName) entry field → ∀ tag, declaredTag entry = some tag →
      ∀ buffer, Written registry field buffer → ∃ key, readKey buffer = some key ∧
        ((keyTag key).toNat : Int) = tag ∧ keyWireType key = writtenWireType field ∧
        schema.fieldsByTag.lookup (keyTag key) = some field
  distinct : ∀ left ∈ schema.orderedFields, ∀ right ∈ schema.orderedFields, left ≠ right →
    ∀ leftBuffer rightBuffer, Written registry left leftBuffer →
      Written registry right rightBuffer →
      readKey leftBuffer ≠ readKey rightBuffer

theorem toNat_of_toInt_pos {n : BitVec 64} (hpositive : 0 < n.toInt) :
    (n.toNat : Int) = n.toInt := by
  rw [BitVec.toInt_eq_toNat_cond] at hpositive ⊢
  split at hpositive
  · rename_i hsmall
    rw [if_pos hsmall]
  · have hlt := n.isLt
    omega

/-- The tag survives the casts of definition and encoding exactly if it is small. -/
theorem keyTag_writtenKey_eq_iff (htyped : field.WellTyped registry) {n : BitVec 64}
    (hpositive : 0 < n.toInt) (htag : field.tag = n.setWidth 32) :
    ((keyTag (writtenKey field)).toNat : Int) = n.toInt ↔ n.toInt < 2 ^ 29 := by
  rw [writtenKey, keyTag_fieldKey_toNat _ htyped.writtenWireType_lt, htag, BitVec.toNat_setWidth,
    ← toNat_of_toInt_pos hpositive]
  omega

theorem keyTag_writtenKey (htyped : field.WellTyped registry) (hsmall : field.tag.toNat < 2 ^ 29) :
    keyTag (writtenKey field) = field.tag :=
  keyTag_fieldKey hsmall htyped.writtenWireType_lt

theorem exists_written (host : Host) (htyped : field.WellTyped registry) :
    ∃ buffer, Written registry field buffer := by
  obtain ⟨value, bytes, hne, hlength, hok⟩ := exists_encodeFieldInternal host htyped
  exact ⟨Buffer.place 4096 bytes (by decide) (by omega), host, _, value, hne, hok⟩

/-- **Keys.** Of a schema that `quicpro_iibin_define_schema` accepts, the keys identify the
    fields exactly if every declared tag is below 2^29. -/
theorem keysIdentify_iff (registry registry' : Registry) (schemaName : Bytes)
    (definition : PhpArray) (schema : CompiledSchema)
    (hdefine : quicproIibinDefineSchema registry schemaName definition = .ok registry')
    (hschema : registry'.schemas.getLast? = some (schemaName, schema)) :
    KeysIdentify registry schemaName definition schema ↔
      ∀ entry ∈ definition.entries, ∀ tag, declaredTag entry = some tag → tag < 2 ^ 29 := by
  obtain ⟨-, -, -, compiled, hcompile, rfl⟩ := quicproIibinDefineSchema_eq_ok.mp hdefine
  rw [List.getLast?_concat, Option.some.injEq, Prod.mk.injEq] at hschema
  obtain ⟨-, rfl⟩ := hschema
  have hformed := compileSchema_wellFormed hcompile
  obtain ⟨built, hbuilt, hcompiled⟩ := compileSchema_ok hcompile
  have hmem : ∀ field, field ∈ compiled.orderedFields ↔ field ∈ built.2 := by
    intro field
    rw [hcompiled]
    exact List.mem_insertionSort tagLe
  constructor
  · intro hkeys entry hentry tag htag
    obtain ⟨field, hfield, hdeclares⟩ := hbuilt.declared_of_mem hentry
    obtain ⟨n, hdeclared, hpositive, hfieldTag⟩ := hdeclares.declaredTag
    rw [htag, Option.some.injEq] at hdeclared
    subst hdeclared
    have htyped := hdeclares.wellTyped
    obtain ⟨buffer, hwritten⟩ := exists_written default htyped
    obtain ⟨key, hread, hback, -, -⟩ := hkeys.readBack entry hentry field ((hmem field).mpr hfield)
      hdeclares n.toInt htag buffer hwritten
    rw [readKey_of_written htyped hwritten, Option.some.injEq] at hread
    subst hread
    exact (keyTag_writtenKey_eq_iff htyped hpositive hfieldTag).mp hback
  · intro hsmall
    have htag : ∀ field ∈ compiled.orderedFields, keyTag (writtenKey field) = field.tag := by
      intro field hfield
      obtain ⟨entry, hentry, hdeclares⟩ := hbuilt.declaring ((hmem field).mp hfield)
      obtain ⟨n, hdeclared, hpositive, hfieldTag⟩ := hdeclares.declaredTag
      have hlt := hsmall entry hentry n.toInt hdeclared
      have hnat := toNat_of_toInt_pos hpositive
      apply keyTag_writtenKey hdeclares.wellTyped
      rw [hfieldTag, BitVec.toNat_setWidth]
      omega
    constructor
    · intro entry hentry field hfield hdeclares tag hdeclared buffer hwritten
      have htyped := hdeclares.wellTyped
      obtain ⟨n, hn, hpositive, hfieldTag⟩ := hdeclares.declaredTag
      rw [hdeclared, Option.some.injEq] at hn
      subst hn
      refine ⟨writtenKey field, readKey_of_written htyped hwritten, ?_, ?_, ?_⟩
      · exact (keyTag_writtenKey_eq_iff htyped hpositive hfieldTag).mpr
          (hsmall entry hentry n.toInt hdeclared)
      · exact keyWireType_fieldKey _ htyped.writtenWireType_lt
      · rw [htag field hfield]
        exact (hformed.byTag field.tag field).mpr ⟨hfield, rfl⟩
    · intro left hleft right hright hne leftBuffer rightBuffer hleftWritten hrightWritten hsame
      rw [readKey_of_written (hformed.fields left hleft) hleftWritten,
        readKey_of_written (hformed.fields right hright) hrightWritten, Option.some.injEq] at hsame
      have htags := congrArg keyTag hsame
      rw [htag left hleft, htag right hright] at htags
      exact hne (hformed.eq_of_tag hleft hright htags)

/-- A schema with the single field `x`. -/
def oneField (options : Zval) : PhpArray where
  entries := [(.str (ascii "x"), options)]
  nodup := List.nodup_singleton _
  canonical := by
    intro key hkey
    rw [List.mem_singleton.mp hkey]
    exact (by decide : (Key.str (ascii "x")).isCanonical = true)

theorem keysIdentify_iff_small :
    ∃ registry' schema,
      quicproIibinDefineSchema Registry.init (ascii "P") (oneField (fieldOptions 7 "int32" [])) =
        .ok registry' ∧
      registry'.schemas.getLast? = some (ascii "P", schema) ∧
      KeysIdentify Registry.init (ascii "P") (oneField (fieldOptions 7 "int32" [])) schema := by
  refine ⟨_, _, rfl, rfl, (keysIdentify_iff _ _ _ _ _ rfl rfl).mpr ?_⟩
  intro entry hentry tag htag
  rw [List.mem_singleton.mp hentry] at htag
  cases htag
  decide

/-- Declared with tag 2^29, the value 5 is written as `00 05`, which is tag 0 to the
    decoder. -/
theorem keys_lost_at_two_pow_29 :
    ∃ registry' schema,
      quicproIibinDefineSchema Registry.init (ascii "P")
        (oneField (fieldOptions 536870912 "int32" [])) = .ok registry' ∧
      registry'.schemas.getLast? = some (ascii "P", schema) ∧
      ¬ KeysIdentify Registry.init (ascii "P") (oneField (fieldOptions 536870912 "int32" []))
        schema := by
  refine ⟨_, _, rfl, rfl, fun hkeys => ?_⟩
  obtain ⟨key, hread, htag, -, -⟩ := hkeys.readBack _ List.mem_cons_self _ List.mem_cons_self
    ⟨_, _, rfl, rfl⟩ 536870912 rfl (Buffer.place 4096 [0x00, 0x05] (by decide) (by decide))
    ⟨default, fun _ _ => .ok [], .long 5, by decide, rfl⟩
  have hzero : readKey (Buffer.place 4096 [0x00, 0x05] (by decide) (by decide)) = some 0 := rfl
  rw [hzero, Option.some.injEq] at hread
  subst hread
  revert htag
  decide

end QuicproAsync.Iibin

import QuicproAsync.IibinDelivery
import QuicproAsync.IibinProgress

/-!
# What arrives

The path of a value from the encoder through the bytes to the decoder, without the
bytes. `sentItems` lists what the encoder puts on the wire for a field, `decodedItem`
what the decoder makes of one item, and `arrive` what a field of the message does to
the array being filled. The main result is that the bytes of an encoded message mean
exactly the sequence of these effects, in the order of the tags; fields that the
decoding schema does not know have no effect.
-/

namespace QuicproAsync.Iibin

open Php Fallible ScanLoop

variable {host : Host} {registry : Registry} {encodeMessage : MessageEncoder} {field : FieldDef}
  {value data : Zval} {bytes : Bytes} {schema : CompiledSchema} {asObject : Bool}

/-! ### One item -/

/-- The number that the strict encoder writes for an enum value; other values go to the
    wire as they are. -/
def numbered (registry : Registry) (field : FieldDef) (value : Zval) : Zval :=
  match field.type with
  | .enum =>
    match enumNumber registry field value with
    | .ok number => .long (number.signExtend 64)
    | .error _ => value
  | _ => value

/-- What an item is to the reader, after it has been written by the packed encoder. -/
def decodedItem (host : Host) (type : FieldType) (item : Zval) : Zval :=
  match type with
  | .int32 | .sint32 | .sfixed32 | .enum =>
    .long (((zvalGetLong host item).setWidth 32).signExtend 64)
  | .fixed32 => .long (((zvalGetLong host item).setWidth 32).setWidth 64)
  | .bool => .bool (zvalGetLong host item ≠ 0)
  | .float => .double (host.floatToDouble (host.doubleToFloat (zvalGetDouble host item)))
  | .double => .double (zvalGetDouble host item)
  | _ => .long (zvalGetLong host item)

theorem layout_ne_delimited_iff {type : FieldType} (hknown : type ≠ .unknown) :
    isPackable type = true ↔ Wire.layout type ≠ some .delimited := by
  revert hknown
  cases type <;> decide

section

/-- On scalar types the strict encoder checks, and then writes as the packed one does. -/
theorem encodeSingleFieldValue_scalar (hpackable : isPackable field.type = true)
    (hok : encodeSingleFieldValue host registry encodeMessage field value = .ok bytes) :
    bytes = encodeVarint (fieldKey field.tag field.wireType) ++
      encodePackedItem host field.type (numbered registry field value) := by
  obtain ⟨hcheck, payload, hpayload, rfl⟩ := encodeSingleFieldValue_ok hok
  congr 1
  unfold checkValueType at hcheck
  unfold encodeValue at hpayload
  unfold numbered encodePackedItem
  cases htype : field.type <;> simp only [htype] at hcheck hpayload hpackable ⊢
  case enum =>
    obtain ⟨number, hnumber, hpayload⟩ := bind_eq_ok.mp hpayload
    cases hpayload
    rw [hnumber]
    rfl
  case bool =>
    rcases value with _ | _ | (_ | _) | _ | _ | _ | _ | _ | _ | _ <;> cases hcheck <;>
      cases hpayload <;> rfl
  case float | double =>
    cases hpayload
    rfl
  case unknown | string | bytes | message => exact absurd hpackable (by decide)
  -- the integer types: the check leaves only `Zval.long`
  all_goals
    cases value <;> cases hcheck
    cases hpayload
    rfl

end

/-- Reading an item back. -/
theorem value_encodePackedItem (ctx : WireContext) (nested : Wire.MessageReader)
    {wireType : BitVec 32} (hwire : wireType = field.wireType ∨ field.flags.packed = true)
    (hpackable : isPackable field.type = true) (item : Zval) (rest : Bytes) :
    Wire.value ctx nested field wireType (encodePackedItem ctx.host field.type item ++ rest) =
      .ok (rest, decodedItem ctx.host field.type item) := by
  have hmatch : ¬ (wireType ≠ field.wireType ∧ field.flags.packed = false) := by
    rintro ⟨hne, hunpacked⟩
    rcases hwire with heq | hpacked
    · exact hne heq
    · rw [hpacked] at hunpacked
      cases hunpacked
  unfold Wire.value
  rw [if_neg hmatch]
  cases htype : field.type <;> simp only [htype] at hpackable ⊢ <;>
    simp only [Wire.layout, encodePackedItem, decodedItem, varint_encodeVarint,
      fixed32_encodeFixed32, fixed64_encodeFixed64, Wire.readOrFail, varintZval, fixed32Zval,
      fixed64Zval, zigzagDecode64_encode]
  case sint32 =>
    rw [BitVec.setWidth_setWidth_of_le _ (by decide), BitVec.setWidth_eq, zigzagDecode32_encode]
  all_goals exact absurd hpackable (by decide)

/-- A nested message is written as the bytes of its schema. -/
theorem encodeNested_content {payload : Bytes}
    (hok : encodeNested registry encodeMessage field value = .ok payload) :
    ∃ schema content, registry.Has (field.messageTypeNameIfNested.getD []) schema ∧
      encodeMessage schema value = .ok content ∧ payload = lengthPrefixed content := by
  unfold encodeNested at hok
  rcases hfound : getCompiledIibinSchemaInternal registry
    (field.messageTypeNameIfNested.getD []) with _ | schema <;> simp only [hfound] at hok
  · split at hok <;> cases hok
  · split at hok
    case h_3 => cases hok
    all_goals
      obtain ⟨content, hcontent, hok⟩ := bind_eq_ok.mp hok
      cases hok
      exact ⟨schema, content, hfound, hcontent, rfl⟩

theorem encodeSingleFieldValue_delimited (hdelimited : Wire.layout field.type = some .delimited)
    (hok : encodeSingleFieldValue host registry encodeMessage field value = .ok bytes) :
    ∃ content, bytes = encodeVarint (fieldKey field.tag field.wireType) ++
      lengthPrefixed content := by
  obtain ⟨-, payload, hpayload, rfl⟩ := encodeSingleFieldValue_ok hok
  suffices hprefixed : ∃ content, payload = lengthPrefixed content by
    obtain ⟨content, rfl⟩ := hprefixed
    exact ⟨content, rfl⟩
  unfold encodeValue at hpayload
  cases htype : field.type <;> simp only [htype] at hdelimited hpayload
  case string | bytes =>
    split at hpayload <;> cases hpayload
    exact ⟨_, rfl⟩
  case message =>
    obtain ⟨-, content, -, -, hcontent⟩ := encodeNested_content hpayload
    exact ⟨content, hcontent⟩
  all_goals exact absurd hdelimited (by decide)

/-! ### Skipping -/

theorem skip_lengthPrefixed (fault : Fault) {content : Bytes} (hlength : content.length < 2 ^ 64)
    (rest : Bytes) :
    Wire.skip fault wiretypeLengthDelim (lengthPrefixed content ++ rest) = .ok rest := by
  unfold Wire.skip
  rw [if_neg (by decide), if_neg (by decide), if_pos rfl, block_lengthPrefixed fault hlength rest]
  rfl

/-- Skipping by the wire type of an item consumes exactly the item. -/
theorem skip_encodePackedItem (fault : Fault) (host : Host) {type : FieldType}
    (hpackable : isPackable type = true) (item : Zval) (rest : Bytes) :
    Wire.skip fault (calculateFieldWireType type false) (encodePackedItem host type item ++ rest) =
      .ok rest := by
  have hvarint : ∀ value, Wire.skip fault wiretypeVarint (encodeVarint value ++ rest) =
      .ok rest := by
    intro value
    unfold Wire.skip
    rw [if_pos rfl, varint_encodeVarint]
  have hfixed32 : ∀ value, Wire.skip fault wiretypeFixed32 (encodeFixed32 value ++ rest) =
      .ok rest := by
    intro value
    unfold Wire.skip
    rw [if_neg (by decide), if_neg (by decide), if_neg (by decide), if_pos rfl,
      if_neg (by simp [encodeFixed32])]
    rfl
  have hfixed64 : ∀ value, Wire.skip fault wiretypeFixed64 (encodeFixed64 value ++ rest) =
      .ok rest := by
    intro value
    unfold Wire.skip
    rw [if_neg (by decide), if_pos rfl, if_neg (by simp [encodeFixed64])]
    rfl
  cases type
  case unknown | string | bytes | message => exact absurd hpackable (by decide)
  case double | fixed64 | sfixed64 => exact hfixed64 _
  case float | fixed32 | sfixed32 => exact hfixed32 _
  all_goals exact hvarint _

/-! ### One field

How the loop of the decoder works off what the encoder wrote for a field. -/

/-- The tag is one that the keys can carry. -/
def FieldDef.SmallTag (field : FieldDef) : Prop := 0 < field.tag.toNat ∧ field.tag.toNat < 2 ^ 29

abbrev CompiledSchema.SmallTags (schema : CompiledSchema) : Prop :=
  ∀ field ∈ schema.orderedFields, field.SmallTag

instance (field : FieldDef) : Decidable field.SmallTag :=
  inferInstanceAs (Decidable (0 < field.tag.toNat ∧ field.tag.toNat < 2 ^ 29))

theorem fieldKey_eq_writtenKey (htyped : field.WellTyped registry) :
    fieldKey field.tag field.wireType = writtenKey field := by
  rw [writtenKey, htyped.writtenWireType_eq]

theorem read_writtenKey (htyped : field.WellTyped registry) (htag : field.SmallTag) :
    keyTag (writtenKey field) = field.tag ∧ keyWireType (writtenKey field) = writtenWireType field ∧
      field.tag ≠ 0 := by
  refine ⟨keyTag_writtenKey htyped htag.2, keyWireType_fieldKey _ htyped.writtenWireType_lt, ?_⟩
  intro hzero
  have hpos := htag.1
  rw [hzero] at hpos
  exact absurd hpos (by decide)

/-- A field with a type and a tag that the encoder can write, and the decoding schema has it. -/
structure FieldDef.Known (field : FieldDef) (registry : Registry) (schema : CompiledSchema) :
    Prop where
  typed : field.WellTyped registry
  small : field.SmallTag
  found : schema.fieldsByTag.lookup field.tag = some field

section

variable (ctx : WireContext) (nested : Wire.MessageReader)

theorem field_unknown (htyped : field.WellTyped registry) (htag : field.SmallTag)
    (hunknown : schema.fieldsByTag.lookup field.tag = none) (bytes : Bytes) (returnZval : Zval) :
    Wire.field ctx nested schema (encodeVarint (writtenKey field) ++ bytes) returnZval =
      (Wire.skip (.exception (.skipFailed field.tag schema.schemaName))
        (writtenWireType field) bytes
        >>= fun rest => .ok (rest, returnZval)) := by
  obtain ⟨hkeyTag, hkeyWire, hzero⟩ := read_writtenKey htyped htag
  simp only [Wire.field, varint_encodeVarint, Wire.fieldBody, hkeyTag, if_neg hzero, hunknown,
    hkeyWire]

/-- The items of a packed block. -/
theorem packedItems_runs (hpacked : field.flags.packed = true)
    (hpackable : isPackable field.type = true) (items : List Zval) :
    Runs .overrun (Wire.packedItem ctx nested field) id
      (items.flatMap (encodePackedItem ctx.host field.type))
      fun sub => Wire.lift ((items.map (decodedItem ctx.host field.type)).foldlM addNextIndexZval
        sub) := by
  induction items with
  | nil => exact Runs.nil
  | cons item rest ih =>
    have hfirst : Runs .overrun (Wire.packedItem ctx nested field) id
        (encodePackedItem ctx.host field.type item)
        fun sub => Wire.lift (addNextIndexZval sub (decodedItem ctx.host field.type item)) := by
      apply Runs.of_step (Wire.packedItem_shrinks ctx nested field)
        (encodePackedItem_ne_nil ctx.host hpackable item)
      intro rest sub
      rw [Wire.packedItem, value_encodePackedItem ctx nested (.inr hpacked) hpackable]
      rfl
    have hboth := hfirst.append ih
    simp only [← Wire.lift_bind] at hboth
    simpa only [List.flatMap_cons, List.map_cons, List.foldlM_cons] using hboth

variable (hfield : field.Known registry schema)

include hfield

theorem field_known (bytes : Bytes) (returnZval : Zval) :
    Wire.field ctx nested schema (encodeVarint (writtenKey field) ++ bytes) returnZval =
      if field.flags.packed = true then Wire.packedBlock ctx nested field bytes returnZval
      else Wire.singleField ctx nested field field.wireType bytes returnZval := by
  obtain ⟨hkeyTag, hkeyWire, hzero⟩ := read_writtenKey hfield.typed hfield.small
  simp only [Wire.field, varint_encodeVarint, Wire.fieldBody, hkeyTag, if_neg hzero, hfield.found,
    hkeyWire]
  by_cases hpacked : field.flags.packed = true
  · rw [if_pos hpacked, if_pos ⟨hpacked, by rw [writtenWireType, if_pos hpacked]⟩]
  · rw [if_neg hpacked, if_neg (fun hboth => hpacked hboth.1), hfield.typed.writtenWireType_eq]

/-- A single scalar value: it is stored. -/
theorem single_step (hpackable : isPackable field.type = true)
    (hunpacked : field.flags.packed = false) (item : Zval) (rest : Bytes) (entries : HashTable) :
    Wire.field ctx nested schema (encodeVarint (writtenKey field) ++
        encodePackedItem ctx.host field.type item ++ rest) (container ctx.decodeAsObject entries) =
      Wire.lift ((deliveries field [decodedItem ctx.host field.type item]).foldlM
        (Delivery.apply ctx.decodeAsObject) entries) >>= fun entries' =>
          .ok (rest, container ctx.decodeAsObject entries') := by
  rw [List.append_assoc, field_known ctx nested hfield, if_neg (by simp [hunpacked]),
    Wire.singleField, value_encodePackedItem ctx nested (.inl rfl) hpackable]
  show (Wire.lift (storeValue field _ (container _ entries)) >>= _) = _
  rw [storeValue_container]
  rcases (deliveries field [decodedItem ctx.host field.type item]).foldlM
    (Delivery.apply ctx.decodeAsObject) entries with fault | stored
  · rfl
  · rfl

/-- A string or nested message: the bound test rejects it. -/
theorem delimited_fails (hreading : ctx.reading = .asWritten)
    (hdelimited : Wire.layout field.type = some .delimited) {content : Bytes}
    (hlength : content.length < 2 ^ 64) (rest : Bytes) (returnZval : Zval) :
    Wire.field ctx nested schema
      (encodeVarint (writtenKey field) ++ lengthPrefixed content ++ rest)
        returnZval = .error (.fault .silent) := by
  have hunpacked : ¬ field.flags.packed = true := fun hpacked =>
    layout_of_isPackable (hfield.typed.packed hpacked).2 hdelimited
  rw [List.append_assoc, field_known ctx nested hfield, if_neg hunpacked, Wire.singleField,
    Wire.value, if_neg (by simp), hdelimited]
  simp only [block_lengthPrefixed _ hlength, Wire.delimitedValue, hreading]
  rfl

/-- A packed block: all its items are appended, if an array is being filled. An object is taken
    for an array. -/
theorem packed_step (hpacked : field.flags.packed = true) {items : List Zval} (hitems : items ≠ [])
    (hlength : (items.flatMap (encodePackedItem ctx.host field.type)).length < 2 ^ 64)
    (rest : Bytes) (entries : HashTable) :
    Wire.field ctx nested schema (encodeVarint (writtenKey field) ++
        lengthPrefixed (items.flatMap (encodePackedItem ctx.host field.type)) ++ rest)
        (container ctx.decodeAsObject entries) =
      Wire.lift (if ctx.decodeAsObject = true then .error .confusion
        else (deliveries field (items.map (decodedItem ctx.host field.type))).foldlM
          (Delivery.apply ctx.decodeAsObject) entries) >>= fun entries' =>
            .ok (rest, container ctx.decodeAsObject entries') := by
  obtain ⟨hrepeated, hpackable⟩ := hfield.typed.packed hpacked
  rw [List.append_assoc, field_known ctx nested hfield, if_pos hpacked, Wire.packedBlock,
    block_lengthPrefixed _ hlength]
  cases ctx.decodeAsObject with
  | true => rfl
  | false =>
    have hdrain := (packedItems_runs ctx nested hpacked hpackable items).drainAll_eq
      (subArray entries field.nameInPhp)
    have hsome : items.map (decodedItem ctx.host field.type) ≠ [] := by simpa using hitems
    rw [deliveries, if_pos hrepeated, if_neg hsome]
    simp only [id_eq] at hdrain
    simp only [bind, Except.bind, Wire.lift, container, Bool.false_eq_true, if_false, returnArray,
      List.foldlM_cons, List.foldlM_nil, Delivery.apply] at hdrain ⊢
    rw [hdrain]
    rcases (items.map (decodedItem ctx.host field.type)).foldlM addNextIndexZval
      (subArray entries field.nameInPhp) with fault | sub
    · rfl
    · rfl

end

/-- The items that the encoder writes for a field, given what the message has under the
    name of the field. -/
def sentItems (registry : Registry) (field : FieldDef) (value : Option Zval) : List Zval :=
  match value with
  | none => []
  | some value =>
    if value.isNullish then []
    else if field.flags.repeated then
      match value with
      | .array table =>
        if field.flags.packed then table.map Prod.snd
        else table.map fun entry => numbered registry field entry.2
      | _ => []
    else [numbered registry field value]

theorem sentItems_nullish {value : Option Zval}
    (hnullish : ∀ given, value = some given → given.isNullish = true) :
    sentItems registry field value = [] := by
  unfold sentItems
  split
  · rfl
  · rw [if_pos (hnullish _ rfl)]

theorem sentItems_singular (registry : Registry) (hvalue : value.isNullish = false)
    (hsingular : field.flags.repeated = false) :
    sentItems registry field (some value) = [numbered registry field value] := by
  unfold sentItems
  simp only [hvalue, hsingular, Bool.false_eq_true, if_false]

theorem sentItems_packed (registry : Registry) (table : HashTable)
    (hrepeated : field.flags.repeated = true) (hpacked : field.flags.packed = true) :
    sentItems registry field (some (.array table)) = table.map Prod.snd := by
  unfold sentItems
  simp only [Zval.isNullish, hrepeated, hpacked, Bool.false_eq_true, if_false, if_true]

theorem sentItems_unpacked (registry : Registry) (table : HashTable)
    (hrepeated : field.flags.repeated = true) (hunpacked : field.flags.packed = false) :
    sentItems registry field (some (.array table)) =
      table.map fun entry => numbered registry field entry.2 := by
  unfold sentItems
  simp only [Zval.isNullish, hrepeated, hunpacked, Bool.false_eq_true, if_false, if_true]

theorem sentItems_empty (registry : Registry) (hrepeated : field.flags.repeated = true) :
    sentItems registry field (some (.array [])) = [] := by
  cases hpacked : field.flags.packed with
  | true => exact sentItems_packed registry [] hrepeated hpacked
  | false => exact sentItems_unpacked registry [] hrepeated hpacked

/-- Why the decoder fails on a non-empty field: strings and messages never pass their
    bound test, and a packed block cannot be added to an object. -/
def FieldDef.rejection (asObject : Bool) (field : FieldDef) : Option Fault :=
  if Wire.layout field.type = some .delimited then some .silent
  else if field.flags.packed && asObject then some .confusion
  else none

/-- What reaches the decoder of the items of a field. -/
def arrivingItems (host : Host) (registry : Registry) (data : Zval) (field : FieldDef) :
    List Zval :=
  (sentItems registry field (readMember data field.nameInPhp)).map (decodedItem host field.type)

/-- What a field of the message does to the result: its items are delivered, or it ends
    the decoding. -/
def arrive (asObject : Bool) (host : Host) (registry : Registry) (data : Zval)
    (entries : HashTable) (field : FieldDef) : Except Fault HashTable :=
  let items := arrivingItems host registry data field
  match field.rejection asObject with
  | some fault => if items = [] then .ok entries else .error fault
  | none => (deliveries field items).foldlM (Delivery.apply asObject) entries

theorem rejection_delimited (asObject : Bool)
    (hdelimited : Wire.layout field.type = some .delimited) :
    field.rejection asObject = some .silent := by
  rw [FieldDef.rejection, if_pos hdelimited]

theorem rejection_packed (hdelimited : Wire.layout field.type ≠ some .delimited)
    (hpacked : field.flags.packed = true) : field.rejection true = some .confusion := by
  rw [FieldDef.rejection, if_neg hdelimited, hpacked]
  rfl

theorem rejection_unpacked (asObject : Bool)
    (hdelimited : Wire.layout field.type ≠ some .delimited)
    (hunpacked : field.flags.packed = false) :
    field.rejection asObject = none := by
  rw [FieldDef.rejection, if_neg hdelimited, hunpacked]
  rfl

theorem rejection_array (hdelimited : Wire.layout field.type ≠ some .delimited) :
    field.rejection false = none := by
  rw [FieldDef.rejection, if_neg hdelimited, Bool.and_false]
  rfl

theorem deliveries_nil (field : FieldDef) : deliveries field [] = [] := by
  simp [deliveries]

theorem arrive_empty (hitems : sentItems registry field (readMember data field.nameInPhp) = [])
    (entries : HashTable) : arrive asObject host registry data entries field = .ok entries := by
  unfold arrive arrivingItems
  rw [hitems, List.map_nil]
  rcases field.rejection asObject with _ | fault
  · simp only [deliveries_nil]
    rfl
  · rfl

theorem arrive_rejected {fault : Fault}
    (hitems : sentItems registry field (readMember data field.nameInPhp) ≠ [])
    (hrejection : field.rejection asObject = some fault) (entries : HashTable) :
    arrive asObject host registry data entries field = .error fault := by
  have hmap : arrivingItems host registry data field ≠ [] := by simpa [arrivingItems] using hitems
  simp only [arrive, hrejection, if_neg hmap]

theorem arrive_delivered (hrejection : field.rejection asObject = none) (entries : HashTable) :
    arrive asObject host registry data entries field =
      (deliveries field (arrivingItems host registry data field)).foldlM
        (Delivery.apply asObject) entries := by
  simp only [arrive, hrejection]

/-- What one item of a field does to the result. -/
def arriveItem (asObject : Bool) (host : Host) (field : FieldDef) (entries : HashTable)
    (item : Zval) : Except Fault HashTable :=
  match field.rejection asObject with
  | some fault => .error fault
  | none => (deliveries field [decodedItem host field.type item]).foldlM
      (Delivery.apply asObject) entries

theorem foldlM_arriveItem (hrejection : field.rejection asObject = none) (host : Host)
    (items : List Zval) (entries : HashTable) :
    items.foldlM (arriveItem asObject host field) entries =
      (deliveries field (items.map (decodedItem host field.type))).foldlM
        (Delivery.apply asObject) entries := by
  induction items generalizing entries with
  | nil =>
    rw [List.map_nil, deliveries_nil]
    rfl
  | cons item rest ih =>
    have hsplit := deliveries_append asObject field [decodedItem host field.type item]
      (rest.map (decodedItem host field.type)) entries
    rw [List.singleton_append] at hsplit
    rw [List.map_cons, hsplit, List.foldlM_cons]
    simp only [arriveItem, hrejection, ih]

/-- The items of a field have their effect one after the other. -/
theorem arrive_eq (asObject : Bool) (host : Host) (registry : Registry) (data : Zval)
    (entries : HashTable) (field : FieldDef) :
    arrive asObject host registry data entries field =
      (sentItems registry field (readMember data field.nameInPhp)).foldlM
        (arriveItem asObject host field) entries := by
  rcases hrejection : field.rejection asObject with _ | fault
  · rw [foldlM_arriveItem hrejection, arrive_delivered hrejection, arrivingItems]
  · rcases hitems : sentItems registry field (readMember data field.nameInPhp) with _ | ⟨item, rest⟩
    · exact arrive_empty hitems entries
    · rw [arrive_rejected (by simp [hitems]) hrejection, List.foldlM_cons, arriveItem, hrejection]
      rfl

/-! ### Occurrences of a field -/

/-- What stands behind the key of the field is skipped as a whole. -/
def Skips (field : FieldDef) (payload : Bytes) : Prop :=
  ∀ fault rest, Wire.skip fault (writtenWireType field) (payload ++ rest) = .ok rest

section

theorem encodeSingleFieldValue_occurrence (htyped : field.WellTyped registry)
    (hunpacked : field.flags.packed = false)
    (hok : encodeSingleFieldValue host registry encodeMessage field value = .ok bytes)
    (hlength : bytes.length < 2 ^ 64) :
    ∃ payload, bytes = encodeVarint (writtenKey field) ++ payload ∧ Skips field payload := by
  have hwire : writtenWireType field = calculateFieldWireType field.type false := by
    rw [htyped.writtenWireType_eq, htyped.wire, hunpacked]
  rw [← fieldKey_eq_writtenKey htyped]
  by_cases hdelimited : Wire.layout field.type = some .delimited
  · obtain ⟨content, rfl⟩ := encodeSingleFieldValue_delimited hdelimited hok
    have hcontent : content.length < 2 ^ 64 := by
      simp only [lengthPrefixed, List.length_append] at hlength
      omega
    have hdelim : calculateFieldWireType field.type false = wiretypeLengthDelim := by
      revert hdelimited
      cases field.type <;> decide
    refine ⟨_, rfl, fun fault rest => ?_⟩
    rw [hwire, hdelim]
    exact skip_lengthPrefixed fault hcontent rest
  · have hpackable := (layout_ne_delimited_iff htyped.known).mpr hdelimited
    refine ⟨_, encodeSingleFieldValue_scalar hpackable hok, fun fault rest => ?_⟩
    rw [hwire]
    exact skip_encodePackedItem fault host hpackable _ rest

theorem encodeItems_occurrences (htyped : field.WellTyped registry)
    (hunpacked : field.flags.packed = false) {table : HashTable}
    (hok : encodeItems host registry encodeMessage field table = .ok bytes)
    (hlength : bytes.length < 2 ^ 64) :
    ∃ payloads : List Bytes,
      bytes = payloads.flatMap (fun payload => encodeVarint (writtenKey field) ++ payload) ∧
      ∀ payload ∈ payloads, Skips field payload := by
  induction table generalizing bytes with
  | nil =>
    obtain rfl := Except.ok.inj hok
    exact ⟨[], rfl, by simp⟩
  | cons entry rest ih =>
    obtain ⟨first, hfirst, hok⟩ := bind_eq_ok.mp hok
    obtain ⟨others, hothers, hok⟩ := bind_eq_ok.mp hok
    obtain rfl := Except.ok.inj hok
    rw [List.length_append] at hlength
    obtain ⟨payload, rfl, hskips⟩ :=
      encodeSingleFieldValue_occurrence htyped hunpacked hfirst (by omega)
    obtain ⟨payloads, rfl, hall⟩ := ih hothers (by omega)
    exact ⟨payload :: payloads, rfl, List.forall_mem_cons.mpr ⟨hskips, hall⟩⟩

/-- What the encoder writes for a field are occurrences of it, and more than one of them
    only for an unpacked list. -/
theorem encodeFieldInternal_occurrences (htyped : field.WellTyped registry) {value : Option Zval}
    (hok : encodeFieldInternal host registry encodeMessage field value = .ok bytes)
    (hlength : bytes.length < 2 ^ 64) :
    ∃ payloads : List Bytes,
      bytes = payloads.flatMap (fun payload => encodeVarint (writtenKey field) ++ payload) ∧
      (∀ payload ∈ payloads, Skips field payload) ∧
      (1 < payloads.length → field.flags.repeated = true ∧ field.flags.packed = false) := by
  rcases encodeFieldInternal_cases hok with ⟨-, -, rfl⟩ | ⟨given, -, -, hsingular, hgiven⟩ |
    ⟨-, -, rfl⟩ | ⟨table, -, hne, -, hpacked, rfl⟩ | ⟨table, -, -, hrepeated, hunpacked, hitems⟩
  · exact ⟨[], rfl, by simp, by simp⟩
  · obtain ⟨payload, rfl, hskips⟩ := encodeSingleFieldValue_occurrence htyped
      (htyped.unpacked_of_singular hsingular) hgiven hlength
    exact ⟨[payload], by simp, by simpa using hskips, by simp⟩
  · exact ⟨[], rfl, by simp, by simp⟩
  · have hwire : writtenWireType field = wiretypeLengthDelim := by
      rw [writtenWireType, if_pos hpacked]
    rw [encodePackedRepeatedField_eq host (htyped.packed hpacked).2 hne] at hlength ⊢
    simp only [lengthPrefixed, List.length_append] at hlength
    refine ⟨[lengthPrefixed (table.flatMap fun entry => encodePackedItem host field.type entry.2)],
      ?_, ?_, by simp⟩
    · rw [List.flatMap_singleton, writtenKey, hwire]
    · intro payload hpayload fault rest
      rw [List.mem_singleton.mp hpayload, hwire]
      exact skip_lengthPrefixed fault (by omega) rest
  · obtain ⟨payloads, rfl, hskips⟩ := encodeItems_occurrences htyped hunpacked hitems hlength
    exact ⟨payloads, rfl, hskips, fun _ => ⟨hrepeated, hunpacked⟩⟩

end

/-- A list that was written as one block: a key and the items. -/
theorem encodePackedRepeatedField_block (host : Host) (htyped : field.WellTyped registry)
    (hpacked : field.flags.packed = true) {table : HashTable} (hne : table ≠ []) :
    encodePackedRepeatedField host field table = encodeVarint (writtenKey field) ++
      lengthPrefixed ((table.map Prod.snd).flatMap (encodePackedItem host field.type)) := by
  rw [encodePackedRepeatedField_eq host (htyped.packed hpacked).2 hne, writtenKey, writtenWireType,
    if_pos hpacked, List.flatMap_map]

theorem length_le_lengthPrefixed (content : Bytes) :
    content.length ≤ (lengthPrefixed content).length := by
  rw [lengthPrefixed, List.length_append]
  exact Nat.le_add_left _ _

/-! ### What the encoder writes, as seen by a decoder

The cases of `encode_field_internal` and the loops around it are gone through once, for any loop
that works off the bytes. What is to be known of the loop is what it does to one value behind its
key and to one packed block. -/

section

variable {ε σ τ : Type} {stuck : ε} {step : Bytes → τ → Except ε (Bytes × τ)} {embed : σ → τ}

/-- The loop works off the occurrences of a field item by item, if they are shorter than `bound`. -/
structure Occurs (stuck : ε) (step : Bytes → τ → Except ε (Bytes × τ)) (embed : σ → τ)
    (host : Host) (registry : Registry) (encodeMessage : MessageEncoder) (bound : Nat)
    (field : FieldDef) (effect : σ → Zval → Except ε σ) : Prop where
  typed : field.WellTyped registry
  value : field.flags.packed = false → ∀ value bytes,
    encodeSingleFieldValue host registry encodeMessage field value = .ok bytes →
    bytes.length < bound →
    Runs stuck step embed bytes fun s => effect s (numbered registry field value)
  block : field.flags.packed = true → ∀ items : List Zval, items ≠ [] →
    (items.flatMap (encodePackedItem host field.type)).length < bound →
    Runs stuck step embed (encodeVarint (writtenKey field) ++
      lengthPrefixed (items.flatMap (encodePackedItem host field.type))) (items.foldlM effect)

variable {bound : Nat} {effect : σ → Zval → Except ε σ}

/-- The values of an unpacked list, one after the other. -/
theorem Occurs.items
    (hoccurs : Occurs stuck step embed host registry encodeMessage bound field effect)
    (hunpacked : field.flags.packed = false) {table : HashTable}
    (hok : encodeItems host registry encodeMessage field table = .ok bytes)
    (hlength : bytes.length < bound) :
    Runs stuck step embed bytes
      ((table.map fun entry => numbered registry field entry.2).foldlM effect) := by
  induction table generalizing bytes with
  | nil =>
    obtain rfl := Except.ok.inj hok
    exact Runs.nil
  | cons entry rest ih =>
    obtain ⟨first, hfirst, hok⟩ := bind_eq_ok.mp hok
    obtain ⟨others, hothers, hok⟩ := bind_eq_ok.mp hok
    obtain rfl := Except.ok.inj hok
    rw [List.length_append] at hlength
    simp only [List.map_cons, List.foldlM_cons]
    exact (hoccurs.value hunpacked _ _ hfirst (by omega)).append (ih hothers (by omega))

/-- **A field** is worked off item by item. -/
theorem Occurs.runs
    (hoccurs : Occurs stuck step embed host registry encodeMessage bound field effect)
    {value : Option Zval}
    (hok : encodeFieldInternal host registry encodeMessage field value = .ok bytes)
    (hlength : bytes.length < bound) :
    Runs stuck step embed bytes ((sentItems registry field value).foldlM effect) := by
  have htyped := hoccurs.typed
  rcases encodeFieldInternal_cases hok with ⟨hnullish, -, rfl⟩ |
    ⟨given, rfl, hgiven, hsingular, hsingle⟩ | ⟨rfl, hrepeated, rfl⟩ |
    ⟨table, rfl, hne, hrepeated, hpacked, rfl⟩ | ⟨table, rfl, -, hrepeated, hunpacked, hitems⟩
  · rw [sentItems_nullish hnullish]
    exact Runs.nil
  · rw [sentItems_singular registry hgiven hsingular]
    simpa only [List.foldlM_cons, List.foldlM_nil, bind_pure] using
      hoccurs.value (htyped.unpacked_of_singular hsingular) given bytes hsingle hlength
  · rw [sentItems_empty registry hrepeated]
    exact Runs.nil
  · rw [encodePackedRepeatedField_block host htyped hpacked hne] at hlength ⊢
    rw [sentItems_packed registry table hrepeated hpacked]
    have hless := length_le_lengthPrefixed
      ((table.map Prod.snd).flatMap (encodePackedItem host field.type))
    rw [List.length_append] at hlength
    exact hoccurs.block hpacked _ (by simpa using hne) (by omega)
  · rw [sentItems_unpacked registry table hrepeated hunpacked]
    exact hoccurs.items hunpacked hitems hlength

/-- **The fields of a message** are worked off one after the other. -/
theorem encodeFields_runs {effect : FieldDef → σ → Zval → Except ε σ} {fields : List FieldDef}
    (hoccur : ∀ field ∈ fields,
      Occurs stuck step embed host registry encodeMessage bound field (effect field))
    (hok : encodeFields host registry encodeMessage data fields = .ok bytes)
    (hlength : bytes.length < bound) :
    Runs stuck step embed bytes (fields.foldlM fun s field =>
      (sentItems registry field (readMember data field.nameInPhp)).foldlM (effect field) s) := by
  induction fields generalizing bytes with
  | nil =>
    obtain rfl := Except.ok.inj hok
    exact Runs.nil
  | cons field rest ih =>
    obtain ⟨first, hfirst, hok⟩ := bind_eq_ok.mp hok
    obtain ⟨others, hothers, hok⟩ := bind_eq_ok.mp hok
    obtain rfl := Except.ok.inj hok
    rw [List.length_append] at hlength
    obtain ⟨hhere, hoccur⟩ := List.forall_mem_cons.mp hoccur
    simp only [List.foldlM_cons]
    exact (hhere.runs hfirst (by omega)).append (ih hoccur hothers (by omega))

end

/-! ### The decoder -/

section

variable (ctx : WireContext) (nested : Wire.MessageReader)

/-- **Unknown fields** are skipped, all of their bytes and nothing more. -/
theorem unknown_occurs (htyped : field.WellTyped registry) (htag : field.SmallTag)
    (hunknown : schema.fieldsByTag.lookup field.tag = none) :
    Occurs .overrun (Wire.field ctx nested schema) (container ctx.decodeAsObject) ctx.host registry
      encodeMessage (2 ^ 64) field fun entries _ => .ok entries := by
  have hskipped : ∀ payload, Skips field payload →
      Runs .overrun (Wire.field ctx nested schema) (container ctx.decodeAsObject)
        (encodeVarint (writtenKey field) ++ payload) .ok := by
    intro payload hskips
    apply Runs.of_step (Wire.field_shrinks ctx nested schema) (by simp [encodeVarint_ne_nil])
    intro rest entries
    rw [List.append_assoc, field_unknown ctx nested htyped htag hunknown, hskips]
    rfl
  refine ⟨htyped, fun hunpacked value bytes hok hlength => ?_, fun hpacked items _ hlength => ?_⟩
  · obtain ⟨payload, rfl, hskips⟩ :=
      encodeSingleFieldValue_occurrence htyped hunpacked hok hlength
    exact hskipped payload hskips
  · rw [show items.foldlM (fun entries _ => .ok entries) = (.ok : HashTable → Wire.Answer _) from
      funext (foldlM_ok items)]
    refine hskipped _ fun fault rest => ?_
    rw [writtenWireType, if_pos hpacked]
    exact skip_lengthPrefixed fault hlength rest

variable (hfield : field.Known registry schema)

include hfield

/-- A value behind its key. -/
theorem value_step (hreading : ctx.reading = .asWritten) (hunpacked : field.flags.packed = false)
    (hok : encodeSingleFieldValue ctx.host registry encodeMessage field value = .ok bytes)
    (hlength : bytes.length < 2 ^ 64) :
    ∃ payload, bytes = encodeVarint (writtenKey field) ++ payload ∧ ∀ rest entries,
      Wire.field ctx nested schema (bytes ++ rest) (container ctx.decodeAsObject entries) =
        Wire.lift (arriveItem ctx.decodeAsObject ctx.host field entries
          (numbered registry field value)) >>= fun entries' =>
            .ok (rest, container ctx.decodeAsObject entries') := by
  rw [← fieldKey_eq_writtenKey hfield.typed]
  by_cases hdelimited : Wire.layout field.type = some .delimited
  · obtain ⟨content, rfl⟩ := encodeSingleFieldValue_delimited hdelimited hok
    have hless := length_le_lengthPrefixed content
    rw [List.length_append] at hlength
    refine ⟨_, rfl, fun rest entries => ?_⟩
    rw [fieldKey_eq_writtenKey hfield.typed,
      delimited_fails ctx nested hfield hreading hdelimited (by omega), arriveItem,
      rejection_delimited _ hdelimited]
    rfl
  · have hpackable := (layout_ne_delimited_iff hfield.typed.known).mpr hdelimited
    refine ⟨_, encodeSingleFieldValue_scalar hpackable hok, fun rest entries => ?_⟩
    rw [encodeSingleFieldValue_scalar hpackable hok, fieldKey_eq_writtenKey hfield.typed,
      single_step ctx nested hfield hpackable hunpacked, arriveItem,
      rejection_unpacked _ hdelimited hunpacked]

/-- A packed block behind its key. -/
theorem block_step (hpacked : field.flags.packed = true) {items : List Zval} (hitems : items ≠ [])
    (hlength : (items.flatMap (encodePackedItem ctx.host field.type)).length < 2 ^ 64)
    (rest : Bytes) (entries : HashTable) :
    Wire.field ctx nested schema (encodeVarint (writtenKey field) ++
        lengthPrefixed (items.flatMap (encodePackedItem ctx.host field.type)) ++ rest)
        (container ctx.decodeAsObject entries) =
      Wire.lift (items.foldlM (arriveItem ctx.decodeAsObject ctx.host field) entries) >>=
        fun entries' => .ok (rest, container ctx.decodeAsObject entries') := by
  have hdelimited := layout_of_isPackable (hfield.typed.packed hpacked).2
  rw [packed_step ctx nested hfield hpacked hitems hlength]
  cases ctx.decodeAsObject with
  | false =>
    rw [if_neg Bool.false_ne_true, foldlM_arriveItem (rejection_array hdelimited)]
  | true =>
    obtain ⟨item, others, rfl⟩ := List.exists_cons_of_ne_nil hitems
    rw [if_pos rfl, List.foldlM_cons, arriveItem, rejection_packed hdelimited hpacked]
    rfl

/-- **Known fields** have their effect. -/
theorem known_occurs (hreading : ctx.reading = .asWritten) :
    Occurs .overrun (Wire.field ctx nested schema) (container ctx.decodeAsObject) ctx.host registry
      encodeMessage (2 ^ 64) field fun entries item =>
        Wire.lift (arriveItem ctx.decodeAsObject ctx.host field entries item) := by
  refine ⟨hfield.typed, fun hunpacked value bytes hok hlength => ?_,
    fun hpacked items hitems hlength => ?_⟩
  · obtain ⟨payload, hbytes, hstep⟩ := value_step ctx nested hfield hreading hunpacked hok hlength
    exact Runs.of_step (Wire.field_shrinks ctx nested schema)
      (by simp [hbytes, encodeVarint_ne_nil]) hstep
  · rw [show items.foldlM (fun entries item => Wire.lift (arriveItem ctx.decodeAsObject ctx.host
      field entries item)) = fun entries => Wire.lift (items.foldlM
        (arriveItem ctx.decodeAsObject ctx.host field) entries) from
      funext fun entries => (Wire.lift_foldlM _ _ _).symm]
    exact Runs.of_step (Wire.field_shrinks ctx nested schema) (by simp [encodeVarint_ne_nil])
      (block_step ctx nested hfield hpacked hitems hlength)

end

/-- The only values that `encode_message_internal` takes. -/
def isMessage : Zval → Bool
  | .array _ => true
  | .object _ => true
  | _ => false

section

variable {schemaName : Bytes}

theorem quicproIibinEncode_eq (hfound : registry.Has schemaName schema) {depth : Nat}
    (hdepth : registry.schemas.length = depth + 1) (hmessage : isMessage data = true) :
    quicproIibinEncode host registry schemaName data =
      encodeFields host registry (encodeMessageInternal host registry depth) data
        schema.orderedFields := by
  simp only [quicproIibinEncode, hfound, hdepth]
  cases data <;> first | rfl | cases hmessage

theorem quicproIibinEncode_ok (hfound : registry.Has schemaName schema)
    (hok : quicproIibinEncode host registry schemaName data = .ok bytes) :
    ∃ depth, registry.schemas.length = depth + 1 ∧ isMessage data = true ∧
      encodeFields host registry (encodeMessageInternal host registry depth) data
        schema.orderedFields = .ok bytes := by
  simp only [quicproIibinEncode, hfound] at hok
  rcases hlength : registry.schemas.length with _ | depth
  · rw [hlength] at hok
    cases hok
  · rw [hlength] at hok
    refine ⟨depth, rfl, ?_⟩
    cases data <;> first | exact ⟨rfl, hok⟩ | cases hok

theorem encodeFields_ok {fields : List FieldDef} :
    (∃ bytes, encodeFields host registry encodeMessage data fields = .ok bytes) ↔
      ∀ field ∈ fields, ∃ bytes, encodeFieldInternal host registry encodeMessage field
        (readMember data field.nameInPhp) = .ok bytes := by
  induction fields with
  | nil => simp [encodeFields]
  | cons field rest ih =>
    rw [List.forall_mem_cons, ← ih]
    exact exists_join_eq_ok (· ++ ·)

/-- The meaning of what was encoded is the effect of the fields that the receiving schema
    knows, in the order of their tags. -/
theorem message_encoded {ok : Bytes → Prop} (hreach : Reachable ok registry)
    (hfound : registry.Has schemaName schema) (htags : schema.SmallTags)
    (hok : quicproIibinEncode host registry schemaName data = .ok bytes)
    (hlength : bytes.length < 2 ^ 64) {receiver : CompiledSchema}
    (hshared : ∀ field ∈ schema.orderedFields, ∀ found,
      receiver.fieldsByTag.lookup field.tag = some found → found = field) (asObject : Bool) :
    Wire.message ⟨host, registry, .asWritten, asObject⟩ registry.schemas.length receiver bytes
        (container asObject []) =
      Wire.lift (((schema.orderedFields.filter fun field =>
        (receiver.fieldsByTag.lookup field.tag).isSome).foldlM
          (arrive asObject host registry data) []) >>= fun entries =>
          .ok (container asObject entries)) := by
  obtain ⟨depth, hdepth, -, hfields⟩ := quicproIibinEncode_ok hfound hok
  have hformed := hreach.layered.wellFormed hfound
  have hoccur : ∀ field ∈ schema.orderedFields,
      Occurs .overrun (Wire.field ⟨host, registry, .asWritten, asObject⟩
          (Wire.message ⟨host, registry, .asWritten, asObject⟩ depth) receiver)
        (container asObject) host registry (encodeMessageInternal host registry depth) (2 ^ 64)
        field fun entries item =>
          if (receiver.fieldsByTag.lookup field.tag).isSome = true then
            Wire.lift (arriveItem asObject host field entries item) else .ok entries := by
    intro field hfield
    rcases hlookup : receiver.fieldsByTag.lookup field.tag with _ | found
    · exact unknown_occurs _ _ (hformed.fields field hfield) (htags field hfield) hlookup
    · cases hshared field hfield found hlookup
      exact known_occurs _ _ ⟨hformed.fields field hfield, htags field hfield, hlookup⟩ rfl
  have heffect : ∀ entries field,
      (sentItems registry field (readMember data field.nameInPhp)).foldlM (fun entries item =>
        if (receiver.fieldsByTag.lookup field.tag).isSome = true then
          Wire.lift (arriveItem asObject host field entries item) else .ok entries) entries =
      Wire.lift (if (receiver.fieldsByTag.lookup field.tag).isSome = true then
        arrive asObject host registry data entries field else pure entries) := by
    intro entries field
    split
    · rw [arrive_eq, Wire.lift_foldlM]
    · exact foldlM_ok _ entries
  have hruns := encodeFields_runs hoccur hfields hlength
  simp only [heffect] at hruns
  rw [List.foldlM_filter, hdepth, Wire.message, Wire.lift_bind, Wire.lift_foldlM]
  exact hruns.drainAll_eq []

/-- **From the message to the result.** Decoding what was encoded is the effect of the
    fields that the receiving schema knows, followed by the pass for defaults and required
    fields. -/
theorem quicproIibinDecode_encoded {ok : Bytes → Prop} (hreach : Reachable ok registry)
    (hfound : registry.Has schemaName schema) (htags : schema.SmallTags)
    (hok : quicproIibinEncode host registry schemaName data = .ok bytes) {receiverName : Bytes}
    {receiver : CompiledSchema} (hreceiver : registry.Has receiverName receiver)
    (hshared : ∀ field ∈ schema.orderedFields, ∀ found,
      receiver.fieldsByTag.lookup field.tag = some found → found = field) {buffer : Buffer}
    (hbytes : buffer.bytes = bytes) {fuel : Nat} (hfuel : bytes.length ≤ fuel) (asObject : Bool) :
    quicproIibinDecode ⟨host, registry, .asWritten, asObject⟩ fuel receiverName buffer =
      finish receiver (((schema.orderedFields.filter fun field =>
        (receiver.fieldsByTag.lookup field.tag).isSome).foldlM
          (arrive asObject host registry data) []) >>= fun entries =>
          .ok (container asObject entries)) := by
  subst hbytes
  have hhigh := buffer.high
  apply quicproIibinDecode_eq buffer _ hfuel hreceiver
  exact message_encoded hreach hfound htags hok (by omega) hshared asObject

end

end QuicproAsync.Iibin

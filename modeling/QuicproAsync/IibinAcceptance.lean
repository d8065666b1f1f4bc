import Mathlib.Algebra.Ring.Nat
import Mathlib.Data.List.Perm.Subperm
import QuicproAsync.IibinLifetimes
import QuicproAsync.IibinMerge

/-!
# Accepted byte strings

What can be said of every byte string that the decoder accepts, lengths that wrap
around included: the result is filled by deliveries, each for a field of the schema
whose tag is not 0. Conversely every such field can be delivered. A message of sample
values reaches all of them, so a schema that accepts anything at all also accepts a
message with a given field in it.
-/

namespace QuicproAsync.Iibin

open Php Fallible ScanLoop OrderedMap

/-! ### Deliveries of the decoder -/

def Delivery.field : Delivery → FieldDef
  | .value field _ => field
  | .list field _ => field

/-- A delivery that a turn of the decoding loop can make. A key with tag 0 is passed
    over, so no field of that tag is ever delivered; only a packed block can be empty. -/
structure Delivery.From (schema : CompiledSchema) (good : FieldDef → Zval → Prop)
    (delivery : Delivery) : Prop where
  declared : delivery.field ∈ schema.orderedFields
  readable : delivery.field.tag ≠ 0
  kind : delivery.isList = delivery.field.flags.repeated
  items : ∀ item ∈ delivery.items, good delivery.field item
  nonempty : delivery.field.flags.packed = false → delivery.items ≠ []

variable {schema : CompiledSchema} {good : FieldDef → Zval → Prop} {asObject : Bool}
  {entries : HashTable} {out : Zval} {field : FieldDef} {registry : Registry}
  {wireType : BitVec 32} {fields : List FieldDef} {fuel : Nat} {buffer : Buffer}

theorem Delivery.From.key_eq {delivery : Delivery} (hfrom : delivery.From schema good)
    (asObject : Bool) :
    delivery.key asObject = delivery.field.entryKey asObject := by
  have hkind := hfrom.kind
  cases delivery with
  | value field item =>
    have hsingular : field.flags.repeated = false := hkind.symm
    simp only [Delivery.key, Delivery.field, FieldDef.entryKey, hsingular, Bool.false_eq_true,
      if_false]
  | list field items =>
    have hrepeated : field.flags.repeated = true := hkind.symm
    simp only [Delivery.key, Delivery.field, FieldDef.entryKey, hrepeated, if_true]

/-- The deliveries `made` turn `entries` into what is in `out`. -/
def FilledBy (asObject : Bool) (made : List Delivery) (entries : HashTable) (out : Zval) : Prop :=
  ∃ final, made.foldlM (Delivery.apply asObject) entries = .ok final ∧
    out = container asObject final

theorem FilledBy.append {first second : List Delivery} {middle : HashTable}
    (hfirst : first.foldlM (Delivery.apply asObject) entries = .ok middle)
    (hsecond : FilledBy asObject second middle out) :
    FilledBy asObject (first ++ second) entries out := by
  obtain ⟨final, hfold, hout⟩ := hsecond
  refine ⟨final, ?_, hout⟩
  rw [List.foldlM_append, hfirst]
  exact hfold

section

variable {ctx : DecodeContext} {decodeMessage : MessageDecoder}

/-- The values read for the fields of the schema are good. -/
def ReadsGood (ctx : DecodeContext) (decodeMessage : MessageDecoder) (schema : CompiledSchema)
    (good : FieldDef → Zval → Prop) : Prop :=
  ∀ field ∈ schema.orderedFields, ∀ ptr bufEnd wireType q value,
    decodeValueToZval ctx decodeMessage ptr bufEnd field wireType = .ok (q, value) →
      good field value

theorem decodePackedBlock_from (hgood : ReadsGood ctx decodeMessage schema good)
    (hfield : field ∈ schema.orderedFields) {ptr bufEnd q : Nat}
    (hread : decodePackedBlock ctx decodeMessage field ptr bufEnd (container asObject entries) =
      .ok (q, out)) :
    ∃ items : List Zval, (∀ item ∈ items, good field item) ∧
      FilledBy asObject [.list field items] entries out := by
  unfold decodePackedBlock at hread
  rcases hlen : decodeVarint ctx.memory ptr bufEnd with _ | ⟨len, start⟩ <;>
    simp only [hlen] at hread
  · cases hread
  split at hread
  · cases hread
  obtain ⟨table, htable, hread⟩ := bind_eq_ok.mp hread
  obtain ⟨⟨stop, sub⟩, hloop, hread⟩ := bind_eq_ok.mp hread
  cases hread
  cases asObject with
  | true => cases htable
  | false =>
    cases htable
    -- the loop appends the items to the list that was there
    obtain ⟨items, hall, hfold⟩ := whileBelow_keeps
      (fun _ sub => ∃ items : List Zval, (∀ item ∈ items, good field item) ∧
        items.foldlM addNextIndexZval (subArray entries field.nameInPhp) = .ok sub)
      (by
        rintro p sub p' sub' ⟨items, hitems, hfold⟩ hitem
        obtain ⟨⟨p'', item⟩, hvalue, hitem⟩ := bind_eq_ok.mp hitem
        obtain ⟨pushed, hpushed, hitem⟩ := bind_eq_ok.mp hitem
        cases hitem
        refine ⟨items ++ [item], ?_, ?_⟩
        · intro other hother
          rcases List.mem_append.mp hother with hold | hnew
          · exact hitems other hold
          · rw [List.mem_singleton.mp hnew]
            exact hgood field hfield _ _ _ _ _ hvalue
        · rw [List.foldlM_append, hfold]
          show ([item].foldlM addNextIndexZval sub) = _
          rw [List.foldlM_cons, hpushed]
          rfl)
      ⟨[], by simp, rfl⟩ hloop
    refine ⟨items, hall, _, ?_, rfl⟩
    rw [List.foldlM_cons, Delivery.apply, hfold]
    rfl

theorem storeValue_from {value : Zval}
    (hstore : storeValue field value (container asObject entries) = .ok out) :
    FilledBy asObject (deliveries field [value]) entries out := by
  rw [storeValue_container] at hstore
  obtain ⟨final, hfold, hstore⟩ := bind_eq_ok.mp hstore
  cases hstore
  exact ⟨final, hfold, rfl⟩

theorem deliveries_from (hfield : field ∈ schema.orderedFields) (hreadable : field.tag ≠ 0)
    {items : List Zval} (hitems : ∀ item ∈ items, good field item) :
    ∀ delivery ∈ deliveries field items, delivery.From schema good := by
  intro delivery hdelivery
  obtain ⟨hne, ⟨hrepeated, rfl⟩ | ⟨hsingular, item, hitem, rfl⟩⟩ := mem_deliveries hdelivery
  · exact ⟨hfield, hreadable, hrepeated.symm, hitems, fun _ => hne⟩
  · refine ⟨hfield, hreadable, hsingular.symm, ?_, fun _ => List.cons_ne_nil _ _⟩
    intro other hother
    rw [List.mem_singleton.mp hother]
    exact hitems item hitem

/-- **One turn of the loop** makes deliveries for readable fields of the schema. -/
theorem decodeField_from (hformed : schema.WellFormed registry)
    (hgood : ReadsGood ctx decodeMessage schema good) {ptr bufEnd q : Nat}
    (hread : decodeField ctx decodeMessage schema bufEnd ptr (container asObject entries) =
      .ok (q, out)) :
    ∃ made : List Delivery, (∀ delivery ∈ made, delivery.From schema good) ∧
      FilledBy asObject made entries out := by
  have hnothing : ∃ made : List Delivery, (∀ delivery ∈ made, delivery.From schema good) ∧
      FilledBy asObject made entries (container asObject entries) :=
    ⟨[], by simp, entries, rfl, rfl⟩
  unfold decodeField at hread
  rcases hkey : decodeVarint ctx.memory ptr bufEnd with _ | ⟨key, start⟩ <;>
    simp only [hkey] at hread
  · cases hread
  by_cases hzero : keyTag key = 0
  · rw [if_pos hzero] at hread
    cases hread
    exact hnothing
  rw [if_neg hzero] at hread
  rcases hlookup : schema.fieldsByTag.lookup (keyTag key) with _ | field
  · simp only [hlookup] at hread
    rcases hskip : skipField ctx start bufEnd (keyWireType key) with _ | after <;>
      simp only [hskip] at hread <;> cases hread
    exact hnothing
  · simp only [hlookup] at hread
    obtain ⟨hfield, htag⟩ := (hformed.byTag _ field).mp hlookup
    have hreadable : field.tag ≠ 0 := fun heq => hzero (htag.symm.trans heq)
    split at hread
    · rename_i hpacked
      obtain ⟨items, hitems, hfilled⟩ := decodePackedBlock_from hgood hfield hread
      refine ⟨_, ?_, hfilled⟩
      intro delivery hdelivery
      rw [List.mem_singleton.mp hdelivery]
      have hrepeated := ((hformed.fields field hfield).packed hpacked.1).1
      refine ⟨hfield, hreadable, hrepeated.symm, hitems, fun hunpacked => ?_⟩
      exact absurd (hunpacked.symm.trans hpacked.1) Bool.false_ne_true
    · obtain ⟨⟨after, value⟩, hvalue, hread⟩ := bind_eq_ok.mp hread
      obtain ⟨stored, hstore, hread⟩ := bind_eq_ok.mp hread
      cases hread
      refine ⟨_, deliveries_from hfield hreadable ?_, storeValue_from hstore⟩
      intro item hitem
      rw [List.mem_singleton.mp hitem]
      exact hgood field hfield _ _ _ _ _ hvalue

end

/-- **A whole message** is filled by deliveries for readable fields. -/
theorem decodeMessageInternal_from {ctx : DecodeContext} (hformed : schema.WellFormed registry)
    {depth : Nat} (hgood : ReadsGood ctx (decodeMessageInternal ctx depth) schema good)
    {ptr bufEnd q : Nat}
    (hread : decodeMessageInternal ctx (depth + 1) ptr bufEnd schema (container asObject entries) =
      .ok (q, out)) :
    ∃ made : List Delivery, (∀ delivery ∈ made, delivery.From schema good) ∧
      FilledBy asObject made entries out :=
  whileBelow_keeps
    (fun _ out => ∃ made : List Delivery, (∀ delivery ∈ made, delivery.From schema good) ∧
      FilledBy asObject made entries out)
    (by
      rintro p _ p' out' ⟨made, hmade, final, hfold, rfl⟩ hturn
      obtain ⟨more, hmore, hfilled⟩ := decodeField_from hformed hgood hturn
      refine ⟨made ++ more, fun delivery hdelivery => ?_, FilledBy.append hfold hfilled⟩
      exact (List.mem_append.mp hdelivery).elim (hmade delivery) (hmore delivery))
    ⟨[], by simp, entries, rfl, rfl⟩ hread

theorem nodup_keys_foldlM {made : List Delivery} {final : HashTable}
    (hfold : made.foldlM (Delivery.apply asObject) entries = .ok final)
    (hnodup : (keys entries).Nodup) : (keys final).Nodup := by
  induction made generalizing entries with
  | nil =>
    obtain rfl := Except.ok.inj hfold
    exact hnodup
  | cons first rest ih =>
    rw [List.foldlM_cons] at hfold
    obtain ⟨middle, happly, hfold⟩ := bind_eq_ok.mp hfold
    obtain ⟨value, rfl⟩ := Delivery.apply_ok happly
    exact ih hfold (nodup_keys_assign hnodup)

/-! ### Keys of any tag

The encoder shifts the tag in 32 bits; a key on the wire has room for all of it. -/

def wireKey (tag wireType : BitVec 32) : BitVec 64 :=
  (tag.setWidth 64 <<< 3) ||| wireType.setWidth 64

theorem wireKey_toNat (tag : BitVec 32) (hwire : wireType.toNat < 8) :
    (wireKey tag wireType).toNat = 8 * tag.toNat + wireType.toNat := by
  have htag := tag.isLt
  have hshift : (tag.setWidth 64 <<< 3).toNat = tag.toNat <<< 3 := by
    rw [BitVec.toNat_shiftLeft, BitVec.toNat_setWidth, Nat.shiftLeft_eq, Nat.shiftLeft_eq]
    omega
  have hsmall : (wireType.setWidth 64).toNat = wireType.toNat := by
    rw [BitVec.toNat_setWidth]
    exact Nat.mod_eq_of_lt (by omega)
  rw [wireKey, BitVec.toNat_or, hshift, hsmall,
    ← Nat.shiftLeft_add_eq_or_of_lt (show wireType.toNat < 2 ^ 3 from hwire), Nat.shiftLeft_eq]
  omega

theorem keyTag_wireKey (tag : BitVec 32) (hwire : wireType.toNat < 8) :
    keyTag (wireKey tag wireType) = tag := by
  have htag := tag.isLt
  apply BitVec.eq_of_toNat_eq
  rw [keyTag_toNat, wireKey_toNat tag hwire]
  omega

theorem keyWireType_wireKey (tag : BitVec 32) (hwire : wireType.toNat < 8) :
    keyWireType (wireKey tag wireType) = wireType := by
  apply BitVec.eq_of_toNat_eq
  rw [keyWireType_toNat, wireKey_toNat tag hwire]
  omega

section

variable (ctx : WireContext) (nested : Wire.MessageReader)

theorem field_readable (hknown : schema.fieldsByTag.lookup field.tag = some field)
    (hreadable : field.tag ≠ 0) (hwire : wireType.toNat < 8) (bytes : Bytes) (returnZval : Zval) :
    Wire.field ctx nested schema (encodeVarint (wireKey field.tag wireType) ++ bytes) returnZval =
      if field.flags.packed ∧ wireType = wiretypeLengthDelim then
        Wire.packedBlock ctx nested field bytes returnZval
      else Wire.singleField ctx nested field wireType bytes returnZval := by
  simp only [Wire.field, varint_encodeVarint, Wire.fieldBody, keyTag_wireKey _ hwire,
    if_neg hreadable, hknown, keyWireType_wireKey _ hwire]

section

variable (hknown : schema.fieldsByTag.lookup field.tag = some field) (hreadable : field.tag ≠ 0)
  (hwire : wireType.toNat < 8)
  (hsingle : ¬ (field.flags.packed = true ∧ wireType = wiretypeLengthDelim)) {payload : Bytes}
  {item : Zval}
  (hvalue : ∀ rest, Wire.value ctx nested field wireType (payload ++ rest) = .ok (rest, item))

include hknown hreadable hwire hsingle hvalue

theorem item_step (rest : Bytes) (entries : HashTable) :
    Wire.field ctx nested schema (encodeVarint (wireKey field.tag wireType) ++ payload ++ rest)
        (container ctx.decodeAsObject entries) =
      (Wire.lift ((deliveries field [item]).foldlM (Delivery.apply ctx.decodeAsObject) entries) >>=
        fun entries' => .ok (rest, container ctx.decodeAsObject entries')) := by
  rw [List.append_assoc, field_readable ctx nested hknown hreadable hwire, if_neg hsingle,
    Wire.singleField, hvalue]
  simp only [bind, Except.bind, storeValue_container]
  rcases (deliveries field [item]).foldlM (Delivery.apply ctx.decodeAsObject) entries with
    fault | stored
  · rfl
  · rfl

/-- A value with its key in front is delivered. -/
theorem item_runs :
    Runs .overrun (Wire.field ctx nested schema) (container ctx.decodeAsObject)
      (encodeVarint (wireKey field.tag wireType) ++ payload)
      fun entries => Wire.lift ((deliveries field [item]).foldlM
        (Delivery.apply ctx.decodeAsObject) entries) :=
  Runs.of_step (Wire.field_shrinks ctx nested schema) (by simp [encodeVarint_ne_nil])
    (item_step ctx nested hknown hreadable hwire hsingle hvalue)

end

end

/-! ### Sample values -/

/-- The wire type under which a single value of the field is read: the check of the wire
    type is left out for packed fields, so any one but the length-delimited will do. -/
def FieldDef.sampleWireType (field : FieldDef) : BitVec 32 :=
  if field.flags.packed then wiretypeVarint else field.wireType

def samplePayload (type : FieldType) : Bytes :=
  match Wire.layout type with
  | some .varint => [0]
  | some .fixed32 => [0, 0, 0, 0]
  | some .fixed64 => [0, 0, 0, 0, 0, 0, 0, 0]
  | some .delimited => [0]
  | none => []

/-- Zero, the empty string or the empty message, as the decoder stores it. -/
def WireContext.sampleItem (ctx : WireContext) (type : FieldType) : Zval :=
  match Wire.layout type with
  | some .varint => varintZval type 0
  | some .fixed32 => fixed32Zval ctx.host type 0
  | some .fixed64 => fixed64Zval type 0
  | some .delimited => if type = .message then ctx.emptyResult else .string []
  | none => .undef

def FieldDef.sampleBytes (field : FieldDef) : Bytes :=
  encodeVarint (wireKey field.tag field.sampleWireType) ++ samplePayload field.type

section

variable {ctx : WireContext} {nested : Wire.MessageReader}

theorem sampleWireType_lt (htyped : field.WellTyped ctx.registry) :
    field.sampleWireType.toNat < 8 := by
  unfold FieldDef.sampleWireType
  split
  · decide
  · rw [htyped.wire]
    exact calculateFieldWireType_lt htyped.known _

theorem sampleWireType_single (field : FieldDef) :
    ¬ (field.flags.packed = true ∧ field.sampleWireType = wiretypeLengthDelim) := by
  rintro ⟨hpacked, hwire⟩
  rw [FieldDef.sampleWireType, if_pos hpacked] at hwire
  exact absurd hwire (by decide)

/-- What the decoder reads where a sample value stands. -/
theorem value_sample (htyped : field.WellTyped ctx.registry)
    (hreads : ctx.reading = .againstBufEnd ∨ Wire.layout field.type ≠ some .delimited)
    (hempty : field.type = .message → ∀ schema, nested schema [] ctx.emptyResult =
      .ok ctx.emptyResult) (rest : Bytes) :
    Wire.value ctx nested field field.sampleWireType (samplePayload field.type ++ rest) =
      .ok (rest, ctx.sampleItem field.type) := by
  have hpass : ¬ (field.sampleWireType ≠ field.wireType ∧ field.flags.packed = false) := by
    rintro ⟨hwire, hunpacked⟩
    simp [FieldDef.sampleWireType, hunpacked] at hwire
  rw [Wire.value, if_neg hpass]
  unfold samplePayload WireContext.sampleItem
  rcases hlayout : Wire.layout field.type with _ | (_ | _ | _ | _)
  · have hunknown : field.type = .unknown := by
      revert hlayout
      cases field.type <;> simp [Wire.layout]
    exact absurd hunknown htyped.known
  · rfl
  · rfl
  · rfl
  · have hreading := hreads.resolve_right (not_not.mpr hlayout)
    have hlength : ([] : Bytes).length < 2 ^ 64 := by decide
    have hblock : Wire.block .silent ([0x00] ++ rest) = .ok ([], rest) :=
      block_lengthPrefixed .silent hlength rest
    simp only [hblock, bind, Except.bind, Wire.delimitedValue, hreading]
    by_cases hmessage : field.type = .message
    · obtain ⟨name, found, hname, -, hfound⟩ := htyped.nested hmessage
      simp only [if_pos hmessage, hname, Option.getD_some, hfound, hempty hmessage found]
    · simp only [if_neg hmessage]

theorem sample_runs (htyped : field.WellTyped ctx.registry)
    (hknown : schema.fieldsByTag.lookup field.tag = some field) (hreadable : field.tag ≠ 0)
    (hreads : ctx.reading = .againstBufEnd ∨ Wire.layout field.type ≠ some .delimited)
    (hempty : field.type = .message → ∀ schema, nested schema [] ctx.emptyResult =
      .ok ctx.emptyResult) :
    Runs .overrun (Wire.field ctx nested schema) (container ctx.decodeAsObject) field.sampleBytes
      fun entries => Wire.lift ((deliveries field [ctx.sampleItem field.type]).foldlM
        (Delivery.apply ctx.decodeAsObject) entries) :=
  item_runs ctx nested hknown hreadable (sampleWireType_lt htyped) (sampleWireType_single field)
    (value_sample htyped hreads hempty)

theorem keyed_sample_length_le (field : FieldDef) (wireType : BitVec 32) :
    (encodeVarint (wireKey field.tag wireType) ++ samplePayload field.type).length ≤ 18 := by
  have hkey := encodeVarint_length_le (wireKey field.tag wireType)
  have hpayload : (samplePayload field.type).length ≤ 8 := by
    unfold samplePayload
    split <;> decide
  rw [List.length_append]
  omega

theorem sampleBytes_length_le (field : FieldDef) : field.sampleBytes.length ≤ 18 :=
  keyed_sample_length_le field field.sampleWireType

end

/-- The delivery of one value. -/
def FieldDef.delivery (field : FieldDef) (item : Zval) : Delivery :=
  if field.flags.repeated then .list field [item] else .value field item

theorem deliveries_single (field : FieldDef) (item : Zval) :
    deliveries field [item] = [field.delivery item] := by
  unfold deliveries FieldDef.delivery
  split <;> simp

theorem FieldDef.delivery_key (asObject : Bool) (field : FieldDef) (item : Zval) :
    (field.delivery item).key asObject = field.entryKey asObject := by
  unfold FieldDef.delivery FieldDef.entryKey
  split <;> rfl

/-- What a message of sample values delivers. -/
def WireContext.sampleDeliveries (ctx : WireContext) (fields : List FieldDef) : List Delivery :=
  fields.flatMap fun field => deliveries field [ctx.sampleItem field.type]

theorem WireContext.mem_sampleDeliveries {ctx : WireContext} {delivery : Delivery}
    (hmem : delivery ∈ ctx.sampleDeliveries fields) (asObject : Bool) :
    ∃ field ∈ fields, delivery.key asObject = field.entryKey asObject ∧
      delivery.isList = field.flags.repeated := by
  obtain ⟨field, hfield, hdelivery⟩ := List.mem_flatMap.mp hmem
  refine ⟨field, hfield, entryKey_of_mem asObject hdelivery, ?_⟩
  obtain ⟨-, ⟨hrepeated, rfl⟩ | ⟨hsingular, item, -, rfl⟩⟩ := mem_deliveries hdelivery
  · exact hrepeated.symm
  · exact hsingular.symm

theorem WireContext.exists_sampleDelivery (ctx : WireContext) (hfield : field ∈ fields)
    (asObject : Bool) :
    ∃ delivery ∈ ctx.sampleDeliveries fields,
      delivery.key asObject = field.entryKey asObject := by
  have hne : deliveries field [ctx.sampleItem field.type] ≠ [] := deliveries_ne_nil (by simp)
  obtain ⟨delivery, hdelivery⟩ := List.exists_mem_of_ne_nil _ hne
  exact ⟨delivery, List.mem_flatMap.mpr ⟨field, hfield, hdelivery⟩,
    entryKey_of_mem asObject hdelivery⟩

/-! ### The decoder on whole schemas -/

section

variable {wire : WireContext} {schemaName : Bytes} (hlayered : wire.registry.Layered)
  (hfound : wire.registry.Has schemaName schema)

include hlayered hfound

theorem exists_depth :
    ∃ depth, wire.registry.schemas.length = depth + 1 :=
  Nat.exists_eq_add_one.mpr (Nat.zero_lt_of_lt (position_lt_length hlayered hfound))

/-- A schema with a message field is not the only one of its registry. -/
theorem depth_of_message (hfield : field ∈ schema.orderedFields)
    (hmessage : field.type = .message) {depth : Nat}
    (hdepth : wire.registry.schemas.length = depth + 1) : ∃ below, depth = below + 1 := by
  obtain ⟨name, -, hname, -, -⟩ :=
    ((hlayered.wellFormed hfound).fields field hfield).nested hmessage
  have hlower := Refers.position_lt hlayered ⟨schema, hfound, field, hfield, hmessage, hname⟩
  have hupper := position_lt_length hlayered hfound
  exact Nat.exists_eq_add_one.mpr (by omega)

/-- **What acceptance says.** The result holds what the deliveries left behind, with the
    defaults filled in, and every required field was supplied. -/
theorem quicproIibinDecode_from (hgood : ∀ depth, ReadsGood ⟨wire, buffer.memory, fuel⟩
      (decodeMessageInternal ⟨wire, buffer.memory, fuel⟩ depth) schema good) {result : Zval}
    {warning : Option IibinError}
    (hok : quicproIibinDecode wire fuel schemaName buffer = .ok (result, warning)) :
    ∃ (ptr : Nat) (made : List Delivery) (decoded entries : HashTable),
      decodeMessageInternal ⟨wire, buffer.memory, fuel⟩ wire.registry.schemas.length buffer.base
        buffer.stop schema wire.emptyResult = .ok (ptr, container wire.decodeAsObject decoded) ∧
      (∀ delivery ∈ made, delivery.From schema good) ∧
      made.foldlM (Delivery.apply wire.decodeAsObject) [] = .ok decoded ∧
      Supplied decoded schema.orderedFields ∧
      result = container wire.decodeAsObject entries ∧
      (∀ key, entries.lookup key =
        (decoded.lookup key).or (fallback schema.orderedFields key)) ∧
      (keys entries).Nodup := by
  obtain ⟨depth, hdepth⟩ := exists_depth hlayered hfound
  simp only [quicproIibinDecode, hfound] at hok
  obtain ⟨⟨ptr, out⟩, hread, hok⟩ := bind_eq_ok.mp hok
  obtain ⟨filled, hfilled, hok⟩ := bind_eq_ok.mp hok
  cases hok
  have hread' := hread
  rw [hdepth, emptyResult_eq] at hread'
  obtain ⟨made, hmade, decoded, hfold, rfl⟩ :=
    decodeMessageInternal_from (hlayered.wellFormed hfound) (hgood depth) hread'
  rcases populate_fields schema.schemaName wire.decodeAsObject schema.orderedFields decoded with
    ⟨hsupplied, entries, hpopulate, hlookup, hnodup⟩ | ⟨-, error, hpopulate⟩
  · have hresult := hfilled.symm.trans hpopulate
    exact ⟨ptr, made, decoded, entries, hread, hmade, hfold, hsupplied, by simpa using hresult,
      hlookup, hnodup (nodup_keys_foldlM hfold List.nodup_nil)⟩
  · exact absurd (hfilled.symm.trans hpopulate) (by simp)

/-- Every required field has a readable field that is filed under its name, or a default in
    front of it. -/
def Suppliable (asObject : Bool) (fields : List FieldDef) : Prop :=
  ∀ field ∈ fields, field.flags.required = true →
    (∃ other ∈ fields, other.tag ≠ 0 ∧ other.entryKey asObject = .str field.nameInPhp) ∨
    ∃ earlier ∈ fields, earlier.tag.toNat < field.tag.toNat ∧
      earlier.nameInPhp = field.nameInPhp ∧ earlier.hasFallback

/-- Only a schema that can be supplied accepts anything. -/
theorem suppliable_of_accepts {accepted : Zval × Option IibinError}
    (haccepts : quicproIibinDecode wire fuel schemaName buffer = .ok accepted) :
    Suppliable wire.decodeAsObject schema.orderedFields := by
  obtain ⟨result, warning⟩ := accepted
  obtain ⟨-, made, decoded, -, -, hmade, hfold, hsupplied, -⟩ :=
    quicproIibinDecode_from hlayered hfound
      (fun _ _ _ _ _ _ _ _ _ => (trivial : (fun _ _ => True) _ _)) haccepts
  rw [supplied_iff (hlayered.wellFormed hfound).sorted] at hsupplied
  intro field hfield hrequired
  refine (hsupplied field hfield hrequired).imp_left fun hsome => ?_
  obtain ⟨delivery, hdelivery, hkey⟩ :=
    ((isSome_lookup_foldlM hfold _).mp hsome).resolve_left (by simp)
  have hfrom := hmade delivery hdelivery
  exact ⟨delivery.field, hfrom.declared, hfrom.readable, (hfrom.key_eq _).symm.trans hkey⟩

/-- The bytes make the decoder do the deliveries. -/
def Carries (wire : WireContext) (schema : CompiledSchema) (bytes : Bytes)
    (made : List Delivery) : Prop :=
  ∀ depth, wire.registry.schemas.length = depth + 1 →
    Runs .overrun (Wire.field wire (Wire.message wire depth) schema)
      (container wire.decodeAsObject) bytes
      fun entries => Wire.lift (made.foldlM (Delivery.apply wire.decodeAsObject) entries)

omit hlayered hfound in
theorem Carries.append {left right : Bytes} {first second : List Delivery}
    (hleft : Carries wire schema left first) (hright : Carries wire schema right second) :
    Carries wire schema (left ++ right) (first ++ second) := by
  intro depth hdepth
  simpa only [List.foldlM_append, Wire.lift_bind] using
    (hleft depth hdepth).append (hright depth hdepth)

/-- The bytes are accepted: they are read to their end, and the defaults are put in. -/
structure Accepts (wire : WireContext) (schemaName : Bytes) (schema : CompiledSchema)
    (buffer : Buffer) (fuel : Nat) (decoded entries : HashTable) : Prop where
  read : decodeMessageInternal ⟨wire, buffer.memory, fuel⟩ wire.registry.schemas.length buffer.base
    buffer.stop schema wire.emptyResult = .ok (buffer.stop, container wire.decodeAsObject decoded)
  decode : quicproIibinDecode wire fuel schemaName buffer =
    .ok (container wire.decodeAsObject entries, none)
  lookup : ∀ key, entries.lookup key = (decoded.lookup key).or (fallback schema.orderedFields key)
  nodup : (keys entries).Nodup

/-- A byte string that makes compatible deliveries and leaves no required field out is
    accepted. -/
theorem quicproIibinDecode_runs {made : List Delivery}
    (hcarries : Carries wire schema buffer.bytes made)
    (hcompatible : Compatible wire.decodeAsObject made []) {decoded : HashTable}
    (hdecoded : decoded = replay (made.map (Delivery.entry wire.decodeAsObject)) [])
    (hsupplied : Supplied decoded schema.orderedFields) (hfuel : buffer.bytes.length ≤ fuel) :
    ∃ entries, Accepts wire schemaName schema buffer fuel decoded entries := by
  obtain ⟨depth, hdepth⟩ := exists_depth hlayered hfound
  have hmeaning : Wire.message wire wire.registry.schemas.length schema buffer.bytes
      wire.emptyResult = Wire.lift (.ok (container wire.decodeAsObject decoded)) := by
    rw [hdepth, Wire.message, emptyResult_eq, (hcarries depth hdepth).drainAll_eq,
      foldlM_apply_eq hcompatible, ← hdecoded]
    rfl
  have hagrees := decodeMessageInternal_buffer buffer wire hfuel wire.registry.schemas.length
    schema wire.emptyResult
  rw [hmeaning] at hagrees
  have hdecode := quicproIibinDecode_eq buffer wire hfuel hfound hmeaning
  rcases populate_fields schema.schemaName wire.decodeAsObject schema.orderedFields decoded with
    ⟨-, entries, hpopulate, hlookup, hnodup⟩ | ⟨hnot, -⟩
  · refine ⟨entries, hagrees, hdecode.trans ?_, hlookup, hnodup ?_⟩
    · simp only [finish, bind, Except.bind, populateDefaultValuesAndCheckRequired, hpopulate]
    · rw [hdecoded]
      exact nodup_keys_replay _ List.nodup_nil
  · exact absurd hsupplied hnot

/-- A message of sample values is worked off field by field. -/
theorem samples_run (hfields : ∀ field ∈ fields, field ∈ schema.orderedFields ∧ field.tag ≠ 0)
    (hreads : ∀ field ∈ schema.orderedFields,
      wire.reading = .againstBufEnd ∨ Wire.layout field.type ≠ some .delimited) :
    Carries wire schema (fields.flatMap FieldDef.sampleBytes) (wire.sampleDeliveries fields) := by
  have hformed := hlayered.wellFormed hfound
  induction fields with
  | nil => exact fun _ _ => Runs.nil
  | cons field rest ih =>
    obtain ⟨hfield, hreadable⟩ := hfields field List.mem_cons_self
    refine Carries.append (fun depth hdepth => ?_)
      (ih fun other hother => hfields other (List.mem_cons_of_mem _ hother))
    have hempty : field.type = .message → ∀ nested : CompiledSchema,
        Wire.message wire depth nested [] wire.emptyResult = .ok wire.emptyResult := by
      intro hmessage nested
      obtain ⟨below, rfl⟩ := depth_of_message hlayered hfound hfield hmessage hdepth
      exact drainAll_nil _
    exact sample_runs (hformed.fields field hfield)
      ((hformed.byTag field.tag field).mpr ⟨hfield, rfl⟩) hreadable (hreads field hfield) hempty

end

/-! ### The same field twice

Decoded to an array, the first value makes an entry that dangles, and the second one uses it. -/

/-- Stored as a pointer that the decoder gives back: a list, a string or a message. -/
def FieldDef.isGivenBack (field : FieldDef) : Bool :=
  field.flags.repeated || Wire.layout field.type = some .delimited

section

variable {ctx : DecodeContext} {depth stop p : Nat} (hend : stop + 8 < 2 ^ 64) (hlow : 256 ≤ p)
  (hfuel : stop - p ≤ ctx.fuel) (hmode : ctx.decodeAsObject = false)
  (htyped : field.WellTyped ctx.registry)
  (hknown : schema.fieldsByTag.lookup field.tag = some field) (hreadable : field.tag ≠ 0)
  (hreads : ctx.reading = .againstBufEnd ∨ Wire.layout field.type ≠ some .delimited)
  (hempty : field.type = .message → ∀ nested : CompiledSchema,
    Wire.message ctx.toWireContext depth nested [] ctx.emptyResult = .ok ctx.emptyResult)
  {rest : Bytes} (hwindow : window ctx.memory p stop = field.sampleBytes ++ rest)
  {filling filled : Filling} {q : Nat}
  (hok : decodeFieldTracked ctx (decodeMessageTracked ctx depth) schema stop p filling =
    .ok (q, filled))

include hend htyped hwindow

/-- The key of a sample, as it is read from the memory. -/
theorem sample_key : p < stop ∧ ∃ key start, decodeVarint ctx.memory p stop = some (key, start) ∧
    keyTag key = field.tag ∧ keyWireType key = field.sampleWireType := by
  have hwire := sampleWireType_lt htyped
  have hread := decodeVarint_agrees ctx.memory (show stop < 2 ^ 64 by omega) p
  rw [hwindow, FieldDef.sampleBytes, List.append_assoc, varint_encodeVarint] at hread
  obtain ⟨start, hstart, hle, -, hread⟩ := hread
  exact ⟨by omega, _, start, hread, keyTag_wireKey _ hwire, keyWireType_wireKey _ hwire⟩

include hlow hfuel hmode hknown hreadable hreads hempty hok

/-- A turn on a sample ends behind it. -/
theorem sample_turn (hshows : filling.Shows (.array entries)) :
    window ctx.memory q stop = rest ∧ 256 ≤ q ∧ q ≤ stop ∧
      ∃ entries', filled.Shows (.array entries') := by
  obtain ⟨hlt, -⟩ := sample_key hend htyped hwindow
  have hagrees := decodeField_agrees (decodeMessageInternal_agrees ctx depth) schema hlow hlt hend
    hfuel (.array entries)
  have hstep := item_step ctx.toWireContext (Wire.message ctx.toWireContext depth) hknown hreadable
    (sampleWireType_lt htyped) (sampleWireType_single field) (value_sample htyped hreads hempty)
    rest entries
  have hcontainer : container ctx.decodeAsObject = .array := by
    rw [hmode]
    rfl
  rw [hcontainer] at hstep
  rw [hwindow, FieldDef.sampleBytes, hstep] at hagrees
  have hfollows : FollowsValues (Along Filling.Shows)
      (decodeFieldTracked ctx (decodeMessageTracked ctx depth) schema stop p filling)
      (decodeField ctx (decodeMessageInternal ctx depth) schema stop p (.array entries)) :=
    decodeFieldTracked_follows (decodeMessageTracked_follows ctx depth) schema stop p filling _
      hshows
  rw [hok] at hfollows
  obtain ⟨⟨_, shown⟩, hturn, rfl, hshown⟩ := hfollows
  rcases hstored : (deliveries field [ctx.sampleItem field.type]).foldlM
    (Delivery.apply ctx.decodeAsObject) entries with fault | stored <;> rw [hstored] at hagrees
  · cases hturn.symm.trans hagrees
  · obtain ⟨next, hnext, hle, hrest, hsame⟩ := hagrees
    cases hturn.symm.trans hsame
    exact ⟨hrest, by omega, hle, stored, hshown⟩

end

theorem exists_buffer {bytes : Bytes} (hlength : bytes.length < 2 ^ 63) :
    ∃ buffer : Buffer, buffer.bytes = bytes :=
  ⟨.place 4096 bytes (by decide) (by omega), rfl⟩

theorem exists_twice (field : FieldDef) :
    ∃ buffer : Buffer, buffer.bytes = field.sampleBytes ++ field.sampleBytes := by
  have hlength := sampleBytes_length_le field
  exact exists_buffer (by rw [List.length_append]; omega)

variable {wire : WireContext} {schemaName : Bytes}

/-- **Two values of one field.** They use memory that has been given back if the field is stored
    as a pointer and decoded to an array. -/
theorem sample_twice_used (hmode : wire.decodeAsObject = false) (hlayered : wire.registry.Layered)
    (hfound : wire.registry.Has schemaName schema) (hfield : field ∈ schema.orderedFields)
    (hreadable : field.tag ≠ 0)
    (hreads : wire.reading = .againstBufEnd ∨ Wire.layout field.type ≠ some .delimited)
    (hgiven : field.isGivenBack = true)
    (hbytes : buffer.bytes = field.sampleBytes ++ field.sampleBytes)
    (hfuel : buffer.bytes.length ≤ fuel) :
    quicproIibinDecodeTracked wire fuel schemaName buffer = .error .useAfterFree := by
  have hformed := hlayered.wellFormed hfound
  have htyped := hformed.fields field hfield
  have hknown := (hformed.byTag field.tag field).mpr ⟨hfield, rfl⟩
  obtain ⟨depth, hdepth⟩ := exists_depth hlayered hfound
  have hempty : field.type = .message → ∀ nested : CompiledSchema,
      Wire.message wire depth nested [] wire.emptyResult = .ok wire.emptyResult := by
    intro hmessage nested
    obtain ⟨below, rfl⟩ := depth_of_message hlayered hfound hfield hmessage hdepth
    exact drainAll_nil _
  let ctx : DecodeContext := ⟨wire, buffer.memory, fuel⟩
  have hlow := buffer.low
  have hend : buffer.stop + 8 < 2 ^ 64 := buffer.high
  have hbudget : buffer.stop - buffer.base ≤ ctx.fuel := by
    rw [Buffer.stop, Nat.add_sub_cancel_left]
    exact hfuel
  -- as far as values go, the bytes are read to their end
  have hvalues : ∃ last, decodeMessageInternal ctx (depth + 1) buffer.base buffer.stop schema
      wire.emptyResult = .ok last := by
    have hsample := sample_runs htyped hknown hreadable hreads hempty
    have hcompatible : Compatible wire.decodeAsObject
        (deliveries field [wire.sampleItem field.type] ++
          deliveries field [wire.sampleItem field.type]) [] := by
      rw [deliveries_single]
      refine ⟨fun _ _ _ => IsListed.none, ?_⟩
      intro first hfirst second hsecond _
      simp only [List.singleton_append, List.mem_cons, List.not_mem_nil, or_false, or_self]
        at hfirst hsecond
      rw [hfirst, hsecond]
    have hmeaning : Wire.message wire (depth + 1) schema buffer.bytes wire.emptyResult =
        .ok (container wire.decodeAsObject (replay ((deliveries field
          [wire.sampleItem field.type] ++ deliveries field [wire.sampleItem field.type]).map
            (Delivery.entry wire.decodeAsObject)) [])) := by
      have hfold := foldlM_apply_eq hcompatible
      rw [List.foldlM_append] at hfold
      rw [Wire.message, emptyResult_eq, hbytes, (hsample.append hsample).drainAll_eq,
        ← Wire.lift_bind, hfold]
      rfl
    have hagrees := decodeMessageInternal_buffer buffer wire hfuel (depth + 1) schema
      wire.emptyResult
    rw [hmeaning] at hagrees
    exact ⟨_, hagrees⟩
  obtain ⟨last, hvalues⟩ := hvalues
  have hfollows := decodeMessageTracked_follows ctx (depth + 1) buffer.base buffer.stop schema
    ⟨wire.decodeAsObject, []⟩ wire.emptyResult ⟨[], rfl, .nil⟩
  rw [hvalues] at hfollows
  have hrun : decodeMessageTracked ctx (depth + 1) buffer.base buffer.stop schema
      ⟨wire.decodeAsObject, []⟩ = .error .useAfterFree := by
    rcases htracked : decodeMessageTracked ctx (depth + 1) buffer.base buffer.stop schema
      ⟨wire.decodeAsObject, []⟩ with (fault | _) | out
    · rw [htracked] at hfollows
      cases hfollows fault rfl
    · rfl
    · exfalso
      have hwindow : window ctx.memory buffer.base buffer.stop =
          field.sampleBytes ++ field.sampleBytes := buffer.window_eq.trans hbytes
      rw [decodeMessageTracked, hmode] at htracked
      obtain ⟨hlt, key, start, hread, htag, hwire⟩ := sample_key hend htyped hwindow
      obtain ⟨less, q, filled, hturn, hrest⟩ := whileBelow_first hlt htracked
      have hsingle : ¬ (field.flags.packed = true ∧ keyWireType key = wiretypeLengthDelim) := by
        rw [hwire]
        exact sampleWireType_single field
      have hdangling := decodeFieldTracked_gives_back hread (htag ▸ hreadable) (htag ▸ hknown)
        hsingle hturn rfl (by
          cases hrepeated : field.flags.repeated with
          | true => exact .inl ⟨rfl, rfl⟩
          | false =>
            refine .inr ⟨rfl, ?_⟩
            simpa [FieldDef.isGivenBack, hrepeated] using hgiven)
      obtain ⟨hwindow', hlow', hle, entries, hshows⟩ := sample_turn hend hlow hbudget hmode htyped
        hknown hreadable hreads hempty hwindow hturn ⟨[], rfl, .nil⟩
      rw [← List.append_nil field.sampleBytes] at hwindow'
      obtain ⟨hlt', key', start', hread', htag', hwire'⟩ := sample_key hend htyped hwindow'
      obtain ⟨-, q', filled', hturn', -⟩ := whileBelow_first hlt' hrest
      refine decodeFieldTracked_uses hread' (htag' ▸ hreadable) (htag' ▸ hknown) ?_ hturn'
        hshows.array.1 hdangling
      rw [hwire']
      exact sampleWireType_single field
  simp only [quicproIibinDecodeTracked, hfound, hdepth]
  rw [hrun]
  rfl

/-- Without lists the decoder on values is all there is. -/
theorem decodeTracked_singular {host : Host} (hformed : schema.WellFormed registry)
    (hfound : registry.Has schemaName schema) (hintegral : schema.IsIntegral)
    (hsingular : ∀ field ∈ schema.orderedFields, field.tag ≠ 0 → field.flags.repeated = false)
    (asObject : Bool) (fuel : Nat) (buffer : Buffer) :
    quicproIibinDecodeTracked ⟨host, registry, .asWritten, asObject⟩ fuel schemaName buffer =
      intact (quicproIibinDecode ⟨host, registry, .asWritten, asObject⟩ fuel schemaName
        buffer) := by
  refine quicproIibinDecodeTracked_quiet hfound (.inr fun tag field hlookup hzero => ?_) fuel buffer
  obtain ⟨hfield, rfl⟩ := (hformed.byTag tag field).mp hlookup
  exact ⟨hsingular field hfield hzero, layout_of_isIntegral (hintegral field hfield)⟩

/-! ### A message with a given field in it -/

/-- The readable fields that can stand beside `target`: they are filed elsewhere, and of
    those that share a key the repeated ones are taken. -/
def companions (asObject : Bool) (fields : List FieldDef) (target : FieldDef) : List FieldDef :=
  fields.filter fun field => field.tag ≠ 0 ∧
    field.entryKey asObject ≠ target.entryKey asObject ∧
    (field.flags.repeated = true ∨ ∀ other ∈ fields, other.tag ≠ 0 →
      other.flags.repeated = true → other.entryKey asObject ≠ field.entryKey asObject)

section

variable {target : FieldDef}

theorem mem_companions :
    field ∈ companions asObject fields target ↔ field ∈ fields ∧ field.tag ≠ 0 ∧
      field.entryKey asObject ≠ target.entryKey asObject ∧
      (field.flags.repeated = true ∨ ∀ other ∈ fields, other.tag ≠ 0 →
        other.flags.repeated = true → other.entryKey asObject ≠ field.entryKey asObject) := by
  simp [companions]

variable (asObject fields target) in
theorem companions_readable :
    ∀ field ∈ companions asObject fields target, field ∈ fields ∧ field.tag ≠ 0 := by
  intro field hfield
  obtain ⟨hmem, hreadable, -⟩ := mem_companions.mp hfield
  exact ⟨hmem, hreadable⟩

variable (wire : WireContext) {lasts : List Delivery}
  (hlasts : ∀ last ∈ lasts, last.key asObject = target.entryKey asObject)

include hlasts

theorem companions_compatible
    (huniform : ∀ first ∈ lasts, ∀ second ∈ lasts, first.isList = second.isList) :
    Compatible asObject (wire.sampleDeliveries (companions asObject fields target) ++ lasts)
      [] := by
  -- among the companions, a singular field does not share its key with a repeated one
  have hcompanions : ∀ first ∈ companions asObject fields target,
      ∀ second ∈ companions asObject fields target,
      first.entryKey asObject = second.entryKey asObject → first.flags.repeated = true →
        second.flags.repeated = true := by
    intro first hfirst second hsecond hkey hrepeated
    obtain ⟨hmem, hreadable, -, -⟩ := mem_companions.mp hfirst
    obtain ⟨-, -, -, hkind⟩ := mem_companions.mp hsecond
    exact hkind.elim id fun hother => absurd hkey (hother first hmem hreadable hrepeated)
  refine ⟨fun _ _ _ => IsListed.none, ?_⟩
  intro first hfirst second hsecond hkey
  rcases List.mem_append.mp hfirst with hfirst | hfirst <;>
    rcases List.mem_append.mp hsecond with hsecond | hsecond
  · obtain ⟨left, hleft, hleftKey, hleftKind⟩ := wire.mem_sampleDeliveries hfirst asObject
    obtain ⟨right, hright, hrightKey, hrightKind⟩ := wire.mem_sampleDeliveries hsecond asObject
    rw [hleftKey, hrightKey] at hkey
    rw [hleftKind, hrightKind, Bool.eq_iff_iff]
    exact ⟨hcompanions left hleft right hright hkey, hcompanions right hright left hleft hkey.symm⟩
  · obtain ⟨left, hleft, hleftKey, -⟩ := wire.mem_sampleDeliveries hfirst asObject
    rw [hlasts second hsecond, hleftKey] at hkey
    exact absurd hkey (mem_companions.mp hleft).2.2.1
  · obtain ⟨right, hright, hrightKey, -⟩ := wire.mem_sampleDeliveries hsecond asObject
    rw [hlasts first hfirst, hrightKey] at hkey
    exact absurd hkey.symm (mem_companions.mp hright).2.2.1
  · exact huniform first hfirst second hsecond

/-- Together with the target they reach every key that can be reached. -/
theorem companions_cover (hfield : field ∈ fields) (hreadable : field.tag ≠ 0)
    (hreached : field.entryKey asObject = target.entryKey asObject → lasts ≠ []) :
    ∃ delivery ∈ wire.sampleDeliveries (companions asObject fields target) ++ lasts,
      delivery.key asObject = field.entryKey asObject := by
  by_cases htarget : field.entryKey asObject = target.entryKey asObject
  · obtain ⟨last, hlast⟩ := List.exists_mem_of_ne_nil _ (hreached htarget)
    exact ⟨last, List.mem_append_right _ hlast, (hlasts last hlast).trans htarget.symm⟩
  have hcompanion : ∃ other ∈ companions asObject fields target,
      other.entryKey asObject = field.entryKey asObject := by
    by_cases hother : ∃ other ∈ fields, other.tag ≠ 0 ∧ other.flags.repeated = true ∧
        other.entryKey asObject = field.entryKey asObject
    · obtain ⟨other, hmem, htag, hrepeated, hkey⟩ := hother
      exact ⟨other, mem_companions.mpr ⟨hmem, htag, by rwa [hkey], .inl hrepeated⟩, hkey⟩
    · refine ⟨field, mem_companions.mpr ⟨hfield, hreadable, htarget, .inr ?_⟩, rfl⟩
      exact fun other hmem htag hrepeated hkey => hother ⟨other, hmem, htag, hrepeated, hkey⟩
  obtain ⟨other, hmem, hkey⟩ := hcompanion
  obtain ⟨delivery, hdelivery, hkey'⟩ := wire.exists_sampleDelivery hmem asObject
  exact ⟨delivery, List.mem_append_left _ hdelivery, hkey'.trans hkey⟩

theorem lookup_target :
    (replay ((wire.sampleDeliveries (companions asObject fields target) ++
      lasts).map (Delivery.entry asObject)) []).lookup (target.entryKey asObject) =
        lasts.foldl (fun old delivery => some (delivery.change old)) none := by
  have hothers : (wire.sampleDeliveries (companions asObject fields target)).filter
      (fun delivery => delivery.key asObject = target.entryKey asObject) = [] := by
    refine List.filter_eq_nil_iff.mpr fun delivery hdelivery => ?_
    obtain ⟨field, hfield, hkey, -⟩ := wire.mem_sampleDeliveries hdelivery asObject
    rw [hkey]
    simpa using (mem_companions.mp hfield).2.2.1
  have hall : lasts.filter (fun delivery => delivery.key asObject = target.entryKey asObject) =
      lasts := List.filter_eq_self.mpr fun last hlast => by simpa using hlasts last hlast
  rw [lookup_deliveries, List.filter_append, hothers, hall, List.nil_append, List.lookup_nil]

end

/-- There are no more fields than tags. -/
theorem orderedFields_length_le (hformed : schema.WellFormed registry) {bound : Nat}
    (htags : ∀ field ∈ schema.orderedFields, field.tag.toNat < bound) :
    schema.orderedFields.length ≤ bound := by
  have hnodup : (schema.orderedFields.map fun field => field.tag.toNat).Nodup :=
    List.pairwise_map.mpr (hformed.sorted.imp fun hless => Nat.ne_of_lt hless)
  have hrange : (schema.orderedFields.map fun field => field.tag.toNat) ⊆ List.range bound := by
    intro tag htag
    obtain ⟨field, hfield, rfl⟩ := List.mem_map.mp htag
    exact List.mem_range.mpr (htags field hfield)
  have hlength := (List.Nodup.subperm hnodup hrange).length_le
  rwa [List.length_map, List.length_range] at hlength

theorem companions_length_le (asObject : Bool) (fields : List FieldDef) (target : FieldDef) :
    ((companions asObject fields target).flatMap FieldDef.sampleBytes).length ≤
      18 * fields.length := by
  have hsamples : ∀ list : List FieldDef,
      (list.flatMap FieldDef.sampleBytes).length ≤ 18 * list.length := by
    intro list
    induction list with
    | nil => exact Nat.le_refl _
    | cons field rest ih =>
      have hfirst := sampleBytes_length_le field
      rw [List.flatMap_cons, List.length_append, List.length_cons]
      omega
  have hfilter : (companions asObject fields target).length ≤ fields.length :=
    List.length_filter_le _ _
  exact (hsamples _).trans (Nat.mul_le_mul_left 18 hfilter)

section

variable (hlayered : wire.registry.Layered) (hfound : wire.registry.Has schemaName schema)
  (hsuppliable : Suppliable wire.decodeAsObject schema.orderedFields)
  (hreads : ∀ field ∈ schema.orderedFields,
    wire.reading = .againstBufEnd ∨ Wire.layout field.type ≠ some .delimited) {target : FieldDef}

include hlayered hfound hsuppliable hreads

/-- **A schema that can be supplied accepts a message with a name of our choice.** Behind the
    samples of the other fields stands what delivers to the key of the target, or nothing if
    a default is enough for the fields of this name. -/
theorem accepts_beside {lasts : List Delivery}
    (hlasts : ∀ last ∈ lasts, last.key wire.decodeAsObject = target.entryKey wire.decodeAsObject)
    (huniform : ∀ first ∈ lasts, ∀ second ∈ lasts, first.isList = second.isList)
    (hpresent : lasts = [] → ∀ field ∈ schema.orderedFields, field.flags.required = true →
      .str field.nameInPhp = target.entryKey wire.decodeAsObject →
        ∃ earlier ∈ schema.orderedFields, earlier.tag.toNat < field.tag.toNat ∧
          earlier.nameInPhp = field.nameInPhp ∧ earlier.hasFallback) {tail : Bytes}
    (htail : Carries wire schema tail lasts)
    (hbytes : buffer.bytes = (companions wire.decodeAsObject schema.orderedFields target).flatMap
      FieldDef.sampleBytes ++ tail) (hfuel : buffer.bytes.length ≤ fuel) :
    ∃ decoded entries, Accepts wire schemaName schema buffer fuel decoded entries ∧
      decoded.lookup (target.entryKey wire.decodeAsObject) =
        lasts.foldl (fun old delivery => some (delivery.change old)) none := by
  let fields := companions wire.decodeAsObject schema.orderedFields target
  let filled := replay ((wire.sampleDeliveries fields ++ lasts).map
    (Delivery.entry wire.decodeAsObject)) []
  have hreaches : ∀ field ∈ schema.orderedFields, field.tag ≠ 0 →
      (field.entryKey wire.decodeAsObject = target.entryKey wire.decodeAsObject → lasts ≠ []) →
        (filled.lookup (field.entryKey wire.decodeAsObject)).isSome := by
    intro field hfield hreadable hreached
    obtain ⟨sample, hsample, hkey⟩ := companions_cover wire hlasts hfield hreadable hreached
    rw [isSome_lookup_replay]
    exact .inr ⟨_, List.mem_map_of_mem hsample, hkey⟩
  have hfilled : Supplied filled schema.orderedFields := by
    have hsorted := (hlayered.wellFormed hfound).sorted
    rw [supplied_iff hsorted]
    intro field hfield hrequired
    by_cases hmissing : lasts = [] ∧ .str field.nameInPhp = target.entryKey wire.decodeAsObject
    · exact .inr (hpresent hmissing.1 field hfield hrequired hmissing.2)
    · refine (hsuppliable field hfield hrequired).imp_left ?_
      rintro ⟨other, hother, hreadable, hkey⟩
      rw [← hkey]
      exact hreaches other hother hreadable fun htarget hnil =>
        hmissing ⟨hnil, hkey.symm.trans htarget⟩
  have hcarries : Carries wire schema buffer.bytes (wire.sampleDeliveries fields ++ lasts) := by
    rw [hbytes]
    exact (samples_run hlayered hfound
      (companions_readable wire.decodeAsObject schema.orderedFields target) hreads).append htail
  obtain ⟨entries, haccepts⟩ := quicproIibinDecode_runs hlayered hfound hcarries
    (companions_compatible wire hlasts huniform) rfl hfilled hfuel
  exact ⟨filled, entries, haccepts, lookup_target wire hlasts⟩

/-- A schema that can be supplied accepts a message with a given field in it. -/
theorem accepts_target {last : Delivery}
    (hlast : last.key wire.decodeAsObject = target.entryKey wire.decodeAsObject) {tail : Bytes}
    (htail : Carries wire schema tail [last])
    (hbytes : buffer.bytes = (companions wire.decodeAsObject schema.orderedFields target).flatMap
      FieldDef.sampleBytes ++ tail) (hfuel : buffer.bytes.length ≤ fuel) :
    ∃ decoded entries, Accepts wire schemaName schema buffer fuel decoded entries ∧
      decoded.lookup (target.entryKey wire.decodeAsObject) = some (last.change none) :=
  accepts_beside hlayered hfound hsuppliable hreads (by simpa using hlast) (by simp) (by simp)
    htail hbytes hfuel

/-- A schema that can be supplied accepts a message with a sample of a given field. -/
theorem accepts_sample (htarget : target ∈ schema.orderedFields) (hreadable : target.tag ≠ 0) :
    ∃ buffer entries, quicproIibinDecode wire buffer.bytes.length schemaName buffer =
        .ok (container wire.decodeAsObject entries, none) ∧
      (entries.lookup (target.entryKey wire.decodeAsObject)).isSome := by
  have hcompanions := companions_length_le wire.decodeAsObject schema.orderedFields target
  have hcount := orderedFields_length_le (hlayered.wellFormed hfound) fun field _ => field.tag.isLt
  have hsample := sampleBytes_length_le target
  have hlength : ((companions wire.decodeAsObject schema.orderedFields target).flatMap
      FieldDef.sampleBytes ++ target.sampleBytes).length < 2 ^ 63 := by
    rw [List.length_append]
    omega
  obtain ⟨buffer, hbuffer⟩ := exists_buffer hlength
  have htail : Carries wire schema target.sampleBytes
      [target.delivery (wire.sampleItem target.type)] := by
    have hruns := samples_run hlayered hfound
      (List.forall_mem_singleton.mpr ⟨htarget, hreadable⟩) hreads
    simpa [WireContext.sampleDeliveries, deliveries_single] using hruns
  obtain ⟨decoded, entries, haccepts, hfiled⟩ := accepts_target hlayered hfound hsuppliable hreads
    (target.delivery_key _ (wire.sampleItem target.type)) htail hbuffer (Nat.le_refl _)
  refine ⟨buffer, entries, haccepts.decode, ?_⟩
  rw [haccepts.lookup, hfiled]
  rfl

/-- A schema that can be supplied accepts something. -/
theorem accepts_of_suppliable :
    ∃ buffer entries, quicproIibinDecode wire buffer.bytes.length schemaName buffer =
      .ok (container wire.decodeAsObject entries, none) := by
  by_cases hreadable : ∃ field ∈ schema.orderedFields, field.tag ≠ 0
  · obtain ⟨target, htarget, hreadable⟩ := hreadable
    obtain ⟨buffer, entries, hdecode, -⟩ :=
      accepts_sample hlayered hfound hsuppliable hreads htarget hreadable
    exact ⟨buffer, entries, hdecode⟩
  · -- nothing can be delivered, and the defaults are enough
    obtain ⟨buffer, hbuffer⟩ := exists_buffer (by decide : ([] : Bytes).length < 2 ^ 63)
    have hsupplied : Supplied [] schema.orderedFields := by
      rw [supplied_iff (hlayered.wellFormed hfound).sorted]
      intro field hfield hrequired
      refine .inr ((hsuppliable field hfield hrequired).resolve_left ?_)
      rintro ⟨other, hother, hne, -⟩
      exact hreadable ⟨other, hother, hne⟩
    have hcarries : Carries wire schema buffer.bytes [] := by
      rw [hbuffer]
      exact fun _ _ => Runs.nil
    obtain ⟨entries, haccepts⟩ := quicproIibinDecode_runs hlayered hfound hcarries
      ⟨by simp, by simp⟩ rfl hsupplied (Nat.le_refl _)
    exact ⟨buffer, entries, haccepts.decode⟩

end

end QuicproAsync.Iibin

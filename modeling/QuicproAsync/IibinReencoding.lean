import QuicproAsync.IibinNesting
import QuicproAsync.IibinReturn

/-!
# Decoded messages, encoded again

The bytes that the decoder accepts need not come from the encoder: varints may be
overlong, a singular field may occur twice, a packed block may be empty. A repeated field can
always be sent so that its list is given back before it is returned. Where there is none,
what arrives is an array of values of the declared types and of defaults. The encoder takes it
back, and decoding returns the same array, exactly if the schema has no value that is lost on
the way: a default that is not a value of its field, or (among names that were cut at a NUL)
fields that are in each other's way.
-/

namespace QuicproAsync.Iibin

open Php Fallible ScanLoop

variable {made : List Delivery} {decoded entries : HashTable} {host : Host} {registry : Registry}
  {ok : Bytes → Prop} {bytes name : Bytes} {item value : Zval} {schema : CompiledSchema}
  {field : FieldDef}

/-! ### Schemas whose messages can be encoded again -/

/-- A message without this name is not rejected for a required field. -/
def CompiledSchema.MayOmit (schema : CompiledSchema) (name : Bytes) : Prop :=
  ∀ field ∈ schema.named name, field.flags.required = true →
    ∃ earlier ∈ schema.named name, earlier.tag.toNat < field.tag.toNat ∧
      earlier.hasFallback = true

/-- The condition on a schema. If no name was cut at a NUL, the names are distinct and
    `textual` and `values` hold of themselves. -/
structure CompiledSchema.Reencodable (schema : CompiledSchema) : Prop where
  singular : ∀ field ∈ schema.orderedFields, field.flags.repeated = false
  textual : ∀ field ∈ schema.orderedFields, handleNumericStr field.nameInPhp = none
  values : ∀ field ∈ schema.orderedFields, ∀ last,
    (schema.named field.nameInPhp).getLast? = some last →
      ∀ item, field.type.Returns item → last.type.Returns item
  defaults : ∀ name item, schema.MayOmit name →
    fallback schema.orderedFields (.str name) = some item → schema.Restorable name item

/-- The result can be encoded, and decoding that returns the same entries. -/
def Reencodes (host : Host) (registry : Registry) (schemaName : Bytes) (result : Zval) : Prop :=
  ∃ bytes, quicproIibinEncode host registry schemaName result = .ok bytes ∧
    ∀ (buffer : Buffer) (fuel : Nat), buffer.bytes = bytes → bytes.length ≤ fuel →
      ∃ entries again, result = .array entries ∧
        quicproIibinDecodeTracked ⟨host, registry, .asWritten, false⟩ fuel schemaName buffer =
          .ok (.live (.array again), none) ∧
        (OrderedMap.keys again).Nodup ∧ again.Perm entries

section Sufficient

theorem CompiledSchema.Reencodable.entryKey_eq (hcond : schema.Reencodable)
    (hfield : field ∈ schema.orderedFields) : field.entryKey false = .str field.nameInPhp :=
  FieldDef.entryKey_str fun _ => hcond.textual field hfield

/-- Where the names are taken as they are, only the names of fields are used. -/
theorem CompiledSchema.Reencodable.lookup_other (hcond : schema.Reencodable)
    {good : FieldDef → Zval → Prop} (hmade : ∀ delivery ∈ made, delivery.From schema good)
    (hfold : made.foldlM (Delivery.apply false) [] = .ok decoded) {key : Key}
    (hother : ∀ field ∈ schema.orderedFields, key ≠ .str field.nameInPhp) :
    decoded.lookup key = none := by
  rw [← Option.not_isSome_iff_eq_none, isSome_lookup_foldlM hfold]
  rintro (hsome | ⟨delivery, hdelivery, hkey⟩)
  · exact absurd hsome (by simp)
  · have hfrom := hmade delivery hdelivery
    rw [hfrom.key_eq, hcond.entryKey_eq hfrom.declared] at hkey
    exact hother _ hfrom.declared hkey.symm

/-- A required field is found again. -/
theorem CompiledSchema.Reencodable.requiredFound (hcond : schema.Reencodable) (data : Zval) :
    RequiredFound false schema data := by
  intro field hfield _
  rw [if_neg (by simp [hcond.singular field hfield])]
  exact .inl (.inr (hcond.textual field hfield))

variable (hintegral : schema.IsIntegral)

include hintegral

theorem CompiledSchema.Reencodable.kind_eq (hcond : schema.Reencodable) {last : FieldDef}
    (hfield : field ∈ schema.orderedFields)
    (hlast : (schema.named field.nameInPhp).getLast? = some last) :
    field.type = .bool ↔ last.type = .bool := by
  constructor
  · intro hbool
    exact hcond.values field hfield last hlast (.bool true) hbool
  · intro hbool
    by_contra hother
    have hzero : field.type.Returns (.long 0) := by
      rw [← decodedItem_eq_self_iff default (hintegral field hfield)]
      have hown := hintegral field hfield
      revert hother hown
      cases field.type <;> intro hother hown
      case bool => exact absurd rfl hother
      all_goals first | rfl | exact absurd hown (by decide)
    have hkept := hcond.values field hfield last hlast _ hzero
    simp only [FieldType.Returns, hbool] at hkept
    exact hkept

/-- A single value that was decoded is that of the last delivery. -/
theorem CompiledSchema.Reencodable.restorable_value (hcond : schema.Reencodable) {last : Delivery}
    (hfrom : last.From schema fun field item => field.type.Returns item)
    (hnamed : last.field ∈ schema.named name) {old : Option Zval}
    (hvalue : some (last.change old) = some value) : schema.Restorable name value := by
  obtain ⟨hdeclared, hname⟩ := mem_named.mp hnamed
  have hitem : last.field.type.Returns value := by
    rcases last with ⟨field, item⟩ | ⟨field, items⟩
    · obtain rfl := Option.some.inj hvalue
      exact hfrom.items _ List.mem_cons_self
    · exact absurd (hfrom.kind.trans (hcond.singular _ hdeclared)) (by simp [Delivery.isList])
  obtain ⟨final, hfinal⟩ := Option.isSome_iff_exists.mp
    (List.getLast?_isSome.mpr (List.ne_nil_of_mem hnamed))
  have hkind : ∀ field ∈ schema.named name, field.type = .bool ↔ final.type = .bool := by
    intro field hother
    obtain ⟨hmember, hsame⟩ := mem_named.mp hother
    exact hcond.kind_eq hintegral hmember (by rw [hsame, hfinal])
  exact .value hfinal hkind
    (hcond.values last.field hdeclared final (by rw [hname, hfinal]) value hitem)

/-- Whatever was decoded under a name is restorable. -/
theorem CompiledSchema.Reencodable.restorable_decoded (hcond : schema.Reencodable)
    (hmade : ∀ delivery ∈ made, delivery.From schema fun field item => field.type.Returns item)
    (hfold : made.foldlM (Delivery.apply false) [] = .ok decoded)
    (hlookup : decoded.lookup (.str name) = some value) :
    schema.Restorable name value := by
  have hkinds : ∀ delivery ∈ made, delivery.isList = false := fun delivery hdelivery =>
    (hmade delivery hdelivery).kind.trans (hcond.singular _ (hmade delivery hdelivery).declared)
  have hcompatible : Compatible false made [] := ⟨fun _ _ _ => IsListed.none,
    fun first hfirst second hsecond _ => (hkinds first hfirst).trans (hkinds second hsecond).symm⟩
  rw [foldlM_apply_eq hcompatible] at hfold
  obtain rfl := Except.ok.inj hfold
  rw [lookup_deliveries, List.lookup_nil] at hlookup
  -- the deliveries under the name, in order
  generalize hgroup : made.filter (fun delivery => delivery.key false = .str name) = group
    at hlookup
  rcases List.eq_nil_or_concat group with rfl | ⟨front, last, rfl⟩
  · cases hlookup
  have hlast : last ∈ front.concat last := by simp
  rw [← hgroup] at hlast
  obtain ⟨hmem, hkey⟩ := List.mem_filter.mp hlast
  have hfrom := hmade last hmem
  have hname : last.field.nameInPhp = name := by
    rw [decide_eq_true_eq, hfrom.key_eq, hcond.entryKey_eq hfrom.declared] at hkey
    exact Key.str.inj hkey
  rw [List.concat_eq_append, List.foldl_append] at hlookup
  exact hcond.restorable_value hintegral hfrom (mem_named.mpr ⟨hfrom.declared, hname⟩) hlookup

/-- Whatever a result has under a name is restorable. -/
theorem CompiledSchema.Reencodable.restorable_entries (hformed : schema.WellFormed registry)
    (hcond : schema.Reencodable)
    (hmade : ∀ delivery ∈ made, delivery.From schema fun field item => field.type.Returns item)
    (hfold : made.foldlM (Delivery.apply false) [] = .ok decoded)
    (hsupplied : Supplied decoded schema.orderedFields) (hentries : ∀ key, entries.lookup key =
      (decoded.lookup key).or (fallback schema.orderedFields key))
    (hlookup : entries.lookup (.str name) = some value) : schema.Restorable name value := by
  rw [hentries] at hlookup
  rcases hdecoded : decoded.lookup (.str name) with _ | stored
  · rw [hdecoded, Option.none_or] at hlookup
    refine hcond.defaults name value (fun field hfield hrequired => ?_) hlookup
    obtain ⟨hmem, hname⟩ := mem_named.mp hfield
    obtain hsome | ⟨earlier, hearlier, hless, hsame, hfallback⟩ :=
      (supplied_iff hformed.sorted decoded).mp hsupplied field hmem hrequired
    · rw [hname, hdecoded] at hsome
      exact absurd hsome (by simp)
    · exact ⟨earlier, mem_named.mpr ⟨hearlier, hsame.trans hname⟩, hless, hfallback⟩
  · rw [hdecoded, Option.some_or, Option.some_inj] at hlookup
    rw [← hlookup]
    exact hcond.restorable_decoded hintegral hmade hfold hdecoded

/-- **The condition is sufficient.** -/
theorem CompiledSchema.Reencodable.reencodes (hreach : Reachable ok registry) {schemaName : Bytes}
    (hfound : registry.Has schemaName schema) (htags : schema.SmallTags)
    (hcond : schema.Reencodable) {fuel : Nat} {buffer : Buffer} {result : Zval}
    {warning : Option IibinError}
    (hdecode : quicproIibinDecode ⟨host, registry, .asWritten, false⟩ fuel schemaName buffer =
      .ok (result, warning)) : Reencodes host registry schemaName result := by
  have hformed := hreach.layered.wellFormed hfound
  have hstored : ∀ depth, ReadsGood ⟨⟨host, registry, .asWritten, false⟩, buffer.memory, fuel⟩
      (decodeMessageInternal ⟨⟨host, registry, .asWritten, false⟩, buffer.memory, fuel⟩ depth)
      schema fun field item => field.type.Returns item :=
    fun depth field hfield ptr bufEnd wireType q value hread =>
      returns_stored (hintegral field hfield) hread
  obtain ⟨-, made, decoded, entries, -, hmade, hfold, hsupplied, rfl, hentries, hnodup⟩ :=
    quicproIibinDecode_from hreach.layered hfound hstored hdecode
  have hrestorable : ∀ name value, entries.lookup (.str name) = some value →
      schema.Restorable name value := fun name value =>
    hcond.restorable_entries hintegral hformed hmade hfold hsupplied hentries
  have hfilled := filled_of_lookup hsupplied hentries
  have hmessage : isMessage (.array entries) = true := rfl
  obtain ⟨depth, haccepts⟩ := quicproIibinEncode_iff host hreach hfound hmessage
  have haccepted : Accepted host registry (encodeMessageInternal host registry depth)
      (.array entries) schema.orderedFields := by
    intro field hfield
    rcases hlookup : entries.lookup (.str field.nameInPhp) with _ | value
    · have hoptional : field.flags.required = false := by
        by_contra hrequired
        rw [Bool.not_eq_false] at hrequired
        have hsome := hfilled.required field hfield hrequired
        rw [hlookup] at hsome
        exact absurd hsome (by simp)
      refine ⟨[], ?_⟩
      simp [readMember, hlookup, encodeFieldInternal, hoptional]
    · simp only [readMember, hlookup]
      exact (hrestorable _ _ hlookup).accepts hintegral (mem_named.mpr ⟨hfield, rfl⟩)
        (hcond.singular field hfield)
  obtain ⟨bytes, hok⟩ := haccepts.mpr haccepted
  refine ⟨bytes, hok, fun again fuel' hbytes hfuel => ?_⟩
  have hkept : NothingRejected false schema (.array entries) := fun field hfield _ =>
    rejection_array (layout_of_isIntegral (hintegral field hfield))
  have hrequires := hcond.requiredFound (.array entries)
  rcases quicproIibinDecode_outcome hreach hfound htags hok hbytes hfuel false with
    ⟨hnot, -⟩ | ⟨-, hnot, -⟩ | ⟨-, -, entries', hdecode', hnodup', hlookup'⟩
  · exact absurd hkept hnot
  · exact absurd hrequires hnot
  refine ⟨entries, entries', rfl, ?_, hnodup',
    OrderedMap.perm_of_lookup hnodup' hnodup fun key => ?_⟩
  · rw [decodeTracked_singular hformed hfound hintegral fun field hfield _ =>
      hcond.singular field hfield, hdecode']
    rfl
  rw [hlookup']
  by_cases hnamed : ∃ field ∈ schema.orderedFields, key = .str field.nameInPhp
  · obtain ⟨field, hfield, rfl⟩ := hnamed
    rcases hlookup : entries.lookup (.str field.nameInPhp) with _ | value
    · have hdefault := hlookup
      rw [hentries, Option.or_eq_none_iff] at hdefault
      rw [hlookup, hdefault.2, Option.or_none, ← Option.not_isSome_iff_eq_none,
        isSome_arrived haccepted]
      rintro ⟨other, -, hgiven, hkey⟩
      have hmember : readMember (.array entries) other.nameInPhp = none := by
        rw [FieldDef.name_of_entryKey hkey, readMember, hlookup]
      simp [isGiven, hmember] at hgiven
    · rw [hlookup]
      refine (restored_iff hintegral hcond.singular haccepted hlookup fun other hother => ?_).mpr
        (hrestorable _ _ hlookup)
      exact hcond.textual other (mem_named.mp hother).1
  · have hother : ∀ field ∈ schema.orderedFields, key ≠ .str field.nameInPhp :=
      fun field hfield hkey => hnamed ⟨field, hfield, hkey⟩
    rw [hentries, hcond.lookup_other hmade hfold hother, fallback_other hother, Option.none_or,
      Option.or_none, ← Option.not_isSome_iff_eq_none, isSome_arrived haccepted]
    rintro ⟨field, hfield, -, hkey⟩
    rw [hcond.entryKey_eq hfield] at hkey
    exact hother field hfield hkey.symm

end Sufficient

/-! ### How long an encoding is -/

section Length

variable {encodeMessage : MessageEncoder} {data : Zval}

theorem encodeSingleFieldValue_length_le (hintegral : field.type.isIntegral = true)
    (hok : encodeSingleFieldValue host registry encodeMessage field value = .ok bytes) :
    bytes.length ≤ 20 := by
  rw [encodeSingleFieldValue_scalar (FieldType.isPackable_of_isIntegral hintegral) hok,
    List.length_append]
  exact Nat.add_le_add (encodeVarint_length_le _) (encodePackedItem_length_le host _ _)

theorem encodeFieldInternal_length_le (hintegral : field.type.isIntegral = true)
    (hsingular : field.flags.repeated = false) {value : Option Zval}
    (hok : encodeFieldInternal host registry encodeMessage field value = .ok bytes) :
    bytes.length ≤ 20 := by
  unfold encodeFieldInternal at hok
  rw [hsingular] at hok
  split at hok
  · split at hok
    · cases hok
    · cases hok
      exact Nat.zero_le _
  · split at hok
    · split at hok
      · cases hok
      · cases hok
        exact Nat.zero_le _
    · exact encodeSingleFieldValue_length_le hintegral hok

theorem encodeFields_length_le {fields : List FieldDef}
    (hintegral : ∀ field ∈ fields, field.type.isIntegral = true)
    (hsingular : ∀ field ∈ fields, field.flags.repeated = false)
    (hok : encodeFields host registry encodeMessage data fields = .ok bytes) :
    bytes.length ≤ 20 * fields.length := by
  induction fields generalizing bytes with
  | nil =>
    obtain rfl := Except.ok.inj hok
    exact Nat.le_refl _
  | cons field rest ih =>
    obtain ⟨first, hfirst, hok⟩ := bind_eq_ok.mp hok
    obtain ⟨others, hothers, hok⟩ := bind_eq_ok.mp hok
    obtain rfl := Except.ok.inj hok
    rw [List.length_append, List.length_cons, Nat.mul_add, Nat.add_comm]
    exact Nat.add_le_add
      (ih (fun other hother => hintegral other (List.mem_cons_of_mem _ hother))
        (fun other hother => hsingular other (List.mem_cons_of_mem _ hother)) hothers)
      (encodeFieldInternal_length_le (hintegral field List.mem_cons_self)
        (hsingular field List.mem_cons_self) hfirst)

end Length

/-! ### The condition is necessary -/

/-- A value of the type behind the key of its field. -/
def FieldDef.valueBytes (host : Host) (field : FieldDef) (item : Zval) : Bytes :=
  encodeVarint (wireKey field.tag field.sampleWireType) ++ encodePackedItem host field.type item

theorem valueBytes_length_le (host : Host) (field : FieldDef) (item : Zval) :
    (field.valueBytes host item).length ≤ 20 := by
  rw [FieldDef.valueBytes, List.length_append]
  exact Nat.add_le_add (encodeVarint_length_le _) (encodePackedItem_length_le host _ _)

theorem valueBytes_runs (ctx : WireContext) (nested : Wire.MessageReader)
    (htyped : field.WellTyped ctx.registry)
    (hknown : schema.fieldsByTag.lookup field.tag = some field) (hreadable : field.tag ≠ 0)
    (hintegral : field.type.isIntegral = true) (hreturns : field.type.Returns item) :
    Runs .overrun (Wire.field ctx nested schema) (container ctx.decodeAsObject)
      (field.valueBytes ctx.host item)
      fun entries => Wire.lift ([field.delivery item].foldlM
        (Delivery.apply ctx.decodeAsObject) entries) := by
  have hwire : field.sampleWireType = field.wireType ∨ field.flags.packed = true := by
    unfold FieldDef.sampleWireType
    split
    · exact .inr ‹_›
    · exact .inl rfl
  rw [← deliveries_single]
  refine item_runs ctx nested hknown hreadable (sampleWireType_lt htyped)
    (sampleWireType_single field) fun rest => ?_
  rw [value_encodePackedItem ctx nested hwire (FieldType.isPackable_of_isIntegral hintegral),
    (decodedItem_eq_self_iff ctx.host hintegral item).mpr hreturns]

theorem FieldDef.SmallTag.ne_zero (htag : field.SmallTag) : field.tag ≠ 0 := by
  intro hzero
  have hpositive := htag.1
  rw [hzero] at hpositive
  exact absurd hpositive (by decide)

/-- Every type has two values. -/
theorem exists_two_values {type : FieldType} (hintegral : type.isIntegral = true) :
    ∃ first second, type.Returns first ∧ type.Returns second ∧ first ≠ second := by
  by_cases hbool : type = .bool
  · exact ⟨.bool true, .bool false, hbool, hbool, by simp⟩
  · refine ⟨.long 0, .long 1, ?_, ?_, by simp⟩
    all_goals
      rw [← decodedItem_eq_self_iff default hintegral]
      revert hbool hintegral
      cases type <;> simp [FieldType.isIntegral, decodedItem, zvalGetLong]

section Necessary

variable {schemaName : Bytes}

/-- The entries are accepted by the encoder, and the decoder finds them again. -/
def Restores (host : Host) (registry : Registry) (schema : CompiledSchema)
    (entries : HashTable) : Prop :=
  ∃ encodeMessage, Accepted host registry encodeMessage (.array entries) schema.orderedFields ∧
    ∀ key, ((arrived false host registry (.array entries) schema.orderedFields).lookup key).or
      (fallback schema.orderedFields key) = entries.lookup key

theorem Reencodes.restores (hreach : Reachable ok registry)
    (hfound : registry.Has schemaName schema) (htags : schema.SmallTags)
    (hintegral : schema.IsIntegral)
    (hsingular : ∀ field ∈ schema.orderedFields, field.flags.repeated = false)
    (hreencodes : Reencodes host registry schemaName (.array entries)) :
    Restores host registry schema entries := by
  obtain ⟨bytes, hok, hdecodes⟩ := hreencodes
  obtain ⟨depth, -, -, hfields⟩ := quicproIibinEncode_ok hfound hok
  have hcount := orderedFields_length_le (hreach.layered.wellFormed hfound)
    fun field hfield => (htags field hfield).2
  have hlength := encodeFields_length_le hintegral hsingular hfields
  obtain ⟨buffer, hbuffer⟩ := exists_buffer (show bytes.length < 2 ^ 63 by omega)
  obtain ⟨entries', again, hentries, hlive, hnodup, hperm⟩ :=
    hdecodes buffer bytes.length hbuffer (Nat.le_refl _)
  obtain rfl := Zval.array.inj hentries
  have hdecode := quicproIibinDecode_of_live hlive
  obtain ⟨depth', haccepted⟩ := quicproIibinEncode_accepted hfound hok
  refine ⟨_, haccepted, fun key => ?_⟩
  rcases quicproIibinDecode_outcome hreach hfound htags hok hbuffer (Nat.le_refl _) false with
    ⟨-, field, -, fault, -, hfails⟩ | ⟨-, -, error, hfails⟩ | ⟨-, -, found, hfinds, -, hlookup⟩
  · exact absurd (hdecode.symm.trans hfails) (by simp)
  · exact absurd (hdecode.symm.trans hfails) (by simp)
  · have hsame := hdecode.symm.trans hfinds
    obtain rfl : again = found := by simpa [container] using hsame
    rw [← hlookup, OrderedMap.lookup_of_perm hnodup hperm]

/-- There is room for the companions of a field and a value of its own. -/
theorem exists_companion_buffer (hformed : schema.WellFormed registry) (htags : schema.SmallTags)
    (target : FieldDef) {tail : Bytes} (hlength : tail.length ≤ 20) :
    ∃ buffer : Buffer, buffer.bytes =
      (companions false schema.orderedFields target).flatMap FieldDef.sampleBytes ++ tail := by
  have hcount := orderedFields_length_le hformed fun field hfield => (htags field hfield).2
  have hcompanions := companions_length_le false schema.orderedFields target
  apply exists_buffer
  rw [List.length_append]
  omega

theorem reads_of_integral (hintegral : schema.IsIntegral) :
    ∀ field ∈ schema.orderedFields, BoundReading.asWritten = .againstBufEnd ∨
      Wire.layout field.type ≠ some .delimited :=
  fun field hfield => .inr (layout_of_isIntegral (hintegral field hfield))

variable (hreach : Reachable ok registry) (hfound : registry.Has schemaName schema)
  (htags : schema.SmallTags) (hintegral : schema.IsIntegral)
  (hsingular : ∀ field ∈ schema.orderedFields, field.flags.repeated = false) {fuel₀ : Nat}
  {buffer₀ : Buffer} {accepted : Zval × Option IibinError}
  (haccepts : quicproIibinDecode ⟨host, registry, .asWritten, false⟩ fuel₀ schemaName buffer₀ =
    .ok accepted) (hreencodes : ∀ fuel buffer result warning,
    quicproIibinDecode ⟨host, registry, .asWritten, false⟩ fuel schemaName buffer =
      .ok (result, warning) → Reencodes host registry schemaName result)

include hreach hfound htags hintegral hsingular haccepts hreencodes

/-- A message with a value of our choice in it is restored. Names that no field delivers to
    have nothing but their default. -/
theorem restores_value {target : FieldDef} (htarget : target ∈ schema.orderedFields)
    (hreturns : target.type.Returns item) :
    ∃ entries, Restores host registry schema entries ∧
      entries.lookup (target.entryKey false) = some item ∧
      ∀ key, (∀ field ∈ schema.orderedFields, field.entryKey false ≠ key) →
        entries.lookup key = fallback schema.orderedFields key := by
  have hlayered : (arrayContext host registry).registry.Layered := hreach.layered
  have hformed := hlayered.wellFormed hfound
  obtain ⟨buffer, hbuffer⟩ := exists_companion_buffer hformed htags target
    (valueBytes_length_le host target item)
  obtain ⟨decoded, entries, ⟨hread, hdecode, hlookup, -⟩, hdecoded⟩ :=
    accepts_target hlayered hfound (suppliable_of_accepts hlayered hfound haccepts)
      (reads_of_integral hintegral) (target.delivery_key false item)
      (fun depth _ => valueBytes_runs ⟨host, registry, .asWritten, false⟩ _
        (hformed.fields target htarget) ((hformed.byTag target.tag target).mpr ⟨htarget, rfl⟩)
        (htags target htarget).ne_zero (hintegral target htarget) hreturns) hbuffer (Nat.le_refl _)
  refine ⟨entries, (hreencodes _ _ _ _ hdecode).restores hreach hfound htags hintegral hsingular,
    ?_, fun key hother => ?_⟩
  · have hstored : decoded.lookup (target.entryKey false) =
        some ((target.delivery item).change none) := hdecoded
    rw [hlookup, hstored, Option.some_or, FieldDef.delivery,
      if_neg (by simp [hsingular target htarget])]
    rfl
  · obtain ⟨ptr, made, decoded', _, hread', hmade, hfold, -⟩ :=
      quicproIibinDecode_from hlayered hfound
        (fun _ _ _ _ _ _ _ _ _ => (trivial : (fun _ _ => True) _ _)) hdecode
    have hsame : decoded = decoded' := by
      have hresults := hread.symm.trans hread'
      simp only [Except.ok.injEq, Prod.mk.injEq] at hresults
      exact Zval.array.inj hresults.2
    have hnone : decoded.lookup key = none := by
      rw [hsame, ← Option.not_isSome_iff_eq_none, isSome_lookup_foldlM hfold]
      rintro (hsome | ⟨delivery, hdelivery, hkey⟩)
      · exact absurd hsome (by simp)
      · have hfrom := hmade delivery hdelivery
        exact hother _ hfrom.declared ((hfrom.key_eq false).symm.trans hkey)
    rw [hlookup, hnone, Option.none_or]

/-- A field whose name is filed as an integer is not found by the encoder. What comes back is
    made from the default, whatever was there. -/
theorem textual_of_reencodes (hfield : field ∈ schema.orderedFields) :
    handleNumericStr field.nameInPhp = none := by
  by_contra hnumeric
  have hkeys : ∀ other ∈ schema.orderedFields,
      other.entryKey false = valueKey false field.nameInPhp ↔
        other.nameInPhp = field.nameInPhp := by
    intro other hother
    constructor
    · exact FieldDef.name_of_valueKey
    · intro hname
      rw [FieldDef.entryKey, if_neg (by simp [hsingular other hother]), hname]
  have hnokey : ∀ other ∈ schema.orderedFields,
      other.entryKey false ≠ .str field.nameInPhp := by
    intro other hother hkey
    have hname := FieldDef.name_of_entryKey hkey
    rw [(hkeys other hother).mpr hname, valueKey_eq_str_iff] at hkey
    exact hkey.elim (by simp) hnumeric
  have hnofallback : fallback schema.orderedFields (valueKey false field.nameInPhp) = none := by
    refine fallback_other fun other hother hkey => ?_
    have hname := str_injective_valueKey hkey
    rw [← hname, valueKey_eq_str_iff] at hkey
    exact hkey.elim (by simp) hnumeric
  obtain ⟨final, hfinal⟩ := Option.isSome_iff_exists.mp (List.getLast?_isSome.mpr
    (List.ne_nil_of_mem (CompiledSchema.mem_named.mpr ⟨hfield, rfl⟩)))
  -- each value of the field would be the decoded default
  have hconstant : ∀ item, field.type.Returns item → ∃ default,
      fallback schema.orderedFields (.str field.nameInPhp) = some default ∧
        decodedItem host final.type (numbered registry final default) = item := by
    intro item hreturns
    obtain ⟨entries, ⟨encodeMessage, haccepted, hrestores⟩, hlookup, hothers⟩ :=
      restores_value hreach hfound htags hintegral hsingular haccepts hreencodes hfield hreturns
    rw [(hkeys field hfield).mpr rfl] at hlookup
    have harrived := hrestores (valueKey false field.nameInPhp)
    rw [hlookup, hnofallback, Option.or_none] at harrived
    have hsome : ((arrived false host registry (.array entries) schema.orderedFields).lookup
        (valueKey false field.nameInPhp)).isSome := by
      rw [harrived]
      rfl
    obtain ⟨given, hmem, hgiven, hkey⟩ := (isSome_arrived haccepted _).mp hsome
    have hname := (hkeys given hmem).mp hkey
    obtain ⟨bytes, hok⟩ := haccepted given hmem
    rcases sentItems_cases hok with ⟨hnot, -⟩ | ⟨-, -, default, hmember, hnullish, -, -⟩ |
      ⟨-, hrepeated, -⟩
    · exact absurd (hgiven.symm.trans hnot) (by simp)
    · rw [hname] at hmember
      have hitems : ∀ other ∈ schema.named field.nameInPhp, other.flags.repeated = false ∧
          arrivingItems host registry (.array entries) other =
            [decodedItem host other.type (numbered registry other default)] := by
        intro other hother
        obtain ⟨hdeclared, hsame⟩ := CompiledSchema.mem_named.mp hother
        have hvalue := hsingular other hdeclared
        rw [arrivingItems, hsame, hmember, sentItems_singular registry hnullish hvalue]
        exact ⟨hvalue, rfl⟩
      rw [lookup_arrived_named hkeys, foldl_change_singular hitems, hfinal] at harrived
      exact ⟨default, (hothers _ hnokey).symm.trans hmember, Option.some.inj harrived⟩
    · exact absurd (hrepeated.symm.trans (hsingular given hmem)) (by simp)
  obtain ⟨first, second, hfirst, hsecond, hne⟩ := exists_two_values (hintegral field hfield)
  obtain ⟨default, hdefault, hleft⟩ := hconstant first hfirst
  obtain ⟨default', hdefault', hright⟩ := hconstant second hsecond
  obtain rfl := Option.some.inj (hdefault.symm.trans hdefault')
  exact hne (hleft.symm.trans hright)

theorem Restores.restorable (hrestores : Restores host registry schema entries)
    (hlookup : entries.lookup (.str name) = some value) :
    schema.Restorable name value := by
  obtain ⟨encodeMessage, haccepted, hrestores⟩ := hrestores
  refine (restored_iff hintegral hsingular haccepted hlookup fun field hfield => ?_).mp
    ((hrestores _).trans hlookup)
  exact textual_of_reencodes hreach hfound htags hintegral hsingular haccepts hreencodes
    (CompiledSchema.mem_named.mp hfield).1

/-- A message without a name is restored as well. -/
theorem restores_default (homit : schema.MayOmit name)
    (hfallback : fallback schema.orderedFields (.str name) = some item) :
    ∃ entries, Restores host registry schema entries ∧ entries.lookup (.str name) = some item := by
  have hlayered : (arrayContext host registry).registry.Layered := hreach.layered
  obtain ⟨target, htarget, hhere⟩ := List.exists_of_findSome?_eq_some hfallback
  rw [FieldDef.fallback] at hhere
  obtain ⟨hboth, hsame⟩ := Option.ite_none_right_eq_some.mp hhere
  obtain rfl := Key.str.inj hboth.1
  have hkey : target.entryKey false = .str target.nameInPhp := FieldDef.entryKey_str fun _ =>
    textual_of_reencodes hreach hfound htags hintegral hsingular haccepts hreencodes htarget
  have hempty : ([] : Bytes).length ≤ 20 := Nat.zero_le 20
  obtain ⟨buffer, hbuffer⟩ := exists_companion_buffer (hlayered.wellFormed hfound) htags target
    hempty
  have hnothing : ∀ last ∈ ([] : List Delivery), last.key false = target.entryKey false := by
    simp
  obtain ⟨decoded, entries, ⟨-, hdecode, hlookup, -⟩, hdecoded⟩ :=
    accepts_beside hlayered hfound (suppliable_of_accepts hlayered hfound haccepts)
      (reads_of_integral hintegral) hnothing (by simp)
      (fun _ field hfield hrequired hname => by
        obtain ⟨earlier, hearlier, hless, hsupply⟩ := homit field
          (CompiledSchema.mem_named.mpr ⟨hfield, Key.str.inj (hname.trans hkey)⟩) hrequired
        obtain ⟨hmem, hsame⟩ := CompiledSchema.mem_named.mp hearlier
        exact ⟨earlier, hmem, hless, hsame.trans (Key.str.inj (hname.trans hkey)).symm, hsupply⟩)
      (fun _ _ => Runs.nil) hbuffer (Nat.le_refl _)
  have hitem : entries.lookup (.str target.nameInPhp) = some item := by
    have hnone : decoded.lookup (target.entryKey false) = none := hdecoded
    rw [hkey] at hnone
    rw [hlookup, hnone, Option.none_or, hfallback]
  exact ⟨entries, (hreencodes _ _ _ _ hdecode).restores hreach hfound htags hintegral hsingular,
    hitem⟩

theorem values_of_reencodes {last : FieldDef} (hfield : field ∈ schema.orderedFields)
    (hlast : (schema.named field.nameInPhp).getLast? = some last)
    (hreturns : field.type.Returns item) : last.type.Returns item := by
  obtain ⟨entries, hrestores, hlookup, -⟩ :=
    restores_value hreach hfound htags hintegral hsingular haccepts hreencodes hfield hreturns
  rw [FieldDef.entryKey_str fun _ => textual_of_reencodes hreach hfound htags hintegral hsingular
    haccepts hreencodes hfield] at hlookup
  rcases hrestores.restorable hreach hfound htags hintegral hsingular haccepts hreencodes hlookup
    with ⟨hlast', -, hkept⟩ | ⟨hnullish, -, -⟩
  · obtain rfl := Option.some.inj (hlast.symm.trans hlast')
    exact hkept
  · exact absurd (hnullish.symm.trans hreturns.isNullish) (by simp)

/-- **The condition is necessary.** -/
theorem reencodable_of_reencodes : schema.Reencodable where
  singular := hsingular
  textual _ := textual_of_reencodes hreach hfound htags hintegral hsingular haccepts hreencodes
  values _ hfield _ hlast _ :=
    values_of_reencodes hreach hfound htags hintegral hsingular haccepts hreencodes hfield hlast
  defaults name item homit hfallback := by
    obtain ⟨entries, hrestores, hlookup⟩ := restores_default hreach hfound htags hintegral hsingular
      haccepts hreencodes homit hfallback
    exact hrestores.restorable hreach hfound htags hintegral hsingular haccepts hreencodes hlookup

end Necessary

/-- **Decoded messages can be encoded again**, all of them, exactly for reencodable schemas:
    no call uses freed memory, and whatever is returned is there and can be encoded again. -/
theorem reencodes_iff (host : Host) (registry : Registry)
    (hreach : Reachable (fun _ => True) registry) (schemaName : Bytes) (schema : CompiledSchema)
    (hfound : getCompiledIibinSchemaInternal registry schemaName = some schema)
    (htags : ∀ field ∈ schema.orderedFields, field.SmallTag)
    (hintegral : ∀ field ∈ schema.orderedFields, field.type.isIntegral = true)
    (haccepts : ∃ fuel buffer accepted,
      quicproIibinDecodeTracked ⟨host, registry, .asWritten, false⟩ fuel schemaName buffer =
        .ok accepted) :
    (∀ fuel buffer,
      quicproIibinDecodeTracked ⟨host, registry, .asWritten, false⟩ fuel schemaName buffer ≠
        .error .useAfterFree ∧
      ∀ returned warning,
        quicproIibinDecodeTracked ⟨host, registry, .asWritten, false⟩ fuel schemaName buffer =
          .ok (returned, warning) →
        ∃ result, returned = .live result ∧ Reencodes host registry schemaName result) ↔
    schema.Reencodable := by
  have hformed := hreach.layered.wellFormed hfound
  constructor
  · intro hall
    have hsingular : ∀ field ∈ schema.orderedFields, field.flags.repeated = false := by
      intro field hfield
      refine Bool.eq_false_of_not_eq_true fun hrepeated => ?_
      obtain ⟨buffer, hbuffer⟩ := exists_twice field
      exact (hall _ buffer).1 (sample_twice_used rfl hreach.layered hfound hfield
        (htags field hfield).ne_zero (.inr (layout_of_isIntegral (hintegral field hfield)))
        (by simp [FieldDef.isGivenBack, hrepeated]) hbuffer (Nat.le_refl _))
    simp only [decodeTracked_singular hformed hfound hintegral fun field hfield _ =>
      hsingular field hfield] at hall haccepts
    have hreencodes : ∀ fuel buffer result warning,
        quicproIibinDecode ⟨host, registry, .asWritten, false⟩ fuel schemaName buffer =
          .ok (result, warning) → Reencodes host registry schemaName result := by
      intro fuel buffer result warning hdecode
      obtain ⟨same, hsame, hagain⟩ := (hall fuel buffer).2 (.live result) warning
        (intact_eq_ok.mpr hdecode)
      cases hsame
      exact hagain
    obtain ⟨fuel₀, buffer₀, accepted, hintact⟩ := haccepts
    rcases haccepts : quicproIibinDecode ⟨host, registry, .asWritten, false⟩ fuel₀ schemaName
      buffer₀ with fault | accepted'
    · rw [haccepts] at hintact
      cases hintact
    · exact reencodable_of_reencodes hreach hfound htags hintegral hsingular haccepts hreencodes
  · intro hcond fuel buffer
    rw [decodeTracked_singular hformed hfound hintegral fun field hfield _ =>
      hcond.singular field hfield]
    rcases hdecode : quicproIibinDecode ⟨host, registry, .asWritten, false⟩ fuel schemaName buffer
      with fault | ⟨result, warning⟩
    · exact ⟨by simp [intact], by simp [intact]⟩
    · refine ⟨by simp [intact], ?_⟩
      rintro _ _ ⟨⟩
      exact ⟨result, rfl, hcond.reencodes hintegral hreach hfound htags hdecode⟩

theorem reencodes_iff_five :
    ∃ result, quicproIibinDecodeTracked
        ⟨default, oneSchema (fieldOptions 1 "int32" []), .asWritten, false⟩ 2 (ascii "P")
        (.placed [0x08, 0x05] (by decide)) = .ok (.live result, none) ∧
      Reencodes default (oneSchema (fieldOptions 1 "int32" [])) (ascii "P") result := by
  have hcond : ∀ schema, getCompiledIibinSchemaInternal (oneSchema (fieldOptions 1 "int32" []))
      (ascii "P") = some schema → schema.Reencodable := by
    rintro _ ⟨⟩
    refine ⟨by decide, by decide, ?_, ?_⟩
    · intro field hfield last hlast item hreturns
      rw [List.mem_singleton.mp hfield] at hlast hreturns
      rw [← Option.some.inj hlast]
      exact hreturns
    · intro name item _ hfallback
      obtain ⟨field, hfield, hhere⟩ := List.exists_of_findSome?_eq_some hfallback
      rw [List.mem_singleton.mp hfield, FieldDef.fallback_eq_none rfl] at hhere
      cases hhere
  obtain ⟨result, hlive, hreencodes⟩ := ((reencodes_iff default
    (oneSchema (fieldOptions 1 "int32" [])) ((oneSchema_reachable _).weaken fun _ _ => trivial)
    (ascii "P") _ rfl (by decide) (by decide)
    ⟨2, .placed [0x08, 0x05] (by decide), _, rfl⟩).mpr (hcond _ rfl) 2
    (.placed [0x08, 0x05] (by decide))).2 _ none rfl
  exact ⟨result, congrArg (fun returned => Except.ok (returned, none)) hlive, hreencodes⟩

/-- An empty packed block is decoded to an empty list, for which nothing is encoded. -/
theorem empty_block_lost :
    ∃ result, quicproIibinDecodeTracked (arrayContext default listRegistry) 2 (ascii "P")
        emptyNested = .ok (.live result, none) ∧
      ¬ Reencodes default listRegistry (ascii "P") result := by
  refine ⟨_, rfl, ?_⟩
  rintro ⟨bytes, hok, hdecodes⟩
  obtain rfl := Except.ok.inj hok
  obtain ⟨entries, again, hentries, hdecode, -, hperm⟩ :=
    hdecodes (.placed [] (by decide)) 0 rfl (Nat.le_refl _)
  obtain rfl := Zval.array.inj hentries
  cases hdecode
  exact absurd hperm.length_eq (by decide)

end QuicproAsync.Iibin

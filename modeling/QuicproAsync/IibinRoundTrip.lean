import QuicproAsync.IibinKept

/-!
# Round trips

What decoding gives back of an encoded message. The values of integer, boolean and enum
fields come back as they were given, with enum names replaced by numbers and defaults
filled in, but a list that was sent item by item has been given back by the time an array
is returned. A message with a string, a byte string or a nested message is never accepted
by the decoder; and whether a message that was encoded can be decoded at all depends on
how the two sides look for required fields.
-/

namespace QuicproAsync.Iibin

open Php Fallible

variable {registry : Registry} {field : FieldDef} {schema : CompiledSchema} {data : Zval}

/-! ### Values that survive -/

/-- The integer, boolean and enum types. -/
def FieldType.isIntegral : FieldType → Bool
  | .int32 | .uint32 | .sint32 | .int64 | .uint64 | .sint64 | .fixed32 | .sfixed32 | .fixed64
  | .sfixed64 | .bool | .enum => true
  | _ => false

abbrev CompiledSchema.IsIntegral (schema : CompiledSchema) : Prop :=
  ∀ field ∈ schema.orderedFields, field.type.isIntegral = true

/-- The range of an integer type. A 64-bit type has room for every PHP integer. -/
def FieldType.InRange (type : FieldType) (n : BitVec 64) : Prop :=
  match type with
  | .int32 | .sint32 | .sfixed32 | .enum => -2 ^ 31 ≤ n.toInt ∧ n.toInt < 2 ^ 31
  | .uint32 | .fixed32 => 0 ≤ n.toInt ∧ n.toInt < 2 ^ 32
  | _ => True

/-- The number that the enum of the field declares for a name. -/
def declaredNumber (registry : Registry) (field : FieldDef) (name : Bytes) :
    Option (BitVec 32) := do
  let enumDef ← getCompiledIibinEnumInternal registry (field.enumTypeNameIfEnum.getD [])
  let valueDef ← enumDef.valuesByName.lookup name
  some valueDef.number

/-- A value of the type of the field: an integer in its range, a boolean, or, where the
    encoder looks names up, the name of an enum value. -/
def Fits (registry : Registry) (field : FieldDef) : Zval → Prop
  | .long n => field.type ≠ .bool ∧ field.type.InRange n
  | .bool _ => field.type = .bool
  | .string name => field.type = .enum ∧ field.flags.packed = false ∧
      (declaredNumber registry field name).isSome
  | _ => False

/-- A value that passes the strict checks, whatever its size. -/
def FieldDef.Takes (registry : Registry) (field : FieldDef) : Zval → Prop
  | .long _ => field.type ≠ .bool
  | .bool _ => field.type = .bool
  | .string name => field.type = .enum ∧ (declaredNumber registry field name).isSome
  | _ => False

/-- The value with the name of an enum value replaced by its number. -/
def withoutName (registry : Registry) (field : FieldDef) (item : Zval) : Zval :=
  match item with
  | .string name =>
    match declaredNumber registry field name with
    | some number => .long (number.signExtend 64)
    | none => item
  | _ => item

theorem layout_of_isIntegral {type : FieldType} (hintegral : type.isIntegral = true) :
    Wire.layout type ≠ some .delimited := by
  revert hintegral
  cases type <;> decide

theorem enumNumber_string {name : Bytes} {number : BitVec 32} :
    enumNumber registry field (.string name) = .ok number ↔
      declaredNumber registry field name = some number := by
  unfold declaredNumber enumNumber
  cases henum : getCompiledIibinEnumInternal registry (field.enumTypeNameIfEnum.getD []) with
  | none =>
    simp only [henum]
    exact ⟨nofun, nofun⟩
  | some enumDef =>
    simp only [henum, bind, Option.bind]
    cases enumDef.valuesByName.lookup name with
    | none => exact ⟨nofun, nofun⟩
    | some valueDef => simp only [Except.ok.injEq, Option.some.injEq]

theorem decodedItem_long (host : Host) {type : FieldType} (hintegral : type.isIntegral = true)
    (hbool : type ≠ .bool) {n : BitVec 64} (hrange : type.InRange n) :
    decodedItem host type (.long n) = .long n := by
  cases type
  case bool => exact absurd rfl hbool
  case int32 | sint32 | sfixed32 | enum =>
    exact congrArg Zval.long ((signExtend_setWidth_eq_iff n).mpr hrange)
  case fixed32 => exact congrArg Zval.long ((setWidth_setWidth_eq_iff n).mpr hrange)
  case unknown | double | float | string | bytes | message => cases hintegral
  all_goals rfl

theorem numbered_long (registry : Registry) {n : BitVec 64} (hrange : field.type.InRange n) :
    numbered registry field (.long n) = .long n := by
  unfold numbered
  split
  · rename_i htype
    rw [htype] at hrange
    exact congrArg Zval.long ((signExtend_setWidth_eq_iff n).mpr hrange)
  · rfl

/-- A fitting item arrives as it was sent. -/
theorem decodedItem_fits (host : Host) (hintegral : field.type.isIntegral = true) {item : Zval}
    (hfits : Fits registry field item) :
    decodedItem host field.type
        (if field.flags.packed then item else numbered registry field item) =
      withoutName registry field item := by
  cases item with
  | long n =>
    obtain ⟨hbool, hrange⟩ := hfits
    rw [numbered_long registry hrange, ite_self, decodedItem_long host hintegral hbool hrange]
    rfl
  | bool b =>
    have htype : field.type = .bool := hfits
    rw [numbered, htype, ite_self]
    cases b <;> rfl
  | string name =>
    obtain ⟨htype, hunpacked, hdeclared⟩ := hfits
    obtain ⟨number, hnumber⟩ := Option.isSome_iff_exists.mp hdeclared
    simp only [hunpacked, Bool.false_eq_true, if_false, numbered, htype,
      enumNumber_string.mpr hnumber, withoutName, hnumber, decodedItem, zvalGetLong,
      signExtend_twice]
  | undef | null | double | array | object | resource | reference => exact hfits.elim

/-! ### Messages that are accepted -/

/-- A message for the schema: required fields have a value, values fit, and the lists of
    repeated fields are not empty. -/
structure Conforms (registry : Registry) (schema : CompiledSchema) (data : Zval) : Prop where
  message : isMessage data = true
  required : ∀ field ∈ schema.orderedFields, field.flags.required = true →
    ∃ value, readMember data field.nameInPhp = some value ∧ value.isNullish = false
  singular : ∀ field ∈ schema.orderedFields, field.flags.repeated = false →
    ∀ value, readMember data field.nameInPhp = some value → value.isNullish = false →
      Fits registry field value
  repeated : ∀ field ∈ schema.orderedFields, field.flags.repeated = true →
    ∀ value, readMember data field.nameInPhp = some value → value.isNullish = false →
      ∃ items, items ≠ [] ∧ value = .array (listTable items) ∧
        ∀ item ∈ items, Fits registry field item

section

variable (host : Host) (encodeMessage : MessageEncoder)

/-- **The strict checks** on integer, boolean and enum fields. -/
theorem encodeSingleFieldValue_takes (hintegral : field.type.isIntegral = true) (value : Zval) :
    (∃ bytes, encodeSingleFieldValue host registry encodeMessage field value = .ok bytes) ↔
      field.Takes registry value := by
  have hparts : (∃ bytes, encodeSingleFieldValue host registry encodeMessage field value =
      .ok bytes) ↔ checkValueType field value = .ok () ∧
        ∃ payload, encodeValue host registry encodeMessage field value = .ok payload := by
    constructor
    · rintro ⟨bytes, hok⟩
      obtain ⟨hcheck, payload, hpayload, -⟩ := encodeSingleFieldValue_ok hok
      exact ⟨hcheck, payload, hpayload⟩
    · rintro ⟨hcheck, payload, hpayload⟩
      exact ⟨_, bind_eq_ok.mpr ⟨(), hcheck, bind_eq_ok.mpr ⟨payload, hpayload, rfl⟩⟩⟩
  rw [hparts]
  unfold checkValueType encodeValue FieldDef.Takes
  cases htype : field.type <;> rw [htype] at hintegral
  case unknown | double | float | string | bytes | message => cases hintegral
  case enum =>
    cases value with
    | long n => exact ⟨fun _ => nofun, fun _ => ⟨rfl, _, rfl⟩⟩
    | string name =>
      simp only [bind_eq_ok, enumNumber_string, true_and, Option.isSome_iff_exists]
      exact ⟨fun ⟨_, number, hnumber, _⟩ => ⟨number, hnumber⟩,
        fun ⟨number, hnumber⟩ => ⟨_, number, hnumber, rfl⟩⟩
    | bool => exact ⟨nofun, nofun⟩
    | undef | null | double | array | object | resource | reference => exact ⟨nofun, False.elim⟩
  case bool =>
    cases value with
    | bool => exact ⟨fun _ => rfl, fun _ => ⟨rfl, _, rfl⟩⟩
    | long => exact ⟨nofun, fun hbool => absurd rfl hbool⟩
    | string => exact ⟨nofun, nofun⟩
    | undef | null | double | array | object | resource | reference => exact ⟨nofun, False.elim⟩
  all_goals
    cases value with
    | long => exact ⟨fun _ => nofun, fun _ => ⟨rfl, _, rfl⟩⟩
    | bool | string => exact ⟨nofun, nofun⟩
    | undef | null | double | array | object | resource | reference => exact ⟨nofun, False.elim⟩

theorem encodeItems_takes (hintegral : field.type.isIntegral = true) (table : HashTable) :
    (∃ bytes, encodeItems host registry encodeMessage field table = .ok bytes) ↔
      ∀ entry ∈ table, field.Takes registry entry.2 := by
  induction table with
  | nil => exact ⟨fun _ => nofun, fun _ => ⟨[], rfl⟩⟩
  | cons entry rest ih =>
    rw [List.forall_mem_cons, ← encodeSingleFieldValue_takes host encodeMessage hintegral, ← ih]
    exact exists_join_eq_ok (· ++ ·)

theorem Fits.takes {value : Zval} (hfits : Fits registry field value) :
    field.Takes registry value := by
  cases value with
  | long n => exact hfits.1
  | bool b => exact hfits
  | string name => exact ⟨hfits.1, hfits.2.2⟩
  | undef | null | double | array | object | resource | reference => exact hfits

theorem Conforms.accepted (hconforms : Conforms registry schema data)
    (hintegral : schema.IsIntegral) :
    Accepted host registry encodeMessage data schema.orderedFields := by
  intro field hfield
  unfold encodeFieldInternal
  have hmissing : ¬ (∃ value, readMember data field.nameInPhp = some value ∧
      value.isNullish = false) → ∃ bytes, (if field.flags.required = true then
        .error (.exception (.requiredMissing field.nameInPhp field.tag)) else .ok []) =
          (.ok bytes : Except Fault Bytes) := by
    intro hnone
    cases hrequired : field.flags.required with
    | true => exact absurd (hconforms.required field hfield hrequired) hnone
    | false => exact ⟨[], rfl⟩
  rcases hvalue : readMember data field.nameInPhp with _ | value
  · exact hmissing (by rw [hvalue]; simp)
  · cases hnullish : value.isNullish with
    | true =>
      simp only [hnullish, if_true]
      exact hmissing (by rw [hvalue]; simpa using hnullish)
    | false =>
      simp only [hnullish, Bool.false_eq_true, if_false]
      cases hrepeated : field.flags.repeated with
      | false =>
        have hfits := hconforms.singular field hfield hrepeated value hvalue hnullish
        exact (encodeSingleFieldValue_takes host encodeMessage (hintegral field hfield) _).mpr
          hfits.takes
      | true =>
        obtain ⟨items, hne, rfl, hfits⟩ :=
          hconforms.repeated field hfield hrepeated value hvalue hnullish
        simp only [if_true]
        split
        · exact ⟨[], rfl⟩
        · split
          · exact ⟨_, rfl⟩
          · refine (encodeItems_takes host encodeMessage (hintegral field hfield) _).mpr ?_
            intro entry hentry
            have hitem := List.mem_map_of_mem (f := Prod.snd) hentry
            rw [listTable_values] at hitem
            exact (hfits _ hitem).takes

end

/-! ### Entries of the result -/

section

variable {host : Host}

theorem CompiledSchema.Named.entryKey_eq (hnamed : schema.Named) (asObject : Bool)
    (hfield : field ∈ schema.orderedFields) : field.entryKey asObject = .str field.nameInPhp := by
  unfold FieldDef.entryKey
  split
  · rfl
  · exact valueKey_eq_str_iff.mpr (.inr (hnamed.textual field hfield))

/-- The fields around a field have other names. -/
theorem CompiledSchema.Named.split (hnamed : schema.Named) (hfield : field ∈ schema.orderedFields) :
    ∃ before after, schema.orderedFields = before ++ field :: after ∧
      (∀ other ∈ before, other.nameInPhp ≠ field.nameInPhp) ∧
      ∀ other ∈ after, other.nameInPhp ≠ field.nameInPhp := by
  obtain ⟨before, after, hsplit⟩ := List.append_of_mem hfield
  have hdistinct := hnamed.distinct
  rw [hsplit, List.map_append, List.map_cons, List.nodup_append, List.nodup_cons] at hdistinct
  obtain ⟨-, ⟨hafter, -⟩, hbefore⟩ := hdistinct
  refine ⟨before, after, hsplit, ?_, ?_⟩
  · intro other hother hname
    exact hbefore _ (List.mem_map_of_mem hother) _ List.mem_cons_self hname
  · intro other hother hname
    exact hafter (hname ▸ List.mem_map_of_mem hother)

/-- With different names every field has an entry of its own. -/
theorem lookup_arrived (hnamed : schema.Named) (asObject : Bool)
    (hfield : field ∈ schema.orderedFields) :
    (arrived asObject host registry data schema.orderedFields).lookup (.str field.nameInPhp) =
      (deliveries field (arrivingItems host registry data field)).foldl
        (fun old delivery => some (delivery.change old)) none := by
  obtain ⟨before, after, hsplit, hbefore, hafter⟩ := hnamed.split hfield
  have hown : ∀ delivery ∈ deliveries field (arrivingItems host registry data field),
      delivery.key asObject = .str field.nameInPhp := fun delivery hdelivery =>
    (entryKey_of_mem asObject hdelivery).trans (hnamed.entryKey_eq asObject hfield)
  have hother : ∀ fields : List FieldDef, (∀ other ∈ fields, other.nameInPhp ≠ field.nameInPhp) →
      ∀ other ∈ fields, other.entryKey asObject ≠ .str field.nameInPhp :=
    fun fields hnames other hmem hkey => hnames other hmem (FieldDef.name_of_entryKey hkey)
  rw [arrived, hsplit, messageDeliveries_split, List.map_append, List.map_append,
    OrderedMap.replay_append, OrderedMap.replay_append,
    lookup_replay_others asObject (hother after hafter), lookup_deliveries,
    lookup_replay_others asObject (hother before hbefore),
    List.filter_eq_self.mpr fun delivery hdelivery => by simpa using hown delivery hdelivery]
  rfl

theorem fallback_named (hnamed : schema.Named) (hfield : field ∈ schema.orderedFields) :
    fallback schema.orderedFields (.str field.nameInPhp) =
      field.fallback (.str field.nameInPhp) := by
  obtain ⟨before, after, hsplit, hbefore, hafter⟩ := hnamed.split hfield
  have hnone : ∀ fields : List FieldDef, (∀ other ∈ fields, other.nameInPhp ≠ field.nameInPhp) →
      fallback fields (.str field.nameInPhp) = none := by
    intro fields hothers
    refine List.findSome?_eq_none_iff.mpr fun other hother => if_neg ?_
    rintro ⟨hkey, -⟩
    exact hothers other hother (Key.str.inj hkey).symm
  have happend : fallback (before ++ field :: after) (.str field.nameInPhp) =
      (fallback before (.str field.nameInPhp)).or
        (fallback (field :: after) (.str field.nameInPhp)) := List.findSome?_append
  rw [hsplit, happend, hnone before hbefore, Option.none_or, fallback_cons, hnone after hafter,
    Option.or_none]

theorem fallback_other {key : Key}
    (hother : ∀ field ∈ schema.orderedFields, key ≠ .str field.nameInPhp) :
    fallback schema.orderedFields key = none :=
  List.findSome?_eq_none_iff.mpr fun field hfield => if_neg fun hboth => hother field hfield hboth.1

end

/-! ### The integer round trip -/

def FieldDef.ifAbsent (field : FieldDef) : Option Zval :=
  if field.defaultValueZval.isUndef then none else some field.defaultValueZval

/-- The value with names of enum values replaced by numbers. -/
def restored (registry : Registry) (field : FieldDef) (value : Zval) : Zval :=
  if field.flags.repeated then
    .array (listTable ((listed (some value)).map (withoutName registry field)))
  else withoutName registry field value

/-- What a field of the message is to be in the decoded array. -/
def expected (registry : Registry) (data : Zval) (field : FieldDef) : Option Zval :=
  match readMember data field.nameInPhp with
  | none => field.ifAbsent
  | some value => if value.isNullish then field.ifAbsent else some (restored registry field value)

theorem arrivingItems_absent (host : Host)
    (habsent : ∀ value, readMember data field.nameInPhp = some value → value.isNullish = true) :
    arrivingItems host registry data field = [] := by
  rw [arrivingItems, sentItems_nullish habsent, List.map_nil]

theorem arrivingItems_singular (host : Host) (htyped : field.WellTyped registry)
    (hintegral : field.type.isIntegral = true) (hsingular : field.flags.repeated = false)
    {value : Zval} (hvalue : readMember data field.nameInPhp = some value)
    (hgiven : value.isNullish = false) (hfits : Fits registry field value) :
    arrivingItems host registry data field = [withoutName registry field value] := by
  have hitem := decodedItem_fits host hintegral hfits
  rw [htyped.unpacked_of_singular hsingular, if_neg Bool.false_ne_true] at hitem
  rw [arrivingItems, hvalue, sentItems_singular registry hgiven hsingular, List.map_singleton,
    hitem]

theorem arrivingItems_list (host : Host) (hintegral : field.type.isIntegral = true)
    (hrepeated : field.flags.repeated = true) {items : List Zval}
    (hvalue : readMember data field.nameInPhp = some (.array (listTable items)))
    (hfits : ∀ item ∈ items, Fits registry field item) :
    arrivingItems host registry data field = items.map (withoutName registry field) := by
  have hsent : sentItems registry field (some (.array (listTable items))) =
      items.map fun item => if field.flags.packed then item else numbered registry field item := by
    cases hpacked : field.flags.packed with
    | true => simp [sentItems_packed registry _ hrepeated hpacked]
    | false =>
      rw [sentItems_unpacked registry _ hrepeated hpacked]
      nth_rewrite 2 [← listTable_values items]
      rw [List.map_map]
      rfl
  rw [arrivingItems, hvalue, hsent, List.map_map]
  exact List.map_congr_left fun item hitem => decodedItem_fits host hintegral (hfits item hitem)

theorem lookup_conforming (host : Host) (hnamed : schema.Named)
    (hformed : schema.WellFormed registry) (hintegral : schema.IsIntegral)
    (hconforms : Conforms registry schema data) (hfield : field ∈ schema.orderedFields) :
    ((arrived false host registry data schema.orderedFields).lookup (.str field.nameInPhp)).or
      (fallback schema.orderedFields (.str field.nameInPhp)) = expected registry data field := by
  rw [lookup_arrived hnamed false hfield, fallback_named hnamed hfield]
  by_cases habsent : ∀ value, readMember data field.nameInPhp = some value → value.isNullish = true
  · have hoptional : field.flags.required = false := by
      cases hrequired : field.flags.required with
      | false => rfl
      | true =>
        obtain ⟨value, hvalue, hgiven⟩ := hconforms.required field hfield hrequired
        rw [habsent value hvalue] at hgiven
        cases hgiven
    have hfallback : field.fallback (.str field.nameInPhp) = field.ifAbsent := by
      simp only [FieldDef.fallback, FieldDef.hasFallback, hoptional, FieldDef.ifAbsent]
      cases field.defaultValueZval.isUndef <;> simp
    have hexpected : expected registry data field = field.ifAbsent := by
      unfold expected
      split
      · rfl
      · rename_i value hvalue
        rw [if_pos (habsent value hvalue)]
    rw [arrivingItems_absent host habsent, deliveries_nil, hfallback, hexpected]
    rfl
  · simp only [not_forall, Bool.not_eq_true] at habsent
    obtain ⟨value, hvalue, hgiven⟩ := habsent
    have hexpected : expected registry data field = some (restored registry field value) := by
      simp only [expected, hvalue, hgiven, Bool.false_eq_true, if_false]
    rw [hexpected]
    cases hrepeated : field.flags.repeated with
    | false =>
      rw [arrivingItems_singular host (hformed.fields field hfield) (hintegral field hfield)
        hrepeated hvalue hgiven (hconforms.singular field hfield hrepeated value hvalue hgiven)]
      simp only [deliveries, restored, hrepeated, Bool.false_eq_true, if_false]
      rfl
    | true =>
      obtain ⟨items, hne, rfl, hfits⟩ :=
        hconforms.repeated field hfield hrepeated value hvalue hgiven
      rw [arrivingItems_list host (hintegral field hfield) hrepeated hvalue hfits]
      simp only [deliveries, restored, hrepeated, if_true, List.map_eq_nil_iff, if_neg hne,
        listed_list]
      rfl

/-- A message of integer, boolean and enum fields that conforms to its schema is encoded, and
    the values that decoding gives are those of the message, with the names of enum values
    replaced by numbers and the defaults of absent fields filled in. -/
theorem integer_values (host : Host) (registry : Registry) (hreach : Reachable NulFree registry)
    (schemaName : Bytes) (schema : CompiledSchema) (hfound : registry.Has schemaName schema)
    (htags : schema.SmallTags) (hintegral : schema.IsIntegral) (data : Zval)
    (hconforms : Conforms registry schema data) :
    ∃ bytes, quicproIibinEncode host registry schemaName data = .ok bytes ∧
      ∀ (buffer : Buffer) (fuel : Nat), buffer.bytes = bytes → bytes.length ≤ fuel →
        ∃ entries, quicproIibinDecode ⟨host, registry, .asWritten, false⟩ fuel schemaName buffer =
            .ok (.array entries, none) ∧
          (OrderedMap.keys entries).Nodup ∧
          (∀ field ∈ schema.orderedFields,
            entries.lookup (.str field.nameInPhp) = expected registry data field) ∧
          ∀ key, (∀ field ∈ schema.orderedFields, key ≠ .str field.nameInPhp) →
            entries.lookup key = none := by
  have hformed := hreach.layered.wellFormed hfound
  have hnamed := hreach.named hfound
  obtain ⟨depth, hencode⟩ := quicproIibinEncode_iff host hreach hfound hconforms.message
  have haccepted := hconforms.accepted host (encodeMessageInternal host registry depth) hintegral
  obtain ⟨bytes, hok⟩ := hencode.mpr haccepted
  refine ⟨bytes, hok, ?_⟩
  intro buffer fuel hbuffer hfuel
  have hrejection : ∀ field ∈ schema.orderedFields, field.rejection false = none := by
    intro field hfield
    exact rejection_array (layout_of_isIntegral (hintegral field hfield))
  have hrequired : RequiredFound false schema data := by
    intro field hfield hrequired
    left
    split
    · rename_i hrepeated
      obtain ⟨value, hvalue, hgiven⟩ := hconforms.required field hfield hrequired
      obtain ⟨items, hne, rfl, -⟩ := hconforms.repeated field hfield hrepeated value hvalue hgiven
      refine isGiven_table hvalue fun hempty => hne ?_
      rw [← listTable_values items, hempty, List.map_nil]
    · exact .inr (hnamed.textual field hfield)
  rcases quicproIibinDecode_outcome hreach hfound htags hok hbuffer hfuel false with
    ⟨hnot, -⟩ | ⟨-, hnot, -⟩ | ⟨-, -, entries, hdecode, hnodup, hlookup⟩
  · exact absurd (fun field hfield _ => hrejection field hfield) hnot
  · exact absurd hrequired hnot
  · refine ⟨entries, hdecode, hnodup, ?_, ?_⟩
    · intro field hfield
      rw [hlookup, lookup_conforming host hnamed hformed hintegral hconforms hfield]
    · intro key hother
      rw [hlookup, fallback_other hother, Option.or_none]
      rcases harrived : (arrived false host registry data schema.orderedFields).lookup key with
        _ | value
      · rfl
      · obtain ⟨field, hfield, -, hkey⟩ := (isSome_arrived haccepted key).mp (by rw [harrived]; rfl)
        rw [hnamed.entryKey_eq false hfield] at hkey
        exact absurd hkey.symm (hother field hfield)

/-- With one field to a name, the lists are kept exactly if none was sent item by item. -/
theorem CompiledSchema.Named.listsKept_iff (hnamed : schema.Named) (data : Zval) :
    ListsKept schema data ↔ ∀ field ∈ schema.orderedFields, field.flags.repeated = true →
      field.flags.packed = false → isGiven data field = false := by
  constructor
  · intro hkept field hfield hrepeated hunpacked
    by_contra hgiven
    obtain ⟨earlier, hearlier, hless, hname, -⟩ :=
      hkept field hfield hrepeated hunpacked (by simpa using hgiven)
    rw [List.inj_on_of_nodup_map hnamed.distinct hearlier hfield hname] at hless
    exact absurd hless (Nat.lt_irrefl _)
  · intro hnone field hfield hrepeated hunpacked hgiven
    rw [hnone field hfield hrepeated hunpacked] at hgiven
    cases hgiven

/-- **Integer round trip.** A message of integer, boolean and enum fields that conforms to
    its schema is encoded, and decoding the bytes to an array gives exactly the message back,
    with the names of enum values replaced by numbers and the defaults of absent fields filled
    in, if and only if the message has no list for a field that is repeated and not packed. -/
theorem integer_roundTrip_iff (host : Host) (registry : Registry)
    (hreach : Reachable NulFree registry) (schemaName : Bytes) (schema : CompiledSchema)
    (hfound : getCompiledIibinSchemaInternal registry schemaName = some schema)
    (htags : ∀ field ∈ schema.orderedFields, field.SmallTag)
    (hintegral : ∀ field ∈ schema.orderedFields, field.type.isIntegral = true)
    (data : Zval) (hconforms : Conforms registry schema data) :
    ∃ bytes, quicproIibinEncode host registry schemaName data = .ok bytes ∧
      ∀ (buffer : Buffer) (fuel : Nat), buffer.bytes = bytes → bytes.length ≤ fuel →
        ((∃ entries, quicproIibinDecodeTracked ⟨host, registry, .asWritten, false⟩ fuel schemaName
            buffer = .ok (.live (.array entries), none) ∧
          (OrderedMap.keys entries).Nodup ∧
          (∀ field ∈ schema.orderedFields,
            entries.lookup (.str field.nameInPhp) = expected registry data field) ∧
          ∀ key, (∀ field ∈ schema.orderedFields, key ≠ .str field.nameInPhp) →
            entries.lookup key = none) ↔
        ∀ field ∈ schema.orderedFields, field.flags.repeated = true →
          field.flags.packed = false → isGiven data field = false) := by
  obtain ⟨bytes, hok, hvalues⟩ := integer_values host registry hreach schemaName schema hfound htags
    hintegral data hconforms
  refine ⟨bytes, hok, fun buffer fuel hbuffer hfuel => ?_⟩
  rw [← (hreach.named hfound).listsKept_iff data]
  obtain ⟨entries, hdecode, hentries⟩ := hvalues buffer fuel hbuffer hfuel
  have hiff := decodeTracked_encoded_iff hreach hfound htags hok hbuffer hfuel false
  constructor
  · rintro ⟨other, hlive, -⟩
    exact ((hiff _).mp hlive).2 rfl
  · intro hkept
    exact ⟨entries, (hiff _).mpr ⟨hdecode, fun _ => hkept⟩, hentries⟩

/-- A required integer, an enum value, a packed list and a field with a default. -/
def mixedCalls : List Call :=
  [ .defineEnum (ascii "Color") colorValues,
    .defineSchema (ascii "M")
      ⟨[(.str (ascii "a"), fieldOptions 1 "int32" [(.str (ascii "required"), .bool true)]),
        (.str (ascii "b"), fieldOptions 2 "Color" []),
        (.str (ascii "c"), fieldOptions 3 "repeated_sint32" []),
        (.str (ascii "d"), fieldOptions 4 "bool" [(.str (ascii "default"), .bool true)])],
        by decide, by decide⟩ ]

def mixedRegistry : Registry := mixedCalls.foldl Call.apply Registry.init

def mixedMessage : Zval :=
  .array [(.str (ascii "a"), .long (-5)), (.str (ascii "b"), .string (ascii "RED")),
    (.str (ascii "c"), .array (listTable [.long (-1)]))]

def mixedFields : List FieldDef :=
  [ ⟨ascii "a", 1, .int32, ⟨false, true, false, false⟩, none, false, none, none, .undef, 0⟩,
    ⟨ascii "b", 2, .enum, ⟨true, false, false, false⟩, none, false, none, some (ascii "Color"),
      .undef, 0⟩,
    ⟨ascii "c", 3, .sint32, ⟨true, false, true, true⟩, none, false, none, none, .undef, 2⟩,
    ⟨ascii "d", 4, .bool, ⟨true, false, false, false⟩, none, false, none, none, .bool true, 0⟩ ]

theorem mixed_found : getCompiledIibinSchemaInternal mixedRegistry (ascii "M") =
    some ⟨ascii "M", mixedFields.map fun field => (field.tag, field), mixedFields⟩ := rfl

theorem mixed_conforms :
    Conforms mixedRegistry ⟨ascii "M", mixedFields.map fun field => (field.tag, field), mixedFields⟩
      mixedMessage := by
  refine ⟨rfl, ?_, ?_, ?_⟩ <;> intro field hfield hflag <;>
    simp only [mixedFields, List.mem_cons, List.not_mem_nil, or_false] at hfield <;>
    rcases hfield with rfl | rfl | rfl | rfl <;> cases hflag
  · exact ⟨_, rfl, rfl⟩
  · intro value hvalue _
    obtain rfl := Option.some.inj hvalue
    exact ⟨by decide, by decide, by decide⟩
  · intro value hvalue _
    obtain rfl := Option.some.inj hvalue
    exact ⟨rfl, rfl, rfl⟩
  · intro value hvalue
    cases hvalue
  · intro value hvalue _
    obtain rfl := Option.some.inj hvalue
    refine ⟨_, List.cons_ne_nil _ _, rfl, ?_⟩
    simp only [List.forall_mem_cons]
    exact ⟨⟨by decide, by decide, by decide⟩, by simp⟩

theorem integer_roundTrip_mixed :
    ∃ bytes, quicproIibinEncode default mixedRegistry (ascii "M") mixedMessage = .ok bytes ∧
      ∀ (buffer : Buffer) (fuel : Nat), buffer.bytes = bytes → bytes.length ≤ fuel →
        ∃ entries, quicproIibinDecodeTracked ⟨default, mixedRegistry, .asWritten, false⟩ fuel
            (ascii "M") buffer = .ok (.live (.array entries), none) ∧
          entries.lookup (.str (ascii "a")) = some (.long (-5)) ∧
          entries.lookup (.str (ascii "b")) = some (.long 1) ∧
          entries.lookup (.str (ascii "c")) = some (.array (listTable [.long (-1)])) ∧
          entries.lookup (.str (ascii "d")) = some (.bool true) := by
  have hreach : Reachable NulFree mixedRegistry :=
    reachable_foldl Reachable.init mixedCalls (by decide +kernel)
  obtain ⟨bytes, hok, hdecode⟩ := integer_roundTrip_iff default mixedRegistry hreach (ascii "M") _
    mixed_found (by decide) (by decide) mixedMessage mixed_conforms
  refine ⟨bytes, hok, fun buffer fuel hbuffer hfuel => ?_⟩
  obtain ⟨entries, hresult, -, hfields, -⟩ := (hdecode buffer fuel hbuffer hfuel).mpr (by decide)
  simp only [mixedFields, List.forall_mem_cons] at hfields
  exact ⟨entries, hresult, hfields.1, hfields.2.1, hfields.2.2.1, hfields.2.2.2.1⟩

def unpackedOption : HashTable := [(.str (ascii "packed"), .bool false)]

/-- The list `[1]` of a field that is not packed: what is returned for it has been freed. -/
theorem unpacked_list_freed :
    quicproIibinEncode default (oneSchema (fieldOptions 1 "repeated_int32" unpackedOption))
        (ascii "P") (.array [(.str (ascii "x"), .array (listTable [.long 1]))]) =
      .ok [0x08, 0x01] ∧
    quicproIibinDecodeTracked
        ⟨default, oneSchema (fieldOptions 1 "repeated_int32" unpackedOption), .asWritten, false⟩ 2
        (ascii "P") (.placed [0x08, 0x01] (by decide)) = .ok (.dangling, none) :=
  ⟨rfl, rfl⟩

/-! ### Strings and nested messages -/

/-- **Strings, byte strings and messages are never decoded.** Their bound test compares an
    address with the byte behind the input, so a message that has one is encoded, and
    decoding the bytes fails without an exception. -/
theorem delimited_never_decodes (host : Host) (registry : Registry)
    (hreach : Reachable NulFree registry) (schemaName : Bytes) (schema : CompiledSchema)
    (hfound : getCompiledIibinSchemaInternal registry schemaName = some schema)
    (htags : ∀ field ∈ schema.orderedFields, field.SmallTag) (data : Zval) (bytes : Bytes)
    (hok : quicproIibinEncode host registry schemaName data = .ok bytes) (field : FieldDef)
    (hfield : field ∈ schema.orderedFields)
    (htype : field.type = .string ∨ field.type = .bytes ∨ field.type = .message)
    (hgiven : isGiven data field = true) (buffer : Buffer) (hbuffer : buffer.bytes = bytes)
    (fuel : Nat) (hfuel : bytes.length ≤ fuel) :
    quicproIibinDecode ⟨host, registry, .asWritten, false⟩ fuel schemaName buffer =
      .error .silent := by
  have hdelimited : Wire.layout field.type = some .delimited := by
    rcases htype with htype | htype | htype <;> rw [htype] <;> rfl
  have hrejected : ¬ NothingRejected false schema data := by
    intro hfree
    have hnone := hfree field hfield hgiven
    rw [rejection_delimited false hdelimited] at hnone
    cases hnone
  rcases quicproIibinDecode_outcome hreach hfound htags hok hbuffer hfuel false with
    ⟨-, other, -, fault, hfault, hdecode⟩ | ⟨hfree, -⟩ | ⟨hfree, -⟩
  · rw [FieldDef.rejection, Bool.and_false, if_neg Bool.false_ne_true] at hfault
    split at hfault
    · cases hfault
      exact hdecode
    · cases hfault
  · exact absurd hfree hrejected
  · exact absurd hfree hrejected

def letterMessage : Zval := .array [(.str (ascii "x"), .string (ascii "a"))]

theorem delimited_never_decodes_letter :
    quicproIibinEncode default (oneSchema (fieldOptions 1 "string" [])) (ascii "P") letterMessage =
        .ok [0x0a, 0x01, 0x61] ∧
      quicproIibinDecode ⟨default, oneSchema (fieldOptions 1 "string" []), .asWritten, false⟩ 3
        (ascii "P") (Buffer.place 4096 [0x0a, 0x01, 0x61] (by decide) (by decide)) =
          .error .silent :=
  ⟨rfl, delimited_never_decodes default _ (oneSchema_reachable _) (ascii "P") _ rfl (by decide)
    letterMessage _ rfl _ List.mem_cons_self (.inl rfl) rfl _ rfl 3 (by decide)⟩

/-- The string `a` is encoded, but the bytes are not accepted. -/
theorem string_not_decoded :
    ∃ bytes buffer, quicproIibinEncode default (oneSchema (fieldOptions 1 "string" [])) (ascii "P")
        letterMessage = .ok bytes ∧ buffer.bytes = bytes ∧
      ∀ result, quicproIibinDecode
        ⟨default, oneSchema (fieldOptions 1 "string" []), .asWritten, false⟩ bytes.length
          (ascii "P") buffer ≠ .ok result := by
  refine ⟨_, Buffer.place 4096 [0x0a, 0x01, 0x61] (by decide) (by decide), rfl, rfl, ?_⟩
  intro result hresult
  cases hresult

/-! ### Required fields -/

/-- Of integer, boolean and enum fields only packed lists are rejected, and only for objects. -/
theorem nothingRejected_integral (hintegral : schema.IsIntegral) (asObject : Bool) (data : Zval) :
    NothingRejected asObject schema data ↔
      (asObject = true → ∀ field ∈ schema.orderedFields, field.flags.packed = true →
        isGiven data field = false) := by
  have hdelimited := fun field hfield => layout_of_isIntegral (hintegral field hfield)
  constructor
  · intro hfree hobject field hfield hpacked
    cases hgiven : isGiven data field with
    | false => rfl
    | true =>
      have hnone := hfree field hfield hgiven
      rw [hobject, rejection_packed (hdelimited field hfield) hpacked] at hnone
      cases hnone
  · intro hunsent field hfield hgiven
    rw [FieldDef.rejection, if_neg (hdelimited field hfield), if_neg]
    rw [Bool.and_eq_true]
    rintro ⟨hpacked, hobject⟩
    rw [hunsent hobject field hfield hpacked] at hgiven
    cases hgiven

/-- The decoder on values accepts an encoded message exactly if it rejects none of its fields
    and finds the required ones. -/
theorem values_decodable_iff {host : Host} {ok : Bytes → Prop} (hreach : Reachable ok registry)
    {schemaName : Bytes} (hfound : registry.Has schemaName schema) (htags : schema.SmallTags)
    {bytes : Bytes} (hok : quicproIibinEncode host registry schemaName data = .ok bytes)
    {buffer : Buffer} (hbuffer : buffer.bytes = bytes) {fuel : Nat} (hfuel : bytes.length ≤ fuel)
    (asObject : Bool) :
    (∃ result, quicproIibinDecode ⟨host, registry, .asWritten, asObject⟩ fuel schemaName buffer =
      .ok (result, none)) ↔
    NothingRejected asObject schema data ∧ RequiredFound asObject schema data := by
  rcases quicproIibinDecode_outcome hreach hfound htags hok hbuffer hfuel asObject with
    ⟨hnot, _, -, fault, -, hdecode⟩ | ⟨-, hnot, error, hdecode⟩ |
      ⟨hfree, hrequired, entries, hdecode, -⟩
  · rw [hdecode]
    constructor
    · rintro ⟨result, hresult⟩
      cases hresult
    · intro hboth
      exact absurd hboth.1 hnot
  · rw [hdecode]
    constructor
    · rintro ⟨result, hresult⟩
      cases hresult
    · intro hboth
      exact absurd hboth.2 hnot
  · exact ⟨fun _ => ⟨hfree, hrequired⟩, fun _ => ⟨_, hdecode⟩⟩

/-- **When the decoder takes what the encoder produced.** A message of integer, boolean and
    enum fields that was encoded is decoded, to something that is still there when it is
    returned, exactly if the check finds its required fields and, for an object, no packed
    list was sent, for an array, no list was sent item by item. -/
theorem decodable_iff (host : Host) (registry : Registry)
    (hreach : Reachable (fun _ => True) registry) (schemaName : Bytes) (schema : CompiledSchema)
    (hfound : getCompiledIibinSchemaInternal registry schemaName = some schema)
    (htags : ∀ field ∈ schema.orderedFields, field.SmallTag)
    (hintegral : ∀ field ∈ schema.orderedFields, field.type.isIntegral = true) (data : Zval)
    (bytes : Bytes) (hok : quicproIibinEncode host registry schemaName data = .ok bytes)
    (buffer : Buffer) (hbuffer : buffer.bytes = bytes) (fuel : Nat) (hfuel : bytes.length ≤ fuel)
    (asObject : Bool) :
    (∃ result, quicproIibinDecodeTracked ⟨host, registry, .asWritten, asObject⟩ fuel schemaName
      buffer = .ok (.live result, none)) ↔
    (asObject = true → ∀ field ∈ schema.orderedFields, field.flags.packed = true →
      isGiven data field = false) ∧
    (asObject = false → ListsKept schema data) ∧ RequiredFound asObject schema data := by
  have hvalues := values_decodable_iff hreach hfound htags hok hbuffer hfuel asObject
  rw [nothingRejected_integral hintegral] at hvalues
  simp only [decodeTracked_encoded_iff hreach hfound htags hok hbuffer hfuel, exists_and_right,
    hvalues]
  exact ⟨fun hboth => ⟨hboth.1.1, hboth.2, hboth.1.2⟩, fun hall => ⟨⟨hall.1, hall.2.2⟩, hall.2.1⟩⟩

def requiredOption : HashTable := [(.str (ascii "required"), .bool true)]

theorem decodable_iff_five :
    ∃ result, quicproIibinDecodeTracked
      ⟨default, oneSchema (fieldOptions 1 "int32" requiredOption), .asWritten, false⟩ 2 (ascii "P")
        (Buffer.place 4096 [0x08, 0x05] (by decide) (by decide)) = .ok (.live result, none) := by
  refine (decodable_iff default _ ((oneSchema_reachable _).weaken fun _ _ => trivial) (ascii "P") _
    rfl (by decide) (by decide) (.array [(.str (ascii "x"), .long 5)]) _ rfl _ rfl 2 (by decide)
    false).mpr ⟨Bool.noConfusion, fun _ => ?_, ?_⟩
  · intro field hfield hrepeated
    rw [List.mem_singleton.mp hfield] at hrepeated
    cases hrepeated
  · intro field hfield _
    rw [List.mem_singleton.mp hfield]
    exact .inl (.inr rfl)

/-- An empty list for a required field is encoded, but the empty bytes are not accepted. -/
theorem empty_list_not_decoded :
    ∃ bytes buffer, quicproIibinEncode default
        (oneSchema (fieldOptions 1 "repeated_int32" requiredOption)) (ascii "P")
        (.array [(.str (ascii "x"), .array [])]) = .ok bytes ∧ buffer.bytes = bytes ∧
      ∀ result, quicproIibinDecodeTracked
        ⟨default, oneSchema (fieldOptions 1 "repeated_int32" requiredOption), .asWritten, false⟩
          bytes.length (ascii "P") buffer ≠ .ok result := by
  refine ⟨[], Buffer.place 4096 [] (by decide) (by decide), rfl, rfl, ?_⟩
  intro result hresult
  cases hresult

end QuicproAsync.Iibin

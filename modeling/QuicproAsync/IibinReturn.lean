import Mathlib.Data.List.Induction
import QuicproAsync.IibinAcceptance
import QuicproAsync.IibinFidelity

/-!
# Values that come back

What the decoder stores for a field of integers, booleans or enum values is a value of
the type of the field. Where all fields are singular, a value under a name comes back from
another round of encoding and decoding exactly if it is restorable: a value of the last field
of this name, or the default where nothing is sent. Fields share a name only if the names were
cut at a NUL.
-/

namespace QuicproAsync.Iibin

open Php Fallible ScanLoop

variable {field : FieldDef} {item value : Zval}

/-! ### Values that come back -/

/-- The values of a type: what the decoder stores for it. -/
def FieldType.Returns (type : FieldType) : Zval → Prop
  | .long n => type.Keeps n
  | .bool _ => type = .bool
  | _ => False

variable {type : FieldType}

theorem FieldType.isPackable_of_isIntegral (hintegral : type.isIntegral = true) :
    isPackable type = true := by
  revert hintegral
  cases type <;> decide

theorem decodedItem_eq_self_iff (host : Host) (hintegral : type.isIntegral = true) (item : Zval) :
    decodedItem host type item = item ↔ type.Returns item := by
  cases item with
  | long n => exact decodedItem_long_iff host (FieldType.isPackable_of_isIntegral hintegral) n
  | bool b =>
    constructor
    · intro hitem
      revert hintegral hitem
      cases type <;> simp [decodedItem, FieldType.isIntegral, FieldType.Returns]
    · rintro rfl
      cases b <;> rfl
  | undef | null | double | string | array | object | resource | reference =>
    revert hintegral
    cases type <;> simp [decodedItem, FieldType.isIntegral, FieldType.Returns]

theorem returns_decodedItem (host : Host) (hintegral : type.isIntegral = true) (item : Zval) :
    type.Returns (decodedItem host type item) := by
  rw [← decodedItem_eq_self_iff host hintegral]
  cases type
  case int32 | sint32 | sfixed32 | enum => exact congrArg Zval.long (signExtend_twice _)
  case fixed32 => simp [decodedItem, zvalGetLong]
  case bool =>
    simp only [decodedItem, zvalGetLong]
    split <;> simp_all
  case unknown | double | float | string | bytes | message => cases hintegral
  all_goals rfl

/-- Looking up an enum number does not change a value of the type. -/
theorem FieldType.Returns.numbered (host : Host) (registry : Registry)
    (hintegral : field.type.isIntegral = true) (hreturns : field.type.Returns item) :
    decodedItem host field.type (numbered registry field item) = item := by
  have hself := (decodedItem_eq_self_iff host hintegral item).mpr hreturns
  rcases item with _ | _ | b | n | _ | _ | _ | _ | _ | _
  case long => rw [decodedItem_numbered_long, hself]
  case bool =>
    have htype : field.type = .bool := hreturns
    simp only [Iibin.numbered, htype] at hself ⊢
    exact hself
  all_goals exact hreturns.elim

/-- Only a value of the type can come back as what it was. -/
theorem returns_of_numbered {host : Host} {registry : Registry}
    (hintegral : field.type.isIntegral = true)
    (hsame : decodedItem host field.type (numbered registry field item) = item) :
    field.type.Returns item := by
  have hreturns := returns_decodedItem host hintegral (numbered registry field item)
  rwa [hsame] at hreturns

theorem returns_varintZval (hlayout : Wire.layout type = some .varint) (u64 : BitVec 64) :
    type.Returns (varintZval type u64) := by
  have hsigned : ∀ u32 : BitVec 32, FieldType.int32.Keeps (u32.signExtend 64) := fun u32 =>
    (signExtend_setWidth_eq_iff _).mp (signExtend_twice u32)
  revert hlayout
  cases type <;> intro hlayout
  case int32 | enum | sint32 => exact hsigned _
  case bool => rfl
  all_goals trivial

theorem returns_fixed32Zval (host : Host) (hintegral : type.isIntegral = true)
    (hlayout : Wire.layout type = some .fixed32) (u32 : BitVec 32) :
    type.Returns (fixed32Zval host type u32) := by
  revert hlayout hintegral
  cases type <;> intro hintegral hlayout
  case fixed32 => exact (setWidth_setWidth_eq_iff _).mp (by simp)
  case sfixed32 => exact (signExtend_setWidth_eq_iff _).mp (signExtend_twice u32)
  case float => exact absurd hintegral (by decide)
  all_goals exact absurd hlayout (by decide)

theorem returns_fixed64Zval (hintegral : type.isIntegral = true)
    (hlayout : Wire.layout type = some .fixed64) (u64 : BitVec 64) :
    type.Returns (fixed64Zval type u64) := by
  revert hlayout hintegral
  cases type <;> intro hintegral hlayout
  case fixed64 | sfixed64 => trivial
  case double => exact absurd hintegral (by decide)
  all_goals exact absurd hlayout (by decide)

theorem readOrFail_ok {α : Type} {read : Option (α × Nat)} {convert : α → Zval} {q : Nat}
    (hread : readOrFail read convert = .ok (q, value)) :
    ∃ raw, value = convert raw := by
  rcases read with _ | ⟨raw, ptr⟩
  · exact absurd hread (by simp [readOrFail])
  · cases hread
    exact ⟨raw, rfl⟩

/-- What is stored for a number read from the wire is a value of the type. -/
theorem returns_stored {ctx : DecodeContext} {decodeMessage : MessageDecoder}
    (hintegral : field.type.isIntegral = true) {ptr bufEnd q : Nat} {wireType : BitVec 32}
    (hread : decodeValueToZval ctx decodeMessage ptr bufEnd field wireType = .ok (q, value)) :
    field.type.Returns value := by
  unfold decodeValueToZval at hread
  split at hread
  · exact absurd hread (by simp)
  split at hread
  case h_1 htype | h_2 htype | h_3 htype | h_4 htype | h_5 htype | h_6 htype | h_7 htype |
      h_8 htype =>
    obtain ⟨raw, rfl⟩ := readOrFail_ok hread
    exact returns_varintZval (by rw [htype]; rfl) raw
  case h_9 htype | h_10 htype | h_11 htype =>
    obtain ⟨raw, rfl⟩ := readOrFail_ok hread
    exact returns_fixed32Zval ctx.host hintegral (by rw [htype]; rfl) raw
  case h_12 htype | h_13 htype | h_14 htype =>
    obtain ⟨raw, rfl⟩ := readOrFail_ok hread
    exact returns_fixed64Zval hintegral (by rw [htype]; rfl) raw
  all_goals
    rename_i htype
    rw [htype] at hintegral
    exact absurd hintegral (by decide)

/-! ### The fields of a name -/

def CompiledSchema.named (schema : CompiledSchema) (name : Bytes) : List FieldDef :=
  schema.orderedFields.filter fun field => field.nameInPhp = name

theorem CompiledSchema.mem_named {schema : CompiledSchema} {name : Bytes} :
    field ∈ schema.named name ↔ field ∈ schema.orderedFields ∧ field.nameInPhp = name := by
  simp [named]

/-- A value under the name that survives another round: each field of the name takes it, and
    it comes back from the last one, or, where nothing is sent for it, as the default. -/
inductive CompiledSchema.Restorable (schema : CompiledSchema) (name : Bytes) (item : Zval) :
    Prop where
  | value {last : FieldDef} (hlast : (schema.named name).getLast? = some last)
      (hkind : ∀ field ∈ schema.named name, field.type = .bool ↔ last.type = .bool)
      (hreturns : last.type.Returns item)
  | absent (hnullish : item.isNullish = true)
      (hoptional : ∀ field ∈ schema.named name, field.flags.required = false)
      (hfallback : fallback schema.orderedFields (.str name) = some item)

section

variable {host : Host} {registry : Registry} {schema : CompiledSchema} {name : Bytes}
  {encodeMessage : MessageEncoder}

theorem FieldType.Returns.isNullish {type : FieldType} (hreturns : type.Returns item) :
    item.isNullish = false := by
  rcases item with _ | _ | b | n | _ | _ | _ | _ | _ | _
  case long | bool => rfl
  all_goals exact hreturns.elim

/-- A value of one type is taken by every type of its kind. -/
theorem FieldType.Returns.takes {last : FieldDef} (hkind : field.type = .bool ↔ last.type = .bool)
    (hreturns : last.type.Returns item) : field.Takes registry item := by
  rcases item with _ | _ | b | n | _ | _ | _ | _ | _ | _
  case long =>
    intro hbool
    have hlast : last.type = .bool := hkind.mp hbool
    simp only [FieldType.Returns, hlast] at hreturns
    exact hreturns
  case bool => exact hkind.mpr hreturns
  all_goals exact hreturns.elim

theorem CompiledSchema.Restorable.accepts (hintegral : schema.IsIntegral)
    (hrestorable : schema.Restorable name value) (hfield : field ∈ schema.named name)
    (hsingular : field.flags.repeated = false) :
    ∃ bytes, encodeFieldInternal host registry encodeMessage field (some value) = .ok bytes := by
  unfold encodeFieldInternal
  rcases hrestorable with ⟨-, hkind, hreturns⟩ | ⟨hnullish, hoptional, -⟩
  · simp only [hreturns.isNullish, hsingular, Bool.false_eq_true, if_false]
    exact (encodeSingleFieldValue_takes host encodeMessage
      (hintegral field (mem_named.mp hfield).1) _).mpr (hreturns.takes (hkind field hfield))
  · simp [hnullish, hoptional field hfield]

/-! ### What arrives under a name -/

theorem FieldDef.entryKey_str
    (htextual : field.flags.repeated = false → handleNumericStr field.nameInPhp = none) :
    field.entryKey false = .str field.nameInPhp := by
  unfold FieldDef.entryKey
  split
  · rfl
  · rename_i hsingular
    exact valueKey_eq_str_iff.mpr (.inr (htextual (by simpa using hsingular)))

variable {data : Zval}

theorem messageDeliveries_filter {asObject : Bool} {fields : List FieldDef} {key : Key}
    (hkeys : ∀ field ∈ fields, field.entryKey asObject = key ↔ field.nameInPhp = name) :
    (messageDeliveries host registry data fields).filter (fun delivery =>
        delivery.key asObject = key) =
      messageDeliveries host registry data (fields.filter fun field => field.nameInPhp = name) := by
  induction fields with
  | nil => rfl
  | cons field rest ih =>
    have hown : ∀ delivery ∈ deliveries field (arrivingItems host registry data field),
        (delivery.key asObject = key ↔ field.nameInPhp = name) := by
      intro delivery hdelivery
      rw [entryKey_of_mem asObject hdelivery]
      exact hkeys field List.mem_cons_self
    rw [messageDeliveries, List.flatMap_cons, List.filter_append, ← messageDeliveries,
      ih fun other hother => hkeys other (List.mem_cons_of_mem _ hother), List.filter_cons]
    split
    · rename_i hname
      rw [List.filter_eq_self.mpr fun delivery hdelivery =>
        decide_eq_true ((hown delivery hdelivery).mpr (of_decide_eq_true hname))]
      rfl
    · rename_i hname
      rw [List.filter_eq_nil_iff.mpr fun delivery hdelivery hkey => hname
        (decide_eq_true ((hown delivery hdelivery).mp (of_decide_eq_true hkey)))]
      rfl

theorem lookup_arrived_named {asObject : Bool} {key : Key}
    (hkeys : ∀ field ∈ schema.orderedFields,
      field.entryKey asObject = key ↔ field.nameInPhp = name) :
    (arrived asObject host registry data schema.orderedFields).lookup key =
      (messageDeliveries host registry data (schema.named name)).foldl
        (fun old delivery => some (delivery.change old)) none := by
  rw [arrived, lookup_deliveries, messageDeliveries_filter hkeys, List.lookup_nil]
  rfl

theorem entryKey_str_iff (htextual : ∀ field ∈ schema.named name, field.flags.repeated = false →
      handleNumericStr field.nameInPhp = none) :
    ∀ field ∈ schema.orderedFields,
      field.entryKey false = .str name ↔ field.nameInPhp = name := by
  intro field hfield
  constructor
  · exact FieldDef.name_of_entryKey
  · intro hname
    rw [FieldDef.entryKey_str (htextual field (CompiledSchema.mem_named.mpr ⟨hfield, hname⟩)),
      hname]

theorem flatMap_items_deliveries (field : FieldDef) (items : List Zval) :
    (deliveries field items).flatMap Delivery.items = items := by
  unfold deliveries
  split
  · split
    · rename_i hnil
      rw [hnil]
      rfl
    · simp [Delivery.items]
  · induction items with
    | nil => rfl
    | cons item rest ih => rw [List.map_cons, List.flatMap_cons, ih]; rfl

theorem messageDeliveries_items (fields : List FieldDef) :
    (messageDeliveries host registry data fields).flatMap Delivery.items =
      fields.flatMap (arrivingItems host registry data) := by
  induction fields with
  | nil => rfl
  | cons field rest ih =>
    rw [messageDeliveries, List.flatMap_cons, List.flatMap_append, flatMap_items_deliveries,
      ← messageDeliveries, ih, List.flatMap_cons]

/-- Of singular fields the last one prevails. -/
theorem foldl_change_singular {fields : List FieldDef} {item : FieldDef → Zval}
    (hitems : ∀ field ∈ fields, field.flags.repeated = false ∧
      arrivingItems host registry data field = [item field]) :
    (messageDeliveries host registry data fields).foldl
      (fun old delivery => some (delivery.change old)) none = fields.getLast?.map item := by
  induction fields using List.reverseRecOn with
  | nil => rfl
  | append_singleton before last _ =>
    obtain ⟨hsingular, hlast⟩ := hitems last (by simp)
    rw [messageDeliveries, List.flatMap_append, List.foldl_append, List.flatMap_singleton, hlast,
      deliveries, if_neg (by simp [hsingular]), List.getLast?_concat]
    rfl

/-- **What comes back under a name** is what was there, exactly for restorable values. -/
theorem restored_iff (hintegral : schema.IsIntegral)
    (hsingular : ∀ field ∈ schema.orderedFields, field.flags.repeated = false)
    (haccepted : Accepted host registry encodeMessage data schema.orderedFields)
    (hvalue : readMember data name = some value)
    (htextual : ∀ field ∈ schema.named name, handleNumericStr field.nameInPhp = none) :
    ((arrived false host registry data schema.orderedFields).lookup (.str name)).or
        (fallback schema.orderedFields (.str name)) = some value ↔
      schema.Restorable name value := by
  have hown : ∀ field ∈ schema.named name, readMember data field.nameInPhp = some value ∧
      ∃ bytes, encodeFieldInternal host registry encodeMessage field (some value) =
        .ok bytes := by
    intro field hfield
    obtain ⟨hmem, hname⟩ := CompiledSchema.mem_named.mp hfield
    have hmember : readMember data field.nameInPhp = some value := by rw [hname, hvalue]
    obtain ⟨bytes, hok⟩ := haccepted field hmem
    exact ⟨hmember, bytes, hmember ▸ hok⟩
  rw [lookup_arrived_named (entryKey_str_iff fun field hfield _ => htextual field hfield)]
  cases hnullish : value.isNullish with
  | true =>
    -- nothing is sent
    have hnothing : messageDeliveries host registry data (schema.named name) = [] := by
      refine List.flatMap_eq_nil_iff.mpr fun field hfield => ?_
      rw [arrivingItems, (hown field hfield).1, sentItems_nullish, List.map_nil, deliveries_nil]
      rintro given ⟨⟩
      exact hnullish
    rw [hnothing, List.foldl_nil, Option.none_or]
    refine ⟨fun hfallback => .absent hnullish (fun field hfield => ?_) hfallback, ?_⟩
    · obtain ⟨bytes, hok⟩ := (hown field hfield).2
      refine Bool.eq_false_of_not_eq_true fun hrequired => ?_
      simp [encodeFieldInternal, hnullish, hrequired] at hok
    · rintro (⟨-, -, hreturns⟩ | ⟨-, -, hfallback⟩)
      · exact absurd (hnullish.symm.trans hreturns.isNullish) (by simp)
      · exact hfallback
  | false =>
    have htakes : ∀ field ∈ schema.named name, field.Takes registry value := by
      intro field hfield
      obtain ⟨hmem, -⟩ := CompiledSchema.mem_named.mp hfield
      obtain ⟨bytes, hok⟩ := (hown field hfield).2
      simp only [encodeFieldInternal, hnullish, hsingular field hmem, Bool.false_eq_true,
        if_false] at hok
      exact (encodeSingleFieldValue_takes host encodeMessage (hintegral field hmem) value).mp
        ⟨bytes, hok⟩
    have hitems : ∀ field ∈ schema.named name, field.flags.repeated = false ∧
        arrivingItems host registry data field =
          [decodedItem host field.type (numbered registry field value)] := by
      intro field hfield
      have hone := hsingular field (CompiledSchema.mem_named.mp hfield).1
      rw [arrivingItems, (hown field hfield).1, sentItems_singular registry hnullish hone]
      exact ⟨hone, rfl⟩
    rw [foldl_change_singular hitems]
    rcases hlast : (schema.named name).getLast? with _ | last
    · -- no field has the name, so that there is no default either
      have hnone : fallback schema.orderedFields (.str name) = none := by
        refine fallback_other fun field hfield hkey => ?_
        have hmem := CompiledSchema.mem_named.mpr ⟨hfield, (Key.str.inj hkey).symm⟩
        rw [List.getLast?_eq_none_iff.mp hlast] at hmem
        cases hmem
      rw [hnone]
      refine iff_of_false (by simp) ?_
      rintro (⟨hsome, -, -⟩ | ⟨hnull, -, -⟩)
      · cases hlast.symm.trans hsome
      · cases hnullish.symm.trans hnull
    · have hmem := List.mem_of_getLast? hlast
      have hown := hintegral last (CompiledSchema.mem_named.mp hmem).1
      rw [Option.map_some, Option.some_or, Option.some_inj]
      constructor
      · intro hsame
        have hreturns := returns_of_numbered hown hsame
        refine .value hlast (fun field hfield => ?_) hreturns
        have hfirst := htakes field hfield
        have hsecond := htakes last hmem
        rcases value with _ | _ | b | n | _ | _ | _ | _ | _ | _
        case long => exact iff_of_false hfirst hsecond
        case bool => exact iff_of_true hfirst hsecond
        all_goals exact hreturns.elim
      · rintro (⟨hlast', -, hreturns⟩ | ⟨hnull, -, -⟩)
        · obtain rfl := Option.some.inj (hlast.symm.trans hlast')
          exact hreturns.numbered host registry hown
        · cases hnullish.symm.trans hnull

end

end QuicproAsync.Iibin

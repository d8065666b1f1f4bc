import QuicproAsync.IibinRoundTrip
import QuicproAsync.PhpKeys

/-!
# What happens to an integer

The strict checks of the encoder look at the PHP type of a value and not at its size, and
each of the 32-bit types cuts the upper half off at a different place. This module says
which integer comes back, for a field of any name: fields whose names were cut at a NUL
may share an entry, and then the last value, or the first list, is what a script reads.
-/

namespace QuicproAsync.Iibin

open Php Fallible

variable {asObject : Bool} {field carrier : FieldDef} {encodeMessage : MessageEncoder}
  {n : BitVec 64} {table : HashTable}

/-- What a script finds under a name: `$result[$name]` or `$result->$name`. -/
def readBack (result : Zval) (name : Bytes) : Option Zval :=
  match result with
  | .array entries => entries.lookup (symtableKey name)
  | .object props => props.lookup (.str name)
  | _ => none

/-- The value of a singular field, or the item of a repeated one at an index. -/
def itemAt (field : FieldDef) (member : Option Zval) (index : Nat) : Option Zval :=
  if field.flags.repeated then (listed member)[index]? else member

/-- The integers that a field of this type hands through unchanged. -/
def FieldType.Keeps (type : FieldType) (n : BitVec 64) : Prop :=
  match type with
  | .int32 | .sint32 | .sfixed32 | .enum => -2 ^ 31 ≤ n.toInt ∧ n.toInt < 2 ^ 31
  | .fixed32 => 0 ≤ n.toInt ∧ n.toInt < 2 ^ 32
  | .uint32 | .int64 | .uint64 | .sint64 | .fixed64 | .sfixed64 => True
  | _ => False

/-- The field whose value is read under the name of a given field keeps the integer. Of
    several singular fields of one name this is the one with the largest tag, of several
    repeated ones the one with the smallest; and a list is not found at all under a name
    that PHP takes for an integer. -/
def Carried (asObject : Bool) (schema : CompiledSchema) (field : FieldDef) (n : BitVec 64) : Prop :=
  (field.flags.repeated = true → asObject = true ∨ handleNumericStr field.nameInPhp = none) ∧
    ∀ carrier ∈ schema.orderedFields, carrier.nameInPhp = field.nameInPhp →
      (∀ other ∈ schema.orderedFields, other.nameInPhp = field.nameInPhp →
        if field.flags.repeated then carrier.tag.toNat ≤ other.tag.toNat
        else other.tag.toNat ≤ carrier.tag.toNat) → carrier.type.Keeps n

theorem readBack_container (asObject : Bool) (entries : HashTable) (name : Bytes) :
    readBack (container asObject entries) name = entries.lookup (valueKey asObject name) := by
  cases asObject <;> rfl

theorem valueKey_injective {left right : Bytes}
    (hkey : valueKey asObject left = valueKey asObject right) : left = right := by
  cases asObject with
  | true => exact Key.str.inj hkey
  | false => exact symtableKey_injective hkey

theorem FieldDef.name_of_valueKey {name : Bytes}
    (hkey : field.entryKey asObject = valueKey asObject name) : field.nameInPhp = name := by
  unfold FieldDef.entryKey at hkey
  split at hkey
  · exact (str_injective_valueKey hkey.symm).symm
  · exact valueKey_injective hkey

/-! ### One integer -/

theorem decodedItem_long_iff (host : Host) {type : FieldType} (hpackable : isPackable type = true)
    (n : BitVec 64) : decodedItem host type (.long n) = .long n ↔ type.Keeps n := by
  cases type
  case unknown | string | bytes | message => cases hpackable
  case double | float | bool => exact ⟨nofun, nofun⟩
  case int32 | sint32 | sfixed32 | enum =>
    exact Zval.long.injEq _ _ ▸ signExtend_setWidth_eq_iff n
  case fixed32 => exact Zval.long.injEq _ _ ▸ setWidth_setWidth_eq_iff n
  all_goals exact ⟨fun _ => trivial, fun _ => rfl⟩

/-- Looking up the number of an enum value does not matter for an integer. -/
theorem decodedItem_numbered_long (host : Host) (registry : Registry) (field : FieldDef)
    (n : BitVec 64) :
    decodedItem host field.type (numbered registry field (.long n)) =
      decodedItem host field.type (.long n) := by
  unfold numbered
  split
  · rename_i htype
    simp only [enumNumber, htype, decodedItem, zvalGetLong, signExtend_twice]
  · rfl

/-! ### The field that carries it -/

theorem split_at_last {fields : List FieldDef} {p : FieldDef → Prop}
    (hexists : ∃ field ∈ fields, p field) :
    ∃ before last after, fields = before ++ last :: after ∧ p last ∧
      ∀ other ∈ after, ¬ p other := by
  have hreversed : ∃ field ∈ fields.reverse, p field := by
    simpa using hexists
  obtain ⟨before, last, after, hsplit, hlast, hbefore⟩ := split_at_first hreversed
  refine ⟨after.reverse, last, before.reverse, ?_, hlast, fun other hother => ?_⟩
  · rw [← List.reverse_reverse fields, hsplit]
    simp
  · exact hbefore other (List.mem_reverse.mp hother)

section

variable {host : Host} {registry : Registry} {data : Zval} {fields : List FieldDef}

/-- An integer is accepted for singular fields only. -/
theorem arrivingItems_long {bytes : Bytes}
    (hok : encodeFieldInternal host registry encodeMessage field
      (readMember data field.nameInPhp) = .ok bytes)
    (hvalue : readMember data field.nameInPhp = some (.long n)) :
    field.flags.repeated = false ∧
      arrivingItems host registry data field = [decodedItem host field.type (.long n)] := by
  rcases sentItems_cases hok with ⟨hgiven, -⟩ | ⟨-, hsingular, given, hvalue', -, hsent, -⟩ |
    ⟨-, -, table, hvalue', -⟩
  · simp only [isGiven, hvalue] at hgiven
    cases hgiven
  · rw [hvalue] at hvalue'
    cases hvalue'
    refine ⟨hsingular, ?_⟩
    rw [arrivingItems, hsent, List.map_singleton, decodedItem_numbered_long]
  · rw [hvalue] at hvalue'
    cases hvalue'

/-- A non-empty array is accepted for repeated fields only, messages apart. -/
theorem arrivingItems_table {bytes : Bytes}
    (hok : encodeFieldInternal host registry encodeMessage field
      (readMember data field.nameInPhp) = .ok bytes)
    (hpackable : isGiven data field = true → isPackable field.type = true)
    (hvalue : readMember data field.nameInPhp = some (.array table)) (hne : table ≠ []) :
    field.flags.repeated = true ∧ isGiven data field = true ∧
      arrivingItems host registry data field = table.map fun entry =>
        decodedItem host field.type (if field.flags.packed then entry.2
          else numbered registry field entry.2) := by
  rcases sentItems_cases hok with ⟨hgiven, -⟩ | ⟨hgiven, -, given, hvalue', -, -, hsingle⟩ |
    ⟨hgiven, hrepeated, table', hvalue', -, hsent⟩
  · rw [isGiven_table hvalue hne] at hgiven
    cases hgiven
  · rw [hvalue] at hvalue'
    cases hvalue'
    exact absurd hsingle (encodeSingleFieldValue_array (hpackable hgiven))
  · rw [hvalue] at hvalue'
    cases hvalue'
    refine ⟨hrepeated, hgiven, ?_⟩
    rw [arrivingItems, hsent, List.map_map]
    rfl

/-- Of several singular fields of a name the last one is read. -/
theorem lookup_arrived_last (asObject : Bool)
    (haccepted : Accepted host registry encodeMessage data fields) {before after : List FieldDef}
    (hsplit : fields = before ++ carrier :: after)
    (hafter : ∀ other ∈ after, other.nameInPhp ≠ carrier.nameInPhp)
    (hvalue : readMember data carrier.nameInPhp = some (.long n)) :
    (arrived asObject host registry data fields).lookup (valueKey asObject carrier.nameInPhp) =
      some (decodedItem host carrier.type (.long n)) := by
  obtain ⟨bytes, hok⟩ := haccepted carrier (by simp [hsplit])
  obtain ⟨hsingular, hitems⟩ := arrivingItems_long hok hvalue
  have hothers : ∀ other ∈ after, other.entryKey asObject ≠ valueKey asObject carrier.nameInPhp :=
    fun other hother hkey => hafter other hother (FieldDef.name_of_valueKey hkey)
  rw [arrived, hsplit, messageDeliveries_split, List.map_append, List.map_append,
    OrderedMap.replay_append, OrderedMap.replay_append, lookup_replay_others asObject hothers,
    hitems, deliveries, hsingular]
  exact OrderedMap.lookup_assign_self _ _ _

/-- Of several repeated fields of a name the list of the first one comes first. -/
theorem lookup_arrived_first (asObject : Bool)
    (haccepted : Accepted host registry encodeMessage data fields)
    (hpackable : ∀ field ∈ fields, isGiven data field = true → isPackable field.type = true)
    {before after : List FieldDef} (hsplit : fields = before ++ carrier :: after)
    (hbefore : ∀ other ∈ before, other.nameInPhp ≠ carrier.nameInPhp)
    (hvalue : readMember data carrier.nameInPhp = some (.array table)) (hne : table ≠ []) :
    ∃ more, (arrived asObject host registry data fields).lookup (.str carrier.nameInPhp) =
      some (.array (listTable (arrivingItems host registry data carrier ++ more))) := by
  have hmiss : (messageDeliveries host registry data before).filter
      (fun delivery => delivery.key asObject = .str carrier.nameInPhp) = [] := by
    rw [List.filter_eq_nil_iff]
    intro delivery hdelivery
    obtain ⟨other, hother, hdelivery⟩ := List.mem_flatMap.mp hdelivery
    rw [entryKey_of_mem asObject hdelivery, decide_eq_true_iff]
    exact fun hkey => hbefore other hother (FieldDef.name_of_entryKey hkey)
  obtain ⟨bytes, hok⟩ := haccepted carrier (by simp [hsplit])
  obtain ⟨hrepeated, hgiven, -⟩ := arrivingItems_table hok (hpackable carrier (by simp [hsplit]))
    hvalue hne
  have hitems := arriving_of_isGiven hok hgiven
  have hown : deliveries carrier (arrivingItems host registry data carrier) =
      [.list carrier (arrivingItems host registry data carrier)] := by
    rw [deliveries, if_pos hrepeated, if_neg hitems]
  -- what comes behind it under this name are lists as well
  have hlists : ∀ delivery ∈ (messageDeliveries host registry data after).filter
      (fun delivery => delivery.key asObject = .str carrier.nameInPhp), delivery.isList = true := by
    intro delivery hdelivery
    obtain ⟨hdelivery, hkey⟩ := List.mem_filter.mp hdelivery
    obtain ⟨other, hother, hdelivery⟩ := List.mem_flatMap.mp hdelivery
    rw [entryKey_of_mem asObject hdelivery, decide_eq_true_iff] at hkey
    have hmem : other ∈ fields := by simp [hsplit, hother]
    obtain ⟨bytes', hok'⟩ := haccepted other hmem
    obtain ⟨hflag, -⟩ := arrivingItems_table hok' (hpackable other hmem)
      (by rw [FieldDef.name_of_entryKey hkey, hvalue]) hne
    rcases (mem_deliveries hdelivery).2 with ⟨-, rfl⟩ | ⟨hsingular, -⟩
    · rfl
    · rw [hflag] at hsingular
      cases hsingular
  refine ⟨((messageDeliveries host registry data after).filter
    fun delivery => delivery.key asObject = .str carrier.nameInPhp).flatMap Delivery.items, ?_⟩
  rw [arrived, lookup_deliveries, hsplit, messageDeliveries_split, hown, List.filter_append, hmiss,
    List.nil_append, List.singleton_append, List.filter_cons_of_pos (by simp [Delivery.key]),
    foldl_change_lists (List.cons_ne_nil _ _) (List.forall_mem_cons.mpr ⟨rfl, hlists⟩)]
  rfl

/-- Under a name that is filed as an integer no list is found. -/
theorem lookup_arrived_filed (haccepted : Accepted host registry encodeMessage data fields)
    (hpackable : ∀ field ∈ fields, isGiven data field = true → isPackable field.type = true)
    {name : Bytes} (hfiled : valueKey asObject name ≠ .str name)
    (hvalue : readMember data name = some (.array table)) (hne : table ≠ []) :
    ((arrived asObject host registry data fields).lookup (valueKey asObject name)).or
      (fallback fields (valueKey asObject name)) = none := by
  rw [Option.or_eq_none_iff]
  constructor
  · rw [← Option.not_isSome_iff_eq_none, isSome_arrived haccepted]
    rintro ⟨other, hother, -, hkey⟩
    have hname := FieldDef.name_of_valueKey hkey
    obtain ⟨bytes, hok⟩ := haccepted other hother
    obtain ⟨hrepeated, -⟩ := arrivingItems_table hok (hpackable other hother)
      (by rw [hname, hvalue]) hne
    rw [FieldDef.entryKey, if_pos hrepeated, hname] at hkey
    exact hfiled hkey.symm
  · rw [fallback, List.findSome?_eq_none_iff]
    intro other hother
    rw [FieldDef.fallback, if_neg]
    rintro ⟨hkey, -⟩
    have hname := str_injective_valueKey hkey
    rw [← hname] at hkey
    exact hfiled hkey

end

/-! ### The integer that comes back -/

section

variable {host : Host} {registry : Registry} {data : Zval} {schema : CompiledSchema}

/-- The field that is read under the name decides. -/
theorem carried_iff (asObject : Bool) (hformed : schema.WellFormed registry)
    (hmem : carrier ∈ schema.orderedFields) (hname : carrier.nameInPhp = field.nameInPhp)
    (hextreme : ∀ other ∈ schema.orderedFields, other.nameInPhp = field.nameInPhp →
      if field.flags.repeated then carrier.tag.toNat ≤ other.tag.toNat
      else other.tag.toNat ≤ carrier.tag.toNat) (n : BitVec 64) :
    Carried asObject schema field n ↔
      (field.flags.repeated = true → asObject = true ∨ handleNumericStr field.nameInPhp = none) ∧
        carrier.type.Keeps n := by
  refine and_congr_right fun _ => ⟨fun hall => hall carrier hmem hname hextreme, ?_⟩
  intro hkeeps other hother hsame hothers
  have hleft := hextreme other hother hsame
  have hright := hothers carrier hmem hname
  have htag : other.tag.toNat = carrier.tag.toNat := by
    split at hleft
    · rename_i hrepeated
      rw [if_pos hrepeated] at hright
      exact hright.antisymm hleft
    · rename_i hsingular
      rw [if_neg hsingular] at hright
      exact hleft.antisymm hright
  rwa [hformed.eq_of_tag hother hmem (BitVec.eq_of_toNat_eq htag)]

/-- The fields stand in the order of their tags. -/
theorem tags_of_split (hformed : schema.WellFormed registry) {before after : List FieldDef}
    {carrier : FieldDef} (hsplit : schema.orderedFields = before ++ carrier :: after)
    (hfield : field ∈ schema.orderedFields) :
    (field ∉ after → field.tag.toNat ≤ carrier.tag.toNat) ∧
      (field ∉ before → carrier.tag.toNat ≤ field.tag.toNat) := by
  have hsorted := hformed.sorted
  rw [hsplit] at hfield hsorted
  obtain ⟨-, hrest, hacross⟩ := List.pairwise_append.mp hsorted
  rcases List.mem_append.mp hfield with hbefore | hfield
  · exact ⟨fun _ => (hacross field hbefore carrier List.mem_cons_self).le, absurd hbefore⟩
  · rcases List.mem_cons.mp hfield with rfl | hafter
    · exact ⟨fun _ => le_rfl, fun _ => le_rfl⟩
    · exact ⟨absurd hafter, fun _ => (List.rel_of_pairwise_cons hrest hafter).le⟩

section

variable (asObject : Bool)
  (haccepted : Accepted host registry encodeMessage data schema.orderedFields)
  (hpackable : ∀ field ∈ schema.orderedFields, isGiven data field = true →
    isPackable field.type = true) (hformed : schema.WellFormed registry)
  (hfield : field ∈ schema.orderedFields)

include haccepted hpackable hformed hfield

theorem carried_singular (hsingular : field.flags.repeated = false)
    (hvalue : readMember data field.nameInPhp = some (.long n)) :
    ((arrived asObject host registry data schema.orderedFields).lookup
      (valueKey asObject field.nameInPhp)).or
        (fallback schema.orderedFields (valueKey asObject field.nameInPhp)) = some (.long n) ↔
      Carried asObject schema field n := by
  obtain ⟨before, carrier, after, hsplit, hname, hafter⟩ := split_at_last
    (p := fun other => other.nameInPhp = field.nameInPhp) ⟨field, hfield, rfl⟩
  have hmem : carrier ∈ schema.orderedFields := by simp [hsplit]
  have hlargest : ∀ other ∈ schema.orderedFields, other.nameInPhp = field.nameInPhp →
      other.tag.toNat ≤ carrier.tag.toNat := by
    intro other hother hsame
    exact (tags_of_split hformed hsplit hother).1 fun hlater => hafter other hlater hsame
  have hcarried : Carried asObject schema field n ↔ carrier.type.Keeps n := by
    rw [carried_iff asObject hformed hmem hname (by simpa [hsingular] using hlargest) n, hsingular]
    exact and_iff_right nofun
  rw [← hname] at hvalue hafter
  have hgiven : isGiven data carrier = true := by
    simp only [isGiven, hvalue]
    rfl
  rw [hcarried, ← hname, lookup_arrived_last asObject haccepted hsplit hafter hvalue,
    Option.some_or, Option.some_inj, decodedItem_long_iff host (hpackable carrier hmem hgiven)]

theorem carried_repeated (hrepeated : field.flags.repeated = true)
    (hvalue : readMember data field.nameInPhp = some (.array table)) {index : Nat}
    (hitem : (table.map Prod.snd)[index]? = some (.long n)) :
    (listed (((arrived asObject host registry data schema.orderedFields).lookup
      (valueKey asObject field.nameInPhp)).or
        (fallback schema.orderedFields (valueKey asObject field.nameInPhp))))[index]? =
          some (.long n) ↔
      Carried asObject schema field n := by
  have hne : table ≠ [] := by
    rintro rfl
    cases hitem
  obtain ⟨before, carrier, after, hsplit, hname, hbefore⟩ := split_at_first
    (p := fun other => other.nameInPhp = field.nameInPhp) ⟨field, hfield, rfl⟩
  have hmem : carrier ∈ schema.orderedFields := by simp [hsplit]
  have hsmallest : ∀ other ∈ schema.orderedFields, other.nameInPhp = field.nameInPhp →
      carrier.tag.toNat ≤ other.tag.toNat := by
    intro other hother hsame
    exact (tags_of_split hformed hsplit hother).2 fun hearlier => hbefore other hearlier hsame
  rw [carried_iff asObject hformed hmem hname (by simpa [hrepeated] using hsmallest) n]
  by_cases hkey : valueKey asObject field.nameInPhp = .str field.nameInPhp
  · rw [and_iff_right fun _ => valueKey_eq_str_iff.mp hkey, hkey]
    rw [← hname] at hvalue hbefore ⊢
    obtain ⟨bytes, hok⟩ := haccepted carrier hmem
    obtain ⟨-, hgiven, hitems⟩ := arrivingItems_table hok (hpackable carrier hmem) hvalue hne
    obtain ⟨more, hlookup⟩ :=
      lookup_arrived_first asObject haccepted hpackable hsplit hbefore hvalue hne
    have hat : (arrivingItems host registry data carrier)[index]? =
        some (decodedItem host carrier.type (.long n)) := by
      rw [List.getElem?_map, Option.map_eq_some_iff] at hitem
      obtain ⟨entry, hentry, hlong⟩ := hitem
      rw [hitems, List.getElem?_map, hentry, Option.map_some, hlong]
      split
      · rfl
      · rw [decodedItem_numbered_long]
    rw [hlookup, Option.some_or, listed_list,
      List.getElem?_append_left (List.getElem?_eq_some_iff.mp hat).1, hat, Option.some_inj,
      decodedItem_long_iff host (hpackable carrier hmem hgiven)]
  · rw [lookup_arrived_filed haccepted hpackable hkey hvalue hne]
    exact ⟨nofun, fun hboth => absurd (valueKey_eq_str_iff.mpr (hboth.1 hrepeated)) hkey⟩

end

end

/-- What the decoder on values makes of an integer that was encoded. -/
theorem integer_value_iff (host : Host) (registry : Registry)
    (hreach : Reachable (fun _ => True) registry) (schemaName : Bytes) (schema : CompiledSchema)
    (hfound : registry.Has schemaName schema) (htags : schema.SmallTags) (data : Zval)
    (bytes : Bytes) (hok : quicproIibinEncode host registry schemaName data = .ok bytes)
    (field : FieldDef) (hfield : field ∈ schema.orderedFields) (index : Nat) (n : BitVec 64)
    (hgiven : itemAt field (readMember data field.nameInPhp) index = some (.long n))
    (buffer : Buffer) (hbuffer : buffer.bytes = bytes) (fuel : Nat) (hfuel : bytes.length ≤ fuel)
    (asObject : Bool) :
    (∃ result, quicproIibinDecode ⟨host, registry, .asWritten, asObject⟩ fuel schemaName buffer =
        .ok (result, none) ∧
      itemAt field (readBack result field.nameInPhp) index = some (.long n)) ↔
    NothingRejected asObject schema data ∧ RequiredFound asObject schema data ∧
      Carried asObject schema field n := by
  have hformed := hreach.layered.wellFormed hfound
  obtain ⟨depth, haccepted⟩ := quicproIibinEncode_accepted hfound hok
  rcases quicproIibinDecode_outcome hreach hfound htags hok hbuffer hfuel asObject with
    ⟨hnot, _, -, fault, -, hdecode⟩ | ⟨-, hnot, error, hdecode⟩ |
    ⟨hfree, hrequired, entries, hdecode, -, hlookup⟩
  · rw [hdecode]
    constructor
    · rintro ⟨result, hresult, -⟩
      cases hresult
    · intro hall
      exact absurd hall.1 hnot
  · rw [hdecode]
    constructor
    · rintro ⟨result, hresult, -⟩
      cases hresult
    · intro hall
      exact absurd hall.2.1 hnot
  have hpackable := hfree.isPackable hformed
  have hread : (∃ result, quicproIibinDecode ⟨host, registry, .asWritten, asObject⟩ fuel schemaName
        buffer = .ok (result, none) ∧
      itemAt field (readBack result field.nameInPhp) index = some (.long n)) ↔
      itemAt field (readBack (container asObject entries) field.nameInPhp) index =
        some (.long n) := by
    rw [hdecode]
    constructor
    · rintro ⟨result, hresult, hitem⟩
      cases hresult
      exact hitem
    · intro hitem
      exact ⟨_, rfl, hitem⟩
  rw [hread, and_iff_right hfree, and_iff_right hrequired, readBack_container, hlookup]
  unfold itemAt at hgiven ⊢
  cases hrepeated : field.flags.repeated with
  | false =>
    rw [hrepeated, if_neg Bool.false_ne_true] at hgiven
    rw [if_neg Bool.false_ne_true]
    exact carried_singular asObject haccepted hpackable hformed hfield hrepeated hgiven
  | true =>
    rw [hrepeated, if_pos rfl] at hgiven
    rw [if_pos rfl]
    obtain ⟨table, hvalue⟩ : ∃ table, readMember data field.nameInPhp = some (.array table) := by
      unfold listed at hgiven
      split at hgiven
      · rename_i table hvalue
        exact ⟨table, hvalue⟩
      · cases hgiven
    rw [hvalue] at hgiven
    exact carried_repeated asObject haccepted hpackable hformed hfield hrepeated hvalue hgiven

/-- **What becomes of an integer.** An integer that was encoded, as the value of a field or
    as an item of its list, comes back from decoding, in a result that is still there, exactly
    if the message is decoded, its lists are kept and the field that is read under the name
    keeps the integer. -/
theorem integer_kept_iff (host : Host) (registry : Registry)
    (hreach : Reachable (fun _ => True) registry) (schemaName : Bytes) (schema : CompiledSchema)
    (hfound : getCompiledIibinSchemaInternal registry schemaName = some schema)
    (htags : ∀ field ∈ schema.orderedFields, field.SmallTag) (data : Zval) (bytes : Bytes)
    (hok : quicproIibinEncode host registry schemaName data = .ok bytes) (field : FieldDef)
    (hfield : field ∈ schema.orderedFields) (index : Nat) (n : BitVec 64)
    (hgiven : itemAt field (readMember data field.nameInPhp) index = some (.long n))
    (buffer : Buffer) (hbuffer : buffer.bytes = bytes) (fuel : Nat) (hfuel : bytes.length ≤ fuel)
    (asObject : Bool) :
    (∃ result, quicproIibinDecodeTracked ⟨host, registry, .asWritten, asObject⟩ fuel schemaName
        buffer = .ok (.live result, none) ∧
      itemAt field (readBack result field.nameInPhp) index = some (.long n)) ↔
    (NothingRejected asObject schema data ∧ RequiredFound asObject schema data ∧
      Carried asObject schema field n) ∧ (asObject = false → ListsKept schema data) := by
  rw [← integer_value_iff host registry hreach schemaName schema hfound htags data bytes hok field
    hfield index n hgiven buffer hbuffer fuel hfuel asObject]
  simp only [decodeTracked_encoded_iff hreach hfound htags hok hbuffer hfuel, and_right_comm,
    exists_and_right]

/-- A list whose second item does not fit into 32 bits. -/
def wideList : Zval := .array [(.str (ascii "x"), .array (listTable [.long 1, .long 4294967301]))]

def wideField : FieldDef :=
  ⟨ascii "x", 1, .uint32, ⟨true, false, true, true⟩, none, false, none, none, .undef, 2⟩

theorem integer_kept_iff_wide :
    ∃ result, quicproIibinDecodeTracked
        ⟨default, oneSchema (fieldOptions 1 "repeated_uint32" []), .asWritten, false⟩ 8 (ascii "P")
        (Buffer.place 4096 [0x0a, 0x06, 0x01, 0x85, 0x80, 0x80, 0x80, 0x10] (by decide)
          (by decide)) = .ok (.live result, none) ∧
      itemAt wideField (readBack result (ascii "x")) 1 = some (.long 4294967301) := by
  refine (integer_kept_iff default _ ((oneSchema_reachable _).weaken fun _ _ => trivial) (ascii "P")
    ⟨ascii "P", [(1, wideField)], [wideField]⟩ rfl (by decide) wideList _ rfl wideField
    List.mem_cons_self 1 4294967301 rfl _ rfl 8 (by decide) false).mpr
    ⟨⟨?_, ?_, ?_, ?_⟩, fun _ => ?_⟩
  · intro field hfield _
    rw [List.mem_singleton.mp hfield]
    rfl
  · intro field hfield hrequired
    rw [List.mem_singleton.mp hfield] at hrequired
    cases hrequired
  · exact fun _ => .inr rfl
  · intro carrier hcarrier _ _
    rw [List.mem_singleton.mp hcarrier]
    trivial
  · intro field hfield _ hunpacked
    rw [List.mem_singleton.mp hfield] at hunpacked
    cases hunpacked

/-- The integer 2³² + 5 is encoded as an `int32`, and decoding the bytes gives 5. -/
theorem integer_not_kept :
    ∃ bytes buffer, quicproIibinEncode default (oneSchema (fieldOptions 1 "int32" [])) (ascii "P")
        (.array [(.str (ascii "x"), .long 4294967301)]) = .ok bytes ∧ buffer.bytes = bytes ∧
      quicproIibinDecodeTracked ⟨default, oneSchema (fieldOptions 1 "int32" []), .asWritten, false⟩
        bytes.length (ascii "P") buffer =
          .ok (.live (.array [(.str (ascii "x"), .long 5)]), none) :=
  ⟨[0x08, 0x85, 0x80, 0x80, 0x80, 0x10],
    Buffer.place 4096 [0x08, 0x85, 0x80, 0x80, 0x80, 0x10] (by decide) (by decide), rfl, rfl, rfl⟩

end QuicproAsync.Iibin

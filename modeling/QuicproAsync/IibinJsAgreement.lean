import QuicproAsync.IibinJsStoring

/-!
# Two decoders, one message

The JavaScript decoder and the C decoder on the bytes of one message of integers,
booleans and enum values. Both go through the fields in the order of the bytes and store
item after item, so what they return can be compared name by name. They agree unless a
negative integer was sent in a type without ZigZag, or the name of a field is one that
PHP stores as an integer or that JavaScript finds in `Object.prototype`, or the C decoder
gives a list back that it returns.
-/

namespace QuicproAsync.Iibin.Js

open Php

variable {field : Iibin.FieldDef}

/-! ### Items -/

/-- The number is read without its sign, so it must have none or use ZigZag. -/
def Unsigned (host : Host) (type : FieldType) (item : Zval) : Prop :=
  0 ≤ (zvalGetLong host item).toInt ∨ type = .sint32 ∨ type = .sint64 ∨ type = .bool

theorem toNat_eq_toInt_iff (n : BitVec 64) : (n.toNat : Int) = n.toInt ↔ 0 ≤ n.toInt := by
  have hlt := n.isLt
  rw [BitVec.toInt_eq_toNat_cond]
  split <;> omega

theorem setWidth_toNat_eq_iff {n : BitVec 64} (hlow : -2 ^ 31 ≤ n.toInt)
    (hhigh : n.toInt < 2 ^ 32) :
    ((n.setWidth 32).toNat : Int) = n.toInt ↔ 0 ≤ n.toInt := by
  have hlt := n.isLt
  rw [BitVec.toNat_setWidth]
  rw [BitVec.toInt_eq_toNat_cond] at hlow hhigh ⊢
  split at * <;> omega

theorem toNumber_eq_toInt_iff {n : BitVec 64} (hhigh : n.toInt < 2 ^ 32) :
    toNumber n.toNat = n.toInt ↔ 0 ≤ n.toInt := by
  constructor
  · intro hsame
    rw [← hsame]
    exact toNumber_nonneg _
  · intro hnonneg
    have hsame := (toNat_eq_toInt_iff n).mpr hnonneg
    rw [toNumber_of_lt (by omega), hsame]

theorem setWidth_toInt {n : BitVec 64} (hlow : -2 ^ 31 ≤ n.toInt) (hhigh : n.toInt < 2 ^ 31) :
    (n.setWidth 32).toInt = n.toInt := by
  have hextend := (signExtend_setWidth_eq_iff n).mpr ⟨hlow, hhigh⟩
  have hint := congrArg BitVec.toInt hextend
  rwa [BitVec.toInt_signExtend_of_le (by decide)] at hint

/-- What the two decoders make of an item is the same number exactly if it is unsigned. -/
theorem same_seen_iff (host : Host) {type : FieldType} (hintegral : type.isIntegral = true)
    {item : Zval} (hrange : type.InRange (zvalGetLong host item)) :
    SameItem (seen host type item) (decodedItem host type item) ↔ Unsigned host type item := by
  by_cases hbool : type = .bool
  · subst hbool
    simp [seen, decodedItem, SameItem, Unsigned]
  have hitem : decodedItem host type item = .long (zvalGetLong host item) := by
    rw [← decodedItem_long host hintegral hbool hrange]
    cases type <;> first | rfl | contradiction
  rw [hitem]
  cases type <;> try contradiction
  case int32 | enum =>
    simpa [seen, SameItem, Unsigned] using
      toNumber_eq_toInt_iff (Int.lt_trans hrange.2 (by decide))
  case uint32 => simpa [seen, SameItem, Unsigned] using toNumber_eq_toInt_iff hrange.2
  case sint32 => simpa [seen, SameItem, Unsigned] using setWidth_toInt hrange.1 hrange.2
  case sint64 => simp [seen, SameItem, Unsigned]
  case int64 | uint64 | fixed64 | sfixed64 =>
    simpa [seen, SameItem, Unsigned] using toNat_eq_toInt_iff (zvalGetLong host item)
  case sfixed32 =>
    simpa [seen, SameItem, Unsigned] using
      setWidth_toNat_eq_iff hrange.1 (Int.lt_trans hrange.2 (by decide))
  case fixed32 =>
    simpa [seen, SameItem, Unsigned] using
      setWidth_toNat_eq_iff (Int.le_trans (by decide) hrange.1) hrange.2

/-! ### The fallbacks of a mirrored table -/

theorem rel_or {first first' : Option Value} {second second' : Option Zval}
    (hfirst : Option.Rel Same first second) (hrest : Option.Rel Same first' second') :
    Option.Rel Same (first.or first') (second.or second') := by
  cases hfirst with
  | some hsame => exact .some hsame
  | none => exact hrest

theorem Same.ne_undefined {value : Value} {item : Zval} (hsame : Same value item) :
    value ≠ .undefined := by
  rintro rfl
  obtain ⟨hitem⟩ := hsame
  exact hitem

theorem Mirrors.fallback {entry : Nat × FieldDef} (hmirrors : Mirrors field entry) (name : Bytes) :
    Option.Rel Same (entry.2.fallback name) (field.fallback (.str name)) := by
  unfold FieldDef.fallback Iibin.FieldDef.fallback Iibin.FieldDef.hasFallback
  rw [hmirrors.name, hmirrors.flags]
  by_cases hname : name = field.nameInPhp
  · cases hrequired : field.flags.required with
    | true => simp
    | false =>
      rcases hmirrors.default with ⟨hundef, hdefault⟩ | ⟨hundef, hsame⟩
      · simp [hundef, hdefault, Zval.isUndef]
      · have hdefined := hsame.ne_undefined
        simpa [hname, hundef, hdefined] using hsame
  · simp [hname]

theorem fallback_mirrors {fields : List Iibin.FieldDef} {entries : List (Nat × FieldDef)}
    (hmirrors : List.Forall₂ Mirrors fields entries) (name : Bytes) :
    Option.Rel Same (fallback entries name) (Iibin.fallback fields (.str name)) := by
  induction hmirrors with
  | nil => exact .none
  | cons hfirst hrest ih =>
    rw [fallback_cons, Iibin.fallback_cons]
    exact rel_or (hfirst.fallback name) ih

theorem rel_isSome {value : Option Value} {item : Option Zval} (hrel : Option.Rel Same value item) :
    value.isSome = item.isSome := by
  cases hrel <;> rfl

theorem isSome_fallback_iff {fields : List Iibin.FieldDef} {name : Bytes} :
    (Iibin.fallback fields (.str name)).isSome ↔
      ∃ field ∈ fields, field.nameInPhp = name ∧ field.hasFallback = true := by
  rw [Iibin.fallback, List.findSome?_isSome_iff]
  refine exists_congr fun field => and_congr_right fun _ => ?_
  unfold Iibin.FieldDef.fallback
  split
  · rename_i hboth
    obtain ⟨hname, hfallback⟩ := hboth
    obtain rfl : name = field.nameInPhp := by simpa using hname
    simp [hfallback]
  · rename_i hnot
    simp only [Option.isSome_none, Bool.false_eq_true, false_iff, not_and]
    rintro rfl hfallback
    exact hnot ⟨rfl, hfallback⟩

/-! ### What is under one name -/

/-- A message of integers in range that the encoder accepts, and a table that mirrors its
schema. -/
structure Comparable (host : Host) (registry : Registry) (encodeMessage : MessageEncoder)
    (schema : CompiledSchema) (table : Schema) (data : Zval) : Prop where
  formed : schema.WellFormed registry
  accepted : Accepted host registry encodeMessage data schema.orderedFields
  integral : ∀ field ∈ schema.orderedFields, field.type.isIntegral = true
  inRange : ∀ field ∈ schema.orderedFields,
    ∀ item ∈ sentItems registry field (readMember data field.nameInPhp),
      field.type.InRange (zvalGetLong host item)
  mirrors : MirrorsSchema schema table

variable {host : Host} {registry : Registry} {encodeMessage : MessageEncoder} {data : Zval}
  {schema : CompiledSchema} {table : Schema} {name : Bytes}

theorem seenItems_eq_nil_iff {bytes : Bytes}
    (hok : encodeFieldInternal host registry encodeMessage field
      (readMember data field.nameInPhp) = .ok bytes) :
    seenItems host registry data field = [] ↔ isGiven data field = false := by
  rw [← arrivingItems_eq_nil_iff hok]
  simp [seenItems, arrivingItems]

theorem seenItems_ne_nil {bytes : Bytes}
    (hok : encodeFieldInternal host registry encodeMessage field
      (readMember data field.nameInPhp) = .ok bytes) (hgiven : isGiven data field = true) :
    seenItems host registry data field ≠ [] := by
  intro hnil
  rw [(seenItems_eq_nil_iff hok).mp hnil] at hgiven
  cases hgiven

/-- Under the name there is one value, for all its fields. -/
def HasValue (registry : Registry) (data : Zval) (schema : CompiledSchema) (name : Bytes)
    (value : Zval) : Prop :=
  ∀ field ∈ schema.named name, isGiven data field = true ∧ field.flags.repeated = false ∧
    sentItems registry field (readMember data field.nameInPhp) = [numbered registry field value]

/-- Under the name there are lists. -/
def HasLists (data : Zval) (schema : CompiledSchema) (name : Bytes) : Prop :=
  ∀ field ∈ schema.named name, isGiven data field = true ∧ field.flags.repeated = true

section

variable (hmessage : Comparable host registry encodeMessage schema table data)

include hmessage

theorem Comparable.packable (hfield : field ∈ schema.orderedFields) :
    isPackable field.type = true :=
  FieldType.isPackable_of_isIntegral (hmessage.integral field hfield)

theorem Comparable.repeated_eq {first second : Iibin.FieldDef}
    (hfirst : first ∈ schema.orderedFields) (hsecond : second ∈ schema.orderedFields)
    (hname : first.nameInPhp = second.nameInPhp) (hgiven : isGiven data first = true)
    (hgiven' : isGiven data second = true) : first.flags.repeated = second.flags.repeated :=
  repeated_eq_of_name hmessage.accepted (fun _ hfield _ => hmessage.packable hfield) hfirst hsecond
    hname hgiven hgiven'

theorem isGiven_of_name {first second : Iibin.FieldDef} (hfirst : first ∈ schema.orderedFields)
    (hname : second.nameInPhp = first.nameInPhp) (hgiven : isGiven data first = true) :
    isGiven data second = true := by
  obtain ⟨bytes, hok⟩ := hmessage.accepted first hfirst
  rcases sentItems_cases hok with ⟨hnot, -⟩ | ⟨-, -, given, hvalue, hnull, -, hsingle⟩ |
      ⟨-, -, table, hvalue, hne, -⟩
  · rw [hgiven] at hnot
    cases hnot
  · have hscalar : ∀ table, given ≠ .array table := by
      rintro table rfl
      exact encodeSingleFieldValue_array (hmessage.packable hfirst) hsingle
    rw [isGiven, hname, hvalue]
    split
    · contradiction
    · rename_i hsome
      exact absurd (Option.some.inj hsome) (hscalar [])
    · rename_i hsome
      rw [← Option.some.inj hsome, hnull]
      rfl
  · exact isGiven_table (by rw [hname, hvalue]) hne

theorem uniform : Uniform host registry data schema.orderedFields := by
  have hgiven : ∀ field ∈ schema.orderedFields, seenItems host registry data field ≠ [] →
      isGiven data field = true := by
    intro field hfield hitems
    obtain ⟨bytes, hok⟩ := hmessage.accepted field hfield
    exact Bool.eq_true_of_not_eq_false fun hnot => hitems ((seenItems_eq_nil_iff hok).mpr hnot)
  intro first hfirst second hsecond hname hitems hitems'
  exact hmessage.repeated_eq hfirst hsecond hname (hgiven first hfirst hitems)
    (hgiven second hsecond hitems')

/-- Under one name there is nothing, one value, or a list, for all its fields. -/
theorem member_cases (name : Bytes) :
    (∀ field ∈ schema.named name, isGiven data field = false) ∨
    (∃ value, HasValue registry data schema name value) ∨ HasLists data schema name := by
  by_cases hany : ∃ first ∈ schema.named name, isGiven data first = true
  · obtain ⟨first, hfirst, hgiven⟩ := hany
    obtain ⟨hmem, hname⟩ := CompiledSchema.mem_named.mp hfirst
    have hall : ∀ field ∈ schema.named name, isGiven data field = true ∧
        field.flags.repeated = first.flags.repeated := by
      intro field hfield
      obtain ⟨hmem', hname'⟩ := CompiledSchema.mem_named.mp hfield
      have hsame : field.nameInPhp = first.nameInPhp := hname'.trans hname.symm
      have hgiven' := isGiven_of_name hmessage hmem hsame hgiven
      exact ⟨hgiven', hmessage.repeated_eq hmem' hmem hsame hgiven' hgiven⟩
    cases hrepeated : first.flags.repeated with
    | true => exact Or.inr (Or.inr fun field hfield =>
      ⟨(hall field hfield).1, (hall field hfield).2.trans hrepeated⟩)
    | false =>
      refine Or.inr (Or.inl ⟨(readMember data name).getD .undef, fun field hfield => ?_⟩)
      obtain ⟨hgiven', hkind⟩ := hall field hfield
      obtain ⟨hmem', hname'⟩ := CompiledSchema.mem_named.mp hfield
      obtain ⟨bytes, hok⟩ := hmessage.accepted field hmem'
      refine ⟨hgiven', hkind.trans hrepeated, ?_⟩
      rcases sentItems_cases hok with ⟨hnot, -⟩ | ⟨-, -, given, hvalue, -, hsent, -⟩ |
          ⟨-, hlist, -⟩
      · rw [hgiven'] at hnot
        cases hnot
      · rw [hsent, ← hname', hvalue]
        rfl
      · rw [hkind, hrepeated] at hlist
        cases hlist
  · refine Or.inl fun field hfield => ?_
    exact Bool.eq_false_of_not_eq_true fun hgiven => hany ⟨field, hfield, hgiven⟩

end

/-! ### The two results under one name -/

/-- The own property the decoder has built before it puts in the defaults. -/
def ownMember (host : Host) (registry : Registry) (data : Zval) (schema : CompiledSchema)
    (name : Bytes) : Option Value :=
  if name = protoName then none
  else (schema.named name).foldl (fun old field => change host registry data field old) none

/-- What PHP finds under the name in the array of the C decoder. -/
def arrivedMember (host : Host) (registry : Registry) (data : Zval) (schema : CompiledSchema)
    (name : Bytes) : Option Zval :=
  ((arrived false host registry data schema.orderedFields).lookup (symtableKey name)).or
    (Iibin.fallback schema.orderedFields (symtableKey name))

theorem symtableKey_textual {name : Bytes} (htextual : handleNumericStr name = none) :
    symtableKey name = .str name := by
  rw [symtableKey, htextual]

theorem inheritedNames_textual : ∀ name ∈ inheritedNames, handleNumericStr name = none := by
  decide

theorem fallback_symtableKey (fields : List Iibin.FieldDef) (name : Bytes) :
    Iibin.fallback fields (symtableKey name) =
      if handleNumericStr name = none then Iibin.fallback fields (.str name) else none := by
  rcases hindex : handleNumericStr name with _ | index
  · rw [symtableKey_textual hindex, if_pos rfl]
  · rw [if_neg (by simp), Iibin.fallback, List.findSome?_eq_none_iff]
    intro field _
    rw [Iibin.FieldDef.fallback, symtableKey, hindex, if_neg]
    rintro ⟨hkey, -⟩
    cases hkey

theorem same_item_iff (host : Host) (type : FieldType) (item : Zval) (value : Zval) :
    Same (seen host type item) value ↔ SameItem (seen host type item) value := by
  refine ⟨fun hsame => ?_, .item⟩
  generalize hseen : seen host type item = found at hsame
  cases hsame with
  | item hitem => exact hitem
  | list _ => cases type <;> cases hseen
  | foreign _ => cases type <;> cases hseen

theorem same_list_iff {values : List Value} {items : List Zval} :
    Same (.array values) (.array (listTable items)) ↔ List.Forall₂ SameItem values items := by
  refine ⟨fun hsame => ?_, .list⟩
  generalize htable : Zval.array (listTable items) = found at hsame
  cases hsame with
  | item hitem => exact hitem.elim
  | list hlist =>
    have hitems := congrArg (fun table => List.map Prod.snd table) (Zval.array.inj htable)
    simp only [listTable_values] at hitems
    exact hitems ▸ hlist

/-- Both decoders have the same under the name. -/
def Agree (host : Host) (registry : Registry) (data : Zval) (schema : CompiledSchema)
    (table : Schema) (name : Bytes) : Prop :=
  Option.Rel Same (withDefault table.fieldsByTag name (ownMember host registry data schema name))
    (arrivedMember host registry data schema name)

theorem ownMember_value {value : Zval} (hvalues : HasValue registry data schema name value)
    {last : Iibin.FieldDef} (hlast : (schema.named name).getLast? = some last)
    (hproto : name ≠ protoName) :
    ownMember host registry data schema name =
      some (seen host last.type (numbered registry last value)) := by
  have hitems : ∀ field ∈ schema.named name, field.flags.repeated = false ∧
      seenItems host registry data field =
        [seen host field.type (numbered registry field value)] := fun field hfield =>
    ⟨(hvalues field hfield).2.1, by rw [seenItems, (hvalues field hfield).2.2]; rfl⟩
  rw [ownMember, if_neg hproto, foldl_change_values hitems, hlast]
  rfl

section

variable (hmessage : Comparable host registry encodeMessage schema table data)

include hmessage

theorem forall₂_sameItem_iff :
    List.Forall₂ SameItem ((schema.named name).flatMap (seenItems host registry data))
        ((schema.named name).flatMap (arrivingItems host registry data)) ↔
      ∀ field ∈ schema.named name,
        ∀ item ∈ sentItems registry field (readMember data field.nameInPhp),
          Unsigned host field.type item := by
  -- both lists are images of the list of the items sent, each with the type of its field
  have hseen : (schema.named name).flatMap (seenItems host registry data) =
      ((schema.named name).flatMap fun field =>
        (sentItems registry field (readMember data field.nameInPhp)).map
          (Prod.mk field.type)).map fun sent => seen host sent.1 sent.2 := by
    simp [List.map_flatMap, Function.comp_def]
    rfl
  have harriving : (schema.named name).flatMap (arrivingItems host registry data) =
      ((schema.named name).flatMap fun field =>
        (sentItems registry field (readMember data field.nameInPhp)).map
          (Prod.mk field.type)).map fun sent => decodedItem host sent.1 sent.2 := by
    simp [List.map_flatMap, Function.comp_def]
    rfl
  rw [hseen, harriving, List.forall₂_map_left_iff, List.forall₂_map_right_iff, List.forall₂_same]
  simp only [List.mem_flatMap, List.mem_map, forall_exists_index, and_imp]
  constructor
  · intro hall field hfield item hitem
    obtain ⟨hmem, -⟩ := CompiledSchema.mem_named.mp hfield
    exact (same_seen_iff host (hmessage.integral field hmem)
      (hmessage.inRange field hmem item hitem)).mp
      (hall _ field hfield item hitem rfl)
  · rintro hall sent field hfield item hitem rfl
    obtain ⟨hmem, -⟩ := CompiledSchema.mem_named.mp hfield
    exact (same_seen_iff host (hmessage.integral field hmem)
      (hmessage.inRange field hmem item hitem)).mpr
      (hall field hfield item hitem)

theorem ownMember_absent (habsent : ∀ field ∈ schema.named name, isGiven data field = false) :
    ownMember host registry data schema name = none := by
  unfold ownMember
  split
  · rfl
  · refine foldl_change_absent (fun field hfield => ?_) none
    obtain ⟨bytes, hok⟩ := hmessage.accepted field (CompiledSchema.mem_named.mp hfield).1
    exact (seenItems_eq_nil_iff hok).mpr (habsent field hfield)

theorem ownMember_lists (hsome : schema.named name ≠ []) (hlists : HasLists data schema name)
    (hproto : name ≠ protoName) :
    ownMember host registry data schema name =
      some (.array ((schema.named name).flatMap (seenItems host registry data))) := by
  have hseen : ∀ field ∈ schema.named name, field.flags.repeated = true ∧
      seenItems host registry data field ≠ [] := by
    intro field hfield
    obtain ⟨hgiven, hrepeated⟩ := hlists field hfield
    obtain ⟨bytes, hok⟩ := hmessage.accepted field (CompiledSchema.mem_named.mp hfield).1
    exact ⟨hrepeated, seenItems_ne_nil hok hgiven⟩
  rw [ownMember, if_neg hproto, foldl_change_lists hsome hseen]
  rfl

theorem absent_agree_iff (habsent : ∀ field ∈ schema.named name, isGiven data field = false) :
    Agree host registry data schema table name ↔
      ((∃ field ∈ schema.named name, field.hasFallback = true) →
        handleNumericStr name = none ∧ name ∉ inheritedNames) := by
  have harrived : (arrived false host registry data schema.orderedFields).lookup
      (symtableKey name) = none := by
    rw [← Option.not_isSome_iff_eq_none, isSome_arrived hmessage.accepted]
    rintro ⟨field, hfield, hgiven, hkey⟩
    have hname : field.nameInPhp = name := FieldDef.name_of_valueKey hkey
    rw [habsent field (CompiledSchema.mem_named.mpr ⟨hfield, hname⟩)] at hgiven
    cases hgiven
  have hsome : (∃ field ∈ schema.named name, field.hasFallback = true) ↔
      (Iibin.fallback schema.orderedFields (.str name)).isSome := by
    simp [isSome_fallback_iff, CompiledSchema.mem_named, and_assoc]
  rw [Agree, ownMember_absent hmessage habsent, withDefault, arrivedMember, harrived,
    fallback_symtableKey, Option.none_or, Option.none_or, hsome]
  have hrel := fallback_mirrors hmessage.mirrors name
  generalize fallback table.fieldsByTag name = value at hrel
  generalize Iibin.fallback schema.orderedFields (.str name) = item at hrel
  by_cases hname : name ∈ inheritedNames
  · have htextual := inheritedNames_textual name hname
    cases hrel <;> simp [hname, htextual]
  · by_cases htextual : handleNumericStr name = none
    · simp [hname, htextual, hrel]
    · cases hrel <;> simp [hname, htextual]

theorem values_agree_iff {value : Zval} (hvalues : HasValue registry data schema name value)
    {last : Iibin.FieldDef} (hlast : (schema.named name).getLast? = some last) :
    Agree host registry data schema table name ↔
      name ≠ protoName ∧ ∀ item ∈ sentItems registry last (readMember data last.nameInPhp),
        Unsigned host last.type item := by
  obtain ⟨hmem, hname⟩ := CompiledSchema.mem_named.mp (List.mem_of_getLast? hlast)
  have hsent := (hvalues last (List.mem_of_getLast? hlast)).2.2
  have harrived : arrivedMember host registry data schema name =
      some (decodedItem host last.type (numbered registry last value)) := by
    have hkeys : ∀ field ∈ schema.orderedFields,
        field.entryKey false = symtableKey name ↔ field.nameInPhp = name := by
      refine fun field hfield => ⟨fun hkey => FieldDef.name_of_valueKey hkey, fun hname' => ?_⟩
      have hsingular := (hvalues field (CompiledSchema.mem_named.mpr ⟨hfield, hname'⟩)).2.1
      rw [FieldDef.entryKey, hsingular, hname']
      rfl
    have hitems : ∀ field ∈ schema.named name, field.flags.repeated = false ∧
        arrivingItems host registry data field =
          [decodedItem host field.type (numbered registry field value)] := fun field hfield =>
      ⟨(hvalues field hfield).2.1, by rw [arrivingItems, (hvalues field hfield).2.2]; rfl⟩
    rw [arrivedMember, lookup_arrived_named hkeys, foldl_change_singular hitems, hlast]
    rfl
  rw [Agree, harrived, hsent]
  by_cases hproto : name = protoName
  · have hinherited : name ∈ inheritedNames := hproto ▸ protoName_inherited
    simp [ownMember, withDefault, hproto, protoName_inherited]
  · have hfit := hmessage.inRange last hmem (numbered registry last value)
      (by rw [hsent]; exact List.mem_singleton_self _)
    rw [ownMember_value hvalues hlast hproto, withDefault, Option.some_or, Option.rel_some_some,
      same_item_iff, same_seen_iff host (hmessage.integral last hmem) hfit]
    simp [hproto]

theorem arrivedMember_lists (hsome : schema.named name ≠ []) (hlists : HasLists data schema name)
    (htextual : handleNumericStr name = none) :
    arrivedMember host registry data schema name =
      some (.array (listTable
        ((schema.named name).flatMap (arrivingItems host registry data)))) := by
  have htext : ∀ field ∈ schema.named name, field.flags.repeated = false →
      handleNumericStr field.nameInPhp = none := fun field hfield _ => by
    rw [(CompiledSchema.mem_named.mp hfield).2]
    exact htextual
  have hmade : messageDeliveries host registry data (schema.named name) ≠ [] := by
    obtain ⟨first, hfirst⟩ := List.exists_mem_of_ne_nil _ hsome
    obtain ⟨bytes, hok⟩ := hmessage.accepted first (CompiledSchema.mem_named.mp hfirst).1
    obtain ⟨delivery, hdelivery⟩ := List.exists_mem_of_ne_nil _
      (deliveries_ne_nil (arriving_of_isGiven hok (hlists first hfirst).1))
    exact List.ne_nil_of_mem (List.mem_flatMap.mpr ⟨first, hfirst, hdelivery⟩)
  have hkind : ∀ delivery ∈ messageDeliveries host registry data (schema.named name),
      delivery.isList = true := by
    intro delivery hdelivery
    obtain ⟨field, hfield, hmem⟩ := List.mem_flatMap.mp hdelivery
    rcases (mem_deliveries hmem).2 with ⟨-, rfl⟩ | ⟨hsingular, -⟩
    · rfl
    · rw [(hlists field hfield).2] at hsingular
      cases hsingular
  rw [arrivedMember, symtableKey_textual htextual, lookup_arrived_named (entryKey_str_iff htext),
    Iibin.foldl_change_lists hmade hkind, messageDeliveries_items]
  rfl

/-- A list is filed under the name as it is, where PHP does not look for a numeric one. -/
theorem arrivedMember_filed (hlists : HasLists data schema name)
    (hnumeric : handleNumericStr name ≠ none) :
    arrivedMember host registry data schema name = none := by
  rw [arrivedMember, fallback_symtableKey, if_neg hnumeric, Option.or_none,
    ← Option.not_isSome_iff_eq_none, isSome_arrived hmessage.accepted]
  rintro ⟨field, hfield, -, hkey⟩
  have hsame : field.nameInPhp = name := FieldDef.name_of_valueKey hkey
  have hrepeated := (hlists field (CompiledSchema.mem_named.mpr ⟨hfield, hsame⟩)).2
  obtain ⟨index, hindex⟩ := Option.ne_none_iff_exists'.mp hnumeric
  rw [FieldDef.entryKey, if_pos hrepeated, symtableKey, hindex] at hkey
  cases hkey

theorem lists_agree_iff (hsome : schema.named name ≠ []) (hlists : HasLists data schema name)
    (hname : name ∉ inheritedNames) :
    Agree host registry data schema table name ↔
      handleNumericStr name = none ∧ ∀ field ∈ schema.named name,
        ∀ item ∈ sentItems registry field (readMember data field.nameInPhp),
          Unsigned host field.type item := by
  rw [Agree, ownMember_lists hmessage hsome hlists (ne_protoName hname), withDefault,
    Option.some_or]
  by_cases htextual : handleNumericStr name = none
  · rw [arrivedMember_lists hmessage hsome hlists htextual, Option.rel_some_some, same_list_iff,
      forall₂_sameItem_iff hmessage]
    simp [htextual]
  · simp [arrivedMember_filed hmessage hlists htextual, htextual]

end

/-! ### The whole message -/

/-- What a field has to meet for the two decoders to agree on it. Among the fields that
share a name the last one decides which value is seen. -/
structure Agreeable (host : Host) (registry : Registry) (schema : CompiledSchema) (data : Zval)
    (field : Iibin.FieldDef) : Prop where
  list : isGiven data field = true → field.flags.repeated = true →
    (handleNumericStr field.nameInPhp = none ∧ field.nameInPhp ∉ inheritedNames) ∧
      ∀ item ∈ sentItems registry field (readMember data field.nameInPhp),
        Unsigned host field.type item
  value : isGiven data field = true → field.flags.repeated = false →
    field.nameInPhp ≠ protoName ∧
      ((∀ other ∈ schema.orderedFields, other.nameInPhp = field.nameInPhp →
          other.tag.toNat ≤ field.tag.toNat) →
        ∀ item ∈ sentItems registry field (readMember data field.nameInPhp),
          Unsigned host field.type item)
  absent : isGiven data field = false → field.hasFallback = true →
    handleNumericStr field.nameInPhp = none ∧ field.nameInPhp ∉ inheritedNames

theorem named_getLast?_iff (hformed : schema.WellFormed registry)
    (hfield : field ∈ schema.orderedFields) :
    (schema.named field.nameInPhp).getLast? = some field ↔
      ∀ other ∈ schema.orderedFields, other.nameInPhp = field.nameInPhp →
        other.tag.toNat ≤ field.tag.toNat := by
  have hsorted := hformed.sorted.filter fun other => other.nameInPhp = field.nameInPhp
  have hlatest : ∀ last, (schema.named field.nameInPhp).getLast? = some last →
      ∀ other ∈ schema.named field.nameInPhp, other.tag.toNat ≤ last.tag.toNat := by
    intro last hlast other hother
    obtain ⟨before, hsplit⟩ := List.getLast?_eq_some_iff.mp hlast
    have hpairs : (before ++ [last]).Pairwise fun left right => left.tag.toNat < right.tag.toNat :=
      hsplit ▸ hsorted
    rw [hsplit, List.mem_append, List.mem_singleton] at hother
    rcases hother with hbefore | rfl
    · exact Nat.le_of_lt ((List.pairwise_append.mp hpairs).2.2 other hbefore last
        (List.mem_singleton_self last))
    · exact Nat.le_refl _
  constructor
  · intro hlast other hother hname
    exact hlatest field hlast other (CompiledSchema.mem_named.mpr ⟨hother, hname⟩)
  · intro hmax
    have hself := CompiledSchema.mem_named.mpr ⟨hfield, rfl⟩
    obtain ⟨last, hlast⟩ := Option.isSome_iff_exists.mp
      (List.getLast?_isSome.mpr (List.ne_nil_of_mem hself))
    obtain ⟨hmem, hname⟩ := CompiledSchema.mem_named.mp (List.mem_of_getLast? hlast)
    have htag : last.tag = field.tag := BitVec.eq_of_toNat_eq
      (Nat.le_antisymm (hmax last hmem hname) (hlatest last hlast field hself))
    rw [hlast, hformed.eq_of_tag hmem hfield htag]

theorem MirrorsSchema.split (hmirrors : MirrorsSchema schema table)
    {before after : List (Nat × FieldDef)} {entry : Nat × FieldDef}
    (hsplit : table.fieldsByTag = before ++ entry :: after) :
    ∃ earlier field later, schema.orderedFields = earlier ++ field :: later ∧
      List.Forall₂ Mirrors earlier before ∧ Mirrors field entry := by
  have hall : List.Forall₂ Mirrors schema.orderedFields (before ++ entry :: after) :=
    hsplit ▸ hmirrors
  obtain ⟨field, later, hmirror, -, hdrop⟩ :=
    List.forall₂_cons_right_iff.mp (List.forall₂_drop_append _ _ _ hall)
  refine ⟨schema.orderedFields.take before.length, field, later, ?_,
    List.forall₂_take_append _ _ _ hall, hmirror⟩
  rw [← hdrop, List.take_append_drop]

section

variable (hmessage : Comparable host registry encodeMessage schema table data)

include hmessage

theorem name_agree_iff (hfree : ListsFree host registry data schema.orderedFields)
    (hsome : schema.named name ≠ []) :
    Agree host registry data schema table name ↔
      ∀ field ∈ schema.named name, Agreeable host registry schema data field := by
  rcases member_cases hmessage name with habsent | ⟨value, hvalues⟩ | hlists
  · rw [absent_agree_iff hmessage habsent]
    constructor
    · intro hfallback field hfield
      obtain ⟨-, rfl⟩ := CompiledSchema.mem_named.mp hfield
      have hnot := habsent field hfield
      exact ⟨fun hgiven => absurd hgiven (by simp [hnot]),
        fun hgiven => absurd hgiven (by simp [hnot]), fun _ hhas => hfallback ⟨field, hfield, hhas⟩⟩
    · rintro hall ⟨field, hfield, hhas⟩
      have hagree := (hall field hfield).absent (habsent field hfield) hhas
      rwa [(CompiledSchema.mem_named.mp hfield).2] at hagree
  · obtain ⟨last, hlast⟩ := Option.isSome_iff_exists.mp (List.getLast?_isSome.mpr hsome)
    have hlastMem := List.mem_of_getLast? hlast
    rw [values_agree_iff hmessage hvalues hlast]
    constructor
    · rintro ⟨hproto, hunsigned⟩ field hfield
      obtain ⟨hgiven, hsingular, -⟩ := hvalues field hfield
      obtain ⟨hmem, rfl⟩ := CompiledSchema.mem_named.mp hfield
      refine ⟨fun _ hrepeated => absurd hrepeated (by simp [hsingular]), fun _ _ => ⟨hproto, ?_⟩,
        fun hnot => absurd hgiven (by simp [hnot])⟩
      intro hlatest
      rw [(named_getLast?_iff hmessage.formed hmem).mpr hlatest] at hlast
      rwa [← Option.some.inj hlast] at hunsigned
    · intro hall
      obtain ⟨hgiven, hsingular, -⟩ := hvalues last hlastMem
      obtain ⟨hmem, rfl⟩ := CompiledSchema.mem_named.mp hlastMem
      obtain ⟨hproto, hunsigned⟩ := (hall last hlastMem).value hgiven hsingular
      exact ⟨hproto, hunsigned ((named_getLast?_iff hmessage.formed hmem).mp hlast)⟩
  · have hname : name ∉ inheritedNames := by
      obtain ⟨first, hfirst⟩ := List.exists_mem_of_ne_nil _ hsome
      obtain ⟨hgiven, hrepeated⟩ := hlists first hfirst
      obtain ⟨hmem, rfl⟩ := CompiledSchema.mem_named.mp hfirst
      obtain ⟨bytes, hok⟩ := hmessage.accepted first hmem
      exact hfree first hmem hrepeated (seenItems_ne_nil hok hgiven)
    rw [lists_agree_iff hmessage hsome hlists hname]
    constructor
    · rintro ⟨htextual, hunsigned⟩ field hfield
      obtain ⟨hgiven, hrepeated⟩ := hlists field hfield
      obtain ⟨-, rfl⟩ := CompiledSchema.mem_named.mp hfield
      exact ⟨fun _ _ => ⟨⟨htextual, hname⟩, hunsigned field hfield⟩,
        fun _ hsingular => absurd hrepeated (by simp [hsingular]),
        fun hnot => absurd hgiven (by simp [hnot])⟩
    · intro hall
      have hlist : ∀ field ∈ schema.named name, handleNumericStr name = none ∧
          ∀ item ∈ sentItems registry field (readMember data field.nameInPhp),
            Unsigned host field.type item := by
        intro field hfield
        obtain ⟨hgiven, hrepeated⟩ := hlists field hfield
        obtain ⟨⟨htextual, -⟩, hunsigned⟩ := (hall field hfield).list hgiven hrepeated
        rw [(CompiledSchema.mem_named.mp hfield).2] at htextual
        exact ⟨htextual, hunsigned⟩
      obtain ⟨first, hfirst⟩ := List.exists_mem_of_ne_nil _ hsome
      exact ⟨(hlist first hfirst).1, fun field hfield => (hlist field hfield).2⟩

/-- A required field that the C decoder finds, or fills in, is there for this one too. -/
theorem supplied_of_requiredFound (hrequired : RequiredFound false schema data) {obj : Props}
    (hown : ∀ field ∈ schema.orderedFields, isGiven data field = true →
      field.nameInPhp ∉ inheritedNames → (obj.lookup field.nameInPhp).isSome) :
    Supplied obj table.fieldsByTag := by
  intro before entry after hsplit hflag
  by_cases hname : entry.2.name ∈ inheritedNames
  · exact Or.inl hname
  obtain ⟨earlier, field, later, hfields, hbefore, hmirror⟩ := hmessage.mirrors.split hsplit
  have hfield : field ∈ schema.orderedFields := by simp [hfields]
  rw [hmirror.name] at hname ⊢
  rw [hmirror.flags] at hflag
  rw [Option.isSome_or, Bool.or_eq_true]
  refine Or.inr ?_
  by_cases hgiven : isGiven data field = true
  · exact Or.inl (hown field hfield hgiven hname)
  · obtain ⟨bytes, hok⟩ := hmessage.accepted field hfield
    have hrepeated : field.flags.repeated = true := Bool.eq_true_of_not_eq_false fun hsingular =>
      hgiven (isGiven_of_required hok hflag hsingular)
    have hfound := hrequired field hfield hflag
    rw [if_pos hrepeated] at hfound
    obtain ⟨other, hother, htag, hsame, hfallback⟩ := hfound.resolve_left hgiven
    have hmem : other ∈ earlier := by
      have hsorted := hmessage.formed.sorted
      rw [hfields] at hother hsorted
      rcases List.mem_append.mp hother with hmem | hmem
      · exact hmem
      · rcases List.mem_cons.mp hmem with rfl | hlater
        · exact absurd htag (Nat.lt_irrefl _)
        · have hafter :=
            (List.pairwise_cons.mp (List.pairwise_append.mp hsorted).2.1).1 other hlater
          exact absurd (Nat.lt_trans htag hafter) (Nat.lt_irrefl _)
    refine Or.inr ?_
    rw [rel_isSome (fallback_mirrors hbefore field.nameInPhp), isSome_fallback_iff]
    exact ⟨other, hmem, hsame, hfallback⟩

/-- Every own property built is a value, and every field given has one. -/
theorem ownMember_defined (name : Bytes) :
    ownMember host registry data schema name ≠ some .undefined ∧
      ∀ field ∈ schema.named name, isGiven data field = true → name ≠ protoName →
        (ownMember host registry data schema name).isSome := by
  by_cases hproto : name = protoName
  · exact ⟨by simp [ownMember, hproto], fun _ _ _ hne => absurd hproto hne⟩
  by_cases hnone : schema.named name = []
  · exact ⟨by simp [ownMember, hnone], fun field hfield => absurd hfield (by simp [hnone])⟩
  rcases member_cases hmessage name with habsent | ⟨value, hvalues⟩ | hlists
  · refine ⟨by simp [ownMember_absent hmessage habsent], fun field hfield hgiven => ?_⟩
    rw [habsent field hfield] at hgiven
    cases hgiven
  · obtain ⟨last, hlast⟩ := Option.isSome_iff_exists.mp (List.getLast?_isSome.mpr hnone)
    obtain ⟨hmem, -⟩ := CompiledSchema.mem_named.mp (List.mem_of_getLast? hlast)
    rw [ownMember_value hvalues hlast hproto]
    exact ⟨fun heq => seen_ne_undefined host (hmessage.packable hmem) _ (Option.some.inj heq),
      fun _ _ _ _ => rfl⟩
  · rw [ownMember_lists hmessage hnone hlists hproto]
    exact ⟨fun heq => Value.noConfusion (Option.some.inj heq), fun _ _ _ _ => rfl⟩

theorem decode_ok (env : Env) (hrequired : RequiredFound false schema data)
    (hfree : ListsFree host registry data schema.orderedFields) :
    ∃ final, (schema.orderedFields.foldlM (deliverAll env host registry data) [] >>=
        table.fieldsByTag.foldlM (populateField env table.name)) = .ok final ∧
      ∀ name, final.lookup name =
        withDefault table.fieldsByTag name (ownMember host registry data schema name) := by
  have hempty : ∀ field ∈ schema.orderedFields, field.flags.repeated = true →
      seenItems host registry data field ≠ [] →
        IsArray (List.lookup field.nameInPhp ([] : Props)) :=
    fun _ _ _ _ value hvalue => nomatch hvalue
  obtain ⟨obj, hobj, hlookup⟩ := @foldlM_deliverAll env _ _ _ _ (uniform hmessage) hfree
    [] rfl hempty
  have hown : ∀ name, obj.lookup name = ownMember host registry data schema name := hlookup
  have hdefined : Defined obj := by
    refine ⟨(hown protoName).trans (if_pos rfl), fun name => ?_⟩
    rw [hown]
    exact (ownMember_defined hmessage name).1
  have hsupplied : Supplied obj table.fieldsByTag := by
    refine supplied_of_requiredFound hmessage hrequired ?_
    intro field hfield hgiven hname
    rw [hown]
    exact (ownMember_defined hmessage field.nameInPhp).2 field
      (CompiledSchema.mem_named.mpr ⟨hfield, rfl⟩) hgiven
      (ne_protoName hname)
  obtain ⟨final, hfinal, hall⟩ := populate_ok env table.name hdefined hsupplied
  refine ⟨final, by rw [hobj]; exact hfinal, fun name => ?_⟩
  rw [hall, hown]

end

/-- The two decoders find the same value for every field of a message that is decoded, as far
as values go, exactly if every field is agreeable. -/
theorem js_values_agree_iff (host : Host) (env : Env) (depth : Nat) (registry : Registry)
    (hreach : Reachable (fun _ => True) registry) (schemaName : Bytes) (schema : CompiledSchema)
    (hfound : registry.Has schemaName schema) (htags : schema.SmallTags)
    (hintegral : schema.IsIntegral) (table : Schema) (hmirrors : MirrorsSchema schema table)
    (data : Zval) (hrange : ∀ field ∈ schema.orderedFields,
      ∀ item ∈ sentItems registry field (readMember data field.nameInPhp),
        field.type.InRange (zvalGetLong host item)) (bytes : Bytes)
    (hok : quicproIibinEncode host registry schemaName data = .ok bytes)
    (hlength : bytes.length < 2 ^ 53) (buffer : Buffer) (hbuffer : buffer.bytes = bytes)
    (fuel : Nat) (hfuel : bytes.length ≤ fuel) (result : Zval)
    (hdecode : quicproIibinDecode ⟨host, registry, .asWritten, false⟩ fuel schemaName buffer =
      .ok (result, none)) :
    (∃ obj, decode env (depth + 1) bytes table = .ok obj ∧
      ∀ field ∈ schema.orderedFields,
        Option.Rel Same (obj.lookup field.nameInPhp) (readBack result field.nameInPhp)) ↔
    ∀ field ∈ schema.orderedFields, Agreeable host registry schema data field := by
  obtain ⟨depth', haccepted⟩ := quicproIibinEncode_accepted hfound hok
  have hmessage : Comparable host registry (encodeMessageInternal host registry depth') schema table
      data := ⟨hreach.layered.wellFormed hfound, haccepted, hintegral, hrange, hmirrors⟩
  obtain ⟨hrequired, hback⟩ : RequiredFound false schema data ∧
      ∀ name, readBack result name = arrivedMember host registry data schema name := by
    rcases quicproIibinDecode_outcome hreach hfound htags hok hbuffer hfuel false with
      ⟨-, -, -, fault, -, herror⟩ | ⟨-, -, error, herror⟩ | ⟨-, hrequired, entries, heq, -, hlookup⟩
    · rw [herror] at hdecode
      cases hdecode
    · rw [herror] at hdecode
      cases hdecode
    · rw [heq] at hdecode
      obtain rfl : container false entries = result := by
        injection hdecode with hpair
        exact congrArg Prod.fst hpair
      exact ⟨hrequired, fun name => (readBack_container false entries name).trans (hlookup _)⟩
  have hnames : ∀ {final : Props}, ListsFree host registry data schema.orderedFields →
      (∀ name, final.lookup name =
        withDefault table.fieldsByTag name (ownMember host registry data schema name)) →
      ((∀ field ∈ schema.orderedFields, Option.Rel Same (final.lookup field.nameInPhp)
        (readBack result field.nameInPhp)) ↔
      ∀ field ∈ schema.orderedFields, Agreeable host registry schema data field) := by
    intro final hfree hlookup
    constructor
    · intro hall field hfield
      have hself := CompiledSchema.mem_named.mpr ⟨hfield, rfl⟩
      have hsame := hall field hfield
      rw [hlookup, hback] at hsame
      exact (name_agree_iff hmessage hfree (List.ne_nil_of_mem hself)).mp hsame field hself
    · intro hall field hfield
      rw [hlookup, hback]
      have hself := CompiledSchema.mem_named.mpr ⟨hfield, rfl⟩
      exact (name_agree_iff hmessage hfree (List.ne_nil_of_mem hself)).mpr fun other hother =>
        hall other (CompiledSchema.mem_named.mp hother).1
  rw [decode_encoded env depth hmessage.formed hfound hmirrors htags hintegral hok hlength]
  constructor
  · rintro ⟨obj, hrun, hall⟩
    have hfree : ListsFree host registry data schema.orderedFields := by
      by_contra hnot
      obtain ⟨error, herror⟩ := @foldlM_deliverAll_error env _ _ _ _ (uniform hmessage) hnot
      rw [herror] at hrun
      cases hrun
    obtain ⟨final, hfinal, hlookup⟩ := decode_ok hmessage env hrequired hfree
    obtain rfl : final = obj := Except.ok.inj (hfinal.symm.trans hrun)
    exact (hnames hfree hlookup).mp hall
  · intro hall
    have hfree : ListsFree host registry data schema.orderedFields := by
      intro field hfield hrepeated hitems
      obtain ⟨bytes', hok'⟩ := haccepted field hfield
      have hgiven : isGiven data field = true := Bool.eq_true_of_not_eq_false fun hnot =>
        hitems ((seenItems_eq_nil_iff hok').mpr hnot)
      exact ((hall field hfield).list hgiven hrepeated).1.2
    obtain ⟨final, hfinal, hlookup⟩ := decode_ok hmessage env hrequired hfree
    exact ⟨final, hfinal, (hnames hfree hlookup).mpr hall⟩

/-- The two decoders find the same value for every field of an encoded message exactly if the C
decoder keeps the lists of the message and finds its required fields and every field is
agreeable. -/
theorem js_agrees_iff (host : Host) (env : Env) (depth : Nat) (registry : Registry)
    (hreach : Reachable (fun _ => True) registry) (schemaName : Bytes) (schema : CompiledSchema)
    (hfound : getCompiledIibinSchemaInternal registry schemaName = some schema)
    (htags : ∀ field ∈ schema.orderedFields, field.SmallTag)
    (hintegral : ∀ field ∈ schema.orderedFields, field.type.isIntegral = true)
    (table : Schema) (hmirrors : MirrorsSchema schema table) (data : Zval)
    (hrange : ∀ field ∈ schema.orderedFields,
      ∀ item ∈ sentItems registry field (readMember data field.nameInPhp),
        field.type.InRange (zvalGetLong host item))
    (bytes : Bytes) (hok : quicproIibinEncode host registry schemaName data = .ok bytes)
    (hlength : bytes.length < 2 ^ 53) (buffer : Buffer) (hbuffer : buffer.bytes = bytes)
    (fuel : Nat) (hfuel : bytes.length ≤ fuel) :
    (∃ result obj, quicproIibinDecodeTracked ⟨host, registry, .asWritten, false⟩ fuel schemaName
        buffer = .ok (.live result, none) ∧
      decode env (depth + 1) bytes table = .ok obj ∧
      ∀ field ∈ schema.orderedFields,
        Option.Rel Same (obj.lookup field.nameInPhp) (readBack result field.nameInPhp)) ↔
    ListsKept schema data ∧ RequiredFound false schema data ∧
      ∀ field ∈ schema.orderedFields, Agreeable host registry schema data field := by
  have hvalues := fun result => js_values_agree_iff host env depth registry hreach schemaName schema
    hfound htags hintegral table hmirrors data hrange bytes hok hlength buffer hbuffer fuel hfuel
    result
  have hdecodable := values_decodable_iff hreach hfound htags hok hbuffer hfuel false
  simp only [decodeTracked_encoded_iff hreach hfound htags hok hbuffer hfuel]
  constructor
  · rintro ⟨result, obj, ⟨hdecode, hkept⟩, hrun, hsame⟩
    exact ⟨hkept trivial, (hdecodable.mp ⟨result, hdecode⟩).2,
      (hvalues result hdecode).mp ⟨obj, hrun, hsame⟩⟩
  · rintro ⟨hkept, hrequired, hagreeable⟩
    obtain ⟨result, hdecode⟩ := hdecodable.mpr
      ⟨(nothingRejected_integral hintegral false data).mpr Bool.noConfusion, hrequired⟩
    obtain ⟨obj, hrun, hsame⟩ := (hvalues result hdecode).mpr hagreeable
    exact ⟨result, obj, ⟨hdecode, fun _ => hkept⟩, hrun, hsame⟩

/-- `mixedMessage` with a number that is not negative. -/
def plainMessage : Zval :=
  .array [(.str (ascii "a"), .long 5), (.str (ascii "b"), .string (ascii "RED")),
    (.str (ascii "c"), .array (listTable [.long (-1)]))]

/-- The table that `mixedRegistry` is mirrored in. -/
def mixedTable : Schema where
  name := ascii "M"
  fieldsByTag :=
    [ (1, ⟨ascii "a", .int32, ⟨false, true, false, false⟩, none, .undefined⟩),
      (2, ⟨ascii "b", .enum, ⟨true, false, false, false⟩, none, .undefined⟩),
      (3, ⟨ascii "c", .sint32, ⟨true, false, true, true⟩, none, .undefined⟩),
      (4, ⟨ascii "d", .bool, ⟨true, false, false, false⟩, none, .boolean true⟩) ]

instance (host : Host) (type : FieldType) (item : Zval) : Decidable (Unsigned host type item) :=
  inferInstanceAs (Decidable (_ ∨ _))

theorem mixed_mirrors : MirrorsSchema
    ⟨ascii "M", mixedFields.map fun field => (field.tag, field), mixedFields⟩ mixedTable := by
  refine .cons ?_ (.cons ?_ (.cons ?_ (.cons ?_ .nil)))
  · exact ⟨rfl, rfl, rfl, rfl, .inl ⟨rfl, rfl⟩⟩
  · exact ⟨rfl, rfl, rfl, rfl, .inl ⟨rfl, rfl⟩⟩
  · exact ⟨rfl, rfl, rfl, rfl, .inl ⟨rfl, rfl⟩⟩
  · exact ⟨rfl, rfl, rfl, rfl, .inr ⟨rfl, .item rfl⟩⟩

theorem plain_agreeable : ∀ field ∈ mixedFields, Agreeable default mixedRegistry
    ⟨ascii "M", mixedFields.map fun field => (field.tag, field), mixedFields⟩ plainMessage
    field := by
  have hlist : ∀ field ∈ mixedFields, isGiven plainMessage field = true →
      field.flags.repeated = true →
      (handleNumericStr field.nameInPhp = none ∧ field.nameInPhp ∉ inheritedNames) ∧
        ∀ item ∈ sentItems mixedRegistry field (readMember plainMessage field.nameInPhp),
          Unsigned default field.type item := by decide +kernel
  have hvalue : ∀ field ∈ mixedFields, isGiven plainMessage field = true →
      field.flags.repeated = false → field.nameInPhp ≠ protoName ∧
        ∀ item ∈ sentItems mixedRegistry field (readMember plainMessage field.nameInPhp),
          Unsigned default field.type item := by decide +kernel
  have habsent : ∀ field ∈ mixedFields, isGiven plainMessage field = false →
      field.hasFallback = true → handleNumericStr field.nameInPhp = none ∧
        field.nameInPhp ∉ inheritedNames := by decide +kernel
  intro field hfield
  exact ⟨hlist field hfield, fun hgiven hsingular =>
    ⟨(hvalue field hfield hgiven hsingular).1, fun _ => (hvalue field hfield hgiven hsingular).2⟩,
    habsent field hfield⟩

theorem plain_inRange : ∀ field ∈ mixedFields,
    ∀ item ∈ sentItems mixedRegistry field (readMember plainMessage field.nameInPhp),
      field.type.InRange (zvalGetLong default item) := by
  have hrange : ∀ field ∈ mixedFields,
      ∀ item ∈ sentItems mixedRegistry field (readMember plainMessage field.nameInPhp),
        -2 ^ 31 ≤ (zvalGetLong default item).toInt ∧ (zvalGetLong default item).toInt < 2 ^ 31 := by
    decide +kernel
  intro field hfield item hitem
  have hboth := hrange field hfield item hitem
  simp only [mixedFields, List.mem_cons, List.not_mem_nil, or_false] at hfield
  rcases hfield with rfl | rfl | rfl | rfl
  · exact hboth
  · exact hboth
  · exact hboth
  · trivial

theorem js_agrees_iff_plain : ∃ result obj,
    quicproIibinDecodeTracked ⟨default, mixedRegistry, .asWritten, false⟩ 7 (ascii "M")
        (Buffer.place 4096 [0x08, 0x05, 0x10, 0x01, 0x1a, 0x01, 0x01] (by decide) (by decide)) =
      .ok (.live result, none) ∧
    decode ⟨[], id, default⟩ 1 [0x08, 0x05, 0x10, 0x01, 0x1a, 0x01, 0x01] mixedTable = .ok obj ∧
      ∀ field ∈ mixedFields,
        Option.Rel Same (obj.lookup field.nameInPhp) (readBack result field.nameInPhp) := by
  refine (js_agrees_iff default ⟨[], id, default⟩ 0 mixedRegistry
    (reachable_foldl Reachable.init mixedCalls (by simp)) (ascii "M") _ mixed_found
    (by decide +kernel) (by decide +kernel) mixedTable mixed_mirrors plainMessage plain_inRange _
    rfl (by decide +kernel) _ rfl 7 (by decide)).mpr ⟨?_, ?_, plain_agreeable⟩
  · have hpacked : ∀ field ∈ mixedFields, field.flags.repeated = true →
        field.flags.packed = true := by decide
    intro field hfield hrepeated hunpacked
    rw [hpacked field hfield hrepeated] at hunpacked
    cases hunpacked
  · have hgiven : ∀ field ∈ mixedFields, field.flags.required = true →
        field.flags.repeated = false ∧ handleNumericStr field.nameInPhp = none := by decide
    intro field hfield hrequired
    obtain ⟨hsingular, htextual⟩ := hgiven field hfield hrequired
    rw [if_neg (by simp [hsingular])]
    exact .inl (.inr htextual)

/-- `-1` sent as an `int32` comes back as `-1` in PHP and as `2 ^ 64` in JavaScript. -/
theorem negative_read_unsigned :
    (∃ schema, getCompiledIibinSchemaInternal (oneSchema (fieldOptions 1 "int32" [])) (ascii "P") =
      some schema ∧ MirrorsSchema schema int32Table) ∧
    quicproIibinEncode default (oneSchema (fieldOptions 1 "int32" [])) (ascii "P")
        (.array [(.str (ascii "x"), .long (-1))]) =
      .ok [0x08, 0xff, 0xff, 0xff, 0xff, 0xff, 0xff, 0xff, 0xff, 0xff, 0x01] ∧
    quicproIibinDecodeTracked ⟨default, oneSchema (fieldOptions 1 "int32" []), .asWritten, false⟩ 11
        (ascii "P") (Buffer.place 4096
          [0x08, 0xff, 0xff, 0xff, 0xff, 0xff, 0xff, 0xff, 0xff, 0xff, 0x01] (by decide)
          (by decide)) =
      .ok (.live (.array [(.str (ascii "x"), .long (-1))]), none) ∧
    decode ⟨[], id, default⟩ 1 [0x08, 0xff, 0xff, 0xff, 0xff, 0xff, 0xff, 0xff, 0xff, 0xff, 0x01]
        int32Table =
      .ok [(ascii "x", .number 18446744073709551616)] :=
  ⟨int32_mirrors, rfl, rfl, rfl⟩

end QuicproAsync.Iibin.Js

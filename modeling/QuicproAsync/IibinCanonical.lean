import Mathlib.Data.List.Perm.Basic
import QuicproAsync.IibinTransfer

/-!
# Canonical bytes

Two parties that list the fields of a schema, or the keys of a message, in different
orders produce the same bytes. The definition sorts the fields by their tags, which are
distinct; the encoder goes through them in that order and finds each value by its name.
The tags on the wire therefore ascend, and only the items of an unpacked list repeat one.
-/

namespace QuicproAsync.Iibin

open Php Fallible ScanLoop OrderedMap

/-! ### The order of the field definitions -/

section Definition

variable {registry : Registry} {schemaName : Bytes}

theorem addSchemaField_declares {entry : Key × Zval} {field : FieldDef}
    (hdeclares : Declares registry schemaName entry field) {built : List FieldDef}
    (hnew : field.tag ∉ built.map FieldDef.tag) :
    addSchemaField registry schemaName (built.map (fun field => (field.tag, field)), built) entry =
      .ok ((built ++ [field]).map fun field => (field.tag, field), built ++ [field]) := by
  obtain ⟨name, options, rfl, hparse⟩ := hdeclares
  have hlookup : (built.map fun field => (field.tag, field)).lookup field.tag = none := by
    rw [lookup_eq_none_iff_not_mem_keys, keys, List.map_map]
    exact hnew
  refine bind_eq_ok.mpr ⟨field, hparse, ?_⟩
  rw [List.map_append, hlookup]
  rfl

variable {fields : List FieldDef}

/-- The loop over the schema array accepts whatever declares fields with distinct tags. -/
theorem foldlM_addSchemaField {entries : HashTable}
    (hdeclared : List.Forall₂ (Declares registry schemaName) entries fields)
    {built : List FieldDef} (hdistinct : ((built ++ fields).map FieldDef.tag).Nodup) :
    entries.foldlM (addSchemaField registry schemaName)
      (built.map (fun field => (field.tag, field)), built) =
        .ok ((built ++ fields).map fun field => (field.tag, field), built ++ fields) := by
  induction hdeclared generalizing built with
  | nil => simp only [List.foldlM_nil, List.append_nil, pure, Except.pure]
  | @cons entry field entries fields hdeclares _ ih =>
    have hnew : field.tag ∉ built.map FieldDef.tag := by
      intro hmem
      rw [List.map_append, List.nodup_append] at hdistinct
      exact hdistinct.2.2 _ hmem _ (List.mem_cons_self) rfl
    rw [List.append_cons] at hdistinct ⊢
    rw [List.foldlM_cons, addSchemaField_declares hdeclares hnew]
    exact ih hdistinct

theorem compileSchema_of_declared {entries : HashTable}
    (hdeclared : List.Forall₂ (Declares registry (cstr schemaName)) entries fields)
    (hdistinct : (fields.map FieldDef.tag).Nodup) :
    compileSchema registry schemaName entries =
      .ok ⟨cstr schemaName, fields.map fun field => (field.tag, field),
        fields.insertionSort tagLe⟩ := by
  have hall : (([] ++ fields).map FieldDef.tag).Nodup := hdistinct
  have hfold : entries.foldlM (addSchemaField registry (cstr schemaName)) ([], []) =
      .ok (fields.map fun field => (field.tag, field), fields) :=
    foldlM_addSchemaField hdeclared hall
  exact bind_eq_ok.mpr ⟨_, hfold, rfl⟩

/-- Fields with distinct tags have one sorted order. -/
theorem insertionSort_eq_of_perm {fields' : List FieldDef} (hperm : fields.Perm fields')
    (hdistinct : (fields.map FieldDef.tag).Nodup) :
    fields.insertionSort tagLe = fields'.insertionSort tagLe := by
  have hdistinct' : (fields'.map FieldDef.tag).Nodup :=
    (hperm.map FieldDef.tag).nodup_iff.mp hdistinct
  have hsorts : (fields.insertionSort tagLe).Perm (fields'.insertionSort tagLe) :=
    (List.perm_insertionSort tagLe fields).trans
      (hperm.trans (List.perm_insertionSort tagLe fields').symm)
  exact hsorts.eq_of_pairwise (fun _ _ _ _ hlt hgt => absurd hlt (Nat.lt_asymm hgt))
    (sorted_of_distinct hdistinct) (sorted_of_distinct hdistinct')

theorem compileSchema_of_perm {entries entries' : HashTable} (hperm : entries.Perm entries')
    {schema : CompiledSchema} (hok : compileSchema registry schemaName entries = .ok schema) :
    ∃ schema', compileSchema registry schemaName entries' = .ok schema' ∧
      schema'.schemaName = schema.schemaName ∧ schema'.orderedFields = schema.orderedFields := by
  obtain ⟨built, hbuilt, rfl⟩ := compileSchema_ok hok
  obtain ⟨fields, hdeclared, hfields⟩ := List.perm_comp_forall₂ hperm.symm hbuilt.declared
  have hdistinct : (fields.map FieldDef.tag).Nodup :=
    (hfields.map FieldDef.tag).nodup_iff.mpr hbuilt.distinct
  exact ⟨_, compileSchema_of_declared hdeclared hdistinct, rfl,
    insertionSort_eq_of_perm hfields hdistinct⟩

end Definition

/-! ### The order of the keys of a message -/

/-- Where the value of a nested message stands: directly under the name of the field or,
    if the field is repeated, as an item of the list under that name. -/
inductive Slot (field : FieldDef) : (Zval → Zval) → Prop where
  | single (hsingular : field.flags.repeated = false) : Slot field id
  | item (hrepeated : field.flags.repeated = true) (before : HashTable) (key : Key)
      (after : HashTable) : Slot field fun value => .array (before ++ (key, value) :: after)

/-- The two messages of the schema differ in the order of the keys, of their own or of
    messages nested in them. -/
inductive Reordered (registry : Registry) : CompiledSchema → Zval → Zval → Prop where
  | refl (schema : CompiledSchema) (data : Zval) : Reordered registry schema data data
  | trans {schema : CompiledSchema} {first second third : Zval}
      (hfirst : Reordered registry schema first second)
      (hsecond : Reordered registry schema second third) : Reordered registry schema first third
  | array (schema : CompiledSchema) {entries entries' : HashTable}
      (hnodup : (keys entries).Nodup) (hperm : entries.Perm entries') :
      Reordered registry schema (.array entries) (.array entries')
  | object (schema : CompiledSchema) {props props' : HashTable}
      (hnodup : (keys props).Nodup) (hperm : props.Perm props') :
      Reordered registry schema (.object props) (.object props')
  | arrayMember {schema nested : CompiledSchema} {field : FieldDef}
      (hfield : field ∈ schema.orderedFields) (htype : field.type = .message)
      (hnested : getCompiledIibinSchemaInternal registry (field.messageTypeNameIfNested.getD []) =
        some nested)
      {slot : Zval → Zval} (hslot : Slot field slot) {value value' : Zval}
      (hvalue : Reordered registry nested value value') (before after : HashTable) :
      Reordered registry schema
        (.array (before ++ (.str field.nameInPhp, slot value) :: after))
        (.array (before ++ (.str field.nameInPhp, slot value') :: after))
  | objectMember {schema nested : CompiledSchema} {field : FieldDef}
      (hfield : field ∈ schema.orderedFields) (htype : field.type = .message)
      (hnested : getCompiledIibinSchemaInternal registry (field.messageTypeNameIfNested.getD []) =
        some nested)
      {slot : Zval → Zval} (hslot : Slot field slot) {value value' : Zval}
      (hvalue : Reordered registry nested value value') (before after : HashTable) :
      Reordered registry schema
        (.object (before ++ (.str field.nameInPhp, slot value) :: after))
        (.object (before ++ (.str field.nameInPhp, slot value') :: after))

variable {schema : CompiledSchema}

/-- A reordered value is the same value, or another table of the same kind. -/
theorem Reordered.kind {registry : Registry} {data data' : Zval}
    (hreordered : Reordered registry schema data data') :
    data = data' ∨ (∃ entries entries', data = .array entries ∧ data' = .array entries') ∨
      ∃ props props', data = .object props ∧ data' = .object props' := by
  induction hreordered with
  | refl _ _ => exact .inl rfl
  | trans _ _ ihfirst ihsecond =>
    rcases ihfirst with rfl | ⟨entries, middle, rfl, rfl⟩ | ⟨props, middle, rfl, rfl⟩
    · exact ihsecond
    · rcases ihsecond with rfl | ⟨_, entries', _, rfl⟩ | ⟨_, _, hkind, _⟩
      · exact .inr (.inl ⟨_, _, rfl, rfl⟩)
      · exact .inr (.inl ⟨_, _, rfl, rfl⟩)
      · cases hkind
    · rcases ihsecond with rfl | ⟨_, _, hkind, _⟩ | ⟨_, props', _, rfl⟩
      · exact .inr (.inr ⟨_, _, rfl, rfl⟩)
      · cases hkind
      · exact .inr (.inr ⟨_, _, rfl, rfl⟩)
  | array _ _ _ => exact .inr (.inl ⟨_, _, rfl, rfl⟩)
  | object _ _ _ => exact .inr (.inr ⟨_, _, rfl, rfl⟩)
  | arrayMember _ _ _ _ _ _ _ _ => exact .inr (.inl ⟨_, _, rfl, rfl⟩)
  | objectMember _ _ _ _ _ _ _ _ => exact .inr (.inr ⟨_, _, rfl, rfl⟩)

section Message

variable {host : Host} {registry : Registry} {encodeMessage : MessageEncoder} {field : FieldDef}

theorem encodeFields_congr {data data' : Zval} {fields : List FieldDef}
    (hmembers : ∀ field ∈ fields,
      encodeFieldInternal host registry encodeMessage field (readMember data field.nameInPhp) =
        encodeFieldInternal host registry encodeMessage field (readMember data' field.nameInPhp)) :
    encodeFields host registry encodeMessage data fields =
      encodeFields host registry encodeMessage data' fields := by
  induction fields with
  | nil => rfl
  | cons field rest ih =>
    simp only [encodeFields]
    rw [hmembers field List.mem_cons_self,
      ih fun other hother => hmembers other (List.mem_cons_of_mem _ hother)]

theorem encodeItems_congr {value value' : Zval}
    (hvalue : encodeSingleFieldValue host registry encodeMessage field value =
      encodeSingleFieldValue host registry encodeMessage field value')
    (before : HashTable) (key : Key) (after : HashTable) :
    encodeItems host registry encodeMessage field (before ++ (key, value) :: after) =
      encodeItems host registry encodeMessage field (before ++ (key, value') :: after) := by
  induction before with
  | nil => simp only [List.nil_append, encodeItems, hvalue]
  | cons entry rest ih => simp only [List.cons_append, encodeItems, ih]

variable {nested : CompiledSchema}

/-- The nested values are looked at for their kind and encoded. -/
theorem encodeSingleFieldValue_reordered (htype : field.type = .message)
    (hnested : registry.Has (field.messageTypeNameIfNested.getD []) nested) {value value' : Zval}
    (hreordered : Reordered registry nested value value')
    (hencode : encodeMessage nested value = encodeMessage nested value') :
    encodeSingleFieldValue host registry encodeMessage field value =
      encodeSingleFieldValue host registry encodeMessage field value' := by
  rcases hreordered.kind with rfl | ⟨entries, entries', rfl, rfl⟩ | ⟨props, props', rfl, rfl⟩
  · rfl
  · simp only [encodeSingleFieldValue, checkValueType, encodeValue, htype, encodeNested, hnested,
      hencode]
  · simp only [encodeSingleFieldValue, checkValueType, encodeValue, htype, encodeNested, hnested,
      hencode]

theorem encodeFieldInternal_slot (htype : field.type = .message)
    (hnested : registry.Has (field.messageTypeNameIfNested.getD []) nested) {slot : Zval → Zval}
    (hslot : Slot field slot) {value value' : Zval}
    (hreordered : Reordered registry nested value value')
    (hencode : encodeMessage nested value = encodeMessage nested value') :
    encodeFieldInternal host registry encodeMessage field (some (slot value)) =
      encodeFieldInternal host registry encodeMessage field (some (slot value')) := by
  have hsingle : encodeSingleFieldValue host registry encodeMessage field value =
      encodeSingleFieldValue host registry encodeMessage field value' :=
    encodeSingleFieldValue_reordered htype hnested hreordered hencode
  rcases hslot with hsingular | ⟨hrepeated, before, key, after⟩
  · have hnullish : value.isNullish = value'.isNullish := by
      rcases hreordered.kind with rfl | ⟨_, _, rfl, rfl⟩ | ⟨_, _, rfl, rfl⟩ <;> rfl
    simp only [encodeFieldInternal, hsingular, id_eq, hnullish, hsingle, Bool.false_eq_true,
      if_false]
  · -- a packed list of messages writes nothing for its items
    have hpacked : encodePackedRepeatedField host field (before ++ (key, value) :: after) =
        encodePackedRepeatedField host field (before ++ (key, value') :: after) := by
      simp only [encodePackedRepeatedField, htype, List.flatMap_append, List.flatMap_cons,
        encodePackedItem]
    have hcons : ∀ value, (before ++ (key, value) :: after).isEmpty = false := by simp
    simp only [encodeFieldInternal, Zval.isNullish, hrepeated, hcons, hpacked,
      encodeItems_congr hsingle, Bool.false_eq_true, if_false, if_true]

theorem lookup_replaced (before after : HashTable) (key : Key) (value value' : Zval) (name : Key) :
    (before ++ (key, value) :: after).lookup name = (before ++ (key, value') :: after).lookup name ∨
      name = key ∧ (before ++ (key, value) :: after).lookup name = some value ∧
        (before ++ (key, value') :: after).lookup name = some value' := by
  induction before with
  | nil =>
    by_cases hname : name = key
    · subst hname
      exact .inr ⟨rfl, by simp, by simp⟩
    · left
      simp [List.lookup_cons, beq_false_of_ne hname]
  | cons entry rest ih =>
    obtain ⟨other, found⟩ := entry
    by_cases hname : name = other
    · left
      simp [hname]
    · simpa [List.lookup_cons, beq_false_of_ne hname] using ih

variable {schema : CompiledSchema}

/-- Every field reads the same value, except the one whose nested message was replaced.
    `read` is what becomes of an entry that is not there. -/
theorem encodeFieldInternal_member (hschema : schema.Named)
    (hfield : field ∈ schema.orderedFields) (htype : field.type = .message)
    (hnested : registry.Has (field.messageTypeNameIfNested.getD []) nested) {slot : Zval → Zval}
    (hslot : Slot field slot) {value value' : Zval}
    (hreordered : Reordered registry nested value value')
    (hencode : encodeMessage nested value = encodeMessage nested value')
    (before after : HashTable) (read : Option Zval → Option Zval)
    (hread : ∀ value, read (some value) = some value) {other : FieldDef}
    (hother : other ∈ schema.orderedFields) :
    encodeFieldInternal host registry encodeMessage other
        (read ((before ++ (.str field.nameInPhp, slot value) :: after).lookup
          (.str other.nameInPhp))) =
      encodeFieldInternal host registry encodeMessage other
        (read ((before ++ (.str field.nameInPhp, slot value') :: after).lookup
          (.str other.nameInPhp))) := by
  rcases lookup_replaced before after (.str field.nameInPhp) (slot value) (slot value')
    (.str other.nameInPhp) with hsame | ⟨hname, hfound, hfound'⟩
  · rw [hsame]
  · obtain rfl : other = field :=
      List.inj_on_of_nodup_map hschema.distinct hother hfield (Key.str.inj hname)
    rw [hfound, hfound', hread, hread]
    exact encodeFieldInternal_slot htype hnested hslot hreordered hencode

/-- **Reordering does not change the encoding**, nor the exception if there is one. -/
theorem Reordered.encode_eq (host : Host)
    (hnamed : ∀ name schema, registry.Has name schema → schema.Named) {data data' : Zval}
    (hschema : schema.Named) (hreordered : Reordered registry schema data data') (depth : Nat) :
    encodeMessageInternal host registry depth schema data =
      encodeMessageInternal host registry depth schema data' := by
  induction hreordered generalizing depth with
  | refl _ _ => rfl
  | trans _ _ ihfirst ihsecond => exact (ihfirst hschema depth).trans (ihsecond hschema depth)
  | array _ hnodup hperm =>
    rcases depth with _ | depth
    · rfl
    · refine encodeFields_congr fun field _ => ?_
      simp only [readMember, lookup_of_perm hnodup hperm]
  | object _ hnodup hperm =>
    rcases depth with _ | depth
    · rfl
    · refine encodeFields_congr fun field _ => ?_
      simp only [readMember, lookup_of_perm hnodup hperm]
  | arrayMember hfield htype hnested hslot hvalue before after ih =>
    rcases depth with _ | depth
    · rfl
    · exact encodeFields_congr fun other hother =>
        encodeFieldInternal_member hschema hfield htype hnested hslot hvalue
          (ih (hnamed _ _ hnested) depth) before after id (fun _ => rfl) hother
  | objectMember hfield htype hnested hslot hvalue before after ih =>
    rcases depth with _ | depth
    · rfl
    · exact encodeFields_congr fun other hother =>
        encodeFieldInternal_member hschema hfield htype hnested hslot hvalue
          (ih (hnamed _ _ hnested) depth) before after
          (fun found => some (found.getD .null)) (fun _ => rfl) hother

theorem Reordered.quicproIibinEncode_eq (host : Host) (hreach : Reachable NulFree registry)
    {schemaName : Bytes} (hfound : registry.Has schemaName schema) {data data' : Zval}
    (hreordered : Reordered registry schema data data') :
    quicproIibinEncode host registry schemaName data =
      quicproIibinEncode host registry schemaName data' := by
  simp only [quicproIibinEncode, hfound]
  exact hreordered.encode_eq host (fun _ _ => hreach.named) (hreach.named hfound) _

end Message

/-! ### More schemas in the registry -/

section Extension

variable {host : Host} {small large : Registry} {encodeMessage encodeMessage' : MessageEncoder}
  {field : FieldDef}

section

variable (hextends : small.Extends large) (htyped : field.WellTyped small)

include hextends htyped

theorem enumNumber_extends (htype : field.type = .enum) (value : Zval) :
    enumNumber large field value = enumNumber small field value := by
  obtain ⟨name, enumDef, hname, -, hfound⟩ := htyped.enum htype
  have hfound' := hextends.enums _ _ hfound
  simp only [enumNumber, hname, Option.getD_some, hfound, hfound']

variable (hnested : NestedResolves small
  (fun schema => ∀ data, encodeMessage' schema data = encodeMessage schema data) field)

include hnested

theorem encodeNested_extends (htype : field.type = .message) (value : Zval) :
    encodeNested large encodeMessage' field value =
      encodeNested small encodeMessage field value := by
  obtain ⟨name, schema, hname, -, hfound⟩ := htyped.nested htype
  have hfound' := hextends.schemas _ _ hfound
  have hencode := hnested htype schema (by rw [hname]; exact hfound)
  simp only [encodeNested, hname, Option.getD_some, hfound, hfound', hencode]

theorem encodeSingleFieldValue_extends (value : Zval) :
    encodeSingleFieldValue host large encodeMessage' field value =
      encodeSingleFieldValue host small encodeMessage field value := by
  have hvalue : encodeValue host large encodeMessage' field value =
      encodeValue host small encodeMessage field value := by
    by_cases henum : field.type = .enum
    · simp only [encodeValue, henum, enumNumber_extends hextends htyped henum]
    · by_cases hmessage : field.type = .message
      · simp only [encodeValue, hmessage, encodeNested_extends hextends htyped hnested hmessage]
      · unfold encodeValue
        split <;> first | rfl | contradiction
  unfold encodeSingleFieldValue
  rw [hvalue]

theorem encodeItems_extends (table : HashTable) :
    encodeItems host large encodeMessage' field table =
      encodeItems host small encodeMessage field table := by
  induction table with
  | nil => rfl
  | cons entry rest ih =>
    simp only [encodeItems]
    rw [encodeSingleFieldValue_extends hextends htyped hnested, ih]

theorem encodeFieldInternal_extends (value : Option Zval) :
    encodeFieldInternal host large encodeMessage' field value =
      encodeFieldInternal host small encodeMessage field value := by
  unfold encodeFieldInternal
  simp only [encodeSingleFieldValue_extends hextends htyped hnested,
    encodeItems_extends hextends htyped hnested]

end

theorem encodeFields_extends (hextends : small.Extends large) {fields : List FieldDef}
    (htyped : ∀ field ∈ fields, field.WellTyped small)
    (hnested : ∀ field ∈ fields, NestedResolves small
      (fun schema => ∀ data, encodeMessage' schema data = encodeMessage schema data) field)
    (data : Zval) :
    encodeFields host large encodeMessage' data fields =
      encodeFields host small encodeMessage data fields := by
  induction fields with
  | nil => rfl
  | cons field rest ih =>
    simp only [encodeFields]
    rw [encodeFieldInternal_extends hextends (htyped field List.mem_cons_self)
      (hnested field List.mem_cons_self),
      ih (fun other hother => htyped other (List.mem_cons_of_mem _ hother))
        fun other hother => hnested other (List.mem_cons_of_mem _ hother)]

/-- A schema refers only to what was there when it was defined. -/
theorem encodeMessageInternal_extends (host : Host) (hlayered : small.Layered)
    (hextends : small.Extends large) (depth : Nat) :
    ∀ schema, schema.WellFormed small → ∀ data,
      encodeMessageInternal host large depth schema data =
        encodeMessageInternal host small depth schema data := by
  induction depth with
  | zero => intro schema _ data; rfl
  | succ depth ih =>
    intro schema hformed data
    have hfields : encodeFields host large (encodeMessageInternal host large depth) data
        schema.orderedFields = encodeFields host small (encodeMessageInternal host small depth)
          data schema.orderedFields :=
      encodeFields_extends hextends hformed.fields
        (fun field _ _ nested hfound => ih nested (hlayered.wellFormed hfound)) data
    unfold encodeMessageInternal
    rw [hfields]

end Extension

/-- The encoder reads the name of a schema and its fields in order, nothing else. -/
theorem encodeMessageInternal_schema (host : Host) (registry : Registry) (depth : Nat)
    {schema' : CompiledSchema} (hname : schema'.schemaName = schema.schemaName)
    (hfields : schema'.orderedFields = schema.orderedFields) (data : Zval) :
    encodeMessageInternal host registry depth schema' data =
      encodeMessageInternal host registry depth schema data := by
  rcases depth with _ | depth
  · rfl
  · simp only [encodeMessageInternal, hname, hfields]

/-- What the encoder does with a schema that was defined last. -/
theorem quicproIibinEncode_defined (host : Host) {registry : Registry}
    (hlayered : registry.Layered) {schemaName : Bytes} (hname : NulFree schemaName)
    (hfree : registry.Free schemaName) (hformed : schema.WellFormed registry) :
    getCompiledIibinSchemaInternal
        { registry with schemas := registry.schemas ++ [(schemaName, schema)] } schemaName =
      some schema ∧
    ∀ data, quicproIibinEncode host
        { registry with schemas := registry.schemas ++ [(schemaName, schema)] } schemaName data =
      encodeMessageInternal host registry (registry.schemas.length + 1) schema data := by
  have hlookup : registry.schemas.lookup schemaName = none :=
    lookup_eq_none_iff_not_mem_keys.mpr (hfree.not_mem hlayered.initialized hname).1
  have hfound : getCompiledIibinSchemaInternal
      { registry with schemas := registry.schemas ++ [(schemaName, schema)] } schemaName =
        some schema := by
    simp [getCompiledIibinSchemaInternal, hlayered.initialized, cstr_of_nulFree hname,
      List.lookup_append, hlookup]
  have hextends : registry.Extends
      { registry with schemas := registry.schemas ++ [(schemaName, schema)] } := by
    simpa using registry.extends_append [(schemaName, schema)] []
  refine ⟨hfound, fun data => ?_⟩
  unfold quicproIibinEncode
  rw [hfound, ← encodeMessageInternal_extends host hlayered hextends _ schema hformed data]
  simp

/-! ### The tags on the wire -/

namespace Wire

/-- One field of a message, read without a schema: its tag is noted, its value skipped. -/
def tagged (bytes : Bytes) (seen : List (BitVec 32)) : Answer (Bytes × List (BitVec 32)) :=
  match varint bytes with
  | none => .error (.fault .silent)
  | some (key, rest) => do
      let rest ← skip .silent (keyWireType key) rest
      .ok (rest, seen ++ [keyTag key])

/-- The tags of all fields of a message, in the order of the bytes. -/
def tags (bytes : Bytes) : Answer (List (BitVec 32)) := drainAll .overrun tagged bytes []

theorem tagged_shrinks : Shrinks tagged := by
  intro bytes seen rest seen' hread
  unfold tagged at hread
  rcases hvarint : varint bytes with _ | ⟨key, after⟩ <;> rw [hvarint] at hread
  · cases hread
  · obtain ⟨remaining, hskip, hok⟩ := bind_eq_ok.mp hread
    obtain ⟨rfl, -⟩ := Prod.mk.inj (Except.ok.inj hok)
    have hkey := (varint_consumes hvarint).1
    have hpayload := (skip_consumes _ _ hskip).1
    omega

end Wire

/-- The tags come in ascending order, and only an unpacked list has one more than once. -/
structure InTagOrder (fields : List FieldDef) (tags : List (BitVec 32)) : Prop where
  ascending : tags.Pairwise fun left right => left.toNat ≤ right.toNat
  declared : ∀ tag ∈ tags, ∃ field ∈ fields, field.tag = tag ∧
    (1 < tags.count tag → field.flags.repeated = true ∧ field.flags.packed = false)

theorem InTagOrder.cons {field : FieldDef} {rest : List FieldDef} {tags : List (BitVec 32)}
    (hsorted : ∀ other ∈ rest, field.tag.toNat < other.tag.toNat) (horder : InTagOrder rest tags)
    {count : Nat} (hcount : 1 < count → field.flags.repeated = true ∧ field.flags.packed = false) :
    InTagOrder (field :: rest) (List.replicate count field.tag ++ tags) := by
  have habove : ∀ tag ∈ tags, field.tag.toNat < tag.toNat := by
    intro tag htag
    obtain ⟨other, hother, rfl, -⟩ := horder.declared tag htag
    exact hsorted other hother
  have hfresh : field.tag ∉ tags := fun hmem => Nat.lt_irrefl _ (habove _ hmem)
  refine ⟨List.pairwise_append.mpr ⟨List.pairwise_replicate.mpr (.inr le_rfl), horder.ascending,
    fun first hfirst tag htag => ?_⟩, fun tag htag => ?_⟩
  · rw [List.eq_of_mem_replicate hfirst]
    exact (habove tag htag).le
  · rcases List.mem_append.mp htag with hhere | hlater
    · rw [List.eq_of_mem_replicate hhere]
      refine ⟨field, List.mem_cons_self, rfl, fun hmany => hcount ?_⟩
      simpa [List.count_eq_zero_of_not_mem hfresh] using hmany
    · obtain ⟨other, hother, rfl, hmany⟩ := horder.declared tag hlater
      have hne : field.tag ≠ other.tag := fun heq => hfresh (heq ▸ hlater)
      refine ⟨other, List.mem_cons_of_mem _ hother, rfl, fun htwice => hmany ?_⟩
      simpa [List.count_append, List.count_replicate, hne] using htwice

section Tags

variable {host : Host} {registry : Registry} {encodeMessage : MessageEncoder}

theorem tagged_append {left right : Bytes} {tags more : List (BitVec 32)}
    (hleft : Runs .overrun Wire.tagged id left fun seen => .ok (seen ++ tags))
    (hright : Runs .overrun Wire.tagged id right fun seen => .ok (seen ++ more)) :
    Runs .overrun Wire.tagged id (left ++ right) fun seen => .ok (seen ++ (tags ++ more)) := by
  refine cast ?_ (hleft.append hright)
  congr 1
  funext seen
  rw [← List.append_assoc]
  rfl

theorem occurrence_tagged {field : FieldDef} (htyped : field.WellTyped registry)
    (htag : field.SmallTag) {payload : Bytes} (hskips : Skips field payload) :
    Runs .overrun Wire.tagged id (encodeVarint (writtenKey field) ++ payload)
      fun seen => .ok (seen ++ [field.tag]) := by
  obtain ⟨hread, hwire, -⟩ := read_writtenKey htyped htag
  refine Runs.of_step Wire.tagged_shrinks
    (List.append_ne_nil_of_left_ne_nil (encodeVarint_ne_nil _) _) fun rest seen => ?_
  have hskip := hskips .silent rest
  simp only [Wire.tagged, List.append_assoc, varint_encodeVarint, hwire, hskip, hread]
  rfl

theorem occurrences_tagged {field : FieldDef} (htyped : field.WellTyped registry)
    (htag : field.SmallTag) {payloads : List Bytes}
    (hskips : ∀ payload ∈ payloads, Skips field payload) :
    Runs .overrun Wire.tagged id
      (payloads.flatMap fun payload => encodeVarint (writtenKey field) ++ payload)
      fun seen => .ok (seen ++ List.replicate payloads.length field.tag) := by
  induction payloads with
  | nil =>
    have hnil : Runs .overrun Wire.tagged id [] .ok := Runs.nil
    simpa using hnil
  | cons payload rest ih =>
    have hfirst := occurrence_tagged htyped htag (hskips payload List.mem_cons_self)
    have hrest := ih fun other hother => hskips other (List.mem_cons_of_mem _ hother)
    exact tagged_append hfirst hrest

/-- The fields of a message are written in the order of their tags. -/
theorem encodeFields_tagged {data : Zval} {fields : List FieldDef}
    (htyped : ∀ field ∈ fields, field.WellTyped registry) (htags : ∀ field ∈ fields, field.SmallTag)
    (hsorted : fields.Pairwise fun left right => left.tag.toNat < right.tag.toNat) {bytes : Bytes}
    (hok : encodeFields host registry encodeMessage data fields = .ok bytes)
    (hlength : bytes.length < 2 ^ 64) :
    ∃ tags, InTagOrder fields tags ∧
      Runs .overrun Wire.tagged id bytes fun seen => .ok (seen ++ tags) := by
  induction fields generalizing bytes with
  | nil =>
    obtain rfl := Except.ok.inj hok
    have hnil : Runs .overrun Wire.tagged id [] .ok := Runs.nil
    exact ⟨[], ⟨List.Pairwise.nil, by simp⟩, by simpa using hnil⟩
  | cons field rest ih =>
    obtain ⟨first, hfirst, hok⟩ := bind_eq_ok.mp hok
    obtain ⟨others, hothers, hok⟩ := bind_eq_ok.mp hok
    obtain rfl := Except.ok.inj hok
    rw [List.length_append] at hlength
    obtain ⟨hfield, hrest⟩ := List.forall_mem_cons.mp htyped
    obtain ⟨htag, htagRest⟩ := List.forall_mem_cons.mp htags
    obtain ⟨habove, hsorted⟩ := List.pairwise_cons.mp hsorted
    obtain ⟨payloads, rfl, hskips, hmany⟩ :=
      encodeFieldInternal_occurrences hfield hfirst (by omega)
    obtain ⟨tags, horder, hruns⟩ := ih hrest htagRest hsorted hothers (by omega)
    exact ⟨_, horder.cons habove hmany,
      tagged_append (occurrences_tagged hfield htag hskips) hruns⟩

theorem quicproIibinEncode_inTagOrder {schemaName : Bytes} {schema : CompiledSchema}
    (hformed : schema.WellFormed registry) (hfound : registry.Has schemaName schema)
    (htags : schema.SmallTags) {data : Zval} {bytes : Bytes}
    (hok : quicproIibinEncode host registry schemaName data = .ok bytes)
    (hlength : bytes.length < 2 ^ 64) :
    ∃ tags, Wire.tags bytes = .ok tags ∧ InTagOrder schema.orderedFields tags := by
  obtain ⟨depth, -, -, hfields⟩ := quicproIibinEncode_ok hfound hok
  obtain ⟨tags, horder, hruns⟩ :=
    encodeFields_tagged hformed.fields htags hformed.sorted hfields hlength
  exact ⟨tags, hruns.drainAll_eq [], horder⟩

end Tags

/-- **Canonical bytes.** Whether a definition is accepted does not depend on the order of
    its fields. If it is, a message is encoded to the same bytes, or rejected with the
    same exception, whatever the order of the definition and of the keys; and the tags in
    the bytes ascend. -/
theorem canonical_bytes (host : Host) (registry : Registry) (hreach : Reachable NulFree registry)
    (schemaName : Bytes) (hname : NulFree schemaName) (first second : PhpArray)
    (hnames : ∀ name ∈ first.stringKeys, NulFree name) (hperm : first.entries.Perm second.entries) :
    (∃ fault fault', quicproIibinDefineSchema registry schemaName first = .error fault ∧
      quicproIibinDefineSchema registry schemaName second = .error fault') ∨
    ∃ registry₁ registry₂ schema,
      quicproIibinDefineSchema registry schemaName first = .ok registry₁ ∧
      quicproIibinDefineSchema registry schemaName second = .ok registry₂ ∧
      getCompiledIibinSchemaInternal registry₁ schemaName = some schema ∧
      ∀ data data', Reordered registry₁ schema data data' →
        quicproIibinEncode host registry₁ schemaName data =
          quicproIibinEncode host registry₂ schemaName data' ∧
        ((∀ field ∈ schema.orderedFields, field.SmallTag) → ∀ bytes : Bytes,
          bytes.length < 2 ^ 64 → quicproIibinEncode host registry₁ schemaName data = .ok bytes →
          ∃ tags, Wire.tags bytes = .ok tags ∧ InTagOrder schema.orderedFields tags) := by
  have hlayered := hreach.layered
  rcases hdefine : quicproIibinDefineSchema registry schemaName first with fault | registry₁
  · left
    rcases hdefine' : quicproIibinDefineSchema registry schemaName second with fault' | registry₂
    · exact ⟨fault, fault', rfl, rfl⟩
    · -- the first order would have been accepted as well
      obtain ⟨hinit, hfree, hlookup, _, hcompile, -⟩ := quicproIibinDefineSchema_eq_ok.mp hdefine'
      obtain ⟨schema, hcompile, -⟩ := compileSchema_of_perm hperm.symm hcompile
      have haccepted := quicproIibinDefineSchema_eq_ok.mpr
        ⟨hinit, hfree, hlookup, schema, hcompile, rfl⟩
      rw [hdefine] at haccepted
      cases haccepted
  · right
    have hreach₁ : Reachable NulFree registry₁ := by
      have hcall : (Call.defineSchema schemaName first).apply registry = registry₁ := by
        rw [Call.apply, Call.run, hdefine]
      rw [← hcall]
      exact .call _ (List.forall_mem_cons.mpr ⟨hname, hnames⟩) hreach
    obtain ⟨hinit, hfree, hlookup, schema, hcompile, rfl⟩ :=
      quicproIibinDefineSchema_eq_ok.mp hdefine
    obtain ⟨schema', hcompile', hsame, hfields⟩ := compileSchema_of_perm hperm hcompile
    have hdefine' := quicproIibinDefineSchema_eq_ok.mpr
      ⟨hinit, hfree, hlookup, schema', hcompile', rfl⟩
    obtain ⟨hfound, hencode⟩ := quicproIibinEncode_defined host hlayered hname hfree
      (compileSchema_wellFormed hcompile)
    obtain ⟨-, hencode'⟩ := quicproIibinEncode_defined host hlayered hname hfree
      (compileSchema_wellFormed hcompile')
    refine ⟨_, _, schema, rfl, hdefine', hfound, fun data data' hreordered => ⟨?_, ?_⟩⟩
    · rw [hreordered.quicproIibinEncode_eq host hreach₁ hfound, hencode, hencode',
        encodeMessageInternal_schema host _ _ hsame hfields]
    · intro htags bytes hlength hok
      exact quicproIibinEncode_inTagOrder (hreach₁.layered.wellFormed hfound) hfound htags hok
        hlength

def boxFields : PhpArray :=
  ⟨[(.str (ascii "corner"), fieldOptions 2 "Point" []),
    (.str (ascii "label"), fieldOptions 1 "string" [])], by decide, by decide⟩

def boxFieldsSwapped : PhpArray :=
  ⟨[(.str (ascii "label"), fieldOptions 1 "string" []),
    (.str (ascii "corner"), fieldOptions 2 "Point" [])], by decide, by decide⟩

def boxCorner : Key × Zval :=
  (.str (ascii "corner"), .array [(.str (ascii "x"), .long 5), (.str (ascii "color"), .long 2)])

def boxLabel : Key × Zval := (.str (ascii "label"), .string (ascii "hi"))

theorem canonical_bytes_box :
    ∃ registry₁ registry₂,
      quicproIibinDefineSchema shapeRegistry (ascii "Box") boxFields = .ok registry₁ ∧
      quicproIibinDefineSchema shapeRegistry (ascii "Box") boxFieldsSwapped = .ok registry₂ ∧
      quicproIibinEncode default registry₁ (ascii "Box") (.array [boxCorner, boxLabel]) =
        quicproIibinEncode default registry₂ (ascii "Box") (.array [boxLabel, boxCorner]) := by
  rcases canonical_bytes default shapeRegistry shapeRegistry_reachable (ascii "Box")
    (by decide +kernel) boxFields boxFieldsSwapped (by decide +kernel) (List.Perm.swap _ _ _) with
    ⟨fault, _, hfault, -⟩ | ⟨registry₁, registry₂, schema, hfirst, hsecond, -, hsame⟩
  · have haccepted : (quicproIibinDefineSchema shapeRegistry (ascii "Box") boxFields).isOk = true :=
      rfl
    rw [hfault] at haccepted
    cases haccepted
  · have hreordered : Reordered registry₁ schema (.array [boxCorner, boxLabel])
        (.array [boxLabel, boxCorner]) :=
      .array schema (by decide +kernel) (List.Perm.swap _ _ _)
    exact ⟨registry₁, registry₂, hfirst, hsecond, (hsame _ _ hreordered).1⟩

end QuicproAsync.Iibin

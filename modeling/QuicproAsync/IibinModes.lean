import QuicproAsync.IibinAcceptance

/-!
# Arrays and objects

`quicpro_iibin_decode` fills an array or an object. The two runs read the same bytes and
store the same values; they part where a branch of the loop depends on the container. A list
that is made item by item is given back in an array and kept in an object, a packed block
goes through `Z_ARRVAL_P` in either case, and a singular value is filed by `add_assoc_zval_ex`
in an array, which makes an integer of a numeric name, but not in an object. Where none of
this can happen the two runs go side by side.
-/

namespace QuicproAsync.Iibin

open Php Fallible ScanLoop

/-- All readable fields are singular, with names that are not numeric. -/
structure ModeFree (fields : List FieldDef) : Prop where
  singular : ∀ field ∈ fields, field.tag ≠ 0 → field.flags.repeated = false
  textual : ∀ field ∈ fields, field.tag ≠ 0 → handleNumericStr field.nameInPhp = none

/-- The same entries, once in an array and once in an object. -/
def SameEntries (array object : Zval) : Prop :=
  ∃ entries, array = .array entries ∧ object = .object entries

/-- Both calls fail, or both return the same entries, all of which are there. The use of freed
    memory is neither a failure nor a result. -/
def Agree : Except Trouble (Pointee × Option IibinError) →
    Except Trouble (Pointee × Option IibinError) → Prop
  | .ok (.live array, warning), .ok (.live object, warning') =>
    SameEntries array object ∧ warning = warning'
  | .error (.fault _), .error (.fault _) => True
  | _, _ => False

/-! ### Side by side -/

section

variable {host : Host} {registry : Registry} {reading : BoundReading} {memory : Memory}
  {fuel : Nat} {decodeMessage decodeMessage' : MessageDecoder} {schema : CompiledSchema}

theorem decodeValueToZval_mode {field : FieldDef} (hintegral : field.type.isIntegral = true)
    (ptr bufEnd : Nat) (wireType : BitVec 32) :
    decodeValueToZval ⟨⟨host, registry, reading, true⟩, memory, fuel⟩ decodeMessage' ptr bufEnd
        field wireType =
      decodeValueToZval ⟨⟨host, registry, reading, false⟩, memory, fuel⟩ decodeMessage ptr bufEnd
        field wireType := by
  unfold decodeValueToZval
  cases htype : field.type <;> first | rfl | (rw [htype] at hintegral; contradiction)

/-- A value is stored under the same key. -/
theorem storeValue_mode {field : FieldDef} (hsingular : field.flags.repeated = false)
    (htextual : handleNumericStr field.nameInPhp = none) (value : Zval) (entries : HashTable) :
    Related SameEntries (storeValue field value (.array entries))
      (storeValue field value (.object entries)) := by
  have hkey : symtableKey field.nameInPhp = .str field.nameInPhp := by
    rw [symtableKey, htextual]
  simp only [storeValue, hsingular, Bool.false_eq_true, if_false, hkey]
  exact ⟨_, rfl, rfl⟩

theorem decodeField_mode (hformed : schema.WellFormed registry) (hintegral : schema.IsIntegral)
    (hfree : ModeFree schema.orderedFields) (bufEnd ptr : Nat) {array object : Zval}
    (hsame : SameEntries array object) :
    Related (fun next next' => next.1 = next'.1 ∧ SameEntries next.2 next'.2)
      (decodeField ⟨⟨host, registry, reading, false⟩, memory, fuel⟩ decodeMessage schema bufEnd ptr
        array)
      (decodeField ⟨⟨host, registry, reading, true⟩, memory, fuel⟩ decodeMessage' schema bufEnd ptr
        object) := by
  unfold decodeField
  rcases decodeVarint memory ptr bufEnd with _ | ⟨key, after⟩
  · exact rfl
  dsimp only
  by_cases hzero : keyTag key = 0
  · rw [if_pos hzero, if_pos hzero]
    exact ⟨rfl, hsame⟩
  rw [if_neg hzero, if_neg hzero]
  rcases hlookup : schema.fieldsByTag.lookup (keyTag key) with _ | field
  · have hskip : skipField ⟨⟨host, registry, reading, true⟩, memory, fuel⟩ after bufEnd
        (keyWireType key) = skipField ⟨⟨host, registry, reading, false⟩, memory, fuel⟩ after bufEnd
          (keyWireType key) := rfl
    rw [hskip]
    rcases skipField ⟨⟨host, registry, reading, false⟩, memory, fuel⟩ after bufEnd
      (keyWireType key) with _ | behind
    · exact rfl
    · exact ⟨rfl, hsame⟩
  · obtain ⟨hfield, htag⟩ := (hformed.byTag (keyTag key) field).mp hlookup
    have hreadable : field.tag ≠ 0 := htag ▸ hzero
    have hsingular := hfree.singular field hfield hreadable
    have hsingle : ¬ (field.flags.packed = true ∧ keyWireType key = wiretypeLengthDelim) := by
      rintro ⟨hpacked, -⟩
      rw [((hformed.fields field hfield).packed hpacked).1] at hsingular
      cases hsingular
    dsimp only
    rw [if_neg hsingle, if_neg hsingle, decodeValueToZval_mode (hintegral field hfield)]
    obtain ⟨entries, rfl, rfl⟩ := hsame
    rcases decodeValueToZval ⟨⟨host, registry, reading, false⟩, memory, fuel⟩ decodeMessage after
      bufEnd field (keyWireType key) with fault | ⟨behind, value⟩
    · exact rfl
    · refine (storeValue_mode hsingular (hfree.textual field hfield hreadable) value
        entries).bind ?_
      exact fun _ _ hstored => ⟨rfl, hstored⟩

theorem decodeMessageInternal_mode (hformed : schema.WellFormed registry)
    (hintegral : schema.IsIntegral) (hfree : ModeFree schema.orderedFields)
    (depth ptr bufEnd : Nat) {array object : Zval} (hsame : SameEntries array object) :
    Related (fun last last' => last.1 = last'.1 ∧ SameEntries last.2 last'.2)
      (decodeMessageInternal ⟨⟨host, registry, reading, false⟩, memory, fuel⟩ depth ptr bufEnd
        schema array)
      (decodeMessageInternal ⟨⟨host, registry, reading, true⟩, memory, fuel⟩ depth ptr bufEnd schema
        object) := by
  cases depth with
  | zero => exact rfl
  | succ depth =>
    exact whileBelow_related
      (fun ptr _ _ => decodeField_mode hformed hintegral hfree bufEnd ptr) fuel ptr hsame

theorem populateField_mode (schemaName : Bytes) (field : FieldDef) {array object : Zval}
    (hsame : SameEntries array object) :
    Related SameEntries (populateField schemaName array field)
      (populateField schemaName object field) := by
  obtain ⟨entries, rfl, rfl⟩ := hsame
  have hpresence : fieldIsPresent field (.object entries) = fieldIsPresent field (.array entries) :=
    rfl
  rw [populateField, populateField, hpresence]
  by_cases hpresent : fieldIsPresent field (.array entries) = true
  · rw [if_pos hpresent, if_pos hpresent]
    exact ⟨entries, rfl, rfl⟩
  rw [if_neg hpresent, if_neg hpresent]
  by_cases hrequired : field.flags.required = true
  · rw [if_pos hrequired, if_pos hrequired]
    exact rfl
  rw [if_neg hrequired, if_neg hrequired]
  by_cases hundef : field.defaultValueZval.isUndef = true
  · rw [if_pos hundef, if_pos hundef]
    exact ⟨entries, rfl, rfl⟩
  · rw [if_neg hundef, if_neg hundef]
    exact ⟨_, rfl, rfl⟩

end

section

variable {host : Host} {registry : Registry} {schemaName : Bytes} {schema : CompiledSchema}

theorem agree_of_modeFree {reading : BoundReading} (hformed : schema.WellFormed registry)
    (hfound : registry.Has schemaName schema) (hintegral : schema.IsIntegral)
    (hfree : ModeFree schema.orderedFields) (fuel : Nat) (buffer : Buffer) :
    Agree (intact (quicproIibinDecode ⟨host, registry, reading, false⟩ fuel schemaName buffer))
      (intact (quicproIibinDecode ⟨host, registry, reading, true⟩ fuel schemaName buffer)) := by
  have hempty : SameEntries (.array []) (.object []) := ⟨[], rfl, rfl⟩
  have hrelated : Related (fun out out' => SameEntries out.1 out'.1 ∧ out.2 = out'.2)
      (quicproIibinDecode ⟨host, registry, reading, false⟩ fuel schemaName buffer)
      (quicproIibinDecode ⟨host, registry, reading, true⟩ fuel schemaName buffer) := by
    simp only [quicproIibinDecode, hfound]
    refine (decodeMessageInternal_mode hformed hintegral hfree _ _ _ hempty).bind ?_
    rintro ⟨ptr, array⟩ ⟨_, object⟩ ⟨rfl, hsame⟩
    refine (Related.foldlM (fun field _ _ _ => populateField_mode schema.schemaName field)
      hsame).bind ?_
    exact fun _ _ hfilled => ⟨hfilled, rfl⟩
  generalize quicproIibinDecode ⟨host, registry, reading, false⟩ fuel schemaName buffer = array
    at hrelated ⊢
  generalize quicproIibinDecode ⟨host, registry, reading, true⟩ fuel schemaName buffer = object
    at hrelated ⊢
  rcases array with fault | ⟨array, warning⟩ <;> rcases object with fault' | ⟨object, warning'⟩
  · trivial
  · exact hrelated.elim
  · exact hrelated.elim
  · exact hrelated

/-! ### Where they part -/

/-- The fields filed as strings, as all are in an object. -/
theorem str_of_entryKey (field : FieldDef) : field.entryKey true = .str field.nameInPhp := by
  unfold FieldDef.entryKey valueKey
  split <;> rfl

/-- In an object nothing is filed as an integer. -/
theorem lookup_idx_object (hlayered : registry.Layered) (hfound : registry.Has schemaName schema)
    {fuel : Nat} {buffer : Buffer} {entries : HashTable} {warning : Option IibinError}
    (hok : quicproIibinDecode ⟨host, registry, .asWritten, true⟩ fuel schemaName buffer =
      .ok (.object entries, warning)) (index : Int) : entries.lookup (.idx index) = none := by
  obtain ⟨-, made, decoded, final, -, hmade, hfold, -, hresult, hlookup, -⟩ :=
    quicproIibinDecode_from hlayered hfound
      (fun _ _ _ _ _ _ _ _ _ => (trivial : (fun _ _ => True) _ _)) hok
  obtain rfl : entries = final := Zval.object.inj hresult
  rw [hlookup, Option.or_eq_none_iff]
  constructor
  · rw [← Option.not_isSome_iff_eq_none, isSome_lookup_foldlM hfold]
    rintro (hsome | ⟨delivery, hdelivery, hkey⟩)
    · cases hsome
    · rw [(hmade delivery hdelivery).key_eq, str_of_entryKey] at hkey
      cases hkey
  · rw [fallback, List.findSome?_eq_none_iff]
    intro field _
    rw [FieldDef.fallback, if_neg]
    rintro ⟨hkey, -⟩
    cases hkey

variable (host) in
/-- An array files a numeric name as an integer, an object does not. -/
theorem numeric_parts (hlayered : registry.Layered) (hfound : registry.Has schemaName schema)
    (hintegral : schema.IsIntegral) (hsuppliable : Suppliable false schema.orderedFields)
    {field : FieldDef} (hfield : field ∈ schema.orderedFields) (hreadable : field.tag ≠ 0)
    (hsingular : field.flags.repeated = false)
    (hnumeric : handleNumericStr field.nameInPhp ≠ none) :
    ∃ buffer, ¬ Agree
      (intact (quicproIibinDecode ⟨host, registry, .asWritten, false⟩ buffer.bytes.length schemaName
        buffer))
      (intact (quicproIibinDecode ⟨host, registry, .asWritten, true⟩ buffer.bytes.length schemaName
        buffer)) := by
  let wire : WireContext := ⟨host, registry, .asWritten, false⟩
  obtain ⟨buffer, entries, harray, hsome⟩ : ∃ buffer entries,
      quicproIibinDecode wire buffer.bytes.length schemaName buffer =
        .ok (container wire.decodeAsObject entries, none) ∧
      (entries.lookup (field.entryKey wire.decodeAsObject)).isSome :=
    accepts_sample hlayered hfound hsuppliable
      (fun other hother => .inr (layout_of_isIntegral (hintegral other hother))) hfield hreadable
  refine ⟨buffer, fun hagree => ?_⟩
  obtain ⟨index, hindex⟩ := Option.ne_none_iff_exists'.mp hnumeric
  have hkey : field.entryKey wire.decodeAsObject = .idx index := by
    simp [FieldDef.entryKey, hsingular, valueKey, wire, symtableKey, hindex]
  rw [hkey] at hsome
  rw [show quicproIibinDecode ⟨host, registry, .asWritten, false⟩ buffer.bytes.length schemaName
    buffer = .ok (.array entries, none) from harray] at hagree
  rcases hobject : quicproIibinDecode ⟨host, registry, .asWritten, true⟩ buffer.bytes.length
    schemaName buffer with fault | ⟨object, warning⟩
  · rw [hobject] at hagree
    exact hagree
  · rw [hobject] at hagree
    obtain ⟨⟨same, hsame, rfl⟩, -⟩ := hagree
    obtain rfl := Zval.array.inj hsame
    rw [lookup_idx_object hlayered hfound hobject] at hsome
    cases hsome

variable (host) in
theorem accepts_object (hlayered : registry.Layered) (hfound : registry.Has schemaName schema)
    (hintegral : schema.IsIntegral) (hsuppliable : Suppliable true schema.orderedFields) :
    ∃ buffer entries, quicproIibinDecode ⟨host, registry, .asWritten, true⟩ buffer.bytes.length
      schemaName buffer = .ok (.object entries, none) := by
  let wire : WireContext := ⟨host, registry, .asWritten, true⟩
  obtain ⟨buffer, entries, hdecode⟩ : ∃ buffer entries,
      quicproIibinDecode wire buffer.bytes.length schemaName buffer =
        .ok (container wire.decodeAsObject entries, none) :=
    accepts_of_suppliable hlayered hfound hsuppliable
      fun field hfield => .inr (layout_of_isIntegral (hintegral field hfield))
  exact ⟨buffer, entries, hdecode⟩

end

/-- **Array and object decoding.** The two modes agree on every byte string exactly if all
    readable fields are singular, and no byte string is accepted in either of the modes or none
    of these fields has a numeric name. -/
theorem modes_agree_iff (host : Host) (registry : Registry)
    (hreach : Reachable (fun _ => True) registry) (schemaName : Bytes) (schema : CompiledSchema)
    (hfound : getCompiledIibinSchemaInternal registry schemaName = some schema)
    (hintegral : ∀ field ∈ schema.orderedFields, field.type.isIntegral = true) :
    (∀ (buffer : Buffer) (fuel : Nat), buffer.bytes.length ≤ fuel →
      Agree (quicproIibinDecodeTracked ⟨host, registry, .asWritten, false⟩ fuel schemaName buffer)
        (quicproIibinDecodeTracked ⟨host, registry, .asWritten, true⟩ fuel schemaName buffer)) ↔
    (∀ field ∈ schema.orderedFields, field.tag ≠ 0 → field.flags.repeated = false) ∧
      ((¬ Suppliable false schema.orderedFields ∧ ¬ Suppliable true schema.orderedFields) ∨
        ∀ field ∈ schema.orderedFields, field.tag ≠ 0 →
          handleNumericStr field.nameInPhp = none) := by
  have hlayered := hreach.layered
  have hformed := hlayered.wellFormed hfound
  constructor
  · intro hagree
    have hsingular : ∀ field ∈ schema.orderedFields, field.tag ≠ 0 →
        field.flags.repeated = false := by
      intro field hfield hreadable
      refine Bool.eq_false_of_not_eq_true fun hrepeated => ?_
      obtain ⟨buffer, hbuffer⟩ := exists_twice field
      have hboth := hagree buffer _ (Nat.le_refl _)
      have hused : quicproIibinDecodeTracked ⟨host, registry, .asWritten, false⟩
          buffer.bytes.length schemaName buffer = .error .useAfterFree :=
        sample_twice_used rfl hlayered hfound hfield hreadable
          (.inr (layout_of_isIntegral (hintegral field hfield)))
          (by simp [FieldDef.isGivenBack, hrepeated]) hbuffer (Nat.le_refl _)
      rw [hused] at hboth
      exact hboth
    refine ⟨hsingular, ?_⟩
    simp only [decodeTracked_singular hformed hfound hintegral hsingular] at hagree
    by_cases hsuppliable : Suppliable false schema.orderedFields
    · refine .inr fun field hfield hreadable => ?_
      by_contra hnumeric
      obtain ⟨buffer, hnot⟩ := numeric_parts host hlayered hfound hintegral hsuppliable hfield
        hreadable (hsingular field hfield hreadable) hnumeric
      exact hnot (hagree buffer _ (Nat.le_refl _))
    · refine .inl ⟨hsuppliable, fun hobjects => ?_⟩
      obtain ⟨buffer, entries, hobject⟩ := accepts_object host hlayered hfound hintegral hobjects
      have hboth := hagree buffer _ (Nat.le_refl _)
      rcases harray : quicproIibinDecode ⟨host, registry, .asWritten, false⟩ buffer.bytes.length
        schemaName buffer with fault | accepted
      · rw [harray, hobject] at hboth
        exact hboth
      · exact hsuppliable (suppliable_of_accepts hlayered hfound harray)
  · rintro ⟨hsingular, hfree⟩ buffer fuel -
    simp only [decodeTracked_singular hformed hfound hintegral hsingular]
    rcases hfree with ⟨harrays, hobjects⟩ | htextual
    · rcases harray : quicproIibinDecode ⟨host, registry, .asWritten, false⟩ fuel schemaName buffer
        with fault | accepted
      · rcases hobject : quicproIibinDecode ⟨host, registry, .asWritten, true⟩ fuel schemaName
          buffer with fault' | accepted
        · trivial
        · exact absurd (suppliable_of_accepts hlayered hfound hobject) hobjects
      · exact absurd (suppliable_of_accepts hlayered hfound harray) harrays
    · exact agree_of_modeFree hformed hfound hintegral ⟨hsingular, htextual⟩ fuel buffer

theorem modes_agree_iff_int32 :
    (getCompiledIibinSchemaInternal (oneSchema (fieldOptions 1 "int32" [])) (ascii "P")).isSome ∧
    ∀ (buffer : Buffer) (fuel : Nat), buffer.bytes.length ≤ fuel →
      Agree
        (quicproIibinDecodeTracked
          ⟨default, oneSchema (fieldOptions 1 "int32" []), .asWritten, false⟩ fuel (ascii "P")
          buffer)
        (quicproIibinDecodeTracked
          ⟨default, oneSchema (fieldOptions 1 "int32" []), .asWritten, true⟩ fuel (ascii "P")
          buffer) := by
  refine ⟨rfl, (modes_agree_iff default _ ?_ (ascii "P") _ rfl (by decide)).mpr ?_⟩
  · exact (oneSchema_reachable _).weaken fun _ _ => trivial
  · exact ⟨by decide, .inr (by decide)⟩

/-- The numbers 1 and 2 in a packed block: a list in the array, nothing to put it in the
    object. -/
theorem packed_not_object :
    quicproIibinDecodeTracked
        ⟨default, oneSchema (fieldOptions 1 "repeated_int32" []), .asWritten, false⟩ 4 (ascii "P")
        (Buffer.place 4096 [0x0a, 0x02, 0x01, 0x02] (by decide) (by decide)) =
      .ok (.live (.array [(.str (ascii "x"), .array (listTable [.long 1, .long 2]))]), none) ∧
    quicproIibinDecodeTracked
        ⟨default, oneSchema (fieldOptions 1 "repeated_int32" []), .asWritten, true⟩ 4 (ascii "P")
        (Buffer.place 4096 [0x0a, 0x02, 0x01, 0x02] (by decide) (by decide)) =
      .error (.fault .confusion) :=
  ⟨rfl, rfl⟩

end QuicproAsync.Iibin

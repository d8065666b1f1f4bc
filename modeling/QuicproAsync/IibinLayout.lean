import QuicproAsync.IibinRoundTrip

/-!
# Packed and unpacked lists

A list of a repeated field is written either item by item, with the strict checks and the
lookup of enum names, or as one packed block, where the conversions of PHP stand in for
both. What the decoder makes of the two is different in any case: the first kind of list does
not outlive the call that decodes it to an array, and the second kind is not decoded to an
object.
-/

namespace QuicproAsync.Iibin

open Php Fallible

/-- The same field, declared with `packed` off. -/
def FieldDef.unpacked (field : FieldDef) : FieldDef :=
  { field with
    flags := { field.flags with packed := false }
    wireType := calculateFieldWireType field.type false }

/-- Both layouts take the message or neither does, and if they do, the two buffers are
    decoded to the same list under the name of the field. -/
def LayoutsAgree (host : Host) (registry : Registry) (packedName unpackedName : Bytes)
    (data : Zval) (packedBuffer unpackedBuffer : Buffer) (fuel : Nat) (asObject : Bool)
    (name : Bytes) : Prop :=
  ((∃ bytes, quicproIibinEncode host registry packedName data = .ok bytes) ↔
    ∃ bytes, quicproIibinEncode host registry unpackedName data = .ok bytes) ∧
  ((∃ bytes, quicproIibinEncode host registry packedName data = .ok bytes) → ∃ items,
    quicproIibinDecodeTracked ⟨host, registry, .asWritten, asObject⟩ fuel packedName packedBuffer =
        .ok (.live (container asObject [(.str name, .array (listTable items))]), none) ∧
      quicproIibinDecodeTracked ⟨host, registry, .asWritten, asObject⟩ fuel unpackedName
          unpackedBuffer =
        .ok (.live (container asObject [(.str name, .array (listTable items))]), none))

/-- The packed layout takes every list, the other one what passes the strict checks. -/
theorem quicproIibinEncode_list (host : Host) {registry : Registry} {ok : Bytes → Prop}
    (hreach : Reachable ok registry) {schemaName : Bytes} {schema : CompiledSchema}
    (hfound : registry.Has schemaName schema)
    {field : FieldDef} (hfields : schema.orderedFields = [field])
    (hrepeated : field.flags.repeated = true) (hintegral : field.type.isIntegral = true)
    {data : Zval} {table : HashTable} (hmessage : isMessage data = true)
    (hvalue : readMember data field.nameInPhp = some (.array table)) (hne : table ≠ []) :
    (∃ bytes, quicproIibinEncode host registry schemaName data = .ok bytes) ↔
      (field.flags.packed = false → ∀ entry ∈ table, field.Takes registry entry.2) := by
  obtain ⟨depth, haccepted⟩ := quicproIibinEncode_iff host hreach hfound hmessage
  have hempty : table.isEmpty = false := by simpa using hne
  rw [haccepted, Accepted, hfields, List.forall_mem_singleton, hvalue]
  simp only [encodeFieldInternal, Zval.isNullish, hrepeated, hempty, Bool.false_eq_true, if_false,
    if_true]
  cases hpacked : field.flags.packed with
  | true =>
    constructor
    · intro _ hunpacked
      cases hunpacked
    · intro _
      exact ⟨_, rfl⟩
  | false =>
    rw [if_neg Bool.false_ne_true, encodeItems_takes host _ hintegral]
    exact ⟨fun htakes _ => htakes, fun htakes => htakes rfl⟩

/-- **Packed is more than a layout.** For a list to be taken in both layouts each item has to
    pass the strict checks. Under a tag that the keys can carry the two layouts never agree: in
    an array the list that was sent item by item is gone, and the other one cannot be put into
    an object. -/
theorem layouts_never_agree (host : Host) (registry : Registry)
    (hreach : Reachable (fun _ => True) registry) (field : FieldDef)
    (hpacked : field.flags.packed = true) (hintegral : field.type.isIntegral = true)
    (packedName : Bytes) (packedSchema : CompiledSchema)
    (hpackedFound : getCompiledIibinSchemaInternal registry packedName = some packedSchema)
    (hpackedFields : packedSchema.orderedFields = [field])
    (unpackedName : Bytes) (unpackedSchema : CompiledSchema)
    (hunpackedFound : getCompiledIibinSchemaInternal registry unpackedName = some unpackedSchema)
    (hunpackedFields : unpackedSchema.orderedFields = [field.unpacked])
    (data : Zval) (hmessage : isMessage data = true) (table : HashTable)
    (hvalue : readMember data field.nameInPhp = some (.array table)) (hne : table ≠ [])
    (packedBuffer unpackedBuffer : Buffer) (fuel : Nat)
    (hpackedBuffer : ∀ bytes, quicproIibinEncode host registry packedName data = .ok bytes →
      packedBuffer.bytes = bytes ∧ bytes.length ≤ fuel)
    (hunpackedBuffer : ∀ bytes, quicproIibinEncode host registry unpackedName data = .ok bytes →
      unpackedBuffer.bytes = bytes ∧ bytes.length ≤ fuel) (asObject : Bool) :
    (LayoutsAgree host registry packedName unpackedName data packedBuffer unpackedBuffer fuel
        asObject field.nameInPhp → ∀ entry ∈ table, field.Takes registry entry.2) ∧
      (field.SmallTag → ¬ LayoutsAgree host registry packedName unpackedName data packedBuffer
        unpackedBuffer fuel asObject field.nameInPhp) := by
  obtain ⟨hrepeated, hpackable⟩ : field.flags.repeated = true ∧ isPackable field.type = true :=
    ((hreach.layered.wellFormed hpackedFound).fields field (by simp [hpackedFields])).packed hpacked
  have htakes : (∃ bytes, quicproIibinEncode host registry unpackedName data = .ok bytes) ↔
      ∀ entry ∈ table, field.Takes registry entry.2 := by
    rw [quicproIibinEncode_list host hreach hunpackedFound hunpackedFields hrepeated hintegral
      hmessage hvalue hne]
    exact ⟨fun hall => hall rfl, fun hall _ => hall⟩
  obtain ⟨bytes, hok⟩ : ∃ bytes, quicproIibinEncode host registry packedName data = .ok bytes := by
    rw [quicproIibinEncode_list host hreach hpackedFound hpackedFields hrepeated hintegral hmessage
      hvalue hne, hpacked]
    exact Bool.noConfusion
  refine ⟨fun hagree => htakes.mp (hagree.1.mp ⟨bytes, hok⟩), fun htag hagree => ?_⟩
  obtain ⟨bytes', hok'⟩ := hagree.1.mp ⟨bytes, hok⟩
  obtain ⟨items, hpackedLive, hunpackedLive⟩ := hagree.2 ⟨bytes, hok⟩
  cases asObject with
  | true =>
    obtain ⟨hbuffer, hfuel⟩ := hpackedBuffer bytes hok
    have htags : packedSchema.SmallTags := by simpa [CompiledSchema.SmallTags, hpackedFields]
    have hfree := ((values_decodable_iff hreach hpackedFound htags hok hbuffer hfuel true).mp
      ⟨_, quicproIibinDecode_of_live hpackedLive⟩).1
    have hnone := hfree field (by simp [hpackedFields]) (isGiven_table hvalue hne)
    rw [rejection_packed (layout_of_isPackable hpackable) hpacked] at hnone
    cases hnone
  | false =>
    obtain ⟨hbuffer, hfuel⟩ := hunpackedBuffer bytes' hok'
    have htags : unpackedSchema.SmallTags := by
      rw [CompiledSchema.SmallTags, hunpackedFields, List.forall_mem_singleton]
      exact htag
    have hkept := ((decodeTracked_encoded_iff hreach hunpackedFound htags hok' hbuffer hfuel false
      _).mp hunpackedLive).2 rfl
    obtain ⟨earlier, hearlier, hless, -⟩ := hkept field.unpacked (by simp [hunpackedFields])
      hrepeated rfl (isGiven_table hvalue hne)
    rw [hunpackedFields, List.mem_singleton] at hearlier
    rw [hearlier] at hless
    exact absurd hless (Nat.lt_irrefl _)

/-- The field `x` in the two layouts, as the schemas `P` and `U`. -/
def layoutCalls : List Call :=
  [ .defineSchema (ascii "P") (oneField (fieldOptions 1 "repeated_int32" [])),
    .defineSchema (ascii "U") (oneField (fieldOptions 1 "repeated_int32"
      unpackedOption)) ]

def layoutRegistry : Registry := layoutCalls.foldl Call.apply Registry.init

def layoutField : FieldDef :=
  ⟨ascii "x", 1, .int32, ⟨true, false, true, true⟩, none, false, none, none, .undef, 2⟩

def layoutMessage (items : List Zval) : Zval :=
  .array [(.str (ascii "x"), .array (listTable items))]

theorem layouts_disagree_integers :
    layoutField.SmallTag ∧ ¬ LayoutsAgree default layoutRegistry (ascii "P") (ascii "U")
      (layoutMessage [.long 1, .long 2])
      (Buffer.place 4096 [0x0a, 0x02, 0x01, 0x02] (by decide) (by decide))
      (Buffer.place 4096 [0x08, 0x01, 0x08, 0x02] (by decide) (by decide)) 4 false (ascii "x") := by
  have hreach : Reachable NulFree layoutRegistry :=
    reachable_foldl Reachable.init layoutCalls (by decide +kernel)
  refine ⟨by decide, (layouts_never_agree default layoutRegistry (hreach.weaken fun _ _ => trivial)
    layoutField rfl rfl (ascii "P") ⟨ascii "P", [(1, layoutField)], [layoutField]⟩ rfl rfl
    (ascii "U") ⟨ascii "U", [(1, layoutField.unpacked)], [layoutField.unpacked]⟩ rfl rfl
    (layoutMessage [.long 1, .long 2]) rfl _ rfl (List.cons_ne_nil _ _) _ _ 4 ?_ ?_ false).2
    (by decide)⟩
  · intro bytes hok
    cases hok
    exact ⟨rfl, by decide⟩
  · intro bytes hok
    cases hok
    exact ⟨rfl, by decide⟩

/-- A list with a string in it is packed, and rejected in the other layout. -/
theorem string_item_packed :
    (∃ bytes, quicproIibinEncode default layoutRegistry (ascii "P")
        (layoutMessage [.string (ascii "1")]) = .ok bytes) ∧
      ∀ bytes, quicproIibinEncode default layoutRegistry (ascii "U")
        (layoutMessage [.string (ascii "1")]) ≠ .ok bytes := by
  refine ⟨⟨_, rfl⟩, ?_⟩
  intro bytes hok
  cases hok

end QuicproAsync.Iibin

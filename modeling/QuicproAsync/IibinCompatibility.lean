import QuicproAsync.IibinArrival

/-!
# Schemas with fewer fields

A receiver whose schema lacks some of the fields of the sender skips them: the result is
the one it would have got from a sender with its own schema.
-/

namespace QuicproAsync.Iibin

open Php Fallible

/-- The members of the message that the schema has fields for. -/
def restrict (schema : CompiledSchema) (data : Zval) : Zval :=
  let keep : Key × Zval → Bool := fun entry =>
    schema.orderedFields.any fun field => entry.1 = .str field.nameInPhp
  match data with
  | .array entries => .array (entries.filter keep)
  | .object props => .object (props.filter keep)
  | other => other

section

variable {schema : CompiledSchema} {data : Zval}

theorem isMessage_restrict : isMessage (restrict schema data) = isMessage data := by
  cases data <;> rfl

theorem readMember_restrict {field : FieldDef} (hfield : field ∈ schema.orderedFields) :
    readMember (restrict schema data) field.nameInPhp = readMember data field.nameInPhp := by
  have hkeep : ∀ value : Zval, (schema.orderedFields.any fun other =>
      (Key.str field.nameInPhp, value).1 = .str other.nameInPhp) = true :=
    fun _ => List.any_eq_true.mpr ⟨field, hfield, by simp⟩
  cases data with
  | array entries => exact OrderedMap.lookup_filter hkeep entries
  | object props =>
    simp only [restrict, readMember]
    rw [OrderedMap.lookup_filter hkeep]
  | undef | null | bool | long | double | string | resource | reference => rfl

/-- What a field does depends on the message only through the member of its name. -/
theorem arrive_restrict (asObject : Bool) (host : Host) (registry : Registry) {field : FieldDef}
    (hfield : field ∈ schema.orderedFields) (entries : HashTable) :
    arrive asObject host registry (restrict schema data) entries field =
      arrive asObject host registry data entries field := by
  have hitems : arrivingItems host registry (restrict schema data) field =
      arrivingItems host registry data field := by
    rw [arrivingItems, readMember_restrict hfield, arrivingItems]
  unfold arrive
  rw [hitems]

theorem foldlM_arrive_restrict (asObject : Bool) (host : Host) (registry : Registry)
    {fields : List FieldDef} (hfields : ∀ field ∈ fields, field ∈ schema.orderedFields)
    (entries : HashTable) :
    fields.foldlM (arrive asObject host registry (restrict schema data)) entries =
      fields.foldlM (arrive asObject host registry data) entries := by
  induction fields generalizing entries with
  | nil => rfl
  | cons field rest ih =>
    rw [List.foldlM_cons, List.foldlM_cons,
      arrive_restrict asObject host registry (hfields field List.mem_cons_self)]
    congr 1
    funext entries'
    exact ih (fun other hother => hfields other (List.mem_cons_of_mem _ hother)) entries'

end

/-- The fields that a reduced schema knows are the ones that were kept. -/
theorem filter_known {registry : Registry} {full reduced : CompiledSchema}
    (hfull : full.WellFormed registry) (hreduced : reduced.WellFormed registry)
    {keep : FieldDef → Bool} (hkeep : reduced.orderedFields = full.orderedFields.filter keep) :
    (∀ field ∈ full.orderedFields, ∀ found, reduced.fieldsByTag.lookup field.tag = some found →
      found = field) ∧
    (full.orderedFields.filter fun field => (reduced.fieldsByTag.lookup field.tag).isSome) =
      reduced.orderedFields := by
  have hsame : ∀ field ∈ full.orderedFields, ∀ found,
      reduced.fieldsByTag.lookup field.tag = some found → found = field := by
    intro field hfield found hlookup
    obtain ⟨hfound, htag⟩ := (hreduced.byTag field.tag found).mp hlookup
    rw [hkeep] at hfound
    exact hfull.eq_of_tag (List.mem_filter.mp hfound).1 hfield htag
  refine ⟨hsame, ?_⟩
  rw [hkeep]
  refine List.filter_congr fun field hfield => ?_
  rcases hlookup : reduced.fieldsByTag.lookup field.tag with _ | found
  · cases hkept : keep field with
    | false => rfl
    | true =>
      have hmem : field ∈ reduced.orderedFields := by
        rw [hkeep]
        exact List.mem_filter.mpr ⟨hfield, hkept⟩
      rw [(hreduced.byTag field.tag field).mpr ⟨hmem, rfl⟩] at hlookup
      cases hlookup
  · obtain ⟨hfound, -⟩ := (hreduced.byTag field.tag found).mp hlookup
    rw [hsame field hfield found hlookup, hkeep] at hfound
    exact (List.mem_filter.mp hfound).2.symm

/-- **Forward compatibility.** If the fields of one schema are some of the fields of
    another, decoding what was encoded with the larger schema gives the same result,
    success or failure, as encoding with the smaller one the members it knows. -/
theorem forward_compatible (host : Host) (registry : Registry) (hreach : Reachable NulFree registry)
    (fullName reducedName : Bytes) (full reduced : CompiledSchema)
    (hfull : getCompiledIibinSchemaInternal registry fullName = some full)
    (hreduced : getCompiledIibinSchemaInternal registry reducedName = some reduced)
    (keep : FieldDef → Bool) (hkeep : reduced.orderedFields = full.orderedFields.filter keep)
    (htags : ∀ field ∈ full.orderedFields, field.SmallTag) (data : Zval) (bytes : Bytes)
    (hok : quicproIibinEncode host registry fullName data = .ok bytes) :
    ∃ bytes', quicproIibinEncode host registry reducedName (restrict reduced data) = .ok bytes' ∧
      ∀ (asObject : Bool) (buffer buffer' : Buffer) (fuel fuel' : Nat), buffer.bytes = bytes →
        buffer'.bytes = bytes' → bytes.length ≤ fuel → bytes'.length ≤ fuel' →
          quicproIibinDecode ⟨host, registry, .asWritten, asObject⟩ fuel reducedName buffer =
            quicproIibinDecode ⟨host, registry, .asWritten, asObject⟩ fuel' reducedName
              buffer' := by
  have hformed := hreach.layered.wellFormed hfull
  have hformed' := hreach.layered.wellFormed hreduced
  have hsubset : ∀ field ∈ reduced.orderedFields, field ∈ full.orderedFields := by
    intro field hfield
    rw [hkeep] at hfield
    exact (List.mem_filter.mp hfield).1
  obtain ⟨hsame, hknown⟩ := filter_known hformed hformed' hkeep
  obtain ⟨depth, hdepth, hmessage, hfields⟩ := quicproIibinEncode_ok hfull hok
  have haccepted := encodeFields_ok.mp ⟨bytes, hfields⟩
  -- the smaller schema accepts its part of the message
  obtain ⟨bytes', hbytes'⟩ : ∃ bytes', encodeFields host registry
      (encodeMessageInternal host registry depth) (restrict reduced data) reduced.orderedFields =
        .ok bytes' := by
    rw [encodeFields_ok]
    intro field hfield
    rw [readMember_restrict hfield]
    exact haccepted field (hsubset field hfield)
  have hok' : quicproIibinEncode host registry reducedName (restrict reduced data) =
      .ok bytes' := by
    rw [quicproIibinEncode_eq hreduced hdepth (isMessage_restrict.trans hmessage), hbytes']
  refine ⟨bytes', hok', ?_⟩
  intro asObject buffer buffer' fuel fuel' hbuffer hbuffer' hfuel hfuel'
  rw [quicproIibinDecode_encoded hreach hfull htags hok hreduced hsame hbuffer hfuel asObject,
    hknown, quicproIibinDecode_own hreach hreduced
      (fun field hfield => htags field (hsubset field hfield))
      hok' hbuffer' hfuel' asObject,
    foldlM_arrive_restrict asObject host registry (fun _ hfield => hfield)]

/-- A schema, and the schema with its string and its packed list deleted. -/
def versionCalls : List Call :=
  [ .defineSchema (ascii "New")
      ⟨[(.str (ascii "id"), fieldOptions 2 "int32" []),
        (.str (ascii "note"), fieldOptions 1 "string" []),
        (.str (ascii "marks"), fieldOptions 3 "repeated_int32" [])], by decide, by decide⟩,
    .defineSchema (ascii "Old")
      ⟨[(.str (ascii "id"), fieldOptions 2 "int32" [])], by decide, by decide⟩ ]

def versionRegistry : Registry := versionCalls.foldl Call.apply Registry.init

def versionMessage : Zval :=
  .array [(.str (ascii "id"), .long 7), (.str (ascii "note"), .string (ascii "hi")),
    (.str (ascii "marks"), .array (listTable [.long 1, .long 2]))]

theorem forward_compatible_version :
    ∃ full reduced : CompiledSchema,
      getCompiledIibinSchemaInternal versionRegistry (ascii "New") = some full ∧
      getCompiledIibinSchemaInternal versionRegistry (ascii "Old") = some reduced ∧
      full.orderedFields.length = 3 ∧ reduced.orderedFields.length = 1 ∧
      ∃ bytes', quicproIibinEncode default versionRegistry (ascii "Old")
          (restrict reduced versionMessage) = .ok bytes' ∧
        ∀ (asObject : Bool) (buffer buffer' : Buffer) (fuel fuel' : Nat),
          buffer.bytes = [0x0a, 0x02, 0x68, 0x69, 0x10, 0x07, 0x1a, 0x02, 0x01, 0x02] →
          buffer'.bytes = bytes' → 10 ≤ fuel → bytes'.length ≤ fuel' →
            quicproIibinDecode ⟨default, versionRegistry, .asWritten, asObject⟩ fuel (ascii "Old")
                buffer =
              quicproIibinDecode ⟨default, versionRegistry, .asWritten, asObject⟩ fuel'
                (ascii "Old") buffer' := by
  have hreach : Reachable NulFree versionRegistry :=
    reachable_foldl Reachable.init versionCalls (by decide +kernel)
  exact ⟨_, _, rfl, rfl, rfl, rfl, forward_compatible default versionRegistry hreach (ascii "New")
    (ascii "Old") _ _ rfl rfl (fun field => field.tag = 2) rfl (by decide) versionMessage _ rfl⟩

end QuicproAsync.Iibin

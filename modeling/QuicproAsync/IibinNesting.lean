import QuicproAsync.IibinAcceptance

/-!
# Required fields and defaults below the top level

`populate_default_values_and_check_required` is called once, on the message that
`quicpro_iibin_decode` returns; `decode_value_to_zval` does not call it for the messages
it decodes on the way. Strings and nested messages are read here with the bound tests
against `buf_end`. Then the outermost message is always complete, and the nested ones
are complete for every byte string exactly if their schemas have nothing to insist on. In an
array the nested messages are not even there: they are given back with the lists and the
strings.
-/

namespace QuicproAsync.Iibin

open Php Fallible ScanLoop

variable {registry : Registry} {asObject : Bool} {outer inner : CompiledSchema × HashTable}
  {name : Bytes} {wire : WireContext}

/-! ### Complete messages -/

/-- `filled` has what the schema insists on, given what was `decoded` from the wire:
    every required field, and for every field with a default that was absent, a default
    declared for its name. (Fields share a name only if the names were cut at a NUL.) -/
structure Filled (schema : CompiledSchema) (decoded filled : HashTable) : Prop where
  required : ∀ field ∈ schema.orderedFields, field.flags.required = true →
    (filled.lookup (.str field.nameInPhp)).isSome
  default : ∀ field ∈ schema.orderedFields, field.hasFallback = true →
    decoded.lookup (.str field.nameInPhp) = none →
    ∃ other ∈ schema.orderedFields, other.nameInPhp = field.nameInPhp ∧
      other.hasFallback = true ∧
      filled.lookup (.str field.nameInPhp) = some other.defaultValueZval

def members : Zval → Option HashTable
  | .array entries => some entries
  | .object props => some props
  | _ => none

@[simp] theorem members_container (asObject : Bool) (entries : HashTable) :
    members (container asObject entries) = some entries := by
  cases asObject <;> rfl

/-- The messages that the entries hold for a message field: one, or the elements of the
    list. -/
def FieldDef.messagesIn (asObject : Bool) (field : FieldDef) (entries : HashTable) :
    List HashTable :=
  let held := entries.lookup (field.entryKey asObject)
  (if field.flags.repeated then listed held else held.toList).filterMap members

/-- The first message, with its schema, holds the second. -/
def Encloses (registry : Registry) (asObject : Bool)
    (outer inner : CompiledSchema × HashTable) : Prop :=
  ∃ field ∈ outer.1.orderedFields, field.type = .message ∧ field.tag ≠ 0 ∧
    getCompiledIibinSchemaInternal registry (field.messageTypeNameIfNested.getD []) =
      some inner.1 ∧
    inner.2 ∈ field.messagesIn asObject outer.2

/-- Every message of the result is complete, at every depth. Below the top level nothing
    is added to what was decoded. -/
def FilledThroughout (registry : Registry) (asObject : Bool) (schema : CompiledSchema)
    (decoded result : Zval) : Prop :=
  ∃ entries filled, decoded = container asObject entries ∧ result = container asObject filled ∧
    Filled schema entries filled ∧
    ∀ inner, Relation.TransGen (Encloses registry asObject) (schema, entries) inner →
      Filled inner.1 inner.2 inner.2

/-- The schema has no required field and no default. -/
def CompiledSchema.Undemanding (schema : CompiledSchema) : Prop :=
  ∀ field ∈ schema.orderedFields,
    field.flags.required = false ∧ field.defaultValueZval.isUndef = true

/-- A message field of `parent` that can be read from the wire has the schema `child`. -/
def Leads (registry : Registry) (parent child : Bytes) : Prop :=
  ∃ schema, getCompiledIibinSchemaInternal registry parent = some schema ∧
    ∃ field ∈ schema.orderedFields, field.type = .message ∧ field.tag ≠ 0 ∧
      field.messageTypeNameIfNested = some child

theorem Leads.refers {parent child : Bytes} (hleads : Leads registry parent child) :
    Refers registry parent child := by
  obtain ⟨schema, hfound, field, hfield, hmessage, -, hname⟩ := hleads
  exact ⟨schema, hfound, field, hfield, hmessage, hname⟩

variable {schema : CompiledSchema}

theorem CompiledSchema.Undemanding.filled (hundemanding : schema.Undemanding)
    (entries : HashTable) : Filled schema entries entries := by
  constructor
  · intro field hfield hrequired
    rw [(hundemanding field hfield).1] at hrequired
    exact absurd hrequired Bool.false_ne_true
  · intro field hfield hfallback
    simp [FieldDef.hasFallback, (hundemanding field hfield).2] at hfallback

/-- Only a schema without demands is content with the empty message. -/
theorem Filled.undemanding (hfilled : Filled schema [] []) :
    schema.Undemanding := by
  intro field hfield
  have hoptional : field.flags.required = false := by
    by_contra hrequired
    simpa using hfilled.required field hfield (by simpa using hrequired)
  refine ⟨hoptional, ?_⟩
  by_contra hdefault
  obtain ⟨_, -, -, -, hlookup⟩ := hfilled.default field hfield
    (by simp [FieldDef.hasFallback, hoptional, hdefault]) rfl
  simp at hlookup

/-- The pass at the end of decoding completes the outermost message. -/
theorem filled_of_lookup {decoded entries : HashTable}
    (hsupplied : Supplied decoded schema.orderedFields) (hlookup : ∀ key, entries.lookup key =
      (decoded.lookup key).or (fallback schema.orderedFields key)) :
    Filled schema decoded entries := by
  constructor
  · intro field hfield hrequired
    obtain ⟨before, after, hsplit⟩ := List.append_of_mem hfield
    have hsome := hsupplied before field after hsplit hrequired
    rw [hlookup]
    simp only [Option.isSome_or, Bool.or_eq_true] at hsome ⊢
    refine hsome.imp_right fun hbefore => ?_
    rw [fallback, hsplit, List.findSome?_append, Option.isSome_or]
    simp only [fallback] at hbefore
    rw [hbefore, Bool.true_or]
  · intro field hfield hfallback hnone
    have hsome : (fallback schema.orderedFields (.str field.nameInPhp)).isSome := by
      rw [fallback, List.findSome?_isSome_iff]
      exact ⟨field, hfield, by rw [field.fallback_self hfallback]; rfl⟩
    obtain ⟨value, hvalue⟩ := Option.isSome_iff_exists.mp hsome
    obtain ⟨other, hother, hhere⟩ := List.exists_of_findSome?_eq_some hvalue
    unfold FieldDef.fallback at hhere
    split at hhere
    · rename_i hboth
      refine ⟨other, hother, (Key.str.inj hboth.1).symm, hboth.2, ?_⟩
      rw [hlookup, hnone, Option.none_or, hvalue]
      exact hhere.symm
    · exact absurd hhere (by simp)

/-- The schemas of enclosed messages are those that the schema leads to. -/
theorem leads_of_encloses (hlayered : registry.Layered)
    (hencloses : Encloses registry asObject outer inner) (hfound : registry.Has name outer.1) :
    ∃ child, Leads registry name child ∧
      registry.Has child inner.1 := by
  obtain ⟨field, hfield, hmessage, hreadable, hnested, -⟩ := hencloses
  obtain ⟨child, -, hchild, -, -⟩ :=
    ((hlayered.wellFormed hfound).fields field hfield).nested hmessage
  rw [hchild] at hnested
  exact ⟨child, ⟨outer.1, hfound, field, hfield, hmessage, hreadable, hchild⟩, hnested⟩

theorem leads_of_transGen (hlayered : registry.Layered)
    (hencloses : Relation.TransGen (Encloses registry asObject) outer inner)
    (hfound : registry.Has name outer.1) :
    ∃ child, Relation.TransGen (Leads registry) name child ∧
      registry.Has child inner.1 := by
  induction hencloses with
  | single hstep =>
    obtain ⟨child, hleads, hchild⟩ := leads_of_encloses hlayered hstep hfound
    exact ⟨child, .single hleads, hchild⟩
  | tail _ hstep ih =>
    obtain ⟨middle, hpath, hmiddle⟩ := ih
    obtain ⟨child, hleads, hchild⟩ := leads_of_encloses hlayered hstep hmiddle
    exact ⟨child, hpath.tail hleads, hchild⟩

/-! ### A message inside messages -/

/-- Where one message was delivered, the entries hold it. -/
theorem mem_messagesIn {field : FieldDef} {entries held : HashTable}
    (hlookup : entries.lookup (field.entryKey asObject) =
      some ((field.delivery (container asObject held)).change none)) :
    held ∈ field.messagesIn asObject entries := by
  unfold FieldDef.messagesIn
  rw [hlookup]
  unfold FieldDef.delivery
  split <;> simp [Delivery.change, listed]

section

/-- A nested message behind its key is delivered. -/
theorem message_runs (hreading : wire.reading = .againstBufEnd) (hlayered : wire.registry.Layered)
    {schema : CompiledSchema} (hfound : wire.registry.Has name schema) {field : FieldDef}
    (hfield : field ∈ schema.orderedFields) (hmessage : field.type = .message)
    (hreadable : field.tag ≠ 0) {child : Bytes}
    (hchild : field.messageTypeNameIfNested = some child) {nested : CompiledSchema}
    (hnested : wire.registry.Has child nested) {content : Bytes}
    (hlength : content.length < 2 ^ 64) {held : HashTable} {depth : Nat}
    (hcontent : Wire.message wire depth nested content wire.emptyResult =
      .ok (container wire.decodeAsObject held)) :
    Runs .overrun (Wire.field wire (Wire.message wire depth) schema)
      (container wire.decodeAsObject)
      (encodeVarint (wireKey field.tag field.wireType) ++ lengthPrefixed content)
      fun entries => Wire.lift ([field.delivery (container wire.decodeAsObject held)].foldlM
        (Delivery.apply wire.decodeAsObject) entries) := by
  have hformed := hlayered.wellFormed hfound
  have htyped := hformed.fields field hfield
  have hunpacked : field.flags.packed = false := by
    by_contra hpacked
    have hpackable := (htyped.packed (by simpa using hpacked)).2
    rw [hmessage] at hpackable
    exact absurd hpackable (by decide)
  rw [← deliveries_single]
  refine item_runs wire _ ((hformed.byTag field.tag field).mpr ⟨hfield, rfl⟩) hreadable ?_ ?_ ?_
  · rw [htyped.wire]
    exact calculateFieldWireType_lt htyped.known _
  · simp [hunpacked]
  · intro rest
    rw [Wire.value, if_neg (by simp)]
    simp only [hmessage, Wire.layout, block_lengthPrefixed _ hlength, bind, Except.bind,
      Wire.delimitedValue, hreading, if_true, hchild, Option.getD_some, hnested, hcontent]

/-- For every schema on the way, some bytes that hold nothing but an empty message of the
    schema at its end. -/
theorem exists_content (hreading : wire.reading = .againstBufEnd)
    (hlayered : wire.registry.Layered) (hsize : wire.registry.schemas.length < 2 ^ 32)
    {last : Bytes} (hpath : Relation.ReflTransGen (Leads wire.registry) name last)
    {inner : CompiledSchema} (hinner : wire.registry.Has last inner) :
    ∀ schema, wire.registry.Has name schema →
      ∃ content held, content.length ≤ 20 * wire.registry.position name ∧
        (∀ depth, wire.registry.position name < depth →
          Wire.message wire depth schema content wire.emptyResult =
            .ok (container wire.decodeAsObject held)) ∧
        Relation.ReflTransGen (Encloses wire.registry wire.decodeAsObject) (schema, held)
          (inner, []) := by
  induction hpath using Relation.ReflTransGen.head_induction_on with
  | refl =>
    intro schema hfound
    obtain rfl : inner = schema := Option.some.inj (hinner.symm.trans hfound)
    refine ⟨[], [], Nat.zero_le _, ?_, .refl⟩
    intro depth hdepth
    obtain ⟨below, rfl⟩ := Nat.exists_eq_add_one.mpr (Nat.zero_lt_of_lt hdepth)
    exact drainAll_nil _
  | head hleads _ ih =>
    intro schema hfound
    have hlower := hleads.refers.position_lt hlayered
    have hupper := position_lt_length hlayered hfound
    obtain ⟨parent, hparent, field, hfield, hmessage, hreadable, hchild⟩ := hleads
    obtain rfl : parent = schema := Option.some.inj (hparent.symm.trans hfound)
    obtain ⟨child, nested, hname, -, hnested⟩ :=
      ((hlayered.wellFormed hfound).fields field hfield).nested hmessage
    obtain rfl := Option.some.inj (hname.symm.trans hchild)
    obtain ⟨content, held, hlength, hcontent, hbelow⟩ := ih nested hnested
    have hshort : content.length < 2 ^ 64 := by omega
    let delivery := field.delivery (container wire.decodeAsObject held)
    refine ⟨encodeVarint (wireKey field.tag field.wireType) ++ lengthPrefixed content,
      OrderedMap.replay [delivery.entry wire.decodeAsObject] [], ?_, ?_, ?_⟩
    · have hkey := encodeVarint_length_le (wireKey field.tag field.wireType)
      have hprefix := encodeVarint_length_le (BitVec.ofNat 64 content.length)
      simp only [lengthPrefixed, List.length_append]
      omega
    · intro depth hdepth
      obtain ⟨below, rfl⟩ := Nat.exists_eq_add_one.mpr (Nat.zero_lt_of_lt hdepth)
      have hcompatible : Compatible wire.decodeAsObject [delivery] [] := by
        refine ⟨fun _ _ _ => IsListed.none, fun first hfirst second hsecond _ => ?_⟩
        rw [List.mem_singleton.mp hfirst, List.mem_singleton.mp hsecond]
      rw [Wire.message, emptyResult_eq, (message_runs hreading hlayered hfound hfield hmessage
        hreadable hchild hnested hshort (hcontent below (by omega))).drainAll_eq,
        foldlM_apply_eq hcompatible]
      rfl
    · refine .head ⟨field, hfield, hmessage, hreadable, ?_, mem_messagesIn ?_⟩ hbelow
      · rw [hchild]
        exact hnested
      · have hkey := field.delivery_key wire.decodeAsObject (container wire.decodeAsObject held)
        rw [OrderedMap.lookup_replay]
        simp [Delivery.entry, delivery, hkey]

end

/-! ### Every depth -/

/-- A schema that is led to and insists on something: some accepted byte string holds an
    empty message of it. -/
theorem exists_unfilled (hreading : wire.reading = .againstBufEnd)
    (hlayered : wire.registry.Layered) (hsize : wire.registry.schemas.length < 2 ^ 32)
    {schemaName : Bytes} (hfound : wire.registry.Has schemaName schema)
    (hfields : schema.orderedFields.length < 2 ^ 32) {fuel₀ : Nat} {buffer₀ : Buffer}
    {accepted : Zval × Option IibinError}
    (haccepts : quicproIibinDecode wire fuel₀ schemaName buffer₀ = .ok accepted)
    (hpath : Relation.TransGen (Leads wire.registry) schemaName name) {nested : CompiledSchema}
    (hnested : wire.registry.Has name nested) :
    ∃ fuel buffer decoded entries,
      decodeMessageInternal ⟨wire, buffer.memory, fuel⟩ wire.registry.schemas.length buffer.base
        buffer.stop schema wire.emptyResult =
          .ok (buffer.stop, container wire.decodeAsObject decoded) ∧
      quicproIibinDecode wire fuel schemaName buffer =
        .ok (container wire.decodeAsObject entries, none) ∧
      Relation.TransGen (Encloses wire.registry wire.decodeAsObject) (schema, decoded)
        (nested, []) := by
  obtain ⟨child, hleads, hrest⟩ := Relation.TransGen.head'_iff.mp hpath
  have hlower := hleads.refers.position_lt hlayered
  have hupper := position_lt_length hlayered hfound
  obtain ⟨parent, hparent, field, hfield, hmessage, hreadable, hchild⟩ := hleads
  obtain rfl : parent = schema := Option.some.inj (hparent.symm.trans hfound)
  obtain ⟨_, inner, hname, -, hinner⟩ :=
    ((hlayered.wellFormed hfound).fields field hfield).nested hmessage
  obtain rfl := Option.some.inj (hname.symm.trans hchild)
  obtain ⟨content, held, hlength, hcontent, hbelow⟩ :=
    exists_content hreading hlayered hsize hrest hnested inner hinner
  have hcompanions := companions_length_le wire.decodeAsObject parent.orderedFields field
  have hkey := encodeVarint_length_le (wireKey field.tag field.wireType)
  have hprefix := encodeVarint_length_le (BitVec.ofNat 64 content.length)
  have hshort : ((companions wire.decodeAsObject parent.orderedFields field).flatMap
      FieldDef.sampleBytes ++ (encodeVarint (wireKey field.tag field.wireType) ++
        lengthPrefixed content)).length < 2 ^ 63 := by
    simp only [lengthPrefixed, List.length_append]
    omega
  obtain ⟨buffer, hbytes⟩ := exists_buffer hshort
  obtain ⟨decoded, entries, ⟨hread, hdecode, -, -⟩, hlookup⟩ := accepts_target hlayered hfound
    (suppliable_of_accepts hlayered hfound haccepts) (fun _ _ => .inl hreading)
    (field.delivery_key wire.decodeAsObject (container wire.decodeAsObject held))
    (fun depth hdepth => message_runs hreading hlayered hfound hfield hmessage hreadable hchild
      hinner (by omega) (hcontent depth (by omega)))
    hbytes (Nat.le_refl _)
  refine ⟨_, buffer, decoded, entries, hread, hdecode, .head' ?_ hbelow⟩
  exact ⟨field, hfield, hmessage, hreadable, by rwa [hchild], mem_messagesIn hlookup⟩

/-- The values that are decoded are complete at every depth exactly if no schema below the
    outermost one has anything to insist on. -/
theorem filled_values_iff (hreading : wire.reading = .againstBufEnd)
    (hlayered : wire.registry.Layered) (hsize : wire.registry.schemas.length < 2 ^ 32)
    {schemaName : Bytes} (hfound : wire.registry.Has schemaName schema)
    (hfields : schema.orderedFields.length < 2 ^ 32) (haccepts : ∃ fuel buffer accepted,
      quicproIibinDecode wire fuel schemaName buffer = .ok accepted) :
    (∀ fuel buffer ptr decoded result warning,
      decodeMessageInternal ⟨wire, buffer.memory, fuel⟩ wire.registry.schemas.length buffer.base
        buffer.stop schema wire.emptyResult = .ok (ptr, decoded) →
      quicproIibinDecode wire fuel schemaName buffer = .ok (result, warning) →
      FilledThroughout wire.registry wire.decodeAsObject schema decoded result) ↔
    ∀ name nested, Relation.TransGen (Leads wire.registry) schemaName name →
      wire.registry.Has name nested → nested.Undemanding := by
  constructor
  · intro hfilled name nested hpath hnested
    obtain ⟨fuel₀, buffer₀, accepted, haccepts⟩ := haccepts
    obtain ⟨fuel, buffer, decoded, entries, hread, hdecode, hencloses⟩ :=
      exists_unfilled hreading hlayered hsize hfound hfields haccepts hpath hnested
    obtain ⟨entries', filled, hentries, -, -, hinner⟩ := hfilled _ _ _ _ _ _ hread hdecode
    obtain rfl : decoded = entries' := by
      simpa using congrArg members hentries
    exact (hinner _ hencloses).undemanding
  · intro hundemanding fuel buffer ptr decoded result warning hread hdecode
    obtain ⟨ptr', -, entries, filled, hread', -, -, hsupplied, rfl, hlookup, -⟩ :=
      quicproIibinDecode_from hlayered hfound
        (fun _ _ _ _ _ _ _ _ _ => (trivial : (fun _ _ => True) _ _)) hdecode
    cases hread.symm.trans hread'
    refine ⟨entries, filled, rfl, rfl, filled_of_lookup hsupplied hlookup, ?_⟩
    intro inner hencloses
    obtain ⟨child, hpath, hchild⟩ := leads_of_transGen hlayered hencloses hfound
    exact (hundemanding child inner.1 hpath hchild).filled _

/-- **Required fields and defaults at every depth.** They are there in whatever the decoder
    returns exactly if no schema below the outermost one has any and, for arrays, no field that
    can be read is a list, a string or a message. -/
theorem filled_throughout_iff (host : Host) (registry : Registry) (asObject : Bool)
    (hreach : Reachable (fun _ => True) registry) (hsize : registry.schemas.length < 2 ^ 32)
    (schemaName : Bytes) (schema : CompiledSchema)
    (hfound : getCompiledIibinSchemaInternal registry schemaName = some schema)
    (hfields : schema.orderedFields.length < 2 ^ 32) (haccepts : ∃ fuel buffer accepted,
      quicproIibinDecodeTracked ⟨host, registry, .againstBufEnd, asObject⟩ fuel schemaName buffer =
        .ok accepted) :
    (∀ fuel buffer,
      quicproIibinDecodeTracked ⟨host, registry, .againstBufEnd, asObject⟩ fuel schemaName buffer ≠
        .error .useAfterFree ∧
      ∀ ptr decoded returned warning,
        decodeMessageInternal ⟨⟨host, registry, .againstBufEnd, asObject⟩, buffer.memory, fuel⟩
          registry.schemas.length buffer.base buffer.stop schema
          (WireContext.emptyResult ⟨host, registry, .againstBufEnd, asObject⟩) =
            .ok (ptr, decoded) →
        quicproIibinDecodeTracked ⟨host, registry, .againstBufEnd, asObject⟩ fuel schemaName
          buffer = .ok (returned, warning) →
        ∃ result, returned = .live result ∧
          FilledThroughout registry asObject schema decoded result) ↔
    (asObject = false → ∀ field ∈ schema.orderedFields, field.tag ≠ 0 →
      field.isGivenBack = false) ∧
    ∀ name nested, Relation.TransGen (Leads registry) schemaName name →
      getCompiledIibinSchemaInternal registry name = some nested → nested.Undemanding := by
  let wire : WireContext := ⟨host, registry, .againstBufEnd, asObject⟩
  have hlayered : wire.registry.Layered := hreach.layered
  -- if nothing can be given back, the values are all there is
  have hvalues : (asObject = false → ∀ field ∈ schema.orderedFields, field.tag ≠ 0 →
      field.isGivenBack = false) → ∀ fuel buffer,
        quicproIibinDecodeTracked ⟨host, registry, .againstBufEnd, asObject⟩ fuel schemaName
          buffer = intact (quicproIibinDecode wire fuel schemaName buffer) := by
    intro hplain
    refine quicproIibinDecodeTracked_quiet hfound ?_
    cases asObject with
    | true => exact .inl rfl
    | false =>
      refine .inr fun tag field hlookup hzero => ?_
      obtain ⟨hfield, rfl⟩ := ((hlayered.wellFormed hfound).byTag tag field).mp hlookup
      simpa [FieldDef.isGivenBack] using hplain rfl field hfield hzero
  have haccepted : (asObject = false → ∀ field ∈ schema.orderedFields, field.tag ≠ 0 →
      field.isGivenBack = false) →
      ∃ fuel buffer accepted, quicproIibinDecode wire fuel schemaName buffer = .ok accepted := by
    intro hplain
    obtain ⟨fuel, buffer, accepted, hintact⟩ := haccepts
    rw [hvalues hplain] at hintact
    rcases hdecode : quicproIibinDecode wire fuel schemaName buffer with fault | result
    · rw [hdecode] at hintact
      cases hintact
    · exact ⟨fuel, buffer, result, hdecode⟩
  constructor
  · intro hall
    have hplain : asObject = false → ∀ field ∈ schema.orderedFields, field.tag ≠ 0 →
        field.isGivenBack = false := by
      intro hmode field hfield hreadable
      refine Bool.eq_false_of_not_eq_true fun hgiven => ?_
      obtain ⟨buffer, hbuffer⟩ := exists_twice field
      exact (hall _ buffer).1 (sample_twice_used hmode hlayered hfound hfield hreadable (.inl rfl)
        hgiven hbuffer (Nat.le_refl _))
    refine ⟨hplain, (filled_values_iff rfl hlayered hsize hfound hfields (haccepted hplain)).mp ?_⟩
    intro fuel buffer ptr decoded result warning hread hdecode
    obtain ⟨same, hsame, hfilled⟩ := (hall fuel buffer).2 ptr decoded (.live result) warning hread
      (by rw [hvalues hplain, intact_eq_ok]; exact hdecode)
    cases hsame
    exact hfilled
  · rintro ⟨hplain, hundemanding⟩ fuel buffer
    have hfilled := (filled_values_iff rfl hlayered hsize hfound hfields (haccepted hplain)).mpr
      hundemanding fuel buffer
    rw [hvalues hplain]
    rcases hdecode : quicproIibinDecode wire fuel schemaName buffer with fault | ⟨result, warning⟩
    · exact ⟨by simp [intact], by simp [intact]⟩
    · refine ⟨by simp [intact], ?_⟩
      rintro ptr decoded _ _ hread ⟨⟩
      exact ⟨result, rfl, hfilled ptr decoded result warning hread hdecode⟩

/-- The schema `N` with a field `x` of the given options, and `S` with a field of type `N`. -/
def nestCalls (options : HashTable) : List Call :=
  [ .defineSchema (ascii "N") (oneField (fieldOptions 1 "int32" options)),
    .defineSchema (ascii "S") (oneField (fieldOptions 1 "N" [])) ]

def nestRegistry (options : HashTable) : Registry :=
  (nestCalls options).foldl Call.apply Registry.init

/-- An empty message in the field of `S`. -/
def emptyNested : Buffer := .placed [0x0a, 0x00] (by decide)

theorem filled_throughout_nested :
    ∃ schema decoded result,
      getCompiledIibinSchemaInternal (nestRegistry []) (ascii "S") = some schema ∧
      quicproIibinDecodeTracked ⟨default, nestRegistry [], .againstBufEnd, true⟩ 2 (ascii "S")
        emptyNested = .ok (.live result, none) ∧
      FilledThroughout (nestRegistry []) true schema decoded result := by
  have hreach : Reachable (fun _ => True) (nestRegistry []) :=
    reachable_foldl Reachable.init (nestCalls []) (fun _ _ _ _ => trivial)
  have hchild : ∀ name, Leads (nestRegistry []) (ascii "S") name → name = ascii "N" := by
    rintro name ⟨schema, hfound, field, hfield, -, -, hname⟩
    cases hfound
    rw [List.mem_singleton.mp hfield] at hname
    exact (Option.some.inj hname).symm
  have hleaf : ∀ name, ¬ Leads (nestRegistry []) (ascii "N") name := by
    rintro name ⟨schema, hfound, field, hfield, hmessage, -, -⟩
    cases hfound
    rw [List.mem_singleton.mp hfield] at hmessage
    exact absurd hmessage (by decide)
  have hundemanding : ∀ name nested, Relation.TransGen (Leads (nestRegistry [])) (ascii "S") name →
      getCompiledIibinSchemaInternal (nestRegistry []) name = some nested →
      nested.Undemanding := by
    intro name nested hpath hnested
    obtain ⟨first, hfirst, hrest⟩ := Relation.TransGen.head'_iff.mp hpath
    rw [hchild first hfirst] at hrest
    rcases hrest.cases_head with rfl | ⟨second, hsecond, -⟩
    · cases hnested
      intro field hfield
      rw [List.mem_singleton.mp hfield]
      exact ⟨rfl, rfl⟩
    · exact absurd hsecond (hleaf second)
  obtain ⟨result, hlive, hfilled⟩ := ((filled_throughout_iff default (nestRegistry []) true hreach
    (by decide) (ascii "S") _ rfl (by decide) ⟨2, emptyNested, _, rfl⟩).mpr
    ⟨Bool.noConfusion, hundemanding⟩ 2 emptyNested).2 _ _ _ none rfl rfl
  exact ⟨_, _, result, rfl, congrArg (fun returned => Except.ok (returned, none)) hlive, hfilled⟩

/-- The required field of the nested message is missing, and the result is returned. -/
theorem nested_required_missing :
    ∃ schema decoded result,
      getCompiledIibinSchemaInternal (nestRegistry requiredOption) (ascii "S") = some schema ∧
      decodeMessageInternal ⟨⟨default, nestRegistry requiredOption, .againstBufEnd, true⟩,
        emptyNested.memory, 2⟩ 2 emptyNested.base emptyNested.stop schema (.object []) =
          .ok (emptyNested.stop, decoded) ∧
      quicproIibinDecodeTracked ⟨default, nestRegistry requiredOption, .againstBufEnd, true⟩ 2
        (ascii "S") emptyNested = .ok (.live result, none) ∧
      ¬ FilledThroughout (nestRegistry requiredOption) true schema decoded result := by
  refine ⟨_, _, _, rfl, rfl, rfl, ?_⟩
  rintro ⟨entries, filled, hentries, -, -, hinner⟩
  cases hentries
  have hfilled := hinner (_, []) (.single ⟨_, List.mem_singleton_self _, rfl, by decide, rfl,
    List.mem_singleton_self _⟩)
  exact absurd (hfilled.required _ (List.mem_singleton_self _) rfl) (by decide)

end QuicproAsync.Iibin

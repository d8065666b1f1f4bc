import QuicproAsync.IibinAcceptance

/-!
# Wire types that do not fit

A key carries a wire type, and `decode_value_to_zval` compares it with the one of the
field, but not if the field is packed: the comment there leaves it to the caller, and the
caller only looks for the length-delimited one. A run of `decode_message_internal` that
meets a wire type that does not fit ends in an exception if the field is not packed, at any
depth of nesting; the value of a packed field is read as if the wire type fitted.
-/

namespace QuicproAsync.Iibin

open Php Fallible ScanLoop

variable {memory : Memory} {bufEnd ptr : Nat} {wire : WireContext} {schema : CompiledSchema}
  {field : FieldDef} {wireType : BitVec 32}

/-! ### Larger budgets -/

section

variable {fuel more : Nat} {nested nested' : MessageDecoder}
  (hnested : ∀ ptr bufEnd schema returnZval, Extends .fuel (nested ptr bufEnd schema returnZval)
    (nested' ptr bufEnd schema returnZval))

include hnested

theorem decodeMessageValue_extends (ptr bufEnd : Nat) (field : FieldDef) :
    Extends .fuel (decodeMessageValue ⟨wire, memory, fuel⟩ nested ptr bufEnd field)
      (decodeMessageValue ⟨wire, memory, more⟩ nested' ptr bufEnd field) := by
  have hlimit : lengthLimit ⟨wire, memory, more⟩ bufEnd =
      lengthLimit ⟨wire, memory, fuel⟩ bufEnd := rfl
  unfold decodeMessageValue
  rw [hlimit]
  rcases decodeVarint memory ptr bufEnd with _ | ⟨len, q⟩
  · exact .refl _
  · dsimp only
    by_cases hover : lengthLimit ⟨wire, memory, fuel⟩ bufEnd < ptrAdd q len.toNat
    · rw [if_pos hover, if_pos hover]
      exact .refl _
    · rw [if_neg hover, if_neg hover]
      rcases getCompiledIibinSchemaInternal wire.registry _ with _ | schema
      · exact .refl _
      · exact (hnested _ _ _ _).bind fun _ => .refl _

theorem decodeValueToZval_extends (ptr bufEnd : Nat) (field : FieldDef) (wireType : BitVec 32) :
    Extends .fuel (decodeValueToZval ⟨wire, memory, fuel⟩ nested ptr bufEnd field wireType)
      (decodeValueToZval ⟨wire, memory, more⟩ nested' ptr bufEnd field wireType) := by
  unfold decodeValueToZval
  by_cases hmismatch : wireType ≠ field.wireType ∧ field.flags.packed = false
  · rw [if_pos hmismatch, if_pos hmismatch]
    exact .refl _
  · rw [if_neg hmismatch, if_neg hmismatch]
    cases field.type
    case message => exact decodeMessageValue_extends hnested ptr bufEnd field
    all_goals exact .refl _

variable (hmore : fuel ≤ more)

include hmore

theorem decodePackedBlock_extends (field : FieldDef) (ptr bufEnd : Nat) (returnZval : Zval) :
    Extends .fuel (decodePackedBlock ⟨wire, memory, fuel⟩ nested field ptr bufEnd returnZval)
      (decodePackedBlock ⟨wire, memory, more⟩ nested' field ptr bufEnd returnZval) := by
  unfold decodePackedBlock
  rcases decodeVarint memory ptr bufEnd with _ | ⟨len, q⟩
  · exact .refl _
  · dsimp only
    by_cases hover : bufEnd < ptrAdd q len.toNat
    · rw [if_pos hover, if_pos hover]
      exact .refl _
    · rw [if_neg hover, if_neg hover]
      refine (Extends.refl _).bind fun entries => ?_
      refine (whileBelow_extends (fun p sub => ?_) hmore _ _).bind fun _ => .refl _
      exact (decodeValueToZval_extends hnested p _ field _).bind fun _ => .refl _

theorem decodeField_extends (schema : CompiledSchema) (bufEnd ptr : Nat) (returnZval : Zval) :
    Extends .fuel (decodeField ⟨wire, memory, fuel⟩ nested schema bufEnd ptr returnZval)
      (decodeField ⟨wire, memory, more⟩ nested' schema bufEnd ptr returnZval) := by
  unfold decodeField
  rcases decodeVarint memory ptr bufEnd with _ | ⟨key, q⟩
  · exact .refl _
  · dsimp only
    by_cases hzero : keyTag key = 0
    · rw [if_pos hzero, if_pos hzero]
      exact .refl _
    · rw [if_neg hzero, if_neg hzero]
      rcases schema.fieldsByTag.lookup (keyTag key) with _ | field
      · exact .refl _
      · dsimp only
        by_cases hpacked : field.flags.packed = true ∧ keyWireType key = wiretypeLengthDelim
        · rw [if_pos hpacked, if_pos hpacked]
          exact decodePackedBlock_extends hnested hmore field q bufEnd returnZval
        · rw [if_neg hpacked, if_neg hpacked]
          exact (decodeValueToZval_extends hnested q bufEnd field _).bind fun _ => .refl _

end

/-- A run that ends does not depend on the budget it leaves unused. -/
theorem decodeMessageInternal_extends {fuel more : Nat} (hmore : fuel ≤ more)
    (depth ptr bufEnd : Nat) (schema : CompiledSchema) (returnZval : Zval) :
    Extends .fuel (decodeMessageInternal ⟨wire, memory, fuel⟩ depth ptr bufEnd schema returnZval)
      (decodeMessageInternal ⟨wire, memory, more⟩ depth ptr bufEnd schema returnZval) := by
  induction depth generalizing ptr bufEnd schema returnZval with
  | zero => exact .refl _
  | succ depth ih =>
    exact whileBelow_extends (decodeField_extends ih hmore schema bufEnd) hmore ptr returnZval

/-! ### Keys met while decoding -/

/-- Neither the wire type of the element type nor, for a packed field, the length-delimited
    one. -/
def FieldDef.Mismatched (field : FieldDef) (wireType : BitVec 32) : Prop :=
  wireType ≠ calculateFieldWireType field.type false ∧
    ¬ (field.flags.packed = true ∧ wireType = wiretypeLengthDelim)

/-- At `ptr` stands the key of a field of the schema; what it is the key of starts at `next`. -/
structure KeyAt (ctx : DecodeContext) (schema : CompiledSchema) (bufEnd ptr : Nat)
    (field : FieldDef) (wireType : BitVec 32) (next : Nat) : Prop where
  inside : ptr < bufEnd
  read : ∃ key, decodeVarint ctx.memory ptr bufEnd = some (key, next) ∧ keyTag key ≠ 0 ∧
    schema.fieldsByTag.lookup (keyTag key) = some field ∧ keyWireType key = wireType

/-- `decode_value_to_zval` on a message field calls `decode_message_internal` for the bytes
    from `start` to `stop`. -/
structure Opens (ctx : DecodeContext) (field : FieldDef) (wireType : BitVec 32)
    (ptr bufEnd : Nat) (nestedSchema : CompiledSchema) (start stop : Nat) : Prop where
  fits : wireType = field.wireType
  message : field.type = .message
  length : ∃ len, decodeVarint ctx.memory ptr bufEnd = some (len, start) ∧
    ptrAdd start len.toNat ≤ lengthLimit ctx bufEnd ∧ stop = ptrAdd start len.toNat
  found : getCompiledIibinSchemaInternal ctx.registry (field.messageTypeNameIfNested.getD []) =
    some nestedSchema

/-- The run of `decode_message_internal` comes to a key of `field` of `owner` with this wire
    type, in the message itself or in one nested in it. Packed fields are never messages, so
    that a nested message is always the value of a key. -/
inductive Meets (ctx : DecodeContext) (owner : CompiledSchema) (field : FieldDef)
    (wireType : BitVec 32) : Nat → Nat → Nat → CompiledSchema → Zval → Prop
  | here {depth ptr bufEnd p next : Nat} {returnZval filled : Zval}
      (hreach : Reaches bufEnd (decodeField ctx (decodeMessageInternal ctx depth) owner bufEnd)
        (ptr, returnZval) (p, filled))
      (hkey : KeyAt ctx owner bufEnd p field wireType next) :
      Meets ctx owner field wireType (depth + 1) ptr bufEnd owner returnZval
  | nested {depth ptr bufEnd p next start stop : Nat} {schema nestedSchema : CompiledSchema}
      {returnZval filled : Zval} {outer : FieldDef} {outerType : BitVec 32}
      (hreach : Reaches bufEnd (decodeField ctx (decodeMessageInternal ctx depth) schema bufEnd)
        (ptr, returnZval) (p, filled))
      (hkey : KeyAt ctx schema bufEnd p outer outerType next)
      (hunpacked : outer.flags.packed = false)
      (hopens : Opens ctx outer outerType next bufEnd nestedSchema start stop)
      (hmeets : Meets ctx owner field wireType depth start stop nestedSchema ctx.emptyResult) :
      Meets ctx owner field wireType (depth + 1) ptr bufEnd schema returnZval

/-- The decoder fails on the whole buffer: it ends, and not by running out of budget. -/
def Rejects (wire : WireContext) (schema : CompiledSchema) (buffer : Buffer) : Prop :=
  ∃ fault enough, fault ≠ .fuel ∧ ∀ fuel, enough ≤ fuel →
    decodeMessageInternal ⟨wire, buffer.memory, fuel⟩ wire.registry.schemas.length buffer.base
      buffer.stop schema wire.emptyResult = .error fault

/-! ### Unpacked fields -/

section

variable {ctx : DecodeContext} {nested : MessageDecoder}

/-- What a turn does at the key of a field that is not packed. -/
theorem KeyAt.decodeField_eq {next : Nat} (hkey : KeyAt ctx schema bufEnd ptr field wireType next)
    (hunpacked : field.flags.packed = false) (returnZval : Zval) :
    decodeField ctx nested schema bufEnd ptr returnZval = (do
      let (ptr, value) ← decodeValueToZval ctx nested next bufEnd field wireType
      let returnZval ← storeValue field value returnZval
      .ok (ptr, returnZval)) := by
  obtain ⟨key, hread, hzero, hknown, rfl⟩ := hkey.read
  have hsingle : ¬ (field.flags.packed = true ∧ keyWireType key = wiretypeLengthDelim) := by
    simp [hunpacked]
  simp only [decodeField, hread, if_neg hzero, hknown, if_neg hsingle]

theorem Opens.decodeValueToZval_error {start stop : Nat} {nestedSchema : CompiledSchema}
    {fault : Fault} (hopens : Opens ctx field wireType ptr bufEnd nestedSchema start stop)
    (hfault : nested start stop nestedSchema ctx.emptyResult = .error fault) :
    decodeValueToZval ctx nested ptr bufEnd field wireType = .error fault := by
  obtain ⟨len, hread, hwithin, rfl⟩ := hopens.length
  have hfits : ¬ (wireType ≠ field.wireType ∧ field.flags.packed = false) := by
    simp [hopens.fits]
  simp only [decodeValueToZval, if_neg hfits, hopens.message, decodeMessageValue, hread,
    if_neg (Nat.not_lt.mpr hwithin), hopens.found, hfault]
  rfl

end

section

variable {fuel : Nat} {owner : CompiledSchema}

/-- A field that is not packed rejects every wire type but its own, in a run that meets it at
    any depth. -/
theorem Meets.fails {depth : Nat} {returnZval : Zval}
    (hmeets : Meets ⟨wire, memory, fuel⟩ owner field wireType depth ptr bufEnd schema returnZval)
    (hunpacked : field.flags.packed = false) (hwire : wireType ≠ field.wireType) :
    ∃ enough, ∀ more, enough ≤ more →
      decodeMessageInternal ⟨wire, memory, more⟩ depth ptr bufEnd schema returnZval =
        .error (.exception (.wireTypeMismatch (ownerName field) field.nameInPhp field.tag
          field.wireType wireType)) := by
  induction hmeets with
  | @here depth ptr bufEnd p next returnZval filled hreach hkey =>
    obtain ⟨enough, hloop⟩ := hreach.whileBelow_error Fault.fuel hkey.inside
    refine ⟨max fuel enough, fun more hmore => ?_⟩
    have hmismatch : wireType ≠ field.wireType ∧ field.flags.packed = false := ⟨hwire, hunpacked⟩
    refine hloop _ _ more (decodeField_extends (decodeMessageInternal_extends (by omega) depth)
      (by omega) owner bufEnd) ?_ (by omega)
    have hkey' : KeyAt ⟨wire, memory, more⟩ owner bufEnd p field wireType next :=
      ⟨hkey.inside, hkey.read⟩
    rw [hkey'.decodeField_eq hunpacked, decodeValueToZval, if_pos hmismatch]
    rfl
  | @nested depth ptr bufEnd p next start stop schema nestedSchema returnZval filled outer outerType
      hreach hkey hpacked hopens _ ih =>
      obtain ⟨enough, hloop⟩ := hreach.whileBelow_error Fault.fuel hkey.inside
      obtain ⟨below, ih⟩ := ih
      refine ⟨max fuel (max enough below), fun more hmore => ?_⟩
      refine hloop _ _ more (decodeField_extends (decodeMessageInternal_extends (by omega) depth)
        (by omega) schema bufEnd) ?_ (by omega)
      have hkey' : KeyAt ⟨wire, memory, more⟩ schema bufEnd p outer outerType next :=
        ⟨hkey.inside, hkey.read⟩
      have hopens' : Opens ⟨wire, memory, more⟩ outer outerType next bufEnd nestedSchema start
          stop := ⟨hopens.fits, hopens.message, hopens.length, hopens.found⟩
      rw [hkey'.decodeField_eq hpacked, hopens'.decodeValueToZval_error (ih more (by omega))]
      rfl

end

/-! ### Packed fields -/

/-- Only the check looks at the wire type, and it lets every packed field pass. -/
theorem value_packed (ctx : WireContext) (nested : Wire.MessageReader)
    (hpacked : field.flags.packed = true) (wireType other : BitVec 32) (bytes : Bytes) :
    Wire.value ctx nested field wireType bytes = Wire.value ctx nested field other bytes := by
  simp [Wire.value, hpacked]

section

/-- The decoder takes zero for an element of a packed field under every wire type. -/
theorem message_packed_sample (hformed : schema.WellFormed wire.registry)
    (hfield : field ∈ schema.orderedFields) (hreadable : field.tag ≠ 0)
    (hpacked : field.flags.packed = true) (hwire : wireType.toNat < 8)
    (hsingle : wireType ≠ wiretypeLengthDelim) (depth : Nat) :
    ∃ result, Wire.message wire (depth + 1) schema
      (encodeVarint (wireKey field.tag wireType) ++ samplePayload field.type) wire.emptyResult =
        .ok result := by
  have htyped := hformed.fields field hfield
  obtain ⟨-, hpackable⟩ := htyped.packed hpacked
  have hscalar : field.type = .message → ∀ schema, Wire.message wire depth schema []
      wire.emptyResult = .ok wire.emptyResult := by
    intro hmessage
    rw [hmessage] at hpackable
    exact absurd hpackable (by decide)
  have hruns := item_runs wire (Wire.message wire depth)
    ((hformed.byTag field.tag field).mpr ⟨hfield, rfl⟩) hreadable hwire
    (fun hdelimited => hsingle hdelimited.2) fun rest =>
      (value_packed wire _ hpacked wireType field.sampleWireType _).trans
        (value_sample htyped (.inr (layout_of_isPackable hpackable)) hscalar rest)
  have hcompatible : Compatible wire.decodeAsObject
      (deliveries field [wire.sampleItem field.type]) [] := by
    rw [deliveries_single]
    refine ⟨fun _ _ _ => IsListed.none, fun first hfirst second hsecond _ => ?_⟩
    rw [List.mem_singleton.mp hfirst, List.mem_singleton.mp hsecond]
  rw [Wire.message, emptyResult_eq, hruns.drainAll_eq, foldlM_apply_eq hcompatible]
  exact ⟨_, rfl⟩

/-- The first key of a buffer is met. -/
theorem meets_first (hformed : schema.WellFormed wire.registry)
    (hfield : field ∈ schema.orderedFields) (hreadable : field.tag ≠ 0)
    (hwire : wireType.toNat < 8) {buffer : Buffer} {payload : Bytes}
    (hbytes : buffer.bytes = encodeVarint (wireKey field.tag wireType) ++ payload)
    (fuel depth : Nat) (returnZval : Zval) :
    Meets ⟨wire, buffer.memory, fuel⟩ schema field wireType (depth + 1) buffer.base buffer.stop
      schema returnZval := by
  have hhigh := buffer.high
  have hread := decodeVarint_agrees buffer.memory
    (show buffer.stop < 2 ^ 64 by simp only [Buffer.stop]; omega) buffer.base
  rw [buffer.window_eq, hbytes, varint_encodeVarint] at hread
  obtain ⟨next, -, -, -, hread⟩ := hread
  have hinside : buffer.base < buffer.stop := by
    have hpos := List.length_pos_of_ne_nil (encodeVarint_ne_nil (wireKey field.tag wireType))
    simp only [Buffer.stop, hbytes, List.length_append]
    omega
  refine .here .refl ⟨hinside, _, hread, ?_, ?_, keyWireType_wireKey _ hwire⟩
  · rwa [keyTag_wireKey _ hwire]
  · rw [keyTag_wireKey _ hwire]
    exact (hformed.byTag field.tag field).mpr ⟨hfield, rfl⟩

end

/-! ### Rejection -/

/-- No key is taken for one of the tag zero. -/
theorem Meets.readable {ctx : DecodeContext} {owner : CompiledSchema} {depth : Nat}
    {returnZval : Zval}
    (hmeets : Meets ctx owner field wireType depth ptr bufEnd schema returnZval)
    {registry : Registry} (hformed : owner.WellFormed registry) : field.tag ≠ 0 := by
  induction hmeets with
  | here _ hkey =>
    obtain ⟨key, -, hzero, hknown, -⟩ := hkey.read
    obtain ⟨-, htag⟩ := (hformed.byTag _ field).mp hknown
    rwa [htag]
  | nested _ _ _ _ _ ih => exact ih

/-- **Wire type mismatches.** Of a field of a registered schema and a wire type that does not
    fit it: every run that meets the two together fails, exactly if the field is not packed
    (or its tag was cut to zero, so that no key is taken for one of it). -/
theorem mismatch_rejected_iff (registry : Registry) (hreach : Reachable (fun _ => True) registry)
    {ownerName : Bytes} {owner : CompiledSchema}
    (howner : getCompiledIibinSchemaInternal registry ownerName = some owner) {field : FieldDef}
    (hfield : field ∈ owner.orderedFields) {wireType : BitVec 32} (hwire : wireType.toNat < 8)
    (hmismatch : field.Mismatched wireType) :
    (∀ (host : Host) (reading : BoundReading) (asObject : Bool) (schemaName : Bytes)
        (schema : CompiledSchema) (buffer : Buffer) (fuel : Nat),
      getCompiledIibinSchemaInternal registry schemaName = some schema →
      Meets ⟨⟨host, registry, reading, asObject⟩, buffer.memory, fuel⟩ owner field wireType
        registry.schemas.length buffer.base buffer.stop schema
        (WireContext.emptyResult ⟨host, registry, reading, asObject⟩) →
      Rejects ⟨host, registry, reading, asObject⟩ schema buffer) ↔
    field.flags.packed = false ∨ field.tag = 0 := by
  have hlayered := hreach.layered
  have hformed := hlayered.wellFormed howner
  have htyped := hformed.fields field hfield
  constructor
  · intro hrejects
    by_contra hnot
    obtain ⟨hpacked, hreadable⟩ := not_or.mp hnot
    have hpacked : field.flags.packed = true := by simpa using hpacked
    have hsingle : wireType ≠ wiretypeLengthDelim := fun heq => hmismatch.2 ⟨hpacked, heq⟩
    obtain ⟨depth, hdepth⟩ := Nat.exists_eq_add_one.mpr
      (Nat.zero_lt_of_lt (position_lt_length hlayered howner))
    obtain ⟨buffer, hbytes⟩ := exists_buffer
      ((keyed_sample_length_le field wireType).trans_lt (by decide))
    -- the run that fills an object: it reads the key first and takes the value
    have hmeets : Meets ⟨⟨default, registry, .asWritten, true⟩, buffer.memory, 0⟩ owner field
        wireType (depth + 1) buffer.base buffer.stop owner (.object []) :=
      meets_first hformed hfield hreadable hwire hbytes 0 depth (.object [])
    obtain ⟨fault, enough, -, hfails⟩ := hrejects default .asWritten true ownerName owner buffer 0
      howner (hdepth ▸ hmeets)
    obtain ⟨result, hresult⟩ : ∃ result, Wire.message ⟨default, registry, .asWritten, true⟩
        (depth + 1) owner _ (.object []) = .ok result :=
      message_packed_sample hformed hfield hreadable hpacked hwire hsingle depth
    have hagrees := decodeMessageInternal_buffer buffer ⟨default, registry, .asWritten, true⟩
      (Nat.le_max_right enough buffer.bytes.length) (depth + 1) owner (.object [])
    rw [hbytes, hresult, ← hdepth] at hagrees
    have haccepts := hfails _ (Nat.le_max_left enough buffer.bytes.length)
    rw [hbytes] at haccepts
    cases (show _ = _ from hagrees).symm.trans haccepts
  · rintro (hunpacked | hzero) host reading asObject schemaName schema buffer fuel hfound hmeets
    · have hfits : wireType ≠ field.wireType := by
        rw [htyped.wire, hunpacked]
        exact hmismatch.1
      obtain ⟨enough, hfails⟩ := hmeets.fails hunpacked hfits
      exact ⟨_, enough, by simp, hfails⟩
    · exact absurd hzero (hmeets.readable hformed)

/-- A singular `int32` under the wire type of four bytes. -/
theorem mismatch_rejected_int32 :
    ∃ owner, getCompiledIibinSchemaInternal (oneSchema (fieldOptions 1 "int32" [])) (ascii "P") =
        some owner ∧
      Rejects (arrayContext default (oneSchema (fieldOptions 1 "int32" []))) owner
        (.placed [0x0D, 0x01, 0x00, 0x00, 0x00] (by decide)) := by
  have hreach : Reachable (fun _ => True) (oneSchema (fieldOptions 1 "int32" [])) :=
    (oneSchema_reachable _).weaken fun _ _ => trivial
  obtain ⟨owner, field, howner, hfield, hunpacked, htag, htype⟩ : ∃ owner field,
      getCompiledIibinSchemaInternal (oneSchema (fieldOptions 1 "int32" [])) (ascii "P") =
        some owner ∧ field ∈ owner.orderedFields ∧ field.flags.packed = false ∧ field.tag = 1 ∧
      field.type = .int32 := ⟨_, _, rfl, List.mem_cons_self, rfl, rfl, rfl⟩
  have hwire : wiretypeFixed32.toNat < 8 := by decide
  have hmismatch : field.Mismatched wiretypeFixed32 := by
    rw [FieldDef.Mismatched, htype, hunpacked]
    decide
  have hbytes : [0x0D, 0x01, 0x00, 0x00, 0x00] =
      encodeVarint (wireKey field.tag wiretypeFixed32) ++ [0x01, 0x00, 0x00, 0x00] := by
    rw [htag]
    rfl
  refine ⟨owner, howner, (mismatch_rejected_iff _ hreach howner hfield hwire hmismatch).mpr
    (.inl hunpacked) default .asWritten false (ascii "P") owner _ 5 howner ?_⟩
  exact meets_first (hreach.layered.wellFormed howner) hfield (by rw [htag]; decide) hwire hbytes 5
    0 (.array [])

/-- Behind an empty block of a packed `int32` comes a key with the wire type of four bytes;
    the byte behind it is read as an element. -/
theorem mismatch_taken_for_element :
    ∃ owner field, getCompiledIibinSchemaInternal
        (oneSchema (fieldOptions 1 "repeated_int32" [])) (ascii "P") = some owner ∧
      field ∈ owner.orderedFields ∧ field.Mismatched wiretypeFixed32 ∧
      Meets ⟨arrayContext default (oneSchema (fieldOptions 1 "repeated_int32" [])),
        (Buffer.placed [0x0A, 0x00, 0x0D, 0x01] (by decide)).memory, 4⟩ owner field
        wiretypeFixed32 1 4096 4100 owner (.array []) ∧
      decodeMessageInternal ⟨arrayContext default (oneSchema (fieldOptions 1 "repeated_int32" [])),
        (Buffer.placed [0x0A, 0x00, 0x0D, 0x01] (by decide)).memory, 4⟩ 1 4096 4100 owner
        (.array []) = .ok (4100, .array [(.str (ascii "x"), .array [(.idx 0, .long 1)])]) := by
  refine ⟨_, _, rfl, List.mem_cons_self, ⟨by decide, by decide⟩, ?_, rfl⟩
  exact .here (.single ⟨by decide, rfl⟩) ⟨by decide, 0x0D, rfl, by decide, rfl, rfl⟩

end QuicproAsync.Iibin

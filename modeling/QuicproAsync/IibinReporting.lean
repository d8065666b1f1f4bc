import QuicproAsync.IibinAcceptance

/-!
# Failures and exceptions

Both functions note at their `RETURN_FALSE` that the exception has already been thrown.
The encoder keeps that promise. The decoder does not: the low-level readers return 0 on a
truncated value, and `decode_value_to_zval` passes the failure on without a word. The key
of any field that can be read, with nothing behind it, is enough.
-/

namespace QuicproAsync.Iibin

open Php Fallible ScanLoop

/-- The failures that end in `RETURN_FALSE`. -/
def Fault.returnsFalse : Fault → Bool
  | .exception _ => true
  | .silent => true
  | _ => false

/-- If the call returns `FALSE`, an exception has been thrown. -/
def Reported (result : Except Fault α) : Prop :=
  ∀ fault, result = .error fault → fault.returnsFalse = true → ∃ error, fault = .exception error

/-- Every failure on the way throws, or is no return at all. -/
abbrev Loud (result : Except Fault α) : Prop :=
  Ends (fun fault => fault ≠ .silent) (fun _ => True) result

theorem Loud.reported {result : Except Fault α} (hloud : Loud result) : Reported result := by
  intro fault hfault hreturns
  have hne := hloud.error hfault
  cases fault with
  | exception error => exact ⟨error, rfl⟩
  | silent => exact absurd rfl hne
  | confusion | depth | fuel => cases hreturns

theorem Loud.exception (error : IibinError) :
    Loud (.error (.exception error) : Except Fault α) := by
  intro hsilent
  cases hsilent

/-! ### The encoder -/

section

variable {host : Host} {registry : Registry} {encodeMessage : MessageEncoder}

theorem checkValueType_loud (field : FieldDef) (value : Zval) :
    Loud (checkValueType field value) := by
  unfold checkValueType
  repeat' split
  all_goals first | trivial | exact nofun

theorem enumNumber_loud (field : FieldDef) (value : Zval) :
    Loud (enumNumber registry field value) := by
  cases value with
  | long n => trivial
  | string name =>
    unfold enumNumber
    dsimp only
    split
    · exact nofun
    · split
      · exact nofun
      · trivial
  | _ => exact nofun

section

variable (hmessage : ∀ schema data, Loud (encodeMessage schema data))

include hmessage

theorem encodeNested_loud (field : FieldDef) (value : Zval) :
    Loud (encodeNested registry encodeMessage field value) := by
  cases value with
  | array table | object properties =>
    unfold encodeNested
    dsimp only
    split
    · exact Loud.exception _
    · exact (hmessage _ _).bind fun _ _ => trivial
  | _ => exact Loud.exception _

theorem encodeValue_loud (field : FieldDef) (value : Zval) :
    Loud (encodeValue host registry encodeMessage field value) := by
  unfold encodeValue
  cases field.type with
  | enum => exact (enumNumber_loud field value).bind fun _ _ => trivial
  | message => exact encodeNested_loud hmessage field value
  | string | bytes => cases value <;> first | trivial | exact nofun
  | unknown => exact nofun
  | _ => trivial

theorem encodeSingleFieldValue_loud (field : FieldDef) (value : Zval) :
    Loud (encodeSingleFieldValue host registry encodeMessage field value) :=
  (checkValueType_loud field value).bind fun _ _ =>
    (encodeValue_loud hmessage field value).bind fun _ _ => trivial

theorem encodeItems_loud (field : FieldDef) (table : HashTable) :
    Loud (encodeItems host registry encodeMessage field table) := by
  induction table with
  | nil => trivial
  | cons entry rest ih =>
    exact (encodeSingleFieldValue_loud hmessage field entry.2).bind fun _ _ =>
      ih.bind fun _ _ => trivial

theorem encodeFieldInternal_loud (field : FieldDef) (value : Option Zval) :
    Loud (encodeFieldInternal host registry encodeMessage field value) := by
  have hmissing : Loud (if field.flags.required then
      .error (.exception (.requiredMissing field.nameInPhp field.tag)) else .ok ([] : Bytes)) := by
    split
    · exact nofun
    · trivial
  unfold encodeFieldInternal
  rcases value with _ | value
  · exact hmissing
  dsimp only
  split
  · exact hmissing
  · split
    · cases value with
      | array table =>
        dsimp only
        split
        · trivial
        · split
          · trivial
          · exact encodeItems_loud hmessage field table
      | _ => exact nofun
    · exact encodeSingleFieldValue_loud hmessage field value

theorem encodeFields_loud (data : Zval) (fields : List FieldDef) :
    Loud (encodeFields host registry encodeMessage data fields) := by
  induction fields with
  | nil => trivial
  | cons field rest ih =>
    exact (encodeFieldInternal_loud hmessage field _).bind fun _ _ =>
      ih.bind fun _ _ => trivial

end

theorem encodeMessageInternal_loud (depth : Nat) (schema : CompiledSchema) (data : Zval) :
    Loud (encodeMessageInternal host registry depth schema data) := by
  induction depth generalizing schema data with
  | zero => exact nofun
  | succ depth ih => cases data <;> first | exact encodeFields_loud ih _ _ | exact nofun

variable (host registry) in
theorem quicproIibinEncode_reported (schemaName : Bytes) (data : Zval) :
    Reported (quicproIibinEncode host registry schemaName data) := by
  apply Loud.reported
  unfold quicproIibinEncode
  split
  · exact nofun
  · exact encodeMessageInternal_loud _ _ _

end

/-! ### The decoder without readable fields -/

section

variable {ctx : DecodeContext} {decodeMessage : MessageDecoder} {schema : CompiledSchema}

/-- Every key belongs to an unknown field. -/
theorem decodeField_loud (hformed : schema.WellFormed ctx.registry)
    (hunread : ∀ field ∈ schema.orderedFields, field.tag = 0) (bufEnd ptr : Nat)
    (returnZval : Zval) : Loud (decodeField ctx decodeMessage schema bufEnd ptr returnZval) := by
  unfold decodeField
  split
  · exact nofun
  · rename_i key after _
    split
    · trivial
    · rename_i hzero
      have hnone : schema.fieldsByTag.lookup (keyTag key) = none := by
        rw [Option.eq_none_iff_forall_ne_some]
        intro field hlookup
        obtain ⟨hfield, htag⟩ := (hformed.byTag (keyTag key) field).mp hlookup
        exact hzero (htag.symm.trans (hunread field hfield))
      rw [hnone]
      dsimp only
      split
      · exact nofun
      · trivial

theorem decodeMessageInternal_loud (hformed : schema.WellFormed ctx.registry)
    (hunread : ∀ field ∈ schema.orderedFields, field.tag = 0) (depth ptr bufEnd : Nat)
    (returnZval : Zval) :
    Loud (decodeMessageInternal ctx depth ptr bufEnd schema returnZval) := by
  cases depth with
  | zero => exact nofun
  | succ depth =>
    refine whileBelow_invariant (fun _ _ => True) (by nofun) ?_ _ _ _ trivial
    exact fun ptr returnZval _ _ => decodeField_loud hformed hunread bufEnd ptr returnZval

theorem populateDefaultValuesAndCheckRequired_loud (schema : CompiledSchema) (decoded : Zval) :
    Loud (populateDefaultValuesAndCheckRequired schema decoded) := by
  refine Ends.foldlM (fun _ _ => True) (fun _ field decoded _ => ?_) _ trivial
  unfold populateField
  repeat' split
  all_goals first | trivial | exact nofun

end

/-! ### A key and nothing else -/

section

variable {wire : WireContext} {schemaName : Bytes} {schema : CompiledSchema} {field : FieldDef}

theorem value_nil (nested : Wire.MessageReader) (field : FieldDef) :
    Wire.value wire nested field field.wireType [] = .error (.fault .silent) := by
  have hwire : ¬ (field.wireType ≠ field.wireType ∧ field.flags.packed = false) := by simp
  rw [Wire.value, if_neg hwire]
  rcases Wire.layout field.type with _ | (_ | _ | _ | _) <;> rfl

/-- The decoder gives up on the missing value and throws nothing. -/
theorem quicproIibinDecode_key (hlayered : wire.registry.Layered)
    (hfound : wire.registry.Has schemaName schema)
    (hfield : field ∈ schema.orderedFields) (hreadable : field.tag ≠ 0) {buffer : Buffer}
    (hbytes : buffer.bytes = encodeVarint (wireKey field.tag field.wireType)) :
    quicproIibinDecode wire buffer.bytes.length schemaName buffer = .error .silent := by
  have hformed := hlayered.wellFormed hfound
  have htyped := hformed.fields field hfield
  obtain ⟨depth, hdepth⟩ := exists_depth hlayered hfound
  have hwire : field.wireType.toNat < 8 := by
    rw [htyped.wire]
    exact calculateFieldWireType_lt htyped.known _
  have hstep : Wire.field wire (Wire.message wire depth) schema
      (encodeVarint (wireKey field.tag field.wireType) ++ []) wire.emptyResult =
        .error (.fault .silent) := by
    rw [field_readable wire _ ((hformed.byTag field.tag field).mpr ⟨hfield, rfl⟩) hreadable hwire]
    split
    · rfl
    · rw [Wire.singleField, value_nil]
      rfl
  have hmeaning : Wire.message wire wire.registry.schemas.length schema buffer.bytes
      wire.emptyResult = Wire.lift (.error .silent) := by
    rw [List.append_nil] at hstep
    rw [hdepth, hbytes, Wire.message]
    exact drainAll_error (encodeVarint_ne_nil _) hstep
  rw [quicproIibinDecode_eq buffer wire (Nat.le_refl _) hfound hmeaning]
  rfl

end

/-- **Failures and exceptions.** For a schema name, every `FALSE` of the encoder and of the
    decoder comes with an exception exactly if no field can be read under that name. -/
theorem failures_reported_iff (host : Host) (registry : Registry)
    (hreach : Reachable (fun _ => True) registry) (reading : BoundReading) (schemaName : Bytes) :
    ((∀ data, Reported (quicproIibinEncode host registry schemaName data)) ∧
      ∀ (asObject : Bool) (buffer : Buffer) (fuel : Nat), buffer.bytes.length ≤ fuel →
        Reported (quicproIibinDecode ⟨host, registry, reading, asObject⟩ fuel schemaName
          buffer)) ↔
    ∀ schema, getCompiledIibinSchemaInternal registry schemaName = some schema →
      ∀ field ∈ schema.orderedFields, field.tag = 0 := by
  have hlayered := hreach.layered
  constructor
  · rintro ⟨-, hdecode⟩ schema hfound field hfield
    by_contra hreadable
    have hkey := encodeVarint_length_le (wireKey field.tag field.wireType)
    obtain ⟨buffer, hbytes⟩ := exists_buffer
      (hkey.trans_lt (by decide) :
        (encodeVarint (wireKey field.tag field.wireType)).length < 2 ^ 63)
    have hsilent : quicproIibinDecode ⟨host, registry, reading, false⟩ buffer.bytes.length
        schemaName buffer = .error .silent :=
      quicproIibinDecode_key hlayered hfound hfield hreadable hbytes
    obtain ⟨error, herror⟩ := hdecode false buffer _ (Nat.le_refl _) _ hsilent rfl
    cases herror
  · intro hunread
    refine ⟨quicproIibinEncode_reported host registry schemaName, fun asObject buffer fuel _ => ?_⟩
    apply Loud.reported
    unfold quicproIibinDecode
    split
    · exact nofun
    · rename_i schema hfound
      refine (decodeMessageInternal_loud (hlayered.wellFormed hfound) (hunread schema hfound) _ _ _
        _).bind fun _ _ => ?_
      exact (populateDefaultValuesAndCheckRequired_loud _ _).bind fun _ _ => trivial

/-- The tag 2^32 is cut to 0. -/
theorem failures_reported_iff_unread :
    (∀ data, Reported (quicproIibinEncode default
      (oneSchema (fieldOptions 4294967296 "int32" [])) (ascii "P") data)) ∧
    ∀ (asObject : Bool) (buffer : Buffer) (fuel : Nat), buffer.bytes.length ≤ fuel →
      Reported (quicproIibinDecode
        ⟨default, oneSchema (fieldOptions 4294967296 "int32" []), .asWritten, asObject⟩ fuel
        (ascii "P") buffer) := by
  refine (failures_reported_iff default _ ((oneSchema_reachable _).weaken fun _ _ => trivial)
    .asWritten (ascii "P")).mpr fun schema hfound => ?_
  obtain rfl := Option.some.inj hfound
  decide

/-- The key of an `int32` without its value. -/
theorem truncated_not_reported :
    quicproIibinDecode ⟨default, oneSchema (fieldOptions 1 "int32" []), .asWritten, false⟩ 1
      (ascii "P") (Buffer.place 4096 [0x08] (by decide) (by decide)) = .error .silent :=
  rfl

end QuicproAsync.Iibin

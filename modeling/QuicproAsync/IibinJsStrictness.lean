import QuicproAsync.IibinAcceptance
import QuicproAsync.IibinJsStoring

/-!
# What only the C decoder rejects

Both decoders bound the length of a varint, but not at the same byte: the C decoder stops
after ten, `readVarint` of `iibin.js` after eleven. A key of eleven bytes is therefore
malformed for the one and an unknown field for the other, whatever the schema. Behind
such a field the message continues with a zero for each required field, so that the
JavaScript decoder finds nothing missing.
-/

namespace QuicproAsync.Iibin.Js

open Php Fallible ScanLoop

variable {registry : Registry} {table : Schema} {type : FieldType} {obj : Props}

/-! ### Lengths in a byte string -/

/-- Cuts off one field, by the wire type of its key, and notes its length if it has one. -/
def splitField (bytes : Bytes) (lengths : List Nat) : Except Error (Bytes × List Nat) := do
  let (key, rest) ← readVarint bytes
  let after ← skipField rest (key &&& 7)
  if key &&& 7 = 2 then do
    let (len, _) ← readVarint rest
    .ok (after, lengths ++ [len])
  else .ok (after, lengths)

/-- The byte string splits into fields, and every length in it is below 2^53. -/
def ShortLengths (bytes : Bytes) : Prop :=
  ∃ lengths, drainAll .exhausted splitField bytes [] = .ok lengths ∧ ∀ len ∈ lengths, len < 2 ^ 53

theorem splitField_shrinks : Shrinks (guarded .exhausted splitField) := by
  intro bytes lengths rest lengths' hstep
  rcases bytes with _ | ⟨byte, bytes⟩
  · cases hstep
  have hproper : Proper (fun out => Shorter (byte :: bytes) out.1)
      (splitField (byte :: bytes) lengths) := by
    refine (readVarint_own _).proper.bind fun key hkey => ?_
    refine (skipField_own _ _).proper.bind fun after hafter => ?_
    dsimp only
    split
    · exact (readVarint_own _).proper.bind fun _ _ => hkey.trans hafter
    · exact hkey.trans hafter
  exact (hproper.ok hstep).2 (List.cons_ne_nil _ _)

/-! ### The overlong key -/

/-- The number 2^70 in eleven bytes. -/
def overlongKey : Bytes := [0x80, 0x80, 0x80, 0x80, 0x80, 0x80, 0x80, 0x80, 0x80, 0x80, 0x01]

theorem varint_overlongKey (rest : Bytes) : Wire.varint (overlongKey ++ rest) = none := rfl

variable {schema : CompiledSchema}

/-- The C decoder stops at the key. -/
theorem quicproIibinDecode_overlongKey {wire : WireContext} (hlayered : wire.registry.Layered)
    {schemaName : Bytes} (hfound : wire.registry.Has schemaName schema) {buffer : Buffer}
    {rest : Bytes} (hbytes : buffer.bytes = overlongKey ++ rest) {fuel : Nat}
    (hfuel : buffer.bytes.length ≤ fuel) :
    quicproIibinDecode wire fuel schemaName buffer =
      .error (.exception (.malformedKey schema.schemaName)) := by
  obtain ⟨depth, hdepth⟩ :=
    Nat.exists_eq_add_one.mpr (Nat.zero_lt_of_lt (position_lt_length hlayered hfound))
  have hmeaning : Wire.message wire wire.registry.schemas.length schema buffer.bytes
      wire.emptyResult = Wire.lift (.error (.exception (.malformedKey schema.schemaName))) := by
    rw [hdepth, hbytes, Wire.message]
    refine drainAll_error (List.cons_ne_nil _ _) ?_
    rw [Wire.field, varint_overlongKey]
  rw [quicproIibinDecode_eq buffer wire hfuel hfound hmeaning]
  rfl

section

variable (env : Env) {decodeNested : Decoder} {schema : CompiledSchema}
  (hnested : ∀ bytes schema, Proper (fun _ => True) (decodeNested bytes schema))

theorem lookup_large (hmirrors : MirrorsSchema schema table) {tag : Nat} (htag : 2 ^ 32 ≤ tag) :
    table.fieldsByTag.lookup tag = none := by
  rw [List.lookup_eq_none_iff]
  intro entry hentry
  obtain ⟨field, -, hmirror⟩ := OrderedMap.exists_related hmirrors.flip hentry
  have hlt := field.tag.isLt
  rw [bne_iff_ne, hmirror.tag]
  omega

include hnested

/-- The JavaScript decoder takes it for the key of a field it does not know. -/
theorem overlong_runs (hmirrors : MirrorsSchema schema table) :
    Delivers env decodeNested table (overlongKey ++ [0]) .ok := by
  refine Runs.of_step (decodeField_shrinks env hnested table) (List.cons_ne_nil _ _)
    fun rest obj => ?_
  have hkey : readVarint (overlongKey ++ [0] ++ rest) = .ok (2 ^ 70, 0 :: rest) := rfl
  have htag : roundTo 53 (2 ^ 70 >>> 3) = 2 ^ 67 := by decide
  have hnone := lookup_large hmirrors (by decide : 2 ^ 32 ≤ 2 ^ 67)
  have hne : overlongKey ++ [0] ++ rest ≠ [] := List.cons_ne_nil _ _
  rw [guarded_of_ne hne]
  simp only [decodeField, hkey, bind, Except.bind, htag, hnone]
  rfl

end

/-! ### Zeros for the required fields -/

/-- A zero under the wire type of its own type, also for a packed field. -/
def zeroBytes (field : Iibin.FieldDef) : Bytes :=
  encodeVarint (wireKey field.tag (calculateFieldWireType field.type false)) ++
    samplePayload field.type

def zero (type : FieldType) : Value := seen default type (.long 0)

/-- The fields that the decoder insists on and can find missing. -/
def needed (fields : List Iibin.FieldDef) : List Iibin.FieldDef :=
  fields.filter fun field => field.flags.required ∧ field.nameInPhp ∉ inheritedNames

theorem samplePayload_eq (hintegral : type.isIntegral = true) :
    samplePayload type = encodePackedItem default type (.long 0) := by
  cases type <;> first | contradiction | decide

theorem isTruthy_zero (hintegral : type.isIntegral = true) :
    (zero type).isTruthy = false := by
  cases type <;> first | contradiction | decide

theorem skipField_zero (hintegral : type.isIntegral = true) (rest : Bytes) :
    (calculateFieldWireType type false).toNat < 8 ∧ (calculateFieldWireType type false).toNat ≠ 2 ∧
      skipField (samplePayload type ++ rest) (calculateFieldWireType type false).toNat =
        .ok rest := by
  cases type <;> first | contradiction | exact ⟨by decide, by decide, rfl⟩

/-- A zero holds no length. -/
theorem splitField_zero {field : Iibin.FieldDef} (hintegral : field.type.isIntegral = true) :
    Runs .exhausted (guarded .exhausted splitField) id (zeroBytes field) .ok := by
  have hne : zeroBytes field ≠ [] :=
    List.append_ne_nil_of_left_ne_nil (encodeVarint_ne_nil _) _
  refine Runs.of_step splitField_shrinks hne fun rest lengths => ?_
  obtain ⟨hwire, hplain, hskip⟩ := skipField_zero hintegral rest
  have hlow := (key_parts (wireKey_toNat field.tag hwire) hwire).2
  rw [guarded_of_ne (List.append_ne_nil_of_left_ne_nil hne _), zeroBytes, List.append_assoc]
  simp only [splitField, readVarint_encodeVarint, bind, Except.bind, hlow, hskip, if_neg hplain]

theorem splitField_overlong :
    Runs .exhausted (guarded .exhausted splitField) id (overlongKey ++ [0]) .ok := by
  refine Runs.of_step splitField_shrinks (List.cons_ne_nil _ _) fun rest lengths => ?_
  have hne : overlongKey ++ [0] ++ rest ≠ [] := List.cons_ne_nil _ _
  rw [guarded_of_ne hne]
  rfl

variable {fields : List Iibin.FieldDef}

theorem shortLengths_zeros (hintegral : ∀ field ∈ fields, field.type.isIntegral = true) :
    ShortLengths (overlongKey ++ [0] ++ fields.flatMap zeroBytes) := by
  have hzeros : Runs .exhausted (guarded .exhausted splitField) id (fields.flatMap zeroBytes)
      .ok := by
    induction fields with
    | nil => exact Runs.nil
    | cons field rest ih =>
      obtain ⟨hfield, hrest⟩ := List.forall_mem_cons.mp hintegral
      exact (splitField_zero hfield).append (ih hrest)
  refine ⟨[], ?_, by simp⟩
  rw [← drainAll_guarded]
  exact (splitField_overlong.append hzeros).drainAll_eq []

/-- An own property is an array, or a zero that a `push` replaces by one. -/
structure Pushable (obj : Props) : Prop extends Defined obj where
  arrays : ∀ name value, obj.lookup name = some value →
    value.isTruthy = true → ∃ items, value = .array items

theorem Pushable.assign (hpush : Pushable obj) {value : Value} (hdefined : value ≠ .undefined)
    (harray : value.isTruthy = true → ∃ items, value = .array items) {name : Bytes}
    (hname : name ∉ inheritedNames) : Pushable (OrderedMap.assign name value obj) := by
  refine ⟨⟨hpush.ordinary.assign (ne_protoName hname) _, fun other hfound => ?_⟩,
    fun other found hfound => ?_⟩
  · rw [OrderedMap.lookup_assign] at hfound
    split at hfound
    · exact hdefined (Option.some.inj hfound)
    · exact hpush.own other hfound
  · rw [OrderedMap.lookup_assign] at hfound
    split at hfound
    · obtain rfl := Option.some.inj hfound
      exact harray
    · exact hpush.arrays other found hfound

theorem Pushable.pushProperty (env : Env) (hpush : Pushable obj) {name : Bytes}
    (hname : name ∉ inheritedNames) (value : Value) :
    ∃ items, pushProperty env obj name value = .ok (OrderedMap.assign name (.array items) obj) := by
  by_cases harray : IsArray (obj.lookup name)
  · exact ⟨_, pushProperty_eq env hpush.ordinary hname harray value⟩
  · -- what is there is a zero
    obtain ⟨old, hold, hnot⟩ : ∃ old, obj.lookup name = some old ∧ ∀ items, old ≠ .array items := by
      simpa [IsArray] using harray
    have hfalsy : (getProperty env obj name).isTruthy = false := by
      rw [getProperty_of_some env hpush.ordinary hold]
      refine Bool.eq_false_of_not_eq_true fun htruthy => ?_
      obtain ⟨items, hitems⟩ := hpush.arrays name old hold htruthy
      exact hnot items hitems
    exact ⟨[value], pushProperty_made env hpush.ordinary (ne_protoName hname) hfalsy value⟩

theorem deliver_zero (env : Env) {field : Iibin.FieldDef}
    (hintegral : field.type.isIntegral = true) (hname : field.nameInPhp ∉ inheritedNames)
    (hpush : Pushable obj) :
    ∃ value, deliver env field obj (zero field.type) =
        .ok (OrderedMap.assign field.nameInPhp value obj) ∧
      Pushable (OrderedMap.assign field.nameInPhp value obj) := by
  cases hrepeated : field.flags.repeated with
  | true =>
    obtain ⟨items, hitems⟩ := hpush.pushProperty env hname (zero field.type)
    refine ⟨.array items, by rw [deliver, if_pos hrepeated, hitems], ?_⟩
    refine hpush.assign ?_ (fun _ => ⟨items, rfl⟩) hname
    intro hundefined
    cases hundefined
  | false =>
    have hstore := setProperty_eq env hpush.ordinary (ne_protoName hname) (zero field.type)
    have hfalsy := isTruthy_zero hintegral
    refine ⟨zero field.type, by simp [deliver, hrepeated, hstore], ?_⟩
    have hdefined : zero field.type ≠ .undefined :=
      seen_ne_undefined default (FieldType.isPackable_of_isIntegral hintegral) _
    refine hpush.assign hdefined (fun htruthy => ?_) hname
    rw [hfalsy] at htruthy
    cases htruthy

theorem deliver_zeros (env : Env) (hintegral : ∀ field ∈ fields, field.type.isIntegral = true)
    (hnames : ∀ field ∈ fields, field.nameInPhp ∉ inheritedNames) (hpush : Pushable obj) :
    ∃ final,
      fields.foldlM (fun obj field => deliver env field obj (zero field.type)) obj = .ok final ∧
      Pushable final ∧ (∀ name, (obj.lookup name).isSome → (final.lookup name).isSome) ∧
      ∀ field ∈ fields, (final.lookup field.nameInPhp).isSome := by
  induction fields generalizing obj with
  | nil => exact ⟨obj, rfl, hpush, fun _ hsome => hsome, by simp⟩
  | cons field rest ih =>
    obtain ⟨hfield, hrest⟩ := List.forall_mem_cons.mp hintegral
    obtain ⟨hname, hothers⟩ := List.forall_mem_cons.mp hnames
    obtain ⟨value, hdeliver, hnext⟩ := deliver_zero env hfield hname hpush
    obtain ⟨final, hfinal, hpushed, hkeeps, hall⟩ := ih hrest hothers hnext
    refine ⟨final, by rw [List.foldlM_cons, hdeliver]; exact hfinal, hpushed,
      fun name hsome => ?_, List.forall_mem_cons.mpr ⟨?_, hall⟩⟩
    · refine hkeeps name ?_
      rw [OrderedMap.lookup_assign]
      split
      · rfl
      · exact hsome
    · refine hkeeps field.nameInPhp ?_
      rw [OrderedMap.lookup_assign_self]
      rfl

/-! ### The comparison -/

theorem zeros_runs (env : Env) {decodeNested : Decoder}
    (hnested : ∀ bytes schema, Proper (fun _ => True) (decodeNested bytes schema))
    (hformed : schema.WellFormed registry) (hmirrors : MirrorsSchema schema table)
    (hfields : fields ⊆ schema.orderedFields)
    (hintegral : ∀ field ∈ fields, field.type.isIntegral = true) :
    Delivers env decodeNested table (fields.flatMap zeroBytes)
      (fields.foldlM fun obj field => deliver env field obj (zero field.type)) := by
  induction fields with
  | nil => exact Runs.nil
  | cons field rest ih =>
    obtain ⟨hmem, hsubset⟩ := List.cons_subset.mp hfields
    obtain ⟨hfield, hrest⟩ := List.forall_mem_cons.mp hintegral
    obtain ⟨mirror, hlookup, hmirror⟩ := hmirrors.lookup hformed hmem
    obtain ⟨hwire, hplain, -⟩ := skipField_zero hfield []
    have htype : mirror.type = field.type := hmirror.type
    have hpackable := FieldType.isPackable_of_isIntegral hfield
    have hread : ∀ more, readScalar env decodeNested mirror (samplePayload field.type ++ more) =
        .ok (zero field.type, more) := by
      intro more
      rw [samplePayload_eq hfield, zero, ← htype]
      exact readScalar_encodePackedItem env decodeNested (by rwa [htype]) default (.long 0) more
    have hfirst : Delivers env decodeNested table (zeroBytes field)
        fun obj => .ok (zero field.type) >>= deliver env field obj :=
      single_delivered hnested (wireKey_toNat field.tag hwire) hwire
        (fun hboth => hplain hboth.2) hlookup hmirror hread
    exact hfirst.append (ih hsubset hrest)

/-- The message with the overlong key in front. -/
def laxBytes (schema : CompiledSchema) : Bytes :=
  overlongKey ++ [0] ++ (needed schema.orderedFields).flatMap zeroBytes

theorem decode_laxBytes (env : Env) (depth : Nat) (hformed : schema.WellFormed registry)
    (hmirrors : MirrorsSchema schema table) (hintegral : schema.IsIntegral) :
    ∃ obj, decode env (depth + 1) (laxBytes schema) table = .ok obj := by
  have hneeded : ∀ field ∈ needed schema.orderedFields, field ∈ schema.orderedFields ∧
      field.flags.required = true ∧ field.nameInPhp ∉ inheritedNames := by
    intro field hfield
    simpa [needed] using hfield
  have hzeros := zeros_runs env (decode_proper env depth) hformed hmirrors
    (fun field hfield => (hneeded field hfield).1)
    (fun field hfield => hintegral field (hneeded field hfield).1)
  obtain ⟨obj, hobj, hpush, -, hall⟩ := deliver_zeros env
    (fun field hfield => hintegral field (hneeded field hfield).1)
    (fun field hfield => (hneeded field hfield).2.2)
    (⟨⟨rfl, fun _ hnone => nomatch hnone⟩, fun _ _ hnone => nomatch hnone⟩ : Pushable [])
  have hdrain : drainAll .exhausted (decodeField env (decode env depth) table) (laxBytes schema)
      [] = .ok obj := by
    rw [← drainAll_guarded]
    refine (((overlong_runs env (decode_proper env depth) hmirrors).append hzeros).drainAll_eq
      []).trans ?_
    exact congrArg (fun result => result >>= fun obj => .ok (id obj)) hobj
  have hsupplied : Supplied obj table.fieldsByTag := by
    intro before entry after hsplit hrequired
    by_cases hname : entry.2.name ∈ inheritedNames
    · exact Or.inl hname
    · have hentry : entry ∈ table.fieldsByTag := by simp [hsplit]
      obtain ⟨field, hfield, hmirror⟩ := OrderedMap.exists_related hmirrors.flip hentry
      rw [hmirror.name] at hname ⊢
      rw [hmirror.flags] at hrequired
      have hsome := hall field (by simp [needed, hfield, hrequired, hname])
      refine Or.inr ?_
      rw [Option.isSome_or, hsome]
      rfl
  obtain ⟨final, hfinal, -⟩ := populate_ok env table.name hpush.toDefined hsupplied
  refine ⟨final, ?_⟩
  rw [decode, hdrain]
  exact hfinal

theorem laxBytes_length (hformed : schema.WellFormed registry) :
    (laxBytes schema).length < 2 ^ 63 := by
  have hzero : ∀ field : Iibin.FieldDef, (zeroBytes field).length ≤ 18 := by
    intro field
    have hkey := encodeVarint_length_le
      (wireKey field.tag (calculateFieldWireType field.type false))
    have hpayload : (samplePayload field.type).length ≤ 8 := by
      unfold samplePayload
      split <;> decide
    rw [zeroBytes, List.length_append]
    omega
  have hzeros : ∀ fields : List Iibin.FieldDef,
      (fields.flatMap zeroBytes).length ≤ 18 * fields.length := by
    intro fields
    induction fields with
    | nil => exact Nat.le_refl _
    | cons field rest ih =>
      have hfirst := hzero field
      rw [List.flatMap_cons, List.length_append, List.length_cons]
      omega
  have hcount := orderedFields_length_le hformed fun field _ => field.tag.isLt
  have hfilter : (needed schema.orderedFields).length ≤ schema.orderedFields.length :=
    List.length_filter_le _ _
  have hall := hzeros (needed schema.orderedFields)
  have hkey : (overlongKey ++ [0]).length = 12 := rfl
  rw [laxBytes, List.length_append, hkey]
  omega

/-- **No schema makes the JavaScript decoder as strict as the C decoder.** -/
theorem js_never_as_strict (host : Host) (env : Env) (depth : Nat) (registry : Registry)
    (hreach : Reachable (fun _ => True) registry) (schemaName : Bytes) (schema : CompiledSchema)
    (hfound : getCompiledIibinSchemaInternal registry schemaName = some schema)
    (hintegral : ∀ field ∈ schema.orderedFields, field.type.isIntegral = true)
    (table : Schema) (hmirrors : MirrorsSchema schema table) (asObject : Bool) :
    ¬ ∀ (buffer : Buffer) (fuel : Nat), buffer.bytes.length ≤ fuel → ShortLengths buffer.bytes →
      (∃ fault, quicproIibinDecode ⟨host, registry, .asWritten, asObject⟩ fuel schemaName buffer =
        .error fault) →
      ∃ error, decode env (depth + 1) buffer.bytes table = .error error := by
  intro hstrict
  have hlayered := hreach.layered
  have hformed := hlayered.wellFormed hfound
  obtain ⟨buffer, hbytes⟩ := exists_buffer (laxBytes_length hformed)
  have hshort : ShortLengths buffer.bytes := by
    rw [hbytes]
    exact shortLengths_zeros fun field hfield => hintegral field (List.mem_of_mem_filter hfield)
  have hreject : quicproIibinDecode ⟨host, registry, .asWritten, asObject⟩ buffer.bytes.length
      schemaName buffer = .error (.exception (.malformedKey schema.schemaName)) :=
    quicproIibinDecode_overlongKey hlayered hfound (hbytes.trans (List.append_assoc _ _ _))
      (Nat.le_refl _)
  obtain ⟨error, herror⟩ := hstrict buffer _ (Nat.le_refl _) hshort ⟨_, hreject⟩
  obtain ⟨obj, hok⟩ := decode_laxBytes env depth hformed hmirrors hintegral
  rw [hbytes, hok] at herror
  cases herror

theorem js_never_as_strict_int32 :
    ¬ ∀ (buffer : Buffer) (fuel : Nat), buffer.bytes.length ≤ fuel → ShortLengths buffer.bytes →
      (∃ fault, quicproIibinDecode
        ⟨default, oneSchema (fieldOptions 1 "int32" []), .asWritten, false⟩ fuel (ascii "P")
          buffer = .error fault) →
      ∃ error, decode ⟨[], id, default⟩ 1 buffer.bytes int32Table = .error error := by
  obtain ⟨schema, hfound, hmirrors⟩ := int32_mirrors
  have hintegral : ∀ field ∈ schema.orderedFields, field.type.isIntegral = true := by
    obtain rfl := Option.some.inj hfound
    decide
  exact js_never_as_strict default ⟨[], id, default⟩ 0 _
    ((oneSchema_reachable _).weaken fun _ _ => trivial) (ascii "P") schema hfound hintegral
    int32Table hmirrors false

/-- The key of `x` with nothing behind it: a truncated value for the one, 0 for the other. -/
theorem truncated_value_read :
    (∃ schema, getCompiledIibinSchemaInternal (oneSchema (fieldOptions 1 "int32" [])) (ascii "P") =
      some schema ∧ MirrorsSchema schema int32Table) ∧
    quicproIibinDecode ⟨default, oneSchema (fieldOptions 1 "int32" []), .asWritten, false⟩ 1
        (ascii "P") (Buffer.place 4096 [0x08] (by decide) (by decide)) = .error .silent ∧
      decode ⟨[], id, default⟩ 1 [0x08] int32Table = .ok [(ascii "x", .number 0)] :=
  ⟨int32_mirrors, rfl, rfl⟩

end QuicproAsync.Iibin.Js
